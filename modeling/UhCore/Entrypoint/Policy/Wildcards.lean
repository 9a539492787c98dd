import Mathlib.Data.List.TakeWhile
import UhCore.Lib.Glob
import UhCore.Entrypoint.Policy.Variables

/-!
What patterns with wildcards and variables match. The matcher decides the language
of a pattern. In front of it the wildcards of a pattern are moved to two reserved
characters and its variables are replaced.
-/

namespace UhCore.Entrypoint.Policies

open Glob List Option Option

/-- The recursion of `equals_wildcard` over the indices in pattern and text. -/
def equalsWildcardAt (asterisk questionmark : Char) (pattern str : Text) (i j : Nat) : Bool :=
  if hi : i < pattern.length then
    if pattern[i] = asterisk then
      equalsWildcardAt asterisk questionmark pattern str (i + 1) j ||
        if hj : j < str.length then equalsWildcardAt asterisk questionmark pattern str i (j + 1)
        else false
    else if pattern[i] = questionmark ∨ str[j]? = some pattern[i] then
      equalsWildcardAt asterisk questionmark pattern str (i + 1) (j + 1)
    else false
  else decide (j = str.length)
termination_by (pattern.length - i, str.length - j)

def wildcardToken (asterisk questionmark c : Char) : Token Char :=
  if c = asterisk then .any else if c = questionmark then .one else .lit c

section Matching

variable (asterisk questionmark : Char)

theorem equalsWildcardAt_iff (pattern str : Text) (i j : Nat) :
    equalsWildcardAt asterisk questionmark pattern str i j = true ↔
      j ≤ str.length ∧
        Matches ((pattern.drop i).map (wildcardToken asterisk questionmark)) (str.drop j) := by
  induction i, j using equalsWildcardAt.induct asterisk questionmark pattern str with
  | case1 i j hi hp ihskip ihtake =>
    rw [equalsWildcardAt, dif_pos hi, if_pos hp, Bool.or_eq_true, ihskip,
      drop_eq_getElem_cons hi, map_cons, wildcardToken, if_pos hp, matches_any_iff]
    by_cases hj : j < str.length
    · have hne : str.drop j ≠ [] := by simpa using hj
      have hle : j + 1 ≤ str.length ↔ j ≤ str.length := ⟨fun _ => hj.le, fun _ => hj⟩
      rw [dif_pos hj, ihtake hj, hle, ← and_or_left, tail_drop,
        drop_eq_getElem_cons hi, map_cons, wildcardToken, if_pos hp]
      simp only [hne, ne_eq, not_false_eq_true, true_and]
    · have hnil : str.drop j = [] := by simpa using hj
      simp [hj, hnil]
  | case2 i j hi hp hq ih =>
    rw [equalsWildcardAt, dif_pos hi, if_neg hp, if_pos hq, ih,
      drop_eq_getElem_cons hi, map_cons, wildcardToken, if_neg hp]
    split
    case isTrue =>
      rw [matches_one_iff, tail_drop]
      have hne : str.drop j ≠ [] ↔ j < str.length := by simp
      rw [hne]
      constructor
      · intro h
        exact ⟨Nat.le_of_succ_le h.1, h.1, h.2⟩
      · intro h
        exact ⟨h.2.1, h.2.2⟩
    case isFalse hno =>
      have hhead := hq.resolve_left hno
      rw [matches_lit_iff, tail_drop, head?_drop]
      have hj : j < str.length := (List.getElem?_eq_some_iff.mp hhead).1
      simp only [hhead, true_and]
      have hle : j + 1 ≤ str.length ↔ j ≤ str.length := ⟨fun _ => hj.le, fun _ => hj⟩
      rw [hle]
  | case3 i j hi hp hq =>
    rw [equalsWildcardAt, dif_pos hi, if_neg hp, if_neg hq,
      drop_eq_getElem_cons hi, map_cons, wildcardToken, if_neg hp,
      if_neg (fun h => hq (.inl h)), matches_lit_iff, head?_drop]
    have hhead : str[j]? ≠ some pattern[i] := fun h => hq (.inr h)
    simp only [hhead, Bool.false_eq_true, false_and, and_false]
  | case4 i j hi =>
    rw [equalsWildcardAt, dif_neg hi, drop_eq_nil_of_le (Nat.le_of_not_lt hi), map_nil,
      matches_nil_iff, drop_eq_nil_iff, decide_eq_true_iff]
    exact ⟨fun h => ⟨h.le, h.ge⟩, fun h => le_antisymm h.1 h.2⟩

/-- With as many rounds as pattern and text have characters nothing is left out. -/
theorem matchWildcard_iff (fuel : Nat) (pattern : Text) (str : Option Text)
    (hfuel : pattern.length + (str.getD []).length ≤ fuel) :
    matchWildcard asterisk questionmark fuel pattern str = true ↔
      ∃ text, str = some text ∧
        Matches (pattern.map (wildcardToken asterisk questionmark)) text := by
  induction fuel generalizing pattern str with
  | zero =>
    have hnil : pattern = [] := eq_nil_of_length_eq_zero (by omega)
    simp [hnil, matchWildcard, matches_nil_iff]
  | succ fuel ih =>
    cases pattern with
    | nil => simp [matchWildcard, matches_nil_iff]
    | cons p pattern =>
      rw [length_cons] at hfuel
      have hnone : matchWildcard asterisk questionmark fuel pattern none = false := by
        have h := ih pattern none (by rw [getD_none, length_nil]; omega)
        simpa using h
      rw [matchWildcard, map_cons, wildcardToken]
      cases str with
      | none => simp [advance, hnone]
      | some text =>
        simp only [some.injEq, exists_eq_left', getD_some] at hfuel ih ⊢
        cases text with
        | nil =>
          have hskip := ih pattern (some []) (by simpa using hfuel)
          by_cases hp : p = asterisk
          · rw [if_pos hp, if_pos hp, matches_any_iff]
            simpa using hskip
          · by_cases hq : p = questionmark
            · rw [if_neg hp, if_neg hp, if_pos hq, matches_one_iff]
              simp [advance, hnone]
            · rw [if_neg hp, if_neg hp, if_neg hq, matches_lit_iff]
              simp [hq]
        | cons c text =>
          rw [length_cons] at hfuel
          have hboth := ih pattern (some text) (by rw [getD_some]; omega)
          simp only [some.injEq, exists_eq_left'] at hboth
          by_cases hp : p = asterisk
          · have hskip := ih pattern (some (c :: text)) (by
              rw [getD_some, length_cons]; omega)
            have htake := ih (p :: pattern) (some text) (by
              rw [getD_some, length_cons]; omega)
            rw [map_cons, wildcardToken, if_pos hp] at htake
            simp only [some.injEq, exists_eq_left'] at hskip htake
            rw [if_pos hp, if_pos hp, matches_any_iff, Bool.or_eq_true, hskip]
            simp [advance, htake]
          · by_cases hq : p = questionmark
            · rw [if_neg hp, if_neg hp, if_pos hq, matches_one_iff]
              simp [advance, hboth, hq]
            · rw [if_neg hp, if_neg hp, if_neg hq, matches_lit_iff]
              by_cases hc : c = p <;> simp [hq, hc, advance, hboth]

end Matching

/-- The matcher ends on every pattern and text and decides the language of the
pattern; behind the end of the text nothing matches. -/
theorem equalsWildcard_decides (pattern str : Text) :
    equalsWildcard pattern str = equalsWildcardAt '*' '?' pattern str 0 0 ∧
    (equalsWildcardAt '*' '?' pattern str 0 0 = true ↔
      Matches (pattern.map (wildcardToken '*' '?')) str) ∧
    ∀ i n, equalsWildcardAt '*' '?' pattern str i (str.length + 1 + n) = false := by
  have hat := equalsWildcardAt_iff '*' '?' pattern str 0 0
  simp only [Nat.zero_le, drop_zero, true_and] at hat
  have hmatch := matchWildcard_iff '*' '?' (wildcardFuel pattern str) pattern (some str)
    (by simp only [wildcardFuel, getD_some]; omega)
  simp only [some.injEq, exists_eq_left'] at hmatch
  refine ⟨Bool.eq_iff_iff.mpr (hmatch.trans hat.symm), hat, ?_⟩
  intro i n
  rw [Bool.eq_false_iff, ne_eq, equalsWildcardAt_iff]
  omega

/-- The characters that wildcards are, in a policy or while variables are replaced. -/
def marks : List Char := ['*', '?', tempAsterisk, tempQuestionmark]

theorem forall_marks {p : Char → Prop} :
    (∀ c ∈ marks, p c) ↔ p '*' ∧ p '?' ∧ p tempAsterisk ∧ p tempQuestionmark := by
  simp [marks]

/-- Values of variables. The names of variables have no wildcards in them. -/
structure Variables where
  get : Text → Option Text
  plain : ∀ name value, get name = some value → ∀ c ∈ name, c ∉ marks

theorem Context.get_plain (ctx : Context) (name value : Text) (h : ctx.get name = some value) :
    ∀ c ∈ name, c ∉ marks := by
  intro c hc hmark
  obtain ⟨entry, hfind, -⟩ := bind_eq_some_iff.mp h
  have hname : Http.lowercase entry.1 = Http.lowercase name := by
    simpa [Http.equalsNocase] using find?_some hfind
  have hlow : c ∈ Http.lowercase entry.1 := by
    rw [hname]
    have hfix : ∀ m ∈ marks, m.toLower = m := forall_marks.mpr (by decide)
    exact List.mem_map.mpr ⟨c, hc, hfix c hmark⟩
  have hkeys : ((valueProvider ctx).all fun p =>
      marks.all fun m => !(Http.lowercase p.1).contains m) = true := rfl
  have hkey := List.all_eq_true.mp hkeys entry (mem_of_find?_eq_some hfind)
  have hno := List.all_eq_true.mp hkey c hmark
  simp [hlow] at hno

def Context.variables (ctx : Context) : Variables := ⟨ctx.get, ctx.get_plain⟩

def remapWildcard (c : Char) : Char :=
  if c = '*' then tempAsterisk else if c = '?' then tempQuestionmark else c

/-- `equals_wildcard` with any values of the variables. -/
def equalsWildcardWith (get : Text → Option Text) (pattern str : Text) : Bool :=
  let buf := pattern.map remapWildcard
  let buf := varReplaceLoop tempAsterisk tempQuestionmark get buf.length none buf
  matchWildcard tempAsterisk tempQuestionmark (wildcardFuel buf str) buf (some str)

theorem equalsWildcardVars_eq (pattern str : Text) (ctx : Context) :
    equalsWildcardVars pattern str ctx = equalsWildcardWith ctx.variables.get pattern str := rfl

/-- The pattern with its variables replaced. -/
def matchedTokens (get : Text → Option Text) (pattern : Text) : List (Token Char) :=
  (varReplaceLoop tempAsterisk tempQuestionmark get (pattern.map remapWildcard).length none
    (pattern.map remapWildcard)).map (wildcardToken tempAsterisk tempQuestionmark)

variable (get : Text → Option Text) (vars : Variables)

theorem equalsWildcardWith_iff (pattern str : Text) :
    equalsWildcardWith get pattern str = true ↔ Matches (matchedTokens get pattern) str := by
  rw [equalsWildcardWith, matchWildcard_iff _ _ _ _ _ (by
    simp only [wildcardFuel, getD_some]
    omega)]
  simp only [some.injEq, exists_eq_left']
  rfl

/-- A part of a pattern: a character, a `$` before a character other than an opening
brace, or a variable. -/
inductive Segment where
  | plain (c : Char)
  | dollar
  | reference (name : Text)
  deriving DecidableEq

def segments : Text → List Segment
  | [] => []
  | c :: rest =>
    if c = '$' then
      match rest with
      | [] => [.plain c]
      | d :: more =>
        if d = '{' then
          if '}' ∈ more then
            .reference (more.takeWhile (· ≠ '}')) :: segments (more.dropWhile (· ≠ '}')).tail
          else (c :: d :: more).map .plain
        else .dollar :: segments (d :: more)
    else .plain c :: segments rest
termination_by text => text.length
decreasing_by
  · have hle := (dropWhile_sublist (fun c => decide (c ≠ '}')) (l := more)).length_le
    rw [length_tail, length_cons, length_cons]
    omega
  · exact Nat.lt_succ_self _
  · exact Nat.lt_succ_self _

/-- What a variable stands for. -/
def substituted (asterisk questionmark : Char) (get : Text → Option Text) (name : Text) : Text :=
  (get name).getD (specialCharacter asterisk questionmark name)

/-- What a part of a pattern is meant to match. -/
def Segment.tokens (get : Text → Option Text) : Segment → List (Token Char)
  | .plain c => [wildcardToken '*' '?' c]
  | .dollar => [.lit '$']
  | .reference name => (substituted '*' '?' get name).map .lit

/-- What becomes of a part of a pattern when variables are replaced. -/
def Segment.replaced (get : Text → Option Text) : Segment → Text
  | .plain c => [remapWildcard c]
  | .dollar => []
  | .reference name => substituted tempAsterisk tempQuestionmark get (name.map remapWildcard)

theorem remapWildcard_eq_iff {c d : Char} (hd : d ∉ marks) : remapWildcard c = d ↔ c = d := by
  unfold remapWildcard
  split_ifs <;> grind [marks]

theorem varReplaceLoop_eq {pattern : Text} (hpat : '\\' ∉ pattern) {fuel : Nat}
    (hfuel : pattern.length ≤ fuel) {last : Option Char} (hlast : last ≠ some '\\') :
    varReplaceLoop tempAsterisk tempQuestionmark get fuel last (pattern.map remapWildcard) =
      (segments pattern).flatMap (·.replaced get) := by
  have hdollar {c : Char} : remapWildcard c = '$' ↔ c = '$' := remapWildcard_eq_iff (by decide)
  have hopen {c : Char} : remapWildcard c = '{' ↔ c = '{' := remapWildcard_eq_iff (by decide)
  have hclose {c : Char} : remapWildcard c = '}' ↔ c = '}' := remapWildcard_eq_iff (by decide)
  have hback {c : Char} : remapWildcard c = '\\' ↔ c = '\\' := remapWildcard_eq_iff (by decide)
  induction pattern using segments.induct generalizing fuel last with
  | case1 => cases fuel <;> simp [varReplaceLoop, segments]
  | case2 =>
    obtain ⟨fuel, rfl⟩ := Nat.exists_eq_succ_of_ne_zero (ne_of_gt hfuel)
    simp [varReplaceLoop, segments, hlast, Segment.replaced, remapWildcard]
  | case3 more hmem ih =>
    obtain ⟨fuel, rfl⟩ := Nat.exists_eq_succ_of_ne_zero (by
      rw [length_cons] at hfuel
      omega : fuel ≠ 0)
    have hname : (more.map remapWildcard).takeWhile (· ≠ '}') =
        (more.takeWhile (· ≠ '}')).map remapWildcard := by
      rw [takeWhile_map]
      simp [Function.comp_def, hclose]
    have hsplit : (more.map remapWildcard).dropWhile (· ≠ '}') =
        (more.dropWhile (· ≠ '}')).map remapWildcard := by
      rw [dropWhile_map]
      simp [Function.comp_def, hclose]
    have hsub := dropWhile_sublist (fun c => decide (c ≠ '}')) (l := more)
    cases hafter : more.dropWhile (· ≠ '}') with
    | nil =>
      have hall := dropWhile_eq_nil_iff.mp hafter '}' hmem
      simp at hall
    | cons close after =>
      rw [hafter] at hsub
      have hno : '\\' ∉ after := fun h =>
        hpat (.tail _ (.tail _ (hsub.subset (.tail _ h))))
      have hlen := hsub.length_le
      simp only [length_cons] at hfuel hlen
      rw [hafter, tail_cons] at ih
      have hrest := ih hno (by omega : after.length ≤ fuel) (by simp : some '$' ≠ some '\\')
      rw [segments, if_pos rfl, if_pos rfl, if_pos hmem, flatMap_cons, hafter, tail_cons, ← hrest]
      rw [hafter, map_cons] at hsplit
      simp only [map_cons, varReplaceLoop, hlast, hdollar.mpr, hopen.mpr, if_true, if_false,
        hsplit, hname]
      rfl
  | case4 more hmem =>
    obtain ⟨fuel, rfl⟩ := Nat.exists_eq_succ_of_ne_zero (by
      rw [length_cons] at hfuel
      omega : fuel ≠ 0)
    have hsplit : (more.map remapWildcard).dropWhile (· ≠ '}') = [] := by
      rw [dropWhile_eq_nil_iff]
      simp only [List.mem_map, forall_exists_index, and_imp, forall_apply_eq_imp_iff₂]
      intro c hc
      have hne : c ≠ '}' := fun h => hmem (h ▸ hc)
      simpa [hclose] using hne
    have hflat : (List.map Segment.plain ('$' :: '{' :: more)).flatMap (·.replaced get) =
        ('$' :: '{' :: more).map remapWildcard := by
      rw [flatMap_map]
      exact flatMap_pure_eq_map _ _
    rw [segments, if_pos rfl, if_pos rfl, if_neg hmem, hflat]
    simp only [map_cons, varReplaceLoop, hlast, hdollar.mpr, hopen.mpr, if_true, if_false, hsplit]
  | case5 d more hd ih =>
    obtain ⟨fuel, rfl⟩ := Nat.exists_eq_succ_of_ne_zero (by
      rw [length_cons] at hfuel
      omega : fuel ≠ 0)
    have hrest := ih (fun h => hpat (.tail _ h)) (Nat.le_of_succ_le_succ hfuel)
      (by simp : some '$' ≠ some '\\')
    have hopen' : remapWildcard d ≠ '{' := fun h => hd (hopen.mp h)
    rw [segments, if_pos rfl, if_neg hd, flatMap_cons, ← hrest]
    simp only [map_cons, varReplaceLoop, hlast, hdollar.mpr, if_true, if_false]
    split
    case h_1 h => simp at h
    case h_2 h => simp [hopen'] at h
    case h_3 => rfl
  | case6 c rest hc ih =>
    obtain ⟨fuel, rfl⟩ := Nat.exists_eq_succ_of_ne_zero (by
      rw [length_cons] at hfuel
      omega : fuel ≠ 0)
    have hno : remapWildcard c ≠ '\\' := fun h => hpat (by simp [hback.mp h])
    have hrest := ih (fun h => hpat (.tail _ h)) (Nat.le_of_succ_le_succ hfuel)
      (by simpa using hno : some (remapWildcard c) ≠ some '\\')
    rw [segments.eq_def]
    simp only [hc, if_false, flatMap_cons, ← hrest, map_cons, varReplaceLoop, hlast, hdollar, hno]
    rfl

/-- No wildcard of the second step comes in that the pattern does not have, and no
character gets lost. -/
def Segment.Kept (get : Text → Option Text) : Segment → Prop
  | .plain c => c ≠ tempAsterisk ∧ c ≠ tempQuestionmark
  | .dollar => False
  | .reference name => name ≠ [tempAsterisk] ∧ name ≠ [tempQuestionmark] ∧
      tempAsterisk ∉ substituted '*' '?' get name ∧ tempQuestionmark ∉ substituted '*' '?' get name

instance (get : Text → Option Text) (seg : Segment) : Decidable (seg.Kept get) := by
  cases seg <;> unfold Segment.Kept <;> infer_instance

/-- What is matched for a part of a pattern. -/
def Segment.matched (get : Text → Option Text) (seg : Segment) : List (Token Char) :=
  (seg.replaced get).map (wildcardToken tempAsterisk tempQuestionmark)

def patternTokens (get : Text → Option Text) (pattern : Text) : List (Token Char) :=
  (segments pattern).flatMap (·.tokens get)

theorem matchedTokens_eq {pattern : Text} (hpat : '\\' ∉ pattern) :
    matchedTokens get pattern = (segments pattern).flatMap (·.matched get) := by
  rw [matchedTokens, varReplaceLoop_eq get hpat (length_map remapWildcard).ge
    (by simp : none ≠ some '\\'), map_flatMap]
  rfl

theorem Variables.substituted_remap {name : Text} (hasterisk : name ≠ [tempAsterisk])
    (hquestionmark : name ≠ [tempQuestionmark]) :
    substituted tempAsterisk tempQuestionmark vars.get (name.map remapWildcard) =
      substituted '*' '?' vars.get name := by
  by_cases hmark : ∃ c ∈ name, c ∈ marks
  · obtain ⟨c, hc, hmark⟩ := hmark
    have hremap : ∀ m ∈ marks, remapWildcard m ∈ marks := forall_marks.mpr (by decide)
    have hget : vars.get name = none := by
      cases h : vars.get name with
      | none => rfl
      | some value => exact absurd hmark (vars.plain name value h c hc)
    have hget' : vars.get (name.map remapWildcard) = none := by
      cases h : vars.get (name.map remapWildcard) with
      | none => rfl
      | some value =>
        exact absurd (hremap c hmark) (vars.plain _ value h _ (List.mem_map_of_mem hc))
    rw [substituted, substituted, hget, hget']
    match name with
    | [d] =>
      have hd : d = c := (mem_singleton.mp hc).symm
      rw [hd] at hasterisk hquestionmark ⊢
      simp only [marks, mem_cons, not_mem_nil, or_false] at hmark
      rcases hmark with rfl | rfl | rfl | rfl
      · decide
      · decide
      · exact absurd rfl hasterisk
      · exact absurd rfl hquestionmark
    | [] | _ :: _ :: _ => rfl
  · have hplain : ∀ c ∈ name, c ∉ marks := fun c hc h => hmark ⟨c, hc, h⟩
    have hself : name.map remapWildcard = name := by
      rw [map_congr_left (fun c hc => (remapWildcard_eq_iff (hplain c hc)).mpr rfl)]
      exact List.map_id' name
    rw [hself]
    match name with
    | [d] =>
      have hd := hplain d (mem_singleton_self d)
      simp only [marks, mem_cons, not_mem_nil, or_false, not_or] at hd
      simp [substituted, specialCharacter, hd]
    | [] | _ :: _ :: _ => rfl

/-- The tokens for one character of which a property holds. -/
def countSingles (p : Option Char → Bool) (ts : List (Token Char)) : Nat := (singles ts).countP p

theorem countSingles_cons (p : Option Char → Bool) (t : Token Char) (ts : List (Token Char)) :
    countSingles p (t :: ts) = countSingles p [t] + countSingles p ts := by
  rw [countSingles, singles, ← singleton_append, filterMap_append, countP_append]
  rfl

theorem countSingles_flatMap (p : Option Char → Bool) (segs : List Segment)
    (f : Segment → List (Token Char)) :
    countSingles p (segs.flatMap f) = (segs.map fun seg => countSingles p (f seg)).sum := by
  rw [countSingles, singles, filterMap_flatMap, countP_flatMap]
  rfl

def isWildcard (o : Option Char) : Bool := decide (o = some '*' ∨ o = some '?')

/-- A variable with a reserved character as its name stands for a wildcard's character. -/
def Segment.Named : Segment → Prop
  | .reference name => name ≠ [tempAsterisk] ∧ name ≠ [tempQuestionmark]
  | _ => True

section Texts

variable (text : Text)

theorem wildcards_text :
    countSingles isWildcard (text.map (wildcardToken tempAsterisk tempQuestionmark)) =
      countSingles isWildcard (text.map .lit) := by
  induction text with
  | nil => rfl
  | cons c text ih =>
    rw [map_cons, map_cons, countSingles_cons, ih, countSingles_cons _ (.lit c), wildcardToken]
    split_ifs with ha hq
    · rw [ha]
      rfl
    · rw [hq]
      rfl
    · rfl

theorem literals_text :
    countSingles isSome (text.map (wildcardToken tempAsterisk tempQuestionmark)) +
      (text.count tempAsterisk + text.count tempQuestionmark) =
        countSingles isSome (text.map .lit) := by
  have hne : (tempAsterisk == tempQuestionmark) = false := by decide
  induction text with
  | nil => rfl
  | cons c text ih =>
    have hlit : countSingles isSome [.lit c] = 1 := rfl
    rw [map_cons, map_cons, countSingles_cons, countSingles_cons _ (.lit c), ← ih, hlit,
      wildcardToken, count_cons, count_cons]
    have hany : countSingles isSome [.any] = 0 := rfl
    have hone : countSingles isSome [.one] = 0 := rfl
    split_ifs <;> simp_all <;> omega

end Texts

theorem Variables.wildcards_le (seg : Segment) :
    countSingles isWildcard (seg.tokens vars.get) ≤ countSingles isWildcard (seg.matched vars.get) ∧
    (¬ seg.Named → countSingles isWildcard (seg.tokens vars.get) <
      countSingles isWildcard (seg.matched vars.get)) := by
  cases seg with
  | plain c =>
    have hzero : countSingles isWildcard [wildcardToken '*' '?' c] = 0 := by
      unfold wildcardToken
      split_ifs <;> simp [countSingles, singles, Token.single, isWildcard, *]
    exact ⟨hzero.le.trans (Nat.zero_le _), fun h => absurd trivial h⟩
  | dollar => exact ⟨Nat.zero_le _, fun h => absurd trivial h⟩
  | reference name =>
    have hget {c : Char} (hc : c ∈ marks) : vars.get [c] = none := by
      cases h : vars.get [c] with
      | none => rfl
      | some value => exact absurd hc (vars.plain _ value h c (mem_singleton_self c))
    have hreserved : ∀ c ∈ [tempAsterisk, tempQuestionmark], c ∈ marks ∧ remapWildcard c = c ∧
        countSingles isWildcard ((specialCharacter '*' '?' [c]).map .lit) <
          countSingles isWildcard ((specialCharacter tempAsterisk tempQuestionmark [c]).map
            (wildcardToken tempAsterisk tempQuestionmark)) := by
      rw [forall_mem_cons, forall_mem_singleton]
      decide
    by_cases hnamed : (Segment.reference name).Named
    · rw [Segment.matched, Segment.replaced, vars.substituted_remap hnamed.1 hnamed.2,
        wildcards_text]
      exact ⟨le_refl _, fun h => absurd hnamed h⟩
    · obtain ⟨c, hc, rfl⟩ : ∃ c ∈ [tempAsterisk, tempQuestionmark], name = [c] := by
        by_contra hno
        push Not at hno
        exact hnamed ⟨hno _ (by simp), hno _ (by simp)⟩
      obtain ⟨hmark, hremap, hlt⟩ := hreserved c hc
      rw [Segment.tokens, Segment.matched, Segment.replaced, map_singleton, hremap,
        substituted, substituted, hget hmark]
      exact ⟨hlt.le, fun _ => hlt⟩

theorem Variables.literals_le {seg : Segment} (hnamed : seg.Named) :
    countSingles isSome (seg.matched vars.get) ≤
      countSingles isSome (seg.tokens vars.get) ∧
    (¬ seg.Kept vars.get → countSingles isSome (seg.matched vars.get) <
      countSingles isSome (seg.tokens vars.get)) ∧
    (seg.Kept vars.get → seg.matched vars.get = seg.tokens vars.get) := by
  cases seg with
  | plain c =>
    rw [Segment.matched, Segment.replaced, map_singleton, Segment.tokens]
    by_cases hkept : (Segment.plain c).Kept vars.get
    · have hsame : wildcardToken tempAsterisk tempQuestionmark (remapWildcard c) =
          wildcardToken '*' '?' c := by
        have hne : tempQuestionmark ≠ tempAsterisk := by decide
        have hasterisk := hkept.1
        have hquestionmark := hkept.2
        unfold wildcardToken remapWildcard
        grind
      rw [hsame]
      exact ⟨le_refl _, fun h => absurd hkept h, fun _ => rfl⟩
    · have hreserved : ∀ c ∈ [tempAsterisk, tempQuestionmark], countSingles isSome
          [wildcardToken tempAsterisk tempQuestionmark (remapWildcard c)] <
            countSingles isSome [wildcardToken '*' '?' c] := by
        rw [forall_mem_cons, forall_mem_singleton]
        decide
      have hc : c ∈ [tempAsterisk, tempQuestionmark] := by
        by_contra hno
        simp only [mem_cons, not_mem_nil, or_false, not_or] at hno
        exact hkept hno
      exact ⟨(hreserved c hc).le, fun _ => hreserved c hc, fun h => absurd h hkept⟩
  | dollar => exact ⟨Nat.zero_le 1, fun _ => Nat.zero_lt_one, False.elim⟩
  | reference name =>
    rw [Segment.matched, Segment.replaced, vars.substituted_remap hnamed.1 hnamed.2,
      Segment.tokens, ← literals_text]
    refine ⟨Nat.le_add_right _ _, ?_, ?_⟩
    · intro hkept
      apply Nat.lt_add_of_pos_right
      by_contra hzero
      have hcounts := Nat.add_eq_zero_iff.mp (Nat.eq_zero_of_not_pos hzero)
      exact hkept ⟨hnamed.1, hnamed.2, count_eq_zero.mp hcounts.1, count_eq_zero.mp hcounts.2⟩
    · intro hkept
      apply map_congr_left
      intro c hc
      have hasterisk : c ≠ tempAsterisk := fun h => hkept.2.2.1 (h ▸ hc)
      have hquestionmark : c ≠ tempQuestionmark := fun h => hkept.2.2.2 (h ▸ hc)
      rw [wildcardToken, if_neg hasterisk, if_neg hquestionmark]

def oneVariable (value : Text) : Variables where
  get name := if name = "user".toList then some value else none
  plain := by
    intro name _ h
    split at h
    case isTrue hname =>
      have hmarks : ∀ m ∈ marks, m ∉ "user".toList := forall_marks.mpr (by decide)
      rw [hname]
      exact fun c hc hmark => hmarks c hmark hc
    case isFalse => exact absurd h (by simp)

end UhCore.Entrypoint.Policies
