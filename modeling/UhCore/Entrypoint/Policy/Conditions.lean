import UhCore.Entrypoint.Policy.Module
import UhCore.Entrypoint.Policy.Wildcards

/-!
The string operators of conditions, for one key of the context. An operator and its
negation both fail where the request does not have the key. `StringLike` takes the
value of the request as the pattern, and the values of the policy as texts.
-/

namespace UhCore.Entrypoint.Policies

open Glob

/-- One matcher passes exactly where the other does not. -/
def Negates (positive negated : Matcher) (ctx : Context) : Prop :=
  negated ctx = (positive ctx).map not

theorem matchOptions_eq (equals : Text → Text → Context → Bool) (ctx : Context) (value : Text)
    (options : List Text) :
    matchOptions equals ctx value options =
      .ok (options.any fun option => equals value option ctx) := by
  unfold matchOptions
  induction options with
  | nil => rfl
  | cons option options ih =>
    rw [matchAny, ih, List.any_cons]
    cases equals value option ctx <;> rfl

section OneKey

variable (equals : Text → Text → Context → Bool) (name : Text) (options : List Text)
  (uv : UndefinedVariable) (ctx : Context)

theorem varMatcher_matchOptions :
    varMatcher uv (matchOptions equals) [(name, options)] ctx =
      .ok ((ctx.get name).elim (decide (uv = .ignore)) fun value =>
        options.any fun option => equals value option ctx) := by
  rw [varMatcher]
  cases ctx.get name with
  | none => cases uv <;> rfl
  | some value =>
    simp only [matchOptions_eq, Option.elim_some]
    cases options.any fun option => equals value option ctx <;> rfl

theorem varMatcher_matchNoOption :
    varMatcher uv (matchNoOption equals) [(name, options)] ctx =
      .ok ((ctx.get name).elim (decide (uv = .ignore)) fun value =>
        !options.any fun option => equals value option ctx) := by
  rw [varMatcher]
  cases ctx.get name with
  | none => cases uv <;> rfl
  | some value =>
    simp only [matchNoOption, matchOptions_eq, Option.elim_some]
    cases options.any fun option => equals value option ctx <;> rfl

theorem negates_iff_isSome :
    Negates (varMatcher .doNotMatch (matchOptions equals) [(name, options)])
        (varMatcher .doNotMatch (matchNoOption equals) [(name, options)]) ctx ↔
      (ctx.get name).isSome := by
  rw [Negates, varMatcher_matchOptions, varMatcher_matchNoOption]
  cases ctx.get name with
  | none => simp [Except.map]
  | some value => simp [Except.map]

end OneKey

/-- The operators on strings with their negations. -/
def stringOperators : List (String × String) :=
  [("StringEquals", "StringNotEquals"), ("StringEqualsIgnoreCase", "StringNotEqualsIgnoreCase"),
    ("StringLike", "StringNotLike")]

/-- The negated operators are negations exactly for the requests that have the key. -/
theorem stringOperators_negate_iff (time : TimeLibrary) (name : Text) (options : List Text)
    (ctx : Context) :
    (∀ operators ∈ stringOperators, ∃ positive negated,
      operatorMatcher time operators.1 [(name, options)] .doNotMatch = some positive ∧
      operatorMatcher time operators.2 [(name, options)] .doNotMatch = some negated ∧
      Negates positive negated ctx) ↔ (ctx.get name).isSome := by
  constructor
  · intro h
    obtain ⟨positive, negated, hpositive, hnegated, hnegates⟩ :=
      h ("StringEquals", "StringNotEquals") (List.mem_cons_self ..)
    cases hpositive
    cases hnegated
    exact (negates_iff_isSome stringEquals name options ctx).mp hnegates
  · intro hsome operators hmem
    simp only [stringOperators, List.mem_cons, List.not_mem_nil, or_false] at hmem
    rcases hmem with rfl | rfl | rfl
    · exact ⟨_, _, rfl, rfl, (negates_iff_isSome stringEquals name options ctx).mpr hsome⟩
    · exact ⟨_, _, rfl, rfl, (negates_iff_isSome stringEqualsIgnoreCase name options ctx).mpr hsome⟩
    · exact ⟨_, _, rfl, rfl, (negates_iff_isSome stringLike name options ctx).mpr hsome⟩

/-- Both operators fail for a request without the header. -/
theorem stringNotEquals_absent_key :
    ∃ positive negated,
      operatorMatcher ⟨fun _ => none, fun _ => none⟩ "StringEquals"
        [("aws:referer".toList, ["a".toList])] .doNotMatch = some positive ∧
      operatorMatcher ⟨fun _ => none, fun _ => none⟩ "StringNotEquals"
        [("aws:referer".toList, ["a".toList])] .doNotMatch = some negated ∧
      positive sampleContext = .ok false ∧ negated sampleContext = .ok false :=
  ⟨_, _, rfl, rfl, rfl, rfl⟩

def InPolicyLanguage (ctx : Context) (value : Text) (options : List Text) : Prop :=
  ∃ option ∈ options, Matches (matchedTokens ctx.get option) value

def InRequestLanguage (ctx : Context) (value : Text) (options : List Text) : Prop :=
  ∃ option ∈ options, Matches (matchedTokens ctx.get value) option

theorem any_stringLike_iff (ctx : Context) (value : Text) (options : List Text) :
    (options.any fun option => stringLike value option ctx) = true ↔
      InRequestLanguage ctx value options := by
  rw [List.any_eq_true]
  apply exists_congr
  intro option
  rw [stringLike, equalsWildcardVars_eq, equalsWildcardWith_iff]
  rfl

def agentContext (agent : Text) : Context :=
  { sampleContext with request := { sampleContext.request with
      raw := { sampleContext.request.raw with headers := [⟨"User-Agent".toList, agent⟩] } } }

end UhCore.Entrypoint.Policies
