import UhCore.Entrypoint.Listing
import UhCore.Lib.Paging

/-!
A client that follows a listing page by page. `ListObjectsV2` gives a
continuation token; `ListObjects` gives a marker if there is a delimiter, and
without one the client takes the last key.
-/

namespace UhCore.Entrypoint.Listing

open Http List Option Paging Catalog Object Collapsed Page List

section Grouping

theorem findFrom_char {d : Char} {pos i : Nat} {s : Text} :
    findFrom [d] pos s = some i ↔ pos ≤ i ∧ s[i]? = some d ∧ ∀ j < i, pos ≤ j → s[j]? ≠ some d := by
  have hchar : ∀ j, [d].isPrefixOf (s.drop j) = true ↔ s[j]? = some d := by
    intro j
    rw [← head?_drop]
    cases s.drop j with
    | nil => simp
    | cons c rest =>
      by_cases hc : c = d
      · simp [isPrefixOf, hc]
      · simp [isPrefixOf, hc, Ne.symm hc]
  have hcheck : ∀ j, (decide (pos ≤ j) && [d].isPrefixOf (s.drop j)) = true ↔
      pos ≤ j ∧ s[j]? = some d := by
    intro j
    rw [Bool.and_eq_true, decide_eq_true_eq, hchar]
  simp only [findFrom, find?_range_eq_some, Bool.not_eq_true', ← Bool.not_eq_true, hcheck,
    mem_range]
  constructor
  · rintro ⟨⟨hpos, hi⟩, _, hfirst⟩
    exact ⟨hpos, hi, fun j hj hpos' hget => hfirst j hj ⟨hpos', hget⟩⟩
  · rintro ⟨hpos, hi, hfirst⟩
    obtain ⟨hlen, _⟩ := List.getElem?_eq_some_iff.mp hi
    exact ⟨⟨hpos, hi⟩, by omega, fun j hj hget => hfirst j hj hget.1 hget.2⟩

/-- Keys with the same common prefix, for a delimiter of one character. -/
def grouping (delimiter : Option Char) (pfx : Option Text) : Paging.Grouping Char where
  group := delimiterPrefix (delimiter.map fun d => [d]) pfx
  ne_nil := by
    intro k p h
    cases delimiter with
    | none => simp [delimiterPrefix] at h
    | some d =>
      obtain ⟨i, hi, rfl⟩ := map_eq_some_iff.mp h
      obtain ⟨_, hget, _⟩ := findFrom_char.mp hi
      obtain ⟨hlength, _⟩ := List.getElem?_eq_some_iff.mp hget
      apply ne_nil_of_length_pos
      rw [length_take]
      omega
  starts := by
    intro k p h
    cases delimiter with
    | none => simp [delimiterPrefix] at h
    | some d =>
      obtain ⟨i, _, rfl⟩ := map_eq_some_iff.mp h
      exact take_prefix (i + 1) k
  same := by
    intro k k' p h hp
    cases delimiter with
    | none => simp [delimiterPrefix] at h
    | some d =>
      obtain ⟨i, hi, rfl⟩ := map_eq_some_iff.mp h
      obtain ⟨hpos, hget, hfirst⟩ := findFrom_char.mp hi
      obtain ⟨hlength, _⟩ := List.getElem?_eq_some_iff.mp hget
      obtain ⟨rest, rfl⟩ := hp
      have hsame : ∀ j ≤ i, (k.take (i + 1) ++ rest)[j]? = k[j]? := by
        intro j hj
        rw [getElem?_append_left (by rw [length_take]; omega), getElem?_take, if_pos (by omega)]
      have hi' : findFrom [d] (pfx.getD []).length (k.take (i + 1) ++ rest) = some i := by
        refine findFrom_char.mpr ⟨hpos, by rw [hsame i le_rfl, hget], fun j hj hpos' => ?_⟩
        rw [hsame j hj.le]
        exact hfirst j hj hpos'
      show (findFrom [d] _ _).map _ = _
      rw [hi', map_some, take_append_of_le_length (by rw [length_take]; omega), take_take, min_self]

end Grouping

section Entries

variable (delimiter : Option Char) (pfx : Option Text)

def Collapsed.entry : Collapsed → Paging.Entry Char Object
  | .commonPrefix text => .common text
  | .object o => .item o

theorem collapse_entries (objects : List Object) :
    (collapse objects (delimiter.map fun d => [d]) pfx).map entry =
      entries (grouping delimiter pfx) name objects := by
  have hloop : ∀ previous, (collapseLoop (delimiter.map fun d => [d]) pfx previous objects).map
      entry =
        entriesFrom (grouping delimiter pfx) name previous objects := by
    induction objects with
    | nil => exact fun _ => rfl
    | cons object rest ih =>
      intro previous
      have hgroup : (grouping delimiter pfx).group object.name =
          delimiterPrefix (delimiter.map fun d => [d]) pfx object.name := rfl
      unfold collapseLoop entriesFrom
      rw [hgroup]
      cases delimiterPrefix (delimiter.map fun d => [d]) pfx object.name with
      | none => simp [entry, ih]
      | some text =>
        by_cases hprevious : previous = text
        · simp [hprevious, ih]
        · simp [hprevious, entry, ih]
  exact hloop []

/-- The entries of a page of the model. -/
def Page.view (page : Page) : List Object × List Text := (page.contents, page.commonPrefixes)

def viewOf (entries : List (Paging.Entry Char Object)) : List Object × List Text :=
  (items entries, commons entries)

theorem view_add (page : Page) (entry : Collapsed) {entries : List (Paging.Entry Char Object)}
    (h : page.view = viewOf entries) : (page.add entry).view = viewOf (entry.entry :: entries) := by
  obtain ⟨hconts, hprefixes⟩ := Prod.mk.injEq .. ▸ h
  cases entry <;>
    simp [add, view, viewOf, entry, items, commons] <;>
    exact ⟨hconts, hprefixes⟩

theorem add_next (page : Page) (entry : Collapsed) :
    (page.add entry).isTruncated = page.isTruncated ∧ (page.add entry).next = page.next := by
  cases entry <;> exact ⟨rfl, rfl⟩

theorem pageLoop_eq {maxKeys size : Nat} (nextOf : Collapsed → Option Text)
    (entries : List Collapsed) (counter : Nat) (hctr : counter < maxKeys)
    (hsize : size = counter + entries.length) :
    let page := pageLoop maxKeys size nextOf entries counter
    page.view = viewOf ((entries.take (maxKeys - counter)).map entry) ∧
      page.isTruncated = decide (maxKeys < size) ∧
      (maxKeys < size → page.next = entries[maxKeys - counter - 1]?.bind nextOf) := by
  induction entries generalizing counter with
  | nil =>
    have hnot : ¬ maxKeys < size := by
      simp only [length_nil] at hsize
      omega
    simp [pageLoop, view, viewOf, items, commons, hnot]
  | cons entry rest ih =>
    rw [length_cons] at hsize
    have htake : (entry :: rest).take (maxKeys - counter) =
        entry :: rest.take (maxKeys - (counter + 1)) := by
      rw [show maxKeys - counter = maxKeys - (counter + 1) + 1 by omega, take_succ_cons]
    simp only [pageLoop, htake, map_cons, (add_next _ entry).1, (add_next _ entry).2]
    split
    case isTrue hend =>
      refine ⟨view_add _ entry ?_, by simp [hend.2], fun _ => ?_⟩
      · simp [view, viewOf, items, commons, hend.1]
      · simp [show maxKeys - counter - 1 = 0 by omega]
    case isFalse hend =>
      by_cases hlast : counter + 1 = maxKeys
      · have hnot : ¬ maxKeys < size := fun h => hend ⟨hlast, h⟩
        have hnil : rest = [] := eq_nil_of_length_eq_zero (by omega)
        subst hnil
        refine ⟨view_add _ entry ?_, by simp [pageLoop, hnot], fun h => absurd h hnot⟩
        simp [pageLoop, view, viewOf, items, commons]
      · obtain ⟨hview, htrunc, hnext⟩ := ih (counter + 1) (by omega) (by omega)
        refine ⟨view_add _ entry hview, htrunc, fun h => ?_⟩
        rw [hnext h, show maxKeys - counter - 1 = maxKeys - (counter + 1) - 1 + 1 by omega]
        rfl

end Entries

section Catalog

def rowName (e : Nat × ObjectRow) : Text := e.2.name

theorem byName_pairwise (rows : List (Nat × ObjectRow)) :
    (byName rows).Pairwise fun a b => rowName a ≤ rowName b := by
  have : Std.Total fun a b : Nat × ObjectRow => a.2.name ≤ b.2.name :=
    ⟨fun a b => le_total a.2.name b.2.name⟩
  have : IsTrans (Nat × ObjectRow) fun a b => a.2.name ≤ b.2.name :=
    ⟨fun a b c hab hbc => le_trans hab hbc⟩
  exact pairwise_insertionSort _ rows

variable {c : Catalog} {bucketId : Nat} {pfx : Text}

theorem listed_unique {a b : Nat × ObjectRow} (ha : a ∈ c.objects.entries)
    (hb : b ∈ c.objects.entries) (hla : c.listed bucketId pfx a = true)
    (hlb : c.listed bucketId pfx b = true) (hname : rowName a = rowName b) : a = b := by
  simp only [listed, Bool.and_eq_true, decide_eq_true_eq] at hla hlb
  have hle : ∀ x y : Nat × ObjectRow, x ∈ c.objects.entries → c.newest y = true →
      rowName x = rowName y → x.2.bucketId = y.2.bucketId → x.1 ≤ y.1 := by
    intro x y hx hnewest hname hbucket
    have hall := all_eq_true.mp hnewest x hx
    unfold rowName at hname
    simpa [hname, hbucket] using hall
  have hbucket : a.2.bucketId = b.2.bucketId := hla.1.1.2.trans hlb.1.1.2.symm
  have hid : a.1 = b.1 := le_antisymm (hle a b ha hlb.1.1.1 hname hbucket)
    (hle b a hb hla.1.1.1 hname.symm hbucket.symm)
  have hlook := (c.objects.mem_entries_iff a.1 a.2).mp ha
  have hlook' := (c.objects.mem_entries_iff b.1 b.2).mp hb
  rw [hid, hlook'] at hlook
  exact Prod.ext hid (some.inj hlook).symm

theorem byName_filter (above : Nat × ObjectRow → Bool) :
    byName (c.objects.entries.filter fun e => c.listed bucketId pfx e && above e) =
      (byName (c.objects.entries.filter (c.listed bucketId pfx))).filter above := by
  have hperm : (byName (c.objects.entries.filter fun e =>
      c.listed bucketId pfx e && above e)).Perm
      ((byName (c.objects.entries.filter (c.listed bucketId pfx))).filter above) := by
    refine (perm_insertionSort _ _).trans ?_
    refine List.Perm.trans ?_ ((perm_insertionSort _ _).symm.filter above)
    rw [List.filter_filter]
    exact List.Perm.of_eq (filter_congr fun e _ => Bool.and_comm _ _)
  refine List.Perm.eq_of_pairwise ?_ (byName_pairwise _) ((byName_pairwise _).filter above) hperm
  intro a b ha hb hab hba
  have hmem : ∀ x ∈ byName (c.objects.entries.filter (c.listed bucketId pfx)),
      x ∈ c.objects.entries ∧ c.listed bucketId pfx x = true := by
    intro x hx
    exact mem_filter.mp ((perm_insertionSort _ _).mem_iff.mp hx)
  obtain ⟨ha, hla⟩ := hmem a (mem_of_mem_filter (hperm.mem_iff.mp ha))
  obtain ⟨hb, hlb⟩ := hmem b (mem_of_mem_filter hb)
  exact listed_unique ha hb hla hlb (le_antisymm hab hba)

theorem byName_sorted (c : Catalog) (bucketId : Nat) (pfx : Text) :
    (byName (c.objects.entries.filter (c.listed bucketId pfx))).Pairwise
      fun a b => rowName a < rowName b := by
  have hnodup : (byName (c.objects.entries.filter (c.listed bucketId pfx))).Nodup := by
    refine ((perm_insertionSort _ _).nodup_iff).mpr (List.Nodup.filter _ ?_)
    exact c.objects.sorted.imp fun hlt heq => absurd (congrArg Prod.fst heq) (ne_of_lt hlt)
  refine (List.Pairwise.and (byName_pairwise _) hnodup).imp_of_mem ?_
  intro a b ha hb hab
  obtain ⟨ha, hla⟩ := mem_filter.mp ((perm_insertionSort _ _).mem_iff.mp ha)
  obtain ⟨hb, hlb⟩ := mem_filter.mp ((perm_insertionSort _ _).mem_iff.mp hb)
  exact lt_of_le_of_ne hab.1 fun heq => hab.2 (listed_unique ha hb hla hlb heq)

/-- The objects of a listing are sorted, and a lower bound takes away what is
not above it and what starts with it. -/
theorem listObjects_next {bucket : Text} {pfx : Option Text} {objects : List Object}
    (h : c.listObjects bucket pfx none = .ok objects) :
    Paging.Sorted name objects ∧ ∀ bound, c.listObjects bucket pfx bound =
      .ok (next name objects (bound.getD [])) := by
  unfold Catalog.listObjects Catalog.bucketExists Catalog.vrmListObjects at h ⊢
  cases hbucket : c.vrmGetBucketId bucket with
  | none => simp [hbucket, bind, Except.bind] at h
  | some bucketId =>
    simp only [hbucket, bind, Except.bind, byName_filter, Except.ok.injEq] at h ⊢
    have hnone : ∀ rows : List (Nat × ObjectRow), rows.filter (aboveBound []) = rows := by
      intro rows
      exact filter_eq_self.mpr fun e _ => by simp [aboveBound]
    rw [getD_none, hnone] at h
    subst h
    refine ⟨pairwise_map.mpr (byName_sorted c bucketId (pfx.getD [])), fun bound => ?_⟩
    by_cases hbound : bound.getD [] = []
    · rw [hbound, hnone, Paging.next, if_pos rfl]
    · rw [Paging.next, if_neg hbound, List.filter_map]
      congr 1
      apply filter_congr
      intro e _
      simp [aboveBound, hbound, rowToObject, ← isPrefixOf_iff_prefix]

end Catalog

section Client

/-- The two listing commands. -/
inductive Api where
  | listObjects
  | listObjectsV2

variable (conv : Conversions) (c : Catalog)

namespace Api

def page : Api → Request → Except Failure Page
  | .listObjects, req => (Listing.listObjects conv c req).map fun r => r.page
  | .listObjectsV2, req => (Listing.listObjectsV2 conv c req).map fun r => r.page

/-- The parameter that a page is asked for with. -/
def boundName : Api → Text
  | .listObjects => "marker".toList
  | .listObjectsV2 => "continuation-token".toList

def lastKey (page : Page) : Text := (page.contents.getLast?.map name).getD []

def follow (api : Api) (req : Request) (page : Page) : Request :=
  req.withParam api.boundName (page.next.getD (lastKey page))

/-- The pages of a listing, if at most `fuel` requests bring it to its end. -/
def collect (api : Api) : Nat → Request → Option (List Page)
  | 0, _ => none
  | fuel + 1, req =>
    match api.page conv c req with
    | .error _ => none
    | .ok page =>
      if page.isTruncated then (collect api fuel (api.follow req page)).map (page :: ·)
      else some [page]

def boundOf : Api → Request → Option Text
  | .listObjects, req => req.query "marker".toList
  | .listObjectsV2, req => lowerBoundV2 req

/-- What a response says about the next page. -/
def nextOf (api : Api) (delimiter : Option Char) (objects : List Object) (maxKeys : Nat)
    (entry : Collapsed) : Option Text :=
  match api, delimiter with
  | .listObjects, none => none
  | _, _ => nextText objects maxKeys entry

end Api

/-- A listing as a client asks for it, with a delimiter of at most one
character. -/
structure Ask (req : Request) where
  delimiter : Option Char
  maxKeys : Nat
  pos : 0 < maxKeys
  delimiter_eq : delimiterOf req = delimiter.map fun d => [d]
  maxKeys_eq : ∃ n, queryNumber conv req "max-keys" = .ok n ∧ n.getD 1000 = maxKeys
  encode : ∃ e, encoder (req.query "encoding-type".toList) = .ok e

/-- Two requests that differ in the text they are above only. -/
structure Follows (req r : Request) : Prop where
  bucket : r.bucket = req.bucket
  pfx : r.query "prefix".toList = req.query "prefix".toList
  delimiter : delimiterOf r = delimiterOf req
  maxKeys : queryNumber conv r "max-keys" = queryNumber conv req "max-keys"
  encodingType : r.query "encoding-type".toList = req.query "encoding-type".toList
  startAfter : r.query "start-after".toList = none

variable {conv c} {req : Request}

theorem Follows.refl (h : req.query "start-after".toList = none) : Follows conv req req :=
  ⟨rfl, rfl, rfl, rfl, rfl, h⟩

theorem Follows.follow {r : Request} (h : Follows conv req r) (api : Api) (page : Page) :
    Follows conv req (api.follow r page) := by
  have hquery : ∀ name : Text, name ≠ "marker".toList → name ≠ "continuation-token".toList →
      (api.follow r page).query name = r.query name := by
    intro name hmarker htoken
    cases api with
    | listObjects => exact r.query_withParam_of_ne _ hmarker
    | listObjectsV2 => exact r.query_withParam_of_ne _ htoken
  have hpfx := hquery "prefix".toList (by decide) (by decide)
  have hdelimiter := hquery "delimiter".toList (by decide) (by decide)
  have hmax := hquery "max-keys".toList (by decide) (by decide)
  have hencoding := hquery "encoding-type".toList (by decide) (by decide)
  have hstart := hquery "start-after".toList (by decide) (by decide)
  refine ⟨h.bucket, by rw [hpfx, h.pfx], ?_, ?_, by rw [hencoding, h.encodingType], by
    rw [hstart, h.startAfter]⟩
  · rw [← h.delimiter, delimiterOf, delimiterOf, hdelimiter]
  · rw [← h.maxKeys, queryNumber, queryNumber, hmax]

variable {r : Request} {objects : List Object} {maxKeys fuel : Nat}

theorem Api.boundOf_follow (api : Api) (page : Page) (hstart : r.query "start-after".toList = none)
    : (api.boundOf (api.follow r page)).getD [] = page.next.getD (Api.lastKey page) := by
  cases api with
  | listObjects => exact congrArg (Option.getD · []) (r.query_withParam_self _ _)
  | listObjectsV2 =>
    have htoken := r.query_withParam_self "continuation-token".toList
      (page.next.getD (lastKey page))
    have hne : "start-after".toList ≠ "continuation-token".toList := by decide
    have hstart' := (r.query_withParam_of_ne (page.next.getD (lastKey page)) hne).trans hstart
    show (lowerBoundV2 (r.withParam "continuation-token".toList _)).getD [] = _
    simp only [lowerBoundV2, htoken, hstart']
    by_cases hnil : page.next.getD (lastKey page) = []
    · rw [if_pos hnil, getD_none, hnil]
    · rw [if_neg hnil, getD_some]

theorem Api.page_eq {r : Request} (ask : Ask conv req) (h : Follows conv req r) (api : Api)
    (hobjs : c.listObjects req.bucket (req.query "prefix".toList) none = .ok objects) :
    let above := next name objects ((api.boundOf r).getD [])
    api.page conv c r = .ok (makePage above (ask.delimiter.map fun d => [d])
      (req.query "prefix".toList) ask.maxKeys (api.nextOf ask.delimiter above ask.maxKeys)) := by
  obtain ⟨n, hn, hmax⟩ := ask.maxKeys_eq
  obtain ⟨e, he⟩ := ask.encode
  have hlist := (listObjects_next hobjs).2
  cases api with
  | listObjects =>
    have hbound : c.listObjects r.bucket (req.query "prefix".toList) (r.query "marker".toList) =
        .ok (next name objects ((r.query "marker".toList).getD [])) := by
      rw [h.bucket, hlist]
    simp only [page, Listing.listObjects, hbound, h.encodingType, he, h.maxKeys, hn, bind,
      Except.bind, pure, Except.pure, Except.map, hmax, h.pfx, h.delimiter, ask.delimiter_eq,
      boundOf]
    cases ask.delimiter <;> rfl
  | listObjectsV2 =>
    have hbound : c.listObjects r.bucket (req.query "prefix".toList) (lowerBoundV2 r) =
        .ok (next name objects ((lowerBoundV2 r).getD [])) := by
      rw [h.bucket, hlist]
    simp only [page, Listing.listObjectsV2, hbound, h.encodingType, he, h.maxKeys, hn, bind,
      Except.bind, pure, Except.pure, Except.map, hmax, h.pfx, h.delimiter, ask.delimiter_eq,
      boundOf]
    cases ask.delimiter <;> rfl

theorem makePage_eq (objects : List Object) (delimiter : Option Char) (pfx : Option Text)
    (hpos : 0 < maxKeys) (nextOf : Collapsed → Option Text) :
    let page := makePage objects (delimiter.map fun d => [d]) pfx maxKeys nextOf
    let entries := entries (grouping delimiter pfx) name objects
    page.view = viewOf (entries.take maxKeys) ∧
      page.isTruncated = decide (maxKeys < entries.length) ∧
      (maxKeys < entries.length →
        page.next = (collapse objects (delimiter.map fun d => [d]) pfx)[maxKeys - 1]?.bind nextOf) := by
  have hents := collapse_entries delimiter pfx objects
  have hlen := congrArg length hents
  rw [length_map] at hlen
  by_cases hnil : objects = []
  · subst hnil
    simp [makePage, view, viewOf, entries, entriesFrom, items,
      commons]
  · obtain ⟨hview, htrunc, hnext⟩ := @pageLoop_eq maxKeys _ nextOf
      (collapse objects (delimiter.map fun d => [d]) pfx) 0 hpos (zero_add _).symm
    simp only [makePage, hnil, hpos.ne', ne_eq, not_false_eq_true, and_self, if_true]
    refine ⟨?_, ?_, ?_⟩
    · rw [hview, Nat.sub_zero, map_take, hents]
    · rw [htrunc, hlen]
    · rw [← hlen]
      exact hnext

theorem entries_no_delimiter (pfx : Option Text) (objects : List Object) :
    entries (grouping none pfx) name objects = objects.map .item :=
  entries_of_none fun _ _ => rfl

/-- A truncated page gives the token of the listing, or ends in its item. -/
theorem Api.follow_token (api : Api) (hsort : Paging.Sorted name objects) (delimiter : Option Char)
    (pfx : Option Text) (hpos : 0 < maxKeys)
    (hfull : maxKeys < (entries (grouping delimiter pfx) name objects).length) :
    let page := makePage objects (delimiter.map fun d => [d]) pfx maxKeys
      (api.nextOf delimiter objects maxKeys)
    page.next.getD (Api.lastKey page) =
      token (grouping delimiter pfx) name maxKeys objects := by
  obtain ⟨hview, _, hnext⟩ := makePage_eq objects delimiter pfx hpos
    (api.nextOf delimiter objects maxKeys)
  have hents := collapse_entries delimiter pfx objects
  obtain ⟨b, cs, hbcs, _, _, hlast⟩ := exists_last hsort hpos hfull
  obtain ⟨t, ht, _, _⟩ := exists_at_number hsort hbcs
  rw [← hents, getElem?_map] at hlast
  obtain ⟨entry, hentry, _⟩ := map_eq_some_iff.mp hlast
  have htoken : nextText objects maxKeys entry =
      some (token (grouping delimiter pfx) name maxKeys objects) := by
    rw [token, ← hents, getElem?_map, hentry]
    cases entry with
    | commonPrefix text => rfl
    | object o => simp [nextText, entry, ht]
  have hpage := hnext hfull
  rw [hentry, bind_some] at hpage
  show (makePage _ _ _ _ _).next.getD _ = _
  rw [hpage]
  match api, delimiter with
  | .listObjects, none =>
    have hconts : (makePage objects ((none : Option Char).map fun d => [d]) pfx maxKeys
        (Api.nextOf .listObjects none objects maxKeys)).contents = objects.take maxKeys := by
      have hitems := congrArg Prod.fst hview
      rw [entries_no_delimiter, ← map_take] at hitems
      exact hitems.trans (items_map_item _)
    rw [token, entries_no_delimiter, getElem?_map, ht]
    show (getLast? _ |>.map name).getD [] = _
    rw [hconts, getLast?_take, if_neg hpos.ne', ht]
    rfl
  | .listObjects, some d => exact congrArg (Option.getD · _) htoken
  | .listObjectsV2, none => exact congrArg (Option.getD · _) htoken
  | .listObjectsV2, some d => exact congrArg (Option.getD · _) htoken

/-- A request is answered with the first entries above its text, and followed by
the request for what lies above the token. -/
theorem Api.page_spec (api : Api) {r : Request} (ask : Ask conv req) (h : Follows conv req r)
    (hobjs : c.listObjects req.bucket (req.query "prefix".toList) none = .ok objects) :
    let g := grouping ask.delimiter (req.query "prefix".toList)
    let above := next name objects ((api.boundOf r).getD [])
    let entries := entries g name above
    ∃ page, api.page conv c r = .ok page ∧ page.view = viewOf (entries.take ask.maxKeys) ∧
      page.isTruncated = decide (ask.maxKeys < entries.length) ∧
      (ask.maxKeys < entries.length → (api.boundOf (api.follow r page)).getD [] =
        token g name ask.maxKeys above) := by
  intro g above entries
  have hsort := sorted_next (listObjects_next hobjs).1 ((api.boundOf r).getD [])
  obtain ⟨hview, htrunc, _⟩ := makePage_eq above ask.delimiter (req.query "prefix".toList)
    ask.pos (api.nextOf ask.delimiter above ask.maxKeys)
  refine ⟨_, api.page_eq ask h hobjs, hview, htrunc, fun hfull => ?_⟩
  rw [api.boundOf_follow _ h.startAfter]
  exact api.follow_token hsort _ _ ask.pos hfull

theorem Api.collect_view (api : Api) (ask : Ask conv req)
    (hobjs : c.listObjects req.bucket (req.query "prefix".toList) none = .ok objects) (fuel : Nat)
    (h : Follows conv req r) : (api.collect conv c fuel r).map (map view) =
      (pages (grouping ask.delimiter (req.query "prefix".toList)) name ask.maxKeys
        objects fuel (next name objects ((api.boundOf r).getD []))).map
        (map viewOf) := by
  induction fuel generalizing r with
  | zero => rfl
  | succ fuel ih =>
    obtain ⟨page, hpage, hview, htrunc, hbound⟩ := api.page_spec ask h hobjs
    unfold collect pages
    simp only [hpage, htrunc, decide_eq_true_eq]
    split
    case isTrue hfull =>
      have hrest := ih (h.follow api page)
      rw [hbound hfull] at hrest
      have hcons := congrArg (Option.map (page.view :: ·)) hrest
      simpa [Option.map_map, Function.comp_def, hview] using hcons
    case isFalse hfull =>
      rw [take_of_length_le (not_lt.mp hfull)] at hview
      simp [hview]

theorem Api.collect_succ (api : Api) {pages : List Page}
    (h : api.collect conv c fuel r = some pages) :
    api.collect conv c (fuel + 1) r = some pages := by
  induction fuel generalizing r pages with
  | zero => exact absurd h (by simp [collect])
  | succ fuel ih =>
    rw [collect] at h ⊢
    split
    case h_1 heq => simp [heq] at h
    case h_2 page heq =>
      simp only [heq] at h
      split at h
      case isTrue htrunc =>
        obtain ⟨rest, hrest, hpages⟩ := map_eq_some_iff.mp h
        rw [if_pos htrunc, ih hrest, map_some, hpages]
      case isFalse htrunc => rw [if_neg htrunc, h]

theorem Api.collect_unique (api : Api) {fuel' : Nat} {pages pages' : List Page}
    (h : api.collect conv c fuel r = some pages) (h' : api.collect conv c fuel' r = some pages') :
    pages = pages' := by
  have hadd : ∀ {fuel pages} n, api.collect conv c fuel r = some pages →
      api.collect conv c (fuel + n) r = some pages := by
    intro fuel pages n h
    induction n with
    | zero => exact h
    | succ n ih => exact api.collect_succ ih
  have hleft := hadd fuel' h
  rw [add_comm, hadd fuel h', some.injEq] at hleft
  exact hleft.symm

end Client

section Complete

def contentsOf (collapsed : List Collapsed) : List Object :=
  collapsed.filterMap fun
    | .object o => some o
    | .commonPrefix _ => none

def commonPrefixesOf (collapsed : List Collapsed) : List Text :=
  collapsed.filterMap fun
    | .object _ => none
    | .commonPrefix text => some text

/-- The current objects of a bucket whose names start with a text, in the order
of their names. -/
def objectsWith (c : Catalog) (bucketId : Nat) (pfx : Text) : List Object :=
  (byName (c.objects.entries.filter fun e => c.newest e &&
    decide (e.2.bucketId = bucketId) && pfx.isPrefixOf e.2.name &&
    decide (e.2.status = .normal))).map fun e => rowToObject (some e.2.version) e

/-- Following a listing from its first page on comes to an end, no page has more
entries than were asked for, and together they have every key and every common
prefix once and in order. -/
def ListsAll (conv : Conversions) (c : Catalog) (api : Api) (req : Request) (maxKeys : Nat)
    (complete : List Collapsed) : Prop :=
  ∃ fuel pages, api.collect conv c fuel req = some pages ∧
    (∀ page ∈ pages, page.contents.length + page.commonPrefixes.length ≤ maxKeys) ∧
    pages.flatMap contents = contentsOf complete ∧
    pages.flatMap commonPrefixes = commonPrefixesOf complete

/-- The condition: wherever a page ends in a key with further keys behind it, the
key that stands at the page's number of entries is a beginning of that key and of
none behind it. -/
def PageEndsClear (delimiter : Option Char) (pfx : Option Text) (maxKeys : Nat)
    (objects : List Object) : Prop :=
  Paging.Clear (grouping delimiter pfx) name maxKeys objects

variable {conv : Conversions} {c : Catalog}

theorem viewOf_collapse (collapsed : List Collapsed) :
    viewOf (collapsed.map entry) = (contentsOf collapsed, commonPrefixesOf collapsed) := by
  simp only [viewOf, items, commons, contentsOf, commonPrefixesOf,
    filterMap_map, Prod.mk.injEq]
  constructor <;>
    exact filterMap_congr fun entry _ => by cases entry <;> rfl

theorem listObjects_eq {bucket : Text} {pfx : Option Text} {bucketId : Nat}
    (hbucket : c.vrmGetBucketId bucket = some bucketId)
    (hpfx : ∀ d ∈ pfx.getD [], d ∉ likeMetacharacters) :
    c.listObjects bucket pfx none = .ok (objectsWith c bucketId (pfx.getD [])) := by
  simp only [Catalog.listObjects, Catalog.bucketExists, Catalog.vrmListObjects, hbucket, bind,
    Except.bind, getD_none, Except.ok.injEq, objectsWith]
  congr 2
  apply filter_congr
  intro e _
  simp [Catalog.listed, Catalog.aboveBound, like_append_percent hpfx]

theorem flatMap_view {pages : List Page} {es : List (List (Paging.Entry Char Object))}
    (h : pages.map view = es.map viewOf) :
    pages.flatMap contents = items es.flatten ∧
      pages.flatMap commonPrefixes = commons es.flatten := by
  rw [items_flatten, commons_flatten]
  have hfst := congrArg (flatMap Prod.fst) h
  have hsnd := congrArg (flatMap Prod.snd) h
  rw [flatMap_map, flatMap_map] at hfst hsnd
  exact ⟨hfst, hsnd⟩

/-- Paging through a listing loses and repeats nothing if and only if the pages
end clear. -/
theorem listsAll_iff (api : Api) (req : Request) (ask : Ask conv req) (bucketId : Nat)
    (hbucket : c.vrmGetBucketId req.bucket = some bucketId)
    (hpfx : ∀ d ∈ (req.query "prefix".toList).getD [], d ∉ likeMetacharacters)
    (hmarker : req.query "marker".toList = none)
    (htoken : req.query "continuation-token".toList = none)
    (hstart : req.query "start-after".toList = none) :
    let pfx := req.query "prefix".toList
    let objects := objectsWith c bucketId (pfx.getD [])
    ListsAll conv c api req ask.maxKeys (collapse objects (delimiterOf req) pfx) ↔
      PageEndsClear ask.delimiter pfx ask.maxKeys objects := by
  intro pfx objects
  have hobjects := listObjects_eq hbucket hpfx
  have hsorted := (listObjects_next hobjects).1
  have hfirst : next name objects ((api.boundOf req).getD []) = objects := by
    have hbound : api.boundOf req = none := by
      cases api with
      | listObjects => exact hmarker
      | listObjectsV2 =>
        show lowerBoundV2 req = none
        rw [lowerBoundV2, htoken]
        exact hstart
    rw [hbound, getD_none, Paging.next, if_pos rfl]
  have hcollect := fun fuel => api.collect_view ask hobjects fuel (Follows.refl hstart)
  simp only [show objectsWith c bucketId ((req.query "prefix".toList).getD []) = objects from rfl,
    hfirst] at hcollect
  have hcomplete := viewOf_collapse (collapse objects (delimiterOf req) pfx)
  rw [ask.delimiter_eq, collapse_entries] at hcomplete
  obtain ⟨hcontents, hprefixes⟩ := Prod.mk.injEq .. ▸ hcomplete
  rw [ListsAll, ask.delimiter_eq]
  constructor
  · rintro ⟨fuel, pages, hpages, _, hc, hp⟩
    have hview := hcollect fuel
    rw [hpages, map_some] at hview
    obtain ⟨es, hes, hview⟩ := map_eq_some_iff.mp hview.symm
    obtain ⟨hitems, hcommons⟩ := flatMap_view hview.symm
    exact clear_of_pages hsorted ask.pos (suffix_refl _) hes
      (by rw [← hitems, hc, hcontents]) (by rw [← hcommons, hp, hprefixes])
  · intro hclear
    obtain ⟨fuel, es, hes, hflat⟩ := pages_of_clear hsorted ask.pos (suffix_refl _) hclear
    have hview := hcollect fuel
    rw [hes, map_some] at hview
    obtain ⟨pages, hpages, hview⟩ := map_eq_some_iff.mp hview
    obtain ⟨hitems, hcommons⟩ := flatMap_view hview
    refine ⟨fuel, pages, hpages, fun page hpage => ?_, ?_, ?_⟩
    · have hmem : page.view ∈ es.map viewOf := hview ▸ mem_map_of_mem hpage
      obtain ⟨e, he, heq⟩ := mem_map.mp hmem
      obtain ⟨hcontents, hprefixes⟩ := Prod.mk.injEq .. ▸ heq
      rw [← hcontents, ← hprefixes, length_items_add_commons]
      exact length_le_of_mem_pages hes e he
    · rw [hitems, hflat, ← hcontents]
    · rw [hcommons, hflat, ← hprefixes]

theorem not_listsAll_of_length {api : Api} {req : Request} {maxKeys : Nat}
    {complete : List Collapsed} (fuel n : Nat)
    (hrun : (api.collect conv c fuel req).map (fun pages => (pages.flatMap contents).length) =
      some n)
    (hlen : n ≠ (contentsOf complete).length) :
    ¬ ListsAll conv c api req maxKeys complete := by
  rintro ⟨fuel', pages, hpages, _, hconts, _⟩
  obtain ⟨pages', hpages', hn⟩ := map_eq_some_iff.mp hrun
  rw [← hn, api.collect_unique hpages' hpages, hconts] at hlen
  exact hlen rfl

section Sample

def sampleRow (name : String) : ObjectRow :=
  ⟨1, name.toList, [], 0, 0, none, none, [], .normal, false⟩

/-- A bucket `b` with the given keys. -/
def sampleCatalog (names : List String) : Catalog :=
  { buckets := KeyMap.empty.insert 1 ⟨['b'], false, none, none, .disabled⟩
    objects := names.zipIdx.foldl (fun rows e => rows.insert e.2 (sampleRow e.1)) KeyMap.empty }

def sampleConversions : Conversions :=
  ⟨fun s => if s = ['1'] then .ok 1 else if s = ['2'] then .ok 2 else
    .error (.invalidArgument "stoul")⟩

def sampleRequest (params : List (Text × Text)) : Request :=
  ⟨⟨"GET".toList, "/b".toList, "/b".toList, params, [], []⟩, ⟨['1'], ['u'], none, false⟩⟩

def oneKey : Request := sampleRequest [("max-keys".toList, ['1'])]

def twoKeysDelimited : Request :=
  sampleRequest [("max-keys".toList, ['2']), ("delimiter".toList, ['/'])]

def askOneKey : Ask sampleConversions oneKey :=
  ⟨none, 1, Nat.one_pos, rfl, ⟨some 1, rfl, rfl⟩, ⟨.ident, rfl⟩⟩

def askTwoKeys : Ask sampleConversions twoKeysDelimited :=
  ⟨some '/', 2, Nat.two_pos, rfl, ⟨some 2, rfl, rfl⟩, ⟨.ident, rfl⟩⟩

def sampleObject (id : Nat) (name : String) : Object := rowToObject (some []) (id, sampleRow name)

theorem pageEndsClear_sample :
    PageEndsClear none none 1 [sampleObject 0 "a", sampleObject 1 "b"] := by
  refine clear_iff.mpr ⟨fun b cs h _ _ => ?_, clear_of_not_full ?_ ?_⟩
  · obtain ⟨hb, hcs⟩ := cons_eq_cons.mp h
    subst hb hcs
    exact ⟨sampleObject 0 "a", rfl, prefix_refl _, by decide⟩
  · exact pairwise_singleton _ _
  · decide

/-- Two keys are listed in two pages of one. -/
theorem listsAll_iff_two_pages :
    ListsAll sampleConversions (sampleCatalog ["a", "b"]) .listObjectsV2 oneKey 1
      (collapse (objectsWith (sampleCatalog ["a", "b"]) 1 []) none none) := by
  refine (listsAll_iff .listObjectsV2 oneKey askOneKey 1 rfl ?_ rfl rfl rfl).mpr
    pageEndsClear_sample
  intro d hd
  exact absurd hd not_mem_nil

/-- With the keys `a` and `ab` the second page is empty. With `a/1`, `a/2`, `b` and
`c` the key `b` is on both pages. -/
theorem pages_lose_and_repeat :
    ¬ ListsAll sampleConversions (sampleCatalog ["a", "ab"]) .listObjectsV2 oneKey 1
        (collapse (objectsWith (sampleCatalog ["a", "ab"]) 1 []) none none) ∧
      ¬ ListsAll sampleConversions (sampleCatalog ["a/1", "a/2", "b", "c"]) .listObjectsV2
        twoKeysDelimited 2
        (collapse (objectsWith (sampleCatalog ["a/1", "a/2", "b", "c"]) 1 []) (some ['/']) none) := by
  constructor
  · exact not_listsAll_of_length 2 1 (by decide +kernel) (by decide +kernel)
  · exact not_listsAll_of_length 2 3 (by decide +kernel) (by decide +kernel)

end Sample

end Complete

end UhCore.Entrypoint.Listing
