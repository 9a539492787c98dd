import UhCore.Entrypoint.Moves
import UhCore.Entrypoint.ReadCommands

/-!
Paging through the versions of a bucket. One row more than was asked for is
read to see whether there are further ones, and it is listed with the others, so
that a page that is not the last one is too long.
-/

namespace UhCore.Entrypoint.Commands

open Directory (Versioning ObjectStatus)
open Effects Http Listing List Words Catalog

variable (env : Env) (scan : Scan) (r : Records)

def versionsPage (req : Request) : Option ListVersionsResponse :=
  match (run (listObjectVersions env scan req) r).1 with
  | .ok ⟨_, _, .xml (.versions page)⟩ => some page
  | _ => none

def withMarker (req : Request) (name : String) (marker : Option Text) : Request :=
  marker.elim req fun value => req.withParam name.toList value

def followVersions (req : Request) (page : ListVersionsResponse) : Request :=
  withMarker (withMarker req "key-marker" page.nextKeyMarker) "version-id-marker"
    page.nextVersionMarker

/-- The pages that following the markers gives, if `fuel` requests are enough. -/
def versionPages : Nat → Request → Option (List ListVersionsResponse)
  | 0, _ => none
  | fuel + 1, req => (versionsPage env scan r req).bind fun page =>
    if page.isTruncated then (versionPages fuel (followVersions req page)).map (page :: ·)
    else some [page]

def isVersion (e : Nat × ObjectRow) : Bool := decide (e.2.status = .normal) || e.2.sticky

/-- The versions that are found by the name of their bucket, and those of a bucket. -/
def namedVersions (bucket : Text) : List (Nat × ObjectRow) :=
  byNameNewest ((r.inNamed bucket).filter isVersion)

def versionsOf (bucketId : Nat) : List (Nat × ObjectRow) :=
  byNameNewest (r.objects.entries.filter fun e =>
    decide (e.2.bucketId = bucketId) && isVersion e)

def toObject (e : Nat × ObjectRow) : Object := rowToObject (some e.2.version) e

/-- The elements of the rows, where the newest row of a key is the latest. -/
def versionNodes (encode : Encoding) (rows : List (Nat × ObjectRow)) : List VersionNode :=
  rows.map fun e => versionNode encode (toObject e)
    (rows.all fun o => !decide (o.2.name = e.2.name) || decide (o.1 ≤ e.1))

/-- Following the markers ends, no page is too long, and together they have the
given elements. -/
def PagesAll (req : Request) (maxKeys : Nat) (nodes : List VersionNode) : Prop :=
  ∃ fuel pages, versionPages env scan r fuel req = some pages ∧
    (∀ page ∈ pages, page.nodes.length ≤ maxKeys) ∧
    pages.flatMap ListVersionsResponse.nodes = nodes

section Rows

variable {r} {encode : Encoding} {pfx : Option Text}

theorem length_versionLoop (objects : List Object) (seen : List Text) :
    (versionLoop encode none pfx objects seen).1.length = objects.length := by
  induction objects generalizing seen with
  | nil => rfl
  | cons obj rest ih => exact congrArg (· + 1) (ih (obj.name :: seen))

/-- Rows of a key come with decreasing ids. -/
def Newer (a b : Nat × ObjectRow) : Prop :=
  (a.2.name < b.2.name ∨ a.2.name = b.2.name ∧ b.1 ≤ a.1) ∧ a.1 ≠ b.1

theorem byNameNewest_pairwise {rows : List (Nat × ObjectRow)} (h : rows <+ r.objects.entries) :
    (byNameNewest rows).Pairwise Newer := by
  have : Std.Total fun a b : Nat × ObjectRow =>
      a.2.name < b.2.name ∨ a.2.name = b.2.name ∧ b.1 ≤ a.1 := by
    constructor
    intro a b
    rcases lt_trichotomy a.2.name b.2.name with hlt | heq | hgt
    · exact Or.inl (Or.inl hlt)
    · exact (le_total b.1 a.1).imp (fun hle => Or.inr ⟨heq, hle⟩) fun hle => Or.inr ⟨heq.symm, hle⟩
    · exact Or.inr (Or.inl hgt)
  have : IsTrans (Nat × ObjectRow) fun a b =>
      a.2.name < b.2.name ∨ a.2.name = b.2.name ∧ b.1 ≤ a.1 := by
    constructor
    rintro a b c (hab | ⟨hab, hle⟩) (hbc | ⟨hbc, hle'⟩)
    · exact Or.inl (lt_trans hab hbc)
    · exact Or.inl (hbc ▸ hab)
    · exact Or.inl (hab ▸ hbc)
    · exact Or.inr ⟨hab.trans hbc, hle'.trans hle⟩
  have hids := (r.objects.sorted.sublist h).imp fun hlt => ne_of_lt hlt
  exact List.Pairwise.and (pairwise_insertionSort _ rows)
    (hids.perm (perm_insertionSort _ rows).symm fun hne => hne.symm)

theorem newest_iff {front back : List (Nat × ObjectRow)} {e : Nat × ObjectRow}
    (h : (front ++ e :: back).Pairwise Newer) :
    ((front ++ e :: back).all fun o => !decide (o.2.name = e.2.name) || decide (o.1 ≤ e.1)) =
      decide (e.2.name ∉ front.map fun o => o.2.name) := by
  obtain ⟨-, hrest, hfront⟩ := pairwise_append.mp h
  rw [Bool.eq_iff_iff, List.all_eq_true, decide_eq_true_eq]
  constructor
  · intro hall hmem
    obtain ⟨o, ho, hname⟩ := List.mem_map.mp hmem
    have hle := hall o (mem_append_left _ ho)
    obtain ⟨hlt | ⟨-, hge⟩, hne⟩ := hfront o ho e mem_cons_self
    · exact absurd hname (ne_of_lt hlt)
    · simp only [hname, decide_true, Bool.not_true, Bool.false_or, decide_eq_true_eq] at hle
      exact hne (le_antisymm hle hge)
  · intro hnot o ho
    rw [Bool.or_eq_true, Bool.not_eq_true', decide_eq_false_iff_not, decide_eq_true_eq]
    rcases mem_append.mp ho with ho | ho
    · exact Or.inl fun hname => hnot (hname ▸ mem_map_of_mem ho)
    · rcases mem_cons.mp ho with rfl | ho
      · exact Or.inr (le_refl _)
      · obtain ⟨hlt | ⟨-, hge⟩, -⟩ := (pairwise_cons.mp hrest).1 o ho
        · exact Or.inl (ne_of_gt hlt)
        · exact Or.inr hge

theorem versionLoop_nodes (front : List (Nat × ObjectRow)) {back : List (Nat × ObjectRow)}
    (h : (front ++ back).Pairwise Newer) {seen : List Text}
    (hseen : ∀ name, name ∈ seen ↔ name ∈ front.map fun o => o.2.name) :
    (versionLoop encode none pfx (back.map toObject) seen).1 =
      back.map fun e => versionNode encode (toObject e) ((front ++ back).all fun o =>
        !decide (o.2.name = e.2.name) || decide (o.1 ≤ e.1)) := by
  induction back generalizing front seen with
  | nil => rfl
  | cons e back ih =>
    have hsplit : front ++ e :: back = front ++ [e] ++ back := by simp
    rw [map_cons, map_cons, newest_iff h]
    have hrest := @ih (front ++ [e]) (hsplit ▸ h) (e.2.name :: seen) (by
      intro name
      rw [mem_cons, hseen, map_append, mem_append, map_singleton, mem_singleton, or_comm])
    rw [← hsplit] at hrest
    simp only [versionLoop, versionPrefix]
    rw [← hrest]
    simp only [← hseen]
    rfl

end Rows

/-- A request for the versions of a bucket with no more than their number. -/
structure Plain (req : Request) (encode : Encoding) (maxKeys : Nat) : Prop where
  delimiter : req.query "delimiter".toList = none
  pfx : req.query "prefix".toList = none
  keyMarker : req.query "key-marker".toList = none
  versionMarker : req.query "version-id-marker".toList = none
  encode_eq : encoder (req.query "encoding-type".toList) = .ok encode
  maxKeys_eq : ∃ n, queryNumber env.conv req "max-keys" = .ok n ∧ n.getD 1000 = maxKeys
  word : maxKeys < 2 ^ 64

section Pages

variable {env r} {req : Request} {encode : Encoding} {maxKeys bucketId : Nat}
  {row : BucketRow} (hlive : r.Live req.bucket bucketId row) (h : Plain env req encode maxKeys)

include hlive

theorem namedVersions_eq_of_length
    (hlen : (namedVersions r req.bucket).length ≤ (versionsOf r bucketId).length) :
    namedVersions r req.bucket = versionsOf r bucketId := by
  have hown : (r.objects.entries.filter fun e => decide (e.2.bucketId = bucketId) && isVersion e) =
      ((r.inNamed req.bucket).filter isVersion).filter fun e => decide (e.2.bucketId = bucketId) := by
    rw [inNamed, List.filter_filter, List.filter_filter]
    apply filter_congr
    intro e _
    by_cases howner : e.2.bucketId = bucketId
    · have hnamed : (bucketId, row) ∈ r.named req.bucket := by
        have hmem := mem_filter.mp (hlive ▸ mem_singleton_self _ : (bucketId, row) ∈ r.live req.bucket)
        simp only [Bool.and_eq_true] at hmem
        exact mem_filter.mpr ⟨hmem.1, hmem.2.2⟩
      simp only [howner, decide_true, Bool.true_and]
      rw [any_eq_true.mpr ⟨_, hnamed, decide_eq_true rfl⟩, Bool.and_true]
    · simp [howner]
  unfold namedVersions versionsOf byNameNewest at hlen ⊢
  rw [length_insertionSort, length_insertionSort, hown] at hlen
  rw [hown, filter_sublist.eq_of_length_le hlen]

include h

theorem versionsPage_eq : versionsPage env scan r req =
    if 2 ^ 31 ≤ wrap 64 (maxKeys + 1) then none
    else some (listVersionsResponse req encode maxKeys
      (((namedVersions r req.bucket).take (wrap 64 (maxKeys + 1))).map toObject)) := by
  obtain ⟨n, hn, hmax⟩ := h.maxKeys_eq
  have hexists : (r.live req.bucket).isEmpty = false := by rw [show r.live _ = _ from hlive]; rfl
  have hrows : ∀ limit, r.vrmListObjectVersions scan req.bucket none none none limit =
      (namedVersions r req.bucket).take limit := by
    intro limit
    simp only [vrmListObjectVersions, versionMarker, Bool.and_true]
    rfl
  have hmarker : ((none : Option Text).mapM env.db.toUuid).mapError Failure.exception = .ok none := rfl
  simp only [versionsPage, listObjectVersions, run_bind, h.encode_eq, hn, hmax, computed, run_pure,
    h.pfx, h.keyMarker, h.versionMarker, Dir.listObjectVersions, run_bucketExists, hexists, hmarker,
    Bool.false_eq_true, if_false]
  by_cases hlimit : 2 ^ 31 ≤ wrap 64 (maxKeys + 1)
  · simp only [if_pos hlimit, run_throw]
    rfl
  · simp only [if_neg hlimit, run_query, hrows]
    rfl

/-- A page that is read has its rows as nodes; it is the only one if they are not
too many, and one of several that is too long otherwise. -/
theorem versionPages_succ (hlimit : wrap 64 (maxKeys + 1) < 2 ^ 31) (fuel : Nat) :
    ∃ page : ListVersionsResponse,
      page.nodes = (versionLoop encode none none (((namedVersions r req.bucket).take
        (wrap 64 (maxKeys + 1))).map toObject) []).1 ∧
      (page.nodes.length ≤ maxKeys → versionPages env scan r (fuel + 1) req = some [page]) ∧
      ∀ pages, versionPages env scan r (fuel + 1) req = some pages → page ∈ pages := by
  have hpage := versionsPage_eq scan hlive h
  rw [if_neg (not_le.mpr hlimit)] at hpage
  have hnodes : ∀ objects, (listVersionsResponse req encode maxKeys objects).nodes =
      (versionLoop encode none none objects []).1 := by
    intro objects
    rw [listVersionsResponse, h.delimiter, h.pfx]
  refine ⟨_, hnodes _, fun hfits => ?_, fun pages hpages => ?_⟩
  · rw [hnodes, length_versionLoop] at hfits
    rw [versionPages, hpage, Option.bind_some, if_neg]
    exact fun htruncated => absurd (of_decide_eq_true htruncated) (not_lt.mpr hfits)
  · rw [versionPages, hpage, Option.bind_some] at hpages
    split at hpages
    · obtain ⟨rest, -, rfl⟩ := Option.map_eq_some_iff.mp hpages
      exact mem_cons_self
    · cases hpages
      exact mem_singleton_self _

variable {scan}

/-- The versions are paged completely exactly when they fit on the first page and
the database takes the limit. A limit that wraps to zero finds no version. -/
theorem pagesAll_iff :
    PagesAll env scan r req maxKeys (versionNodes encode (versionsOf r bucketId)) ↔
      maxKeys + 1 < 2 ^ 31 ∧ namedVersions r req.bucket = versionsOf r bucketId ∧
          (versionsOf r bucketId).length ≤ maxKeys ∨
        maxKeys + 1 = 2 ^ 64 ∧ versionsOf r bucketId = [] := by
  have hword := h.word
  constructor
  · rintro ⟨fuel, pages, hpages, hshort, hnodes⟩
    cases fuel with
    | zero => cases hpages
    | succ fuel =>
      have hlimit : wrap 64 (maxKeys + 1) < 2 ^ 31 := by
        by_contra hlarge
        rw [versionPages, versionsPage_eq scan hlive h, if_pos (not_lt.mp hlarge)] at hpages
        cases hpages
      obtain ⟨page, hpage, honly, hmem⟩ := versionPages_succ scan hlive h hlimit fuel
      have hfits := hshort page (hmem pages hpages)
      rw [honly hfits] at hpages
      cases hpages
      have hown := congrArg length hnodes
      rw [flatMap_singleton, hpage, length_versionLoop, length_map, length_take, versionNodes,
        length_map] at hown
      rw [hpage, length_versionLoop, length_map, length_take] at hfits
      by_cases hwrap : maxKeys + 1 = 2 ^ 64
      · rw [hwrap, show wrap 64 (2 ^ 64) = 0 from rfl, Nat.zero_min] at hown
        exact Or.inr ⟨hwrap, length_eq_zero_iff.mp hown.symm⟩
      · rw [wrap_of_lt (by omega)] at hown hfits hlimit
        exact Or.inl ⟨hlimit, namedVersions_eq_of_length hlive (by omega), by omega⟩
  · intro hfits
    have hlimit : wrap 64 (maxKeys + 1) < 2 ^ 31 := by
      rcases hfits with ⟨hlimit, -⟩ | ⟨hlimit, -⟩
      · rwa [wrap_of_lt (by omega)]
      · rw [hlimit]
        decide
    obtain ⟨page, hpage, honly, -⟩ := versionPages_succ scan hlive h hlimit 0
    have hrows : (namedVersions r req.bucket).take (wrap 64 (maxKeys + 1)) =
        versionsOf r bucketId ∧ (versionsOf r bucketId).length ≤ maxKeys := by
      rcases hfits with ⟨hlimit, hnamed, hfits⟩ | ⟨hlimit, hnone⟩
      · rw [wrap_of_lt (by omega), hnamed, take_of_length_le (by omega)]
        exact ⟨rfl, hfits⟩
      · rw [hlimit, hnone]
        exact ⟨rfl, Nat.zero_le _⟩
    rw [hrows.1] at hpage
    have hlength : page.nodes.length ≤ maxKeys := by
      rw [hpage, length_versionLoop, length_map]
      exact hrows.2
    refine ⟨1, [page], honly hlength, by simpa using hlength, ?_⟩
    rw [flatMap_singleton, hpage, versionLoop_nodes [] _ (by simp)]
    · rfl
    · exact byNameNewest_pairwise filter_sublist

end Pages

section Sample

def samplePages : Env :=
  ⟨sampleDatabase, sampleFormat, ⟨fun s => .ok s.length⟩, fun _ => .ok 0, ⟨fun _ => [], fun _ => []⟩⟩

/-- A request for as many versions as `count` is long. -/
def sampleVersionsRequest (count : String) : Request :=
  ⟨⟨"GET".toList, "/abc".toList, "/abc".toList, [("max-keys".toList, count.toList)], [], []⟩,
    ⟨['1'], ['u'], none, false⟩⟩

/-- The tables with two versions and a delete marker. -/
def sampleVersions : Records :=
  performAll sampleDatabase sampleFormat
    [sampleCreate, sampleSet .enabled, samplePut, samplePut, sampleDelete] Records.empty

theorem pagesAll_iff_sample :
    PagesAll samplePages sampleScan sampleVersions (sampleVersionsRequest "xxx") 3
      (versionNodes .ident (versionsOf sampleVersions 0)) := by
  have hplain : Plain samplePages (sampleVersionsRequest "xxx") .ident 3 :=
    ⟨rfl, rfl, rfl, rfl, rfl, ⟨some 3, rfl, rfl⟩, by decide⟩
  have hlive : sampleVersions.Live (sampleVersionsRequest "xxx").bucket 0
    ⟨sampleBucket, false, none, none, .enabled⟩ := rfl
  exact (pagesAll_iff hlive hplain).mpr (Or.inl ⟨by decide, rfl, by decide +kernel⟩)

/-- With pages of one version the first page has two. -/
theorem first_page_too_long :
    ((versionsPage samplePages sampleScan sampleVersions (sampleVersionsRequest "x")).map fun page =>
      (page.isTruncated, page.maxKeys, page.nodes.length)) = some (true, 1, 2) := by
  decide +kernel

end Sample

end UhCore.Entrypoint.Commands
