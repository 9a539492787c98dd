import Mathlib.Data.Char
import Mathlib.Data.List.Sort
import UhCore.Directory.Tables
import UhCore.Entrypoint.Command
import UhCore.Entrypoint.Http

/-!
The tables `buckets` and `objects` as the requests of one client see them, one
after the other. Rows are kept by their ids. A bucket that was deleted keeps its
row, and a new one of its name gets a new id.
-/

namespace UhCore.Entrypoint

open Directory (Versioning ObjectStatus)

structure BucketRow where
  name : Text
  deleted : Bool
  policy : Option Text
  cors : Option Text
  versioning : Versioning

/-- A row of `objects`. The address is the stored byte string; the times are
those of the database. -/
structure ObjectRow where
  bucketId : Nat
  name : Text
  address : List UInt8
  size : Nat
  lastModified : Nat
  etag : Option Text
  mime : Option Text
  version : Text
  status : ObjectStatus
  sticky : Bool

structure Catalog where
  buckets : KeyMap BucketRow
  objects : KeyMap ObjectRow

/-- `ep::object` without the address. -/
structure Object where
  id : Nat
  name : Text
  size : Nat
  lastModified : Nat
  etag : Option Text
  mime : Option Text
  version : Option Text
  state : ObjectStatus

def rowToObject (version : Option Text) (entry : Nat × ObjectRow) : Object :=
  ⟨entry.1, entry.2.name, entry.2.size, entry.2.lastModified, entry.2.etag, entry.2.mime,
    version, entry.2.status⟩

/-- The SQL operator `LIKE`: `%` stands for any text and `_` for a character;
a backslash takes the next character as it is. -/
def like : Text → Text → Bool
  | [], s => s.isEmpty
  | '%' :: pattern, s => s.tails.any fun t => like pattern t
  | '_' :: pattern, s => !s.isEmpty && like pattern s.tail
  | '\\' :: c :: pattern, s => decide (s.head? = some c) && like pattern s.tail
  | c :: pattern, s => decide (s.head? = some c) && like pattern s.tail

/-- The characters with a meaning in a pattern. -/
def likeMetacharacters : Text := ['%', '_', '\\']

theorem like_percent (s : Text) : like ['%'] s = true := by
  simp only [like, List.any_eq_true]
  exact ⟨[], by simp, rfl⟩

/-- A text without such characters with a `%` behind it is a pattern for the
texts that start with it. -/
theorem like_append_percent {pfx : Text} (h : ∀ c ∈ pfx, c ∉ likeMetacharacters) (s : Text) :
    like (pfx ++ ['%']) s = pfx.isPrefixOf s := by
  induction pfx generalizing s with
  | nil => exact like_percent s
  | cons c pfx ih =>
    have hc := h c (by simp)
    simp only [likeMetacharacters, List.mem_cons, List.not_mem_nil, or_false, not_or] at hc
    have hrest := ih fun d hd => h d (by simp [hd])
    have hlike : like (c :: pfx ++ ['%']) s =
        (decide (s.head? = some c) && like (pfx ++ ['%']) s.tail) := by
      rw [List.cons_append, like]
      · exact fun heq => hc.1 heq
      · exact fun heq => hc.2.1 heq
      · exact fun _ _ heq => absurd heq hc.2.2
    rw [hlike, hrest]
    cases s with
    | nil => simp
    | cons d s =>
      by_cases hdc : d = c
      · simp [hdc]
      · simp [List.isPrefixOf, hdc, Ne.symm hdc]

namespace Catalog

def vrmGetBucketId (c : Catalog) (bucket : Text) : Option Nat :=
  (c.buckets.findLast fun e => !e.2.deleted && decide (e.2.name = bucket)).map Prod.fst

/-- No row of the same name and bucket has a larger id. -/
def newest (c : Catalog) (entry : Nat × ObjectRow) : Bool :=
  c.objects.entries.all fun e =>
    !(decide (e.2.name = entry.2.name) && decide (e.2.bucketId = entry.2.bucketId)) ||
      decide (e.1 ≤ entry.1)

/-- The row is above the lower bound of a listing and does not start with
it. -/
def aboveBound (lowerBound : Text) (entry : Nat × ObjectRow) : Bool :=
  decide (lowerBound = []) ||
    decide (lowerBound < entry.2.name) && !lowerBound.isPrefixOf entry.2.name

/-- The rows of a listing without its lower bound. -/
def listed (c : Catalog) (bucketId : Nat) (pfx : Text) (entry : Nat × ObjectRow) : Bool :=
  c.newest entry && decide (entry.2.bucketId = bucketId) && like (pfx ++ ['%']) entry.2.name &&
    decide (entry.2.status = .normal)

def byName (rows : List (Nat × ObjectRow)) : List (Nat × ObjectRow) :=
  rows.insertionSort fun a b => a.2.name ≤ b.2.name

def vrmListObjects (c : Catalog) (bucket pfx lowerBound : Text) :
    Except Exn (List (Nat × ObjectRow)) :=
  match c.vrmGetBucketId bucket with
  | none => .error (.runtimeError
      ("Bucket \"" ++ String.ofList bucket ++ "s\" does not exist in buckets table"))
  | some bucketId => .ok (byName (c.objects.entries.filter fun e =>
    c.listed bucketId pfx e && aboveBound lowerBound e))

def noSuchBucket : Failure :=
  .command ⟨.notFound, "NoSuchBucket", "The specified bucket does not exist."⟩

def bucketExists (c : Catalog) (bucket : Text) : Except Failure Unit :=
  match c.vrmGetBucketId bucket with
  | none => .error noSuchBucket
  | some _ => .ok ()

def listObjects (c : Catalog) (bucket : Text) (pfx lowerBound : Option Text) :
    Except Failure (List Object) := do
  c.bucketExists bucket
  match c.vrmListObjects bucket (pfx.getD []) (lowerBound.getD []) with
  | .error e => .error (.exception e)
  | .ok rows => .ok (rows.map fun e => rowToObject (some e.2.version) e)

end Catalog

end UhCore.Entrypoint
