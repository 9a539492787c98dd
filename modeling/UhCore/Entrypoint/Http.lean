import UhCore.Types

/-!
HTTP requests as the entrypoint sees them. Header fields stay in the order in
which they came and are looked up by a name of any case, the first of several
wins; query parameters are a map, in which the last of several is left.
-/

namespace UhCore.Entrypoint

open List Prod

/-- A string of bytes, one character for each. -/
abbrev Text := List Char

instance Text.lawfulBEq : LawfulBEq Text := inferInstance

namespace Http

def lowercase (s : Text) : Text := s.map Char.toLower

def equalsNocase (a b : Text) : Bool := decide (lowercase a = lowercase b)

def whitespace : Text := " \n\r\t".toList ++ [Char.ofNat 12, Char.ofNat 11]

/-- The text without whitespace at its ends. -/
def trim (s : Text) : Text :=
  let rtrimmed := (s.reverse.dropWhile fun c => decide (c ∈ whitespace)).reverse
  rtrimmed.dropWhile fun c => decide (c ∈ whitespace)

/-- An empty text has no parts. -/
def split (s : Text) (delimiter : Char) : List Text :=
  if s = [] then [] else s.splitOn delimiter

def join (parts : List Text) (delimiter : Text) : Text := delimiter.intercalate parts

structure Field where
  name : Text
  value : Text
  deriving DecidableEq

/-- Set the value of a key in a map; only what a map holds is modelled, not the
order of its keys. -/
def putParam (params : List (Text × Text)) (key value : Text) : List (Text × Text) :=
  if params.any (fun p => decide (p.1 = key)) then
    params.map (fun p => if p.1 = key then (key, value) else p)
  else params ++ [(key, value)]

/-- The map that is left when all pairs are put into an empty one. -/
def mapOf (pairs : List (Text × Text)) : List (Text × Text) :=
  pairs.foldl (fun params pair => putParam params pair.1 pair.2) []

variable {params pairs : List (Text × Text)} {key value k v : Text}

theorem mem_putParam :
    (k, v) ∈ putParam params key value ↔ k = key ∧ v = value ∨ k ≠ key ∧ (k, v) ∈ params := by
  unfold putParam
  split
  case isTrue hany =>
    obtain ⟨⟨_, w⟩, hmem, hkey⟩ := List.any_eq_true.mp hany
    obtain rfl := of_decide_eq_true hkey
    simp only [List.mem_map, Prod.exists]
    constructor
    · rintro ⟨a, b, hab, heq⟩
      split at heq <;> simp_all
    · rintro (⟨rfl, rfl⟩ | ⟨hne, hkv⟩)
      · exact ⟨k, w, hmem, if_pos rfl⟩
      · exact ⟨k, v, hkv, if_neg hne⟩
  case isFalse hany =>
    have hne : (k, v) ∈ params → k ≠ key := by
      rintro hmem rfl
      exact hany (List.any_eq_true.mpr ⟨(k, v), hmem, decide_eq_true rfl⟩)
    simp only [mem_append, mem_singleton, mk.injEq]
    tauto

theorem find_replace_of_ne (hk : k ≠ key) (params : List (Text × Text)) :
    ((params.map fun p => if p.1 = key then (key, value) else p).find?
      fun p => decide (p.1 = k)) = params.find? fun p => decide (p.1 = k) := by
  induction params with
  | nil => rfl
  | cons p params ih =>
    rw [map_cons, find?_cons, find?_cons, ih]
    by_cases hp : p.1 = key
    · simp [hp, Ne.symm hk]
    · simp [hp]

theorem find_replace_self (value : Text) (hany : params.any (fun p => decide (p.1 = key)) = true) :
    ((params.map fun p => if p.1 = key then (key, value) else p).find?
      fun p => decide (p.1 = key)).map snd = some value := by
  induction params with
  | nil => simp at hany
  | cons p params ih =>
    rw [map_cons, find?_cons]
    by_cases hp : p.1 = key
    · simp [hp]
    · simpa [hp] using ih (by simpa [hp] using hany)

theorem find_putParam (params : List (Text × Text)) (key value k : Text) :
    ((putParam params key value).find? fun p => decide (p.1 = k)).map snd =
      if k = key then some value
      else (params.find? fun p => decide (p.1 = k)).map snd := by
  unfold putParam
  by_cases hk : k = key
  · subst hk
    rw [if_pos rfl]
    split
    case isTrue hany => exact find_replace_self value hany
    case isFalse hany =>
      have hnone : (params.find? fun p => decide (p.1 = k)) = none := by
        rw [find?_eq_none]
        exact fun p hp hpk => hany (List.any_eq_true.mpr ⟨p, hp, hpk⟩)
      rw [find?_append, hnone]
      simp
  · rw [if_neg hk]
    split
    · rw [find_replace_of_ne hk]
    · rw [find?_append]
      simp [Ne.symm hk]

theorem mem_mapOf :
    (k, v) ∈ mapOf pairs ↔
      (pairs.reverse.find? fun p => decide (p.1 = k)).map snd = some v := by
  induction pairs using List.reverseRecOn with
  | nil => simp [mapOf]
  | append_singleton pairs p ih =>
    have hput : mapOf (pairs ++ [p]) = putParam (mapOf pairs) p.1 p.2 := by
      simp [mapOf]
    rw [hput, mem_putParam, ih, reverse_append, reverse_singleton, singleton_append, find?_cons]
    by_cases hk : p.1 = k
    · simp [hk, eq_comm]
    · simp [hk, Ne.symm hk]

theorem mem_of_mem_mapOf {p : Text × Text} (h : p ∈ mapOf pairs) : p ∈ pairs := by
  obtain ⟨⟨k', v'⟩, hfind, hv⟩ := Option.map_eq_some_iff.mp (mem_mapOf.mp h)
  have hk := find?_some hfind
  have hp : (k', v') = p := Prod.ext (of_decide_eq_true hk) hv
  exact hp ▸ mem_reverse.mp (mem_of_find?_eq_some hfind)

theorem find_mapOf :
    ((mapOf pairs).find? fun p => decide (p.1 = k)).map snd = some v ↔
      (k, v) ∈ mapOf pairs := by
  have hmem : ∀ w, ((mapOf pairs).find? fun p => decide (p.1 = k)).map snd = some w →
      (k, w) ∈ mapOf pairs := by
    intro w hw
    obtain ⟨⟨k', w'⟩, hfind, rfl⟩ := Option.map_eq_some_iff.mp hw
    have hk := find?_some hfind
    obtain rfl : k' = k := of_decide_eq_true hk
    exact mem_of_find?_eq_some hfind
  refine ⟨hmem v, fun hv => ?_⟩
  cases hfind : ((mapOf pairs).find? fun p => decide (p.1 = k)).map snd with
  | none =>
    have hnone := find?_eq_none.mp (Option.map_eq_none_iff.mp hfind) (k, v) hv
    simp at hnone
  | some w => rw [← mem_mapOf.mp hv, mem_mapOf.mp (hmem w hfind)]

/-- The URLs of a request target. `params` has the decoded parameters of a
query in their order. -/
structure UrlLibrary where
  encodedPath : Text → Except Exn Text
  path : Text → Text
  params : Text → Except Exn (List (Text × Text))

structure RawRequest where
  method : Text
  path : Text
  encodedPath : Text
  params : List (Text × Text)
  headers : List Field
  peer : Text

namespace RawRequest

def fromString (url : UrlLibrary) (version : Nat) (method target peer : Text)
    (headers : List Field) : Except Exn RawRequest := do
  if version ≠ 11 then
    throw (.runtimeError "bad http version. support exists only for HTTP 1.1.\n")
  let encoded := target.takeWhile (· ≠ '?')
  let query := (target.dropWhile (· ≠ '?')).drop 1
  let encodedPath ← url.encodedPath encoded
  let pairs ← if '?' ∈ target then url.params query else pure []
  pure
    { method := method
      path := url.path encodedPath
      encodedPath := encodedPath
      params := mapOf pairs
      headers := headers
      peer := peer }

def optional (req : RawRequest) (name : Text) : Option Text :=
  (req.headers.find? fun field => equalsNocase field.name name).map Field.value

def require (req : RawRequest) (name : Text) : Except Exn Text :=
  match req.optional name with
  | none => .error (.runtimeError (String.ofList name ++ " not found"))
  | some value => .ok value

end RawRequest

structure User where
  id : Text
  name : Text
  arn : Option Text
  superUser : Bool

def getBucketId (path : Text) : Text := (split path '/').getD 1 []

def getObjectKey (path : Text) : Text := join ((split path '/').drop 2) ['/']

structure Request where
  raw : RawRequest
  user : User

namespace Request

def bucket (req : Request) : Text := getBucketId req.raw.path

def objectKey (req : Request) : Text := getObjectKey req.raw.path

def arn (req : Request) : Text :=
  if req.objectKey ≠ [] then "arn:aws:s3:::".toList ++ req.bucket ++ ['/'] ++ req.objectKey
  else "arn:aws:s3:::".toList ++ req.bucket

def query (req : Request) (name : Text) : Option Text :=
  (req.raw.params.find? fun p => decide (p.1 = name)).map snd

/-- The request with a further parameter. -/
def withParam (req : Request) (name value : Text) : Request :=
  { req with raw := { req.raw with params := putParam req.raw.params name value } }

theorem query_withParam_self (req : Request) (name value : Text) :
    (req.withParam name value).query name = some value :=
  (find_putParam req.raw.params name value name).trans (if_pos rfl)

theorem query_withParam_of_ne (req : Request) {name k : Text} (value : Text) (h : k ≠ name) :
    (req.withParam name value).query k = req.query k :=
  (find_putParam req.raw.params name value k).trans (if_neg h)

def header (req : Request) (name : Text) : Option Text := req.raw.optional name

end Request

end Http

end UhCore.Entrypoint
