import UhCore.Entrypoint.Catalog
import UhCore.Entrypoint.Signature

/-!
The commands `ListObjects` and `ListObjectsV2`. Keys that have the delimiter
behind the requested beginning are collapsed to common prefixes; a page ends
after the requested number of entries, with the text the next page starts
behind.
-/

namespace UhCore.Entrypoint.Listing

open Http

/-- The position of the first occurrence from a position on. -/
def findFrom (needle : Text) (pos : Nat) (s : Text) : Option Nat :=
  (List.range (s.length + 1)).find? fun i => decide (pos ≤ i) && needle.isPrefixOf (s.drop i)

inductive Collapsed where
  | commonPrefix (text : Text)
  | object (object : Object)

/-- The common prefix that a key belongs to. -/
def delimiterPrefix (delimiter pfx : Option Text) (name : Text) : Option Text :=
  match delimiter with
  | none => none
  | some delimiter =>
    (findFrom delimiter ((pfx.getD []).length) name).map fun index => name.take (index + 1)

def collapseLoop (delimiter pfx : Option Text) : Text → List Object → List Collapsed
  | _, [] => []
  | previous, object :: rest =>
    match delimiterPrefix delimiter pfx object.name with
    | none => .object object :: collapseLoop delimiter pfx previous rest
    | some text =>
      if previous = text then collapseLoop delimiter pfx previous rest
      else .commonPrefix text :: collapseLoop delimiter pfx text rest

def collapse (objects : List Object) (delimiter pfx : Option Text) : List Collapsed :=
  collapseLoop delimiter pfx [] objects

/-- How keys are written to a response. -/
inductive Encoding where
  | ident
  | url
  deriving DecidableEq

def urlEncode (s : Text) : Text :=
  s.flatMap fun c => if unreserved c || decide (c = '/') then [c] else '%' :: hexPair hexDigitsUpper c

def Encoding.apply : Encoding → Text → Text
  | .ident, s => s
  | .url, s => urlEncode s

def encoder (encodingType : Option Text) : Except Failure Encoding :=
  match encodingType with
  | none => .ok .ident
  | some encodingType =>
    if encodingType = "url".toList then .ok .url
    else .error (.command
      ⟨.badRequest, "InvalidArgument", "Encountered unexpected query parameter."⟩)

/-- What the loop over the collapsed objects leaves: the entries of the page and,
if it is truncated, the text for the next one. -/
structure Page where
  contents : List Object
  commonPrefixes : List Text
  isTruncated : Bool
  next : Option Text

def Page.add (page : Page) : Collapsed → Page
  | .commonPrefix text => { page with commonPrefixes := text :: page.commonPrefixes }
  | .object object => { page with contents := object :: page.contents }

def pageLoop (maxKeys size : Nat) (nextOf : Collapsed → Option Text) :
    List Collapsed → Nat → Page
  | [], _ => ⟨[], [], false, none⟩
  | entry :: rest, counter =>
    let page := if counter + 1 = maxKeys ∧ maxKeys < size then
      ⟨[], [], true, nextOf entry⟩ else pageLoop maxKeys size nextOf rest (counter + 1)
    page.add entry

def nextText (objects : List Object) (maxKeys : Nat) : Collapsed → Option Text
  | .commonPrefix text => some text
  | .object _ => objects[maxKeys - 1]?.map Object.name

def makePage (objects : List Object) (delimiter pfx : Option Text) (maxKeys : Nat)
    (nextOf : Collapsed → Option Text) : Page :=
  if objects ≠ [] ∧ maxKeys ≠ 0 then
    let collapsed := collapse objects delimiter pfx
    pageLoop maxKeys collapsed.length nextOf collapsed 0
  else ⟨[], [], false, none⟩

/-- The conversion `std::stoul` of the C++ library. -/
structure Conversions where
  stoul : Text → Except Exn Nat

def queryNumber (conv : Conversions) (req : Request) (name : String) :
    Except Failure (Option Nat) :=
  match req.query name.toList with
  | none => .ok none
  | some value =>
    match conv.stoul value with
    | .ok n => .ok (some n)
    | .error _ => .error (.command ⟨.badRequest, "InvalidArgument", "Invalid " ++ name ++ "."⟩)

/-- `to_bool` reads `true` and `false`; whatever else is read, the value is
false. -/
def toBool (s : Text) : Bool :=
  "true".toList.isPrefixOf ((lowercase s).dropWhile fun c => decide (c ∈ whitespace))

/-- An empty delimiter counts as none. -/
def delimiterOf (req : Request) : Option Text :=
  (req.query "delimiter".toList).filter fun d => decide (d ≠ [])

/-- A listing. The keys and the common prefixes of the page are written with
`encode`; the text for the next page is written as it is. -/
structure ListResponse where
  bucket : Text
  pfx : Option Text
  delimiter : Option Text
  maxKeys : Nat
  encodingType : Option Text
  encode : Encoding
  page : Page

namespace ListResponse

structure Node where
  etag : Option Text
  key : Text
  size : Nat
  lastModified : Nat

def contents (r : ListResponse) : List Node :=
  r.page.contents.map fun o => ⟨o.etag, r.encode.apply o.name, o.size, o.lastModified⟩

def commonPrefixes (r : ListResponse) : List Text := r.page.commonPrefixes.map r.encode.apply

def keyCount (r : ListResponse) : Nat := r.page.contents.length + r.page.commonPrefixes.length

end ListResponse

section Commands

variable (conv : Conversions)

/-- `marker` is the parameter that is echoed. -/
structure ListObjectsResponse extends ListResponse where
  marker : Option Text

def listObjects (c : Catalog) (req : Request) : Except Failure ListObjectsResponse := do
  let objects ← match c.listObjects req.bucket (req.query "prefix".toList)
      (req.query "marker".toList) with
    | .ok objects => .ok objects
    | .error _ => .error Catalog.noSuchBucket
  let pfx := req.query "prefix".toList
  let delimiter := delimiterOf req
  let encodingType := req.query "encoding-type".toList
  let encode ← encoder encodingType
  let maxKeys := (← queryNumber conv req "max-keys").getD 1000
  let nextOf := fun entry => if delimiter.isSome then nextText objects maxKeys entry else none
  return { bucket := req.bucket, pfx, delimiter, maxKeys, encodingType, encode
           page := makePage objects delimiter pfx maxKeys nextOf
           marker := req.query "marker".toList }

structure ListObjectsV2Response extends ListResponse where
  continuationToken : Option Text
  startAfter : Option Text
  fetchOwner : Bool

/-- The larger of the parameters `start-after` and `continuation-token`. -/
def lowerBoundV2 (req : Request) : Option Text :=
  let startAfter := req.query "start-after".toList
  match req.query "continuation-token".toList with
  | none => startAfter
  | some token =>
    if token = [] then startAfter
    else
      match startAfter with
      | none => some token
      | some bound => if bound < token then some token else some bound

def listObjectsV2 (c : Catalog) (req : Request) : Except Failure ListObjectsV2Response := do
  let objects ← match c.listObjects req.bucket (req.query "prefix".toList) (lowerBoundV2 req) with
    | .ok objects => .ok objects
    | .error _ => .error Catalog.noSuchBucket
  let pfx := req.query "prefix".toList
  let delimiter := delimiterOf req
  let encodingType := req.query "encoding-type".toList
  let encode ← encoder encodingType
  let maxKeys := (← queryNumber conv req "max-keys").getD 1000
  return { bucket := req.bucket, pfx, delimiter, maxKeys, encodingType, encode
           page := makePage objects delimiter pfx maxKeys (nextText objects maxKeys)
           continuationToken := req.query "continuation-token".toList
           startAfter := req.query "start-after".toList
           fetchOwner := ((req.query "fetch-owner".toList).map toBool).getD false }

end Commands

end UhCore.Entrypoint.Listing
