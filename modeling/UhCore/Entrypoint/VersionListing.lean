import UhCore.Entrypoint.Listing

/-!
The command `ListObjectVersions`: what it makes of the rows it is given.
-/

namespace UhCore.Entrypoint.Listing

open Directory (ObjectStatus)

/-- A `Version` or `DeleteMarker` element. -/
inductive VersionNode where
  | version (etag : Option Text) (key : Text) (size : Nat) (isLatest : Bool) (lastModified : Nat)
      (versionId : Option Text)
  | deleteMarker (key : Text) (isLatest : Bool) (lastModified : Nat) (versionId : Option Text)

structure ListVersionsResponse where
  isTruncated : Bool
  keyMarker : Option Text
  versionMarker : Option Text
  bucket : Text
  pfx : Option Text
  delimiter : Option Text
  maxKeys : Nat
  encodingType : Option Text
  nextKeyMarker : Option Text
  nextVersionMarker : Option Text
  nodes : List VersionNode
  commonPrefixes : List Text

def versionPrefix (delimiter pfx : Option Text) (name : Text) : Option Text :=
  match delimiter with
  | none => none
  | some delimiter =>
    (findFrom delimiter ((pfx.getD []).length) name).map fun first => name.take first

def versionNode (encode : Encoding) (obj : Object) (latest : Bool) : VersionNode :=
  if obj.state = .normal then
    .version obj.etag (encode.apply obj.name) obj.size latest obj.lastModified obj.version
  else .deleteMarker (encode.apply obj.name) latest obj.lastModified obj.version

/-- The loop over the objects; `seen` are the keys that came before. -/
def versionLoop (encode : Encoding) (delimiter pfx : Option Text) :
    List Object → List Text → List VersionNode × List Text
  | [], _ => ([], [])
  | obj :: rest, seen =>
    match versionPrefix delimiter pfx obj.name with
    | some text =>
      let (nodes, prefixes) := versionLoop encode delimiter pfx rest seen
      (nodes, text :: prefixes)
    | none =>
      let (nodes, prefixes) := versionLoop encode delimiter pfx rest (obj.name :: seen)
      (versionNode encode obj (decide (obj.name ∉ seen)) :: nodes, prefixes)

/-- A `std::set` of texts has each once, in order. -/
def textSet (texts : List Text) : List Text := texts.dedup.insertionSort (· ≤ ·)

/-- The response for the objects of the directory, of which there may be one more
than was asked for. -/
def listVersionsResponse (req : Http.Request) (encode : Encoding) (maxKeys : Nat)
    (objects : List Object) : ListVersionsResponse :=
  let delimiter := req.query "delimiter".toList
  let pfx := req.query "prefix".toList
  let (nodes, prefixes) := versionLoop encode delimiter pfx objects []
  let last := if maxKeys < objects.length then objects.getLast? else none
  { isTruncated := decide (maxKeys < objects.length)
    keyMarker := (req.query "key-marker".toList).map encode.apply
    versionMarker := req.query "version-id-marker".toList
    bucket := req.bucket
    pfx := pfx.map encode.apply
    delimiter := delimiter.map encode.apply
    maxKeys := maxKeys
    encodingType := req.query "encoding-type".toList
    nextKeyMarker := last.map fun o => encode.apply o.name
    nextVersionMarker := last.bind Object.version
    nodes := nodes
    commonPrefixes := (textSet prefixes).map encode.apply }

end UhCore.Entrypoint.Listing
