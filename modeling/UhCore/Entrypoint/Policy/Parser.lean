import UhCore.Entrypoint.Policy.Variables

/-!
Policy statements. The parser turns a statement into a list of matchers and an
effect; a matcher is a function of the variables and may throw: comparisons of
numbers and dates on values that are none, and the operators that are accepted
by the parser and not implemented.
-/

namespace UhCore.Entrypoint.Policies

open Http

/-- A JSON document as the JSON library returns it; the members of an object
have different keys and are sorted by them. -/
inductive Json where
  | null
  | boolean (value : Bool)
  | number (value : Int)
  | string (value : Text)
  | array (elements : List Json)
  | object (members : List (Text × Json))

namespace Json

def typeName : Json → String
  | null => "null"
  | boolean _ => "boolean"
  | number _ => "number"
  | string _ => "string"
  | array _ => "array"
  | object _ => "object"

def getString : Json → Except Exn Text
  | string value => .ok value
  | json => .error (.runtimeError
      ("[json.exception.type_error.302] type must be string, but is " ++ json.typeName))

def optional (json : Json) (key : Text) : Option Json :=
  match json with
  | object members => (members.find? fun m => decide (m.1 = key)).map Prod.snd
  | _ => none

def require (json : Json) (key : Text) : Except Exn Json :=
  match json.optional key with
  | none => .error (.runtimeError ("required key `" ++ String.ofList key ++ "` not found"))
  | some value => .ok value

/-- The keys and values that a loop over the items of a value visits. -/
def items : Json → List (Text × Json)
  | null => []
  | object members => members
  | array elements => elements.zipIdx.map fun e => ((toString e.2).toList, e.1)
  | json => [([], json)]

/-- One value, or those of an array. -/
def multiElement {α : Type} (json : Json) (reader : Json → Except Exn α) : Except Exn (List α) :=
  match json with
  | array elements => elements.mapM reader
  | json => do return [← reader json]

end Json

inductive Effect where
  | allow
  | deny
  deriving DecidableEq

abbrev Matcher := Context → Except Exn Bool

/-- Some value of a list passes; the values behind it are not looked at. -/
def matchAny {α : Type} (values : List α) (pred : α → Except Exn Bool) : Except Exn Bool :=
  match values with
  | [] => .ok false
  | value :: rest => do if ← pred value then return true else matchAny rest pred

/-- All matchers pass; those behind one that does not are not asked. -/
def conjunction : List Matcher → Matcher
  | [], _ => .ok true
  | m :: rest, ctx => do if ← m ctx then conjunction rest ctx else return false

def matchVariable (name : String) (equals : Text → Text → Context → Bool) (values : List Text) :
    Matcher := fun ctx =>
  matchAny values fun value =>
    match ctx.get name.toList with
    | some found => .ok (equals value found ctx)
    | none => .error (.runtimeError (name ++ " cannot be evaluated"))

def negate (m : Matcher) : Matcher := fun ctx => do return !(← m ctx)

def plainWildcard (pattern str : Text) (_ : Context) : Bool := equalsWildcard pattern str

def matchAction (actions : List Text) : Matcher :=
  matchVariable "vrm:ActionId" plainWildcard actions

def matchNotAction (actions : List Text) : Matcher := negate (matchAction actions)

def matchResource (resources : List Text) : Matcher :=
  matchVariable "vrm:ResourceArn" equalsWildcardVars resources

def matchNotResource (resources : List Text) : Matcher := negate (matchResource resources)

def matchPrincipal (principals : List Text) : Matcher :=
  matchVariable "aws:PrincipalArn" plainWildcard principals

def matchNotPrincipal (principals : List Text) : Matcher := negate (matchPrincipal principals)

/-- The variables of a condition operator with the values of each. -/
abbrev Parameters := List (Text × List Text)

inductive UndefinedVariable where
  | ignore
  | doNotMatch
  deriving DecidableEq

def varMatcher (uv : UndefinedVariable)
    (matchFunc : Context → Text → List Text → Except Exn Bool) : Parameters → Matcher
  | [], _ => .ok true
  | (name, options) :: rest, ctx =>
    match ctx.get name with
    | none => if uv = .ignore then varMatcher uv matchFunc rest ctx else .ok false
    | some value => do
      if ← matchFunc ctx value options then varMatcher uv matchFunc rest ctx
      else return false

def matchOptions (equals : Text → Text → Context → Bool) (ctx : Context) (value : Text)
    (options : List Text) : Except Exn Bool :=
  matchAny options fun option => .ok (equals value option ctx)

def matchNoOption (equals : Text → Text → Context → Bool) (ctx : Context) (value : Text)
    (options : List Text) : Except Exn Bool := do
  return !(← matchOptions equals ctx value options)

def stringEquals (value option : Text) (ctx : Context) : Bool :=
  decide (value = varReplace '*' '?' option ctx)

def stringEqualsIgnoreCase (value option : Text) (ctx : Context) : Bool :=
  equalsNocase value (varReplace '*' '?' option ctx)

/-- The value of the variable is taken as the pattern. -/
def stringLike (value option : Text) (ctx : Context) : Bool := equalsWildcardVars value option ctx

/-- A comparison with exactly one value, both read with the given function. -/
def matchComparison (read : Text → Except Exn Int) (comp : Int → Int → Bool) (ctx : Context)
    (value : Text) (options : List Text) : Except Exn Bool :=
  match options with
  | [option] => do return comp (← read value) (← read (varReplace '*' '?' option ctx))
  | _ => .error (.runtimeError
      "list is not supported as a condition value for this comparison operator")

def notImplemented (operator : String) : Matcher := fun _ =>
  .error (.runtimeError (operator ++ " not implemented"))

def equalTo (a b : Int) : Bool := decide (a = b)
def notEqualTo (a b : Int) : Bool := decide (a ≠ b)
def less (a b : Int) : Bool := decide (a < b)
def lessEqual (a b : Int) : Bool := decide (a ≤ b)
def greater (a b : Int) : Bool := decide (b < a)
def greaterEqual (a b : Int) : Bool := decide (b ≤ a)

section Operators

variable (parameters : Parameters) (uv : UndefinedVariable)

def matchStringequals : Matcher := varMatcher uv (matchOptions stringEquals) parameters

def matchStringnotequals : Matcher := varMatcher uv (matchNoOption stringEquals) parameters

def matchStringequalsignorecase : Matcher :=
  varMatcher uv (matchOptions stringEqualsIgnoreCase) parameters

def matchStringnotequalsignorecase : Matcher :=
  varMatcher uv (matchNoOption stringEqualsIgnoreCase) parameters

def matchStringlike : Matcher := varMatcher uv (matchOptions stringLike) parameters

def matchStringnotlike : Matcher := varMatcher uv (matchNoOption stringLike) parameters

def matchNumericcomparison (comp : Int → Int → Bool) : Matcher :=
  varMatcher uv (matchComparison toInt comp) parameters

def matchDatecomparison (time : TimeLibrary) (comp : Int → Int → Bool) : Matcher :=
  varMatcher uv (matchComparison time.readIso8601Date comp) parameters

end Operators

def matchNever : Matcher := fun _ => .ok false

/-- The matcher of a condition operator; `none` is an operator that is not
known. -/
def operatorMatcher (time : TimeLibrary) (key : String) (parameters : Parameters)
    (uv : UndefinedVariable) : Option Matcher :=
  match key with
  | "StringEquals" => some (matchStringequals parameters uv)
  | "StringNotEquals" => some (matchStringnotequals parameters uv)
  | "StringEqualsIgnoreCase" => some (matchStringequalsignorecase parameters uv)
  | "StringNotEqualsIgnoreCase" => some (matchStringnotequalsignorecase parameters uv)
  | "StringLike" => some (matchStringlike parameters uv)
  | "StringNotLike" => some (matchStringnotlike parameters uv)
  | "NumericEquals" => some (matchNumericcomparison parameters uv equalTo)
  | "NumericNotEquals" => some (matchNumericcomparison parameters uv notEqualTo)
  | "NumericLessThan" => some (matchNumericcomparison parameters uv less)
  | "NumericLessThanEquals" => some (matchNumericcomparison parameters uv lessEqual)
  | "NumericGreaterThan" => some (matchNumericcomparison parameters uv greater)
  | "NumericGreaterThanEquals" => some (matchNumericcomparison parameters uv greaterEqual)
  | "DateEquals" => some (matchDatecomparison parameters uv time equalTo)
  | "DateNotEquals" => some (matchDatecomparison parameters uv time notEqualTo)
  | "DateLessThan" => some (matchDatecomparison parameters uv time less)
  | "DateLessThanEquals" => some (matchDatecomparison parameters uv time lessEqual)
  | "DateGreaterThan" => some (matchDatecomparison parameters uv time greater)
  | "DateGreaterThanEquals" => some (matchDatecomparison parameters uv time greaterEqual)
  | "Bool" => some (notImplemented "Bool")
  | "BinaryEquals" => some (notImplemented "BinaryEquals")
  | "IpAddress" => some (notImplemented "IpAddress")
  | "NotIpAddress" => some (notImplemented "NotIpAddress")
  | "ArnEquals" => some (notImplemented "ArnEquals")
  | "ArnLike" => some (notImplemented "ArnLike")
  | "ArnNotEquals" => some (notImplemented "ArnNotEquals")
  | "ArnNotLike" => some (notImplemented "ArnNotLike")
  | "Null" => some (notImplemented "Null")
  | _ => none

structure Policy where
  id : Text
  matchers : List Matcher
  effect : Effect

/-- The effect of a statement that matches. -/
def Policy.check (policy : Policy) (ctx : Context) : Except Exn (Option Effect) := do
  if ← conjunction policy.matchers ctx then return some policy.effect else return none

section Parse

variable (time : TimeLibrary)

def limitedString (json : Json) : Except Exn Text := do
  let ret ← json.getString
  if 200 < ret.length then .error (.runtimeError "unsupported size value string") else .ok ret

def stringOrSet (json : Json) : Except Exn (List Text) := json.multiElement limitedString

def getEffect (stmt : Json) : Except Exn Effect := do
  let effect ← (← stmt.require "Effect".toList).getString
  if effect = "Allow".toList then return .allow
  else if effect = "Deny".toList then return .deny
  else throw (.runtimeError "unsupported effect value")

/-- One of an element and its negation. -/
def eitherMatcher (stmt : Json) (name : String) (positive negative : List Text → Matcher) :
    Except Exn Matcher :=
  match stmt.optional name.toList, stmt.optional ("Not" ++ name).toList with
  | some _, some _ => .error (.runtimeError (name ++ " and Not" ++ name ++ " both are defined"))
  | some json, none => do return positive (← stringOrSet json)
  | none, some json => do return negative (← stringOrSet json)
  | none, none => .error (.runtimeError ("either " ++ name ++ " or Not" ++ name ++ " is required"))

def actionMatchers (stmt : Json) : Except Exn Matcher :=
  eitherMatcher stmt "Action" matchAction matchNotAction

def resourceMatchers (stmt : Json) : Except Exn Matcher :=
  eitherMatcher stmt "Resource" matchResource matchNotResource

def principalMatchers (stmt : Json) : Except Exn (List Matcher) :=
  match stmt.optional "Principal".toList, stmt.optional "NotPrincipal".toList with
  | some json, _ => do return [matchPrincipal (← stringOrSet json)]
  | none, some json => do return [matchNotPrincipal (← stringOrSet json)]
  | none, none => .ok []

def conditionParameter (json : Json) : Except Exn Parameters :=
  json.items.mapM fun item => do return (item.1, ← item.2.multiElement limitedString)

/-- The parameters of an operator that is not known are not read. -/
def conditionMatcher (key : Text) (json : Json) : Except Exn Matcher := do
  let ifExists := "IfExists".toList
  let uv := if key.drop (key.length - ifExists.length) = ifExists then
    UndefinedVariable.ignore else .doNotMatch
  let key := String.ofList (if uv = .ignore then key.take (key.length - ifExists.length) else key)
  if (operatorMatcher time key [] uv).isSome then
    let parameters ← conditionParameter json
    return (operatorMatcher time key parameters uv).getD matchNever
  else return matchNever

def conditionMatchers (stmt : Json) : Except Exn (List Matcher) :=
  match stmt.optional "Condition".toList with
  | none => .ok []
  | some json => do
    let subs ← json.items.mapM fun item => conditionMatcher time item.1 item.2
    return [conjunction subs]

def undefinedSid : Text := "<Sid undefined>".toList

def parsePolicy (stmt : Json) : Except Exn Policy := do
  let action ← actionMatchers stmt
  let resource ← resourceMatchers stmt
  let principal ← principalMatchers stmt
  let condition ← conditionMatchers time stmt
  let id ← match stmt.optional "Sid".toList with
    | some sid => sid.getString
    | none => .ok undefinedSid
  return ⟨id, [action, resource] ++ principal ++ condition, ← getEffect stmt⟩

def iamJsonVersion : Text := "2012-10-17".toList

def parse (js : Json) : Except Exn (List Policy) := do
  let version ← match js.optional "Version".toList with
    | none => pure none
    | some json => some <$> json.getString
  if version ≠ some iamJsonVersion then
    throw (.runtimeError "no version element or unsupported version")
  let statements ← js.require "Statement".toList
  statements.multiElement (parsePolicy time)

end Parse

end UhCore.Entrypoint.Policies
