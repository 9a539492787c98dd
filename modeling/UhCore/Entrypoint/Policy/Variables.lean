import UhCore.Entrypoint.Http

/-!
The variables of policy statements and how their values are compared: texts
with variables in them, patterns with wildcards, numbers and dates.
-/

namespace UhCore.Entrypoint.Policies

open Http

/-- What variables are evaluated from: the request, the action of the command
and the current time. -/
structure Context where
  request : Request
  actionId : Text
  now : Text

def valueProvider (ctx : Context) : List (Text × Option Text) :=
  [("vrm:ActionId".toList, some ctx.actionId),
    ("vrm:ResourceArn".toList, some ctx.request.arn),
    ("aws:PrincipalArn".toList, ctx.request.user.arn),
    ("aws:username".toList, some ctx.request.user.name),
    ("aws:userid".toList, some ctx.request.user.id),
    ("aws:SourceIp".toList, some ctx.request.raw.peer),
    ("aws:referer".toList, ctx.request.header "Referer".toList),
    ("aws:UserAgent".toList, ctx.request.header "User-Agent".toList),
    ("s3:x-amz-content-sha256".toList, ctx.request.header "x-amz-content-sha256".toList),
    ("s3:x-amz-copy-source".toList, ctx.request.header "x-amz-copy-source".toList),
    ("s3:delimiter".toList, ctx.request.query "delimiter".toList),
    ("s3:prefix".toList, ctx.request.query "prefix".toList),
    ("aws:CurrentTime".toList, some ctx.now)]

/-- The value of a variable, whose name may be written in any case. -/
def Context.get (ctx : Context) (name : Text) : Option Text :=
  ((valueProvider ctx).find? fun p => equalsNocase p.1 name).bind Prod.snd

/-- What a variable name stands for that has no value. -/
def specialCharacter (asterisk questionmark : Char) (name : Text) : Text :=
  match name with
  | [c] => (if c = asterisk then ['*'] else []) ++ (if c = questionmark then ['?'] else []) ++
      if c = '$' then ['$'] else []
  | _ => []

/-- The loop of `var_replace`; every round takes at least one character, so
the length of the text bounds their number. `last` is the character before. -/
def varReplaceLoop (asterisk questionmark : Char) (get : Text → Option Text) :
    Nat → Option Char → Text → Text
  | 0, _, _ => []
  | _, _, [] => []
  | fuel + 1, last, current :: rest =>
    if last = some '\\' then
      current :: varReplaceLoop asterisk questionmark get fuel none rest
    else if current = '$' then
      match rest with
      | [] => [current]
      | '{' :: name =>
        match name.dropWhile (· ≠ '}') with
        | [] => current :: rest
        | _ :: after =>
          let name := name.takeWhile (· ≠ '}')
          (get name).getD (specialCharacter asterisk questionmark name) ++
            varReplaceLoop asterisk questionmark get fuel (some current) after
      | _ => varReplaceLoop asterisk questionmark get fuel (some current) rest
    else if current = '\\' then
      varReplaceLoop asterisk questionmark get fuel (some current) rest
    else current :: varReplaceLoop asterisk questionmark get fuel (some current) rest

def varReplace (asterisk questionmark : Char) (format : Text) (ctx : Context) : Text :=
  varReplaceLoop asterisk questionmark ctx.get format.length none format

/-- The rest of a text behind its first character; `none` is behind the end. -/
def advance : Option Text → Option Text
  | some (_ :: rest) => some rest
  | _ => none

/-- The recursion of `equals_wildcard`. Every call is for a shorter pattern or a
shorter text. -/
def matchWildcard (asterisk questionmark : Char) : Nat → Text → Option Text → Bool
  | _, [], str => decide (str = some [])
  | 0, _, _ => false
  | fuel + 1, p :: pattern, str =>
    if p = asterisk then
      matchWildcard asterisk questionmark fuel pattern str ||
        ((str.getD []) ≠ [] &&
          matchWildcard asterisk questionmark fuel (p :: pattern) (advance str))
    else if p = questionmark || decide (str.bind List.head? = some p) then
      matchWildcard asterisk questionmark fuel pattern (advance str)
    else false

def wildcardFuel (pattern str : Text) : Nat := pattern.length + str.length + 1

def equalsWildcard (pattern str : Text) : Bool :=
  matchWildcard '*' '?' (wildcardFuel pattern str) pattern (some str)

/-- The characters that stand for the wildcards of a pattern while its
variables are replaced. -/
def tempAsterisk : Char := Char.ofNat 255

def tempQuestionmark : Char := Char.ofNat 254

/-- Compare with a pattern that has variables. Wildcards in their values stand
for themselves. -/
def equalsWildcardVars (pattern str : Text) (ctx : Context) : Bool :=
  let buf := pattern.map fun c =>
    if c = '*' then tempAsterisk else if c = '?' then tempQuestionmark else c
  let buf := varReplace tempAsterisk tempQuestionmark buf ctx
  matchWildcard tempAsterisk tempQuestionmark (wildcardFuel buf str) buf (some str)

def conversionFailed : Exn := .runtimeError "string to int conversion failed"

/-- A number in a 64-bit integer. -/
def toInt (s : Text) : Except Exn Int :=
  let negative := decide (s.head? = some '-')
  let digits := if negative then s.drop 1 else s
  if digits.isEmpty || !digits.all Char.isDigit then .error conversionFailed
  else
    let n := digits.foldl (fun n c => n * 10 + (c.toNat - '0'.toNat)) 0
    let value : Int := if negative then -n else n
    if value < -2 ^ 63 ∨ 2 ^ 63 ≤ value then .error conversionFailed else .ok value

/-- The C library functions that dates are read with: `date` is for a year to a
second and returns the year with the time, `hour` for an hour with minutes of
zero. -/
structure TimeLibrary where
  date : Text → Option (Int × Int)
  hour : Text → Option Int

def timeFormatError : Exn := .runtimeError
  ("\ntime format error:\n    - `2011-02-18T23:12:34-02:00` and `2011-02-18T23:12:34Z` " ++
    "formats are supported\n    - Constaints should be less than `2270-01-01T00:00:00Z`")

namespace TimeLibrary

def readLocalDate (time : TimeLibrary) (s : Text) : Except Exn Int :=
  match time.date s with
  | none => .error timeFormatError
  | some (year, seconds) => if 2261 ≤ year then .error timeFormatError else .ok seconds

def readTimezone (time : TimeLibrary) (s : Text) : Except Exn Int :=
  if s = ['Z'] then .ok 0
  else if s.length ≠ 6 then .error timeFormatError
  else if s.head? ≠ some '+' ∧ s.head? ≠ some '-' then .error timeFormatError
  else
    match time.hour (s.drop 1) with
    | none => .error timeFormatError
    | some hour =>
      if hour ≤ -24 ∨ 24 ≤ hour then .error timeFormatError
      else .ok (if s.head? = some '-' then -(hour * 3600) else hour * 3600)

def readIso8601Date (time : TimeLibrary) (s : Text) : Except Exn Int :=
  if s.length < 19 then .error timeFormatError
  else do
    let seconds ← time.readLocalDate (s.take 19)
    let offset ← time.readTimezone (s.drop 19)
    pure (seconds + offset)

end TimeLibrary

end UhCore.Entrypoint.Policies
