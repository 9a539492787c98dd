import UhCore.Entrypoint.Policy.Parser

/-!
The decision about a request. Statements come from three sources: the global
configuration, the policy of the bucket and the policies of the user. An
exception from a statement of the bucket ends the statements of this source
only; from one of the others it leaves the function.
-/

namespace UhCore.Entrypoint.Policies

open Http Except

/-- How the loop over the statements of a source ends, with the value
`has_allow` has then. -/
inductive Scan where
  | passed (hasAllow : Bool)
  | denied
  | threw (e : Exn) (hasAllow : Bool)

def scan (ctx : Context) : List Policy → Bool → Scan
  | [], hasAllow => .passed hasAllow
  | policy :: rest, hasAllow =>
    match policy.check ctx with
    | .error e => .threw e hasAllow
    | .ok none => scan ctx rest hasAllow
    | .ok (some .deny) => .denied
    | .ok (some .allow) => scan ctx rest true

/-- The value of `has_allow` when the loop left the function no decision. -/
def Scan.hasAllow : Scan → Option Bool
  | .passed a => some a
  | .denied => none
  | .threw _ a => some a

/-- The policies of a module and what it calls: the directory for the text of
bucket policies, and the libraries the text is parsed with. -/
structure Module where
  policies : List Policy
  getBucketPolicy : Text → Except Exn (Option Text)
  parseJson : Text → Except Exn Json
  time : TimeLibrary

namespace Module

def bucketPolicies (m : Module) (request : Request) : Except Exn (List Policy) :=
  if request.bucket = [] then .ok []
  else do
    match ← m.getBucketPolicy request.bucket with
    | none => return []
    | some resource => parse m.time (← m.parseJson resource)

/-- `has_allow` behind the statements of the bucket, where exceptions are
caught. -/
def checkBucket (m : Module) (ctx : Context) (hasAllow : Bool) : Option Bool :=
  match m.bucketPolicies ctx.request with
  | .error _ => some hasAllow
  | .ok policies => (scan ctx policies hasAllow).hasAllow

/-- The decision about a request of a user with the given policies. -/
def check (m : Module) (userPolicies : List (Text × List Policy)) (ctx : Context) :
    Except Exn Effect :=
  match scan ctx m.policies false with
  | .denied => .ok .deny
  | .threw e _ => .error e
  | .passed hasAllow =>
    match m.checkBucket ctx hasAllow with
    | none => .ok .deny
    | some hasAllow =>
      match scan ctx (userPolicies.flatMap Prod.snd) hasAllow with
      | .denied => .ok .deny
      | .threw e _ => .error e
      | .passed hasAllow => .ok (if hasAllow then .allow else .deny)

end Module

/-- Some statement matches and has the effect. -/
def applies (ctx : Context) (effect : Effect) (policies : List Policy) : Bool :=
  policies.any fun policy =>
    match policy.check ctx with
    | .ok (some e) => decide (e = effect)
    | _ => false

/-- What the evaluation logic asks for: an explicit deny wins, and without one
some statement has to allow. -/
def decision (ctx : Context) (policies : List Policy) : Effect :=
  if applies ctx .deny policies then .deny
  else if applies ctx .allow policies then .allow
  else .deny

def returns (ctx : Context) (policy : Policy) : Bool := (policy.check ctx).toBool

/-- The statements in front of the first one that throws. -/
def considered (ctx : Context) (policies : List Policy) : List Policy :=
  policies.takeWhile (returns ctx)

/-- The statements from the first one that throws. -/
def skipped (ctx : Context) (policies : List Policy) : List Policy :=
  policies.dropWhile (returns ctx)

/-- The statements of a request that are looked at. -/
def Module.consideredOf (m : Module) (ctx : Context) (bucket : List Policy)
    (userPolicies : List (Text × List Policy)) : List Policy :=
  m.policies ++ considered ctx bucket ++ userPolicies.flatMap Prod.snd

/-- The statements of a bucket policy behind one that throws make no
difference: another statement denies, or what is decided without them they
decide too. -/
def Module.SkippedIrrelevant (m : Module) (ctx : Context) (bucket : List Policy)
    (userPolicies : List (Text × List Policy)) : Prop :=
  applies ctx .deny (m.consideredOf ctx bucket userPolicies) ∨
    if applies ctx .allow (m.consideredOf ctx bucket userPolicies) then
      ¬ applies ctx .deny (skipped ctx bucket)
    else applies ctx .deny (skipped ctx bucket) ∨ ¬ applies ctx .allow (skipped ctx bucket)

@[simp] theorem applies_nil (ctx : Context) (effect : Effect) : applies ctx effect [] = false := rfl

@[simp] theorem applies_append (ctx : Context) (effect : Effect) (xs ys : List Policy) :
    applies ctx effect (xs ++ ys) = (applies ctx effect xs || applies ctx effect ys) :=
  List.any_append

variable {ctx : Context} {policies : List Policy} {xs ys : List Policy} {a b : Bool}

theorem applies_cons {policy : Policy} {result : Option Effect} (h : policy.check ctx = .ok result)
    (effect : Effect) (rest : List Policy) : applies ctx effect (policy :: rest) =
      (decide (result = some effect) || applies ctx effect rest) := by
  rcases result with _ | e <;> simp [applies, h]

theorem applies_perm (h : xs.Perm ys) (ctx : Context) (effect : Effect) :
    applies ctx effect xs = applies ctx effect ys :=
  h.any_eq

theorem considered_append_skipped (ctx : Context) (policies : List Policy) :
    considered ctx policies ++ skipped ctx policies = policies :=
  List.takeWhile_append_dropWhile

/-- A loop leaves without a decision unless a considered statement denies. -/
theorem scan_hasAllow (ctx : Context) (policies : List Policy) (a : Bool) :
    (scan ctx policies a).hasAllow =
      if applies ctx .deny (considered ctx policies) then none
      else some (a || applies ctx .allow (considered ctx policies)) := by
  induction policies generalizing a with
  | nil => simp [scan, Scan.hasAllow, considered]
  | cons policy rest ih =>
    cases hcheck : policy.check ctx with
    | error e =>
      simp [scan, hcheck, Scan.hasAllow, considered, returns, Except.toBool]
    | ok result =>
      have hconsidered : considered ctx (policy :: rest) = policy :: considered ctx rest := by
        simp [considered, returns, hcheck, Except.toBool]
      rw [hconsidered, applies_cons hcheck, applies_cons hcheck]
      rcases result with _ | _ | _
      · simp [scan, hcheck, ih]
      · simp [scan, hcheck, ih]
      · simp [scan, hcheck, Scan.hasAllow]

theorem considered_of_passed (h : scan ctx policies a = .passed b) :
    considered ctx policies = policies := by
  induction policies generalizing a with
  | nil => rfl
  | cons policy rest ih =>
    cases hcheck : policy.check ctx with
    | error e => simp [scan, hcheck] at h
    | ok result =>
      have hrest : considered ctx rest = rest := by
        rcases result with _ | _ | _ <;> simp only [scan, hcheck] at h
        · exact ih h
        · exact ih h
        · exact absurd h (by simp)
      simpa [considered, returns, hcheck, Except.toBool] using hrest

theorem passed_iff (h : scan ctx policies a = .passed b) :
    applies ctx .deny policies = false ∧ b = (a || applies ctx .allow policies) := by
  have hscan := scan_hasAllow ctx policies a
  rw [h, considered_of_passed h] at hscan
  cases hdeny : applies ctx .deny policies <;> simp_all [Scan.hasAllow]

theorem applies_considered {effect : Effect}
    (h : applies ctx effect (considered ctx policies) = true) :
    applies ctx effect policies = true := by
  rw [← considered_append_skipped ctx policies, applies_append, h, Bool.true_or]

theorem denied_applies (h : scan ctx policies a = .denied) : applies ctx .deny policies = true := by
  have hscan := scan_hasAllow ctx policies a
  rw [h] at hscan
  apply applies_considered
  by_contra hno
  simp [hno, Scan.hasAllow] at hscan

theorem Module.check_eq {m : Module} {bucket : List Policy}
    {userPolicies : List (Text × List Policy)} {d : Effect}
    (hbucket : m.bucketPolicies ctx.request = .ok bucket) (h : m.check userPolicies ctx = .ok d) :
    d = decision ctx (m.consideredOf ctx bucket userPolicies) := by
  unfold check checkBucket at h
  simp only [hbucket, scan_hasAllow] at h
  simp only [decision, consideredOf, applies_append]
  cases hglobal : scan ctx m.policies false with
  | threw e a => simp [hglobal] at h
  | denied =>
    simp only [hglobal, ok.injEq] at h
    simp [← h, denied_applies hglobal]
  | passed a =>
    obtain ⟨hdeny, ha⟩ := passed_iff hglobal
    cases hbucketDeny : applies ctx .deny (considered ctx bucket) with
    | true =>
      simp only [hglobal, hbucketDeny, if_true, ok.injEq] at h
      simp [← h]
    | false =>
      simp only [hglobal, hbucketDeny, Bool.false_eq_true, if_false] at h
      cases huser : scan ctx (userPolicies.flatMap Prod.snd)
          (a || applies ctx .allow (considered ctx bucket)) with
      | threw e b => simp [huser] at h
      | denied =>
        simp only [huser, ok.injEq] at h
        simp [← h, denied_applies huser]
      | passed b =>
        obtain ⟨hdeny', hb⟩ := passed_iff huser
        simp only [huser, ok.injEq] at h
        simp [← h, hdeny, hdeny', hb, ha]

/-- More statements decide the same if and only if the statements so far deny
or the further ones agree with them. -/
theorem decision_append_eq_iff (ctx : Context) (xs ys : List Policy) :
    decision ctx xs = decision ctx (xs ++ ys) ↔
      applies ctx .deny xs ∨
        if applies ctx .allow xs then ¬ applies ctx .deny ys
        else applies ctx .deny ys ∨ ¬ applies ctx .allow ys := by
  simp only [decision, applies_append]
  cases applies ctx .deny xs <;> cases applies ctx .allow xs <;>
    cases applies ctx .deny ys <;> cases applies ctx .allow ys <;> simp

theorem decision_perm (h : xs.Perm ys) (ctx : Context) : decision ctx xs = decision ctx ys := by
  simp only [decision, applies_perm h]

theorem Module.perm_considered (m : Module) (ctx : Context) (bucket : List Policy)
    (userPolicies : List (Text × List Policy)) :
    (m.policies ++ bucket ++ userPolicies.flatMap Prod.snd).Perm
      (m.consideredOf ctx bucket userPolicies ++ skipped ctx bucket) := by
  conv_lhs => rw [← considered_append_skipped ctx bucket]
  simp only [consideredOf, List.append_assoc]
  exact ((List.perm_append_comm).append_left _).append_left _

section Sample

/-- A statement about every action and resource. -/
def sampleStatement (effect : String) (more : List (Text × Json)) : Json :=
  .object ([("Action".toList, .string ['*']), ("Effect".toList, .string effect.toList),
    ("Resource".toList, .string ['*'])] ++ more)

def sampleDocument (statements : List Json) : Json :=
  .object [("Statement".toList, .array statements), ("Version".toList, .string iamJsonVersion)]

def sampleModule (document : Json) : Module :=
  { policies := []
    getBucketPolicy := fun _ => .ok (some [])
    parseJson := fun _ => .ok document
    time := ⟨fun _ => none, fun _ => none⟩ }

def sampleContext : Context :=
  { request :=
      { raw := ⟨"GET".toList, "/bucket/key".toList, "/bucket/key".toList, [], [], []⟩
        user := ⟨['1'], ['u'], none, false⟩ }
    actionId := "s3:GetObject".toList
    now := [] }

/-- The condition operator of the first statement is not implemented. -/
def throwingDocument : Json :=
  sampleDocument
    [sampleStatement "Allow" [("Condition".toList, .object [("Bool".toList, .object [])])],
      sampleStatement "Deny" []]

def allowDocument : Json := sampleDocument [sampleStatement "Allow" []]

def parsed (document : Json) : List Policy :=
  ((parse (sampleModule document).time document).toOption).getD []

end Sample

end UhCore.Entrypoint.Policies
