import Mathlib.Tactic

/-!
Stored procedures under the isolation level READ COMMITTED. A procedure is a
script of statements. Each SELECT sees the rows that are committed when it
runs; where its answer is not determined (no ORDER BY), a number chosen by the
scheduler picks one. A sequence hands out its values at once, also to a
transaction that fails later.

The writes of a transaction are collected and applied to the committed rows
when it ends. An UPDATE locks its row until the end and works on the last
committed version of it, and no script below reads after it has written, so
the only other order of events that the database allows, in which the row is
locked some statements earlier, ends in the same rows.
-/

namespace ReadCommitted

/-- A script that reads tables `σ`, writes `ω` and returns an `α`. -/
inductive Script (σ ω α : Type) where
  | done (a : α)
  | select (k : σ → Nat → Script σ ω α)
  | nextval (k : Nat → Script σ ω α)
  | write (w : ω) (k : Script σ ω α)
  | raise

namespace Script

variable {σ ω α β : Type}

protected def bind : Script σ ω α → (α → Script σ ω β) → Script σ ω β
  | .done a, f => f a
  | .select k, f => .select fun s c => (k s c).bind f
  | .nextval k, f => .nextval fun n => (k n).bind f
  | .write w k, f => .write w (k.bind f)
  | .raise, _ => .raise

instance : Monad (Script σ ω) where
  pure := .done
  bind := Script.bind

def query (f : σ → α) : Script σ ω α := .select fun s _ => .done (f s)

/-- The row that a query without an order returns first, if there is one. -/
def anyOf (rows : σ → List α) : Script σ ω (Option α) :=
  .select fun s c => .done (rows s)[c % (rows s).length]?

def fresh : Script σ ω Nat := .nextval .done

def exec (w : ω) : Script σ ω Unit := .write w (.done ())

/-- Every end of a script, whatever it reads and draws, satisfies `Q` of the
values drawn, the writes and the result. -/
def Ends (Q : List Nat → List ω → α → Prop) : List Nat → List ω → Script σ ω α → Prop
  | drawn, writes, .done a => Q drawn writes a
  | drawn, writes, .select k => ∀ s c, Ends Q drawn writes (k s c)
  | drawn, writes, .nextval k => ∀ n, Ends Q (n :: drawn) writes (k n)
  | drawn, writes, .write w k => Ends Q drawn (writes ++ [w]) k
  | _, _, .raise => True

section Rules

variable {Q : List Nat → List ω → α → Prop} {R : List Nat → List ω → β → Prop}
  {drawn : List Nat} {writes : List ω}

@[simp] theorem ends_query (f : σ → α) :
    Ends Q drawn writes (query f : Script σ ω α) ↔ ∀ s, Q drawn writes (f s) :=
  ⟨fun h s => h s 0, fun h s _ => h s⟩

@[simp] theorem ends_anyOf (rows : σ → List α) (R : List Nat → List ω → Option α → Prop) :
    Ends R drawn writes (anyOf rows : Script σ ω (Option α)) ↔
      ∀ s (c : Nat), R drawn writes (rows s)[c % (rows s).length]? := Iff.rfl

theorem ends_bind (script : Script σ ω α) (f : α → Script σ ω β) (drawn : List Nat)
    (writes : List ω) :
    Ends R drawn writes (script >>= f) ↔
      Ends (fun drawn writes a => Ends R drawn writes (f a)) drawn writes script := by
  show Ends R drawn writes (script.bind f) ↔ _
  induction script generalizing drawn writes with
  | done a => rfl
  | select k ih => exact forall_congr' fun s => forall_congr' fun c => ih s c drawn writes
  | nextval k ih => exact forall_congr' fun n => ih n (n :: drawn) writes
  | write w k ih => exact ih drawn (writes ++ [w])
  | raise => rfl

end Rules

end Script

/-- A script that is being run, with what it has drawn and written. -/
structure Transaction (σ ω α : Type) where
  drawn : List Nat
  writes : List ω
  script : Script σ ω α

namespace Transaction

variable {σ ω α : Type}

def start (script : Script σ ω α) : Transaction σ ω α := ⟨[], [], script⟩

inductive Outcome (σ ω α : Type) where
  | running (next : Nat) (tx : Transaction σ ω α)
  | committed (tables : σ) (result : α)
  | failed

def applyWrites (apply : σ → ω → Option σ) : σ → List ω → Option σ
  | s, [] => some s
  | s, w :: rest => (apply s w).bind fun s' => applyWrites apply s' rest

/-- The next statement of a transaction. A write that violates a constraint
makes it fail. -/
def step (apply : σ → ω → Option σ) (tables : σ) (next choice : Nat)
    (tx : Transaction σ ω α) : Outcome σ ω α :=
  match tx.script with
  | .done a =>
    match applyWrites apply tables tx.writes with
    | some tables' => .committed tables' a
    | none => .failed
  | .select k => .running next { tx with script := k tables choice }
  | .nextval k => .running (next + 1) ⟨next :: tx.drawn, tx.writes, k next⟩
  | .write w k => .running next { tx with writes := tx.writes ++ [w], script := k }
  | .raise => .failed

def result (tx : Transaction σ ω α) : Option α :=
  match tx.script with
  | .done a => some a
  | _ => none

def Ends (Q : List Nat → List ω → α → Prop) (tx : Transaction σ ω α) : Prop :=
  tx.script.Ends Q tx.drawn tx.writes

@[simp] theorem applyWrites_singleton (apply : σ → ω → Option σ) (tables : σ) (w : ω) :
    applyWrites apply tables [w] = apply tables w := by
  show (apply tables w).bind some = apply tables w
  exact Option.bind_fun_some (apply tables w)

variable {apply : σ → ω → Option σ} {tables tables' : σ} {next next' choice : Nat}
  {tx tx' : Transaction σ ω α} {a : α} {Q : List Nat → List ω → α → Prop}

/-- A statement that does not end the transaction draws at most the next value
of the sequence. -/
theorem Ends.running (h : tx.Ends Q)
    (hstep : tx.step apply tables next choice = .running next' tx') :
    tx'.Ends Q ∧ (next' = next ∧ tx'.drawn = tx.drawn ∨
      next' = next + 1 ∧ tx'.drawn = next :: tx.drawn) := by
  obtain ⟨drawn, writes, script⟩ := tx
  cases script with
  | done a =>
    simp only [step] at hstep
    split at hstep <;> cases hstep
  | select k =>
    cases hstep
    exact ⟨h tables choice, Or.inl ⟨rfl, rfl⟩⟩
  | nextval k =>
    cases hstep
    exact ⟨h next, Or.inr ⟨rfl, rfl⟩⟩
  | write w k =>
    cases hstep
    exact ⟨h, Or.inl ⟨rfl, rfl⟩⟩
  | raise => cases hstep

theorem Ends.committed (h : tx.Ends Q)
    (hstep : tx.step apply tables next choice = .committed tables' a) :
    Q tx.drawn tx.writes a ∧ tx.result = some a ∧
      applyWrites apply tables tx.writes = some tables' := by
  obtain ⟨drawn, writes, script⟩ := tx
  cases script with
  | done a =>
    simp only [step] at hstep
    split at hstep
    case h_1 happly =>
      cases hstep
      exact ⟨h, rfl, happly⟩
    case h_2 => cases hstep
  | select k => cases hstep
  | nextval k => cases hstep
  | write w k => cases hstep
  | raise => cases hstep

end Transaction

end ReadCommitted
