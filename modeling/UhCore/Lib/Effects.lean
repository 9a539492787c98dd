import Mathlib.Tactic

/-!
Computations that change a state and may throw. The state of the moment an
exception is thrown stays, so a computation that fails has a last state as one
that returns has. `Returns` and `Throws` say how a computation ends; their
rules take a composed computation apart.
-/

namespace Effects

/-- A computation on a state of type `σ` with exceptions of type `ε`. -/
abbrev Effect (σ ε : Type) := ExceptT ε (StateM σ)

variable {σ ε α β : Type}

def run (m : Effect σ ε α) (s : σ) : Except ε α × σ := m.run.run s

/-- Started in `s`, the computation returns `a` in the state `s'`. -/
def Returns (m : Effect σ ε α) (s : σ) (a : α) (s' : σ) : Prop := run m s = (.ok a, s')

/-- Started in `s`, the computation throws `e` in the state `s'`. -/
def Throws (m : Effect σ ε α) (s : σ) (e : ε) (s' : σ) : Prop := run m s = (.error e, s')

theorem returns_or_throws (m : Effect σ ε α) (s : σ) :
    (∃ a s', Returns m s a s') ∨ ∃ e s', Throws m s e s' := by
  rcases h : run m s with ⟨r, s'⟩
  cases r with
  | ok a => exact .inl ⟨a, s', h⟩
  | error e => exact .inr ⟨e, s', h⟩

/-- Throw the exception that is there, if any. -/
def raise : Option ε → Effect σ ε Unit
  | none => pure ()
  | some e => throw e

/-- A result that was computed without the state. -/
def computed : Except ε α → Effect σ ε α
  | .ok a => pure a
  | .error e => throw e

/-- The computation with the given runs. -/
def act (f : σ → Except ε α × σ) : Effect σ ε α := f

/-- A step that changes nothing where it fails. -/
def attempt (f : σ → Except ε (α × σ)) : Effect σ ε α :=
  act fun s => match f s with
    | .ok (a, s') => (.ok a, s')
    | .error e => (.error e, s)

theorem run_act (f : σ → Except ε α × σ) (s : σ) : run (act f) s = f s := rfl

theorem run_pure (a : α) (s : σ) : run (pure a : Effect σ ε α) s = (.ok a, s) := rfl

theorem run_throw (e : ε) (s : σ) : run (throw e : Effect σ ε α) s = (.error e, s) := rfl

theorem run_modify (f : σ → σ) (s : σ) : run (modify f : Effect σ ε PUnit) s = (.ok ⟨⟩, f s) := rfl

theorem run_bind (m : Effect σ ε α) (f : α → Effect σ ε β) (s : σ) :
    run (m >>= f) s = match run m s with
      | (.ok a, s') => run (f a) s'
      | (.error e, s') => (.error e, s') := by
  simp only [run, ExceptT.run_bind, StateT.run_bind]
  rcases h : StateT.run (ExceptT.run m) s with ⟨r, s'⟩
  cases r <;> rfl

variable {s s' : σ} {a : α} {e : ε} {m : Effect σ ε α} {f : α → Effect σ ε β}
  {post : Except ε α → σ → Prop} {b : β} {x : Option ε} {r : Except ε α} {mid : σ}

@[simp] theorem returns_pure {a b : α} :
    Returns (pure a : Effect σ ε α) s b s' ↔ a = b ∧ s = s' := by
  simp [Returns, run_pure]

@[simp] theorem throws_pure : ¬ Throws (pure a : Effect σ ε α) s e s' := by
  simp [Throws, run_pure]

@[simp] theorem returns_throw : ¬ Returns (throw e : Effect σ ε α) s a s' := by
  simp [Returns, run_throw]

@[simp] theorem throws_throw {e e' : ε} :
    Throws (throw e : Effect σ ε α) s e' s' ↔ e = e' ∧ s = s' := by
  simp [Throws, run_throw]

@[simp] theorem returns_modify {f : σ → σ} {u : PUnit} :
    Returns (modify f : Effect σ ε PUnit) s u s' ↔ f s = s' := by
  simp [Returns, run_modify]

@[simp] theorem throws_modify {f : σ → σ} : ¬ Throws (modify f : Effect σ ε PUnit) s e s' := by
  simp [Throws, run_modify]

theorem returns_get_bind {f : σ → Effect σ ε β} :
    Returns (get >>= f) s b s' ↔ Returns (f s) s b s' := Iff.rfl

theorem throws_get_bind {f : σ → Effect σ ε β} :
    Throws (get >>= f) s e s' ↔ Throws (f s) s e s' := Iff.rfl

@[simp] theorem returns_raise {u : Unit} : Returns (raise x) s u s' ↔ x = none ∧ s = s' := by
  cases x <;> simp [raise]

@[simp] theorem throws_raise : Throws (raise x) s e s' ↔ x = some e ∧ s = s' := by
  cases x <;> simp [raise]

@[simp] theorem returns_computed : Returns (computed r) s a s' ↔ r = .ok a ∧ s = s' := by
  cases r <;> simp [computed]

@[simp] theorem throws_computed : Throws (computed r) s e s' ↔ r = .error e ∧ s = s' := by
  cases r <;> simp [computed]

theorem returns_attempt {f : σ → Except ε (α × σ)} :
    Returns (attempt f) s a s' ↔ f s = .ok (a, s') := by
  simp only [Returns, attempt, run_act]
  cases f s <;> simp [Prod.ext_iff]

theorem returns_bind :
    Returns (m >>= f) s b s' ↔ ∃ a mid, Returns m s a mid ∧ Returns (f a) mid b s' := by
  simp only [Returns, run_bind]
  rcases h : run m s with ⟨r, mid⟩
  cases r <;> simp

theorem Returns.bind (h : Returns m s a mid) (hf : Returns (f a) mid b s') :
    Returns (m >>= f) s b s' :=
  returns_bind.mpr ⟨a, mid, h, hf⟩

theorem throws_bind : Throws (m >>= f) s e s' ↔
      Throws m s e s' ∨ ∃ a mid, Returns m s a mid ∧ Throws (f a) mid e s' := by
  simp only [Returns, Throws, run_bind]
  rcases h : run m s with ⟨r, mid⟩
  cases r <;> simp

/-- However the computation ends that is started in `s`, its result and its last
state are in `post`. -/
def After (m : Effect σ ε α) (s : σ) (post : Except ε α → σ → Prop) : Prop :=
  post (run m s).1 (run m s).2

theorem After.of_returns (h : Returns m s a s') (hpost : post (.ok a) s') : After m s post := by
  unfold After
  rw [h]
  exact hpost

theorem After.of_throws (h : Throws m s e s') (hpost : post (.error e) s') : After m s post := by
  unfold After
  rw [h]
  exact hpost

theorem After.intro (hok : ∀ a s', Returns m s a s' → post (.ok a) s')
    (herror : ∀ e s', Throws m s e s' → post (.error e) s') : After m s post := by
  rcases returns_or_throws m s with ⟨a, s', h⟩ | ⟨e, s', h⟩
  · exact .of_returns h (hok a s' h)
  · exact .of_throws h (herror e s' h)

theorem After.bind {post' : Except ε β → σ → Prop} (hm : After m s post)
    (hok : ∀ a mid, Returns m s a mid → post (.ok a) mid → After (f a) mid post')
    (herror : ∀ e mid, post (.error e) mid → post' (.error e) mid) : After (m >>= f) s post' := by
  unfold After at hm ⊢
  rw [run_bind]
  rcases h : run m s with ⟨r, mid⟩
  rw [h] at hm
  cases r with
  | ok a => exact hok a mid h hm
  | error e => exact herror e mid hm

theorem After.bind_of_returns {s : σ} {post : Except ε β → σ → Prop} (h : Returns m s a mid)
    (hf : After (f a) mid post) : After (m >>= f) s post := by
  unfold After
  rw [run_bind, h]
  exact hf

/-- Run `cleanup` when a computation throws, and throw its exception again. -/
def onError (m : Effect σ ε α) (cleanup : Effect σ ε Unit) : Effect σ ε α :=
  tryCatch m fun e => do
    cleanup
    throw e

theorem run_onError (m : Effect σ ε α) (cleanup : Effect σ ε Unit) (s : σ) :
    run (onError m cleanup) s = match run m s with
      | (.ok a, s') => (.ok a, s')
      | (.error e, s') => run (cleanup >>= fun _ => throw e) s' := by
  simp only [run, onError, tryCatch, tryCatchThe, MonadExceptOf.tryCatch, ExceptT.tryCatch,
    ExceptT.run_mk, StateT.run_bind]
  rcases h : StateT.run (ExceptT.run m) s with ⟨r, s'⟩
  rw [show StateT.run m s = (r, s') from h]
  cases r <;> rfl

theorem throws_onError {cleanup : Effect σ ε Unit} :
    Throws (onError m cleanup) s e s' ↔ ∃ e1 mid, Throws m s e1 mid ∧
      Throws (cleanup >>= fun _ => (throw e1 : Effect σ ε α)) mid e s' := by
  simp only [Throws, run_onError]
  rcases h : run m s with ⟨r, mid⟩
  cases r <;> simp

/-- The computation with its exceptions turned into those of another type. -/
def rethrow {ε' : Type} (f : ε → ε') (m : Effect σ ε α) : Effect σ ε' α := ExceptT.adapt f m

theorem run_rethrow {ε' : Type} (f : ε → ε') (m : Effect σ ε α) (s : σ) :
    run (rethrow f m) s = match run m s with
      | (.ok a, s') => (.ok a, s')
      | (.error e, s') => (.error (f e), s') := by
  rcases h : run m s with ⟨r, s'⟩
  change (fun p => (Except.mapError f p.1, p.2)) (run m s) = _
  rw [h]
  cases r <;> rfl

theorem returns_rethrow {ε' : Type} {f : ε → ε'} :
    Returns (rethrow f m) s a s' ↔ Returns m s a s' := by
  simp only [Returns, run_rethrow]
  rcases h : run m s with ⟨r, mid⟩
  cases r <;> simp

theorem throws_rethrow {ε' : Type} {f : ε → ε'} {e' : ε'} :
    Throws (rethrow f m) s e' s' ↔ ∃ e, f e = e' ∧ Throws m s e s' := by
  simp only [Throws, run_rethrow]
  rcases h : run m s with ⟨r, mid⟩
  cases r <;> simp

/-- A computation that succeeds on every element of a list. -/
theorem mapM_ok {f : α → Except ε β} {g : α → β} {l : List α}
    (h : ∀ a ∈ l, f a = .ok (g a)) : l.mapM f = .ok (l.map g) := by
  induction l with
  | nil => rfl
  | cons a rest ih =>
    rw [List.mapM_cons, h a List.mem_cons_self, ih (fun b hb => h b (List.mem_cons_of_mem _ hb))]
    rfl

section Queries

variable {ε' : Type}

/-- A computation that reads the state and does not change it. -/
def ask (f : σ → Except ε α) : Effect σ ε α := act fun s => (f s, s)

def query (f : σ → α) : Effect σ ε α := ask fun s => .ok (f s)

/-- A computation that goes on when another one throws. -/
def recover (m : Effect σ ε α) (handler : ε → Effect σ ε' α) : Effect σ ε' α := act fun s =>
  match run m s with
  | (.ok a, s') => (.ok a, s')
  | (.error e, s') => run (handler e) s'

theorem run_ask (f : σ → Except ε α) (s : σ) : run (ask f) s = (f s, s) := rfl

theorem run_query (f : σ → α) (s : σ) : run (query f : Effect σ ε α) s = (.ok (f s), s) := rfl

theorem run_recover (m : Effect σ ε α) (handler : ε → Effect σ ε' α) (s : σ) :
    run (recover m handler) s = match run m s with
      | (.ok a, s') => (.ok a, s')
      | (.error e, s') => run (handler e) s' := rfl

section Reads

/-- The computation changes nothing. -/
def Reads (m : Effect σ ε α) : Prop := ∀ s, (run m s).2 = s

theorem reads_pure (a : α) : Reads (pure a : Effect σ ε α) := fun _ => rfl

theorem reads_throw (e : ε) : Reads (throw e : Effect σ ε α) := fun _ => rfl

/-- Reading behind a computation leaves its state. -/
theorem run_bind_reads {m : Effect σ ε α} {f : α → Effect σ ε β} (hf : ∀ a, Reads (f a)) (s : σ) :
    (run (m >>= f) s).2 = (run m s).2 := by
  rw [run_bind]
  rcases run m s with ⟨r, s'⟩
  cases r with
  | ok a => exact hf a s'
  | error e => rfl

theorem run_recover_reads {m : Effect σ ε α} {handler : ε → Effect σ ε' α}
    (hhandler : ∀ e, Reads (handler e)) (s : σ) :
    (run (recover m handler) s).2 = (run m s).2 := by
  rw [run_recover]
  rcases run m s with ⟨r, s'⟩
  cases r with
  | ok a => rfl
  | error e => exact hhandler e s'

end Reads

end Queries

end Effects
