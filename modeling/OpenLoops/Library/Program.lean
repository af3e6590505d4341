import Mathlib.Logic.Basic
import Mathlib.Tactic.Common

/-!
# Programs that perform operations

A program performs operations on its surroundings, one after the other, and goes on with
their answers.  `Runs p steps a` says that the program may perform the steps, which are the
operations with their answers, and return `a`: the surroundings may answer in any way.  `eval`
runs a program against surroundings that are given.
-/

/-- A program that performs operations of `ω` and returns a value. -/
inductive Program (ω : Type) (answer : ω → Type) (α : Type) where
  | done (a : α)
  | perform (o : ω) (next : answer o → Program ω answer α)

/-- An operation that was performed, with its answer. -/
structure Performed {ω : Type} (answer : ω → Type) where
  operation : ω
  answered : answer operation

namespace Program

variable {ω : Type} {answer : ω → Type} {α β γ : Type}

/-- The second program goes on with the value of the first one. -/
def bind : Program ω answer α → (α → Program ω answer β) → Program ω answer β
  | done a, f => f a
  | perform o next, f => perform o fun x => (next x).bind f

instance : Monad (Program ω answer) where
  pure := done
  bind := bind

/-- The program that performs one operation and returns its answer. -/
def ask (o : ω) : Program ω answer (answer o) :=
  perform o done

/-! ### Runs -/

/-- The program may perform these steps and return this value. -/
inductive Runs : Program ω answer α → List (Performed answer) → α → Prop
  | done (a : α) : Runs (done a) [] a
  | perform {o : ω} {next : answer o → Program ω answer α} {x : answer o}
      {steps : List (Performed answer)} {a : α} (h : Runs (next x) steps a) :
      Runs (perform o next) (⟨o, x⟩ :: steps) a

theorem runs_done {a b : α} {steps : List (Performed answer)} :
  (done a : Program ω answer α).Runs steps b ↔ steps = [] ∧ b = a
  := by
  constructor
  · rintro ⟨⟩
    exact ⟨rfl, rfl⟩
  · rintro ⟨rfl, rfl⟩
    apply Runs.done

theorem runs_perform {o : ω} {next : answer o → Program ω answer α} {a : α}
    {steps : List (Performed answer)} :
  (perform o next).Runs steps a ↔ ∃ x rest, steps = ⟨o, x⟩ :: rest ∧ (next x).Runs rest a
  := by
  constructor
  · rintro (_ | ⟨h⟩)
    exact ⟨_, _, rfl, h⟩
  · rintro ⟨x, rest, rfl, h⟩
    apply Runs.perform h

theorem runs_pure {a b : α} {steps : List (Performed answer)} :
  (pure a : Program ω answer α).Runs steps b ↔ steps = [] ∧ b = a
  := runs_done

/-- An operation is performed by a single step. -/
theorem runs_ask {o : ω} {x : answer o} {steps : List (Performed answer)} :
  (ask o).Runs steps x ↔ steps = [⟨o, x⟩]
  := by
  rw [ask, runs_perform]
  constructor
  · rintro ⟨y, rest, rfl, h⟩
    obtain ⟨rfl, rfl⟩ := runs_done.mp h
    rfl
  · rintro rfl
    use x, [], rfl
    apply Runs.done

/-- One program after the other performs the steps of the one and then those of the other. -/
theorem runs_bind {p : Program ω answer α} {f : α → Program ω answer β} {b : β}
    {steps : List (Performed answer)} :
  (p >>= f).Runs steps b ↔
    ∃ first a rest, steps = first ++ rest ∧ p.Runs first a ∧ (f a).Runs rest b
  := by
  show (p.bind f).Runs steps b ↔ _
  induction p generalizing steps with
  | done a =>
      rw [bind]
      constructor
      · intro h
        use [], a, steps, rfl, Runs.done a, h
      · rintro ⟨first, a', rest, rfl, ha, h⟩
        obtain ⟨rfl, rfl⟩ := runs_done.mp ha
        exact h
  | perform o next ih =>
      simp only [bind, runs_perform, ih]
      constructor
      · rintro ⟨x, _, rfl, first, a, rest, rfl, hfirst, hrest⟩
        use ⟨o, x⟩ :: first, a, rest, rfl
        use ⟨x, first, rfl, hfirst⟩, hrest
      · rintro ⟨_, a, rest, rfl, ⟨x, first, rfl, hfirst⟩, hrest⟩
        use x, first ++ rest, rfl, first, a, rest, rfl, hfirst, hrest

/-- An operation is performed before what goes on with its answer. -/
theorem runs_ask_bind {o : ω} {f : answer o → Program ω answer β} {b : β}
    {steps : List (Performed answer)} :
  (ask o >>= f).Runs steps b ↔ ∃ x rest, steps = ⟨o, x⟩ :: rest ∧ (f x).Runs rest b
  := runs_perform

/-! ### Programs that may fail -/

/-- A sequence of two programs of which the first one may fail: it fails, or the second one goes
on with its value. -/
theorem runs_exceptT_bind {ε : Type} {x : ExceptT ε (Program ω answer) α}
    {f : α → ExceptT ε (Program ω answer) β} {result : Except ε β}
    {steps : List (Performed answer)} :
  (x >>= f).run.Runs steps result ↔
    (∃ e, result = .error e ∧ x.run.Runs steps (.error e)) ∨
    ∃ first a rest, steps = first ++ rest ∧ x.run.Runs first (.ok a)
      ∧ (f a).run.Runs rest result
  := by
  rw [ExceptT.run_bind, runs_bind]
  constructor
  · rintro ⟨first, e | a, rest, rfl, hfirst, hrest⟩
    · obtain ⟨rfl, rfl⟩ := runs_pure.mp hrest
      rw [List.append_nil]
      exact Or.inl ⟨e, rfl, hfirst⟩
    · exact Or.inr ⟨first, a, rest, rfl, hfirst, hrest⟩
  · rintro (⟨e, rfl, h⟩ | ⟨first, a, rest, rfl, hfirst, hrest⟩)
    · use steps, .error e, [], (List.append_nil steps).symm, h
      apply Runs.done
    · use first, .ok a, rest, rfl, hfirst, hrest

/-- A computation performs no operation. -/
theorem runs_liftExcept {ε : Type} {x result : Except ε α} {steps : List (Performed answer)} :
  (liftM x : ExceptT ε (Program ω answer) α).run.Runs steps result ↔ steps = [] ∧ result = x
  := runs_done

/-- A computation before a program that may fail. -/
theorem runs_liftExcept_bind {ε : Type} {x : Except ε α}
    {f : α → ExceptT ε (Program ω answer) β} {result : Except ε β}
    {steps : List (Performed answer)} :
  ((liftM x : ExceptT ε (Program ω answer) α) >>= f).run.Runs steps result ↔
    (∃ e, x = .error e ∧ result = .error e ∧ steps = []) ∨
    ∃ a, x = .ok a ∧ (f a).run.Runs steps result
  := by
  rw [runs_exceptT_bind]
  constructor
  · rintro (⟨e, rfl, h⟩ | ⟨first, a, rest, rfl, hfirst, hrest⟩)
    · obtain ⟨rfl, rfl⟩ := runs_liftExcept.mp h
      exact Or.inl ⟨e, rfl, rfl, rfl⟩
    · obtain ⟨rfl, rfl⟩ := runs_liftExcept.mp hfirst
      exact Or.inr ⟨a, rfl, hrest⟩
  · rintro (⟨e, rfl, rfl, rfl⟩ | ⟨a, rfl, h⟩)
    · exact Or.inl ⟨e, rfl, Runs.done _⟩
    · exact Or.inr ⟨[], a, steps, rfl, Runs.done _, h⟩

/-- A sequence of two programs that may fail succeeds when both of them do. -/
theorem runs_exceptT_bind_ok {ε : Type} {x : ExceptT ε (Program ω answer) α}
    {f : α → ExceptT ε (Program ω answer) β} {b : β} {steps : List (Performed answer)} :
  (x >>= f).run.Runs steps (.ok b) ↔
    ∃ first a rest, steps = first ++ rest ∧ x.run.Runs first (.ok a)
      ∧ (f a).run.Runs rest (.ok b)
  := by
  rw [runs_exceptT_bind]
  apply or_iff_right
  rintro ⟨e, ⟨⟩, -⟩

/-- `runs_exceptT_bind_ok` for a computation before a program. -/
theorem runs_liftExcept_bind_ok {ε : Type} {x : Except ε α}
    {f : α → ExceptT ε (Program ω answer) β} {b : β} {steps : List (Performed answer)} :
  ((liftM x : ExceptT ε (Program ω answer) α) >>= f).run.Runs steps (.ok b) ↔
    ∃ a, x = .ok a ∧ (f a).run.Runs steps (.ok b)
  := by
  rw [runs_liftExcept_bind]
  apply or_iff_right
  rintro ⟨e, -, ⟨⟩, -⟩

/-- A program that does not fail. -/
theorem runs_lift {ε : Type} {p : Program ω answer α} {result : Except ε α}
    {steps : List (Performed answer)} :
  (liftM p : ExceptT ε (Program ω answer) α).run.Runs steps result ↔
    ∃ a, result = .ok a ∧ p.Runs steps a
  := by
  constructor
  · intro h
    obtain ⟨first, a, _, rfl, hp, hrest⟩ := runs_bind.mp h
    cases hrest
    rw [List.append_nil]
    use a, rfl, hp
  · rintro ⟨a, rfl, hp⟩
    apply runs_bind.mpr
    use steps, a, [], (List.append_nil steps).symm, hp
    apply Runs.done

/-- A program that does not fail, before one that may. -/
theorem runs_lift_bind {ε : Type} {p : Program ω answer α}
    {f : α → ExceptT ε (Program ω answer) β} {result : Except ε β}
    {steps : List (Performed answer)} :
  ((liftM p : ExceptT ε (Program ω answer) α) >>= f).run.Runs steps result ↔
    ∃ first a rest, steps = first ++ rest ∧ p.Runs first a ∧ (f a).run.Runs rest result
  := by
  rw [runs_exceptT_bind]
  constructor
  · rintro (⟨e, -, h⟩ | ⟨first, a, rest, rfl, hfirst, hrest⟩)
    · obtain ⟨_, ⟨⟩, -⟩ := runs_lift.mp h
    · obtain ⟨_, ⟨⟩, hp⟩ := runs_lift.mp hfirst
      use first, a, rest, rfl, hp, hrest
  · rintro ⟨first, a, rest, rfl, hp, hrest⟩
    exact Or.inr ⟨first, a, rest, rfl, runs_lift.mpr ⟨a, rfl, hp⟩, hrest⟩

/-! ### Operations of one kind -/

/-- Every operation that the program may perform is of one kind. -/
def Performs (P : ω → Prop) : Program ω answer α → Prop
  | done _ => True
  | perform o next => P o ∧ ∀ x, (next x).Performs P

theorem performs_pure {P : ω → Prop} (a : α) :
  (pure a : Program ω answer α).Performs P
  := trivial

theorem performs_ask {P : ω → Prop} {o : ω} (h : P o) :
  (ask o : Program ω answer (answer o)).Performs P
  := ⟨h, fun _ => trivial⟩

theorem Performs.mono {P Q : ω → Prop} (hPQ : ∀ o, P o → Q o) {p : Program ω answer α}
    (hp : p.Performs P) :
  p.Performs Q
  := by
  induction p with
  | done a => trivial
  | perform o next ih =>
      use hPQ o hp.1
      intro x
      apply ih x (hp.2 x)

/-- The operations of a sequence are those of its parts. -/
theorem Performs.bind {P : ω → Prop} {p : Program ω answer α} {f : α → Program ω answer β}
    (hp : p.Performs P) (hf : ∀ a, (f a).Performs P) :
  (p >>= f).Performs P
  := by
  induction p with
  | done a => apply hf
  | perform o next ih =>
      use hp.1
      intro x
      apply ih x (hp.2 x)

/-- The operations of a sequence of programs that may fail are those of its parts. -/
theorem Performs.exceptT_bind {ε : Type} {P : ω → Prop} {x : ExceptT ε (Program ω answer) α}
    {f : α → ExceptT ε (Program ω answer) β} (hx : x.run.Performs P)
    (hf : ∀ a, (f a).run.Performs P) :
  (x >>= f).run.Performs P
  := by
  rw [ExceptT.run_bind]
  apply hx.bind
  rintro (e | a)
  · apply performs_pure
  · apply hf

/-- A computation performs no operation of any kind. -/
theorem performs_liftExcept {ε : Type} {P : ω → Prop} (x : Except ε α) :
  (liftM x : ExceptT ε (Program ω answer) α).run.Performs P
  := trivial

/-- Every step of a run performs an operation of the kind. -/
theorem Performs.of_runs {P : ω → Prop} {p : Program ω answer α} (hp : p.Performs P)
    {steps : List (Performed answer)} {a : α} (h : p.Runs steps a) :
  ∀ step ∈ steps, P step.operation
  := by
  induction h with
  | done a => exact List.forall_mem_nil _
  | perform h ih =>
      rw [List.forall_mem_cons]
      use hp.1
      apply ih (hp.2 _)

/-! ### The rest of a program -/

/-- After the steps `q` is left to do of `p`. -/
def Leaves (p : Program ω answer α) (steps : List (Performed answer)) (q : Program ω answer α) :
    Prop :=
  ∀ rest a, q.Runs rest a → p.Runs (steps ++ rest) a

theorem Leaves.refl (p : Program ω answer α) :
  p.Leaves [] p
  := fun _ _ => id

/-- One more step leaves less to do. -/
theorem Leaves.perform {p : Program ω answer α} {steps : List (Performed answer)} {o : ω}
    {next : answer o → Program ω answer α} (h : p.Leaves steps (perform o next)) (x : answer o) :
  p.Leaves (steps ++ [⟨o, x⟩]) (next x)
  := by
  intro rest a hrest
  rw [List.append_assoc]
  apply h
  apply Runs.perform hrest

/-- When a value is left the program may have performed the steps and returned it. -/
theorem Leaves.runs {p : Program ω answer α} {steps : List (Performed answer)} {a : α}
    (h : p.Leaves steps (Program.done a)) :
  p.Runs steps a
  := by
  rw [← List.append_nil steps]
  apply h [] a
  apply Runs.done

/-- Every program may come to an end, when every operation has an answer. -/
theorem exists_runs [∀ o, Nonempty (answer o)] (p : Program ω answer α) :
  ∃ steps a, p.Runs steps a
  := by
  induction p with
  | done a =>
      use [], a
      apply Runs.done
  | perform o next ih =>
      obtain ⟨x⟩ := (inferInstance : Nonempty (answer o))
      obtain ⟨steps, a, h⟩ := ih x
      use ⟨o, x⟩ :: steps, a
      apply Runs.perform h

/-! ### Surroundings that are given -/

/-- What is performed and returned when the surroundings answer each operation as given for its
place in the order. -/
def eval (serve : ℕ → (o : ω) → answer o) :
    Program ω answer α → List (Performed answer) × α
  | done a => ([], a)
  | perform o next =>
      let (steps, a) := (next (serve 0 o)).eval fun n => serve (n + 1)
      (⟨o, serve 0 o⟩ :: steps, a)

/-- A program may perform what it performs in the surroundings given. -/
theorem runs_eval (p : Program ω answer α) (serve : ℕ → (o : ω) → answer o) :
  p.Runs (p.eval serve).1 (p.eval serve).2
  := by
  induction p generalizing serve with
  | done a => apply Runs.done
  | perform o next ih =>
      apply Runs.perform
      apply ih

/-- What is answered is what is given. -/
theorem mem_eval {p : Program ω answer α} {serve : ℕ → (o : ω) → answer o}
    {step : Performed answer} (h : step ∈ (p.eval serve).1) :
  ∃ n, step.answered = serve n step.operation
  := by
  induction p generalizing serve with
  | done a => cases h
  | perform o next ih =>
      rcases List.mem_cons.mp h with rfl | hrest
      · use 0
      · obtain ⟨n, hn⟩ := ih _ hrest
        use n + 1, hn

/-! ### Surroundings with a state -/

section

variable {σ : Type}

/-- What is performed and returned in surroundings that have a state, and their state after it. -/
def exec (serve : σ → (o : ω) → answer o × σ) :
    Program ω answer α → σ → List (Performed answer) × α × σ
  | done a, s => ([], a, s)
  | perform o next, s =>
      let (x, s) := serve s o
      let (steps, a, s) := (next x).exec serve s
      (⟨o, x⟩ :: steps, a, s)

/-- The surroundings answer the steps so, and their state changes from the first to the second. -/
def Follows (serve : σ → (o : ω) → answer o × σ) : σ → List (Performed answer) → σ → Prop
  | s, [], s' => s' = s
  | s, step :: steps, s' =>
      (serve s step.operation).1 = step.answered
        ∧ Follows serve (serve s step.operation).2 steps s'

/-- Steps may be followed in two parts. -/
theorem follows_append {serve : σ → (o : ω) → answer o × σ} {s s' : σ}
    {steps steps' : List (Performed answer)} :
  Follows serve s (steps ++ steps') s' ↔
    ∃ t, Follows serve s steps t ∧ Follows serve t steps' s'
  := by
  induction steps generalizing s with
  | nil =>
      constructor
      · intro h
        exact ⟨s, rfl, h⟩
      · rintro ⟨t, rfl, h⟩
        exact h
  | cons step steps ih =>
      rw [List.cons_append, Follows, ih]
      constructor
      · rintro ⟨hstep, t, hfirst, hlast⟩
        exact ⟨t, ⟨hstep, hfirst⟩, hlast⟩
      · rintro ⟨t, ⟨hstep, hfirst⟩, hlast⟩
        exact ⟨hstep, t, hfirst, hlast⟩

/-- What every step preserves is preserved. -/
theorem Follows.invariant {serve : σ → (o : ω) → answer o × σ} {I : σ → Prop} {P : ω → Prop}
    (hserve : ∀ s o, I s → P o → I (serve s o).2) {s s' : σ} {steps : List (Performed answer)}
    (h : Follows serve s steps s') (hs : I s) (hsteps : ∀ step ∈ steps, P step.operation) :
  I s'
  := by
  induction steps generalizing s with
  | nil => exact h ▸ hs
  | cons step steps ih =>
      rw [List.forall_mem_cons] at hsteps
      obtain ⟨-, hrest⟩ := h
      apply ih hrest (hserve s step.operation hs hsteps.1) hsteps.2

/-- The second program goes on in the state that the first one leaves. -/
theorem exec_bind (serve : σ → (o : ω) → answer o × σ) (p : Program ω answer α)
    (f : α → Program ω answer β) (s : σ) :
  ((p >>= f).exec serve s).2 =
    ((f (p.exec serve s).2.1).exec serve (p.exec serve s).2.2).2
  := by
  show ((p.bind f).exec serve s).2 = _
  induction p generalizing s with
  | done a => rfl
  | perform o next ih => exact ih (serve s o).1 (serve s o).2

theorem runs_exec (serve : σ → (o : ω) → answer o × σ) (p : Program ω answer α) (s : σ) :
  p.Runs (p.exec serve s).1 (p.exec serve s).2.1
  := by
  induction p generalizing s with
  | done a => apply Runs.done
  | perform o next ih =>
      apply Runs.perform
      apply ih

theorem follows_exec (serve : σ → (o : ω) → answer o × σ) (p : Program ω answer α) (s : σ) :
  Follows serve s (p.exec serve s).1 (p.exec serve s).2.2
  := by
  induction p generalizing s with
  | done a => rfl
  | perform o next ih =>
      constructor
      · rfl
      · apply ih

end

end Program
