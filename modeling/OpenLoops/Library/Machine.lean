import Mathlib.Data.List.Forall2
import Mathlib.Data.List.Induction

/-!
# Machines and their runs

A machine answers every input with an output and moves to a next state.  A run is a
list of inputs from a state; it ends in the state `final` and leaves behind the list
`history` of the events it went through.  `run_induction` is the rule for facts about
the history and the final state together, `Admits` restricts the inputs of a run to
those allowed at the states they meet, and `two_runs` compares two runs step by step.
-/

/-- A machine with states `σ`, inputs `ι` and outputs `ο`. -/
structure Machine (σ ι ο : Type*) where
  /-- The next state and the output at a state, for an input. -/
  step : σ → ι → σ × ο

namespace Machine

/-- One step of a run: an input, the states around it and the output it was answered with. -/
structure Event (σ ι ο : Type*) where
  before : σ
  input : ι
  output : ο
  after : σ

variable {σ ι ο : Type*} (M : Machine σ ι ο)

/-- The state after the input `i`. -/
def next (s : σ) (i : ι) : σ := (M.step s i).1

/-- The event of the input `i` at the state `s`. -/
def event (s : σ) (i : ι) : Event σ ι ο :=
  ⟨s, i, (M.step s i).2, (M.step s i).1⟩

/-- The state a run ends in. -/
def final (s : σ) : List ι → σ
  | [] => s
  | i :: is => final (M.next s i) is

/-- The events of a run, in order. -/
def history (s : σ) : List ι → List (Event σ ι ο)
  | [] => []
  | i :: is => M.event s i :: history (M.next s i) is

@[simp]
theorem event_before (s : σ) (i : ι) :
  (M.event s i).before = s
  := rfl

@[simp]
theorem event_input (s : σ) (i : ι) :
  (M.event s i).input = i
  := rfl

@[simp]
theorem event_output (s : σ) (i : ι) :
  (M.event s i).output = (M.step s i).2
  := rfl

@[simp]
theorem event_after (s : σ) (i : ι) :
  (M.event s i).after = M.next s i
  := rfl

/-- A run of an appended list of inputs ends where the run of the second part from the end
of the first does. -/
theorem final_append (s : σ) (is js : List ι) :
  M.final s (is ++ js) = M.final (M.final s is) js
  := by
  induction is generalizing s with
  | nil => rfl
  | cons i is ih => apply ih

/-- One more input moves the final state by one step. -/
theorem final_snoc (s : σ) (is : List ι) (i : ι) :
  M.final s (is ++ [i]) = M.next (M.final s is) i
  := M.final_append s is [i]

/-- The history of an appended list of inputs is the history of the first part followed by
that of the second from the end of the first. -/
theorem history_append (s : σ) (is js : List ι) :
  M.history s (is ++ js) = M.history s is ++ M.history (M.final s is) js
  := by
  induction is generalizing s with
  | nil => rfl
  | cons i is ih =>
      apply congrArg (M.event s i :: ·)
      apply ih

/-- One more input adds its event at the final state to the history. -/
theorem history_snoc (s : σ) (is : List ι) (i : ι) :
  M.history s (is ++ [i]) = M.history s is ++ [M.event (M.final s is) i]
  := M.history_append s is [i]

/-- A run has an event for each of its inputs. -/
theorem history_map_input (s : σ) (is : List ι) :
  (M.history s is).map (·.input) = is
  := by
  induction is generalizing s with
  | nil => rfl
  | cons i is ih =>
      apply congrArg (i :: ·)
      apply ih

/-- The event of the last input of a run is one of its events. -/
theorem event_mem_history (s : σ) (is : List ι) (i : ι) :
  M.event (M.final s is) i ∈ M.history s (is ++ [i])
  := by
  rw [history_snoc]
  apply List.mem_append_right
  apply List.mem_singleton_self

/-- The first events of a run are those of its first inputs, and the other ones are those of the
other inputs from where the first ones end. -/
theorem history_eq_append {s : σ} {is : List ι} {h k : List (Event σ ι ο)}
    (hk : M.history s is = h ++ k) :
  ∃ js ls, is = js ++ ls ∧ h = M.history s js ∧ k = M.history (M.final s js) ls
  := by
  induction h generalizing s is with
  | nil =>
      use [], is
      exact ⟨rfl, rfl, hk.symm⟩
  | cons e h ih =>
      rcases is with _ | ⟨i, is⟩
      · cases hk
      · obtain ⟨rfl, htail⟩ := List.cons.inj hk
        obtain ⟨js, ls, rfl, rfl, rfl⟩ := ih htail
        use i :: js, ls
        exact ⟨rfl, rfl, rfl⟩

/-- An event of a run is the event of one of its inputs, where the events before it end; those after
it are the ones of the inputs that are left. -/
theorem history_eq_append_cons {s : σ} {is : List ι} {h k : List (Event σ ι ο)}
    {e : Event σ ι ο} (hk : M.history s is = h ++ e :: k) :
  ∃ js i ls, is = js ++ i :: ls ∧ h = M.history s js ∧ e = M.event (M.final s js) i
    ∧ k = M.history (M.next (M.final s js) i) ls
  := by
  obtain ⟨js, ls, rfl, rfl, hrest⟩ := M.history_eq_append hk
  rcases ls with _ | ⟨i, ls⟩
  · cases hrest
  · obtain ⟨rfl, rfl⟩ := List.cons.inj hrest
    exact ⟨js, i, ls, rfl, rfl, rfl, rfl⟩

/-! ### Induction over runs -/

/-- What holds of the empty history at `s`, and is carried over by every event, holds of
the history and the final state of every run from `s`. -/
theorem run_induction {P : List (Event σ ι ο) → σ → Prop} {s : σ}
    (init : P [] s)
    (step : ∀ h t i, P h t → P (h ++ [M.event t i]) (M.next t i)) (is : List ι) :
  P (M.history s is) (M.final s is)
  := by
  induction is using List.reverseRecOn with
  | nil => exact init
  | append_singleton is i ih =>
      rw [history_snoc, final_snoc]
      apply step _ _ _ ih

/-- What holds of every event at a state satisfying an invariant holds of every event of a
run. -/
theorem forall_history {I : σ → Prop} {Q : Event σ ι ο → Prop} {s : σ} (init : I s)
    (step : ∀ t i, I t → I (M.next t i)) (event : ∀ t i, I t → Q (M.event t i))
    (is : List ι) :
  ∀ e ∈ M.history s is, Q e
  := by
  have h := M.run_induction (P := fun h t => I t ∧ ∀ e ∈ h, Q e) (s := s)
    ⟨init, by simp⟩
    (by
      rintro h t i ⟨ht, hQ⟩
      constructor
      · apply step t i ht
      · intro e he
        rcases List.mem_append.mp he with he | he
        · apply hQ e he
        · rw [List.mem_singleton.mp he]
          apply event t i ht)
    is
  exact h.2

/-- An event of a run is the event of one of its inputs, at the end of the inputs before. -/
theorem mem_history {s : σ} {is : List ι} {e : Event σ ι ο} (he : e ∈ M.history s is) :
  ∃ before i after, is = before ++ i :: after ∧ e = M.event (M.final s before) i
  := by
  induction is generalizing s with
  | nil => cases he
  | cons i is ih =>
      rcases List.mem_cons.mp he with rfl | he
      · use [], i, is
        exact ⟨rfl, rfl⟩
      · obtain ⟨before, j, after, rfl, rfl⟩ := ih he
        use i :: before, j, after
        exact ⟨rfl, rfl⟩

/-! ### Runs of allowed inputs -/

/-- Every input of the list is allowed by `G` at the state it meets in the run from `s`. -/
def Admits (G : σ → ι → Prop) (s : σ) : List ι → Prop
  | [] => True
  | i :: is => G s i ∧ Admits G (M.next s i) is

/-- Whether a run is allowed can be decided when it can for each input. -/
instance decidableAdmits {G : σ → ι → Prop} [∀ s i, Decidable (G s i)] :
    (s : σ) → (is : List ι) → Decidable (M.Admits G s is)
  | _, [] => .isTrue trivial
  | s, i :: is =>
      haveI := decidableAdmits (G := G) (M.next s i) is
      inferInstanceAs (Decidable (G s i ∧ M.Admits G (M.next s i) is))

/-- A run is allowed exactly when its inputs but the last are, and the last one is allowed
where they end. -/
theorem admits_snoc {G : σ → ι → Prop} (s : σ) (is : List ι) (i : ι) :
  M.Admits G s (is ++ [i]) ↔ M.Admits G s is ∧ G (M.final s is) i
  := by
  induction is generalizing s with
  | nil => simp [Admits, final]
  | cons j is ih => simp [Admits, final, ih, and_assoc]

/-- A run is allowed when each of its inputs is allowed at every state. -/
theorem admits_of_forall {p : ι → Prop} {s : σ} {is : List ι} (h : ∀ i ∈ is, p i) :
  M.Admits (fun _ i => p i) s is
  := by
  induction is generalizing s with
  | nil => trivial
  | cons i is ih =>
      use h i List.mem_cons_self
      apply ih
      intro j hj
      apply h j (List.mem_cons_of_mem i hj)

variable {M} in
/-- What holds of every input of an allowed run may be added to what is allowed. -/
theorem Admits.and_forall {G : σ → ι → Prop} {p : ι → Prop} {s : σ} {is : List ι}
    (hG : M.Admits G s is) (h : ∀ i ∈ is, p i) :
  M.Admits (fun t i => G t i ∧ p i) s is
  := by
  induction is generalizing s with
  | nil => trivial
  | cons i is ih =>
      obtain ⟨hi, his⟩ := hG
      use ⟨hi, h i List.mem_cons_self⟩
      apply ih his
      intro j hj
      apply h j (List.mem_cons_of_mem i hj)

/-- `run_induction` for runs of allowed inputs. -/
theorem run_induction_of_admits {G : σ → ι → Prop} {P : List (Event σ ι ο) → σ → Prop}
    {s : σ} (init : P [] s)
    (step : ∀ h t i, P h t → G t i → P (h ++ [M.event t i]) (M.next t i)) (is : List ι)
    (his : M.Admits G s is) :
  P (M.history s is) (M.final s is)
  := by
  induction is using List.reverseRecOn with
  | nil => exact init
  | append_singleton is i ih =>
      obtain ⟨his, hi⟩ := (M.admits_snoc s is i).mp his
      rw [history_snoc, final_snoc]
      apply step _ _ _ (ih his) hi

/-- An invariant of the allowed steps holds at the end of every allowed run. -/
theorem invariant_final_of_admits {G : σ → ι → Prop} {I : σ → Prop} {s : σ} (init : I s)
    (step : ∀ t i, I t → G t i → I (M.next t i)) (is : List ι) (his : M.Admits G s is) :
  I (M.final s is)
  := M.run_induction_of_admits (P := fun _ t => I t) init (fun _ t i => step t i) is his

/-- When exactly the allowed inputs stay in `J`, from states that satisfy an invariant, then a run
stays in `J` exactly when its inputs are allowed. -/
theorem forall_after_iff_admits {G : σ → ι → Prop} {I J : σ → Prop}
    (inv : ∀ t i, I t → I (M.next t i))
    (step : ∀ t i, I t → J t → (J (M.next t i) ↔ G t i))
    {s : σ} (hI : I s) (hJ : J s) (is : List ι) :
  (∀ e ∈ M.history s is, J e.after) ↔ M.Admits G s is
  := by
  induction is generalizing s with
  | nil => simp [Admits, history]
  | cons i is ih =>
      rw [history, Admits, List.forall_mem_cons, event_after, ← step s i hI hJ]
      apply and_congr_right
      intro hnext
      apply ih (inv s i hI) hnext

/-! ### Two runs side by side -/

section

variable {σ' ι' ο' : Type*} (N : Machine σ' ι' ο')

/-- When related inputs at related states lead to related states, and their events satisfy
`Q`, then the events of two runs of related inputs from related states satisfy `Q` one by
one, and the runs end in related states. -/
theorem two_runs {R : σ → σ' → Prop} {A : ι → ι' → Prop}
    {Q : Event σ ι ο → Event σ' ι' ο' → Prop}
    (step : ∀ s t i j, R s t → A i j → Q (M.event s i) (N.event t j)
      ∧ R (M.next s i) (N.next t j))
    {s : σ} {t : σ'} (init : R s t) {is : List ι} {js : List ι'} (h : List.Forall₂ A is js) :
  List.Forall₂ Q (M.history s is) (N.history t js) ∧ R (M.final s is) (N.final t js)
  := by
  induction h generalizing s t with
  | nil => exact ⟨List.Forall₂.nil, init⟩
  | cons hij _ ih =>
      obtain ⟨hQ, hnext⟩ := step _ _ _ _ init hij
      obtain ⟨hhistory, hfinal⟩ := ih hnext
      exact ⟨List.Forall₂.cons hQ hhistory, hfinal⟩

end

end Machine
