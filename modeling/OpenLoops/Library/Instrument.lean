import OpenLoops.Library.Fallible

/-!
# Instrumented computations

A stateful computation that may fail is instrumented when it does the same with a log beside
its state, to which it appends entries.  `StateT.Logs` says what entries; its rules follow the
operations the computation is made of.
-/

namespace StateT

variable {σ β : Type u} {ε : Type*} {α γ : Type u}

/-- The second computation does what the first does, and appends to the log beside the state
entries that satisfy `P` with its value. -/
def Logs (P : α → List β → Prop) (x : StateT σ (Except ε) α)
    (y : StateT (σ × List β) (Except ε) α) : Prop :=
  ∀ s log, match x.run s with
    | .error e => y.run (s, log) = .error e
    | .ok (a, t) => ∃ entries, y.run (s, log) = .ok (a, (t, log ++ entries)) ∧ P a entries

namespace Logs

variable {P : α → List β → Prop} {x : StateT σ (Except ε) α}
  {y : StateT (σ × List β) (Except ε) α}

/-- When the first computation succeeds, so does the second, with its entries in the log. -/
theorem run_eq_ok (h : Logs P x y) {s t : σ} {a : α} (hx : x.run s = .ok (a, t))
    (log : List β) :
  ∃ entries, y.run (s, log) = .ok (a, (t, log ++ entries)) ∧ P a entries
  := by
  have h := h s log
  rw [hx] at h
  exact h

/-- A value is logged without an entry. -/
theorem pure {a : α} (h : P a []) :
  Logs P (Pure.pure a : StateT σ (Except ε) α) (Pure.pure a)
  := by
  intro s log
  use []
  constructor
  · rw [List.append_nil]
    rfl
  · exact h

/-- A step without state is logged without an entry, and what follows it is logged. -/
theorem lift_bind {Q : γ → List β → Prop} {z : Except ε α} {f : α → StateT σ (Except ε) γ}
    {g : α → StateT (σ × List β) (Except ε) γ}
    (h : ∀ a, Logs Q (f a) (g a)) :
  Logs Q ((liftM z : StateT σ (Except ε) α) >>= f) (liftM z >>= g)
  := by
  intro s log
  cases z with
  | error e => rfl
  | ok a => apply h a s log

/-- A change of the state is logged when it appends its entries. -/
theorem modifyGet {f : σ → α × σ} {g : σ × List β → α × (σ × List β)}
    (h : ∀ s log, ∃ entries, g (s, log) = ((f s).1, ((f s).2, log ++ entries))
      ∧ P (f s).1 entries) :
  Logs P (MonadState.modifyGet f : StateT σ (Except ε) α) (MonadState.modifyGet g)
  := by
  intro s log
  obtain ⟨entries, hg, hP⟩ := h s log
  use entries
  constructor
  · change Except.ok (g (s, log)) = _
    rw [hg]
  · exact hP

/-- Weaker facts about the entries. -/
theorem mono {Q : α → List β → Prop} (h : Logs P x y)
    (hPQ : ∀ a entries, P a entries → Q a entries) :
  Logs Q x y
  := by
  intro s log
  have h := h s log
  revert h
  cases x.run s with
  | error e => exact id
  | ok pair =>
      rintro ⟨entries, hy, hP⟩
      exact ⟨entries, hy, hPQ _ _ hP⟩

/-- A sequence of two computations logs the entries of both. -/
theorem bind {Q : α → γ → List β → Prop} {f : α → StateT σ (Except ε) γ}
    {g : α → StateT (σ × List β) (Except ε) γ} (h : Logs P x y)
    (hf : ∀ a, Logs (Q a) (f a) (g a)) :
  Logs (fun c entries => ∃ a before after, entries = before ++ after ∧ P a before
    ∧ Q a c after) (x >>= f) (y >>= g)
  := by
  intro s log
  have h := h s log
  rw [StateT.run_bind, StateT.run_bind]
  cases hx : x.run s with
  | error e =>
      rw [hx] at h
      rw [h]
      rfl
  | ok pair =>
      obtain ⟨a, t⟩ := pair
      rw [hx] at h
      obtain ⟨before, hy, hP⟩ := h
      rw [hy]
      have hf := hf a t (log ++ before)
      change match (f a).run t with
        | .error e => (g a).run (t, log ++ before) = .error e
        | .ok (c, u) => _
      revert hf
      cases (f a).run t with
      | error e => exact id
      | ok pair =>
          rintro ⟨after, hg, hQ⟩
          use before ++ after
          constructor
          · rw [← List.append_assoc]
            exact hg
          · exact ⟨a, before, after, rfl, hP, hQ⟩

/-- A list of computations logs their entries one after the other. -/
theorem mapM {ι : Type u} {Q : ι → γ → List β → Prop} {f : ι → StateT σ (Except ε) γ}
    {g : ι → StateT (σ × List β) (Except ε) γ} (hf : ∀ i, Logs (Q i) (f i) (g i))
    (is : List ι) :
  Logs (fun cs entries => ∃ parts : List (γ × List β), cs = parts.map (·.1)
    ∧ entries = (parts.map (·.2)).flatten ∧ List.Forall₂ (fun i part => Q i part.1 part.2) is
      parts) (is.mapM f) (is.mapM g)
  := by
  induction is with
  | nil =>
      rw [List.mapM_nil, List.mapM_nil]
      apply Logs.pure
      exact ⟨[], rfl, rfl, List.Forall₂.nil⟩
  | cons i is ih =>
      rw [List.mapM_cons, List.mapM_cons]
      have hcons : ∀ c, Logs _ (is.mapM f >>= fun cs => Pure.pure (c :: cs))
          (is.mapM g >>= fun cs => Pure.pure (c :: cs)) :=
        fun c => ih.bind fun cs => Logs.pure (P := fun ds entries => ds = c :: cs ∧ entries = [])
          ⟨rfl, rfl⟩
      apply ((hf i).bind hcons).mono
      rintro cs entries ⟨c, before, _, rfl, hQ, _, _, _, rfl, ⟨parts, rfl, rfl, hparts⟩, rfl, rfl⟩
      use (c, before) :: parts, rfl
      constructor
      · rw [List.append_nil]
        rfl
      · exact List.Forall₂.cons hQ hparts

end Logs

end StateT
