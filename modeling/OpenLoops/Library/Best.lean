import Mathlib.Order.Lattice
import Mathlib.Data.List.Induction
import Mathlib.Logic.Function.Basic
import Mathlib.Order.Basic

/-!
# Keeping the best

Of the values that are offered for a key, the one with the greatest rank is kept, the first one of
those.  Whatever the order in which they are offered, none has a greater rank than the one that is
kept.
-/

namespace Best

variable {κ α β ρ σ : Type*} [LinearOrder ρ] (rank : α → ρ)

/-- A value is kept instead of the current one when it has a greater rank. -/
def keep (current : Option α) (a : α) : Option α :=
  if current.all fun b => rank b < rank a then some a else current

/-- What is kept for each key is one of the best values offered. -/
structure IsBest (Offered : κ → α → Prop) (kept : κ → Option α) : Prop where
  offered : ∀ k a, kept k = some a → Offered k a
  best : ∀ k a, Offered k a → ∃ b, kept k = some b ∧ rank a ≤ rank b

/-- The value that is kept is the current one or the one offered. -/
theorem keep_eq_or (current : Option α) (a : α) :
  keep rank current a = current ∨ keep rank current a = some a
  := by
  unfold keep
  split
  · exact .inr rfl
  · exact .inl rfl

/-- The value that is kept has no smaller rank than the current one, and than the one offered. -/
theorem le_keep (current : Option α) (a : α) :
  ∃ b, keep rank current a = some b ∧ rank a ≤ rank b
    ∧ ∀ c, current = some c → rank c ≤ rank b
  := by
  unfold keep
  cases current with
  | none =>
      use a
      simp
  | some c =>
      by_cases h : rank c < rank a
      · use a
        simp [h, h.le]
      · use c
        simp [h, not_lt.mp h]

variable {rank}

/-- What is kept stays best when one more value is offered. -/
theorem IsBest.update [DecidableEq κ] {Offered : κ → α → Prop} {kept : κ → Option α}
    (h : IsBest rank Offered kept) (k : κ) (a : α) :
  IsBest rank (fun k' a' => Offered k' a' ∨ k' = k ∧ a' = a)
    (Function.update kept k (keep rank (kept k) a))
  := by
  constructor
  · intro k' a' hkept
    by_cases hk : k' = k
    · subst hk
      rw [Function.update_self] at hkept
      rcases keep_eq_or rank (kept k') a with hkeep | hkeep
      · rw [hkeep] at hkept
        exact .inl (h.offered k' a' hkept)
      · rw [hkeep] at hkept
        exact .inr ⟨rfl, (Option.some.inj hkept).symm⟩
    · rw [Function.update_of_ne hk] at hkept
      exact .inl (h.offered k' a' hkept)
  · intro k' a' hoffered
    by_cases hk : k' = k
    · subst hk
      obtain ⟨b, hkeep, ha, hcurrent⟩ := le_keep rank (kept k') a
      use b
      rw [Function.update_self]
      refine ⟨hkeep, ?_⟩
      rcases hoffered with hoffered | ⟨-, rfl⟩
      · obtain ⟨c, hkept, hc⟩ := h.best k' a' hoffered
        apply hc.trans (hcurrent c hkept)
      · exact ha
    · rw [Function.update_of_ne hk]
      apply h.best k' a'
      apply hoffered.resolve_right
      rintro ⟨rfl, -⟩
      exact hk rfl

/-- What is kept stays best through a fold, each step of which offers values. -/
theorem IsBest.foldl {g : σ → κ → Option α} {f : σ → β → σ} {Q : β → κ → α → Prop}
    {I : σ → Prop} {l : List β}
    (step : ∀ s, ∀ b ∈ l, I s → ∀ Offered, IsBest rank Offered (g s) →
      IsBest rank (fun k a => Offered k a ∨ Q b k a) (g (f s b)))
    (inv : ∀ s, ∀ b ∈ l, I s → I (f s b)) {s : σ} (hs : I s)
    {Offered : κ → α → Prop} (h : IsBest rank Offered (g s)) :
  IsBest rank (fun k a => Offered k a ∨ ∃ b ∈ l, Q b k a) (g (l.foldl f s))
  := by
  induction l generalizing s Offered with
  | nil => simpa using h
  | cons b l ih =>
      have hb := step s b List.mem_cons_self hs Offered h
      have hall := ih (fun s b hb => step s b (List.mem_cons_of_mem _ hb))
        (fun s b hb => inv s b (List.mem_cons_of_mem _ hb))
        (inv s b List.mem_cons_self hs) hb
      rw [List.foldl_cons]
      simpa only [List.mem_cons, exists_eq_or_imp, or_assoc] using hall

/-- The best ones of the best ones are best. -/
theorem IsBest.trans {Offered Other : κ → α → Prop} {kept kept' : κ → Option α}
    (h : IsBest rank Offered kept)
    (h' : IsBest rank (fun k a => Other k a ∨ kept k = some a) kept') :
  IsBest rank (fun k a => Other k a ∨ Offered k a) kept'
  := by
  constructor
  · intro k a hkept
    apply (h'.offered k a hkept).imp_right
    apply h.offered k a
  · rintro k a (hother | hoffered)
    · apply h'.best k a (.inl hother)
    · obtain ⟨b, hb, hle⟩ := h.best k a hoffered
      obtain ⟨c, hc, hle'⟩ := h'.best k b (.inr hb)
      exact ⟨c, hc, hle.trans hle'⟩

end Best
