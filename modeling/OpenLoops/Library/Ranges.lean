import Mathlib.Data.List.Induction
import Mathlib.Order.Interval.Finset.Nat

/-!
# Consecutive ranges

Ranges of numbers, each with its first number and its size.  `Tiles lo ranges hi` says that the
ranges start at `lo`, that each begins where the one before ends, and that the last one ends at
`hi`; such ranges are disjoint and leave nothing out.
-/

namespace Ranges

/-- The ranges lead from `lo` to `hi`, each beginning where the one before ends. -/
def Tiles : ℕ → List (ℕ × ℕ) → ℕ → Prop
  | lo, [], hi => lo = hi
  | lo, r :: rs, hi => r.1 = lo ∧ Tiles (lo + r.2) rs hi

/-- The numbers of a range. -/
def members (r : ℕ × ℕ) : Finset ℕ :=
  Finset.Ico r.1 (r.1 + r.2)

/-- A further range begins where the others end. -/
theorem Tiles.snoc {lo mid size : ℕ} {rs : List (ℕ × ℕ)} (h : Tiles lo rs mid) :
  Tiles lo (rs ++ [(mid, size)]) (mid + size)
  := by
  induction rs generalizing lo with
  | nil =>
      cases h
      exact ⟨rfl, rfl⟩
  | cons r rs ih =>
      obtain ⟨hfirst, hrest⟩ := h
      use hfirst
      apply ih hrest

/-- The ranges do not end before they start. -/
theorem Tiles.le {lo hi : ℕ} {rs : List (ℕ × ℕ)} (h : Tiles lo rs hi) :
  lo ≤ hi
  := by
  induction rs generalizing lo with
  | nil => exact Nat.le_of_eq h
  | cons r rs ih =>
      have hrest := ih h.2
      omega

/-- A number is in one of the ranges exactly when it is between their ends. -/
theorem Tiles.exists_mem_iff {lo hi x : ℕ} {rs : List (ℕ × ℕ)} (h : Tiles lo rs hi) :
  (∃ r ∈ rs, x ∈ members r) ↔ lo ≤ x ∧ x < hi
  := by
  induction rs generalizing lo with
  | nil =>
      cases h
      simp
  | cons r rs ih =>
      obtain ⟨rfl, hrest⟩ := h
      have hle := hrest.le
      have htail := ih hrest
      simp only [List.mem_cons, exists_eq_or_imp, htail]
      rw [members, Finset.mem_Ico]
      omega

/-- The ranges have no number in common. -/
theorem Tiles.pairwise_disjoint {lo hi : ℕ} {rs : List (ℕ × ℕ)} (h : Tiles lo rs hi) :
  rs.Pairwise fun r s => Disjoint (members r) (members s)
  := by
  induction rs generalizing lo with
  | nil => exact List.Pairwise.nil
  | cons r rs ih =>
      obtain ⟨rfl, hrest⟩ := h
      apply List.Pairwise.cons
      · intro s hs
        apply Finset.disjoint_left.mpr
        intro x hr hx
        have hlo := (hrest.exists_mem_iff.mp ⟨s, hs, hx⟩).1
        have hlt := (Finset.mem_Ico.mp hr).2
        omega
      · apply ih hrest

end Ranges
