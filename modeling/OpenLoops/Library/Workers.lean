import Mathlib.Algebra.BigOperators.Group.Finset.Basic
import Mathlib.Algebra.Order.BigOperators.Group.Finset
import Mathlib.Data.Finset.Range
import Mathlib.Logic.Function.Basic

/-!
# What workers hold together

Each of some workers is at a place, and holds as much as the place says.  When one of them moves,
what they hold together changes by what that one holds.
-/

namespace Workers

variable {π : Type*}

/-- What the first workers hold together. -/
def total (workers : ℕ) (amount : π → ℕ) (places : ℕ → π) : ℕ :=
  ∑ worker ∈ Finset.range workers, amount (places worker)

variable {workers worker : ℕ} (hworker : worker < workers) (amount : π → ℕ) (places : ℕ → π)
include hworker

theorem total_eq_add :
  total workers amount places = amount (places worker)
    + ∑ other ∈ (Finset.range workers).erase worker, amount (places other)
  := (Finset.add_sum_erase _ _ (Finset.mem_range.mpr hworker)).symm

/-- One worker goes to another place. -/
theorem total_update (place : π) :
  total workers amount (Function.update places worker place) + amount (places worker)
    = total workers amount places + amount place
  := by
  have hrest : ∑ other ∈ (Finset.range workers).erase worker,
      amount (Function.update places worker place other)
      = ∑ other ∈ (Finset.range workers).erase worker, amount (places other) := by
    apply Finset.sum_congr rfl
    intro other hother
    rw [Function.update_of_ne (Finset.ne_of_mem_erase hother)]
  rw [total_eq_add hworker, total_eq_add hworker, hrest, Function.update_self]
  omega

/-- What one worker holds is part of what the workers hold. -/
theorem le_total :
  amount (places worker) ≤ total workers amount places
  := by
  rw [total_eq_add hworker]
  apply Nat.le_add_right

omit hworker in
/-- Workers that each hold at most as much hold at most as much together. -/
theorem total_le_total {amount bound : π → ℕ} (h : ∀ place, amount place ≤ bound place) :
  total workers amount places ≤ total workers bound places
  := by
  apply Finset.sum_le_sum
  intro worker _
  apply h

omit hworker in
/-- Workers that hold nothing hold nothing together. -/
theorem total_eq_zero {amount : π → ℕ} {places : ℕ → π}
    (h : ∀ worker < workers, amount (places worker) = 0) :
  total workers amount places = 0
  := by
  apply Finset.sum_eq_zero
  intro worker hworker
  apply h worker (Finset.mem_range.mp hworker)

end Workers
