import Mathlib.Algebra.Order.Ring.Int
import Mathlib.Data.Int.ConditionallyCompleteOrder
import Mathlib.Data.Int.Interval
import Mathlib.Order.SuccPred.Basic

/-!
# Blocks and occurrences of integers

The integers are divided into blocks, each of which begins where the one before ends; `start k` is
the first number of the block `k`.  A number is told by its block and its place in it.  The integers
with a property come one after the other: the next one after a number, and the `n`-th one.
-/

namespace Blocks

variable {start : ℤ → ℤ}

/-- A number of the block. -/
def Mem (start : ℤ → ℤ) (k n : ℤ) : Prop :=
  start k ≤ n ∧ n < start (k + 1)

/-- The numbers of an earlier block are smaller. -/
theorem Mem.lt_of_lt (hmono : StrictMono start) {k k' n n' : ℤ} (h : Mem start k n)
    (h' : Mem start k' n') (hlt : k < k') :
  n < n'
  := by
  have hle : start (k + 1) ≤ start k' := hmono.monotone (Int.add_one_le_of_lt hlt)
  obtain ⟨-, hn⟩ := h
  obtain ⟨hn', -⟩ := h'
  omega

/-- Numbers are ordered by their blocks, and within a block by their places. -/
theorem Mem.lt_iff (hmono : StrictMono start) {k k' n n' : ℤ} (h : Mem start k n)
    (h' : Mem start k' n') :
  n < n' ↔ k < k' ∨ k = k' ∧ n - start k < n' - start k'
  := by
  rcases lt_trichotomy k k' with hlt | rfl | hlt
  · exact iff_of_true (h.lt_of_lt hmono h' hlt) (Or.inl hlt)
  · omega
  · have hgt := h'.lt_of_lt hmono h hlt
    omega

end Blocks

/-! ### The numbers with a property -/

namespace Occurrences

variable (P : ℤ → Prop)

/-- The next number with the property after `a` is `b`. -/
def Next (a b : ℤ) : Prop :=
  a < b ∧ P b ∧ ∀ x, a < x → x < b → ¬ P x

variable [DecidablePred P]

/-- How many numbers after `a` and up to `b` have the property. -/
noncomputable def count (a b : ℤ) : ℕ :=
  ((Finset.Ioc a b).filter P).card

/-- The `n`-th number with the property after `a` is `b`. -/
def Nth (a : ℤ) (n : ℕ) (b : ℤ) : Prop :=
  a < b ∧ P b ∧ count P a b = n

variable {P} {a b c : ℤ}

theorem count_add (hab : a ≤ b) (hbc : b ≤ c) :
  count P a c = count P a b + count P b c
  := by
  have hdisjoint : Disjoint ((Finset.Ioc a b).filter P) ((Finset.Ioc b c).filter P) := by
    rw [Finset.disjoint_left]
    intro x hx hx'
    rw [Finset.mem_filter, Finset.mem_Ioc] at hx hx'
    omega
  rw [count, count, count, ← Finset.card_union_of_disjoint hdisjoint, ← Finset.filter_union]
  apply congrArg fun s => (Finset.filter P s).card
  ext x
  rw [Finset.mem_union, Finset.mem_Ioc, Finset.mem_Ioc, Finset.mem_Ioc]
  omega

/-- Up to the next number with the property there is one. -/
theorem Next.count_eq_one (h : Next P a b) :
  count P a b = 1
  := by
  obtain ⟨hlt, hb, hnone⟩ := h
  rw [count, Finset.card_eq_one]
  use b
  ext x
  rw [Finset.mem_filter, Finset.mem_Ioc, Finset.mem_singleton]
  constructor
  · rintro ⟨⟨hax, hxb⟩, hx⟩
    by_contra hne
    apply hnone x hax (by omega) hx
  · rintro rfl
    exact ⟨⟨hlt, le_refl x⟩, hb⟩

/-- The next number with the property is the first one. -/
theorem Next.nth (h : Next P a b) :
  Nth P a 1 b
  := ⟨h.1, h.2.1, h.count_eq_one⟩

/-- The next number after the `n`-th one is the one after it. -/
theorem Nth.succ {n : ℕ} (h : Nth P a n b) (hnext : Next P b c) :
  Nth P a (n + 1) c
  := by
  obtain ⟨hlt, -, hcount⟩ := h
  use hlt.trans hnext.1, hnext.2.1
  rw [count_add (Int.le_of_lt hlt) (Int.le_of_lt hnext.1), hcount, hnext.count_eq_one]

/-- There is a first one, but none before it. -/
theorem Nth.ne_zero {n : ℕ} (h : Nth P a n b) :
  n ≠ 0
  := by
  obtain ⟨hlt, hb, rfl⟩ := h
  apply Finset.card_ne_zero_of_mem (a := b)
  rw [Finset.mem_filter, Finset.mem_Ioc]
  exact ⟨⟨hlt, le_refl b⟩, hb⟩

end Occurrences
