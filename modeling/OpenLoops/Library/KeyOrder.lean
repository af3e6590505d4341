import Mathlib.Data.List.Chain
import Mathlib.Data.List.Sort

/-!
# Sorting by a key

A list sorted by a key has its keys in order, so that entries with the same key are
neighbours.  When no key occurs twice, the sorted list is determined by the entries.
-/

namespace KeyOrder

variable {α κ : Type*} [LinearOrder κ] (key : α → κ)

/-- The entries in the order of their keys. -/
def sort (l : List α) : List α :=
  l.insertionSort fun a b => key a ≤ key b

/-- Sorting loses no entry and adds none. -/
theorem sort_perm (l : List α) :
  (sort key l).Perm l
  := List.perm_insertionSort _ l

/-- The keys of a sorted list are in order. -/
theorem sortedLE_map_sort (l : List α) :
  ((sort key l).map key).SortedLE
  := by
  have hmap : (sort key l).map key = (l.map key).insertionSort (· ≤ ·) := by
    apply List.map_insertionSort
    intro a _ b _
    exact Iff.rfl
  rw [hmap]
  apply List.Pairwise.sortedLE
  apply List.pairwise_insertionSort

variable {key}

/-- Neighbours all satisfy a relation when they form a chain. -/
theorem isChain_iff_zip_tail {r : α → α → Prop} {l : List α} :
  l.IsChain r ↔ ∀ pair ∈ l.zip l.tail, r pair.1 pair.2
  := by
  induction l with
  | nil => simp
  | cons a l ih =>
      cases l with
      | nil => simp
      | cons b l =>
          rw [List.isChain_cons_cons, ih]
          simp only [List.tail_cons, List.zip_cons_cons, List.forall_mem_cons]

/-- In a list sorted by a key, no key occurs twice exactly when no two neighbours share
theirs. -/
theorem nodup_iff_neighbours {l : List α} (hl : (l.map key).SortedLE) :
  (l.map key).Nodup ↔ ∀ pair ∈ l.zip l.tail, key pair.1 ≠ key pair.2
  := by
  rw [← isChain_iff_zip_tail (r := fun a b => key a ≠ key b)]
  constructor
  · intro hnodup
    have hpairwise := List.pairwise_map.mp hnodup
    apply hpairwise.isChain
  · intro hne
    have hle := (List.isChain_map key).mp hl.isChain
    have hlt : (l.map key).IsChain (· < ·) := by
      apply (List.isChain_map key).mpr
      rw [isChain_iff_zip_tail] at hle hne ⊢
      intro pair hpair
      apply lt_of_le_of_ne (hle pair hpair) (hne pair hpair)
    apply (List.sortedLT_iff_isChain.mpr hlt).nodup

/-- Two lists of the same entries, sorted by a key that occurs in each of them only once, are
equal. -/
theorem eq_of_perm {l m : List α} (h : l.Perm m) (hl : (l.map key).SortedLT)
    (hm : (m.map key).SortedLT) :
  l = m
  := by
  have hantisymm : ∀ a b, a ∈ l → b ∈ m → key a < key b → key b < key a → a = b := by
    intro a b _ _ hab hba
    apply absurd hab hba.asymm
  apply List.Perm.eq_of_pairwise hantisymm
  · apply List.pairwise_map.mp hl.pairwise
  · apply List.pairwise_map.mp hm.pairwise
  · exact h

/-- Entries whose keys are the first numbers, each of them once, come in the order of the numbers. -/
theorem map_sort_eq_range {β : Type*} {key : β → ℕ} {l : List β} {n : ℕ}
    (h : ∀ i, (l.countP fun entry => key entry = i) = if i < n then 1 else 0) :
  (sort key l).map key = List.range n
  := by
  have hperm : ((sort key l).map key).Perm (List.range n) := by
    apply ((sort_perm key l).map key).trans
    apply List.perm_iff_count.mpr
    intro i
    rw [List.count_range, List.count, List.countP_map]
    exact h i
  have hantisymm : ∀ a b, a ∈ (sort key l).map key → b ∈ List.range n → a ≤ b → b ≤ a → a = b := by
    intro a b _ _ hab hba
    apply hab.antisymm hba
  apply hperm.eq_of_pairwise hantisymm
  · apply (sortedLE_map_sort key l).pairwise
  · apply List.pairwise_le_range

end KeyOrder
