import Mathlib.Data.List.Chain
import Mathlib.Data.List.Infix
import Mathlib.Tactic.Common

/-!
# Runs

A list in which an element comes at most so many times in a row.  To limit the runs of an element
changes neither what stands next to what, apart from the element next to itself, nor a list whose
runs are limited.
-/

namespace Runs

variable {α : Type*} {x : α}

/-- The element comes at most so many times in a row. -/
def AtMost (x : α) (n : ℕ) (xs : List α) : Prop :=
  ¬ List.replicate (n + 1) x <:+: xs

/-- A run stands before another element or after it. -/
theorem infix_append_cons {y : α} (hy : y ≠ x) {k : ℕ} {xs ys : List α}
    (h : List.replicate k x <:+: xs ++ y :: ys) :
  List.replicate k x <:+: xs ∨ List.replicate k x <:+: ys
  := by
  rcases List.infix_append_iff.mp h with h | h | ⟨before, after, heq, hbefore, hafter⟩
  · exact Or.inl h
  · rcases List.infix_cons_iff.mp h with hprefix | h
    · cases k with
      | zero => exact Or.inl (List.nil_infix)
      | succ k => exact absurd (List.cons_prefix_cons.mp hprefix).1.symm hy
    · exact Or.inr h
  · left
    cases after with
    | nil =>
        rw [heq, List.append_nil]
        apply hbefore.isInfix
    | cons z after =>
        have hz : z = x := by
          apply List.eq_of_mem_replicate (n := k)
          rw [heq]
          exact List.mem_append_right _ List.mem_cons_self
        exact absurd ((List.cons_prefix_cons.mp hafter).1.symm.trans hz) hy

theorem replicate_append_cons (k : ℕ) (ys : List α) :
  List.replicate k x ++ x :: ys = List.replicate (k + 1) x ++ ys
  := by rw [List.replicate_succ', List.append_assoc, List.singleton_append]

/-- An element comes at most once in a row when it does not stand next to itself. -/
theorem atMost_one_iff {xs : List α} :
  AtMost x 1 xs ↔ xs.IsChain fun y z => ¬ (y = x ∧ z = x)
  := by
  rw [List.isChain_iff_forall_rel_of_append_cons_cons]
  constructor
  · rintro h _ _ before after rfl ⟨rfl, rfl⟩
    apply h
    exact ⟨before, after, by simp⟩
  · rintro h ⟨before, after, rfl⟩
    apply @h x x before after
    · simp
    · exact ⟨rfl, rfl⟩

variable [DecidableEq α] {n : ℕ}

/-- Limit the runs of an element, of which so many come directly before. -/
def limitFrom (x : α) (n : ℕ) : ℕ → List α → List α
  | _, [] => []
  | k, y :: ys =>
      if y = x then if k < n then y :: limitFrom x n (k + 1) ys else limitFrom x n k ys
      else y :: limitFrom x n 0 ys

/-- Keep at most so many of an element in a row. -/
def limitRuns (x : α) (n : ℕ) (xs : List α) : List α :=
  limitFrom x n 0 xs

theorem limitFrom_sublist (k : ℕ) (xs : List α) :
  (limitFrom x n k xs).Sublist xs
  := by
  induction xs generalizing k with
  | nil => exact List.Sublist.refl []
  | cons y ys ih =>
      rw [limitFrom]
      split_ifs
      · apply (ih (k + 1)).cons_cons
      · apply (ih k).cons
      · apply (ih 0).cons_cons

theorem limitRuns_sublist (xs : List α) :
  (limitRuns x n xs).Sublist xs
  := limitFrom_sublist 0 xs

/-- The runs before another element and after it are limited by themselves. -/
theorem limitFrom_append_cons {y : α} (hy : y ≠ x) (k : ℕ) (xs ys : List α) :
  limitFrom x n k (xs ++ y :: ys) = limitFrom x n k xs ++ y :: limitRuns x n ys
  := by
  induction xs generalizing k with
  | nil =>
      simp only [List.nil_append, limitFrom, if_neg hy]
      rfl
  | cons z xs ih =>
      rw [List.cons_append, limitFrom, limitFrom]
      split_ifs
      · rw [ih, List.cons_append]
      · apply ih
      · rw [ih, List.cons_append]

theorem limitRuns_append_cons {y : α} (hy : y ≠ x) (xs ys : List α) :
  limitRuns x n (xs ++ y :: ys) = limitRuns x n xs ++ y :: limitRuns x n ys
  := limitFrom_append_cons hy 0 xs ys

/-- After so many of the element the others are kept as far as the run is limited. -/
theorem atMost_limitFrom {k : ℕ} (hk : k ≤ n) (xs : List α) :
  AtMost x n (List.replicate k x ++ limitFrom x n k xs)
  := by
  induction xs generalizing k with
  | nil =>
      intro h
      have hle := h.length_le
      rw [limitFrom, List.append_nil, List.length_replicate, List.length_replicate] at hle
      omega
  | cons y ys ih =>
      rw [limitFrom]
      split_ifs with hy hlt
      · subst hy
        rw [replicate_append_cons]
        apply ih hlt
      · apply ih hk
      · intro h
        rcases infix_append_cons hy h with h | h
        · have hle := h.length_le
          rw [List.length_replicate, List.length_replicate] at hle
          omega
        · have hrest := @ih 0 (Nat.zero_le n)
          rw [List.replicate_zero, List.nil_append] at hrest
          exact hrest h

/-- Limited runs are limited. -/
theorem atMost_limitRuns (x : α) (n : ℕ) (xs : List α) :
  AtMost x n (limitRuns x n xs)
  := by
  have h := atMost_limitFrom (x := x) (k := 0) (Nat.zero_le n) xs
  rw [List.replicate_zero, List.nil_append] at h
  exact h

theorem limitFrom_eq_self {k : ℕ} (hk : k ≤ n) {xs : List α}
    (h : AtMost x n (List.replicate k x ++ xs)) :
  limitFrom x n k xs = xs
  := by
  induction xs generalizing k with
  | nil => rfl
  | cons y ys ih =>
      rw [limitFrom]
      split_ifs with hy hlt
      · subst hy
        rw [replicate_append_cons] at h
        rw [ih hlt h]
      · subst hy
        rw [replicate_append_cons, Nat.le_antisymm hk (Nat.not_lt.mp hlt)] at h
        exact absurd (List.prefix_append _ _).isInfix h
      · rw [@ih 0 (Nat.zero_le n)]
        intro hinfix
        apply h
        apply hinfix.trans
        apply List.IsSuffix.isInfix
        exact (List.suffix_cons y ys).trans (List.suffix_append _ _)

/-- A list whose runs are limited stays as it is. -/
theorem limitRuns_eq_self {xs : List α} (h : AtMost x n xs) :
  limitRuns x n xs = xs
  := by
  apply limitFrom_eq_self (Nat.zero_le n)
  rw [List.replicate_zero, List.nil_append]
  exact h

theorem head?_limitRuns (hn : 0 < n) (xs : List α) :
  (limitRuns x n xs).head? = xs.head?
  := by
  cases xs with
  | nil => rfl
  | cons y ys =>
      rw [limitRuns, limitFrom]
      split_ifs <;> rfl

theorem isChain_limitFrom_iff {R : α → α → Prop} (hx : R x x) (hn : 0 < n) {k : ℕ} (hk : k ≤ n)
    (xs : List α) :
  (List.replicate k x ++ limitFrom x n k xs).IsChain R ↔ (List.replicate k x ++ xs).IsChain R
  := by
  induction xs generalizing k with
  | nil => rfl
  | cons y ys ih =>
      rw [limitFrom]
      split_ifs with hy hlt
      · subst hy
        rw [replicate_append_cons, replicate_append_cons, ih hlt]
      · -- one more of the element follows itself
        subst hy
        obtain ⟨m, hm⟩ : ∃ m, k = m + 1 := Nat.exists_eq_succ_of_ne_zero (by omega)
        rw [ih hk, replicate_append_cons, hm]
        change (y :: (List.replicate m y ++ ys)).IsChain R
          ↔ (y :: y :: (List.replicate m y ++ ys)).IsChain R
        rw [List.isChain_cons_cons, and_iff_right hx]
      · have hrest := @ih 0 (Nat.zero_le n)
        rw [List.replicate_zero, List.nil_append, List.nil_append] at hrest
        have hhead : (limitFrom x n 0 ys).head? = ys.head? := head?_limitRuns hn ys
        rw [List.isChain_append, List.isChain_append, List.isChain_cons, List.isChain_cons, hhead,
          hrest, List.head?_cons, List.head?_cons]

/-- A relation of neighbours, in which the element may stand next to itself, holds of a list exactly
when it holds of the list with limited runs. -/
theorem isChain_limitRuns_iff {R : α → α → Prop} (hx : R x x) (hn : 0 < n) (xs : List α) :
  (limitRuns x n xs).IsChain R ↔ xs.IsChain R
  := isChain_limitFrom_iff hx hn (Nat.zero_le n) xs

end Runs
