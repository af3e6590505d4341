import Mathlib.Data.Fintype.Basic
import Mathlib.Data.List.FinRange
import Mathlib.Logic.Relation
import Mathlib.Order.Bounds.Basic

/-!
# Forests of numbers

A forest joins the first numbers to classes: each number points to itself, or to a smaller one of
its class, so that following the pointers leads to the least number of the class.
-/

/-- The first numbers, each with the one that it points to. -/
structure Forest (n : ℕ) where
  parent : Fin n → Fin n
  le : ∀ i, parent i ≤ i

namespace Forest

variable {n : ℕ}

/-- Each number is alone. -/
def discrete (n : ℕ) : Forest n where
  parent := id
  le := fun _ => le_rfl

theorem parent_lt (f : Forest n) {i : Fin n} (h : f.parent i ≠ i) :
  f.parent i < i
  := lt_of_le_of_ne (f.le i) h

/-- Where the pointers lead to. -/
def top (f : Forest n) (i : Fin n) : Fin n :=
  if h : f.parent i = i then i
  else
    have := f.parent_lt h
    f.top (f.parent i)
termination_by i

/-- Let a number point to a smaller one. -/
def point (f : Forest n) (x y : Fin n) (h : y ≤ x) : Forest n where
  parent i := if i = x then y else f.parent i
  le i := by
    split_ifs with hi
    · rwa [hi]
    · exact f.le i

/-- Follow the pointers, and let each number on the way point to where its parent does. -/
def root (f : Forest n) (x : Fin n) : Fin n × Forest n :=
  if h : f.parent x = x then (x, f)
  else
    have hle := (f.le (f.parent x)).trans (f.le x)
    have := (f.le (f.parent x)).trans_lt (f.parent_lt h)
    (f.point x (f.parent (f.parent x)) hle).root (f.parent (f.parent x))
termination_by x

/-- Join two classes: the greater one of the roots points to the other one. -/
def union (f : Forest n) (a b : Fin n) : Forest n :=
  let (ra, f) := f.root a
  let (rb, f) := f.root b
  if ra = rb then f
  else f.point (max ra rb) (min ra rb) min_le_max

/-! ### Tops -/

theorem top_of_eq {f : Forest n} {i : Fin n} (h : f.parent i = i) :
  f.top i = i
  := by
  rw [top, dif_pos h]

theorem top_parent (f : Forest n) (i : Fin n) :
  f.top (f.parent i) = f.top i
  := by
  by_cases h : f.parent i = i
  · rw [h]
  · rw [Forest.top.eq_1 f i, dif_neg h]

/-- A map that is the same at a number and where it points to is the top. -/
theorem top_eq {f : Forest n} {g : Fin n → Fin n} (hroot : ∀ i, f.parent i = i → g i = i)
    (hparent : ∀ i, f.parent i ≠ i → g i = g (f.parent i)) (i : Fin n) :
  f.top i = g i
  := by
  induction i using WellFoundedLT.induction with
  | ind i ih =>
      by_cases h : f.parent i = i
      · rw [top_of_eq h, hroot i h]
      · rw [← top_parent, ih _ (f.parent_lt h), hparent i h]

theorem top_le (f : Forest n) (i : Fin n) :
  f.top i ≤ i
  := by
  induction i using WellFoundedLT.induction with
  | ind i ih =>
      by_cases h : f.parent i = i
      · exact (top_of_eq h).le
      · rw [← top_parent]
        exact (ih _ (f.parent_lt h)).trans (f.le i)

theorem parent_top (f : Forest n) (i : Fin n) :
  f.parent (f.top i) = f.top i
  := by
  induction i using WellFoundedLT.induction with
  | ind i ih =>
      by_cases h : f.parent i = i
      · rw [top_of_eq h, h]
      · rw [← top_parent]
        exact ih _ (f.parent_lt h)

theorem top_top (f : Forest n) (i : Fin n) :
  f.top (f.top i) = f.top i
  := top_of_eq (f.parent_top i)

theorem top_discrete (i : Fin n) :
  (discrete n).top i = i
  := top_of_eq rfl

theorem point_parent_self (f : Forest n) {x y : Fin n} (h : y ≤ x) :
  (f.point x y h).parent x = y
  := if_pos rfl

theorem point_parent_of_ne (f : Forest n) {x y i : Fin n} (h : y ≤ x) (hne : i ≠ x) :
  (f.point x y h).parent i = f.parent i
  := if_neg hne

/-- A number that points to another one of its class keeps the classes. -/
theorem top_point_same {f : Forest n} {x y : Fin n} (h : y ≤ x) (hxy : y ≠ x)
    (htop : f.top y = f.top x) :
  (f.point x y h).top = f.top
  := by
  funext i
  apply top_eq
  · intro i hi
    by_cases hix : i = x
    · rw [hix, point_parent_self] at hi
      exact absurd hi hxy
    · rw [point_parent_of_ne f h hix] at hi
      exact top_of_eq hi
  · intro i _
    by_cases hix : i = x
    · rw [hix, point_parent_self, htop]
    · rw [point_parent_of_ne f h hix, top_parent]

/-- A root that points to another root brings its class along. -/
theorem top_point_root {f : Forest n} {x y : Fin n} (h : y ≤ x) (hx : f.parent x = x)
    (hy : f.parent y = y) (i : Fin n) :
  (f.point x y h).top i = if f.top i = x then y else f.top i
  := by
  apply @top_eq n _ fun i => if f.top i = x then y else f.top i
  · intro i hi
    by_cases hix : i = x
    · rw [hix, point_parent_self] at hi
      rw [hix, if_pos (top_of_eq hx), hi]
    · rw [point_parent_of_ne f h hix] at hi
      rw [top_of_eq hi, if_neg hix]
  · intro i _
    by_cases hix : i = x
    · rw [hix, point_parent_self, if_pos (top_of_eq hx), top_of_eq hy, ite_self]
    · rw [point_parent_of_ne f h hix, top_parent]

/-- Following the pointers leads to the top and keeps the classes. -/
theorem root_spec (f : Forest n) (x : Fin n) :
  (f.root x).1 = f.top x ∧ (f.root x).2.top = f.top
  := by
  induction x using WellFoundedLT.induction generalizing f with
  | ind x ih =>
      by_cases h : f.parent x = x
      · rw [root, dif_pos h]
        exact ⟨(top_of_eq h).symm, rfl⟩
      · have hlt := (f.le (f.parent x)).trans_lt (f.parent_lt h)
        have htop : f.top (f.parent (f.parent x)) = f.top x := by
          rw [top_parent, top_parent]
        have hsame := top_point_same hlt.le hlt.ne htop
        obtain ⟨hroot, htops⟩ := ih _ hlt (f.point x (f.parent (f.parent x)) hlt.le)
        rw [root, dif_neg h]
        constructor
        · rw [hroot, hsame, htop]
        · rw [htops, hsame]

/-- Two classes that are joined have the smaller one of their roots. -/
theorem top_union (f : Forest n) (a b i : Fin n) :
  (f.union a b).top i =
    if f.top i = f.top a ∨ f.top i = f.top b then min (f.top a) (f.top b) else f.top i
  := by
  obtain ⟨hra, htop⟩ := f.root_spec a
  obtain ⟨hrb, htop'⟩ := (f.root a).2.root_spec b
  rw [htop] at hrb htop'
  have hroot : ∀ c, ((f.root a).2.root b).2.parent (f.top c) = f.top c := by
    intro c
    rw [← htop']
    apply parent_top
  have hunion : f.union a b = if f.top a = f.top b then ((f.root a).2.root b).2
      else ((f.root a).2.root b).2.point (max (f.top a) (f.top b)) (min (f.top a) (f.top b))
        min_le_max := by
    simp only [union, hra, hrb]
  rw [hunion]
  by_cases heq : f.top a = f.top b
  · rw [if_pos heq, htop']
    split_ifs with hi
    · rw [heq, min_self]
      exact hi.elim (fun h => h.trans heq) id
    · rfl
  · rw [if_neg heq, top_point_root, htop']
    · rcases le_total (f.top a) (f.top b) with hle | hle
      · rw [max_eq_right hle, min_eq_left hle]
        by_cases hi : f.top i = f.top a
        · rw [if_neg (by rwa [hi]), if_pos (Or.inl hi), hi]
        · simp only [hi, false_or]
      · rw [max_eq_left hle, min_eq_right hle]
        by_cases hi : f.top i = f.top b
        · rw [if_neg (by rw [hi]; exact Ne.symm heq), if_pos (Or.inr hi), hi]
        · simp only [hi, or_false]
    · rcases max_choice (f.top a) (f.top b) with h | h
      · rw [h, hroot]
      · rw [h, hroot]
    · rcases min_choice (f.top a) (f.top b) with h | h
      · rw [h, hroot]
      · rw [h, hroot]

/-! ### Classes -/

/-- The numbers are of one class. -/
def Joined (f : Forest n) (i j : Fin n) : Prop :=
  f.top i = f.top j

/-- What generates related pairs only generates no more than that. -/
theorem eqvGen_le {α : Type*} {r s : α → α → Prop}
    (hrs : ∀ a b, r a b → Relation.EqvGen s a b) {a b : α} (h : Relation.EqvGen r a b) :
  Relation.EqvGen s a b
  := (Relation.EqvGen.is_equivalence s).eqvGen_iff.mp (h.mono hrs)

theorem joined_equivalence (f : Forest n) :
  Equivalence f.Joined
  := ⟨fun _ => rfl, fun h => h.symm, fun h h' => h.trans h'⟩

/-- What is joined after two numbers are is what was before, and what is joined through them. -/
theorem joined_union (f : Forest n) (a b i j : Fin n) :
  (f.union a b).Joined i j ↔
    Relation.EqvGen (fun k l => f.Joined k l ∨ k = a ∧ l = b) i j
  := by
  constructor
  · intro h
    have hclass : ∀ i, f.top i = f.top a ∨ f.top i = f.top b →
        Relation.EqvGen (fun k l => f.Joined k l ∨ k = a ∧ l = b) i a := by
      rintro i (hi | hi)
      · exact .rel _ _ (Or.inl hi)
      · exact .trans _ _ _ (.rel _ _ (Or.inl hi)) (.symm _ _ (.rel _ _ (Or.inr ⟨rfl, rfl⟩)))
    have hmin : ∀ k, min (f.top a) (f.top b) = f.top k →
        f.top k = f.top a ∨ f.top k = f.top b := by
      intro k hk
      rw [← hk]
      exact min_choice _ _
    rw [Joined, top_union, top_union] at h
    split_ifs at h with hi hj hj
    · exact .trans _ _ _ (hclass i hi) (.symm _ _ (hclass j hj))
    · exact absurd (hmin j h) hj
    · exact absurd (hmin i h.symm) hi
    · exact .rel _ _ (Or.inl h)
  · intro h
    apply (f.union a b).joined_equivalence.eqvGen_iff.mp (h.mono _)
    intro k l hkl
    rw [Joined, top_union, top_union]
    rcases hkl with hkl | ⟨rfl, rfl⟩
    · rw [hkl]
    · rw [if_pos (Or.inl rfl), if_pos (Or.inr rfl)]

/-- When to join two makes the classes that they and the classes before generate, to join pairs one
after the other makes those that the pairs generate. -/
theorem eqvGen_foldl {σ α : Type*} {joined : σ → α → α → Prop} {union : σ → α → α → σ}
    (hequiv : ∀ f, Equivalence (joined f))
    (hunion : ∀ f a b i j, joined (union f a b) i j ↔
      Relation.EqvGen (fun k l => joined f k l ∨ k = a ∧ l = b) i j)
    (pairs : List (α × α)) (f : σ) (i j : α) :
  joined (pairs.foldl (fun f pair => union f pair.1 pair.2) f) i j ↔
    Relation.EqvGen (fun k l => joined f k l ∨ (k, l) ∈ pairs) i j
  := by
  induction pairs generalizing f with
  | nil =>
      constructor
      · exact fun h => .rel _ _ (Or.inl h)
      · intro h
        apply (hequiv f).eqvGen_iff.mp (h.mono _)
        exact fun k l hkl => hkl.resolve_right List.not_mem_nil
  | cons pair pairs ih =>
      obtain ⟨a, b⟩ := pair
      rw [List.foldl_cons, ih]
      constructor
      · apply eqvGen_le
        rintro k l (hkl | hkl)
        · apply ((hunion f a b k l).mp hkl).mono
          rintro k l (hkl | ⟨rfl, rfl⟩)
          · exact Or.inl hkl
          · exact Or.inr List.mem_cons_self
        · exact .rel _ _ (Or.inr (List.mem_cons_of_mem _ hkl))
      · apply eqvGen_le
        rintro k l (hkl | hkl)
        · exact .rel _ _ (Or.inl ((hunion f a b k l).mpr (.rel _ _ (Or.inl hkl))))
        · rcases List.mem_cons.mp hkl with heq | hkl
          · cases heq
            exact .rel _ _ (Or.inl ((hunion f a b a b).mpr (.rel _ _ (Or.inr ⟨rfl, rfl⟩))))
          · exact .rel _ _ (Or.inr hkl)

/-- Pairs that are joined one after the other are joined all together. -/
theorem joined_foldl (pairs : List (Fin n × Fin n)) (f : Forest n) (i j : Fin n) :
  (pairs.foldl (fun f pair => f.union pair.1 pair.2) f).Joined i j ↔
    Relation.EqvGen (fun k l => f.Joined k l ∨ (k, l) ∈ pairs) i j
  := eqvGen_foldl joined_equivalence joined_union pairs f i j

/-- Each pair of numbers is looked at, and joined if it should be. -/
def joinWhere (joins : Fin n → Fin n → Bool) : Forest n :=
  (List.finRange n).foldl (fun f a => ((List.finRange n).filter (a < ·)).foldl
    (fun f b => if joins a b then f.union a b else f) f) (discrete n)

/-- The classes are those that the pairs generate. -/
theorem joined_joinWhere (joins : Fin n → Fin n → Bool) (i j : Fin n) :
  (joinWhere joins).Joined i j ↔
    Relation.EqvGen (fun k l => k < l ∧ joins k l = true) i j
  := by
  have hpairs : joinWhere joins = ((List.finRange n).flatMap fun a =>
      (((List.finRange n).filter (a < ·)).filter fun b => joins a b).map fun b => (a, b)).foldl
        (fun f pair => f.union pair.1 pair.2) (discrete n) := by
    rw [List.foldl_flatMap, joinWhere]
    simp only [List.foldl_map, List.foldl_filter]
  rw [hpairs, joined_foldl]
  have hrel : ∀ k l : Fin n, ((discrete n).Joined k l ∨ (k, l) ∈ (List.finRange n).flatMap fun a =>
      (((List.finRange n).filter (a < ·)).filter fun b => joins a b).map fun b => (a, b)) ↔
        k = l ∨ k < l ∧ joins k l = true := by
    intro k l
    rw [Joined, top_discrete, top_discrete]
    simp [and_comm]
  simp only [hrel]
  constructor
  · apply eqvGen_le
    rintro k l (rfl | hkl)
    · exact .refl k
    · exact .rel _ _ hkl
  · exact fun h => h.mono fun k l hkl => Or.inr hkl

/-- The top of a number is the least one of its class. -/
theorem isLeast_top (f : Forest n) (i : Fin n) :
  IsLeast {j | f.Joined i j} (f.top i)
  := by
  constructor
  · exact (f.top_top i).symm
  · intro j hj
    have heq : f.top i = f.top j := hj
    rw [heq]
    exact f.top_le j

end Forest
