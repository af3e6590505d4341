import OpenLoops.Library.Forest
import OpenLoops.Library.Table

/-!
# Numbers that point to each other

The first numbers are in classes: each points to itself or to another one of its class, and to
follow the pointers comes to an end.  Which number of a class the pointers lead to depends on how
the classes were joined.
-/

/-- The first numbers, each with the one that it points to. -/
structure Pointers (n : ℕ) where
  parent : Fin n → Fin n
  grounded : WellFounded fun j i => parent i = j ∧ j ≠ i

namespace Pointers

variable {n : ℕ}

/-- Each number is alone. -/
def discrete (n : ℕ) : Pointers n where
  parent := id
  grounded := by
    apply WellFounded.intro
    intro i
    apply Acc.intro
    rintro j ⟨rfl, hne⟩
    exact absurd rfl hne

/-- Where the pointers lead to. -/
def top (f : Pointers n) (i : Fin n) : Fin n :=
  if f.parent i = i then i else f.top (f.parent i)
termination_by f.grounded.wrap i
decreasing_by exact ⟨rfl, ‹_›⟩

/-- Let a number point to a root. -/
def point (f : Pointers n) (x r : Fin n) (hroot : f.parent r = r) (hne : r ≠ x) : Pointers n where
  parent i := if i = x then r else f.parent i
  grounded := by
    have hr : Acc (fun j i => (if i = x then r else f.parent i) = j ∧ j ≠ i) r := by
      apply Acc.intro
      rintro j ⟨hj, hjr⟩
      rw [if_neg hne, hroot] at hj
      exact absurd hj.symm hjr
    apply WellFounded.intro
    intro i
    induction i using f.grounded.induction with
    | _ i ih =>
        apply Acc.intro
        rintro j ⟨hj, hji⟩
        split_ifs at hj with hi
        · exact hj ▸ hr
        · exact ih j ⟨hj, hji⟩

/-- Follow the pointers, and let each number on the way point to their end, which is a root; the
roots stay roots. -/
def find (f : Pointers n) (i : Fin n) :
    {p : Fin n × Pointers n // f.parent p.1 = p.1 ∧ ∀ j, f.parent j = j → p.2.parent j = j} :=
  if h : f.parent i = i then ⟨(i, f), h, fun _ hj => hj⟩
  else
    let ⟨(r, f'), hroot, hkeeps⟩ := f.find (f.parent i)
    have hne : r ≠ i := fun hr => h (hr ▸ hroot)
    have hkeeps' : ∀ j, f.parent j = j → (f'.point i r (hkeeps r hroot) hne).parent j = j := by
      intro j hj
      have hji : j ≠ i := fun hji => h (hji ▸ hj)
      rw [point]
      dsimp only
      rw [if_neg hji]
      exact hkeeps j hj
    ⟨(r, f'.point i r (hkeeps r hroot) hne), hroot, hkeeps'⟩
termination_by f.grounded.wrap i
decreasing_by exact ⟨rfl, h⟩

/-- Join two classes: the root of the second one points to that of the first one. -/
def union (f : Pointers n) (a b : Fin n) : Pointers n :=
  let ⟨(ra, f), hroot, hkeeps⟩ := f.find a
  let ⟨(rb, f), _, hkeeps'⟩ := f.find b
  if h : ra = rb then f else f.point rb ra (hkeeps' ra (hkeeps ra hroot)) h

/-! ### Tops -/

theorem top_of_eq {f : Pointers n} {i : Fin n} (h : f.parent i = i) :
  f.top i = i
  := by
  rw [top, if_pos h]

theorem top_parent (f : Pointers n) (i : Fin n) :
  f.top (f.parent i) = f.top i
  := by
  by_cases h : f.parent i = i
  · rw [h]
  · rw [Pointers.top.eq_1 f i, if_neg h]

/-- A map that is the same at a number and where it points to is the top. -/
theorem top_eq {f : Pointers n} {g : Fin n → Fin n} (hroot : ∀ i, f.parent i = i → g i = i)
    (hparent : ∀ i, f.parent i ≠ i → g i = g (f.parent i)) (i : Fin n) :
  f.top i = g i
  := by
  induction i using f.grounded.induction with
  | _ i ih =>
      by_cases h : f.parent i = i
      · rw [top_of_eq h, hroot i h]
      · rw [← top_parent, ih _ ⟨rfl, h⟩, hparent i h]

theorem parent_top (f : Pointers n) (i : Fin n) :
  f.parent (f.top i) = f.top i
  := by
  induction i using f.grounded.induction with
  | _ i ih =>
      by_cases h : f.parent i = i
      · rw [top_of_eq h, h]
      · rw [← top_parent]
        exact ih _ ⟨rfl, h⟩

theorem top_top (f : Pointers n) (i : Fin n) :
  f.top (f.top i) = f.top i
  := top_of_eq (f.parent_top i)

theorem top_discrete (i : Fin n) :
  (discrete n).top i = i
  := top_of_eq rfl

section

variable {f : Pointers n} {x r : Fin n} (hroot : f.parent r = r) (hne : r ≠ x)

theorem point_parent_self :
  (f.point x r hroot hne).parent x = r
  := if_pos rfl

theorem point_parent_of_ne {i : Fin n} (h : i ≠ x) :
  (f.point x r hroot hne).parent i = f.parent i
  := if_neg h

/-- A number that points to the root of its class keeps the classes. -/
theorem top_point_same (htop : f.top x = r) :
  (f.point x r hroot hne).top = f.top
  := by
  funext i
  apply top_eq
  · intro i hi
    by_cases hix : i = x
    · rw [hix, point_parent_self] at hi
      exact absurd hi hne
    · rw [point_parent_of_ne hroot hne hix] at hi
      exact top_of_eq hi
  · intro i _
    by_cases hix : i = x
    · rw [hix, point_parent_self, top_of_eq hroot, htop]
    · rw [point_parent_of_ne hroot hne hix, top_parent]

/-- A root that points to another root brings its class along. -/
theorem top_point_root (hx : f.parent x = x) (i : Fin n) :
  (f.point x r hroot hne).top i = if f.top i = x then r else f.top i
  := by
  apply @top_eq n _ fun i => if f.top i = x then r else f.top i
  · intro i hi
    by_cases hix : i = x
    · rw [hix, point_parent_self] at hi
      exact absurd hi hne
    · rw [point_parent_of_ne hroot hne hix] at hi
      rw [top_of_eq hi, if_neg hix]
  · intro i _
    by_cases hix : i = x
    · rw [hix, point_parent_self, if_pos (top_of_eq hx), top_of_eq hroot, ite_self]
    · rw [point_parent_of_ne hroot hne hix, top_parent]

end

/-- Following the pointers leads to the top and keeps the classes. -/
theorem find_spec (f : Pointers n) (i : Fin n) :
  (f.find i).1.1 = f.top i ∧ (f.find i).1.2.top = f.top
  := by
  induction i using f.grounded.induction with
  | _ i ih =>
      by_cases h : f.parent i = i
      · rw [find, dif_pos h]
        exact ⟨(top_of_eq h).symm, rfl⟩
      · obtain ⟨hfound, htops⟩ := ih _ ⟨rfl, h⟩
        rw [top_parent] at hfound
        rw [find, dif_neg h]
        rcases hfind : f.find (f.parent i) with ⟨⟨r, f'⟩, hroot, hkeeps⟩
        rw [hfind] at hfound htops
        use hfound
        dsimp only at htops hfound ⊢
        rw [top_point_same, htops]
        rw [htops, hfound]

/-- Two classes that are joined have the root of the first one. -/
theorem top_union (f : Pointers n) (a b i : Fin n) :
  (f.union a b).top i = if f.top i = f.top b then f.top a else f.top i
  := by
  obtain ⟨hra, htop⟩ := f.find_spec a
  rw [union]
  rcases hfind : f.find a with ⟨⟨ra, g⟩, hroot, hkeeps⟩
  rw [hfind] at hra htop
  obtain ⟨hrb, htop'⟩ := g.find_spec b
  dsimp only at hra htop ⊢
  rcases hfind' : g.find b with ⟨⟨rb, g'⟩, hroot', hkeeps'⟩
  rw [hfind', htop] at hrb htop'
  dsimp only at hrb htop' ⊢
  subst hra hrb
  have hb : g'.parent (f.top b) = f.top b := by
    rw [← htop']
    apply parent_top
  split_ifs with heq hi hi
  · rw [htop', hi, heq]
  · rw [htop']
  · rw [top_point_root _ _ hb, htop', if_pos hi]
  · rw [top_point_root _ _ hb, htop', if_neg hi]

/-! ### Classes -/

/-- The numbers are of one class. -/
def Joined (f : Pointers n) (i j : Fin n) : Prop :=
  f.top i = f.top j

theorem joined_equivalence (f : Pointers n) :
  Equivalence f.Joined
  := ⟨fun _ => rfl, fun h => h.symm, fun h h' => h.trans h'⟩

/-- What is joined after two numbers are is what was before, and what is joined through them. -/
theorem joined_union (f : Pointers n) (a b i j : Fin n) :
  (f.union a b).Joined i j ↔ Relation.EqvGen (fun k l => f.Joined k l ∨ k = a ∧ l = b) i j
  := by
  constructor
  · intro h
    have hstep : ∀ i, Relation.EqvGen (fun k l => f.Joined k l ∨ k = a ∧ l = b) i
        ((f.union a b).top i) := by
      intro i
      rw [top_union]
      split_ifs with hi
      · apply Relation.EqvGen.trans _ b
        · exact .rel _ _ (Or.inl hi)
        · apply Relation.EqvGen.trans _ a
          · exact .symm _ _ (.rel _ _ (Or.inr ⟨rfl, rfl⟩))
          · exact .rel _ _ (Or.inl (f.top_top a).symm)
      · exact .rel _ _ (Or.inl (f.top_top i).symm)
    have hij : (f.union a b).top i = (f.union a b).top j := h
    exact .trans _ _ _ (hstep i) (hij ▸ .symm _ _ (hstep j))
  · intro h
    apply (f.union a b).joined_equivalence.eqvGen_iff.mp (h.mono _)
    intro k l hkl
    rw [Joined, top_union, top_union]
    rcases hkl with hkl | ⟨rfl, rfl⟩
    · rw [hkl]
    · rw [if_pos rfl]
      split_ifs <;> rfl

/-- Pairs that are joined one after the other are joined all together. -/
theorem joined_foldl (pairs : List (Fin n × Fin n)) (f : Pointers n) (i j : Fin n) :
  (pairs.foldl (fun f pair => f.union pair.1 pair.2) f).Joined i j ↔
    Relation.EqvGen (fun k l => f.Joined k l ∨ (k, l) ∈ pairs) i j
  := Forest.eqvGen_foldl joined_equivalence joined_union pairs f i j

/-- The pairs that are joined to numbers that are alone generate the classes. -/
theorem joined_foldl_discrete (pairs : List (Fin n × Fin n)) (i j : Fin n) :
  (pairs.foldl (fun f pair => f.union pair.1 pair.2) (discrete n)).Joined i j ↔
    Relation.EqvGen (fun k l => (k, l) ∈ pairs) i j
  := by
  rw [joined_foldl]
  constructor
  · apply Forest.eqvGen_le
    rintro k l (hkl | hkl)
    · rw [Joined, top_discrete, top_discrete] at hkl
      exact hkl ▸ .refl k
    · exact .rel _ _ hkl
  · exact fun h => h.mono fun k l hkl => Or.inr hkl

/-! ### Members of classes -/

/-- The numbers of each class, by its root. -/
def classes (f : Pointers n) : Table (Fin n) (List (Fin n)) :=
  ((List.finRange n).foldl (fun state i =>
    let ⟨(root, f), _⟩ := state.1.find i
    (f, state.2.alter root fun members => members.getD [] ++ [i])) (f, Table.empty)).2

/-- The numbers are grouped by what the pointers lead to. -/
theorem classes_eq (f : Pointers n) :
  f.classes = Table.group f.top [] (fun members i => members ++ [i]) (List.finRange n)
  := by
  have hfold : ∀ (l : List (Fin n)) (g : Pointers n) (t : Table (Fin n) (List (Fin n))),
      g.top = f.top → (l.foldl (fun state i =>
        let ⟨(root, f), _⟩ := state.1.find i
        (f, state.2.alter root fun members => members.getD [] ++ [i])) (g, t)).2
      = l.foldl (fun t i => t.alter (f.top i) fun members => members.getD [] ++ [i]) t := by
    intro l
    induction l with
    | nil =>
        intro g t _
        rfl
    | cons i l ih =>
        intro g t hg
        obtain ⟨hfound, htops⟩ := g.find_spec i
        rw [List.foldl_cons, List.foldl_cons]
        dsimp only
        rw [ih _ _ (htops.trans hg), hfound, hg]
  exact hfold _ f _ rfl

end Pointers
