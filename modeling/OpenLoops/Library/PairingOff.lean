import Mathlib.Data.List.Basic
import Mathlib.Data.List.Count
import Mathlib.Data.List.Induction
import Mathlib.Data.List.MinMax
import Mathlib.Order.Basic
import Mathlib.Data.List.Nodup
import Mathlib.Data.List.Perm.Basic
import Mathlib.Tactic.Common

/-!
# Pairing off

A list is paired off when each element in turn is struck out with the first later one that
opposes it, if there is one.  Where elements oppose each other when their keys differ, what is
left over are equal keys, and whether some are depends on the order of the list, unless the
keys are pairwise different or are two keys that come equally often.
-/

namespace PairingOff

/-! ### What is left over -/

section

variable {β : Type*} [DecidableEq β]

/-- One more key: it cancels a key left over so far that differs from it. -/
def push : List β → β → List β
  | [], x => [x]
  | y :: ys, x => if x = y then x :: y :: ys else ys

/-- The keys left over when they are paired off with different ones. -/
def leftover (xs : List β) : List β :=
  xs.foldl push []

theorem leftover_concat (xs : List β) (x : β) :
  leftover (xs ++ [x]) = push (leftover xs) x
  := by simp [leftover]

theorem push_replicate_self (n : ℕ) (x : β) :
  push (List.replicate n x) x = List.replicate (n + 1) x
  := by
  cases n with
  | zero => rfl
  | succ n =>
      rw [List.replicate_succ, push, if_pos rfl]
      rfl

theorem push_replicate_of_ne {x y : β} (hne : x ≠ y) (n : ℕ) :
  push (List.replicate (n + 1) y) x = List.replicate n y
  := by
  rw [List.replicate_succ, push, if_neg hne]

/-- The keys left over are equal. -/
theorem exists_leftover_eq_replicate [Inhabited β] (xs : List β) :
  ∃ n x, leftover xs = List.replicate n x
  := by
  induction xs using List.reverseRecOn with
  | nil => exact ⟨0, default, rfl⟩
  | append_singleton xs x ih =>
      obtain ⟨n, y, hy⟩ := ih
      rw [leftover_concat, hy]
      by_cases hxy : x = y
      · subst hxy
        exact ⟨n + 1, x, push_replicate_self n x⟩
      · cases n with
        | zero => exact ⟨1, x, rfl⟩
        | succ n => exact ⟨n, y, push_replicate_of_ne hxy n⟩

/-- Equal keys are all left over after equal ones. -/
theorem foldl_push_replicate_self (n k : ℕ) (x : β) :
  (List.replicate k x).foldl push (List.replicate n x) = List.replicate (n + k) x
  := by
  induction k generalizing n with
  | zero => rfl
  | succ k ih =>
      rw [List.replicate_succ, List.foldl_cons, push_replicate_self, ih]
      congr 1
      omega

/-- Equal keys are all left over. -/
theorem leftover_replicate (k : ℕ) (x : β) :
  leftover (List.replicate k x) = List.replicate k x
  := by
  have h := foldl_push_replicate_self 0 k x
  rw [Nat.zero_add] at h
  exact h

/-- Equal keys cancel as many different ones, and the others of them are left over. -/
theorem length_foldl_push_replicate {x y : β} (hne : x ≠ y) (n k : ℕ) :
  ((List.replicate k x).foldl push (List.replicate n y)).length = (n - k) + (k - n)
  := by
  induction k generalizing n with
  | zero => simp
  | succ k ih =>
      rw [List.replicate_succ, List.foldl_cons]
      cases n with
      | zero =>
          have hone : push (List.replicate 0 y) x = List.replicate 1 x := rfl
          rw [hone, foldl_push_replicate_self, List.length_replicate]
          omega
      | succ n =>
          rw [push_replicate_of_ne hne, ih]
          omega

/-- The keys left over come as often as they are left over. -/
theorem count_leftover_le (xs : List β) (x : β) :
  (leftover xs).count x ≤ xs.count x
  := by
  induction xs using List.reverseRecOn with
  | nil => exact le_rfl
  | append_singleton xs y ih =>
      rw [leftover_concat, List.count_append]
      rcases hleft : leftover xs with _ | ⟨z, zs⟩
      · rw [push]
        omega
      · rw [hleft] at ih
        rw [push]
        by_cases hyz : y = z
        · rw [if_pos hyz, List.count_cons, List.count_singleton]
          omega
        · rw [if_neg hyz]
          rw [List.count_cons] at ih
          omega

/-- Keys are struck out two at a time. -/
theorem length_leftover_mod_two (xs : List β) :
  (leftover xs).length % 2 = xs.length % 2
  := by
  induction xs using List.reverseRecOn with
  | nil => rfl
  | append_singleton xs y ih =>
      rw [leftover_concat, List.length_append, List.length_singleton]
      rcases hleft : leftover xs with _ | ⟨z, zs⟩
      · rw [hleft, List.length_nil] at ih
        rw [push, List.length_singleton]
        omega
      · rw [hleft, List.length_cons] at ih
        rw [push]
        by_cases hyz : y = z
        · rw [if_pos hyz, List.length_cons, List.length_cons]
          omega
        · rw [if_neg hyz]
          omega

/-- Of two keys the same number is struck out. -/
theorem count_leftover_of_two {a b : β} (hab : a ≠ b) {xs : List β}
    (h : ∀ x ∈ xs, x = a ∨ x = b) :
  (leftover xs).count a + xs.count b = (leftover xs).count b + xs.count a
    ∧ ∀ x ∈ leftover xs, x = a ∨ x = b
  := by
  induction xs using List.reverseRecOn with
  | nil => simp [leftover]
  | append_singleton xs y ih =>
      obtain ⟨hcount, htwo⟩ := ih fun x hx => h x (List.mem_append_left _ hx)
      have hy := h y (List.mem_append_right _ (List.mem_singleton_self y))
      rw [leftover_concat, List.count_append, List.count_append]
      rcases hleft : leftover xs with _ | ⟨z, zs⟩
      · rw [hleft] at hcount
        rw [push]
        constructor
        · simp only [List.count_nil] at hcount
          omega
        · intro x hx
          rw [List.mem_singleton.mp hx]
          exact hy
      · rw [hleft] at hcount htwo
        have hz := htwo z List.mem_cons_self
        rw [List.count_cons, List.count_cons] at hcount
        rw [push]
        by_cases hyz : y = z
        · rw [if_pos hyz]
          constructor
          · simp only [List.count_cons, List.count_nil]
            omega
          · intro x hx
            rcases List.mem_cons.mp hx with rfl | hx
            · exact hy
            · exact htwo x hx
        · rw [if_neg hyz]
          constructor
          · rcases hy with rfl | rfl
            · rcases hz with rfl | rfl
              · exact absurd rfl hyz
              · simp only [List.count_singleton, beq_iff_eq, hab, hab.symm, if_true,
                  if_false] at *
                omega
            · rcases hz with rfl | rfl
              · simp only [List.count_singleton, beq_iff_eq, hab, hab.symm, if_true,
                  if_false] at *
                omega
              · exact absurd rfl hyz
          · intro x hx
            exact htwo x (List.mem_cons_of_mem z hx)

/-! ### Every order -/

/-- The keys are of an even number, and they are pairwise different or two keys that come equally
often. -/
def Balanced (xs : List β) : Prop :=
  xs.length % 2 = 0
    ∧ (xs.Nodup ∨ ∃ a b, a ≠ b ∧ (∀ x ∈ xs, x = a ∨ x = b) ∧ xs.count a = xs.count b)

/-- Nothing is left over of balanced keys. -/
theorem Balanced.leftover_eq_nil {xs : List β} (h : Balanced xs) :
  leftover xs = []
  := by
  obtain ⟨heven, hkeys⟩ := h
  rcases hleft : leftover xs with _ | ⟨x, rest⟩
  · rfl
  · have : Inhabited β := ⟨x⟩
    obtain ⟨n, y, hy⟩ := exists_leftover_eq_replicate xs
    have hn : n ≠ 0 := by
      rintro rfl
      rw [hleft] at hy
      cases hy
    rcases hkeys with hnodup | ⟨a, b, hab, htwo, hcount⟩
    · have hle := count_leftover_le xs y
      have hmod := length_leftover_mod_two xs
      have hone := List.nodup_iff_count_le_one.mp hnodup y
      rw [hy, List.count_replicate_self] at hle
      rw [hy, List.length_replicate] at hmod
      omega
    · obtain ⟨hcounts, hleftTwo⟩ := count_leftover_of_two hab htwo
      have hyTwo : y = a ∨ y = b := by
        apply hleftTwo
        rw [hy]
        exact List.mem_replicate.mpr ⟨hn, rfl⟩
      rw [hy] at hcounts
      rcases hyTwo with rfl | rfl
      · rw [List.count_replicate_self, List.count_replicate, beq_eq_false_iff_ne.mpr hab] at hcounts
        simp only [Bool.false_eq_true, if_false] at hcounts
        omega
      · rw [List.count_replicate_self, List.count_replicate,
          beq_eq_false_iff_ne.mpr hab.symm] at hcounts
        simp only [Bool.false_eq_true, if_false] at hcounts
        omega

/-- An order of balanced keys is balanced. -/
theorem Balanced.perm {xs ys : List β} (h : Balanced xs) (hperm : ys.Perm xs) :
  Balanced ys
  := by
  obtain ⟨heven, hkeys⟩ := h
  constructor
  · rw [hperm.length_eq]
    exact heven
  · rcases hkeys with hnodup | ⟨a, b, hab, htwo, hcount⟩
    · left
      apply hperm.nodup_iff.mpr hnodup
    · right
      refine ⟨a, b, hab, ?_, ?_⟩
      · intro x hx
        apply htwo x (hperm.mem_iff.mp hx)
      · rw [hperm.count_eq, hperm.count_eq]
        exact hcount

/-- A list without a key, and then the key as often as it was there, is an order of the list. -/
theorem perm_filter_append_replicate (xs : List β) (a : β) :
  (xs.filter (· ≠ a) ++ List.replicate (xs.count a) a).Perm xs
  := by
  rw [List.perm_iff_count]
  intro x
  rw [List.count_append, List.count_replicate]
  by_cases hx : x = a
  · subst hx
    rw [List.count_eq_zero.mpr (by simp)]
    simp
  · rw [List.count_filter (by simpa using hx), if_neg (by simpa using fun h => hx h.symm)]
    rfl

/-- What is left over when a key that was not there comes last. -/
theorem length_leftover_append_replicate [Inhabited β] {xs : List β} {x : β} (hx : x ∉ xs)
    (k : ℕ) :
  (leftover (xs ++ List.replicate k x)).length
    = ((leftover xs).length - k) + (k - (leftover xs).length)
  := by
  obtain ⟨n, y, hy⟩ := exists_leftover_eq_replicate xs
  rw [leftover, List.foldl_append]
  rw [leftover] at hy
  rw [leftover, hy, List.length_replicate]
  by_cases hxy : x = y
  · subst hxy
    have hle := count_leftover_le xs x
    rw [leftover, hy, List.count_replicate_self, List.count_eq_zero.mpr hx] at hle
    obtain rfl := Nat.le_zero.mp hle
    rw [foldl_push_replicate_self, List.length_replicate]
    omega
  · apply length_foldl_push_replicate hxy

/-- Two different keys at the beginning cancel. -/
theorem leftover_cons_cons {x y : β} (hne : x ≠ y) (xs : List β) :
  leftover (x :: y :: xs) = leftover xs
  := by
  rw [leftover, List.foldl_cons, List.foldl_cons, push, push, if_neg hne.symm]
  rfl

/-- A key that comes most often. -/
theorem exists_count_max {xs : List β} (hxs : xs ≠ []) :
  ∃ a ∈ xs, ∀ x, xs.count x ≤ xs.count a
  := by
  rcases hmax : xs.argmax xs.count with _ | a
  · exact absurd (List.argmax_eq_none.mp hmax) hxs
  · refine ⟨a, List.argmax_mem hmax, ?_⟩
    intro x
    by_cases hx : x ∈ xs
    · apply List.le_of_mem_argmax hx hmax
    · rw [List.count_eq_zero.mpr hx]
      apply Nat.zero_le

/-- Nothing is left over in any order exactly when the keys are balanced. -/
theorem forall_leftover_eq_nil_iff {xs : List β} :
  (∀ ys : List β, ys.Perm xs → leftover ys = []) ↔ Balanced xs
  := by
  constructor
  · intro hall
    have heven : xs.length % 2 = 0 := by
      rw [← length_leftover_mod_two, hall xs (List.Perm.refl xs)]
      rfl
    refine ⟨heven, ?_⟩
    by_cases hnodup : xs.Nodup
    · exact Or.inl hnodup
    right
    have hxs : xs ≠ [] := by
      rintro rfl
      exact hnodup List.nodup_nil
    obtain ⟨a, ha, hmax⟩ := exists_count_max hxs
    have : Inhabited β := ⟨a⟩
    have htwo : 2 ≤ xs.count a := by
      rw [List.nodup_iff_count_le_one, not_forall] at hnodup
      obtain ⟨x, hx⟩ := hnodup
      have := hmax x
      omega
    set others := xs.filter (· ≠ a) with hothers
    -- in every order the others leave over as many as there are of the key
    have hlength : ∀ ys : List β, ys.Perm others → (leftover ys).length = xs.count a := by
      intro ys hys
      have hnil := hall (ys ++ List.replicate (xs.count a) a)
        ((hys.append_right _).trans (perm_filter_append_replicate xs a))
      have hnot : a ∉ ys := by
        rw [hys.mem_iff, hothers]
        simp
      have hsum := length_leftover_append_replicate hnot (xs.count a)
      rw [hnil, List.length_nil] at hsum
      omega
    obtain ⟨b, hb⟩ : ∃ b, b ∈ others := by
      apply List.exists_mem_of_ne_nil
      intro hnone
      have := hlength [] (by rw [hnone])
      rw [leftover, List.foldl_nil, List.length_nil] at this
      omega
    have hba : b ≠ a := by
      rw [hothers] at hb
      simpa using (List.mem_filter.mp hb).2
    have hcountOthers : ∀ x, others.count x ≤ xs.count a := by
      intro x
      exact (List.Sublist.count_le x List.filter_sublist).trans (hmax x)
    have hleftLe : ∀ ys : List β, ys.Sublist others → (leftover ys).length ≤ xs.count a := by
      intro ys hys
      obtain ⟨n, z, hz⟩ := exists_leftover_eq_replicate ys
      have hle := count_leftover_le ys z
      rw [hz, List.count_replicate_self] at hle
      rw [hz, List.length_replicate]
      exact (hle.trans (hys.count_le z)).trans (hcountOthers z)
    set rest := others.filter (· ≠ b) with hrest
    have hrestNot : b ∉ rest := by
      rw [hrest]
      simp
    have hbPos : 0 < others.count b := List.count_pos_iff.mpr hb
    rcases hr : rest with _ | ⟨r, rest'⟩
    · -- the others are all of one key
      have hperm := perm_filter_append_replicate others b
      rw [← hrest, hr, List.nil_append] at hperm
      have hcount := hlength _ hperm
      rw [leftover_replicate, List.length_replicate] at hcount
      refine ⟨a, b, hba.symm, ?_, ?_⟩
      · intro x hx
        by_cases hxa : x = a
        · exact Or.inl hxa
        · right
          have hmem : x ∈ others := List.mem_filter.mpr ⟨hx, by simpa using hxa⟩
          exact (List.mem_replicate.mp (hperm.mem_iff.mpr hmem)).2
      · rw [← hcount, hothers, List.count_filter (by simpa using hba)]
    · exfalso
      rw [hr] at hrestNot
      have hrb : r ≠ b := by
        rintro rfl
        exact hrestNot List.mem_cons_self
      have hperm := perm_filter_append_replicate others b
      rw [← hrest, hr] at hperm
      have hsub : (r :: rest').Sublist others := by
        rw [← hr, hrest]
        exact List.filter_sublist
      have hbLe := hcountOthers b
      -- when the key comes last, all of it is left over
      have hlast := hlength _ hperm
      rw [length_leftover_append_replicate hrestNot] at hlast
      have hrestLe := hleftLe _ hsub
      have hrestNil : (leftover (r :: rest')).length = 0 := by omega
      have hall' : others.count b = xs.count a := by omega
      -- when one of it cancels the first of the rest, something else is left over
      obtain ⟨k, hk⟩ : ∃ k, others.count b = k + 1 := Nat.exists_eq_succ_of_ne_zero (by omega)
      have hfirst : (b :: r :: (rest' ++ List.replicate k b)).Perm others := by
        refine List.Perm.trans ?_ hperm
        rw [hk, List.perm_iff_count]
        intro x
        simp only [List.count_cons, List.count_append, List.replicate_succ]
        omega
      have hfirstLength := hlength _ hfirst
      rw [leftover_cons_cons hrb.symm,
        length_leftover_append_replicate (fun h => hrestNot (List.mem_cons_of_mem r h))]
        at hfirstLength
      have hodd := length_leftover_mod_two rest'
      have hrestEven := length_leftover_mod_two (r :: rest')
      rw [hrestNil, List.length_cons] at hrestEven
      have hrestLe' := hleftLe rest' ((List.sublist_cons_self r rest').trans hsub)
      omega
  · intro h ys hys
    apply (h.perm hys).leftover_eq_nil

end

/-! ### Striking out -/

section

variable {α β : Type*} (opposes : α → α → Prop)

/-- What stays of a list when each element in turn is struck out with the first later one that it
opposes, if there is one. -/
inductive PairedOff : List α → List α → Prop where
  | nil : PairedOff [] []
  | keep {x : α} {xs ys : List α} (hnone : ∀ y ∈ xs, ¬ opposes x y) (hrest : PairedOff xs ys) :
      PairedOff (x :: xs) (x :: ys)
  | strike {x y : α} {before after ys : List α} (hnone : ∀ z ∈ before, ¬ opposes x z)
      (hopposes : opposes x y) (hrest : PairedOff (before ++ after) ys) :
      PairedOff (x :: (before ++ y :: after)) ys

variable {opposes}

/-- What stays was there, in the same order. -/
theorem PairedOff.sublist {xs ys : List α} (h : PairedOff opposes xs ys) :
  ys.Sublist xs
  := by
  induction h with
  | nil => exact List.Sublist.refl []
  | keep hnone hrest ih => exact ih.cons_cons _
  | strike hnone hopposes hrest ih =>
      apply List.Sublist.cons
      apply ih.trans
      apply List.Sublist.append_left
      apply List.sublist_cons_self

variable [DecidableEq β]

/-- Equal keys leave the others as they are, when one different key follows. -/
theorem leftover_cons_replicate_cons {x y : β} (hne : y ≠ x) (n : ℕ) (rest : List β) :
  leftover (x :: (List.replicate n x ++ y :: rest)) = leftover (List.replicate n x ++ rest)
  := by
  have hfirst : (x :: List.replicate n x).foldl push [] = List.replicate (n + 1) x :=
    leftover_replicate (n + 1) x
  have hsame : (List.replicate n x).foldl push [] = List.replicate n x :=
    leftover_replicate n x
  rw [leftover, ← List.cons_append, List.foldl_append, hfirst, List.foldl_cons,
    push_replicate_of_ne hne, leftover, List.foldl_append, hsame]

/-- Where the members of a group oppose those of it that have other keys, the keys of the members
that stay are the ones left over. -/
theorem PairedOff.map_filter {p : α → Bool} {key : α → β} {xs ys : List α}
    (hopposes : ∀ x y, opposes x y → p x = p y ∧ key x ≠ key y)
    (hgroup : ∀ x y, p x = true → p y = true → key x ≠ key y → opposes x y)
    (h : PairedOff opposes xs ys) :
  (ys.filter p).map key = leftover ((xs.filter p).map key)
  := by
  -- the members of the group that a member does not oppose have its key
  have hkeys : ∀ (x : α) (zs : List α), p x = true → (∀ z ∈ zs, ¬ opposes x z) →
      (zs.filter p).map key = List.replicate (zs.filter p).length (key x) := by
    intro x zs hx hnone
    rw [List.eq_replicate_iff, List.length_map]
    refine ⟨rfl, ?_⟩
    intro k hk
    obtain ⟨z, hz, rfl⟩ := List.mem_map.mp hk
    obtain ⟨hz, hpz⟩ := List.mem_filter.mp hz
    by_contra hne
    exact hnone z hz (hgroup x z hx hpz (Ne.symm hne))
  induction h with
  | nil => rfl
  | @keep x xs ys hnone hrest ih =>
      rw [List.filter_cons, List.filter_cons]
      by_cases hx : p x = true
      · rw [if_pos hx, if_pos hx, List.map_cons, List.map_cons, ih, hkeys x xs hx hnone,
          leftover_replicate, ← List.replicate_succ, leftover_replicate]
      · rw [if_neg hx, if_neg hx, ih]
  | @strike x y before after ys hnone hstruck hrest ih =>
      obtain ⟨hsame, hne⟩ := hopposes x y hstruck
      rw [ih, List.filter_append, List.filter_cons, List.filter_append, List.filter_cons]
      by_cases hx : p x = true
      · rw [if_pos hx, if_pos (hsame ▸ hx), List.map_cons, List.map_append, List.map_append,
          List.map_cons, hkeys x before hx hnone, leftover_cons_replicate_cons hne.symm]
      · rw [if_neg hx, if_neg (hsame ▸ hx)]

/-- What is outside of all groups stays. -/
theorem PairedOff.filter_eq {p : α → Bool} {xs ys : List α}
    (hopposes : ∀ x y, opposes x y → p x = false ∧ p y = false) (h : PairedOff opposes xs ys) :
  ys.filter p = xs.filter p
  := by
  induction h with
  | nil => rfl
  | keep hnone hrest ih => rw [List.filter_cons, List.filter_cons, ih]
  | strike hnone hstruck hrest ih =>
      obtain ⟨hx, hy⟩ := hopposes _ _ hstruck
      rw [ih, List.filter_append, List.filter_cons, List.filter_append, List.filter_cons]
      rw [if_neg (by simp [hx]), if_neg (by simp [hy])]

/-- One more element: it cancels the first one left over so far, if their keys differ. -/
def pushOn (key : α → β) : List α → α → List α
  | [], x => [x]
  | y :: ys, x => if key x = key y then y :: ys ++ [x] else ys

/-- The elements left over when they are paired off with ones of different keys. -/
def leftoverOn (key : α → β) (xs : List α) : List α :=
  xs.foldl (pushOn key) []

/-- Elements of equal keys are all left over. -/
theorem foldl_pushOn_same {key : α → β} {k : β} {ys xs : List α} (hys : ∀ y ∈ ys, key y = k)
    (hxs : ∀ x ∈ xs, key x = k) :
  xs.foldl (pushOn key) ys = ys ++ xs
  := by
  induction xs generalizing ys with
  | nil => simp
  | cons x xs ih =>
      have hx := hxs x List.mem_cons_self
      have hpush : pushOn key ys x = ys ++ [x] := by
        cases ys with
        | nil => rfl
        | cons y ys => rw [pushOn, if_pos (hx.trans (hys y List.mem_cons_self).symm)]
      rw [List.foldl_cons, hpush, ih, List.append_assoc, List.singleton_append]
      · intro y hy
        rcases List.mem_append.mp hy with hy | hy
        · apply hys y hy
        · rw [List.mem_singleton.mp hy]
          exact hx
      · intro x' hx'
        apply hxs x' (List.mem_cons_of_mem x hx')

/-- Where the members of a group oppose those of it that have other keys, the members that stay are
the ones left over. -/
theorem PairedOff.filter_eq_leftoverOn {p : α → Bool} {key : α → β} {xs ys : List α}
    (hopposes : ∀ x y, opposes x y → p x = p y ∧ key x ≠ key y)
    (hgroup : ∀ x y, p x = true → p y = true → key x ≠ key y → opposes x y)
    (h : PairedOff opposes xs ys) :
  ys.filter p = leftoverOn key (xs.filter p)
  := by
  -- the members of the group that a member does not oppose have its key
  have hkeys : ∀ (x : α) (zs : List α), p x = true → (∀ z ∈ zs, ¬ opposes x z) →
      ∀ z ∈ zs.filter p, key z = key x := by
    intro x zs hx hnone z hz
    obtain ⟨hz, hpz⟩ := List.mem_filter.mp hz
    by_contra hne
    exact hnone z hz (hgroup x z hx hpz (Ne.symm hne))
  have hsame : ∀ {k : β} {zs : List α}, (∀ z ∈ zs, key z = k) → leftoverOn key zs = zs :=
    fun hzs => foldl_pushOn_same (fun _ h => absurd h List.not_mem_nil) hzs
  induction h with
  | nil => rfl
  | @keep x xs ys hnone hrest ih =>
      rw [List.filter_cons, List.filter_cons]
      by_cases hx : p x = true
      · have hall := hkeys x xs hx hnone
        rw [if_pos hx, if_pos hx, ih, hsame hall, hsame (k := key x)]
        intro z hz
        rcases List.mem_cons.mp hz with rfl | hz
        · rfl
        · apply hall z hz
      · rw [if_neg hx, if_neg hx, ih]
  | @strike x y before after ys hnone hstruck hrest ih =>
      obtain ⟨hboth, hne⟩ := hopposes x y hstruck
      rw [ih, List.filter_append, List.filter_cons, List.filter_append, List.filter_cons]
      by_cases hx : p x = true
      · -- the first one waits for the others of its key, and the one that it opposes cancels it
        have hall := hkeys x before hx hnone
        have hfirst : ∀ z ∈ [x], key z = key x := fun z hz => by rw [List.mem_singleton.mp hz]
        have hnil : ∀ z ∈ ([] : List α), key z = key x := fun z hz => absurd hz List.not_mem_nil
        rw [if_pos hx, if_pos (hboth ▸ hx), leftoverOn, leftoverOn, List.foldl_cons,
          List.foldl_append, List.foldl_append, List.foldl_cons, foldl_pushOn_same hnil hall,
          List.nil_append, pushOn, foldl_pushOn_same hfirst hall, List.singleton_append, pushOn,
          if_neg hne.symm]
      · rw [if_neg hx, if_neg (hboth ▸ hx)]

end

/-! ### Two loops -/

section

variable {α σ : Type*}

/-- The pairs of an element and a later one, in the order of two nested loops. -/
def pairsOf : List α → List (α × α)
  | [] => []
  | x :: xs => xs.map (x, ·) ++ pairsOf xs

theorem mem_of_mem_pairsOf {xs : List α} {pair : α × α} (hpair : pair ∈ pairsOf xs) :
  pair.1 ∈ xs ∧ pair.2 ∈ xs
  := by
  induction xs with
  | nil => cases hpair
  | cons x xs ih =>
      rw [pairsOf, List.mem_append] at hpair
      rcases hpair with hpair | hpair
      · obtain ⟨y, hy, rfl⟩ := List.mem_map.mp hpair
        exact ⟨List.mem_cons_self, List.mem_cons_of_mem x hy⟩
      · obtain ⟨hfirst, hsecond⟩ := ih hpair
        exact ⟨List.mem_cons_of_mem x hfirst, List.mem_cons_of_mem x hsecond⟩

/-- A step at a pair strikes out both, when both are there and the first opposes the second, and
does nothing otherwise. -/
structure Strikes (opposes : α → α → Prop) (live : σ → α → Prop) (step : σ → α × α → σ) : Prop where
  strike : ∀ s x y, live s x → live s y → opposes x y →
    ∀ z, live (step s (x, y)) z ↔ live s z ∧ z ≠ x ∧ z ≠ y
  idle : ∀ s x y, ¬ (live s x ∧ live s y ∧ opposes x y) → step s (x, y) = s

namespace Strikes

variable {opposes : α → α → Prop} {live : σ → α → Prop} {step : σ → α × α → σ}
  (h : Strikes opposes live step)
include h

/-- Without a pair to strike out nothing happens. -/
theorem foldl_idle {s : σ} {pairs : List (α × α)}
    (hidle : ∀ pair ∈ pairs, ¬ (live s pair.1 ∧ live s pair.2 ∧ opposes pair.1 pair.2)) :
  pairs.foldl step s = s
  := by
  induction pairs with
  | nil => rfl
  | cons pair pairs ih =>
      rw [List.foldl_cons, h.idle s pair.1 pair.2 (hidle pair List.mem_cons_self)]
      apply ih
      intro pair' hpair'
      apply hidle pair' (List.mem_cons_of_mem pair hpair')

/-- What is in none of the pairs stays as it is. -/
theorem live_foldl_iff {s : σ} {pairs : List (α × α)} {z : α}
    (hz : ∀ pair ∈ pairs, z ≠ pair.1 ∧ z ≠ pair.2) :
  live (pairs.foldl step s) z ↔ live s z
  := by
  induction pairs generalizing s with
  | nil => rfl
  | cons pair pairs ih =>
      obtain ⟨hfirst, hsecond⟩ := hz pair List.mem_cons_self
      rw [List.foldl_cons, ih fun pair' hpair' => hz pair' (List.mem_cons_of_mem pair hpair')]
      by_cases hstrike : live s pair.1 ∧ live s pair.2 ∧ opposes pair.1 pair.2
      · obtain ⟨hx, hy, hopposes⟩ := hstrike
        have hiff := h.strike s pair.1 pair.2 hx hy hopposes z
        rw [show (pair.1, pair.2) = pair from rfl] at hiff
        rw [hiff]
        exact ⟨fun hlive => hlive.1, fun hlive => ⟨hlive, hfirst, hsecond⟩⟩
      · have hsame := h.idle s pair.1 pair.2 hstrike
        rw [show (pair.1, pair.2) = pair from rfl] at hsame
        rw [hsame]

/-- What was struck out stays struck out. -/
theorem live_of_live_foldl {s : σ} {pairs : List (α × α)} {z : α}
    (hz : live (pairs.foldl step s) z) :
  live s z
  := by
  induction pairs generalizing s with
  | nil => exact hz
  | cons pair pairs ih =>
      rw [List.foldl_cons] at hz
      have hstep := ih hz
      by_cases hstrike : live s pair.1 ∧ live s pair.2 ∧ opposes pair.1 pair.2
      · obtain ⟨hx, hy, hopposes⟩ := hstrike
        exact ((h.strike s pair.1 pair.2 hx hy hopposes z).mp hstep).1
      · rw [show pair = (pair.1, pair.2) from rfl, h.idle s pair.1 pair.2 hstrike] at hstep
        exact hstep

/-- The inner loop strikes out its element with the first one there that it opposes. -/
theorem inner_loop {s : σ} {x : α} {xs : List α} (hx : live s x) (hnodup : xs.Nodup) :
  ((∀ y ∈ xs, live s y → ¬ opposes x y) ∧ (xs.map (x, ·)).foldl step s = s)
    ∨ ∃ before y after, xs = before ++ y :: after ∧ live s y ∧ opposes x y
      ∧ (∀ z ∈ before, live s z → ¬ opposes x z)
      ∧ ∀ z, live ((xs.map (x, ·)).foldl step s) z ↔ live s z ∧ z ≠ x ∧ z ≠ y
  := by
  induction xs with
  | nil => exact Or.inl ⟨fun y hy => absurd hy List.not_mem_nil, rfl⟩
  | cons w xs ih =>
      rw [List.map_cons, List.foldl_cons]
      by_cases hw : live s w ∧ opposes x w
      · obtain ⟨hlive, hopposes⟩ := hw
        right
        refine ⟨[], w, xs, rfl, hlive, hopposes, fun z hz => absurd hz List.not_mem_nil, ?_⟩
        have hstrike := h.strike s x w hx hlive hopposes
        rw [h.foldl_idle]
        · exact hstrike
        · intro pair hpair
          obtain ⟨y, -, rfl⟩ := List.mem_map.mp hpair
          rintro ⟨hlive', -⟩
          exact ((hstrike x).mp hlive').2.1 rfl
      · have hsame : step s (x, w) = s := by
          apply h.idle
          rintro ⟨-, hlive, hopposes⟩
          exact hw ⟨hlive, hopposes⟩
        rw [hsame]
        rcases ih (List.nodup_cons.mp hnodup).2 with
          ⟨hnone, hfold⟩ | ⟨before, y, after, rfl, hlive, hopposes, hbefore, hfold⟩
        · left
          refine ⟨?_, hfold⟩
          intro y hy
          rcases List.mem_cons.mp hy with rfl | hy
          · intro hlive hopposes
            exact hw ⟨hlive, hopposes⟩
          · exact hnone y hy
        · right
          refine ⟨w :: before, y, after, rfl, hlive, hopposes, ?_, hfold⟩
          intro z hz
          rcases List.mem_cons.mp hz with rfl | hz
          · intro hlive hopposes
            exact hw ⟨hlive, hopposes⟩
          · exact hbefore z hz

/-- The two loops pair off what is there. -/
theorem pairedOff [∀ s, DecidablePred (live s)] (s : σ) {xs : List α} (hnodup : xs.Nodup) :
  PairedOff opposes (xs.filter fun x => live s x)
    (xs.filter fun x => live ((pairsOf xs).foldl step s) x)
  := by
  induction xs generalizing s with
  | nil => exact PairedOff.nil
  | cons x xs ih =>
      obtain ⟨hnot, hrest⟩ := List.nodup_cons.mp hnodup
      rw [pairsOf, List.foldl_append]
      have hframe : ∀ s', live ((pairsOf xs).foldl step s') x ↔ live s' x := by
        intro s'
        apply h.live_foldl_iff
        intro pair hpair
        obtain ⟨hfirst, hsecond⟩ := mem_of_mem_pairsOf hpair
        constructor
        · rintro rfl
          exact hnot hfirst
        · rintro rfl
          exact hnot hsecond
      by_cases hx : live s x
      · rcases h.inner_loop hx hrest with
          ⟨hnone, hfold⟩ | ⟨before, y, after, hxs, hlive, hopposes, hbefore, hfold⟩
        · rw [hfold, List.filter_cons_of_pos (by simpa using hx),
            List.filter_cons_of_pos (by simpa using (hframe s).mpr hx)]
          apply PairedOff.keep _ (ih s hrest)
          intro y hy
          obtain ⟨hy, hlive⟩ := List.mem_filter.mp hy
          exact hnone y hy (of_decide_eq_true hlive)
        · generalize (xs.map (x, ·)).foldl step s = s' at *
          have hx' : ¬ live s' x := fun hlive' => ((hfold x).mp hlive').2.1 rfl
          have hstays := ih s' hrest
          rw [List.filter_cons_of_pos (by simpa using hx),
            List.filter_cons_of_neg (by simpa using fun hlive' => hx' ((hframe s').mp hlive'))]
          -- all but the one that is struck out are still there
          have hothers : ∀ zs : List α, (∀ z ∈ zs, z ≠ x ∧ z ≠ y) →
              (zs.filter fun z => live s' z) = zs.filter fun z => live s z := by
            intro zs hzs
            apply List.filter_congr
            intro z hz
            obtain ⟨hzx, hzy⟩ := hzs z hz
            rw [decide_eq_decide, hfold]
            exact ⟨fun hz' => hz'.1, fun hz' => ⟨hz', hzx, hzy⟩⟩
          subst hxs
          rw [List.nodup_append, List.nodup_cons] at hrest
          obtain ⟨-, ⟨hyAfter, -⟩, hdisjoint⟩ := hrest
          have hbeforeNe : ∀ z ∈ before, z ≠ x ∧ z ≠ y := by
            intro z hz
            constructor
            · rintro rfl
              exact hnot (List.mem_append_left _ hz)
            · exact hdisjoint z hz y List.mem_cons_self
          have hafterNe : ∀ z ∈ after, z ≠ x ∧ z ≠ y := by
            intro z hz
            constructor
            · rintro rfl
              exact hnot (List.mem_append_right _ (List.mem_cons_of_mem y hz))
            · rintro rfl
              exact hyAfter hz
          have hy' : ¬ live s' y := fun hlive' => ((hfold y).mp hlive').2.2 rfl
          rw [List.filter_append, List.filter_cons_of_pos (by simpa using hlive)]
          apply PairedOff.strike _ hopposes
          · rw [List.filter_append (p := fun z => decide (live s' z)), List.filter_cons_of_neg (by simpa using hy'),
              hothers before hbeforeNe, hothers after hafterNe] at hstays
            exact hstays
          · intro z hz
            obtain ⟨hz, hliveZ⟩ := List.mem_filter.mp hz
            exact hbefore z hz (of_decide_eq_true hliveZ)
      · have hidle : (xs.map (x, ·)).foldl step s = s := by
          apply h.foldl_idle
          intro pair hpair
          obtain ⟨y, -, rfl⟩ := List.mem_map.mp hpair
          rintro ⟨hlive, -⟩
          exact hx hlive
        rw [hidle, List.filter_cons_of_neg (by simpa using hx),
          List.filter_cons_of_neg (by simpa using fun hlive => hx ((hframe s).mp hlive))]
        exact ih s hrest

end Strikes

end

end PairingOff
