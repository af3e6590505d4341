import Mathlib.Data.List.Nodup
import Mathlib.Tactic.Common

/-!
# Rows with keys

A list of rows with distinct keys and of bounded length is a finite map.  A row is placed over
the one with its key, or at the end when there is room.
-/

namespace KeyedRows

variable {α κ : Type*} [DecidableEq κ] (key : α → κ)

/-- The row with the key. -/
def find (rows : List α) (k : κ) : Option α :=
  rows.find? fun row => key row = k

/-- The row put over the first one with its key, if there is one. -/
def replace (row : α) : List α → Option (List α)
  | [] => none
  | other :: rows =>
      if key other = key row then some (row :: rows)
      else (replace row rows).map (other :: ·)

theorem replace_cons (row other : α) (rows : List α) :
  replace key row (other :: rows) =
    if key other = key row then some (row :: rows) else (replace key row rows).map (other :: ·)
  := rfl

/-- The row put over the first one with its key, or else at the end, if there is room. -/
def place (capacity : ℕ) (row : α) (rows : List α) : Option (List α) :=
  match replace key row rows with
  | some rows => some rows
  | none => if capacity ≤ rows.length then none else some (rows ++ [row])

/-- The rows are a map of at most `capacity` entries. -/
structure IsMap (capacity : ℕ) (rows : List α) : Prop where
  nodup : (rows.map key).Nodup
  bounded : rows.length ≤ capacity

variable {key}

/-- No row is found exactly under a key that no row has. -/
theorem find_eq_none {rows : List α} {k : κ} :
  find key rows k = none ↔ k ∉ rows.map key
  := by
  simp [find, List.find?_eq_none]

/-- A row that is found is among the rows, and has the key. -/
theorem mem_of_find {rows : List α} {k : κ} {row : α} (h : find key rows k = some row) :
  row ∈ rows ∧ key row = k
  := by
  constructor
  · apply List.mem_of_find?_eq_some h
  · simpa using List.find?_some h

/-- A row is put over another one exactly when there is one with its key. -/
theorem replace_eq_none {row : α} {rows : List α} :
  replace key row rows = none ↔ key row ∉ rows.map key
  := by
  induction rows with
  | nil => exact iff_of_true rfl List.not_mem_nil
  | cons other rows ih =>
      rw [replace_cons, List.map_cons, List.mem_cons, not_or]
      split_ifs with h
      · simp [h]
      · simp [ih, Ne.symm h]

/-- A row that is found under its key can be put over. -/
theorem replace_isSome {row : α} {rows : List α} (h : (find key rows (key row)).isSome) :
  (replace key row rows).isSome
  := by
  rw [Option.isSome_iff_ne_none] at h ⊢
  intro hnone
  apply h
  rw [find_eq_none]
  apply replace_eq_none.mp hnone

/-- A row that is put over another one changes no keys. -/
theorem map_key_of_replace {row : α} {rows rows' : List α}
    (h : replace key row rows = some rows') :
  rows'.map key = rows.map key
  := by
  induction rows generalizing rows' with
  | nil => cases h
  | cons other rows ih =>
      rw [replace_cons] at h
      split_ifs at h with hkey
      · cases h
        rw [List.map_cons, List.map_cons, hkey]
      · obtain ⟨rest, hrest, rfl⟩ := Option.map_eq_some_iff.mp h
        rw [List.map_cons, List.map_cons, ih hrest]

/-- A row that is put over another one is found under its key. -/
theorem find_of_replace {row : α} {rows rows' : List α}
    (h : replace key row rows = some rows') (k : κ) :
  find key rows' k = if key row = k then some row else find key rows k
  := by
  induction rows generalizing rows' with
  | nil => cases h
  | cons other rows ih =>
      rw [replace_cons] at h
      split_ifs at h with hkey
      · cases h
        simp only [find, List.find?_cons, hkey]
        split_ifs with hk
        · simp [hk]
        · simp [hk]
      · obtain ⟨rest, hrest, rfl⟩ := Option.map_eq_some_iff.mp h
        have hfound := ih hrest
        simp only [find, List.find?_cons] at hfound ⊢
        by_cases hother : key other = k
        · have hrow : key row ≠ k := by
            rintro rfl
            apply hkey hother
          simp [hother, hrow]
        · simp [hother, hfound]

/-- Besides the row that is put over another one there are only rows that were there before. -/
theorem mem_of_replace {row other : α} {rows rows' : List α}
    (h : replace key row rows = some rows') (hmem : other ∈ rows') :
  other = row ∨ other ∈ rows
  := by
  induction rows generalizing rows' with
  | nil => cases h
  | cons first rows ih =>
      rw [replace_cons] at h
      split_ifs at h with hkey
      · cases h
        exact (List.mem_cons.mp hmem).imp_right (List.mem_cons_of_mem first)
      · obtain ⟨rest, hrest, rfl⟩ := Option.map_eq_some_iff.mp h
        rcases List.mem_cons.mp hmem with rfl | hmem
        · right
          apply List.mem_cons_self
        · apply (ih hrest hmem).imp_right
          apply List.mem_cons_of_mem

/-- A row that is put behind the others is found under its key, when no other row has it. -/
theorem find_append_singleton {row : α} {rows : List α} (h : key row ∉ rows.map key) (k : κ) :
  find key (rows ++ [row]) k = if key row = k then some row else find key rows k
  := by
  rw [find, List.find?_append]
  split_ifs with hk
  · subst hk
    rw [← find, find_eq_none.mpr h]
    simp
  · simp [find, hk]

/-- Besides the row that is placed there are only rows that were there before. -/
theorem mem_of_place {capacity : ℕ} {row other : α} {rows rows' : List α}
    (h : place key capacity row rows = some rows') (hmem : other ∈ rows') :
  other = row ∨ other ∈ rows
  := by
  rw [place] at h
  split at h
  · rename_i replaced hreplace
    cases h
    apply mem_of_replace hreplace hmem
  · split_ifs at h with hfull
    cases h
    simpa [or_comm] using hmem

/-- A row that is placed is found under its key, and nothing else changes. -/
theorem find_of_place {capacity : ℕ} {row : α} {rows rows' : List α}
    (h : place key capacity row rows = some rows') (k : κ) :
  find key rows' k = if key row = k then some row else find key rows k
  := by
  rw [place] at h
  split at h
  · rename_i replaced hreplace
    cases h
    apply find_of_replace hreplace
  · rename_i hnone
    split_ifs at h with hfull
    cases h
    apply find_append_singleton (replace_eq_none.mp hnone)

/-- Without the rows that have a key, nothing is found under it, and nothing else changes. -/
theorem find_filter_ne {rows : List α} {removed : κ} (k : κ) :
  find key (rows.filter fun row => key row ≠ removed) k
    = if k = removed then none else find key rows k
  := by
  split_ifs with hk
  · apply find_eq_none.mpr
    simp [hk]
  · rw [find, List.find?_filter, find]
    congr 1
    funext row
    by_cases hrow : key row = k
    · simp [hrow, hk]
    · simp [hrow]

namespace IsMap

variable {capacity : ℕ} {rows rows' : List α}

/-- A map stays one when a row is placed. -/
theorem place (h : IsMap key capacity rows) {row : α}
    (hplace : place key capacity row rows = some rows') :
  IsMap key capacity rows'
  := by
  rw [KeyedRows.place] at hplace
  split at hplace
  · rename_i replaced hreplace
    cases hplace
    have hkeys := map_key_of_replace hreplace
    constructor
    · rw [hkeys]
      exact h.nodup
    · have hlength := congrArg List.length hkeys
      rw [List.length_map, List.length_map] at hlength
      rw [hlength]
      exact h.bounded
  · rename_i hnone
    split_ifs at hplace with hfull
    cases hplace
    constructor
    · rw [List.map_append, List.map_singleton, ← List.concat_eq_append]
      exact h.nodup.concat (replace_eq_none.mp hnone)
    · rw [List.length_append]
      exact Nat.lt_of_not_le hfull

omit [DecidableEq κ] in
/-- A map stays one when rows are taken out. -/
theorem sublist (h : IsMap key capacity rows) (hsub : rows'.Sublist rows) :
  IsMap key capacity rows'
  := by
  constructor
  · apply h.nodup.sublist (hsub.map key)
  · apply Nat.le_trans hsub.length_le h.bounded

/-- The row found under a key is the one with that key. -/
theorem find_eq_some (h : IsMap key capacity rows) {k : κ} {row : α} :
  find key rows k = some row ↔ row ∈ rows ∧ key row = k
  := by
  constructor
  · apply mem_of_find
  · rintro ⟨hmem, rfl⟩
    have hsome : find key rows (key row) ≠ none := by
      intro hnone
      apply find_eq_none.mp hnone (List.mem_map_of_mem hmem)
    obtain ⟨found, hfound⟩ := Option.ne_none_iff_exists'.mp hsome
    obtain ⟨hfoundMem, hkey⟩ := mem_of_find hfound
    rw [hfound, List.inj_on_of_nodup_map h.nodup hfoundMem hmem hkey]

/-- What is found in a map from which rows are taken out is what was found before, or there is
nothing where a row that was taken out was found. -/
theorem find_sublist (h : IsMap key capacity rows) (hsub : rows'.Sublist rows) (k : κ) :
  find key rows' k = find key rows k
    ∨ find key rows' k = none ∧ ∃ row, find key rows k = some row ∧ row ∉ rows'
  := by
  rcases hfound : find key rows' k with _ | row
  · rcases hbefore : find key rows k with _ | row
    · left
      rfl
    · right
      use rfl, row, rfl
      intro hmem
      apply find_eq_none.mp hfound
      rw [← (mem_of_find hbefore).2]
      apply List.mem_map_of_mem hmem
  · left
    obtain ⟨hmem, hkey⟩ := mem_of_find hfound
    apply (h.find_eq_some.mpr ⟨hsub.subset hmem, hkey⟩).symm

end IsMap

end KeyedRows
