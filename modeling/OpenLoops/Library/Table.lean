import Mathlib.Data.List.Induction
import Mathlib.Data.List.Sort
import OpenLoops.Library.Fallible
import OpenLoops.Library.KeyOrder
import OpenLoops.Library.Log

/-!
# Tables

A table has rows with different keys, in their order.  The entries of a list are grouped by a key
when each changes the row of its key, which is made at first.
-/

/-- Rows in the order of their keys. -/
structure Table (κ α : Type*) [LinearOrder κ] where
  rows : List (κ × α)
  sorted : rows.Pairwise fun row row' => row.1 < row'.1

namespace Table

variable {κ α β : Type*} [LinearOrder κ]

def empty : Table κ α where
  rows := []
  sorted := .nil

def keys (t : Table κ α) : List κ :=
  t.rows.map Prod.fst

def get? (t : Table κ α) (k : κ) : Option α :=
  t.rows.lookup k

/-- Change the row of a key, or make it. -/
def alterRows (k : κ) (change : Option α → α) : List (κ × α) → List (κ × α)
  | [] => [(k, change none)]
  | (k', a) :: rows =>
      if k < k' then (k, change none) :: (k', a) :: rows
      else if k = k' then (k', change (some a)) :: rows
      else (k', a) :: alterRows k change rows

theorem key_of_mem_alterRows {k : κ} {change : Option α → α} {rows : List (κ × α)} {row : κ × α}
    (h : row ∈ alterRows k change rows) :
  row.1 = k ∨ ∃ row' ∈ rows, row.1 = row'.1
  := by
  induction rows with
  | nil =>
      left
      rw [List.mem_singleton.mp h]
  | cons row' rows ih =>
      rw [alterRows] at h
      split_ifs at h with hlt heq
      · rcases List.mem_cons.mp h with rfl | h
        · exact Or.inl rfl
        · exact Or.inr ⟨row, h, rfl⟩
      · rcases List.mem_cons.mp h with rfl | h
        · exact Or.inl heq.symm
        · exact Or.inr ⟨row, List.mem_cons_of_mem _ h, rfl⟩
      · rcases List.mem_cons.mp h with rfl | h
        · exact Or.inr ⟨_, List.mem_cons_self, rfl⟩
        · apply (ih h).imp_right
          rintro ⟨row'', hmem, hkey⟩
          exact ⟨row'', List.mem_cons_of_mem _ hmem, hkey⟩

theorem alterRows_sorted (k : κ) (change : Option α → α) {rows : List (κ × α)}
    (h : rows.Pairwise fun row row' => row.1 < row'.1) :
  (alterRows k change rows).Pairwise fun row row' => row.1 < row'.1
  := by
  induction rows with
  | nil => exact List.pairwise_singleton _ _
  | cons row rows ih =>
      obtain ⟨hrow, hrows⟩ := List.pairwise_cons.mp h
      rw [alterRows]
      split_ifs with hlt heq
      · apply List.pairwise_cons.mpr
        refine ⟨?_, h⟩
        intro row' hmem
        rcases List.mem_cons.mp hmem with rfl | hmem
        · exact hlt
        · exact hlt.trans (hrow row' hmem)
      · exact List.pairwise_cons.mpr ⟨hrow, hrows⟩
      · apply List.pairwise_cons.mpr
        refine ⟨?_, ih hrows⟩
        intro row' hmem
        rcases key_of_mem_alterRows hmem with hkey | ⟨row'', hmem, hkey⟩
        · rw [hkey]
          exact lt_of_le_of_ne (not_lt.mp hlt) (Ne.symm heq)
        · rw [hkey]
          exact hrow row'' hmem

def alter (t : Table κ α) (k : κ) (change : Option α → α) : Table κ α where
  rows := alterRows k change t.rows
  sorted := alterRows_sorted k change t.sorted

/-- The rows whose keys are kept. -/
def filter (t : Table κ α) (p : κ → Bool) : Table κ α where
  rows := t.rows.filter fun row => p row.1
  sorted := t.sorted.filter _

/-- The rows of two tables; those of the second one count. -/
def merge (t t' : Table κ α) : Table κ α :=
  t'.rows.foldl (fun t row => t.alter row.1 fun _ => row.2) t

/-! ### Looking up -/

theorem lookup_eq_none_of_lt {k : κ} {rows : List (κ × α)} (h : ∀ row ∈ rows, k < row.1) :
  rows.lookup k = none
  := by
  rw [List.lookup_eq_none_iff]
  intro row hrow
  rw [bne_iff_ne]
  exact (h row hrow).ne

theorem get?_empty (k : κ) :
  (empty : Table κ α).get? k = none
  := rfl

theorem get?_alter (t : Table κ α) (k : κ) (change : Option α → α) (k' : κ) :
  (t.alter k change).get? k' = if k' = k then some (change (t.get? k)) else t.get? k'
  := by
  obtain ⟨rows, hsorted⟩ := t
  show (alterRows k change rows).lookup k' =
    if k' = k then some (change (rows.lookup k)) else rows.lookup k'
  induction rows with
  | nil =>
      rw [alterRows, List.lookup_cons]
      by_cases h : k' = k
      · rw [h, beq_self_eq_true, if_pos rfl]
        rfl
      · rw [beq_eq_false_iff_ne.mpr h, if_neg h]
  | cons row rows ih =>
      obtain ⟨k₀, a⟩ := row
      obtain ⟨hrow, hrows⟩ := List.pairwise_cons.mp hsorted
      rw [alterRows]
      by_cases hlt : k < k₀
      · have hnone : ((k₀, a) :: rows).lookup k = none := by
          apply lookup_eq_none_of_lt
          intro row hmem
          rcases List.mem_cons.mp hmem with rfl | hmem
          · exact hlt
          · exact hlt.trans (hrow row hmem)
        rw [if_pos hlt, List.lookup_cons, hnone]
        by_cases h : k' = k
        · rw [h, beq_self_eq_true, if_pos rfl]
        · rw [beq_eq_false_iff_ne.mpr h, if_neg h]
      · rw [if_neg hlt]
        by_cases heq : k = k₀
        · subst heq
          rw [if_pos rfl, List.lookup_cons, List.lookup_cons, List.lookup_cons, beq_self_eq_true]
          by_cases h : k' = k
          · rw [h, beq_self_eq_true, if_pos rfl]
          · rw [beq_eq_false_iff_ne.mpr h, if_neg h]
        · rw [if_neg heq, List.lookup_cons, ih hrows, List.lookup_cons, List.lookup_cons,
            beq_eq_false_iff_ne.mpr heq]
          by_cases h : k' = k
          · rw [h, beq_eq_false_iff_ne.mpr heq, if_pos rfl]
          · rw [if_neg h, if_neg h]

theorem nodup_keys (t : Table κ α) :
  t.keys.Nodup
  := by
  apply List.pairwise_map.mpr
  exact t.sorted.imp fun h => h.ne

theorem mem_rows {t : Table κ α} {k : κ} {a : α} :
  (k, a) ∈ t.rows ↔ t.get? k = some a
  := by
  constructor
  · intro h
    obtain ⟨rows, rows', heq⟩ := List.append_of_mem h
    apply List.lookup_eq_some_iff.mpr
    refine ⟨rows, rows', heq, ?_⟩
    intro row hrow
    have hlt := (List.pairwise_append.mp (heq ▸ t.sorted)).2.2 row hrow _ List.mem_cons_self
    rw [bne_iff_ne]
    exact hlt.ne'
  · intro h
    obtain ⟨rows, rows', heq, -⟩ := List.lookup_eq_some_iff.mp h
    rw [heq]
    exact List.mem_append_right _ List.mem_cons_self

theorem mem_keys {t : Table κ α} {k : κ} :
  k ∈ t.keys ↔ ∃ a, t.get? k = some a
  := by
  rw [keys, List.mem_map]
  constructor
  · rintro ⟨⟨k, a⟩, hrow, rfl⟩
    exact ⟨a, mem_rows.mp hrow⟩
  · rintro ⟨a, ha⟩
    exact ⟨(k, a), mem_rows.mpr ha, rfl⟩

/-- A row that is changed is there. -/
theorem mem_keys_alter (t : Table κ α) (k : κ) (change : Option α → α) (k' : κ) :
  k' ∈ (t.alter k change).keys ↔ k' = k ∨ k' ∈ t.keys
  := by
  rw [mem_keys, mem_keys]
  simp only [get?_alter]
  by_cases h : k' = k
  · simp [h]
  · simp [h]

/-- Tables in which the same is found have the same rows, as far as it is looked at. -/
theorem map_rows_eq {γ : Type*} {t t' : Table κ α} {f : α → γ}
    (h : ∀ k, (t.get? k).map f = (t'.get? k).map f) :
  (t.rows.map fun row => (row.1, f row.2)) = t'.rows.map fun row => (row.1, f row.2)
  := by
  have hsorted : ∀ t : Table κ α,
      ((t.rows.map fun row => (row.1, f row.2)).map Prod.fst).SortedLT := by
    intro t
    rw [List.map_map]
    apply List.Pairwise.sortedLT
    exact List.pairwise_map.mpr t.sorted
  have hnodup : ∀ t : Table κ α, (t.rows.map fun row => (row.1, f row.2)).Nodup := by
    intro t
    apply List.Nodup.of_map Prod.fst
    exact (hsorted t).nodup
  have hmem : ∀ (t : Table κ α) (k : κ) (c : γ),
      (k, c) ∈ (t.rows.map fun row => (row.1, f row.2)) ↔ (t.get? k).map f = some c := by
    intro t k c
    rw [List.mem_map, Option.map_eq_some_iff]
    constructor
    · rintro ⟨⟨k, a⟩, hrow, heq⟩
      cases heq
      exact ⟨a, mem_rows.mp hrow, rfl⟩
    · rintro ⟨a, ha, rfl⟩
      exact ⟨(k, a), mem_rows.mpr ha, rfl⟩
  apply KeyOrder.eq_of_perm _ (hsorted t) (hsorted t')
  rw [List.perm_ext_iff_of_nodup (hnodup t) (hnodup t')]
  rintro ⟨k, c⟩
  rw [hmem, hmem, h]

/-! ### Grouping -/

/-- Each entry changes the row of its key, which starts as given. -/
def group (key : β → κ) (start : α) (add : α → β → α) (l : List β) : Table κ α :=
  l.foldl (fun t b => t.alter (key b) fun row => add (row.getD start) b) empty

/-- A row holds what the entries of its key have made of it. -/
theorem get?_group (key : β → κ) (start : α) (add : α → β → α) (l : List β) (k : κ) :
  (group key start add l).get? k = if ∃ b ∈ l, key b = k then
    some ((l.filter fun b => key b = k).foldl add start) else none
  := by
  induction l using List.reverseRecOn with
  | nil => rfl
  | append_singleton l b ih =>
      have hgroup : group key start add (l ++ [b]) =
          (group key start add l).alter (key b) fun row => add (row.getD start) b := by
        rw [group, List.foldl_append]
        rfl
      rw [hgroup, get?_alter, List.filter_append, List.foldl_append]
      by_cases h : key b = k
      · subst h
        have hlast : [b].filter (fun b' => key b' = key b) = [b] := by
          rw [List.filter_singleton, decide_eq_true rfl]
          rfl
        have hsome : ∃ b' ∈ l ++ [b], key b' = key b := ⟨b, by simp, rfl⟩
        rw [if_pos rfl, ih, hlast, if_pos hsome]
        split_ifs with hexists
        · rfl
        · have hnil : (l.filter fun b' => key b' = key b) = [] := by
            rw [List.filter_eq_nil_iff]
            intro b' hb' heq
            exact hexists ⟨b', hb', by simpa using heq⟩
          rw [hnil]
          rfl
      · have hlast : [b].filter (fun b' => key b' = k) = [] := by
          rw [List.filter_singleton, decide_eq_false h]
          rfl
        have hiff : (∃ b' ∈ l ++ [b], key b' = k) ↔ ∃ b' ∈ l, key b' = k := by
          simp [h]
        rw [if_neg (Ne.symm h), ih, hlast]
        simp only [hiff]
        rfl

/-- The rows of the entries themselves are those of the list that have the key. -/
theorem get?_group_members (key : β → κ) (l : List β) (k : κ) :
  (group key [] (fun members b => members ++ [b]) l).get? k = if ∃ b ∈ l, key b = k then
    some (l.filter fun b => key b = k) else none
  := by
  have hmembers : ∀ l l' : List β, l.foldl (fun members b => members ++ [b]) l' = l' ++ l := by
    intro l
    induction l with
    | nil => simp
    | cons b l ih =>
        intro l'
        rw [List.foldl_cons, ih, List.append_assoc]
        rfl
  rw [get?_group, hmembers, List.nil_append]

theorem mem_keys_group {key : β → κ} {start : α} {add : α → β → α} {l : List β} {k : κ} :
  k ∈ (group key start add l).keys ↔ ∃ b ∈ l, key b = k
  := by
  rw [mem_keys, get?_group]
  split_ifs with h
  · simp [h]
  · simp [h]

/-- All entries are in rows. -/
theorem sum_length_group (key : β → κ) (l : List β) :
  ((group key [] (fun members b => members ++ [b]) l).rows.map fun row => row.2.length).sum =
    l.length
  := by
  have halter : ∀ (k : κ) (b : β) (rows : List (κ × List β)),
      ((alterRows k (fun row => row.getD [] ++ [b]) rows).map fun row => row.2.length).sum =
        (rows.map fun row => row.2.length).sum + 1 := by
    intro k b rows
    induction rows with
    | nil => rfl
    | cons row rows ih =>
        rw [alterRows]
        split_ifs
        · simp only [List.map_cons, List.sum_cons, Option.getD_none, List.nil_append,
            List.length_singleton]
          omega
        · simp only [List.map_cons, List.sum_cons, Option.getD_some, List.length_append,
            List.length_singleton]
          omega
        · simp only [List.map_cons, List.sum_cons, ih]
          omega
  induction l using List.reverseRecOn with
  | nil => rfl
  | append_singleton l b ih =>
      have hgroup : group key [] (fun members b => members ++ [b]) (l ++ [b]) =
          (group key [] (fun members b => members ++ [b]) l).alter (key b)
            fun row => row.getD [] ++ [b] := by
        rw [group, List.foldl_append]
        rfl
      rw [hgroup, alter, halter, ih, List.length_append]
      rfl

theorem length_keys (t : Table κ α) :
  t.keys.length = t.rows.length
  := List.length_map _

/-- Tables in which the same is found are the same. -/
theorem ext_get? {t t' : Table κ α} (h : ∀ k, t.get? k = t'.get? k) :
  t = t'
  := by
  have hrows := map_rows_eq (f := id) fun k => congrArg (Option.map id) (h k)
  obtain ⟨rows, sorted⟩ := t
  obtain ⟨rows', sorted'⟩ := t'
  simp only [id_eq, Prod.mk.eta, List.map_id'] at hrows
  subst hrows
  rfl

/-! ### Collecting -/

/-- The rows put in one after the other; the last one of a key counts. -/
def collect (rows : List (κ × α)) : Table κ α :=
  rows.foldl (fun t row => t.alter row.1 fun _ => row.2) empty

/-- What is collected under a key is the last row of the key. -/
theorem get?_collect (rows : List (κ × α)) (k : κ) :
  (collect rows).get? k = rows.reverse.lookup k
  := by
  induction rows using List.reverseRecOn with
  | nil => rfl
  | append_singleton rows row ih =>
      rw [collect, List.foldl_append, List.foldl_cons, List.foldl_nil, ← collect, get?_alter, ih,
        List.reverse_append, List.reverse_singleton, List.singleton_append, List.lookup_cons]
      by_cases h : k = row.1
      · rw [if_pos h, h, beq_self_eq_true]
      · rw [if_neg h, beq_eq_false_iff_ne.mpr h]

omit [LinearOrder κ] in
/-- Rows that are made of entries, each under its key. -/
theorem mem_of_forall₂ {r : κ → α → β → Prop} (hr : ∀ k a b b', r k a b → r k a b' → b = b')
    {entries : List (κ × α)} {rows : List (κ × β)}
    (h : List.Forall₂ (fun entry row => row.1 = entry.1 ∧ r entry.1 entry.2 row.2) entries rows)
    (k : κ) (b : β) :
  (k, b) ∈ rows ↔ ∃ a, (k, a) ∈ entries ∧ r k a b
  := by
  constructor
  · intro hrow
    obtain ⟨⟨k', a⟩, hentry, hkey, hvalue⟩ := h.exists_mem_left hrow
    obtain rfl : k = k' := hkey
    exact ⟨a, hentry, hvalue⟩
  · rintro ⟨a, hentry, hvalue⟩
    obtain ⟨⟨k', b'⟩, hrow, hkey, hvalue'⟩ := h.flip.exists_mem_left hentry
    obtain rfl : k' = k := hkey
    rw [hr k' a b b' hvalue hvalue']
    exact hrow

/-- When a row is made of each entry, under its key, the rows are those of the entries. -/
theorem exists_collect_iff {r : κ → α → β → Prop} (hr : ∀ k a b b', r k a b → r k a b' → b = b')
    {entries : List (κ × α)} (hnodup : (entries.map Prod.fst).Nodup) {t : Table κ β} :
  (∃ rows, List.Forall₂ (fun entry row => row.1 = entry.1 ∧ r entry.1 entry.2 row.2) entries rows
      ∧ collect rows = t)
    ↔ (∀ entry ∈ entries, ∃ b, r entry.1 entry.2 b)
      ∧ ∀ k b, t.get? k = some b ↔ ∃ a, (k, a) ∈ entries ∧ r k a b
  := by
  have hget : ∀ {rows}, List.Forall₂
      (fun entry row => row.1 = entry.1 ∧ r entry.1 entry.2 row.2) entries rows →
      ∀ k b, (collect rows).get? k = some b ↔ ∃ a, (k, a) ∈ entries ∧ r k a b := by
    intro rows hrows k b
    have hkeys : rows.map Prod.fst = entries.map Prod.fst := by
      clear hnodup
      induction hrows with
      | nil => rfl
      | cons h _ ih => rw [List.map_cons, List.map_cons, h.1, ih]
    have hreverse : (rows.reverse.map Prod.fst).Nodup := by
      rw [List.map_reverse, List.nodup_reverse, hkeys]
      exact hnodup
    rw [get?_collect, Log.lookup_eq_some_iff_mem hreverse, List.mem_reverse,
      mem_of_forall₂ hr hrows]
  constructor
  · rintro ⟨rows, hrows, rfl⟩
    refine ⟨?_, hget hrows⟩
    intro entry hentry
    obtain ⟨row, -, -, hvalue⟩ := hrows.flip.exists_mem_left hentry
    exact ⟨row.2, hvalue⟩
  · rintro ⟨htotal, ht⟩
    have hexists : ∀ entry ∈ entries, ∃ row : κ × β,
        row.1 = entry.1 ∧ r entry.1 entry.2 row.2 := by
      intro entry hentry
      obtain ⟨b, hvalue⟩ := htotal entry hentry
      exact ⟨(entry.1, b), rfl, hvalue⟩
    obtain ⟨rows, hrows⟩ := List.exists_forall₂ hexists
    refine ⟨rows, hrows, ext_get? fun k => ?_⟩
    apply Option.ext
    intro b
    rw [hget hrows, ht]

end Table
