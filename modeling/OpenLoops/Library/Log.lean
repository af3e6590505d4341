import Mathlib.Data.List.Nodup
import Mathlib.Data.List.Perm.Basic
import Mathlib.Data.List.Range
import Mathlib.Data.Set.Function

/-!
# Append-only logs

A log is a list that only grows at its end.  When its entries are numbered without a gap,
the entry with the greatest number is the last one, in whatever order the entries are
read.
-/

namespace Log

variable {α : Type*}

/-- Entries related in two steps. -/
theorem forall₂_comp {β γ : Type*} {r : α → β → Prop} {q : β → γ → Prop} {l : List α}
    {m : List β} {n : List γ} (hr : List.Forall₂ r l m) (hq : List.Forall₂ q m n) :
  List.Forall₂ (fun a c => ∃ b, r a b ∧ q b c) l n
  := by
  induction hr generalizing n with
  | nil =>
      cases hq
      exact List.Forall₂.nil
  | cons ha _ ih =>
      cases hq with
      | cons hb hq => exact List.Forall₂.cons ⟨_, ha, hb⟩ (ih hq)

/-- Entries related when numbered are related. -/
theorem forall₂_of_zipIdx {β : Type*} {r : α → β → Prop} {l : List α} {m : List β} {n : ℕ}
    (h : List.Forall₂ (fun a b => r a.1 b) (l.zipIdx n) m) :
  List.Forall₂ r l m
  := by
  rw [← List.zipIdx_map_fst n l]
  apply List.forall₂_map_left_iff.mpr h

/-- A key that is paired has a value. -/
theorem exists_lookup {κ β : Type*} [BEq κ] [LawfulBEq κ] {l : List (κ × β)} {key : κ}
    (hmem : key ∈ l.map (·.1)) :
  ∃ value, l.lookup key = some value
  := by
  obtain ⟨pair, hpair, rfl⟩ := List.mem_map.mp hmem
  apply Option.isSome_iff_exists.mp
  apply List.lookup_isSome_iff.mpr
  use pair, hpair
  apply beq_self_eq_true

/-- The value of a key is the only one it is paired with. -/
theorem lookup_eq_some_of_unique {κ β : Type*} [BEq κ] [LawfulBEq κ] {l : List (κ × β)}
    {key : κ} {value : β} (hmem : key ∈ l.map (·.1))
    (hunique : ∀ other, (key, other) ∈ l → other = value) :
  l.lookup key = some value
  := by
  obtain ⟨found, hfound⟩ := exists_lookup hmem
  obtain ⟨before, after, hl, -⟩ := List.lookup_eq_some_iff.mp hfound
  rw [hfound, hunique found (by rw [hl]; simp)]

/-- When no key is paired twice, a key has the values it is paired with. -/
theorem lookup_eq_some_iff_mem {κ β : Type*} [BEq κ] [LawfulBEq κ] {l : List (κ × β)}
    (hnodup : (l.map (·.1)).Nodup) {key : κ} {value : β} :
  l.lookup key = some value ↔ (key, value) ∈ l
  := by
  constructor
  · intro h
    obtain ⟨before, after, rfl, -⟩ := List.lookup_eq_some_iff.mp h
    simp
  · intro hmem
    apply lookup_eq_some_of_unique (List.mem_map_of_mem hmem)
    intro other hother
    have heq := List.inj_on_of_nodup_map hnodup hother hmem rfl
    apply congrArg Prod.snd heq

/-- The value of a key that is paired does not change when a log grows. -/
theorem lookup_append_of_mem {κ β : Type*} [BEq κ] [LawfulBEq κ] {l m : List (κ × β)}
    {key : κ} (hmem : key ∈ l.map (·.1)) :
  (l ++ m).lookup key = l.lookup key
  := by
  obtain ⟨found, hfound⟩ := exists_lookup hmem
  rw [List.lookup_append, hfound]
  rfl

/-- The value of a key that is not paired yet is looked up in what is appended. -/
theorem lookup_append_of_notMem {κ β : Type*} [BEq κ] [LawfulBEq κ] {l m : List (κ × β)}
    {key : κ} (hmem : key ∉ l.map (·.1)) :
  (l ++ m).lookup key = m.lookup key
  := by
  have hnone : l.lookup key = none := by
    apply List.lookup_eq_none_iff.mpr
    intro pair hpair
    apply bne_iff_ne.mpr
    rintro rfl
    apply hmem (List.mem_map_of_mem hpair)
  rw [List.lookup_append, hnone, Option.none_or]

/-- Entries are distinct when each is related to an entry that has its own value of `f`. -/
theorem nodup_of_forall₂ {β γ : Type*} {r : α → β → Prop} {f : α → γ} {l : List α}
    {m : List β} (h : List.Forall₂ r l m)
    (hr : ∀ a ∈ l, ∀ a' ∈ l, ∀ b, r a b → r a' b → f a = f a') (hl : (l.map f).Nodup) :
  m.Nodup
  := by
  induction h with
  | nil => exact List.nodup_nil
  | @cons a b l m hab hlm ih =>
      rw [List.map_cons, List.nodup_cons] at hl
      rw [List.nodup_cons]
      constructor
      · intro hb
        obtain ⟨a', ha', hab'⟩ : ∃ a' ∈ l, r a' b := by
          obtain ⟨i, hi, rfl⟩ := List.getElem_of_mem hb
          have hi' : i < l.length := by
            rw [hlm.length_eq]
            apply hi
          exact ⟨l[i], List.getElem_mem hi', List.forall₂_iff_get.mp hlm |>.2 i hi' hi⟩
        apply hl.1
        rw [hr a List.mem_cons_self a' (List.mem_cons_of_mem a ha') b hab hab']
        apply List.mem_map_of_mem ha'
      · apply ih _ hl.2
        intro x hx y hy
        apply hr x (List.mem_cons_of_mem a hx) y (List.mem_cons_of_mem a hy)

/-- A list is put together again from its parts by key, when the keys are distinct and there
are no others. -/
theorem perm_flatMap_filter {κ : Type*} [DecidableEq κ] (key : α → κ) {keys : List κ}
    (hkeys : keys.Nodup) {l : List α} (hl : ∀ x ∈ l, key x ∈ keys) :
  (keys.flatMap fun k => l.filter fun x => key x = k).Perm l
  := by
  induction keys generalizing l with
  | nil =>
      cases l with
      | nil => exact List.Perm.nil
      | cons x l => cases hl x List.mem_cons_self
  | cons k keys ih =>
      obtain ⟨hk, hkeys⟩ := List.nodup_cons.mp hkeys
      have hothers : (keys.flatMap fun k' => l.filter fun x => key x = k')
          = keys.flatMap fun k' => (l.filter fun x => !decide (key x = k)).filter
              fun x => key x = k' := by
        apply List.flatMap_congr
        intro k' hk'
        rw [List.filter_filter]
        apply List.filter_congr
        intro x _
        have hne : k' ≠ k := fun heq => hk (heq ▸ hk')
        by_cases hx : key x = k'
        · simp [hx, hne]
        · simp [hx]
      have hrest : ∀ x ∈ l.filter fun x => !decide (key x = k), key x ∈ keys := by
        intro x hx
        obtain ⟨hmem, hne⟩ := List.mem_filter.mp hx
        rcases List.mem_cons.mp (hl x hmem) with heq | hmem
        · simp [heq] at hne
        · exact hmem
      rw [List.flatMap_cons, hothers]
      apply ((ih hkeys hrest).append_left _).trans
      apply List.filter_append_perm

/-- Whether a function tells the entries of a list apart can be decided. -/
instance decidableInjOn {β : Type*} [DecidableEq α] [DecidableEq β] (f : α → β) (l : List α) :
    Decidable (Set.InjOn f {x | x ∈ l}) :=
  decidable_of_iff (∀ x ∈ l, ∀ y ∈ l, f x = f y → x = y)
    ⟨fun h x hx y hy => h x hx y hy, fun h _ hx _ hy => h hx hy⟩

/-! ### The entry with the greatest key -/

/-- The entry with the greatest key, the last such entry when there are several. -/
def maxByKey (key : α → ℕ) (l : List α) : Option α :=
  l.foldl (fun best x =>
    match best with
    | none => some x
    | some b => if key b ≤ key x then some x else some b) none

/-- One more entry is the greatest unless the entries before have a greater one. -/
theorem maxByKey_snoc (key : α → ℕ) (l : List α) (x : α) :
  maxByKey key (l ++ [x]) =
    match maxByKey key l with
    | none => some x
    | some b => if key b ≤ key x then some x else some b
  := by
  rw [maxByKey, List.foldl_append]
  rfl

/-- There is a greatest entry unless the list is empty. -/
theorem maxByKey_eq_none {key : α → ℕ} {l : List α} :
  maxByKey key l = none ↔ l = []
  := by
  induction l using List.reverseRecOn with
  | nil => simp [maxByKey]
  | append_singleton l x _ =>
      rw [maxByKey_snoc]
      cases maxByKey key l with
      | none => simp
      | some b =>
          dsimp only
          split <;> simp

/-- The greatest entry is an entry. -/
theorem maxByKey_mem {key : α → ℕ} {l : List α} {b : α} (hb : maxByKey key l = some b) :
  b ∈ l
  := by
  induction l using List.reverseRecOn with
  | nil => cases hb
  | append_singleton l x ih =>
      rw [maxByKey_snoc] at hb
      cases hl : maxByKey key l with
      | none =>
          rw [hl] at hb
          cases hb
          simp
      | some c =>
          rw [hl] at hb
          dsimp only at hb
          split at hb
          · cases hb
            simp
          · cases hb
            apply List.mem_append_left
            apply ih hl

/-- No key is greater than that of the greatest entry. -/
theorem key_le_of_maxByKey {key : α → ℕ} {l : List α} {b : α} (hb : maxByKey key l = some b) :
  ∀ x ∈ l, key x ≤ key b
  := by
  induction l using List.reverseRecOn generalizing b with
  | nil => cases hb
  | append_singleton l y ih =>
      intro x hx
      rw [maxByKey_snoc] at hb
      cases hl : maxByKey key l with
      | none =>
          rw [maxByKey_eq_none.mp hl, List.nil_append, List.mem_singleton] at hx
          rw [hl] at hb
          cases hb
          rw [hx]
      | some c =>
          rw [hl] at hb
          dsimp only at hb
          have hle := ih hl
          rcases List.mem_append.mp hx with hx | hx
          · have hc := hle x hx
            split at hb
            · cases hb
              omega
            · cases hb
              apply hc
          · rw [List.mem_singleton.mp hx]
            split at hb
            · cases hb
              apply le_rfl
            · cases hb
              omega

/-- An entry whose key is greater than those of all others is the greatest. -/
theorem maxByKey_eq_some {key : α → ℕ} {l : List α} {x : α} (hx : x ∈ l)
    (hmax : ∀ y ∈ l, y = x ∨ key y < key x) :
  maxByKey key l = some x
  := by
  cases hl : maxByKey key l with
  | none =>
      rw [maxByKey_eq_none.mp hl] at hx
      cases hx
  | some b =>
      have hle := key_le_of_maxByKey hl x hx
      rcases hmax b (maxByKey_mem hl) with rfl | hlt
      · rfl
      · omega

/-! ### Numbered logs -/

/-- The entries are numbered from zero without a gap. -/
def Numbered (key : α → ℕ) (l : List α) : Prop :=
  l.map key = List.range l.length

/-- The empty log is numbered. -/
theorem Numbered.nil (key : α → ℕ) :
  Numbered key []
  := rfl

/-- A log stays numbered when the next entry carries its length. -/
theorem Numbered.snoc {key : α → ℕ} {l : List α} {x : α} (h : Numbered key l)
    (hx : key x = l.length) :
  Numbered key (l ++ [x])
  := by
  rw [Numbered] at h ⊢
  rw [List.map_append, h, List.length_append, List.length_singleton, List.range_succ,
    List.map_singleton, hx]

/-- No two entries carry the same number. -/
theorem Numbered.nodup {key : α → ℕ} {l : List α} (h : Numbered key l) :
  (l.map key).Nodup
  := by
  rw [h]
  apply List.nodup_range

/-- The last entry carries the number before the length. -/
theorem Numbered.key_last {key : α → ℕ} {l : List α} {x : α} (h : Numbered key (l ++ [x])) :
  key x = l.length
  := by
  rw [Numbered, List.map_append, List.length_append, List.length_singleton, List.range_succ] at h
  have hlast := (List.append_inj' h rfl).2
  apply (List.cons.inj hlast).1

/-- The log without its last entry is numbered. -/
theorem Numbered.init {key : α → ℕ} {l : List α} {x : α} (h : Numbered key (l ++ [x])) :
  Numbered key l
  := by
  rw [Numbered, List.map_append, List.length_append, List.length_singleton, List.range_succ] at h
  apply (List.append_inj' h rfl).1

/-- Every entry carries a number below the length. -/
theorem Numbered.key_lt {key : α → ℕ} {l : List α} (h : Numbered key l) :
  ∀ x ∈ l, key x < l.length
  := by
  intro x hx
  have hmem := List.mem_map_of_mem (f := key) hx
  rw [h] at hmem
  apply List.mem_range.mp hmem

/-- In whatever order a numbered log is read, its last entry is the greatest. -/
theorem Numbered.maxByKey_perm {key : α → ℕ} {l m : List α} (h : Numbered key l)
    (hperm : m.Perm l) :
  maxByKey key m = l.getLast?
  := by
  cases l using List.reverseRecOn with
  | nil =>
      rw [hperm.eq_nil]
      rfl
  | append_singleton l x =>
      rw [List.getLast?_append_of_ne_nil _ (by simp), List.getLast?_singleton]
      apply maxByKey_eq_some (hperm.mem_iff.mpr (by simp))
      intro y hy
      rcases List.mem_append.mp (hperm.mem_iff.mp hy) with hy | hy
      · right
        rw [h.key_last]
        apply h.init.key_lt y hy
      · left
        apply List.mem_singleton.mp hy

end Log
