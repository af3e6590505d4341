import Mathlib.Data.List.Nodup

/-!
# Bounded collections without duplicates

A collection of a fixed capacity holds distinct elements in the order of their insertion, and
refuses an element that is already there and every element beyond the capacity.
`pushAll_eq_ok` says when a whole list is inserted.  `BoundedList` is the collection that
holds its elements in a list.
-/

/-- How elements are inserted into collections of a fixed capacity and without duplicates. -/
structure BoundedInsert (L α ε : Type*) where
  capacity : L → ℕ
  values : L → List α
  push : L → α → Except ε L
  nodup : ∀ l, (values l).Nodup
  bounded : ∀ l, (values l).length ≤ capacity l
  ext : ∀ l m, capacity l = capacity m → values l = values m → l = m
  push_eq_ok : ∀ l m a, push l a = .ok m ↔ a ∉ values l ∧ (values l).length < capacity l
    ∧ capacity m = capacity l ∧ values m = values l ++ [a]
  exists_push : ∀ l a, a ∉ values l → (values l).length < capacity l → ∃ m, push l a = .ok m

namespace BoundedInsert

variable {L α ε ε' : Type*} (B : BoundedInsert L α ε)

/-- Insert the elements one after the other, and report the first one refused. -/
def pushAll (report : ε → ε') (l : L) : List α → Except ε' L
  | [] => .ok l
  | a :: as =>
      match B.push l a with
      | .ok l => pushAll report l as
      | .error e => .error (report e)

/-- A list of elements is inserted exactly when there is room for them all and none is there
already or occurs twice. -/
theorem pushAll_eq_ok {report : ε → ε'} {l m : L} {as : List α} :
  B.pushAll report l as = .ok m ↔
    (B.values l ++ as).Nodup ∧ (B.values l).length + as.length ≤ B.capacity l
      ∧ B.capacity m = B.capacity l ∧ B.values m = B.values l ++ as
  := by
  induction as generalizing l with
  | nil =>
      simp only [pushAll, List.append_nil, List.length_nil, Nat.add_zero]
      constructor
      · intro h
        have hm := Except.ok.inj h
        rw [← hm]
        exact ⟨B.nodup l, B.bounded l, rfl, rfl⟩
      · rintro ⟨-, -, hc, hv⟩
        rw [B.ext m l hc hv]
  | cons a as ih =>
      rw [pushAll, List.length_cons]
      constructor
      · intro h
        split at h
        case h_1 pushed hpush =>
          obtain ⟨-, -, hc, hv⟩ := (B.push_eq_ok l pushed a).mp hpush
          obtain ⟨hnodup, hle, hc', hv'⟩ := ih.mp h
          rw [hv, List.append_assoc, List.singleton_append] at hnodup hv'
          rw [hv, List.length_append, List.length_singleton, hc] at hle
          exact ⟨hnodup, by omega, hc'.trans hc, hv'⟩
        case h_2 => cases h
      · rintro ⟨hnodup, hle, hc, hv⟩
        have hmem : a ∉ B.values l := by
          intro hmem
          rw [List.nodup_append] at hnodup
          apply hnodup.2.2 a hmem a List.mem_cons_self rfl
        obtain ⟨pushed, hpush⟩ := B.exists_push l a hmem (by omega)
        obtain ⟨-, -, hpc, hpv⟩ := (B.push_eq_ok l pushed a).mp hpush
        rw [hpush]
        apply ih.mpr
        rw [hpv, hpc, List.append_assoc, List.singleton_append, List.length_append,
          List.length_singleton]
        exact ⟨hnodup, by omega, hc, hv⟩

/-- A list of elements is inserted into an empty collection exactly when it has no duplicates
and is within the capacity. -/
theorem pushAll_of_empty {report : ε → ε'} {l m : L} {as : List α} (h : B.values l = []) :
  B.pushAll report l as = .ok m ↔
    as.Nodup ∧ as.length ≤ B.capacity l ∧ B.capacity m = B.capacity l ∧ B.values m = as
  := by
  rw [pushAll_eq_ok, h, List.nil_append, List.length_nil, Nat.zero_add]

end BoundedInsert

/-- A list of distinct elements, of at most `capacity` entries. -/
structure BoundedList (α : Type*) where
  capacity : ℕ
  values : List α
  nodup : values.Nodup
  bounded : values.length ≤ capacity
deriving DecidableEq, Repr

namespace BoundedList

variable {α ε : Type*}

@[ext]
theorem ext {l m : BoundedList α} (hc : l.capacity = m.capacity) (hv : l.values = m.values) :
  l = m
  := by
  cases l
  cases m
  cases hc
  cases hv
  rfl

/-- The empty list of the given capacity. -/
def withCapacity (capacity : ℕ) : BoundedList α :=
  ⟨capacity, [], List.nodup_nil, Nat.zero_le _⟩

/-- The list with one more entry. -/
def append (l : BoundedList α) (a : α) (hmem : a ∉ l.values)
    (hlen : l.values.length < l.capacity) : BoundedList α where
  capacity := l.capacity
  values := l.values ++ [a]
  nodup := by
    rw [List.nodup_append]
    refine ⟨l.nodup, List.nodup_singleton a, ?_⟩
    intro b hb c hc hbc
    rw [List.mem_singleton.mp hc] at hbc
    apply hmem (hbc ▸ hb)
  bounded := by
    rw [List.length_append, List.length_singleton]
    omega

/-- Append an element, unless it is already there or no capacity remains. -/
def push [DecidableEq α] (duplicate capacityExceeded : ε) (l : BoundedList α) (a : α) :
    Except ε (BoundedList α) :=
  if hmem : a ∈ l.values then .error duplicate
  else if hlen : l.capacity ≤ l.values.length then .error capacityExceeded
  else .ok (l.append a hmem (by omega))

/-- Appending, as an insertion. -/
def inserts [DecidableEq α] (duplicate capacityExceeded : ε) :
    BoundedInsert (BoundedList α) α ε where
  capacity := capacity
  values := values
  push := push duplicate capacityExceeded
  nodup := nodup
  bounded := bounded
  ext _ _ := ext
  push_eq_ok l m a := by
    rw [push]
    constructor
    · intro h
      split_ifs at h with hmem hlen
      cases h
      refine ⟨hmem, ?_, rfl, rfl⟩
      omega
    · rintro ⟨hmem, hlen, hc, hv⟩
      rw [dif_neg hmem, dif_neg (by omega)]
      apply congrArg Except.ok
      apply BoundedList.ext
      · apply hc.symm
      · apply hv.symm
  exists_push l a hmem hlen := by
    rw [push, dif_neg hmem, dif_neg (by omega)]
    exact ⟨_, rfl⟩

end BoundedList
