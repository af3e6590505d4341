import Mathlib.Algebra.Group.Nat.Defs
import OpenLoops.Library.Bounded

/-!
# Opaque identifiers, versions and bounded lists of identifiers

`OpaqueId` is a handle of sixteen bytes, compared and never read.  `Version` is a
nonzero `u64`; `Version.next` fails at the greatest one.  `BoundedIdList` is a list of
identifiers without duplicates and within a capacity fixed at its creation.
-/

namespace Domain

/-- A random opaque 128-bit handle. -/
structure OpaqueId where
  bytes : Vector UInt8 16
deriving DecidableEq, Repr

/-- An instant, in seconds since the epoch. -/
structure UnixSeconds where
  seconds : Int64
deriving DecidableEq, Repr

/-! ### Versions -/

/-- A nonzero version counter of 64 bits. -/
structure Version where
  get : ℕ
  pos : 0 < get
  lt : get < 2 ^ 64
deriving DecidableEq, Repr

namespace Version

@[ext]
theorem ext {v w : Version} (h : v.get = w.get) :
  v = w
  := by
  cases v
  cases w
  cases h
  rfl

/-- The first valid version. -/
def first : Version :=
  ⟨1, by decide, by decide⟩

/-- The greatest version. -/
def max : Version :=
  ⟨2 ^ 64 - 1, by decide, by decide⟩

/-- The next version, or `none` when the 64 bits are exhausted. -/
def next (v : Version) : Option Version :=
  if h : v.get + 1 < 2 ^ 64 then some ⟨v.get + 1, v.get.succ_pos, h⟩ else none

/-- The next version is the one that follows. -/
theorem next_eq_some {v w : Version} :
  v.next = some w ↔ w.get = v.get + 1
  := by
  rw [next]
  constructor
  · intro h
    split at h
    · cases h
      rfl
    · cases h
  · intro h
    have hlt : v.get + 1 < 2 ^ 64 := h ▸ w.lt
    rw [dif_pos hlt]
    apply congrArg some
    apply Version.ext
    apply h.symm

/-- There is a next version exactly below the greatest one. -/
theorem next_isSome {v : Version} :
  v.next.isSome ↔ v.get < max.get
  := by
  have hmax : max.get = 2 ^ 64 - 1 := rfl
  rw [next]
  split
  · simp only [Option.isSome_some, true_iff]
    omega
  · simp only [Option.isSome_none, Bool.false_eq_true, false_iff]
    omega

/-- A version below the greatest one has a next one. -/
theorem exists_next {v : Version} (h : v.get < max.get) :
  ∃ w, v.next = some w ∧ w.get = v.get + 1
  := by
  obtain ⟨w, hw⟩ := Option.isSome_iff_exists.mp (next_isSome.mpr h)
  use w, hw
  apply next_eq_some.mp hw

end Version

/-! ### Bounded lists of identifiers -/

/-- Why an identifier is not inserted into a bounded list. -/
inductive BoundedInsertError where
  | capacityExceeded
  | duplicate
deriving DecidableEq, Repr

/-- A list of identifiers without duplicates, of at most `capacity` entries. -/
structure BoundedIdList where
  capacity : ℕ
  values : List OpaqueId
  nodup : values.Nodup
  bounded : values.length ≤ capacity
deriving DecidableEq, Repr

namespace BoundedIdList

@[ext]
theorem ext {l m : BoundedIdList} (hc : l.capacity = m.capacity) (hv : l.values = m.values) :
  l = m
  := by
  cases l
  cases m
  cases hc
  cases hv
  rfl

/-- The empty list of the given capacity. -/
def withCapacity (capacity : ℕ) : BoundedIdList :=
  ⟨capacity, [], List.nodup_nil, Nat.zero_le _⟩

/-- Append `id` unless it is already there or no capacity remains. -/
def push (l : BoundedIdList) (id : OpaqueId) : Except BoundedInsertError BoundedIdList :=
  if hmem : id ∈ l.values then .error .duplicate
  else if hlen : l.capacity ≤ l.values.length then .error .capacityExceeded
  else .ok
    { capacity := l.capacity
      values := l.values ++ [id]
      nodup := by
        rw [List.nodup_append]
        refine ⟨l.nodup, List.nodup_singleton id, ?_⟩
        intro a ha b hb hab
        rw [List.mem_singleton.mp hb] at hab
        apply hmem (hab ▸ ha)
      bounded := by
        rw [List.length_append, List.length_singleton]
        omega }

/-- What a successful insertion requires and leaves behind. -/
theorem push_eq_ok {l m : BoundedIdList} {id : OpaqueId} :
  l.push id = .ok m ↔ id ∉ l.values ∧ l.values.length < l.capacity
    ∧ m.capacity = l.capacity ∧ m.values = l.values ++ [id]
  := by
  rw [push]
  constructor
  · intro h
    split at h
    · cases h
    · split at h
      · cases h
      · cases h
        refine ⟨‹_›, ?_, rfl, rfl⟩
        omega
  · rintro ⟨hmem, hlen, hc, hv⟩
    rw [dif_neg hmem, dif_neg (by omega)]
    apply congrArg Except.ok
    apply BoundedIdList.ext
    · apply hc.symm
    · apply hv.symm

/-- How an identifier is inserted. -/
def inserts : BoundedInsert BoundedIdList OpaqueId BoundedInsertError where
  capacity := capacity
  values := values
  push := push
  nodup := nodup
  bounded := bounded
  ext _ _ := ext
  push_eq_ok _ _ _ := push_eq_ok
  exists_push l id hmem hlen := by
    rw [push, dif_neg hmem, dif_neg (by omega)]
    exact ⟨_, rfl⟩

end BoundedIdList

end Domain
