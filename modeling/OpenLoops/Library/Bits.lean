import Mathlib.Data.List.Basic
import Mathlib.Data.Nat.Bitwise
import Mathlib.Data.UInt
import Mathlib.Tactic.Common
import Mathlib.Tactic.Ring

/-!
# Bits and their digits

A number is written as bits, with the highest one first, and a list of bits is read as a number.
The digits of a list of bits are the numbers of its groups of a given width, where zeros fill up
the last group.
-/

namespace Bits

/-- So many of the low bits of a number, with the highest one first. -/
def bitsOf : ℕ → ℕ → List Bool
  | 0, _ => []
  | width + 1, n => n.testBit width :: bitsOf width n

/-- The number that the bits stand for. -/
def numberOf : List Bool → ℕ
  | [] => 0
  | b :: bits => b.toNat * 2 ^ bits.length + numberOf bits

/-- The numbers of the groups of the bits. -/
def digits (width : ℕ) (bits : List Bool) : List ℕ :=
  if _h : 0 < width ∧ width ≤ bits.length then
    numberOf (bits.take width) :: digits width (bits.drop width)
  else if bits = [] then []
  else [numberOf bits * 2 ^ (width - bits.length)]
termination_by bits.length
decreasing_by simp only [List.length_drop]; omega

@[simp]
theorem length_bitsOf (width n : ℕ) :
  (bitsOf width n).length = width
  := by
  induction width with
  | zero => rfl
  | succ width ih => rw [bitsOf, List.length_cons, ih]

theorem numberOf_append (bits bits' : List Bool) :
  numberOf (bits ++ bits') = numberOf bits * 2 ^ bits'.length + numberOf bits'
  := by
  induction bits with
  | nil => simp [numberOf]
  | cons b bits ih =>
      rw [List.cons_append, numberOf, numberOf, ih, List.length_append]
      ring

theorem numberOf_lt (bits : List Bool) :
  numberOf bits < 2 ^ bits.length
  := by
  induction bits with
  | nil => exact Nat.one_pos
  | cons b bits ih =>
      rw [numberOf, List.length_cons, pow_succ]
      cases b <;> simp <;> omega

theorem numberOf_replicate_false (count : ℕ) :
  numberOf (List.replicate count false) = 0
  := by
  induction count with
  | zero => rfl
  | succ count ih => simp [List.replicate_succ, numberOf, ih]

/-- The bits of a number stand for it, as far as they go. -/
theorem numberOf_bitsOf (width n : ℕ) :
  numberOf (bitsOf width n) = n % 2 ^ width
  := by
  induction width with
  | zero => rw [bitsOf, numberOf, pow_zero, Nat.mod_one]
  | succ width ih =>
      rw [bitsOf, numberOf, ih, length_bitsOf, Nat.mod_pow_succ, Nat.toNat_testBit]
      ring

/-- The number of bits has those bits. -/
theorem bitsOf_numberOf (bits : List Bool) :
  bitsOf bits.length (numberOf bits) = bits
  := by
  have hlow : ∀ width m n, width ≤ m → bitsOf width (n % 2 ^ m) = bitsOf width n := by
    intro width m n hwidth
    induction width with
    | zero => rfl
    | succ width ih =>
        rw [bitsOf, bitsOf, ih (Nat.le_of_succ_le hwidth), Nat.testBit_mod_two_pow,
          decide_eq_true (Nat.lt_of_succ_le hwidth), Bool.true_and]
  induction bits with
  | nil => rfl
  | cons b bits ih =>
      have hlt := numberOf_lt bits
      rw [numberOf, List.length_cons, bitsOf]
      congr 1
      · rw [Nat.mul_comm, Nat.testBit_two_pow_mul_add b.toNat hlt, if_neg (lt_irrefl _),
          Nat.sub_self]
        cases b <;> rfl
      · rw [← hlow _ _ _ (le_refl _), Nat.mul_add_mod', Nat.mod_eq_of_lt hlt, ih]

/-- A number below the bound of its width has only one list of bits. -/
theorem bitsOf_inj {width m n : ℕ} (hm : m < 2 ^ width) (hn : n < 2 ^ width) :
  bitsOf width m = bitsOf width n ↔ m = n
  := by
  constructor
  · intro h
    rw [← Nat.mod_eq_of_lt hm, ← Nat.mod_eq_of_lt hn, ← numberOf_bitsOf, ← numberOf_bitsOf, h]
  · rintro rfl
    rfl

/-! ### Digits -/

theorem digits_nil {width : ℕ} (hwidth : 0 < width) :
  digits width [] = []
  := by
  rw [digits, dif_neg (fun h => absurd (lt_of_lt_of_le hwidth h.2) (Nat.lt_irrefl 0)), if_pos rfl]

/-- A whole group is one digit. -/
theorem digits_append {width : ℕ} (hwidth : 0 < width) {group : List Bool}
    (hgroup : group.length = width) (bits : List Bool) :
  digits width (group ++ bits) = numberOf group :: digits width bits
  := by
  rw [digits, dif_pos ⟨hwidth, by rw [List.length_append, hgroup]; apply Nat.le_add_right⟩,
    List.take_left' hgroup, List.drop_left' hgroup]

/-- What is left of the bits is filled up. -/
theorem digits_of_lt {width : ℕ} {bits : List Bool} (hne : bits ≠ [])
    (hlt : bits.length < width) :
  digits width bits = [numberOf bits * 2 ^ (width - bits.length)]
  := by
  rw [digits, dif_neg (fun h => absurd h.2 (not_le.mpr hlt)), if_neg hne]

/-- Bits are a group and more, or fewer than a group. -/
theorem exists_group {width : ℕ} {bits : List Bool} (h : width ≤ bits.length) :
  ∃ group rest, group.length = width ∧ bits = group ++ rest
  := by
  use bits.take width, bits.drop width
  rw [List.length_take, Nat.min_eq_left h, List.take_append_drop]
  exact ⟨rfl, rfl⟩

/-- Every digit is below the bound. -/
theorem lt_of_mem_digits {width : ℕ} (hwidth : 0 < width) {bits : List Bool} {digit : ℕ}
    (h : digit ∈ digits width bits) :
  digit < 2 ^ width
  := by
  induction hlength : bits.length using Nat.strong_induction_on generalizing bits with
  | _ length ih =>
      rcases lt_or_ge bits.length width with hlt | hle
      · rcases eq_or_ne bits [] with rfl | hne
        · rw [digits_nil hwidth] at h
          cases h
        · rw [digits_of_lt hne hlt, List.mem_singleton] at h
          have hpow : 2 ^ width = 2 ^ bits.length * 2 ^ (width - bits.length) := by
            rw [← pow_add, Nat.add_sub_cancel' hlt.le]
          rw [h, hpow]
          apply Nat.mul_lt_mul_of_pos_right (numberOf_lt bits) (Nat.two_pow_pos _)
      · obtain ⟨group, rest, hgroup, rfl⟩ := exists_group hle
        rw [digits_append hwidth hgroup] at h
        rcases List.mem_cons.mp h with rfl | hrest
        · rw [← hgroup]
          apply numberOf_lt
        · rw [List.length_append] at hlength
          exact ih rest.length (by omega) hrest rfl

/-- The bits of the digits are the bits, filled up with fewer zeros than a group has bits. -/
theorem flatMap_digits {width : ℕ} (hwidth : 0 < width) (bits : List Bool) :
  ∃ zeros < width, (digits width bits).flatMap (bitsOf width) =
    bits ++ List.replicate zeros false
  := by
  induction hlength : bits.length using Nat.strong_induction_on generalizing bits with
  | _ length ih =>
      rcases lt_or_ge bits.length width with hlt | hle
      · rcases eq_or_ne bits [] with rfl | hne
        · use 0, hwidth
          rw [digits_nil hwidth]
          rfl
        · have hpos := List.length_pos_iff.mpr hne
          use width - bits.length, by omega
          have hfull : bits.length + (width - bits.length) = width := by omega
          have hbits := bitsOf_numberOf (bits ++ List.replicate (width - bits.length) false)
          rw [numberOf_append, numberOf_replicate_false, List.length_append,
            List.length_replicate, hfull, Nat.add_zero] at hbits
          rw [digits_of_lt hne hlt, List.flatMap_singleton, hbits]
      · obtain ⟨group, rest, hgroup, rfl⟩ := exists_group hle
        rw [List.length_append] at hlength
        obtain ⟨zeros, hzeros, hrest⟩ := ih rest.length (by omega) rest rfl
        use zeros, hzeros
        rw [digits_append hwidth hgroup, List.flatMap_cons, hrest, ← hgroup, bitsOf_numberOf,
          List.append_assoc]

/-- Bits that come in units that are not smaller than a group are determined by their digits. -/
theorem eq_of_digits_eq {width unit : ℕ} (hwidth : 0 < width) (hunit : width ≤ unit)
    {bits bits' : List Bool} (hbits : unit ∣ bits.length) (hbits' : unit ∣ bits'.length)
    (h : digits width bits = digits width bits') :
  bits = bits'
  := by
  obtain ⟨zeros, hzeros, hflat⟩ := flatMap_digits hwidth bits
  obtain ⟨zeros', hzeros', hflat'⟩ := flatMap_digits hwidth bits'
  have heq : bits ++ List.replicate zeros false = bits' ++ List.replicate zeros' false := by
    rw [← hflat, ← hflat', h]
  have hlengths := congrArg List.length heq
  simp only [List.length_append, List.length_replicate] at hlengths
  have hlength : bits.length = bits'.length := by
    obtain ⟨a, ha⟩ := hbits
    obtain ⟨b, hb⟩ := hbits'
    have hunitpos : 0 < unit := lt_of_lt_of_le hwidth hunit
    -- the lengths differ by less than a unit
    rcases Nat.lt_trichotomy a b with hlt | rfl | hgt
    · have hstep := Nat.mul_le_mul_left unit (Nat.succ_le_of_lt hlt)
      rw [Nat.mul_succ] at hstep
      omega
    · rw [ha, hb]
    · have hstep := Nat.mul_le_mul_left unit (Nat.succ_le_of_lt hgt)
      rw [Nat.mul_succ] at hstep
      omega
  exact (List.append_inj heq hlength).1

/-! ### Bits of bytes -/

def ofBytes (bytes : List UInt8) : List Bool :=
  bytes.flatMap fun byte => bitsOf 8 byte.toNat

theorem ofBytes_append (bytes bytes' : List UInt8) :
  ofBytes (bytes ++ bytes') = ofBytes bytes ++ ofBytes bytes'
  := List.flatMap_append

theorem length_ofBytes (bytes : List UInt8) :
  (ofBytes bytes).length = 8 * bytes.length
  := by
  induction bytes with
  | nil => rfl
  | cons byte bytes ih =>
      rw [ofBytes, List.flatMap_cons, List.length_append, length_bitsOf, List.length_cons,
        Nat.mul_succ, Nat.add_comm, ← ih, ofBytes]

theorem ofBytes_inj {bytes bytes' : List UInt8} :
  ofBytes bytes = ofBytes bytes' ↔ bytes = bytes'
  := by
  constructor
  · intro h
    have hlength := congrArg List.length h
    rw [length_ofBytes, length_ofBytes] at hlength
    induction bytes generalizing bytes' with
    | nil => exact (List.length_eq_zero_iff.mp (by simpa using hlength.symm)).symm
    | cons byte bytes ih =>
        obtain ⟨byte', bytes', rfl⟩ :=
          List.exists_cons_of_length_eq_add_one (n := bytes.length) (by simpa using hlength.symm)
        simp only [ofBytes, List.flatMap_cons] at h
        obtain ⟨hbyte, hbytes⟩ := List.append_inj h (by simp)
        rw [bitsOf_inj byte.toNat_lt byte'.toNat_lt, UInt8.toNat_inj] at hbyte
        rw [hbyte, ih hbytes (by simpa using hlength)]
  · rintro rfl
    rfl

/-- Bytes are determined by their digits of any width up to eight. -/
theorem ofBytes_digits_inj {width : ℕ} (hwidth : 0 < width) (hle : width ≤ 8)
    {bytes bytes' : List UInt8} :
  digits width (ofBytes bytes) = digits width (ofBytes bytes') ↔ bytes = bytes'
  := by
  constructor
  · intro h
    apply ofBytes_inj.mp
    apply eq_of_digits_eq hwidth hle _ _ h <;> exact ⟨_, length_ofBytes _⟩
  · rintro rfl
    rfl

end Bits
