import Mathlib.Data.List.Induction
import Mathlib.Tactic.Common

/-!
# Numerals

A number without a sign is read from decimal digits, which a plus may precede.  Every number is
written in one way, but it is read from more texts: those with a plus, or with zeros in front.
-/

namespace Numerals

/-- The number that digits write, when it is below the bound. -/
def parseDigits (bound : ℕ) (digits : List Char) : Option ℕ :=
  if digits ≠ [] ∧ digits.all Char.isDigit then
    some (Nat.ofDigitChars 10 digits 0) |>.filter (· < bound)
  else none

/-- A number below the bound. -/
def parse (bound : ℕ) : List Char → Option ℕ
  | '+' :: digits => parseDigits bound digits
  | digits => parseDigits bound digits

/-- The text of a number. -/
def write (n : ℕ) : List Char :=
  Nat.toDigits 10 n

theorem toList_toString (n : ℕ) :
  (toString n).toList = write n
  := by
  rw [Nat.toString_eq_repr, Nat.toList_repr, write]

theorem isDigit_of_mem_write {n : ℕ} {c : Char} (h : c ∈ write n) :
  c.isDigit = true
  := Nat.isDigit_of_mem_toDigits (by decide) (by decide) h

theorem write_ne_nil (n : ℕ) :
  write n ≠ []
  := Nat.toDigits_ne_nil

theorem digit_bounds {c : Char} (h : c.isDigit = true) :
  '0'.toNat ≤ c.toNat ∧ c.toNat - '0'.toNat < 10
  := by
  simp only [Char.isDigit, Bool.and_eq_true, decide_eq_true_eq, ge_iff_le,
    UInt32.le_iff_toNat_le] at h
  obtain ⟨hlow, hhigh⟩ := h
  have hhigh' : c.toNat ≤ 57 := hhigh
  constructor
  · exact hlow
  · rw [show '0'.toNat = 48 from rfl]
    omega

/-- A digit writes its own number. -/
theorem write_digit {c : Char} (h : c.isDigit = true) :
  write (c.toNat - '0'.toNat) = [c]
  := by
  have hall : ∀ n < 10, Nat.toDigits 10 n = [Char.ofNat ('0'.toNat + n)] := by
    decide
  obtain ⟨hlow, hlt⟩ := digit_bounds h
  rw [write, hall _ hlt, Nat.add_sub_cancel' hlow, Char.ofNat_toNat]

/-- Digits are the text of the number, with some zeros in front. -/
theorem exists_zeros {digits : List Char} (hne : digits ≠ [])
    (h : ∀ c ∈ digits, c.isDigit = true) :
  ∃ zeros, digits = List.replicate zeros '0' ++ write (Nat.ofDigitChars 10 digits 0)
  := by
  induction digits using List.reverseRecOn with
  | nil => exact absurd rfl hne
  | append_singleton digits c ih =>
      have hc : c.isDigit = true := h c (by simp)
      rw [Nat.ofDigitChars_append, Nat.ofDigitChars_cons, Nat.ofDigitChars_nil]
      rcases eq_or_ne digits [] with rfl | hdigits
      · use 0
        rw [Nat.ofDigitChars_nil, Nat.mul_zero, Nat.zero_add, write_digit hc]
        rfl
      · obtain ⟨zeros, hzeros⟩ := ih hdigits fun d hd => h d (List.mem_append_left _ hd)
        rcases Nat.eq_zero_or_pos (Nat.ofDigitChars 10 digits 0) with hzero | hpos
        · rw [hzero] at hzeros ⊢
          use zeros + 1
          rw [Nat.mul_zero, Nat.zero_add, write_digit hc, hzeros, List.replicate_succ']
          rfl
        · use zeros
          have hwrite := write_digit hc
          rw [write] at hwrite
          rw [write, ← Nat.toDigits_append_toDigits (by decide) hpos (digit_bounds hc).2, hwrite,
            ← List.append_assoc]
          exact congrArg (· ++ [c]) hzeros

theorem parseDigits_eq_some_iff {bound n : ℕ} {digits : List Char} :
  parseDigits bound digits = some n ↔
    n < bound ∧ ∃ zeros, digits = List.replicate zeros '0' ++ write n
  := by
  rw [parseDigits]
  constructor
  · intro h
    split at h
    · next hdigits =>
        obtain ⟨hvalue, hlt⟩ := Option.filter_eq_some_iff.mp h
        obtain rfl := Option.some.inj hvalue
        exact ⟨of_decide_eq_true hlt, exists_zeros hdigits.1 (List.all_eq_true.mp hdigits.2)⟩
    · cases h
  · rintro ⟨hlt, zeros, rfl⟩
    have hdigits : ∀ c ∈ List.replicate zeros '0' ++ write n, c.isDigit = true := by
      intro c hc
      rcases List.mem_append.mp hc with hzero | hwrite
      · rw [List.eq_of_mem_replicate hzero]
        rfl
      · apply isDigit_of_mem_write hwrite
    have hvalue : Nat.ofDigitChars 10 (List.replicate zeros '0' ++ write n) 0 = n := by
      rw [Nat.ofDigitChars_append, Nat.ofDigitChars_replicate_zero, Nat.mul_zero, write,
        Nat.ofDigitChars_ten_toDigits]
    rw [if_pos ⟨by simp [write_ne_nil], List.all_eq_true.mpr hdigits⟩, hvalue,
      Option.filter_some, if_pos (decide_eq_true hlt)]

/-- A number is read from its text, which a plus and zeros may precede. -/
theorem parse_eq_some_iff {bound n : ℕ} {text : List Char} :
  parse bound text = some n ↔
    n < bound ∧ ∃ sign zeros, (sign = [] ∨ sign = ['+'])
      ∧ text = sign ++ List.replicate zeros '0' ++ write n
  := by
  constructor
  · intro h
    rw [parse.eq_def] at h
    split at h
    · obtain ⟨hlt, zeros, rfl⟩ := parseDigits_eq_some_iff.mp h
      exact ⟨hlt, ['+'], zeros, Or.inr rfl, rfl⟩
    · obtain ⟨hlt, zeros, rfl⟩ := parseDigits_eq_some_iff.mp h
      exact ⟨hlt, [], zeros, Or.inl rfl, rfl⟩
  · rintro ⟨hlt, sign, zeros, rfl | rfl, rfl⟩
    · have hdigits : parseDigits bound (List.replicate zeros '0' ++ write n) = some n :=
        parseDigits_eq_some_iff.mpr ⟨hlt, zeros, rfl⟩
      rw [List.nil_append, parse.eq_def]
      split
      · next digits hplus =>
          -- digits have no sign
          have hmem : '+' ∈ List.replicate zeros '0' ++ write n := hplus ▸ List.mem_cons_self
          rcases List.mem_append.mp hmem with hzero | hwrite
          · exact absurd (List.eq_of_mem_replicate hzero) (by decide)
          · exact absurd (isDigit_of_mem_write hwrite) (by decide)
      · exact hdigits
    · exact parseDigits_eq_some_iff.mpr ⟨hlt, zeros, rfl⟩

/-- A number is read back. -/
theorem parse_write {bound n : ℕ} (h : n < bound) :
  parse bound (write n) = some n
  := parse_eq_some_iff.mpr ⟨h, [], 0, Or.inl rfl, rfl⟩

end Numerals
