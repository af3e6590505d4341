import OpenLoops.Graph.Transaction
import OpenLoops.Library.Utf8Decoding

/-!
# Decodings

Bytes are read from base64url without padding, and from a value of a query, where a byte may stand as
a percent sign with two hexadecimal digits.
-/

namespace Graph

/-! ### Base64url -/

/-- The six bits that a character stands for. -/
def base64urlValue (c : Char) : Option UInt8 :=
  if 'A' ≤ c && c ≤ 'Z' then some (UInt8.ofNat (c.toNat - 'A'.toNat))
  else if 'a' ≤ c && c ≤ 'z' then some (UInt8.ofNat (c.toNat - 'a'.toNat + 26))
  else if '0' ≤ c && c ≤ '9' then some (UInt8.ofNat (c.toNat - '0'.toNat + 52))
  else if c = '-' then some 62
  else if c = '_' then some 63
  else none

/-- The bytes of groups of four values. -/
def base64urlGroups : List UInt8 → Option (List UInt8)
  | first :: second :: third :: fourth :: values =>
      (base64urlGroups values).map fun bytes =>
        (first <<< 2 ||| second >>> 4) :: (second <<< 4 ||| third >>> 2) :: (third <<< 6 ||| fourth)
          :: bytes
  | [first, second, third] => some [first <<< 2 ||| second >>> 4, second <<< 4 ||| third >>> 2]
  | [first, second] => some [first <<< 2 ||| second >>> 4]
  | [_] => none
  | [] => some []

def base64urlDecode (input : List Char) : Option (List UInt8) :=
  if input.length % 4 = 1 then none
  else (input.mapM base64urlValue).bind base64urlGroups

/-! ### Values of queries -/

def hexValue (c : Char) : Option UInt8 :=
  if '0' ≤ c && c ≤ '9' then some (UInt8.ofNat (c.toNat - '0'.toNat))
  else if 'a' ≤ c && c ≤ 'f' then some (UInt8.ofNat (c.toNat - 'a'.toNat + 10))
  else if 'A' ≤ c && c ≤ 'F' then some (UInt8.ofNat (c.toNat - 'A'.toNat + 10))
  else none

/-- The bytes of a value, where a percent sign stands before the two digits of a byte. -/
def percentBytes : List UInt8 → Option (List UInt8)
  | [] => some []
  | byte :: bytes =>
      if byte = 0x25 then
        match bytes with
        | high :: low :: bytes => do
            let high ← hexValue (Char.ofNat high.toNat)
            let low ← hexValue (Char.ofNat low.toNat)
            let bytes ← percentBytes bytes
            some ((high <<< 4 ||| low) :: bytes)
        | _ => none
      else (percentBytes bytes).map (byte :: ·)

def percentDecode (input : List Char) : Option (List Char) :=
  (percentBytes (Utf8.bytes input)).bind Utf8.decode?

/-- The raw bytes of a value stand for the bytes. -/
inductive PercentEncodes : List UInt8 → List UInt8 → Prop
  | nil : PercentEncodes [] []
  | literal {byte : UInt8} {raw bytes : List UInt8} :
      byte ≠ 0x25 → PercentEncodes raw bytes → PercentEncodes (byte :: raw) (byte :: bytes)
  | escaped {high low x y : UInt8} {raw bytes : List UInt8} :
      hexValue (Char.ofNat high.toNat) = some x → hexValue (Char.ofNat low.toNat) = some y →
      PercentEncodes raw bytes →
      PercentEncodes (0x25 :: high :: low :: raw) ((x <<< 4 ||| y) :: bytes)

theorem percentBytes_literal {byte : UInt8} (h : byte ≠ 0x25) (raw : List UInt8) :
  percentBytes (byte :: raw) = (percentBytes raw).map (byte :: ·)
  := by
  rw [percentBytes.eq_def]
  simp only [if_neg h]

theorem percentBytes_eq_some_iff {raw bytes : List UInt8} :
  percentBytes raw = some bytes ↔ PercentEncodes raw bytes
  := by
  constructor
  · intro h
    induction raw using percentBytes.induct generalizing bytes with
    | case1 =>
        cases h
        exact .nil
    | case2 high low raw ih =>
        rw [percentBytes, if_pos rfl] at h
        simp only [Option.bind_eq_bind, Option.bind_eq_some_iff, Option.some.injEq] at h
        obtain ⟨x, hx, y, hy, bytes', hbytes', rfl⟩ := h
        exact .escaped hx hy (ih hbytes')
    | case3 raw hshort =>
        rw [percentBytes.eq_def] at h
        simp only [if_true] at h
        cases h
    | case4 byte raw hbyte ih =>
        rw [percentBytes_literal hbyte] at h
        obtain ⟨bytes', hbytes', rfl⟩ := Option.map_eq_some_iff.mp h
        exact .literal hbyte (ih hbytes')
  · intro h
    induction h with
    | nil => rfl
    | literal hbyte _ ih => rw [percentBytes_literal hbyte, ih, Option.map_some]
    | escaped hx hy _ ih =>
        rw [percentBytes, if_pos rfl]
        simp only [hx, hy, ih, Option.bind_eq_bind, Option.bind_some]

theorem percentDecode_eq_some_iff {input value : List Char} :
  percentDecode input = some value ↔ PercentEncodes (Utf8.bytes input) (Utf8.bytes value)
  := by
  rw [percentDecode, Option.bind_eq_some_iff]
  constructor
  · rintro ⟨bytes, hbytes, hvalue⟩
    rw [Utf8.decode?_eq_some_iff] at hvalue
    rw [← hvalue]
    exact percentBytes_eq_some_iff.mp hbytes
  · intro h
    exact ⟨_, percentBytes_eq_some_iff.mpr h, Utf8.decode?_bytes value⟩

/-! ### Reading what is written -/

theorem base64urlValue_alphabet {index : ℕ} (h : index < 64) :
  base64urlValue (base64urlAlphabet.getD index 'A') = some (UInt8.ofNat index)
  := by
  revert index
  decide +kernel

/-- Bits above and below a place are put together by adding. -/
theorem shiftLeft_or_eq {x y k : ℕ} {b : UInt8} (hk : k < 8) (hx : x < 64) (hy : y < 64)
    (hfit : y < 2 ^ k) (hb : x * 2 ^ k % 256 + y = b.toNat) :
  UInt8.ofNat x <<< UInt8.ofNat k ||| UInt8.ofNat y = b
  := by
  have hnat : ∀ {n}, n < 64 → (UInt8.ofNat n).toNat = n :=
    fun h => UInt8.toNat_ofNat_of_lt' (by rw [UInt8.size]; omega)
  have hpow : 2 ^ 8 = 2 ^ k * 2 ^ (8 - k) := by
    rw [← pow_add, Nat.add_sub_cancel' hk.le]
  apply UInt8.toNat_inj.mp
  rw [UInt8.toNat_or, UInt8.toNat_shiftLeft, hnat hx, hnat hy, hnat (by omega), Nat.mod_eq_of_lt hk,
    Nat.shiftLeft_eq, ← hb, show 256 = 2 ^ 8 from rfl, hpow, Nat.mul_comm x, Nat.mul_mod_mul_left,
    Nat.two_pow_add_eq_or_of_lt hfit]

theorem shiftRight_eq {y l : ℕ} (hl : l < 8) (hy : y < 64) :
  UInt8.ofNat y >>> UInt8.ofNat l = UInt8.ofNat (y / 2 ^ l)
  := by
  have hle : y / 2 ^ l ≤ y := Nat.div_le_self y _
  apply UInt8.toNat_inj.mp
  rw [UInt8.toNat_shiftRight, UInt8.toNat_ofNat_of_lt' (by rw [UInt8.size]; omega),
    UInt8.toNat_ofNat_of_lt' (by rw [UInt8.size]; omega), Nat.mod_eq_of_lt hl,
    Nat.shiftRight_eq_div_pow, UInt8.toNat_ofNat_of_lt' (by rw [UInt8.size]; omega)]

/-- A byte is got back from its high bits and its low bits. -/
theorem shiftLeft_or_shiftRight_eq {x y k l : ℕ} {b : UInt8} (hk : k < 8) (hl : l < 8) (hx : x < 64)
    (hy : y < 64) (hfit : y / 2 ^ l < 2 ^ k) (hb : x * 2 ^ k % 256 + y / 2 ^ l = b.toNat) :
  UInt8.ofNat x <<< UInt8.ofNat k ||| UInt8.ofNat y >>> UInt8.ofNat l = b
  := by
  rw [shiftRight_eq hl hy]
  apply shiftLeft_or_eq hk hx _ hfit hb
  exact lt_of_le_of_lt (Nat.div_le_self y _) hy

theorem base64urlValue_digit (n : ℕ) :
  base64urlValue (base64urlAlphabet.getD (n % 64) 'A') = some (UInt8.ofNat (n % 64))
  := base64urlValue_alphabet (Nat.mod_lt n (by decide))

/-- The values of the characters of bytes make the bytes. -/
theorem bind_base64urlGroups_chars (bytes : Bytes) :
  ((base64urlChars bytes).mapM base64urlValue).bind base64urlGroups = some bytes
  := by
  induction bytes using base64urlChars.induct with
  | case1 first second third bytes ih =>
      have hfirst := first.toNat_lt
      have hsecond := second.toNat_lt
      have hthird := third.toNat_lt
      obtain ⟨values, hvalues, hgroups⟩ := Option.bind_eq_some_iff.mp ih
      simp only [base64urlChars, pushGroup, List.take, List.map_cons, List.map_nil, List.cons_append,
        List.nil_append, List.mapM_cons, base64urlValue_digit, hvalues, Option.bind_eq_bind,
        Option.bind_some, Option.pure_def, base64urlGroups, hgroups, Option.map_some,
        Option.some.injEq, List.cons.injEq, and_true]
      refine ⟨?_, ?_, ?_⟩
      · apply shiftLeft_or_shiftRight_eq (k := 2) (l := 4) <;> omega
      · apply shiftLeft_or_shiftRight_eq (k := 4) (l := 2) <;> omega
      · apply shiftLeft_or_eq (k := 6) <;> omega
  | case2 first second =>
      have hfirst := first.toNat_lt
      have hsecond := second.toNat_lt
      simp only [base64urlChars, pushGroup, List.take, List.map_cons, List.map_nil, List.mapM_cons,
        List.mapM_nil, base64urlValue_digit, Option.bind_eq_bind, Option.bind_some, Option.pure_def,
        base64urlGroups, Option.some.injEq, List.cons.injEq, and_true]
      constructor
      · apply shiftLeft_or_shiftRight_eq (k := 2) (l := 4) <;> omega
      · apply shiftLeft_or_shiftRight_eq (k := 4) (l := 2) <;> omega
  | case3 first =>
      have hfirst := first.toNat_lt
      simp only [base64urlChars, pushGroup, List.take, List.map_cons, List.map_nil, List.mapM_cons,
        List.mapM_nil, base64urlValue_digit, Option.bind_eq_bind, Option.bind_some, Option.pure_def,
        base64urlGroups, Option.some.injEq, List.cons.injEq, and_true]
      apply shiftLeft_or_shiftRight_eq (k := 2) (l := 4) <;> omega
  | case4 => rfl

theorem length_base64urlChars_mod (bytes : Bytes) :
  (base64urlChars bytes).length % 4 ≠ 1
  := by
  induction bytes using base64urlChars.induct with
  | case1 first second third bytes ih =>
      rw [base64urlChars, List.length_append]
      simp only [pushGroup, List.take, List.map_cons, List.map_nil, List.length_cons, List.length_nil]
      omega
  | case2 first second => simp [base64urlChars, pushGroup]
  | case3 first => simp [base64urlChars, pushGroup]
  | case4 => simp [base64urlChars]

/-- Bytes are read back. -/
theorem base64urlDecode_chars (bytes : Bytes) :
  base64urlDecode (base64urlChars bytes) = some bytes
  := by
  rw [base64urlDecode, if_neg (length_base64urlChars_mod bytes), bind_base64urlGroups_chars]

end Graph
