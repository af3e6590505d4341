import Mathlib.Data.UInt
import OpenLoops.Library.Cursor

/-!
# The codec of the records

Fixed-width and length-prefixed fields, written one after the other and read back with a
cursor.  Each writer comes with the rule that its reader reads it, and with the rule that its
reader reads nothing else.  The methods of the cursor, which index the whole byte string, follow
the readers, which cut values off its front.
-/

namespace Application

open Wire

inductive CodecError where
  | truncated
  | tooLarge
  | trailingBytes
  | unknownTag (tag : UInt8)
deriving DecidableEq, Repr

/-! ### Writers -/

/-- A byte string with its length in front. -/
def pushBytes (value : Bytes) : Except CodecError Bytes :=
  if value.length < 2 ^ 32 then .ok (be 4 value.length ++ value) else .error .tooLarge

def pushU8 (value : UInt8) : Bytes :=
  [value]

def pushU32 (value : UInt32) : Bytes :=
  be 4 value.toNat

def pushI64 (value : Int64) : Bytes :=
  be 8 value.toUInt64.toNat

/-- A presence flag, and the value when it is present. -/
def pushOptionI64 : Option Int64 → Bytes
  | some value => pushU8 1 ++ pushI64 value
  | none => pushU8 0

/-! ### Readers -/

/-- A cursor over the bytes still to be read. -/
abbrev Reader (α : Type) := Wire.Reader CodecError α

def readU8 : Reader UInt8 := do
  return UInt8.ofNat (← readBe .truncated 1)

def readU32 : Reader UInt32 := do
  return UInt32.ofNat (← readBe .truncated 4)

def readI64 : Reader Int64 := do
  return (UInt64.ofNat (← readBe .truncated 8)).toInt64

/-- A presence flag, and the value when it is present. -/
def readOptionI64 : Reader (Option Int64) := do
  match ← readU8 with
  | 0 => return none
  | 1 => return some (← readI64)
  | other => throw (.unknownTag other)

/-- A byte string with its length in front. -/
def readBytes : Reader Bytes := do
  let len ← readU32
  take .truncated len.toNat

def readArray16 : Reader (Vector UInt8 16) :=
  readArray .truncated 16

def readArray32 : Reader (Vector UInt8 32) :=
  readArray .truncated 32

/-- Read a record that takes up all the bytes. -/
def decodeAll {α : Type} (r : Reader α) (bytes : Bytes) : Except CodecError α :=
  readAll .trailingBytes r bytes

/-! ### Round trips -/

theorem reads_u8 (value : UInt8) :
  Reads readU8 (pushU8 value) value
  := by
  rw [readU8, pushU8, ← be_one]
  apply (reads_readBe CodecError.truncated value.toNat_lt).bind_last
  rw [UInt8.ofNat_toNat]
  apply Reads.pure

theorem reads_u32 (value : UInt32) :
  Reads readU32 (pushU32 value) value
  := by
  rw [readU32, pushU32]
  apply (reads_readBe CodecError.truncated value.toNat_lt).bind_last
  rw [UInt32.ofNat_toNat]
  apply Reads.pure

theorem reads_i64 (value : Int64) :
  Reads readI64 (pushI64 value) value
  := by
  rw [readI64, pushI64]
  apply (reads_readBe CodecError.truncated value.toUInt64.toNat_lt).bind_last
  rw [UInt64.ofNat_toNat, Int64.toInt64_toUInt64]
  apply Reads.pure

theorem reads_optionI64 (value : Option Int64) :
  Reads readOptionI64 (pushOptionI64 value) value
  := by
  rw [readOptionI64]
  cases value with
  | none =>
      rw [pushOptionI64]
      apply (reads_u8 0).bind_last
      apply Reads.pure none
  | some value =>
      rw [pushOptionI64]
      apply (reads_u8 1).bind
      apply (reads_i64 value).bind_last
      apply Reads.pure

theorem reads_bytes {value written : Bytes} (h : pushBytes value = .ok written) :
  Reads readBytes written value
  := by
  rw [pushBytes] at h
  split_ifs at h with hlen
  cases h
  have htoNat : (UInt32.ofNat value.length).toNat = value.length :=
    UInt32.toNat_ofNat_of_lt' hlen
  have hu32 := reads_u32 (UInt32.ofNat value.length)
  rw [pushU32, htoNat] at hu32
  rw [readBytes]
  apply hu32.bind
  apply reads_take
  apply htoNat.symm

theorem reads_array16 (value : Vector UInt8 16) :
  Reads readArray16 value.toList value
  := reads_readArray CodecError.truncated value

theorem reads_array32 (value : Vector UInt8 32) :
  Reads readArray32 value.toList value
  := reads_readArray CodecError.truncated value

/-! ### What was read -/

section

variable {bytes rest : Bytes}

/-- A byte that was read stands in front. -/
theorem readU8_eq_ok {value : UInt8} :
  readU8.run bytes = .ok (value, rest) ↔ bytes = pushU8 value ++ rest
  := by
  constructor
  · intro h
    obtain ⟨raw, _, hraw, h⟩ := StateT.run_bind_eq_ok.mp h
    cases h
    obtain ⟨hlt, rfl⟩ := readBe_eq_ok.mp hraw
    rw [pushU8, ← be_one, UInt8.toNat_ofNat_of_lt' hlt]
  · rintro rfl
    apply reads_u8

/-- A number that was read stands in front. -/
theorem readU32_eq_ok {value : UInt32} :
  readU32.run bytes = .ok (value, rest) ↔ bytes = pushU32 value ++ rest
  := by
  constructor
  · intro h
    obtain ⟨raw, _, hraw, h⟩ := StateT.run_bind_eq_ok.mp h
    cases h
    obtain ⟨hlt, rfl⟩ := readBe_eq_ok.mp hraw
    rw [pushU32, UInt32.toNat_ofNat_of_lt' hlt]
  · rintro rfl
    apply reads_u32

/-- A signed number that was read stands in front. -/
theorem readI64_eq_ok {value : Int64} :
  readI64.run bytes = .ok (value, rest) ↔ bytes = pushI64 value ++ rest
  := by
  constructor
  · intro h
    obtain ⟨raw, _, hraw, h⟩ := StateT.run_bind_eq_ok.mp h
    cases h
    obtain ⟨hlt, rfl⟩ := readBe_eq_ok.mp hraw
    rw [pushI64, UInt64.toUInt64_toInt64, UInt64.toNat_ofNat_of_lt' hlt]
  · rintro rfl
    apply reads_i64

/-- A number that may be absent and was read stands in front, with its flag. -/
theorem readOptionI64_eq_ok {value : Option Int64} :
  readOptionI64.run bytes = .ok (value, rest) ↔ bytes = pushOptionI64 value ++ rest
  := by
  constructor
  · intro h
    obtain ⟨flag, _, hflag, h⟩ := StateT.run_bind_eq_ok.mp h
    rw [readU8_eq_ok] at hflag
    split at h
    · cases h
      exact hflag
    · obtain ⟨raw, _, hraw, h⟩ := StateT.run_bind_eq_ok.mp h
      cases h
      rw [hflag, readI64_eq_ok.mp hraw]
      rfl
    · cases h
  · rintro rfl
    apply reads_optionI64

/-- A byte string that was read stands in front, with its length. -/
theorem readBytes_eq_ok {value : Bytes} :
  readBytes.run bytes = .ok (value, rest)
    ↔ ∃ written, pushBytes value = .ok written ∧ bytes = written ++ rest
  := by
  constructor
  · intro h
    obtain ⟨len, _, hlen, h⟩ := StateT.run_bind_eq_ok.mp h
    obtain ⟨hvalue, rfl⟩ := take_eq_ok.mp h
    have hfits : value.length < 2 ^ 32 := by
      rw [hvalue]
      apply len.toNat_lt
    use be 4 value.length ++ value, if_pos hfits
    rw [readU32_eq_ok.mp hlen, pushU32, hvalue, List.append_assoc]
  · rintro ⟨written, hwritten, rfl⟩
    apply reads_bytes hwritten

end

/-! ### Reading by index -/

/-- A cursor over the whole byte string, at a position in it. -/
abbrev Cursor (α : Type) := Wire.Cursor CodecError α

namespace Cursor

open Wire.Cursor

def readU8 : Cursor UInt8 :=
  nextByteOr .truncated

def readU32 : Cursor UInt32 := do
  return UInt32.ofNat (← nextBeOr .truncated 4)

def readI64 : Cursor Int64 := do
  return (UInt64.ofNat (← nextBeOr .truncated 8)).toInt64

/-- A presence flag, and the value when it is present. -/
def readOptionI64 : Cursor (Option Int64) := do
  match ← readU8 with
  | 0 => return none
  | 1 => return some (← readI64)
  | other => Wire.Cursor.ofExcept (.error (.unknownTag other))

/-- A byte string with its length in front. -/
def readBytes : Cursor Bytes := do
  let len ← readU32
  nextOr .truncated len.toNat

def readArray16 : Cursor (Vector UInt8 16) :=
  nextArrayOr .truncated 16

def readArray32 : Cursor (Vector UInt8 32) :=
  nextArrayOr .truncated 32

theorem readU8_follows :
  Follows readU8 Application.readU8
  := Follows.nextByteOr CodecError.truncated

theorem readU32_follows :
  Follows readU32 Application.readU32
  := by
  apply (Follows.nextBeOr CodecError.truncated 4).bind
  intro raw
  apply Follows.pure

theorem readI64_follows :
  Follows readI64 Application.readI64
  := by
  apply (Follows.nextBeOr CodecError.truncated 8).bind
  intro raw
  apply Follows.pure

theorem readOptionI64_follows :
  Follows readOptionI64 Application.readOptionI64
  := by
  apply readU8_follows.bind
  intro flag
  split
  · apply Follows.pure
  · apply readI64_follows.bind
    intro value
    apply Follows.pure
  · exact Follows.ofExcept (.error (CodecError.unknownTag _))

theorem readBytes_follows :
  Follows readBytes Application.readBytes
  := by
  apply readU32_follows.bind
  intro len
  apply Follows.nextOr

theorem readArray16_follows :
  Follows readArray16 Application.readArray16
  := Follows.nextArrayOr CodecError.truncated 16

theorem readArray32_follows :
  Follows readArray32 Application.readArray32
  := Follows.nextArrayOr CodecError.truncated 32

end Cursor

end Application
