import OpenLoops.Application.Ingestion
import OpenLoops.Application.Ledger

/-!
# Canonical records

The rows of the ledger, of the checkpoint log and of the observation log are decoded by index.
No index is out of range, every row is read back from its encoding, and bytes that are accepted
are the encoding of what they are read as.
-/

namespace Application

open Domain Wire

/-- Only byte strings whose length takes up four bytes are written. -/
theorem pushBytes_isOk {value : Bytes} :
  (∃ written, pushBytes value = .ok written) ↔ value.length < 2 ^ 32
  := by
  rw [pushBytes]
  constructor
  · rintro ⟨written, h⟩
    split_ifs at h with hfits
    exact hfits
  · intro hfits
    use be 4 value.length ++ value
    apply if_pos hfits

/-! ### Rows of the ledger -/

namespace LedgerRecord

/-- Decode a row by index. -/
def decodeAt : Bytes → Except (Failure CodecError) LedgerRecord :=
  Wire.Cursor.runAll .trailingBytes do
    let operationId ← Cursor.readArray16
    let operationKeyHmac ← Cursor.readArray32
    let state ← Wire.Cursor.ofExcept (OperationState.fromCode (← Cursor.readU8))
    let attemptCount ← Cursor.readU8
    let retryAt ← Cursor.readOptionI64
    let ambiguityOrFailure ← Wire.Cursor.ofExcept (AmbiguityOrFailureCode.fromCode (← Cursor.readU8))
    let destinationLocator ← Cursor.readBytes
    let generation ← Cursor.readU32
    return {
      operationId, operationKeyHmac, state, attemptCount
      retryAt := retryAt.map UnixSeconds.mk
      ambiguityOrFailure, destinationLocator, generation }

/-- Decoding by index gives what cutting the fields off gives. -/
theorem decodeAt_eq (bytes : Bytes) :
  decodeAt bytes = (decode bytes).mapError .error
  := by
  apply Wire.Cursor.Follows.runAll_eq
  apply Cursor.readArray16_follows.bind
  intro operationId
  apply Cursor.readArray32_follows.bind
  intro operationKeyHmac
  apply Cursor.readU8_follows.bind
  intro stateCode
  apply (Wire.Cursor.Follows.ofExcept (OperationState.fromCode stateCode)).bind
  intro state
  apply Cursor.readU8_follows.bind
  intro attemptCount
  apply Cursor.readOptionI64_follows.bind
  intro retryAt
  apply Cursor.readU8_follows.bind
  intro reasonCode
  apply (Wire.Cursor.Follows.ofExcept (AmbiguityOrFailureCode.fromCode reasonCode)).bind
  intro ambiguityOrFailure
  apply Cursor.readBytes_follows.bind
  intro destinationLocator
  apply Cursor.readU32_follows.bind
  intro generation
  apply Wire.Cursor.Follows.pure

/-- A row is encoded exactly when its locator is not too long. -/
theorem encode_isOk {record : LedgerRecord} :
  (∃ bytes, record.encode = .ok bytes) ↔ record.destinationLocator.length < 2 ^ 32
  := Except.exists_map_eq_ok.trans pushBytes_isOk

/-- Bytes that are accepted are the encoding of the row they are read as. -/
theorem encode_of_decode {bytes : Bytes} {record : LedgerRecord}
    (h : decode bytes = .ok record) :
  record.encode = .ok bytes
  := by
  replace h := readAll_eq_ok.mp h
  obtain ⟨operationId, _, hoperationId, h⟩ := StateT.run_bind_eq_ok.mp h
  obtain ⟨operationKeyHmac, _, hoperationKey, h⟩ := StateT.run_bind_eq_ok.mp h
  obtain ⟨stateCode, _, hstateCode, h⟩ := StateT.run_bind_eq_ok.mp h
  obtain ⟨state, _, hcheckState, h⟩ := StateT.run_bind_eq_ok.mp h
  obtain ⟨attemptCount, _, hattemptCount, h⟩ := StateT.run_bind_eq_ok.mp h
  obtain ⟨retryAt, _, hretryAt, h⟩ := StateT.run_bind_eq_ok.mp h
  obtain ⟨reasonCode, _, hreasonCode, h⟩ := StateT.run_bind_eq_ok.mp h
  obtain ⟨ambiguityOrFailure, _, hcheckReason, h⟩ := StateT.run_bind_eq_ok.mp h
  obtain ⟨destinationLocator, _, hlocator, h⟩ := StateT.run_bind_eq_ok.mp h
  obtain ⟨generation, _, hgeneration, h⟩ := StateT.run_bind_eq_ok.mp h
  cases h
  obtain ⟨hstate, rfl⟩ := StateT.run_lift_eq_ok.mp hcheckState
  obtain ⟨hreason, rfl⟩ := StateT.run_lift_eq_ok.mp hcheckReason
  obtain ⟨written, hwritten, rfl⟩ := readBytes_eq_ok.mp hlocator
  have hseconds : (retryAt.map UnixSeconds.mk).map (·.seconds) = retryAt := by
    rw [Option.map_map]
    apply Option.map_id'
  apply Except.bind_eq_ok.mpr
  use written, hwritten
  rw [readArray_eq_ok.mp hoperationId, readArray_eq_ok.mp hoperationKey,
    readU8_eq_ok.mp hstateCode, OperationState.fromCode_eq_ok.mp hstate,
    readU8_eq_ok.mp hattemptCount, readOptionI64_eq_ok.mp hretryAt, readU8_eq_ok.mp hreasonCode,
    AmbiguityOrFailureCode.fromCode_eq_ok.mp hreason, readU32_eq_ok.mp hgeneration, hseconds,
    List.append_nil]
  rfl

end LedgerRecord

/-! ### Rows of the checkpoint log -/

namespace CheckpointRecord

/-- A flag that was read stands in front. -/
theorem readFlag_eq_ok {bytes rest : Bytes} {flag : Bool} :
  readFlag.run bytes = .ok (flag, rest)
    ↔ bytes = pushU8 (if flag then 1 else 0) ++ rest
  := by
  constructor
  · intro h
    obtain ⟨code, _, hcode, h⟩ := StateT.run_bind_eq_ok.mp h
    rw [readU8_eq_ok] at hcode
    split at h
    · cases h
      exact hcode
    · cases h
      exact hcode
    · cases h
  · rintro rfl
    apply reads_flag

/-- Decode a row by index. -/
def decodeAt : Bytes → Except (Failure CodecError) CheckpointRecord :=
  Wire.Cursor.runAll .trailingBytes do
    let generation ← Cursor.readU32
    let collectionId ← Cursor.readArray32
    let cursor ← Cursor.readBytes
    let baselineCommitted ← flagAt
    let lastCompleteAt ← Cursor.readOptionI64
    return { generation, collectionId, cursor, baselineCommitted, lastCompleteAt }

/-- Decoding by index gives what cutting the fields off gives. -/
theorem decodeAt_eq (bytes : Bytes) :
  decodeAt bytes = (decode bytes).mapError .error
  := by
  apply Wire.Cursor.Follows.runAll_eq
  apply Cursor.readU32_follows.bind
  intro generation
  apply Cursor.readArray32_follows.bind
  intro collectionId
  apply Cursor.readBytes_follows.bind
  intro cursor
  apply flagAt_follows.bind
  intro baselineCommitted
  apply Cursor.readOptionI64_follows.bind
  intro lastCompleteAt
  apply Wire.Cursor.Follows.pure

/-- A row is encoded exactly when its cursor is not too long. -/
theorem encode_isOk {record : CheckpointRecord} :
  (∃ bytes, record.encode = .ok bytes) ↔ record.cursor.length < 2 ^ 32
  := Except.exists_map_eq_ok.trans pushBytes_isOk

/-- Bytes that are accepted are the encoding of the row they are read as. -/
theorem encode_of_decode {bytes : Bytes} {record : CheckpointRecord}
    (h : decode bytes = .ok record) :
  record.encode = .ok bytes
  := by
  replace h := readAll_eq_ok.mp h
  obtain ⟨generation, _, hgeneration, h⟩ := StateT.run_bind_eq_ok.mp h
  obtain ⟨collectionId, _, hcollectionId, h⟩ := StateT.run_bind_eq_ok.mp h
  obtain ⟨cursor, _, hcursor, h⟩ := StateT.run_bind_eq_ok.mp h
  obtain ⟨baselineCommitted, _, hbaseline, h⟩ := StateT.run_bind_eq_ok.mp h
  obtain ⟨lastCompleteAt, _, hlastComplete, h⟩ := StateT.run_bind_eq_ok.mp h
  cases h
  obtain ⟨written, hwritten, rfl⟩ := readBytes_eq_ok.mp hcursor
  apply Except.bind_eq_ok.mpr
  use written, hwritten
  rw [readU32_eq_ok.mp hgeneration, readArray_eq_ok.mp hcollectionId,
    readFlag_eq_ok.mp hbaseline, readOptionI64_eq_ok.mp hlastComplete, List.append_nil]
  rfl

end CheckpointRecord

/-! ### Rows of the observation log -/

namespace ObservationRecord

/-- Decode a row by index. -/
def decodeAt : Bytes → Except (Failure CodecError) ObservationRecord :=
  Wire.Cursor.runAll .trailingBytes do
    let dedupKey ← Cursor.readArray32
    let outcome ← Wire.Cursor.ofExcept (JobOutcome.fromCode (← Cursor.readU8))
    let reFetchLocator ← Cursor.readBytes
    return { dedupKey, outcome, reFetchLocator }

/-- Decoding by index gives what cutting the fields off gives. -/
theorem decodeAt_eq (bytes : Bytes) :
  decodeAt bytes = (decode bytes).mapError .error
  := by
  apply Wire.Cursor.Follows.runAll_eq
  apply Cursor.readArray32_follows.bind
  intro dedupKey
  apply Cursor.readU8_follows.bind
  intro code
  apply (Wire.Cursor.Follows.ofExcept (JobOutcome.fromCode code)).bind
  intro outcome
  apply Cursor.readBytes_follows.bind
  intro reFetchLocator
  apply Wire.Cursor.Follows.pure

/-- A row is encoded exactly when its locator is not too long. -/
theorem encode_isOk {record : ObservationRecord} :
  (∃ bytes, record.encode = .ok bytes) ↔ record.reFetchLocator.length < 2 ^ 32
  := Except.exists_map_eq_ok.trans pushBytes_isOk

/-- Bytes that are accepted are the encoding of the row they are read as. -/
theorem encode_of_decode {bytes : Bytes} {record : ObservationRecord}
    (h : decode bytes = .ok record) :
  record.encode = .ok bytes
  := by
  replace h := readAll_eq_ok.mp h
  obtain ⟨dedupKey, _, hdedupKey, h⟩ := StateT.run_bind_eq_ok.mp h
  obtain ⟨code, _, hcode, h⟩ := StateT.run_bind_eq_ok.mp h
  obtain ⟨outcome, _, hcheckOutcome, h⟩ := StateT.run_bind_eq_ok.mp h
  obtain ⟨reFetchLocator, _, hlocator, h⟩ := StateT.run_bind_eq_ok.mp h
  cases h
  obtain ⟨houtcome, rfl⟩ := StateT.run_lift_eq_ok.mp hcheckOutcome
  obtain ⟨written, hwritten, rfl⟩ := readBytes_eq_ok.mp hlocator
  apply Except.bind_eq_ok.mpr
  use written, hwritten
  rw [readArray_eq_ok.mp hdedupKey, readU8_eq_ok.mp hcode, JobOutcome.fromCode_eq_ok.mp houtcome,
    List.append_nil]
  rfl

end ObservationRecord

/-! ### All records -/

/-- Rows of the ledger, of the checkpoint log and of the observation log are read back from their
encodings, byte strings that are accepted are the encoding of what they are read as, and no byte
string makes a decoder panic.  Every row is encoded, unless a byte string in it is so long that
the encoder panics. -/
theorem records_canonical :
  (Canonical LedgerRecord.encode LedgerRecord.decodeAt
      ∧ ∀ record : LedgerRecord, (∃ bytes, record.encode = .ok bytes)
        ↔ record.destinationLocator.length < 2 ^ 32)
    ∧ (Canonical CheckpointRecord.encode CheckpointRecord.decodeAt
      ∧ ∀ record : CheckpointRecord, (∃ bytes, record.encode = .ok bytes)
        ↔ record.cursor.length < 2 ^ 32)
    ∧ Canonical ObservationRecord.encode ObservationRecord.decodeAt
      ∧ ∀ record : ObservationRecord, (∃ bytes, record.encode = .ok bytes)
        ↔ record.reFetchLocator.length < 2 ^ 32
  := by
  constructor
  · use Canonical.of_eq LedgerRecord.decodeAt_eq LedgerRecord.decode_encode
      LedgerRecord.encode_of_decode
    intro record
    apply LedgerRecord.encode_isOk
  · constructor
    · use Canonical.of_eq CheckpointRecord.decodeAt_eq CheckpointRecord.decode_encode
        CheckpointRecord.encode_of_decode
      intro record
      apply CheckpointRecord.encode_isOk
    · use Canonical.of_eq ObservationRecord.decodeAt_eq ObservationRecord.decode_encode
        ObservationRecord.encode_of_decode
      intro record
      apply ObservationRecord.encode_isOk

end Application
