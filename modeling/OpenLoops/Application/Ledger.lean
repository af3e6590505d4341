import OpenLoops.Application.Ports
import OpenLoops.Application.Seal
import OpenLoops.Domain.Ids

/-!
# The operation ledger

Every step of a write to the outside is recorded before it is made, as a further row of its
operation: pending, an attempt started, and how the attempt was answered.  The latest row of
an operation is the one with the greatest generation; the next row is made from the record
the caller holds.
-/

namespace Application

open Persistence Domain

/-! ### Records -/

inductive OperationState where
  | pending
  | attemptStarted
  | knownNoSendRetryable
  | ambiguous
  | reconciling
  | userAssisted
  | succeeded
  | definitiveFailed
  | abandoned
deriving DecidableEq, Repr

namespace OperationState

def code : OperationState → UInt8
  | pending => 0
  | attemptStarted => 1
  | knownNoSendRetryable => 2
  | ambiguous => 3
  | reconciling => 4
  | userAssisted => 5
  | succeeded => 6
  | definitiveFailed => 7
  | abandoned => 8

def fromCode : UInt8 → Except CodecError OperationState
  | 0 => .ok pending
  | 1 => .ok attemptStarted
  | 2 => .ok knownNoSendRetryable
  | 3 => .ok ambiguous
  | 4 => .ok reconciling
  | 5 => .ok userAssisted
  | 6 => .ok succeeded
  | 7 => .ok definitiveFailed
  | 8 => .ok abandoned
  | other => .error (.unknownTag other)

/-- Every state is read back from its code, and from no other code. -/
theorem fromCode_eq_ok {code : UInt8} {state : OperationState} :
  fromCode code = .ok state ↔ code = state.code
  := by
  constructor
  · intro h
    unfold fromCode at h
    split at h <;> cases h <;> rfl
  · rintro rfl
    cases state <;> rfl

/-- Every state is read back from its code. -/
theorem fromCode_code (state : OperationState) :
  fromCode state.code = .ok state
  := fromCode_eq_ok.mpr rfl

end OperationState

inductive AmbiguityOrFailureCode where
  | none
  | timeoutUnknown
  | transportKnownNoSend
  | throttledKnownNoSend
  | completeZero
  | completeMany
  | enumerationIncomplete
  | markerMissing
  | markerUnsupported
  | markerRemoved
  | staleVersion
  | ownershipConflict
  | accountMismatch
  | authorityChanged
  | secureStoreUnavailable
  | rollbackSuspected
  | manualDraftUnrecoverable
deriving DecidableEq, Repr

namespace AmbiguityOrFailureCode

def code : AmbiguityOrFailureCode → UInt8
  | none => 0
  | timeoutUnknown => 1
  | transportKnownNoSend => 2
  | throttledKnownNoSend => 3
  | completeZero => 4
  | completeMany => 5
  | enumerationIncomplete => 6
  | markerMissing => 7
  | markerUnsupported => 8
  | markerRemoved => 9
  | staleVersion => 10
  | ownershipConflict => 11
  | accountMismatch => 12
  | authorityChanged => 13
  | secureStoreUnavailable => 14
  | rollbackSuspected => 15
  | manualDraftUnrecoverable => 16

def fromCode : UInt8 → Except CodecError AmbiguityOrFailureCode
  | 0 => .ok none
  | 1 => .ok timeoutUnknown
  | 2 => .ok transportKnownNoSend
  | 3 => .ok throttledKnownNoSend
  | 4 => .ok completeZero
  | 5 => .ok completeMany
  | 6 => .ok enumerationIncomplete
  | 7 => .ok markerMissing
  | 8 => .ok markerUnsupported
  | 9 => .ok markerRemoved
  | 10 => .ok staleVersion
  | 11 => .ok ownershipConflict
  | 12 => .ok accountMismatch
  | 13 => .ok authorityChanged
  | 14 => .ok secureStoreUnavailable
  | 15 => .ok rollbackSuspected
  | 16 => .ok manualDraftUnrecoverable
  | other => .error (.unknownTag other)

/-- Every reason is read back from its code, and from no other code. -/
theorem fromCode_eq_ok {code : UInt8} {reason : AmbiguityOrFailureCode} :
  fromCode code = .ok reason ↔ code = reason.code
  := by
  constructor
  · intro h
    unfold fromCode at h
    split at h <;> cases h <;> rfl
  · rintro rfl
    cases reason <;> rfl

/-- Every reason is read back from its code. -/
theorem fromCode_code (reason : AmbiguityOrFailureCode) :
  fromCode reason.code = .ok reason
  := fromCode_eq_ok.mpr rfl

end AmbiguityOrFailureCode

/-- One row of an operation. -/
structure LedgerRecord where
  operationId : Vector UInt8 16
  operationKeyHmac : Vector UInt8 32
  state : OperationState
  attemptCount : UInt8
  retryAt : Option UnixSeconds
  ambiguityOrFailure : AmbiguityOrFailureCode
  destinationLocator : Bytes
  generation : UInt32
deriving DecidableEq

namespace LedgerRecord

def encode (record : LedgerRecord) : Except CodecError Bytes := do
  let destinationLocator ← pushBytes record.destinationLocator
  return record.operationId.toList
    ++ (record.operationKeyHmac.toList
    ++ (pushU8 record.state.code
    ++ (pushU8 record.attemptCount
    ++ (pushOptionI64 (record.retryAt.map (·.seconds))
    ++ (pushU8 record.ambiguityOrFailure.code
    ++ (destinationLocator
    ++ pushU32 record.generation))))))

def decode : Bytes → Except CodecError LedgerRecord :=
  decodeAll do
    let operationId ← readArray16
    let operationKeyHmac ← readArray32
    let state ← liftM (OperationState.fromCode (← readU8))
    let attemptCount ← readU8
    let retryAt ← readOptionI64
    let ambiguityOrFailure ← liftM (AmbiguityOrFailureCode.fromCode (← readU8))
    let destinationLocator ← readBytes
    let generation ← readU32
    return {
      operationId, operationKeyHmac, state, attemptCount
      retryAt := retryAt.map UnixSeconds.mk
      ambiguityOrFailure, destinationLocator, generation }

/-- An encoded row is read back. -/
theorem decode_encode {record : LedgerRecord} {bytes : Bytes}
    (h : record.encode = .ok bytes) :
  decode bytes = .ok record
  := by
  obtain ⟨destinationLocator, hlocator, ⟨⟩⟩ := Except.bind_eq_ok.mp h
  have hretryAt : (record.retryAt.map (·.seconds)).map UnixSeconds.mk = record.retryAt := by
    rw [Option.map_map]
    apply Option.map_id'
  apply Wire.Reads.readAll
  apply (reads_array16 _).bind
  apply (reads_array32 _).bind
  apply (reads_u8 _).bind
  apply (Wire.Reads.lift (OperationState.fromCode_code _)).bind
  apply (reads_u8 _).bind
  apply (reads_optionI64 _).bind
  apply (reads_u8 _).bind
  apply (Wire.Reads.lift (AmbiguityOrFailureCode.fromCode_code _)).bind
  apply (reads_bytes hlocator).bind
  apply (reads_u32 _).bind_last
  rw [hretryAt]
  apply Wire.Reads.pure

end LedgerRecord

/-! ### Operations -/

/-- The durable state and the key a ledger call works with. -/
structure LedgerContext where
  store : Store
  account : AccountBindingAad
  envelopeKey : EnvelopeKey
  keyUsage : KeyUsageState
  schemaVersion : SchemaVersion

inductive LedgerError where
  | collision (previousKey attemptedKey : Vector UInt8 32)
  | attemptsExhausted
  | notEligibleForRetry
  | digest (error : DigestError)
  | seal (error : SealError)
  | scan (error : ScanError)
deriving DecidableEq

/-- How an operation begins: with a fresh row, or with the row it already has. -/
inductive BeginOutcome where
  | freshPending (record : LedgerRecord)
  | replayed (record : LedgerRecord)
deriving DecidableEq

section

variable (platform : Platform) (ctx : LedgerContext)

/-- The row of an operation with the greatest generation. -/
def latestForOperation (operationId : Vector UInt8 16) (readFails : Bool) :
    Except LedgerError (Option LedgerRecord) := do
  let rows ← (scanRecords platform ctx.envelopeKey ctx.account ctx.store .operationLedger
    LedgerRecord.decode readFails).mapError .scan
  return Log.maxByKey (·.generation.toNat)
    (rows.filter fun row => row.operationId = operationId)

/-- Seal one row and commit it. -/
def append (record : LedgerRecord) (draws : Draws) (writeFails : Bool) :
    Except (Failure LedgerError) Unit × LedgerContext :=
  match (record.encode.expect : Except (Failure LedgerError) _) with
  | .error failure => (.error failure, ctx)
  | .ok encoded =>
      match sealBatch platform ctx.envelopeKey ctx.account ctx.keyUsage ctx.schemaVersion
          [(.operationLedger, encoded)] draws with
      | (.error error, keyUsage) => (.error (.error (.seal error)), { ctx with keyUsage })
      | (.ok envelopes, keyUsage) =>
          match commitBatch ctx.account ctx.store envelopes writeFails with
          | .error error => (.error (.error (.seal error)), { ctx with keyUsage })
          | .ok store => (.ok (), { ctx with keyUsage, store })

/-- Append a row and answer with `answer`. -/
def appendThen {α : Type} (record : LedgerRecord) (answer : α) (draws : Draws)
    (writeFails : Bool) : Except (Failure LedgerError) α × LedgerContext :=
  match append platform ctx record draws writeFails with
  | (.error failure, ctx) => (.error failure, ctx)
  | (.ok (), ctx) => (.ok answer, ctx)

/-- The row an operation begins with. -/
def pendingRow (operationId : Vector UInt8 16) (operationKey : Vector UInt8 32) :
    LedgerRecord :=
  { operationId
    operationKeyHmac := operationKey
    state := .pending
    attemptCount := 0
    retryAt := none
    ambiguityOrFailure := .none
    destinationLocator := []
    generation := 0 }

/-- Begin an operation: with a pending row when it has none, and with its latest row
otherwise. -/
def beginOrReplay (operationId : Vector UInt8 16) (operationKey : Vector UInt8 32)
    (draws : Draws) (readFails writeFails : Bool) :
    Except (Failure LedgerError) BeginOutcome × LedgerContext :=
  match latestForOperation platform ctx operationId readFails with
  | .error error => (.error (.error error), ctx)
  | .ok none =>
      let record := pendingRow operationId operationKey
      appendThen platform ctx record (.freshPending record) draws writeFails
  | .ok (some prev) =>
      if prev.operationKeyHmac ≠ operationKey then
        (.error (.error (.collision prev.operationKeyHmac operationKey)), ctx)
      else (.ok (.replayed prev), ctx)

/-- Append the row that follows, unless there is none. -/
def appendNext (next : Except (Failure LedgerError) LedgerRecord) (draws : Draws)
    (writeFails : Bool) : Except (Failure LedgerError) LedgerRecord × LedgerContext :=
  match next with
  | .error failure => (.error failure, ctx)
  | .ok next => appendThen platform ctx next next draws writeFails

/-- The row of a retry. -/
def nextRetry (current : LedgerRecord) : Except (Failure LedgerError) LedgerRecord :=
  if current.state ≠ .knownNoSendRetryable then .error (.error .notEligibleForRetry)
  else if 3 ≤ current.attemptCount.toNat then .error (.error .attemptsExhausted)
  else do
    let attemptCount ← current.attemptCount.succOrPanic
    let generation ← current.generation.succOrPanic
    return { current with
      state := .attemptStarted
      attemptCount
      retryAt := none
      ambiguityOrFailure := .none
      generation }

/-- Start the next attempt of an operation whose last attempt is known to have sent
nothing. -/
def commitEligibleRetry (current : LedgerRecord) (draws : Draws) (writeFails : Bool) :
    Except (Failure LedgerError) LedgerRecord × LedgerContext :=
  appendNext platform ctx (nextRetry current) draws writeFails

/-- The row of an attempt that starts.  Neither the state nor the number of attempts is
checked. -/
def nextAttempt (pending : LedgerRecord) : Except (Failure LedgerError) LedgerRecord := do
  let attemptCount ← pending.attemptCount.succOrPanic
  let generation ← pending.generation.succOrPanic
  return { pending with state := .attemptStarted, attemptCount, generation }

/-- Record that an attempt is about to be made. -/
def markAttemptStarted (pending : LedgerRecord) (draws : Draws) (writeFails : Bool) :
    Except (Failure LedgerError) LedgerRecord × LedgerContext :=
  appendNext platform ctx (nextAttempt pending) draws writeFails

/-- The row of an answer. -/
def nextClassified (inFlight : LedgerRecord) (outcome : AdapterOutcome)
    (failureHint : AmbiguityOrFailureCode) : Except (Failure LedgerError) LedgerRecord := do
  let generation ← inFlight.generation.succOrPanic
  match outcome with
  | .succeeded destinationLocator =>
      return { inFlight with
        state := .succeeded, ambiguityOrFailure := .none, destinationLocator, generation }
  | .knownNoSend =>
      return { inFlight with
        state :=
          if inFlight.attemptCount.toNat < 3 then .knownNoSendRetryable
          else .definitiveFailed
        ambiguityOrFailure := .transportKnownNoSend
        generation }
  | .ambiguous =>
      return { inFlight with
        state := .ambiguous, ambiguityOrFailure := failureHint, generation }
  | .definitiveFailure =>
      return { inFlight with
        state := .definitiveFailed, ambiguityOrFailure := failureHint, generation }

/-- Record how an attempt was answered. -/
def classifyOutcome (inFlight : LedgerRecord) (outcome : AdapterOutcome)
    (failureHint : AmbiguityOrFailureCode) (draws : Draws) (writeFails : Bool) :
    Except (Failure LedgerError) LedgerRecord × LedgerContext :=
  appendNext platform ctx (nextClassified inFlight outcome failureHint) draws writeFails

end

end Application
