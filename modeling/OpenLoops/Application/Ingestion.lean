import OpenLoops.Application.Ports
import OpenLoops.Application.Seal

/-!
# Page ingestion

A delta page is planned item by item, sealed, and committed with its checkpoint in one
transaction.  An item that a committed row already records is replayed; any other item is
classified, in a bounded number of attempts, and gets a row of its own.
-/

namespace Application

open Persistence

/-! ### Eligibility -/

inductive EligibilityOutcome where
  | noCandidate
  | historyReviewBatch
  | analyzeOnce
deriving DecidableEq, Repr

/-- What an item is eligible for. -/
def classifyEligibility (item : DeltaPageItem) : EligibilityOutcome :=
  match item.direction with
  | .draftOrCompose => .noCandidate
  | .incoming =>
      if item.inBackfillBatch then
        match item.readState with
        | .firstObservedRead | .unreadToRead => .historyReviewBatch
        | .firstObservedUnread | .stillUnread => .noCandidate
      else
        match item.readState with
        | .unreadToRead | .firstObservedRead => .analyzeOnce
        | .firstObservedUnread | .stillUnread => .noCandidate
  | .outgoingSavedSentCopy =>
      if item.inBackfillBatch then .historyReviewBatch
      else if item.firstObserved then .analyzeOnce
      else .noCandidate

/-- An item of the backfill is never analysed. -/
theorem classifyEligibility_backfill {item : DeltaPageItem} (h : item.inBackfillBatch = true) :
  classifyEligibility item ≠ .analyzeOnce
  := by
  rw [classifyEligibility, h]
  cases item.direction <;> cases item.readState <;> simp

/-! ### Records -/

/-- The durable outcome of an item. -/
inductive JobOutcome where
  | noCandidate
  | needsReview
  | quarantined
deriving DecidableEq, Repr

namespace JobOutcome

def code : JobOutcome → UInt8
  | noCandidate => 0
  | needsReview => 1
  | quarantined => 2

def fromCode : UInt8 → Except CodecError JobOutcome
  | 0 => .ok noCandidate
  | 1 => .ok needsReview
  | 2 => .ok quarantined
  | other => .error (.unknownTag other)

/-- Every outcome is read back from its code, and from no other code. -/
theorem fromCode_eq_ok {code : UInt8} {outcome : JobOutcome} :
  fromCode code = .ok outcome ↔ code = outcome.code
  := by
  constructor
  · intro h
    unfold fromCode at h
    split at h <;> cases h <;> rfl
  · rintro rfl
    cases outcome <;> rfl

/-- Every outcome is read back from its code. -/
theorem fromCode_code (outcome : JobOutcome) :
  fromCode outcome.code = .ok outcome
  := fromCode_eq_ok.mpr rfl

end JobOutcome

/-- A row of the checkpoint log of a collection. -/
structure CheckpointRecord where
  generation : UInt32
  collectionId : Vector UInt8 32
  cursor : Bytes
  baselineCommitted : Bool
  lastCompleteAt : Option Int64
deriving DecidableEq

namespace CheckpointRecord

def encode (record : CheckpointRecord) : Except CodecError Bytes := do
  let cursor ← pushBytes record.cursor
  return pushU32 record.generation
    ++ (record.collectionId.toList
    ++ (cursor
    ++ (pushU8 (if record.baselineCommitted then 1 else 0)
    ++ pushOptionI64 record.lastCompleteAt)))

/-- Read a flag of one byte. -/
def readFlag : Reader Bool := do
  match ← readU8 with
  | 0 => return false
  | 1 => return true
  | other => throw (.unknownTag other)

def decode : Bytes → Except CodecError CheckpointRecord :=
  decodeAll do
    let generation ← readU32
    let collectionId ← readArray32
    let cursor ← readBytes
    let baselineCommitted ← readFlag
    let lastCompleteAt ← readOptionI64
    return { generation, collectionId, cursor, baselineCommitted, lastCompleteAt }

theorem reads_flag (flag : Bool) :
  Wire.Reads readFlag (pushU8 (if flag then 1 else 0)) flag
  := by
  rw [readFlag]
  apply (reads_u8 _).bind_last
  cases flag
  · apply Wire.Reads.pure
  · apply Wire.Reads.pure

/-- Read a flag of one byte, by index. -/
def flagAt : Application.Cursor Bool := do
  match ← Cursor.readU8 with
  | 0 => return false
  | 1 => return true
  | other => Wire.Cursor.ofExcept (.error (.unknownTag other))

theorem flagAt_follows :
  Wire.Cursor.Follows flagAt readFlag
  := by
  apply Cursor.readU8_follows.bind
  intro code
  split
  · apply Wire.Cursor.Follows.pure
  · apply Wire.Cursor.Follows.pure
  · exact Wire.Cursor.Follows.ofExcept (.error (CodecError.unknownTag _))

/-- An encoded checkpoint is read back. -/
theorem decode_encode {record : CheckpointRecord} {bytes : Bytes}
    (h : record.encode = .ok bytes) :
  decode bytes = .ok record
  := by
  obtain ⟨cursor, hcursor, ⟨⟩⟩ := Except.bind_eq_ok.mp h
  apply Wire.Reads.readAll
  apply (reads_u32 _).bind
  apply (reads_array32 _).bind
  apply (reads_bytes hcursor).bind
  apply (reads_flag _).bind
  apply (reads_optionI64 _).bind_last
  apply Wire.Reads.pure

end CheckpointRecord

/-- The row of one item. -/
structure ObservationRecord where
  dedupKey : Vector UInt8 32
  outcome : JobOutcome
  reFetchLocator : Bytes
deriving DecidableEq

namespace ObservationRecord

def encode (record : ObservationRecord) : Except CodecError Bytes := do
  let reFetchLocator ← pushBytes record.reFetchLocator
  return record.dedupKey.toList ++ (pushU8 record.outcome.code ++ reFetchLocator)

def decode : Bytes → Except CodecError ObservationRecord :=
  decodeAll do
    let dedupKey ← readArray32
    let outcome ← liftM (JobOutcome.fromCode (← readU8))
    let reFetchLocator ← readBytes
    return { dedupKey, outcome, reFetchLocator }

/-- An encoded observation is read back. -/
theorem decode_encode {record : ObservationRecord} {bytes : Bytes}
    (h : record.encode = .ok bytes) :
  decode bytes = .ok record
  := by
  obtain ⟨reFetchLocator, hlocator, ⟨⟩⟩ := Except.bind_eq_ok.mp h
  apply Wire.Reads.readAll
  apply (reads_array32 _).bind
  apply (reads_u8 _).bind
  apply (Wire.Reads.lift (JobOutcome.fromCode_code _)).bind
  apply (reads_bytes hlocator).bind_last
  apply Wire.Reads.pure

end ObservationRecord

/-! ### Planning a page -/

/-- One attempt to classify an item. -/
inductive ItemAttempt where
  | terminal (outcome : JobOutcome)
  | retryable
deriving DecidableEq, Repr

/-- A classifier, whose calls may change its state. -/
abbrev ItemClassifier (κ : Type) :=
  κ → DeltaPageItem → EligibilityOutcome → ItemAttempt × κ

/-- The classifier that leaves every eligible item to a review. -/
def surfaceToReviewClassifier : ItemClassifier Unit := fun _ _ eligibility =>
  match eligibility with
  | .noCandidate => (.terminal .noCandidate, ())
  | .historyReviewBatch | .analyzeOnce => (.terminal .needsReview, ())

inductive IngestionError where
  | wholePageFailure (error : MailSourceError)
  | digest (error : DigestError)
  | seal (error : SealError)
  | scan (error : ScanError)
  | codec (error : CodecError)
deriving DecidableEq, Repr

/-- The durable state and the keys a page transaction works with. -/
structure IngestionContext where
  store : Store
  account : AccountBindingAad
  envelopeKey : EnvelopeKey
  keyUsage : KeyUsageState
  digestKey : ContentDigestKey
  schemaVersion : SchemaVersion

section

variable (platform : Platform) (ctx : IngestionContext)

/-- The key an item is known by in the observation log. -/
def dedupKey (item : DeltaPageItem) : Except DigestError (Vector UInt8 32) :=
  Digest.compute platform.hmac ctx.digestKey .messageObservationSourceVersion ctx.account
    ctx.schemaVersion [item.testedLocator, item.observedVersion]

/-- The checkpoint of a collection with the greatest generation. -/
def currentCheckpoint (collectionId : Vector UInt8 32) (readFails : Bool) :
    Except IngestionError (Option CheckpointRecord) := do
  let rows ← (scanRecords platform ctx.envelopeKey ctx.account ctx.store .syncCheckpoint
    CheckpointRecord.decode readFails).mapError .scan
  return Log.maxByKey (·.generation.toNat)
    (rows.filter fun row => row.collectionId = collectionId)

/-- The observation with a dedup key, when there is one. -/
def existingObservation (key : Vector UInt8 32) (readFails : Bool) :
    Except IngestionError (Option ObservationRecord) := do
  let rows ← (scanRecords platform ctx.envelopeKey ctx.account ctx.store .messageObservation
    ObservationRecord.decode readFails).mapError .scan
  return rows.find? fun row => row.dedupKey = key

/-- Whether a page of the collection has closed a round, according to its checkpoint. -/
def baselineInForce (checkpoint : Option CheckpointRecord) : Bool :=
  checkpoint.any (·.baselineCommitted)

/-- An item as it is seen before the page it is on is committed. -/
def itemInForce (baselineCommitted : Bool) (rawItem : DeltaPageItem) : DeltaPageItem :=
  { rawItem with inBackfillBatch := rawItem.inBackfillBatch || !baselineCommitted }

variable {κ : Type} (classifier : ItemClassifier κ)

/-- The outcome of at most `attempts` attempts, when one of them is terminal. -/
def classifyWithin (item : DeltaPageItem) (eligibility : EligibilityOutcome) :
    (attempts : ℕ) → κ → Option JobOutcome × κ
  | 0, state => (none, state)
  | attempts + 1, state =>
      match classifier state item eligibility with
      | (.terminal outcome, state) => (some outcome, state)
      | (.retryable, state) => classifyWithin item eligibility attempts state

/-- What is planned for an item: to leave it at the row it has, or to write a row, given
with its encoding. -/
inductive PlannedItem where
  | replayed (existing : ObservationRecord)
  | recorded (record : ObservationRecord)
      (encoded : { bytes : Bytes // record.encode = .ok bytes })

namespace PlannedItem

/-- The row an item has after the commit. -/
def record : PlannedItem → ObservationRecord
  | replayed record | recorded record _ => record

/-- The row an item adds. -/
def added : PlannedItem → Option ObservationRecord
  | replayed _ => none
  | recorded record _ => some record

/-- The plaintext an item adds. -/
def plaintext : PlannedItem → Option (RecordType × Bytes)
  | replayed _ => none
  | recorded _ encoded => some (.messageObservation, encoded.val)

end PlannedItem

/-- A planning step: it may fail or panic, and goes on from the state of the classifier. -/
abbrev Planning (κ : Type) (α : Type) := StateT κ (Except (Failure IngestionError)) α

/-- A step that may fail. -/
def orFail {ε α : Type} (x : Except ε α) (f : ε → IngestionError) :
    Except (Failure IngestionError) α :=
  x.mapError fun e => .error (f e)

/-- Plan one item of a page. -/
def planItem (baselineCommitted : Bool) (maxItemAttempts : UInt8)
    (rawItem : DeltaPageItem) (readFails : Bool) : Planning κ PlannedItem := do
  let item := itemInForce baselineCommitted rawItem
  let key ← orFail (dedupKey platform ctx item) .digest
  match ← orFail (existingObservation platform ctx key readFails) id with
  | some existing => return .replayed existing
  | none =>
      let eligibility := classifyEligibility item
      let attempts := max maxItemAttempts.toNat 1
      let outcome ← modifyGet (classifyWithin classifier item eligibility attempts)
      let outcome := outcome.getD .quarantined
      let record : ObservationRecord :=
        { dedupKey := key
          outcome
          reFetchLocator := if outcome = .quarantined then item.reFetchLocator else [] }
      let encoded ← (record.encode.expect : Except (Failure IngestionError) _)
      return .recorded record encoded

/-- The generation after the checkpoint of a collection. -/
def nextGeneration : Option CheckpointRecord → Except (Failure IngestionError) UInt32
  | none => .ok 0
  | some checkpoint => checkpoint.generation.succOrPanic

/-- What a page transaction reports. -/
structure PageTransactionOutcome where
  cursor : Bytes
  closesRound : Bool
  itemOutcomes : List JobOutcome
  quarantinedLocators : List Bytes
deriving DecidableEq

/-- What is planned for a page before anything is sealed. -/
structure PlannedRows where
  page : DeltaPage
  items : List PlannedItem
  checkpoint : CheckpointRecord
  encoded : { bytes : Bytes // checkpoint.encode = .ok bytes }

namespace PlannedRows

/-- The plaintexts a page adds: the new observations and its checkpoint. -/
def plaintexts (rows : PlannedRows) : List (RecordType × Bytes) :=
  rows.items.filterMap PlannedItem.plaintext ++ [(RecordType.syncCheckpoint, rows.encoded.val)]

/-- What is reported of the rows of a page. -/
def outcome (rows : PlannedRows) : PageTransactionOutcome :=
  let records := rows.items.map PlannedItem.record
  { cursor := rows.page.nextCursor
    closesRound := rows.page.closesRound
    itemOutcomes := records.map (·.outcome)
    quarantinedLocators :=
      (records.filter fun r => r.outcome = .quarantined).map (·.reFetchLocator) }

end PlannedRows

/-- Plan the rows of a page: one for each item that has none, and a checkpoint.  `readFails`
says which reads of the store fail, the read of the checkpoint first. -/
def planRows (collectionId : Vector UInt8 32) (fetchResult : Except MailSourceError DeltaPage)
    (state : κ) (maxItemAttempts : UInt8) (readFails : ℕ → Bool) :
    Except (Failure IngestionError) PlannedRows := do
  let page ← orFail fetchResult .wholePageFailure
  let existing ← orFail (currentCheckpoint platform ctx collectionId (readFails 0)) id
  let baselineCommitted := baselineInForce existing
  let generation ← nextGeneration existing
  let items ← (page.items.zipIdx.mapM fun (rawItem, i) =>
    planItem platform ctx classifier baselineCommitted maxItemAttempts rawItem
      (readFails (i + 1))).run' state
  let checkpoint : CheckpointRecord :=
    { generation
      collectionId
      cursor := page.nextCursor
      baselineCommitted := baselineCommitted || page.closesRound
      lastCompleteAt := none }
  let encoded ← checkpoint.encode.expect
  return { page, items, checkpoint, encoded }

/-- A planned page: what its transaction will report, and the sealed rows to commit. -/
structure PlannedPage where
  outcome : PageTransactionOutcome
  envelopes : List Envelope

/-- Plan a page and seal its rows.  The usage of the key in the context may change, the
store does not. -/
def planPageTransaction (collectionId : Vector UInt8 32)
    (fetchResult : Except MailSourceError DeltaPage) (state : κ) (maxItemAttempts : UInt8)
    (readFails : ℕ → Bool) (draws : Draws) :
    Except (Failure IngestionError) PlannedPage × IngestionContext :=
  match planRows platform ctx classifier collectionId fetchResult state maxItemAttempts
      readFails with
  | .error failure => (.error failure, ctx)
  | .ok rows =>
      let (sealed, keyUsage) := sealBatch platform ctx.envelopeKey ctx.account ctx.keyUsage
        ctx.schemaVersion rows.plaintexts draws
      ((orFail sealed .seal).map fun envelopes => ⟨rows.outcome, envelopes⟩,
        { ctx with keyUsage })

/-- Commit a planned page in one transaction. -/
def commitPlannedPage (ctx : IngestionContext) (planned : PlannedPage) (writeFails : Bool) :
    Except (Failure IngestionError) IngestionContext := do
  let store ← orFail (commitBatch ctx.account ctx.store planned.envelopes writeFails) .seal
  return { ctx with store }

/-- Plan a page, then commit it. -/
def runPageTransaction (collectionId : Vector UInt8 32)
    (fetchResult : Except MailSourceError DeltaPage) (state : κ) (maxItemAttempts : UInt8)
    (readFails : ℕ → Bool) (draws : Draws) (writeFails : Bool) :
    Except (Failure IngestionError) PageTransactionOutcome × IngestionContext :=
  match planPageTransaction platform ctx classifier collectionId fetchResult state
      maxItemAttempts readFails draws with
  | (.error failure, ctx) => (.error failure, ctx)
  | (.ok planned, ctx) =>
      match commitPlannedPage ctx planned writeFails with
      | .error failure => (.error failure, ctx)
      | .ok ctx => (.ok planned.outcome, ctx)

end

end Application
