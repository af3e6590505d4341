import OpenLoops.Application.LedgerLog
import OpenLoops.Application.LedgerOrder
import OpenLoops.Library.Machine

/-!
# Runs of ledger calls

Workers call the ledger in any order, each with a record of its own.  The rows of an
operation are numbered and count its attempts as long as every call that appends is given
the latest row and starts no fourth attempt.
-/

namespace Application

open Persistence

/-! ### The machine -/

/-- One call: the request, and what goes wrong. -/
structure LedgerCall where
  request : LedgerRequest
  keyUsage : KeyUsageState
  schemaVersion : SchemaVersion
  draws : Draws
  readFails : Bool
  writeFails : Bool

/-- How the ledger answers. -/
inductive LedgerAnswer where
  | began (outcome : BeginOutcome)
  | appended (record : LedgerRecord)
  | failed (failure : Failure LedgerError)
deriving DecidableEq

namespace LedgerAnswer

/-- The row that was appended. -/
def row? : LedgerAnswer → Option LedgerRecord
  | began (.freshPending record) | appended record => some record
  | began (.replayed _) | failed _ => none

def ofBegin : Except (Failure LedgerError) BeginOutcome → LedgerAnswer
  | .ok outcome => began outcome
  | .error failure => failed failure

def ofAppend : Except (Failure LedgerError) LedgerRecord → LedgerAnswer
  | .ok record => appended record
  | .error failure => failed failure

end LedgerAnswer

namespace Installation

variable (env : Installation)

/-- The context of a call at a store. -/
def ledgerContext (store : Store) (call : LedgerCall) : LedgerContext :=
  { store
    account := env.account
    envelopeKey := env.envelopeKey
    keyUsage := call.keyUsage
    schemaVersion := call.schemaVersion }

/-- The machine whose steps are ledger calls. -/
def ledger : Machine Store LedgerCall LedgerAnswer where
  step store call :=
    let ctx := env.ledgerContext store call
    match call.request with
    | .beginOrReplay operationId operationKey =>
        let (result, ctx) := beginOrReplay env.platform ctx operationId operationKey call.draws
          call.readFails call.writeFails
        (ctx.store, .ofBegin result)
    | .markAttemptStarted pending =>
        let (result, ctx) :=
          markAttemptStarted env.platform ctx pending call.draws call.writeFails
        (ctx.store, .ofAppend result)
    | .classifyOutcome inFlight outcome failureHint =>
        let (result, ctx) := classifyOutcome env.platform ctx inFlight outcome failureHint
          call.draws call.writeFails
        (ctx.store, .ofAppend result)
    | .commitEligibleRetry current =>
        let (result, ctx) :=
          commitEligibleRetry env.platform ctx current call.draws call.writeFails
        (ctx.store, .ofAppend result)

/-- The rows of the ledger as they are read back. -/
def scanLedger (store : Store) : Except ScanError (List LedgerRecord) :=
  scanRecords env.platform env.envelopeKey env.account store .operationLedger
    LedgerRecord.decode false

end Installation

/-- The rows appended in a history, in order. -/
def appendedRows (history : List (Machine.Event Store LedgerCall LedgerAnswer)) :
    List LedgerRecord :=
  history.filterMap fun event => event.output.row?

/-! ### One call -/

section

variable {env : Installation} {records : List LedgerRecord} {store : Store}

/-- What appending the row that follows does, as an answer. -/
theorem ofAppend_cases {ctx ctx' : LedgerContext} {request : LedgerRequest}
    {next result : Except (Failure LedgerError) LedgerRecord} {draws : Draws}
    {writeFails : Bool}
    (hledgered : Ledgered env.platform ctx.envelopeKey ctx.account ctx.store records)
    (hrow : ∀ row, next = .ok row → RowOf records request row)
    (h : appendNext env.platform ctx next draws writeFails = (result, ctx')) :
  ((LedgerAnswer.ofAppend result).row? = none ∧ ctx'.store = ctx.store)
  ∨ ∃ row, (LedgerAnswer.ofAppend result).row? = some row ∧ RowOf records request row
      ∧ Ledgered env.platform ctx.envelopeKey ctx.account ctx'.store (records ++ [row])
  := by
  obtain ⟨failure, rfl, hstore⟩ | ⟨row, rfl, hnext, hledgered'⟩ := appendNext_cases hledgered h
  · left
    exact ⟨rfl, hstore⟩
  · right
    exact ⟨row, rfl, hrow row hnext, hledgered'⟩

/-- A call appends a row of its request, or leaves the store as it is. -/
theorem ledger_step_cases {call : LedgerCall}
    (hledgered : Ledgered env.platform env.envelopeKey env.account store records) :
  ((env.ledger.step store call).2.row? = none ∧ env.ledger.next store call = store)
  ∨ ∃ row, (env.ledger.step store call).2.row? = some row
      ∧ RowOf records call.request row
      ∧ Ledgered env.platform env.envelopeKey env.account (env.ledger.next store call)
          (records ++ [row])
  := by
  have hctx : Ledgered env.platform (env.ledgerContext store call).envelopeKey
      (env.ledgerContext store call).account (env.ledgerContext store call).store records :=
    hledgered
  simp only [Machine.next, Installation.ledger]
  cases hrequest : call.request with
  | beginOrReplay operationId operationKey =>
      dsimp only
      generalize hrun : beginOrReplay env.platform (env.ledgerContext store call) operationId
        operationKey call.draws call.readFails call.writeFails = run
      obtain ⟨result, ctx'⟩ := run
      obtain ⟨hresult, hstore⟩ | ⟨hnone, rfl, hnext⟩ := beginOrReplay_cases hctx hrun
      · left
        constructor
        · cases result with
          | error failure => rfl
          | ok outcome =>
              cases outcome with
              | freshPending record => exact absurd rfl (hresult record)
              | replayed record => rfl
        · apply hstore
      · right
        exact ⟨_, rfl, RowOf.begin hnone, hnext⟩
  | markAttemptStarted pending =>
      exact ofAppend_cases hctx (fun _ => RowOf.attempt) rfl
  | classifyOutcome inFlight outcome failureHint =>
      exact ofAppend_cases hctx (fun _ => RowOf.classified) rfl
  | commitEligibleRetry current =>
      exact ofAppend_cases hctx (fun _ => RowOf.retry) rfl

/-! ### Runs -/

/-- A call that may append a row is given the latest row of its operation. -/
def PassesLatest (env : Installation) (store : Store) (call : LedgerCall) : Prop :=
  call.request.isRefused = false → ∀ record ∈ call.request.record?,
    latestForOperation env.platform (env.ledgerContext store call) record.operationId false
      = .ok (some record)

instance (env : Installation) (store : Store) (call : LedgerCall) :
    Decidable (PassesLatest env store call) :=
  inferInstanceAs (Decidable (_ → ∀ record ∈ call.request.record?, _))

/-- After the events of a history, the store holds the rows they appended, those of each
operation in order. -/
structure LedgerFollows (env : Installation)
    (history : List (Machine.Event Store LedgerCall LedgerAnswer)) (store : Store) :
    Prop where
  ledgered : Ledgered env.platform env.envelopeKey env.account store (appendedRows history)
  inOrder : ∀ operationId, InOrder (rowsOf operationId (appendedRows history))

/-- One more event appends its row. -/
theorem appendedRows_snoc (history : List (Machine.Event Store LedgerCall LedgerAnswer))
    (event : Machine.Event Store LedgerCall LedgerAnswer) :
  appendedRows (history ++ [event]) = appendedRows history ++ event.output.row?.toList
  := by
  rw [appendedRows, List.filterMap_append, appendedRows]
  cases h : event.output.row? with
  | none => simp [h]
  | some row => simp [h]

/-- Before any event the store is empty. -/
theorem ledgerFollows_open (env : Installation) :
  LedgerFollows env [] .open
  := by
  constructor
  · apply ledgered_open
  · intro operationId
    apply InOrder.nil

/-- In a store that is followed, the latest row of an operation is the last one it was
given. -/
theorem LedgerFollows.latestForOperation
    {history : List (Machine.Event Store LedgerCall LedgerAnswer)}
    (hfollows : LedgerFollows env history store) (call : LedgerCall)
    (operationId : Vector UInt8 16) :
  Application.latestForOperation env.platform (env.ledgerContext store call) operationId false
    = .ok (rowsOf operationId (appendedRows history)).getLast?
  := by
  have hctx : Ledgered env.platform (env.ledgerContext store call).envelopeKey
      (env.ledgerContext store call).account (env.ledgerContext store call).store
      (appendedRows history) := hfollows.ledgered
  apply hctx.latestForOperation
  apply (hfollows.inOrder operationId).numbered

/-- In a store that is followed, the latest row is the one its operation ends in. -/
theorem LedgerFollows.getLast?_of_passesLatest
    {history : List (Machine.Event Store LedgerCall LedgerAnswer)}
    (hfollows : LedgerFollows env history store) {call : LedgerCall}
    (hlatest : PassesLatest env store call) (hrefused : call.request.isRefused = false)
    (record : LedgerRecord) (hrecord : record ∈ call.request.record?) :
  (rowsOf record.operationId (appendedRows history)).getLast? = some record
  := by
  have h := hlatest hrefused record hrecord
  rw [hfollows.latestForOperation] at h
  apply Except.ok.inj h

/-- A call with the latest row, which starts no fourth attempt, is followed. -/
theorem LedgerFollows.next {history : List (Machine.Event Store LedgerCall LedgerAnswer)}
    (hfollows : LedgerFollows env history store) {call : LedgerCall}
    (hlatest : PassesLatest env store call) (hattempt : call.request.startsInBounds = true) :
  LedgerFollows env (history ++ [env.ledger.event store call]) (env.ledger.next store call)
  := by
  obtain ⟨hrow, hnext⟩ | ⟨row, hrow, hrowOf, hnext⟩ := ledger_step_cases hfollows.ledgered
  · have hrows : appendedRows (history ++ [env.ledger.event store call])
        = appendedRows history := by
      rw [appendedRows_snoc, Machine.event_output, hrow]
      apply List.append_nil
    constructor
    · rw [hrows, hnext]
      apply hfollows.ledgered
    · rw [hrows]
      apply hfollows.inOrder
  · have hrows : appendedRows (history ++ [env.ledger.event store call])
        = appendedRows history ++ [row] := by
      rw [appendedRows_snoc, Machine.event_output, hrow]
      rfl
    constructor
    · rw [hrows]
      apply hnext
    · intro operationId
      rw [hrows, rowsOf_snoc]
      split_ifs with hid
      · subst hid
        apply (hfollows.inOrder row.operationId).snoc
        apply hrowOf.continues (hfollows.getLast?_of_passesLatest hlatest) hattempt
      · apply hfollows.inOrder operationId

/-- The rows of a store that is followed are read back, in some order. -/
theorem LedgerFollows.scanLedger
    {history : List (Machine.Event Store LedgerCall LedgerAnswer)}
    (hfollows : LedgerFollows env history store) :
  ∃ rows, rows.Perm (appendedRows history) ∧ env.scanLedger store = .ok rows
  := by
  obtain ⟨log, hlogs, hrecords⟩ := hfollows.ledgered
  apply hlogs.scanRecords hrecords

/-- In every run whose calls are given the latest rows and start no fourth attempt, the rows
of an operation have generations of their own, no attempt is started twice, and at most
three are. -/
theorem ledger_rows_distinct (env : Installation) (calls : List LedgerCall)
    (hcalls : env.ledger.Admits (fun store call =>
      PassesLatest env store call ∧ call.request.startsInBounds = true) .open calls) :
  ∃ rows, env.scanLedger (env.ledger.final .open calls) = .ok rows
    ∧ ∀ operationId, ((rowsOf operationId rows).map (·.generation)).Nodup
      ∧ ((starts (rowsOf operationId rows)).map (·.attemptCount)).Nodup
      ∧ (starts (rowsOf operationId rows)).length ≤ 3
  := by
  have hfollows : LedgerFollows env (env.ledger.history .open calls)
      (env.ledger.final .open calls) := by
    apply Machine.run_induction_of_admits env.ledger (ledgerFollows_open env) _ calls hcalls
    rintro history store call hfollows ⟨hlatest, hattempt⟩
    apply hfollows.next hlatest hattempt
  obtain ⟨rows, hperm, hrows⟩ := hfollows.scanLedger
  use rows, hrows
  intro operationId
  have horder := hfollows.inOrder operationId
  have hrowsOf : (rowsOf operationId rows).Perm
      (rowsOf operationId (appendedRows (env.ledger.history .open calls))) :=
    hperm.filter _
  have hstarts : (starts (rowsOf operationId rows)).Perm
      (starts (rowsOf operationId (appendedRows (env.ledger.history .open calls)))) :=
    hrowsOf.filter _
  refine ⟨?_, ?_, ?_⟩
  · apply (hrowsOf.map _).nodup_iff.mpr
    apply List.Nodup.of_map UInt32.toNat
    rw [List.map_map]
    apply horder.numbered.nodup
  · apply (hstarts.map _).nodup_iff.mpr
    apply List.Nodup.of_map UInt8.toNat
    rw [List.map_map]
    have hattempts := horder.attempts
    exact hattempts ▸ List.nodup_range'
  · rw [hstarts.length_eq]
    apply horder.atMost

end

/-! ### Stale records -/

/-- A call without failures; the random draws count from `seed`. -/
def sampleLedgerCall (request : LedgerRequest) (seed : ℕ) : LedgerCall where
  request
  keyUsage := ⟨sampleInstallation.envelopeKey.id, 0⟩
  schemaVersion := ⟨1, firstSchema_ne_zero⟩
  draws := (List.range 4).map fun n => some fun _ => UInt8.ofNat (seed + n)
  readFails := false
  writeFails := false

/-- The row a sample operation begins with. -/
def sampleRow : LedgerRecord :=
  pendingRow (Vector.replicate 16 1) (Vector.replicate 32 7)

/-- The row of an attempt that starts after `sampleRow`. -/
def sampleStarted : LedgerRecord :=
  { sampleRow with state := .attemptStarted, attemptCount := 1, generation := 1 }

/-- The row of an attempt that is known to have sent nothing. -/
def sampleRetryable : LedgerRecord :=
  { sampleStarted with
    state := .knownNoSendRetryable
    ambiguityOrFailure := .transportKnownNoSend
    generation := 2 }

/-- A sample operation with a retry, between the steps of which another one begins and a
stale retry is refused. -/
def sampleLedgerCalls : List LedgerCall :=
  [sampleLedgerCall (.beginOrReplay (Vector.replicate 16 1) (Vector.replicate 32 7)) 1,
    sampleLedgerCall (.markAttemptStarted sampleRow) 11,
    sampleLedgerCall (.beginOrReplay (Vector.replicate 16 2) (Vector.replicate 32 8)) 21,
    sampleLedgerCall (.classifyOutcome sampleStarted .knownNoSend .none) 31,
    sampleLedgerCall (.commitEligibleRetry sampleStarted) 41,
    sampleLedgerCall (.commitEligibleRetry sampleRetryable) 51]

/-- The rows of the sample operations are distinct. -/
theorem sampleLedgerCalls_distinct :
  ∃ rows, sampleInstallation.scanLedger
      (sampleInstallation.ledger.final .open sampleLedgerCalls) = .ok rows
    ∧ ∀ operationId, ((rowsOf operationId rows).map (·.generation)).Nodup
      ∧ ((starts (rowsOf operationId rows)).map (·.attemptCount)).Nodup
      ∧ (starts (rowsOf operationId rows)).length ≤ 3
  := by
  apply ledger_rows_distinct sampleInstallation
  decide

/-- Four workers that all hold the first row of an operation start the same attempt four
times. -/
theorem staleRows_not_distinct :
  (sampleInstallation.ledger.step .open
      (sampleLedgerCall (.beginOrReplay (Vector.replicate 16 1) (Vector.replicate 32 7)) 1)).2
      = .began (.freshPending sampleRow)
    ∧ (sampleInstallation.scanLedger (sampleInstallation.ledger.final .open
        [sampleLedgerCall (.beginOrReplay (Vector.replicate 16 1) (Vector.replicate 32 7)) 1,
          sampleLedgerCall (.markAttemptStarted sampleRow) 11,
          sampleLedgerCall (.markAttemptStarted sampleRow) 21,
          sampleLedgerCall (.markAttemptStarted sampleRow) 31,
          sampleLedgerCall (.markAttemptStarted sampleRow) 41])).map
        (fun rows => (rows.map (·.generation), (starts rows).map (·.attemptCount)))
      = .ok ([0, 1, 1, 1, 1], [1, 1, 1, 1])
  := by
  decide

end Application
