import OpenLoops.Application.LedgerRuns

/-!
# Disciplined runs of the ledger

When every call is given the latest row of its operation, the rows of an operation are in
order, and nothing follows a finished row, as long as no attempt is started and no answer
recorded after it.
-/

namespace Application

open Persistence

/-- Whether an operation in this state is finished. -/
def OperationState.isFinished : OperationState → Bool
  | succeeded | definitiveFailed => true
  | _ => false

/-- Whether the request would be made after a finished row. -/
def LedgerRequest.reopens (request : LedgerRequest) : Bool :=
  !request.isRefused && request.record?.any (·.state.isFinished)

/-- Nothing follows a finished row. -/
def EndsFinished (rows : List LedgerRecord) : Prop :=
  ∀ row ∈ rows.dropLast, row.state.isFinished = false

section

variable {env : Installation} {records : List LedgerRecord} {store : Store}

/-- A request that reopens nothing is made with an unfinished row. -/
theorem RowOf.unfinished {request : LedgerRequest} {row last : LedgerRecord}
    (h : RowOf records request row)
    (hlatest : request.isRefused = false → ∀ record ∈ request.record?,
      (rowsOf record.operationId records).getLast? = some record)
    (hreopens : request.reopens = false)
    (hlast : (rowsOf row.operationId records).getLast? = some last) :
  last.state.isFinished = false
  := by
  have hrecord : ∀ record ∈ request.record?, request.isRefused = false →
      row.operationId = record.operationId → last.state.isFinished = false := by
    intro record hrecord hrefused hid
    rw [hid, hlatest hrefused record hrecord] at hlast
    cases hlast
    rw [LedgerRequest.reopens, hrefused, Option.mem_def.mp hrecord] at hreopens
    apply hreopens
  cases h with
  | @begin operationId operationKey hnone =>
      rw [show (pendingRow operationId operationKey).operationId = operationId from rfl, hnone]
        at hlast
      cases hlast
  | @attempt pending _ hnext =>
      apply hrecord pending rfl rfl (nextAttempt_eq_ok hnext).1
  | @classified inFlight _ _ _ hnext =>
      apply hrecord inFlight rfl rfl (nextClassified_eq_ok hnext).1
  | @retry current _ hnext =>
      apply hrecord current rfl (nextRetry_eq_ok hnext).1 (nextRetry_eq_ok hnext).2.1

/-- Nothing follows a finished row when a row follows an unfinished one. -/
theorem EndsFinished.snoc {rows : List LedgerRecord} {row : LedgerRecord}
    (h : EndsFinished rows)
    (hlast : ∀ last, rows.getLast? = some last → last.state.isFinished = false) :
  EndsFinished (rows ++ [row])
  := by
  rw [EndsFinished, List.dropLast_concat]
  intro r hr
  cases rows using List.reverseRecOn with
  | nil => cases hr
  | append_singleton init last =>
      rcases List.mem_append.mp hr with hr | hr
      · apply h
        rw [List.dropLast_concat]
        apply hr
      · rw [List.mem_singleton.mp hr]
        apply hlast last List.getLast?_concat

/-- A call with the latest row, which starts no fourth attempt and reopens nothing, lets
every operation end with its finished row. -/
theorem LedgerFollows.next_endsFinished
    {history : List (Machine.Event Store LedgerCall LedgerAnswer)}
    (hfollows : LedgerFollows env history store) {call : LedgerCall}
    (hlatest : PassesLatest env store call) (hreopens : call.request.reopens = false)
    (hends : ∀ operationId, EndsFinished (rowsOf operationId (appendedRows history)))
    (operationId : Vector UInt8 16) :
  EndsFinished (rowsOf operationId
    (appendedRows (history ++ [env.ledger.event store call])))
  := by
  rw [appendedRows_snoc, Machine.event_output]
  obtain ⟨hrow, -⟩ | ⟨row, hrow, hrowOf, -⟩ := ledger_step_cases hfollows.ledgered
  · rw [hrow, Option.toList_none, List.append_nil]
    apply hends
  · rw [hrow, Option.toList_some, rowsOf_snoc]
    split_ifs with hid
    · subst hid
      apply (hends row.operationId).snoc
      intro last
      apply hrowOf.unfinished (hfollows.getLast?_of_passesLatest hlatest) hreopens
    · apply hends

/-- An operation that has rows begins no more: its last row is replayed for its key, and
collides with another key. -/
theorem LedgerFollows.begin_of_rows
    {history : List (Machine.Event Store LedgerCall LedgerAnswer)}
    (hfollows : LedgerFollows env history store) {call : LedgerCall}
    {operationId : Vector UInt8 16} {operationKey : Vector UInt8 32} {last : LedgerRecord}
    (hlast : (rowsOf operationId (appendedRows history)).getLast? = some last)
    (hrequest : call.request = .beginOrReplay operationId operationKey) :
  env.ledger.next store call = store
    ∧ (call.readFails = false → (env.ledger.step store call).2
      = if last.operationKeyHmac = operationKey then .began (.replayed last)
        else .failed (.error (.collision last.operationKeyHmac operationKey)))
  := by
  constructor
  · obtain ⟨-, hnext⟩ | ⟨row, -, hrow, -⟩ := ledger_step_cases hfollows.ledgered
    · apply hnext
    · rw [hrequest] at hrow
      cases hrow with
      | begin hnone =>
          rw [hnone] at hlast
          cases hlast
  · intro hreads
    have hlatest := hfollows.latestForOperation call operationId
    rw [hlast] at hlatest
    have hbegin : ∀ writeFails, beginOrReplay env.platform (env.ledgerContext store call)
        operationId operationKey call.draws false writeFails = _ :=
      fun _ => beginOrReplay_of_latest hlatest
    simp only [Installation.ledger, hrequest, hreads, hbegin]
    split_ifs
    · rfl
    · rfl

/-- In every run whose calls are given the latest rows, start no fourth attempt and reopen
nothing: the rows of an operation are read back as they were appended, generations count
from zero, the last row carries the number of the attempts that started, at most three,
nothing follows a finished row, the latest row is the last one that was appended, and a
repeated begin writes nothing, replaying it for the same key and reporting a collision for
another. -/
theorem ledger_disciplined (env : Installation) (calls : List LedgerCall)
    (hcalls : env.ledger.Admits (fun store call => PassesLatest env store call
      ∧ call.request.startsInBounds = true ∧ call.request.reopens = false) .open calls)
    (operationId : Vector UInt8 16) :
  let store := env.ledger.final .open calls
  let rows := rowsOf operationId (appendedRows (env.ledger.history .open calls))
  (∃ scanned, env.scanLedger store = .ok scanned ∧ (rowsOf operationId scanned).Perm rows)
  ∧ Log.Numbered (·.generation.toNat) rows
  ∧ (∀ row, rows.getLast? = some row → row.attemptCount.toNat = (starts rows).length)
  ∧ (starts rows).length ≤ 3
  ∧ (∀ row ∈ rows.dropLast, row.state ≠ .succeeded ∧ row.state ≠ .definitiveFailed)
  ∧ (∀ row ∈ rows, ∀ row' ∈ rows, row.operationKeyHmac = row'.operationKeyHmac)
  ∧ (∀ call, latestForOperation env.platform (env.ledgerContext store call) operationId false
      = .ok rows.getLast?)
  ∧ (∀ call operationKey last, rows.getLast? = some last →
      call.request = .beginOrReplay operationId operationKey →
      env.ledger.next store call = store
      ∧ (call.readFails = false → (env.ledger.step store call).2
        = if last.operationKeyHmac = operationKey then .began (.replayed last)
          else .failed (.error (.collision last.operationKeyHmac operationKey))))
  := by
  have hrun : LedgerFollows env (env.ledger.history .open calls)
        (env.ledger.final .open calls)
      ∧ ∀ operationId, EndsFinished (rowsOf operationId
        (appendedRows (env.ledger.history .open calls))) := by
    apply Machine.run_induction_of_admits env.ledger
      (P := fun history store => LedgerFollows env history store
        ∧ ∀ operationId, EndsFinished (rowsOf operationId (appendedRows history)))
      _ _ calls hcalls
    · use ledgerFollows_open env
      intro _ _ hrow
      cases hrow
    · rintro history store call ⟨hfollows, hends⟩ ⟨hlatest, hattempt, hreopens⟩
      use hfollows.next hlatest hattempt
      apply hfollows.next_endsFinished hlatest hreopens hends
  obtain ⟨hfollows, hends⟩ := hrun
  have horder := hfollows.inOrder operationId
  obtain ⟨scanned, hperm, hscanned⟩ := hfollows.scanLedger
  refine ⟨⟨scanned, hscanned, hperm.filter _⟩, horder.numbered, horder.last, horder.atMost,
    ?_, horder.key, ?_, ?_⟩
  · intro row hrow
    have hunfinished := hends operationId row hrow
    constructor
    · intro hstate
      rw [hstate] at hunfinished
      cases hunfinished
    · intro hstate
      rw [hstate] at hunfinished
      cases hunfinished
  · intro call
    apply hfollows.latestForOperation
  · intro call operationKey last hlast hrequest
    apply hfollows.begin_of_rows hlast hrequest

end

/-- The rows of the sample operations are numbered. -/
theorem sampleLedgerCalls_numbered :
  Log.Numbered (·.generation.toNat) (rowsOf (Vector.replicate 16 1)
    (appendedRows (sampleInstallation.ledger.history .open sampleLedgerCalls)))
  := by
  have hcalls : sampleInstallation.ledger.Admits (fun store call =>
      PassesLatest sampleInstallation store call ∧ call.request.startsInBounds = true
        ∧ call.request.reopens = false) .open sampleLedgerCalls := by
    decide
  apply (ledger_disciplined sampleInstallation sampleLedgerCalls hcalls _).2.1

/-- The row of an attempt that succeeded after `sampleStarted`. -/
def sampleSucceeded : LedgerRecord :=
  { sampleStarted with state := .succeeded, destinationLocator := [5], generation := 2 }

/-- The row of an attempt that starts after `sampleSucceeded`. -/
def sampleRestarted (attemptCount : UInt8) (generation : UInt32) : LedgerRecord :=
  { sampleSucceeded with state := .attemptStarted, attemptCount, generation }

/-- Marked with the latest row each time, an operation that succeeded starts anew, up to a
fourth attempt. -/
theorem succeededRow_followed :
  sampleInstallation.ledger.Admits (PassesLatest sampleInstallation) .open
      [sampleLedgerCall (.beginOrReplay (Vector.replicate 16 1) (Vector.replicate 32 7)) 1,
        sampleLedgerCall (.markAttemptStarted sampleRow) 11,
        sampleLedgerCall (.classifyOutcome sampleStarted (.succeeded [5]) .none) 21,
        sampleLedgerCall (.markAttemptStarted sampleSucceeded) 31,
        sampleLedgerCall (.markAttemptStarted (sampleRestarted 2 3)) 41,
        sampleLedgerCall (.markAttemptStarted (sampleRestarted 3 4)) 51]
    ∧ (appendedRows (sampleInstallation.ledger.history .open
      [sampleLedgerCall (.beginOrReplay (Vector.replicate 16 1) (Vector.replicate 32 7)) 1,
        sampleLedgerCall (.markAttemptStarted sampleRow) 11,
        sampleLedgerCall (.classifyOutcome sampleStarted (.succeeded [5]) .none) 21,
        sampleLedgerCall (.markAttemptStarted sampleSucceeded) 31,
        sampleLedgerCall (.markAttemptStarted (sampleRestarted 2 3)) 41,
        sampleLedgerCall (.markAttemptStarted (sampleRestarted 3 4)) 51])).map
        (fun row => (row.state, row.attemptCount))
      = [(.pending, 0), (.attemptStarted, 1), (.succeeded, 1), (.attemptStarted, 2),
        (.attemptStarted, 3), (.attemptStarted, 4)]
  := by
  decide

end Application
