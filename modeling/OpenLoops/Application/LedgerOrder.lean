import OpenLoops.Application.Ledger

/-!
# The rows of an operation

The rows of an operation are in order when their generations count from zero and their
attempts from one to at most three.  They stay in order when a request made with the latest
row continues them.
-/

namespace Application

open Persistence

/-! ### Rows in order -/

/-- The rows of one operation. -/
def rowsOf (operationId : Vector UInt8 16) (records : List LedgerRecord) :
    List LedgerRecord :=
  records.filter (·.operationId = operationId)

variable {records : List LedgerRecord}

/-- A row is a further row of its operation only. -/
theorem rowsOf_snoc (operationId : Vector UInt8 16) (row : LedgerRecord) :
  rowsOf operationId (records ++ [row])
    = if row.operationId = operationId then rowsOf operationId records ++ [row]
      else rowsOf operationId records
  := by
  rw [rowsOf, List.filter_append, rowsOf]
  split_ifs with hid
  · simp [hid]
  · simp [hid]

/-- The row that comes after the rows of an operation: the first one, an attempt that
starts, or an answer. -/
inductive Continues (rows : List LedgerRecord) (row : LedgerRecord) : Prop
  | first (nil : rows = []) (generation : row.generation = 0)
      (attemptCount : row.attemptCount = 0) (state : row.state ≠ .attemptStarted)
  | started {last : LedgerRecord} (latest : rows.getLast? = some last)
      (key : row.operationKeyHmac = last.operationKeyHmac)
      (generation : row.generation.toNat = last.generation.toNat + 1)
      (attemptCount : row.attemptCount.toNat = last.attemptCount.toNat + 1)
      (state : row.state = .attemptStarted) (fits : last.attemptCount.toNat < 3)
  | answered {last : LedgerRecord} (latest : rows.getLast? = some last)
      (key : row.operationKeyHmac = last.operationKeyHmac)
      (generation : row.generation.toNat = last.generation.toNat + 1)
      (attemptCount : row.attemptCount = last.attemptCount)
      (state : row.state ≠ .attemptStarted)

/-- The rows with which an attempt started. -/
def starts (rows : List LedgerRecord) : List LedgerRecord :=
  rows.filter (·.state = .attemptStarted)

/-- The rows of an operation are in order: generations count from zero, the attempts that
started from one to at most three, the last row carries their number, and all rows carry one
key. -/
structure InOrder (rows : List LedgerRecord) : Prop where
  numbered : Log.Numbered (·.generation.toNat) rows
  attempts : (starts rows).map (·.attemptCount.toNat) = List.range' 1 (starts rows).length
  atMost : (starts rows).length ≤ 3
  last : ∀ row, rows.getLast? = some row → row.attemptCount.toNat = (starts rows).length
  key : ∀ row ∈ rows, ∀ row' ∈ rows, row.operationKeyHmac = row'.operationKeyHmac

/-- No rows are in order. -/
theorem InOrder.nil :
  InOrder []
  := by
  constructor
  · apply Log.Numbered.nil
  · rfl
  · apply Nat.zero_le
  · simp
  · simp

/-- An attempt that starts adds its row to those that started. -/
theorem starts_snoc_of_started {rows : List LedgerRecord} {row : LedgerRecord}
    (h : row.state = .attemptStarted) :
  starts (rows ++ [row]) = starts rows ++ [row]
  := by
  rw [starts, List.filter_append, starts]
  simp [h]

/-- Any other row starts no attempt. -/
theorem starts_snoc_of_ne {rows : List LedgerRecord} {row : LedgerRecord}
    (h : row.state ≠ .attemptStarted) :
  starts (rows ++ [row]) = starts rows
  := by
  rw [starts, List.filter_append, starts]
  simp [h]

/-- A row that carries the key of the last one carries the key of all. -/
theorem InOrder.key_snoc {rows : List LedgerRecord} {row last : LedgerRecord}
    (h : InOrder rows) (hlast : rows.getLast? = some last)
    (hkey : row.operationKeyHmac = last.operationKeyHmac) :
  ∀ r ∈ rows ++ [row], ∀ r' ∈ rows ++ [row], r.operationKeyHmac = r'.operationKeyHmac
  := by
  have hall : ∀ r ∈ rows ++ [row], r.operationKeyHmac = last.operationKeyHmac := by
    intro r hr
    rcases List.mem_append.mp hr with hr | hr
    · apply h.key r hr last (List.mem_of_getLast? hlast)
    · rw [List.mem_singleton.mp hr, hkey]
  intro r hr r' hr'
  rw [hall r hr, hall r' hr']

/-- The generation after the last one is the number of rows. -/
theorem InOrder.generation_snoc {rows : List LedgerRecord} {row last : LedgerRecord}
    (h : InOrder rows) (hlast : rows.getLast? = some last)
    (hgeneration : row.generation.toNat = last.generation.toNat + 1) :
  row.generation.toNat = rows.length
  := by
  obtain ⟨init, rfl⟩ := List.getLast?_eq_some_iff.mp hlast
  rw [hgeneration, h.numbered.key_last, List.length_append]
  rfl

/-- Rows stay in order when they are continued. -/
theorem InOrder.snoc {rows : List LedgerRecord} {row : LedgerRecord} (h : InOrder rows)
    (hrow : Continues rows row) :
  InOrder (rows ++ [row])
  := by
  cases hrow with
  | first nil generation attemptCount state =>
      subst nil
      constructor
      · apply h.numbered.snoc
        rw [generation]
        rfl
      · rw [starts_snoc_of_ne state]
        rfl
      · rw [starts_snoc_of_ne state]
        apply Nat.zero_le
      · intro row' hrow'
        rw [List.getLast?_concat] at hrow'
        cases hrow'
        rw [starts_snoc_of_ne state, attemptCount]
        rfl
      · simp
  | @started last latest key generation attemptCount state fits =>
      have hcount := h.last last latest
      constructor
      · apply h.numbered.snoc
        apply h.generation_snoc latest generation
      · rw [starts_snoc_of_started state, List.map_append, h.attempts, List.length_append,
          List.map_singleton, List.length_singleton, List.range'_concat, attemptCount, hcount]
        simp [Nat.add_comm]
      · rw [starts_snoc_of_started state, List.length_append, List.length_singleton]
        omega
      · intro row' hrow'
        rw [List.getLast?_concat] at hrow'
        cases hrow'
        rw [starts_snoc_of_started state, List.length_append, List.length_singleton]
        omega
      · apply h.key_snoc latest key
  | @answered last latest key generation attemptCount state =>
      constructor
      · apply h.numbered.snoc
        apply h.generation_snoc latest generation
      · rw [starts_snoc_of_ne state]
        apply h.attempts
      · rw [starts_snoc_of_ne state]
        apply h.atMost
      · intro row' hrow'
        rw [List.getLast?_concat] at hrow'
        cases hrow'
        rw [starts_snoc_of_ne state, attemptCount]
        apply h.last last latest
      · apply h.key_snoc latest key

/-! ### Requests -/

/-- What a worker asks of the ledger. -/
inductive LedgerRequest where
  | beginOrReplay (operationId : Vector UInt8 16) (operationKey : Vector UInt8 32)
  | markAttemptStarted (pending : LedgerRecord)
  | classifyOutcome (inFlight : LedgerRecord) (outcome : AdapterOutcome)
      (failureHint : AmbiguityOrFailureCode)
  | commitEligibleRetry (current : LedgerRecord)

/-- The row a request may append, given the rows there are. -/
inductive RowOf (records : List LedgerRecord) : LedgerRequest → LedgerRecord → Prop
  | begin {operationId operationKey} (h : rowsOf operationId records = []) :
      RowOf records (.beginOrReplay operationId operationKey)
        (pendingRow operationId operationKey)
  | attempt {pending row} (h : nextAttempt pending = .ok row) :
      RowOf records (.markAttemptStarted pending) row
  | classified {inFlight outcome failureHint row}
      (h : nextClassified inFlight outcome failureHint = .ok row) :
      RowOf records (.classifyOutcome inFlight outcome failureHint) row
  | retry {current row} (h : nextRetry current = .ok row) :
      RowOf records (.commitEligibleRetry current) row

/-- The record a request is made with. -/
def LedgerRequest.record? : LedgerRequest → Option LedgerRecord
  | .beginOrReplay _ _ => none
  | .markAttemptStarted record | .classifyOutcome record _ _ | .commitEligibleRetry record =>
      some record

/-- Whether a retry is refused, as one of a record that is not retryable or has had its
attempts. -/
def LedgerRequest.isRefused : LedgerRequest → Bool
  | .commitEligibleRetry current =>
      current.state ≠ .knownNoSendRetryable || 3 ≤ current.attemptCount.toNat
  | _ => false

/-- Whether the request marks no attempt as started after three. -/
def LedgerRequest.startsInBounds : LedgerRequest → Bool
  | .markAttemptStarted pending => pending.attemptCount.toNat < 3
  | _ => true

/-- The attempt that starts follows its record. -/
theorem nextAttempt_eq_ok {pending row : LedgerRecord} (h : nextAttempt pending = .ok row) :
  row.operationId = pending.operationId
    ∧ row.operationKeyHmac = pending.operationKeyHmac
    ∧ row.generation.toNat = pending.generation.toNat + 1
    ∧ row.attemptCount.toNat = pending.attemptCount.toNat + 1
    ∧ row.state = .attemptStarted
  := by
  obtain ⟨attemptCount, hcount, h⟩ := Except.bind_eq_ok.mp h
  obtain ⟨generation, hgeneration, ⟨⟩⟩ := Except.bind_eq_ok.mp h
  have hcount := UInt8.succOrPanic_eq_ok hcount
  have hgeneration := UInt32.succOrPanic_eq_ok hgeneration
  exact ⟨rfl, rfl, hgeneration, hcount, rfl⟩

/-- A retry that is committed was not refused, and follows its record. -/
theorem nextRetry_eq_ok {current row : LedgerRecord} (h : nextRetry current = .ok row) :
  (LedgerRequest.commitEligibleRetry current).isRefused = false
    ∧ row.operationId = current.operationId
    ∧ row.operationKeyHmac = current.operationKeyHmac
    ∧ row.generation.toNat = current.generation.toNat + 1
    ∧ row.attemptCount.toNat = current.attemptCount.toNat + 1
    ∧ row.state = .attemptStarted
  := by
  rw [nextRetry] at h
  split_ifs at h with hstate hfits
  obtain ⟨attemptCount, hcount, h⟩ := Except.bind_eq_ok.mp h
  obtain ⟨generation, hgeneration, ⟨⟩⟩ := Except.bind_eq_ok.mp h
  have hcount := UInt8.succOrPanic_eq_ok hcount
  have hgeneration := UInt32.succOrPanic_eq_ok hgeneration
  refine ⟨?_, rfl, rfl, hgeneration, hcount, rfl⟩
  simp [LedgerRequest.isRefused, not_not.mp hstate, Nat.lt_of_not_le hfits]

/-- An answer follows its record. -/
theorem nextClassified_eq_ok {inFlight row : LedgerRecord} {outcome : AdapterOutcome}
    {failureHint : AmbiguityOrFailureCode}
    (h : nextClassified inFlight outcome failureHint = .ok row) :
  row.operationId = inFlight.operationId
    ∧ row.operationKeyHmac = inFlight.operationKeyHmac
    ∧ row.generation.toNat = inFlight.generation.toNat + 1
    ∧ row.attemptCount = inFlight.attemptCount
    ∧ row.state ≠ .attemptStarted
  := by
  obtain ⟨generation, hgeneration, h⟩ := Except.bind_eq_ok.mp h
  have hgeneration := UInt32.succOrPanic_eq_ok hgeneration
  cases outcome with
  | succeeded destinationLocator =>
      cases h
      exact ⟨rfl, rfl, hgeneration, rfl, by simp⟩
  | knownNoSend =>
      cases h
      refine ⟨rfl, rfl, hgeneration, rfl, ?_⟩
      dsimp only
      split
      · simp
      · simp
  | ambiguous =>
      cases h
      exact ⟨rfl, rfl, hgeneration, rfl, by simp⟩
  | definitiveFailure =>
      cases h
      exact ⟨rfl, rfl, hgeneration, rfl, by simp⟩

/-- A request with the latest row, which starts no fourth attempt, continues the rows of its
operation. -/
theorem RowOf.continues {request : LedgerRequest} {row : LedgerRecord}
    (h : RowOf records request row)
    (hlatest : request.isRefused = false → ∀ record ∈ request.record?,
      (rowsOf record.operationId records).getLast? = some record)
    (hattempt : request.startsInBounds = true) :
  Continues (rowsOf row.operationId records) row
  := by
  cases h with
  | begin hnone => exact Continues.first hnone rfl rfl (by simp [pendingRow])
  | @attempt pending _ hnext =>
      obtain ⟨hid, hkey, hgeneration, hcount, hstate⟩ := nextAttempt_eq_ok hnext
      rw [hid]
      exact Continues.started (hlatest rfl pending rfl) hkey hgeneration hcount hstate
        (of_decide_eq_true hattempt)
  | @classified inFlight _ _ _ hnext =>
      obtain ⟨hid, hkey, hgeneration, hcount, hstate⟩ := nextClassified_eq_ok hnext
      rw [hid]
      exact Continues.answered (hlatest rfl inFlight rfl) hkey hgeneration hcount hstate
  | @retry current _ hnext =>
      obtain ⟨hrefused, hid, hkey, hgeneration, hcount, hstate⟩ := nextRetry_eq_ok hnext
      rw [hid]
      apply Continues.started (hlatest hrefused current rfl) hkey hgeneration hcount hstate
      simp [LedgerRequest.isRefused] at hrefused
      omega

end Application
