import OpenLoops.Application.Ledger

/-!
# What a ledger call does

`Ledgered` reads a store as the rows of its operations, in the order of their commits.  A
call that appends a row adds it at the end; any other leaves the store as it is.
-/

namespace Application

open Persistence

/-- The store holds these rows, in the order of their commits. -/
def Ledgered (platform : Platform) (envelopeKey : EnvelopeKey) (account : AccountBindingAad)
    (store : Store) (records : List LedgerRecord) : Prop :=
  ∃ log, Logs platform envelopeKey account store log
    ∧ List.Forall₂ (fun bytes record => LedgerRecord.decode bytes = .ok record)
        (log .operationLedger) records

/-- A new store holds no row. -/
theorem ledgered_open {platform : Platform} {envelopeKey : EnvelopeKey}
    {account : AccountBindingAad} :
  Ledgered platform envelopeKey account .open []
  := by
  use fun _ => [], logs_open
  apply List.Forall₂.nil

section

variable {platform : Platform} {ctx ctx' : LedgerContext} {records : List LedgerRecord}

/-! ### Reading -/

/-- The latest row of an operation is the last one when its rows are numbered. -/
theorem Ledgered.latestForOperation {operationId : Vector UInt8 16}
    (hledgered : Ledgered platform ctx.envelopeKey ctx.account ctx.store records)
    (hnumbered : Log.Numbered (·.generation.toNat)
      (records.filter (·.operationId = operationId))) :
  latestForOperation platform ctx operationId false
    = .ok (records.filter (·.operationId = operationId)).getLast?
  := by
  obtain ⟨log, hlogs, hrecords⟩ := hledgered
  obtain ⟨rows, hperm, hrows⟩ := hlogs.scanRecords hrecords
  rw [← hnumbered.maxByKey_perm (hperm.filter _)]
  apply Except.bind_eq_ok.mpr
  use rows, Except.mapError_eq_ok.mpr hrows
  rfl

/-- An operation without a latest row has no row. -/
theorem Ledgered.latestForOperation_none {operationId : Vector UInt8 16} {fails : Bool}
    (hledgered : Ledgered platform ctx.envelopeKey ctx.account ctx.store records)
    (h : Application.latestForOperation platform ctx operationId fails = .ok none) :
  records.filter (·.operationId = operationId) = []
  := by
  obtain ⟨log, hlogs, hrecords⟩ := hledgered
  obtain ⟨rows, hrows, h⟩ := Except.bind_eq_ok.mp h
  have hperm := hlogs.perm_of_scanRecords hrecords (Except.mapError_eq_ok.mp hrows)
  have hnil := Log.maxByKey_eq_none.mp (Except.ok.inj h)
  apply List.Perm.nil_eq _ |>.symm
  rw [← hnil]
  apply hperm.filter

/-! ### Appending -/

/-- An append that fails leaves the store as it is. -/
theorem append_eq_error {record : LedgerRecord} {draws : Draws} {writeFails : Bool}
    {failure : Failure LedgerError}
    (h : append platform ctx record draws writeFails = (.error failure, ctx')) :
  ctx'.store = ctx.store
  := by
  rw [append] at h
  split at h
  · cases h
    rfl
  · split at h
    · cases h
      rfl
    · split at h
      · cases h
        rfl
      · cases h

/-- An append that succeeds adds its row at the end. -/
theorem append_eq_ok {record : LedgerRecord} {draws : Draws} {writeFails : Bool}
    (hledgered : Ledgered platform ctx.envelopeKey ctx.account ctx.store records)
    (h : append platform ctx record draws writeFails = (.ok (), ctx')) :
  Ledgered platform ctx.envelopeKey ctx.account ctx'.store (records ++ [record])
  := by
  rw [append] at h
  split at h
  · cases h
  · rename_i encoded _
    split at h
    · cases h
    · rename_i envelopes _ hsealed
      split at h
      · cases h
      · rename_i store hcommit
        cases h
        obtain ⟨log, hlogs, hrecords⟩ := hledgered
        have hbatch := sealBatch_eq_ok (congrArg Prod.fst hsealed)
        refine ⟨_, hlogs.commit hbatch hcommit, ?_⟩
        apply List.rel_append hrecords
        exact List.Forall₂.cons (LedgerRecord.decode_encode encoded.property) List.Forall₂.nil

/-- A row is appended and answered for, or the store stays as it is. -/
theorem appendThen_cases {α : Type} {record : LedgerRecord} {answer : α} {draws : Draws}
    {writeFails : Bool} {result : Except (Failure LedgerError) α}
    (hledgered : Ledgered platform ctx.envelopeKey ctx.account ctx.store records)
    (h : appendThen platform ctx record answer draws writeFails = (result, ctx')) :
  (∃ failure, result = .error failure ∧ ctx'.store = ctx.store)
    ∨ (result = .ok answer
      ∧ Ledgered platform ctx.envelopeKey ctx.account ctx'.store (records ++ [record]))
  := by
  rw [appendThen] at h
  split at h
  · rename_i happend
    cases h
    left
    exact ⟨_, rfl, append_eq_error happend⟩
  · rename_i happend
    cases h
    right
    exact ⟨rfl, append_eq_ok hledgered happend⟩

/-- The row that follows is appended, or the store stays as it is. -/
theorem appendNext_cases {next result : Except (Failure LedgerError) LedgerRecord}
    {draws : Draws} {writeFails : Bool}
    (hledgered : Ledgered platform ctx.envelopeKey ctx.account ctx.store records)
    (h : appendNext platform ctx next draws writeFails = (result, ctx')) :
  (∃ failure, result = .error failure ∧ ctx'.store = ctx.store)
    ∨ ∃ row, result = .ok row ∧ next = .ok row
      ∧ Ledgered platform ctx.envelopeKey ctx.account ctx'.store (records ++ [row])
  := by
  cases next with
  | error failure =>
      cases h
      left
      exact ⟨failure, rfl, rfl⟩
  | ok row =>
      obtain hfailed | ⟨hresult, hnext⟩ := appendThen_cases hledgered h
      · left
        apply hfailed
      · right
        exact ⟨row, hresult, rfl, hnext⟩

/-- An operation begins with a pending row when it has none; otherwise its latest row is
replayed or collides.  Only in the first case the store changes. -/
theorem beginOrReplay_cases {operationId : Vector UInt8 16} {operationKey : Vector UInt8 32}
    {draws : Draws} {readFails writeFails : Bool}
    {result : Except (Failure LedgerError) BeginOutcome}
    (hledgered : Ledgered platform ctx.envelopeKey ctx.account ctx.store records)
    (h : beginOrReplay platform ctx operationId operationKey draws readFails writeFails
      = (result, ctx')) :
  ((∀ record, result ≠ .ok (.freshPending record)) ∧ ctx'.store = ctx.store)
    ∨ (records.filter (·.operationId = operationId) = []
      ∧ result = .ok (.freshPending (pendingRow operationId operationKey))
      ∧ Ledgered platform ctx.envelopeKey ctx.account ctx'.store
          (records ++ [pendingRow operationId operationKey]))
  := by
  rw [beginOrReplay] at h
  split at h
  · cases h
    left
    simp
  · rename_i hlatest
    obtain ⟨failure, rfl, hstore⟩ | ⟨hresult, hnext⟩ := appendThen_cases hledgered h
    · left
      simp [hstore]
    · right
      use hledgered.latestForOperation_none hlatest, hresult
  · split at h
    · cases h
      left
      simp
    · cases h
      left
      simp

/-- Without a read failure, an operation that has a latest row is answered by it: it is
replayed for the same key, and collides with another. -/
theorem beginOrReplay_of_latest {operationId : Vector UInt8 16}
    {operationKey : Vector UInt8 32} {draws : Draws} {writeFails : Bool}
    {latest : LedgerRecord}
    (hlatest : latestForOperation platform ctx operationId false = .ok (some latest)) :
  beginOrReplay platform ctx operationId operationKey draws false writeFails
    = (if latest.operationKeyHmac = operationKey then .ok (.replayed latest)
        else .error (.error (.collision latest.operationKeyHmac operationKey)), ctx)
  := by
  rw [beginOrReplay, hlatest]
  dsimp only
  by_cases hkey : latest.operationKeyHmac = operationKey
  · rw [if_neg (not_not.mpr hkey), if_pos hkey]
  · rw [if_pos hkey, if_neg hkey]

end

end Application
