import OpenLoops.Application.Ingestion

/-!
# What a page transaction does

`Ingested` reads a store as the checkpoints and the observations committed to it, in the
order of their commits.  A page transaction that succeeds adds one checkpoint and the rows
of the items that had none; any other leaves the store as it is.
-/

namespace Application

open Persistence

/-- The store holds these checkpoints and these observations, in the order of their
commits. -/
def Ingested (platform : Platform) (envelopeKey : EnvelopeKey) (account : AccountBindingAad)
    (store : Store) (checkpoints : List CheckpointRecord)
    (observations : List ObservationRecord) : Prop :=
  ∃ log, Logs platform envelopeKey account store log
    ∧ List.Forall₂ (fun bytes record => CheckpointRecord.decode bytes = .ok record)
        (log .syncCheckpoint) checkpoints
    ∧ List.Forall₂ (fun bytes record => ObservationRecord.decode bytes = .ok record)
        (log .messageObservation) observations

/-- A new store holds no checkpoint and no observation. -/
theorem ingested_open {platform : Platform} {envelopeKey : EnvelopeKey}
    {account : AccountBindingAad} :
  Ingested platform envelopeKey account .open [] []
  := by
  use fun _ => [], logs_open
  exact ⟨List.Forall₂.nil, List.Forall₂.nil⟩

section

variable {platform : Platform} {ctx : IngestionContext} {checkpoints : List CheckpointRecord}
  {observations : List ObservationRecord}

/-! ### Reading -/

/-- The current checkpoint is the last one of its collection. -/
theorem Ingested.currentCheckpoint_eq_ok {collectionId : Vector UInt8 32} {fails : Bool}
    {current : Option CheckpointRecord}
    (hingested : Ingested platform ctx.envelopeKey ctx.account ctx.store checkpoints
      observations)
    (hnumbered : Log.Numbered (·.generation.toNat)
      (checkpoints.filter (·.collectionId = collectionId)))
    (h : currentCheckpoint platform ctx collectionId fails = .ok current) :
  current = (checkpoints.filter (·.collectionId = collectionId)).getLast?
  := by
  obtain ⟨log, hlogs, hcheckpoints, -⟩ := hingested
  obtain ⟨rows, hrows, ⟨⟩⟩ := Except.bind_eq_ok.mp h
  have hperm := hlogs.perm_of_scanRecords hcheckpoints (Except.mapError_eq_ok.mp hrows)
  apply hnumbered.maxByKey_perm
  apply hperm.filter

/-- The current checkpoint is found. -/
theorem Ingested.currentCheckpoint {collectionId : Vector UInt8 32}
    (hingested : Ingested platform ctx.envelopeKey ctx.account ctx.store checkpoints
      observations)
    (hnumbered : Log.Numbered (·.generation.toNat)
      (checkpoints.filter (·.collectionId = collectionId))) :
  currentCheckpoint platform ctx collectionId false
    = .ok (checkpoints.filter (·.collectionId = collectionId)).getLast?
  := by
  obtain ⟨log, hlogs, hcheckpoints, -⟩ := id hingested
  obtain ⟨rows, -, hrows⟩ := hlogs.scanRecords hcheckpoints
  have h : Application.currentCheckpoint platform ctx collectionId false
      = .ok (Log.maxByKey (·.generation.toNat)
          (rows.filter fun row => row.collectionId = collectionId)) := by
    apply Except.bind_eq_ok.mpr
    use rows, Except.mapError_eq_ok.mpr hrows
    rfl
  rw [h, hingested.currentCheckpoint_eq_ok hnumbered h]

/-- An observation that is found is durable and has the key. -/
theorem Ingested.existingObservation_some {key : Vector UInt8 32} {fails : Bool}
    {existing : ObservationRecord}
    (hingested : Ingested platform ctx.envelopeKey ctx.account ctx.store checkpoints
      observations)
    (h : existingObservation platform ctx key fails = .ok (some existing)) :
  existing ∈ observations ∧ existing.dedupKey = key
  := by
  obtain ⟨log, hlogs, -, hobservations⟩ := hingested
  obtain ⟨rows, hrows, h⟩ := Except.bind_eq_ok.mp h
  have hperm := hlogs.perm_of_scanRecords hobservations (Except.mapError_eq_ok.mp hrows)
  have hfind := Except.ok.inj h
  constructor
  · apply hperm.mem_iff.mp
    apply List.mem_of_find?_eq_some hfind
  · have hkey := List.find?_some hfind
    apply of_decide_eq_true hkey

/-- When no observation is found, none that is durable has the key. -/
theorem Ingested.existingObservation_none {key : Vector UInt8 32} {fails : Bool}
    (hingested : Ingested platform ctx.envelopeKey ctx.account ctx.store checkpoints
      observations)
    (h : existingObservation platform ctx key fails = .ok none) :
  key ∉ observations.map (·.dedupKey)
  := by
  obtain ⟨log, hlogs, -, hobservations⟩ := hingested
  obtain ⟨rows, hrows, h⟩ := Except.bind_eq_ok.mp h
  have hperm := hlogs.perm_of_scanRecords hobservations (Except.mapError_eq_ok.mp hrows)
  have hfind := List.find?_eq_none.mp (Except.ok.inj h)
  intro hkey
  obtain ⟨existing, hexisting, hkey⟩ := List.mem_map.mp hkey
  apply hfind existing (hperm.mem_iff.mpr hexisting)
  apply decide_eq_true hkey

/-- The observations are looked up. -/
theorem Ingested.exists_existingObservation (key : Vector UInt8 32)
    (hingested : Ingested platform ctx.envelopeKey ctx.account ctx.store checkpoints
      observations) :
  ∃ existing, existingObservation platform ctx key false = .ok existing
  := by
  obtain ⟨log, hlogs, -, hobservations⟩ := hingested
  obtain ⟨rows, -, hrows⟩ := hlogs.scanRecords hobservations
  use rows.find? fun row => row.dedupKey = key
  apply Except.bind_eq_ok.mpr
  use rows, Except.mapError_eq_ok.mpr hrows
  rfl

/-! ### Planning -/

/-- What may be planned for an item: it is replayed when a durable observation has its key,
and gets a row with its key otherwise. -/
inductive PlannedFor (platform : Platform) (ctx : IngestionContext)
    (observations : List ObservationRecord) (rawItem : DeltaPageItem) : PlannedItem → Prop
  | replayed {existing : ObservationRecord}
      (key : dedupKey platform ctx rawItem = .ok existing.dedupKey)
      (durable : existing ∈ observations) :
      PlannedFor platform ctx observations rawItem (.replayed existing)
  | recorded {record : ObservationRecord} {encoded}
      (key : dedupKey platform ctx rawItem = .ok record.dedupKey)
      (new : record.dedupKey ∉ observations.map (·.dedupKey)) :
      PlannedFor platform ctx observations rawItem (.recorded record encoded)

/-- A durable key gets no further row. -/
theorem added_of_durable {items : List DeltaPageItem} {planned : List PlannedItem}
    {key : Vector UInt8 32}
    (h : List.Forall₂ (PlannedFor platform ctx observations) items planned)
    (hkey : key ∈ observations.map (·.dedupKey)) :
  key ∉ (planned.filterMap PlannedItem.added).map (·.dedupKey)
  := by
  induction h with
  | nil => simp
  | cons hplanned _ ih =>
      cases hplanned with
      | replayed _ _ => apply ih
      | recorded _ new =>
          intro hmem
          rcases List.mem_cons.mp hmem with rfl | hmem
          · apply new hkey
          · apply ih hmem

/-- A key that is not durable gets a row for each item that has it. -/
theorem count_added {items : List DeltaPageItem} {planned : List PlannedItem}
    {key : Vector UInt8 32}
    (h : List.Forall₂ (PlannedFor platform ctx observations) items planned)
    (hkey : key ∉ observations.map (·.dedupKey)) :
  ((planned.filterMap PlannedItem.added).map (·.dedupKey)).count key
    = (items.map (dedupKey platform ctx)).count (.ok key)
  := by
  induction h with
  | nil => rfl
  | cons hplanned _ ih =>
      cases hplanned with
      | @replayed existing hexisting durable =>
          have hne : existing.dedupKey ≠ key := by
            rintro rfl
            apply hkey
            apply List.mem_map_of_mem durable
          have hne' : (.ok existing.dedupKey : Except DigestError _) ≠ .ok key := by
            intro heq
            apply hne (Except.ok.inj heq)
          rw [List.map_cons, hexisting, List.count_cons_of_ne hne']
          apply ih
      | @recorded record _ hrecord _ =>
          rw [List.map_cons, hrecord, List.count_cons, ← ih]
          simp [PlannedItem.added, List.count_cons]

/-- The items of a page each have a row, among those that are durable or added, that is
reported. -/
theorem records_of_planned {items : List DeltaPageItem} {planned : List PlannedItem}
    {after : List ObservationRecord}
    (h : List.Forall₂ (PlannedFor platform ctx observations) items planned)
    (hdurable : ∀ row ∈ observations, row ∈ after)
    (hadded : ∀ row ∈ planned.filterMap PlannedItem.added, row ∈ after) :
  List.Forall₂ (fun item record => dedupKey platform ctx item = .ok record.dedupKey
    ∧ record ∈ after) items (planned.map PlannedItem.record)
  := by
  induction h with
  | nil => exact List.Forall₂.nil
  | cons hplanned _ ih =>
      cases hplanned with
      | @replayed existing hkey durable =>
          apply List.Forall₂.cons
          · exact ⟨hkey, hdurable existing durable⟩
          · apply ih hadded
      | @recorded record _ hkey _ =>
          apply List.Forall₂.cons
          · exact ⟨hkey, hadded record List.mem_cons_self⟩
          · apply ih
            intro row hrow
            apply hadded row (List.mem_cons_of_mem _ hrow)

/-- Every item of a planned page has a row among those that are durable or added, with the
outcome that is reported. -/
theorem outcomes_of_planned {items : List DeltaPageItem} {planned : List PlannedItem}
    {rows : List ObservationRecord}
    (h : List.Forall₂ (PlannedFor platform ctx observations) items planned)
    (hdurable : ∀ row ∈ observations, row ∈ rows)
    (hadded : ∀ row ∈ planned.filterMap PlannedItem.added, row ∈ rows) :
  List.Forall₂ (fun item outcome => ∃ row ∈ rows,
      dedupKey platform ctx item = .ok row.dedupKey ∧ row.outcome = outcome)
    items ((planned.map PlannedItem.record).map (·.outcome))
  := by
  apply List.forall₂_map_right_iff.mpr
  apply (records_of_planned h hdurable hadded).imp
  rintro item record ⟨hkey, hrecord⟩
  exact ⟨record, hrecord, hkey, rfl⟩

variable {κ : Type} {classifier : ItemClassifier κ}

/-- An item is planned for according to the durable observations. -/
theorem planItem_eq_ok {baselineCommitted : Bool} {maxItemAttempts : UInt8}
    {rawItem : DeltaPageItem} {readFails : Bool} {state state' : κ} {planned : PlannedItem}
    (hingested : Ingested platform ctx.envelopeKey ctx.account ctx.store checkpoints
      observations)
    (h : (planItem platform ctx classifier baselineCommitted maxItemAttempts rawItem
      readFails).run state = .ok (planned, state')) :
  PlannedFor platform ctx observations rawItem planned
  := by
  obtain ⟨key, state, hcompute, h⟩ := StateT.run_bind_eq_ok.mp h
  obtain ⟨existing, state, hread, h⟩ := StateT.run_bind_eq_ok.mp h
  have hkey := Except.mapError_eq_ok.mp (StateT.run_lift_eq_ok.mp hcompute).1
  have hexisting := Except.mapError_eq_ok.mp (StateT.run_lift_eq_ok.mp hread).1
  cases existing with
  | some existing =>
      cases h
      obtain ⟨hmem, rfl⟩ := hingested.existingObservation_some hexisting
      exact PlannedFor.replayed hkey hmem
  | none =>
      obtain ⟨outcome, state, -, h⟩ := StateT.run_bind_eq_ok.mp h
      obtain ⟨encoded, state, -, ⟨⟩⟩ := StateT.run_bind_eq_ok.mp h
      exact PlannedFor.recorded hkey (hingested.existingObservation_none hexisting)

/-- The rows of a planned page: one planned item for each item, and a checkpoint that
follows the current one. -/
structure PlannedRowsFor (platform : Platform) (ctx : IngestionContext)
    (observations : List ObservationRecord) (current : Option CheckpointRecord)
    (collectionId : Vector UInt8 32) (rows : PlannedRows) : Prop where
  items : List.Forall₂ (PlannedFor platform ctx observations) rows.page.items rows.items
  generation : nextGeneration current = .ok rows.checkpoint.generation
  checkpoint : rows.checkpoint =
    { generation := rows.checkpoint.generation
      collectionId
      cursor := rows.page.nextCursor
      baselineCommitted := baselineInForce current || rows.page.closesRound
      lastCompleteAt := none }

/-- The rows that are planned are those of the page fetched, and follow the current
checkpoint. -/
theorem planRows_eq_ok {collectionId : Vector UInt8 32}
    {fetchResult : Except MailSourceError DeltaPage} {state : κ} {maxItemAttempts : UInt8}
    {readFails : ℕ → Bool} {rows : PlannedRows}
    (hingested : Ingested platform ctx.envelopeKey ctx.account ctx.store checkpoints
      observations)
    (hnumbered : Log.Numbered (·.generation.toNat)
      (checkpoints.filter (·.collectionId = collectionId)))
    (h : planRows platform ctx classifier collectionId fetchResult state maxItemAttempts
      readFails = .ok rows) :
  fetchResult = .ok rows.page ∧ PlannedRowsFor platform ctx observations
    (checkpoints.filter (·.collectionId = collectionId)).getLast? collectionId rows
  := by
  obtain ⟨page, hpage, h⟩ := Except.bind_eq_ok.mp h
  obtain ⟨current, hcurrent, h⟩ := Except.bind_eq_ok.mp h
  obtain ⟨generation, hgeneration, h⟩ := Except.bind_eq_ok.mp h
  obtain ⟨items, hitems, h⟩ := Except.bind_eq_ok.mp h
  obtain ⟨encoded, -, ⟨⟩⟩ := Except.bind_eq_ok.mp h
  rw [← hingested.currentCheckpoint_eq_ok hnumbered (Except.mapError_eq_ok.mp hcurrent)]
  use Except.mapError_eq_ok.mp hpage
  constructor
  · obtain ⟨state', hrun⟩ := StateT.run'_eq_ok.mp hitems
    have hplanned : List.Forall₂ (fun raw planned =>
        PlannedFor platform ctx observations raw.1 planned) page.items.zipIdx items := by
      apply (StateT.run_mapM_eq_ok hrun).imp
      rintro ⟨rawItem, i⟩ planned ⟨t, t', hitem⟩
      apply planItem_eq_ok hingested hitem
    have hmap := List.forall₂_map_left_iff.mpr hplanned
    rw [List.zipIdx_map_fst] at hmap
    apply hmap
  · apply hgeneration
  · rfl

/-- The checkpoint of a planned page is encoded after the observations it adds. -/
theorem PlannedRows.filter_plaintexts (rows : PlannedRows) :
  List.Forall₂ (fun bytes record => CheckpointRecord.decode bytes = .ok record)
      ((rows.plaintexts.filter (·.1 = .syncCheckpoint)).map (·.2)) [rows.checkpoint]
    ∧ List.Forall₂ (fun bytes record => ObservationRecord.decode bytes = .ok record)
      ((rows.plaintexts.filter (·.1 = .messageObservation)).map (·.2))
      (rows.items.filterMap PlannedItem.added)
  := by
  have hcheckpoint : CheckpointRecord.decode rows.encoded = .ok rows.checkpoint :=
    CheckpointRecord.decode_encode rows.encoded.property
  rw [PlannedRows.plaintexts]
  induction rows.items with
  | nil =>
      constructor
      · exact List.Forall₂.cons hcheckpoint List.Forall₂.nil
      · exact List.Forall₂.nil
  | cons planned items ih =>
      obtain ⟨ihc, iho⟩ := ih
      cases planned with
      | replayed existing => exact ⟨ihc, iho⟩
      | recorded record encoded =>
          constructor
          · apply ihc
          · exact List.Forall₂.cons (ObservationRecord.decode_encode encoded.property) iho

/-! ### Committing -/

section

variable {collectionId : Vector UInt8 32} {fetchResult : Except MailSourceError DeltaPage}
  {state : κ} {maxItemAttempts : UInt8} {readFails : ℕ → Bool} {draws : Draws}
  {writeFails : Bool} {ctx' : IngestionContext}

/-- Planning a page changes at most the usage of the key. -/
theorem planPageTransaction_ctx {result : Except (Failure IngestionError) PlannedPage}
    (h : planPageTransaction platform ctx classifier collectionId fetchResult state
      maxItemAttempts readFails draws = (result, ctx')) :
  ∃ keyUsage, ctx' = { ctx with keyUsage }
  := by
  rw [planPageTransaction] at h
  split at h
  · cases h
    use ctx.keyUsage
  · cases h
    exact ⟨_, rfl⟩

/-- A page that is planned has rows, sealed in order. -/
theorem planPageTransaction_eq_ok {planned : PlannedPage}
    (h : planPageTransaction platform ctx classifier collectionId fetchResult state
      maxItemAttempts readFails draws = (.ok planned, ctx')) :
  ∃ rows, planRows platform ctx classifier collectionId fetchResult state maxItemAttempts
      readFails = .ok rows
    ∧ planned.outcome = rows.outcome
    ∧ List.Forall₂ (SealedAs platform ctx.envelopeKey ctx.account) rows.plaintexts
        planned.envelopes
  := by
  rw [planPageTransaction] at h
  split at h
  · cases h
  · rename_i rows hrows
    obtain ⟨hresult, -⟩ := Prod.mk.inj h
    obtain ⟨envelopes, hsealed, ⟨⟩⟩ := Except.map_eq_ok.mp hresult
    use rows, hrows, rfl
    apply sealBatch_eq_ok (Except.mapError_eq_ok.mp hsealed)

/-- A page transaction that fails leaves the store as it is. -/
theorem runPageTransaction_eq_error {failure : Failure IngestionError}
    (h : runPageTransaction platform ctx classifier collectionId fetchResult state
      maxItemAttempts readFails draws writeFails = (.error failure, ctx')) :
  ctx'.store = ctx.store
  := by
  rw [runPageTransaction] at h
  split at h
  · rename_i hplanned
    cases h
    obtain ⟨keyUsage, rfl⟩ := planPageTransaction_ctx hplanned
    rfl
  · rename_i hplanned
    obtain ⟨keyUsage, rfl⟩ := planPageTransaction_ctx hplanned
    split at h
    · cases h
      rfl
    · cases h

/-- A page transaction that succeeds adds a checkpoint and the rows of the items that had
none, and reports what it planned. -/
theorem runPageTransaction_eq_ok {outcome : PageTransactionOutcome}
    (hingested : Ingested platform ctx.envelopeKey ctx.account ctx.store checkpoints
      observations)
    (hnumbered : Log.Numbered (·.generation.toNat)
      (checkpoints.filter (·.collectionId = collectionId)))
    (h : runPageTransaction platform ctx classifier collectionId fetchResult state
      maxItemAttempts readFails draws writeFails = (.ok outcome, ctx')) :
  ∃ rows, planRows platform ctx classifier collectionId fetchResult state maxItemAttempts
      readFails = .ok rows
    ∧ fetchResult = .ok rows.page ∧ outcome = rows.outcome
    ∧ PlannedRowsFor platform ctx observations
        (checkpoints.filter (·.collectionId = collectionId)).getLast? collectionId rows
    ∧ Ingested platform ctx.envelopeKey ctx.account ctx'.store
        (checkpoints ++ [rows.checkpoint])
        (observations ++ rows.items.filterMap PlannedItem.added)
  := by
  rw [runPageTransaction] at h
  split at h
  · cases h
  · rename_i planned _ hplanned
    obtain ⟨rows, hrows, houtcome, hsealed⟩ := planPageTransaction_eq_ok hplanned
    obtain ⟨keyUsage, rfl⟩ := planPageTransaction_ctx hplanned
    obtain ⟨hpage, hrowsFor⟩ := planRows_eq_ok hingested hnumbered hrows
    split at h
    · cases h
    · rename_i hcommit
      cases h
      obtain ⟨store, hstore, ⟨⟩⟩ := Except.bind_eq_ok.mp hcommit
      obtain ⟨log, hlogs, hcheckpoints, hobservations⟩ := hingested
      obtain ⟨hcheckpoint, hadded⟩ := rows.filter_plaintexts
      use rows, hrows, hpage, houtcome, hrowsFor
      refine ⟨_, hlogs.commit hsealed (Except.mapError_eq_ok.mp hstore), ?_, ?_⟩
      · apply List.rel_append hcheckpoints hcheckpoint
      · apply List.rel_append hobservations hadded

end

end

end Application
