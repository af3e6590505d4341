import OpenLoops.Application.IngestionPlan
import OpenLoops.Library.Machine

/-!
# Runs of page transactions

The store of an account takes one page transaction after another, each with a page, a
classifier and failures of its own, and each possibly cut off by a crash.  The checkpoints
of a collection follow its committed pages, and a row is written for an item exactly when
no durable row has its key.
-/

namespace Application

open Persistence

/-! ### The machine -/

/-- One page transaction: what it is called with, and what goes wrong.  A crash after the
commit is a commit whose report nobody reads. -/
structure PageCall (κ : Type) where
  collectionId : Vector UInt8 32
  fetchResult : Except MailSourceError DeltaPage
  classifier : ItemClassifier κ
  classifierState : κ
  maxItemAttempts : UInt8
  keyUsage : KeyUsageState
  schemaVersion : SchemaVersion
  draws : Draws
  readFails : ℕ → Bool
  writeFails : Bool
  crashesBeforeCommit : Bool

/-- How a page transaction ends. -/
inductive PageAnswer where
  | committed (outcome : PageTransactionOutcome)
  | failed (failure : Failure IngestionError)
  | crashed
deriving DecidableEq

namespace Installation

variable (env : Installation) {κ : Type}

/-- The context of a call at a store. -/
def context (store : Store) (call : PageCall κ) : IngestionContext :=
  { store
    account := env.account
    envelopeKey := env.envelopeKey
    keyUsage := call.keyUsage
    digestKey := env.digestKey
    schemaVersion := call.schemaVersion }

/-- The machine whose steps are page transactions. -/
def ingestion : Machine Store (PageCall κ) PageAnswer where
  step store call :=
    if call.crashesBeforeCommit then (store, .crashed)
    else
      match runPageTransaction env.platform (env.context store call) call.classifier
          call.collectionId call.fetchResult call.classifierState call.maxItemAttempts
          call.readFails call.draws call.writeFails with
      | (.error failure, ctx) => (ctx.store, .failed failure)
      | (.ok outcome, ctx) => (ctx.store, .committed outcome)

/-- The rows planned for a call at a store. -/
def planRows (store : Store) (call : PageCall κ) : Except (Failure IngestionError) PlannedRows :=
  Application.planRows env.platform (env.context store call) call.classifier call.collectionId
    call.fetchResult call.classifierState call.maxItemAttempts call.readFails

/-- The checkpoints as they are read back. -/
def scanCheckpoints (store : Store) : Except ScanError (List CheckpointRecord) :=
  scanRecords env.platform env.envelopeKey env.account store .syncCheckpoint
    CheckpointRecord.decode false

/-- The observations as they are read back. -/
def scanObservations (store : Store) : Except ScanError (List ObservationRecord) :=
  scanRecords env.platform env.envelopeKey env.account store .messageObservation
    ObservationRecord.decode false

end Installation

section

variable {κ : Type}

/-- The page an event committed to the collection. -/
def committedPage? (collectionId : Vector UInt8 32)
    (event : Machine.Event Store (PageCall κ) PageAnswer) : Option DeltaPage :=
  match event.output, event.input.fetchResult with
  | .committed _, .ok page =>
      if event.input.collectionId = collectionId then some page else none
  | _, _ => none

/-- The pages committed to the collection, in order. -/
def committedPages (collectionId : Vector UInt8 32)
    (history : List (Machine.Event Store (PageCall κ) PageAnswer)) : List DeltaPage :=
  history.filterMap (committedPage? collectionId)

/-- The checkpoints that the committed pages of a collection call for: generations from
zero, the cursors of the pages, and the baseline from the first page on that closed a
round. -/
def checkpointsOf (collectionId : Vector UInt8 32) (pages : List DeltaPage) :
    List CheckpointRecord :=
  pages.mapIdx fun i page =>
    { generation := UInt32.ofNat i
      collectionId
      cursor := page.nextCursor
      baselineCommitted := (pages.take (i + 1)).any (·.closesRound)
      lastCompleteAt := none }

/-- One more page calls for one more checkpoint. -/
theorem checkpointsOf_snoc (collectionId : Vector UInt8 32) (pages : List DeltaPage)
    (page : DeltaPage) :
  checkpointsOf collectionId (pages ++ [page]) = checkpointsOf collectionId pages
    ++ [{ generation := UInt32.ofNat pages.length
          collectionId
          cursor := page.nextCursor
          baselineCommitted := pages.any (·.closesRound) || page.closesRound
          lastCompleteAt := none }]
  := by
  rw [checkpointsOf, List.mapIdx_append, checkpointsOf]
  congr 1
  · apply List.ext_getElem (by simp)
    intro i hi hi'
    have hlt : i < pages.length := by simpa using hi
    simp [List.take_append_of_le_length (show i + 1 ≤ pages.length from hlt)]
  · simp [List.take_of_length_le]

/-- The baseline in force is that of the committed pages. -/
theorem baselineInForce_checkpointsOf (collectionId : Vector UInt8 32)
    (pages : List DeltaPage) :
  baselineInForce (checkpointsOf collectionId pages).getLast? = pages.any (·.closesRound)
  := by
  induction pages using List.reverseRecOn with
  | nil => rfl
  | append_singleton pages page _ =>
      rw [checkpointsOf_snoc, List.getLast?_concat, List.any_append]
      simp [baselineInForce]

/-! ### One page transaction -/

variable {env : Installation} {checkpoints : List CheckpointRecord}
  {observations : List ObservationRecord}

/-- A step commits the rows that were planned for its page, or leaves the store as it
is. -/
theorem ingestion_step_cases {store : Store} {call : PageCall κ}
    (hingested : Ingested env.platform env.envelopeKey env.account store checkpoints
      observations)
    (hnumbered : Log.Numbered (·.generation.toNat)
      (checkpoints.filter (·.collectionId = call.collectionId))) :
  ((∀ outcome, (env.ingestion.step store call).2 ≠ .committed outcome)
    ∧ env.ingestion.next store call = store)
  ∨ ∃ rows, env.planRows store call = .ok rows
      ∧ (env.ingestion.step store call).2 = .committed rows.outcome
      ∧ call.fetchResult = .ok rows.page
      ∧ PlannedRowsFor env.platform (env.context store call) observations
          (checkpoints.filter (·.collectionId = call.collectionId)).getLast?
          call.collectionId rows
      ∧ Ingested env.platform env.envelopeKey env.account (env.ingestion.next store call)
          (checkpoints ++ [rows.checkpoint])
          (observations ++ rows.items.filterMap PlannedItem.added)
  := by
  rw [Machine.next, Installation.ingestion]
  dsimp only
  split
  · left
    simp
  · split
    · rename_i hrun
      left
      constructor
      · simp
      · apply runPageTransaction_eq_error hrun
    · rename_i hrun
      right
      obtain ⟨rows, hplanned, hpage, rfl, hrows, hnext⟩ :=
        runPageTransaction_eq_ok hingested hnumbered hrun
      exact ⟨rows, hplanned, rfl, hpage, hrows, hnext⟩

/-- The generation after the checkpoints of a collection is their number. -/
theorem nextGeneration_numbered {l : List CheckpointRecord} {generation : UInt32}
    (hnumbered : Log.Numbered (·.generation.toNat) l)
    (h : nextGeneration l.getLast? = .ok generation) :
  generation.toNat = l.length
  := by
  cases l using List.reverseRecOn with
  | nil =>
      cases h
      rfl
  | append_singleton l last =>
      rw [List.getLast?_concat] at h
      rw [UInt32.succOrPanic_eq_ok h, hnumbered.key_last, List.length_append]
      rfl

/-- The checkpoint planned for a page is the one its collection calls for next. -/
theorem PlannedRowsFor.checkpoint_eq {ctx : IngestionContext} {rows : PlannedRows}
    {collectionId : Vector UInt8 32} {pages : List DeltaPage}
    (hrows : PlannedRowsFor env.platform ctx observations
      (checkpointsOf collectionId pages).getLast? collectionId rows)
    (hnumbered : Log.Numbered (·.generation.toNat) (checkpointsOf collectionId pages)) :
  checkpointsOf collectionId pages ++ [rows.checkpoint]
      = checkpointsOf collectionId (pages ++ [rows.page])
    ∧ Log.Numbered (·.generation.toNat) (checkpointsOf collectionId (pages ++ [rows.page]))
  := by
  have hgeneration := nextGeneration_numbered hnumbered hrows.generation
  have heq : checkpointsOf collectionId pages ++ [rows.checkpoint]
      = checkpointsOf collectionId (pages ++ [rows.page]) := by
    have hnumber : UInt32.ofNat pages.length = rows.checkpoint.generation := by
      have hlength : (checkpointsOf collectionId pages).length = pages.length :=
        List.length_mapIdx
      rw [← hlength, ← hgeneration, UInt32.ofNat_toNat]
    rw [checkpointsOf_snoc, hrows.checkpoint, baselineInForce_checkpointsOf, hnumber]
  use heq
  rw [← heq]
  apply hnumbered.snoc hgeneration

/-! ### Runs -/

/-- After the events of a history, the store holds the checkpoints that the committed pages
of each collection call for. -/
structure Follows (env : Installation)
    (history : List (Machine.Event Store (PageCall κ) PageAnswer)) (store : Store)
    (checkpoints : List CheckpointRecord) (observations : List ObservationRecord) :
    Prop where
  ingested : Ingested env.platform env.envelopeKey env.account store checkpoints observations
  filter : ∀ collectionId, checkpoints.filter (·.collectionId = collectionId)
    = checkpointsOf collectionId (committedPages collectionId history)
  numbered : ∀ collectionId, Log.Numbered (·.generation.toNat)
    (checkpointsOf collectionId (committedPages collectionId history))

/-- The pages committed after one more event. -/
theorem committedPages_snoc (collectionId : Vector UInt8 32)
    (history : List (Machine.Event Store (PageCall κ) PageAnswer))
    (event : Machine.Event Store (PageCall κ) PageAnswer) :
  committedPages collectionId (history ++ [event])
    = committedPages collectionId history ++ (committedPage? collectionId event).toList
  := by
  rw [committedPages, List.filterMap_append, committedPages]
  cases h : committedPage? collectionId event with
  | none => simp [h]
  | some page => simp [h]

/-- One more step is followed: it commits the rows that were planned for its page, or leaves
the store as it is. -/
theorem Follows.next_cases {history : List (Machine.Event Store (PageCall κ) PageAnswer)}
    {store : Store} (hfollows : Follows env history store checkpoints observations)
    (call : PageCall κ) :
  ((∀ outcome, (env.ingestion.step store call).2 ≠ .committed outcome)
    ∧ env.ingestion.next store call = store
    ∧ Follows env (history ++ [env.ingestion.event store call])
        (env.ingestion.next store call) checkpoints observations)
  ∨ ∃ rows, env.planRows store call = .ok rows
      ∧ (env.ingestion.step store call).2 = .committed rows.outcome
      ∧ call.fetchResult = .ok rows.page
      ∧ PlannedRowsFor env.platform (env.context store call) observations
          (checkpointsOf call.collectionId
            (committedPages call.collectionId history)).getLast?
          call.collectionId rows
      ∧ Follows env (history ++ [env.ingestion.event store call])
          (env.ingestion.next store call) (checkpoints ++ [rows.checkpoint])
          (observations ++ rows.items.filterMap PlannedItem.added)
  := by
  obtain ⟨hingested, hfilter, hnumbered⟩ := hfollows
  have hcurrent := hnumbered call.collectionId
  have hcurrent' := hcurrent
  rw [← hfilter] at hcurrent'
  obtain ⟨hanswer, hnext⟩ | ⟨rows, hplanned, hanswer, hpage, hrows, hnext⟩ :=
    ingestion_step_cases hingested hcurrent'
  · left
    have hnone : ∀ c, committedPage? c (env.ingestion.event store call) = none := by
      intro c
      rw [committedPage?]
      split
      · rename_i houtput _
        exact absurd houtput (hanswer _)
      · rfl
    use hanswer, hnext
    rw [hnext]
    use hingested
    · intro c
      rw [committedPages_snoc, hnone, Option.toList_none, List.append_nil, hfilter]
    · intro c
      rw [committedPages_snoc, hnone, Option.toList_none, List.append_nil]
      apply hnumbered
  · right
    have hpages : ∀ c, committedPage? c (env.ingestion.event store call)
        = if call.collectionId = c then some rows.page else none := by
      intro c
      rw [committedPage?, Machine.event_output, Machine.event_input, hanswer, hpage]
    have hcollection : rows.checkpoint.collectionId = call.collectionId := by
      rw [hrows.checkpoint]
    rw [hfilter] at hrows
    obtain ⟨hcheckpoint, hsnoc⟩ := hrows.checkpoint_eq hcurrent
    use rows, hplanned, hanswer, hpage, hrows, hnext
    · intro c
      rw [committedPages_snoc, hpages, List.filter_append, hfilter]
      by_cases hc : call.collectionId = c
      · subst hc
        simp [hcollection, hcheckpoint]
      · simp [hcollection, hc]
    · intro c
      rw [committedPages_snoc, hpages]
      by_cases hc : call.collectionId = c
      · subst hc
        simp [hsnoc]
      · simp [hc, hnumbered c]

/-- Before any event the store is empty. -/
theorem follows_open (env : Installation) :
  Follows env ([] : List (Machine.Event Store (PageCall κ) PageAnswer)) .open [] []
  := by
  constructor
  · apply ingested_open
  · intro c
    rfl
  · intro c
    apply Log.Numbered.nil

/-- Every run is followed. -/
theorem exists_follows (env : Installation) (calls : List (PageCall κ)) :
  ∃ checkpoints observations, Follows env (env.ingestion.history .open calls)
    (env.ingestion.final .open calls) checkpoints observations
  := by
  apply Machine.run_induction env.ingestion
    (P := fun history store => ∃ checkpoints observations,
      Follows env history store checkpoints observations)
  · exact ⟨[], [], follows_open env⟩
  · rintro history store call ⟨checkpoints, observations, hfollows⟩
    obtain ⟨-, -, hnext⟩ | ⟨rows, -, -, -, -, hnext⟩ := hfollows.next_cases call
    · exact ⟨_, _, hnext⟩
    · exact ⟨_, _, hnext⟩

/-! ### The discipline of a run -/

/-- The checkpoints of a store that is followed are read back, in some order. -/
theorem Follows.scanCheckpoints
    {history : List (Machine.Event Store (PageCall κ) PageAnswer)} {store : Store}
    (hfollows : Follows env history store checkpoints observations) :
  ∃ rows, rows.Perm checkpoints ∧ env.scanCheckpoints store = .ok rows
  := by
  obtain ⟨log, hlogs, hcheckpoints, -⟩ := hfollows.ingested
  apply hlogs.scanRecords hcheckpoints

/-- The observations of a store are read back, in some order. -/
theorem Ingested.scanObservations {store : Store}
    (hingested : Ingested env.platform env.envelopeKey env.account store checkpoints
      observations) :
  ∃ rows, rows.Perm observations ∧ env.scanObservations store = .ok rows
  := by
  obtain ⟨log, hlogs, -, hobservations⟩ := hingested
  apply hlogs.scanRecords hobservations

/-- The current checkpoint of a collection is the last one its committed pages call for. -/
theorem Follows.currentCheckpoint_eq_ok
    {history : List (Machine.Event Store (PageCall κ) PageAnswer)} {store : Store}
    (hfollows : Follows env history store checkpoints observations) (call : PageCall κ)
    {collectionId : Vector UInt8 32} {fails : Bool} {current : Option CheckpointRecord}
    (h : currentCheckpoint env.platform (env.context store call) collectionId fails
      = .ok current) :
  current = (checkpointsOf collectionId (committedPages collectionId history)).getLast?
  := by
  have hnumbered := hfollows.numbered collectionId
  rw [← hfollows.filter] at hnumbered
  have hingested : Ingested env.platform (env.context store call).envelopeKey
      (env.context store call).account (env.context store call).store checkpoints
      observations := hfollows.ingested
  rw [hingested.currentCheckpoint_eq_ok hnumbered h, hfollows.filter]

/-- The current checkpoint of a collection is found, with the cursor of its last committed
page and the baseline of its committed pages. -/
theorem Follows.exists_currentCheckpoint
    {history : List (Machine.Event Store (PageCall κ) PageAnswer)} {store : Store}
    (hfollows : Follows env history store checkpoints observations) (call : PageCall κ)
    (collectionId : Vector UInt8 32) :
  ∃ current, currentCheckpoint env.platform (env.context store call) collectionId false
        = .ok current
    ∧ current.map (·.cursor) = (committedPages collectionId history).getLast?.map (·.nextCursor)
    ∧ baselineInForce current = (committedPages collectionId history).any (·.closesRound)
  := by
  have hnumbered := hfollows.numbered collectionId
  rw [← hfollows.filter] at hnumbered
  have hingested : Ingested env.platform (env.context store call).envelopeKey
      (env.context store call).account (env.context store call).store checkpoints
      observations := hfollows.ingested
  refine ⟨_, hingested.currentCheckpoint hnumbered, ?_⟩
  rw [hfollows.filter, baselineInForce_checkpointsOf]
  constructor
  · induction committedPages collectionId history using List.reverseRecOn with
    | nil => rfl
    | append_singleton pages page _ =>
        rw [checkpointsOf_snoc, List.getLast?_concat, List.getLast?_concat]
        rfl
  · rfl

/-- An item is eligible for analysis only after a committed page of its collection closed a
round. -/
theorem Follows.closed_of_analyzeOnce
    {history : List (Machine.Event Store (PageCall κ) PageAnswer)} {store : Store}
    (hfollows : Follows env history store checkpoints observations) (call : PageCall κ)
    {collectionId : Vector UInt8 32} {fails : Bool} {current : Option CheckpointRecord}
    (hcurrent : currentCheckpoint env.platform (env.context store call) collectionId fails
      = .ok current)
    {rawItem : DeltaPageItem}
    (h : classifyEligibility (itemInForce (baselineInForce current) rawItem) = .analyzeOnce) :
  ∃ page ∈ committedPages collectionId history, page.closesRound = true
  := by
  rw [hfollows.currentCheckpoint_eq_ok call hcurrent, baselineInForce_checkpointsOf] at h
  apply List.any_eq_true.mp
  by_contra hopen
  rw [Bool.not_eq_true] at hopen
  rw [hopen] at h
  apply classifyEligibility_backfill _ h
  apply Bool.or_true

/-- What the commit of a page does to the observations: every item has a row with the
outcome that is reported, a key that was durable gets no further row, and any other key gets
one row when one item of the page has it. -/
structure CommitsItems (platform : Platform) (ctx : IngestionContext) (page : DeltaPage)
    (outcome : PageTransactionOutcome) (before after added : List ObservationRecord) :
    Prop where
  rows : after.Perm (before ++ added)
  outcomes : List.Forall₂ (fun item itemOutcome => ∃ row ∈ after,
      dedupKey platform ctx item = .ok row.dedupKey ∧ row.outcome = itemOutcome)
    page.items outcome.itemOutcomes
  durable : ∀ key ∈ before.map (·.dedupKey), key ∉ added.map (·.dedupKey)
  new : ∀ key ∉ before.map (·.dedupKey),
    (page.items.map (dedupKey platform ctx)).count (.ok key) ≤ 1 →
    (added.map (·.dedupKey)).count key
      = (page.items.map (dedupKey platform ctx)).count (.ok key)

/-- The rows a page adds are committed, as they are read back before and after. -/
theorem PlannedRowsFor.commitsItems {ctx : IngestionContext} {rows : PlannedRows}
    {current : Option CheckpointRecord} {collectionId : Vector UInt8 32}
    {before after : List ObservationRecord}
    (hrows : PlannedRowsFor env.platform ctx observations current collectionId rows)
    (hbefore : before.Perm observations)
    (hafter : after.Perm (observations ++ rows.items.filterMap PlannedItem.added)) :
  CommitsItems env.platform ctx rows.page rows.outcome before after
    (rows.items.filterMap PlannedItem.added)
  := by
  have hkeys : ∀ key, key ∈ before.map (·.dedupKey) ↔ key ∈ observations.map (·.dedupKey) :=
    fun key => (hbefore.map _).mem_iff
  constructor
  · apply hafter.trans
    apply hbefore.symm.append_right
  · apply outcomes_of_planned hrows.items
    · intro row hrow
      apply hafter.mem_iff.mpr
      apply List.mem_append_left _ hrow
    · intro row hrow
      apply hafter.mem_iff.mpr
      apply List.mem_append_right _ hrow
  · intro key hkey
    apply added_of_durable hrows.items
    apply (hkeys key).mp hkey
  · intro key hkey _
    apply count_added hrows.items
    intro hdurable
    apply hkey
    apply (hkeys key).mpr hdurable

/-- In every run, and for every call that comes next: the checkpoints of each collection
are those its committed pages call for; the current one carries the cursor and the baseline
of these pages, and the call changes the baseline only by committing a page that closes a
round; an item is eligible for analysis only after such a page; a committed page gives its
items their rows together with its cursor; and any other call leaves the store as it is. -/
theorem page_discipline (env : Installation) (calls : List (PageCall κ))
    (call : PageCall κ) :
  let history := env.ingestion.history .open calls
  let store := env.ingestion.final .open calls
  let event := env.ingestion.event store call
  let ctx := env.context store call
  let ctx' := env.context event.after call
  (∀ c, ∃ rows, env.scanCheckpoints store = .ok rows
    ∧ (rows.filter (·.collectionId = c)).Perm (checkpointsOf c (committedPages c history))
    ∧ Log.Numbered (·.generation.toNat) (checkpointsOf c (committedPages c history)))
  ∧ (∀ c, ∃ current current',
    currentCheckpoint env.platform ctx c false = .ok current
    ∧ currentCheckpoint env.platform ctx' c false = .ok current'
    ∧ current.map (·.cursor) = (committedPages c history).getLast?.map (·.nextCursor)
    ∧ baselineInForce current' = (baselineInForce current
        || (committedPage? c event).any (·.closesRound)))
  ∧ (∀ c fails current rawItem,
    currentCheckpoint env.platform ctx c fails = .ok current →
    classifyEligibility (itemInForce (baselineInForce current) rawItem) = .analyzeOnce →
    ∃ page ∈ committedPages c history, page.closesRound = true)
  ∧ (∀ outcome, event.output = .committed outcome →
    ∃ page before after added, call.fetchResult = .ok page
      ∧ env.scanObservations store = .ok before
      ∧ env.scanObservations event.after = .ok after
      ∧ CommitsItems env.platform ctx page outcome before after added
      ∧ ∃ checkpoint, currentCheckpoint env.platform ctx' call.collectionId false
          = .ok (some checkpoint) ∧ checkpoint.cursor = page.nextCursor)
  ∧ ((∀ outcome, event.output ≠ .committed outcome) → event.after = store)
  := by
  obtain ⟨checkpoints, observations, hfollows⟩ := exists_follows env calls
  obtain ⟨checkpoints', observations', hfollows'⟩ := exists_follows env (calls ++ [call])
  rw [Machine.history_snoc, Machine.final_snoc] at hfollows'
  refine ⟨?_, ?_, ?_, ?_, ?_⟩
  · intro c
    obtain ⟨rows, hperm, hscan⟩ := hfollows.scanCheckpoints
    use rows, hscan
    rw [← hfollows.filter]
    constructor
    · apply hperm.filter
    · rw [hfollows.filter]
      apply hfollows.numbered
  · intro c
    obtain ⟨current, hcurrent, hcursor, hbaseline⟩ := hfollows.exists_currentCheckpoint call c
    obtain ⟨current', hcurrent', -, hbaseline'⟩ := hfollows'.exists_currentCheckpoint call c
    use current, current', hcurrent, hcurrent', hcursor
    rw [hbaseline', hbaseline, committedPages_snoc, List.any_append]
    cases committedPage? c (env.ingestion.event (env.ingestion.final .open calls) call) with
    | none => rfl
    | some page => simp
  · intro c fails current rawItem hcurrent
    apply hfollows.closed_of_analyzeOnce call hcurrent
  · intro outcome houtcome
    obtain ⟨hanswer, -⟩ | ⟨rows, -, hanswer, hpage, hrows, hnext⟩ := hfollows.next_cases call
    · exact absurd houtcome (hanswer outcome)
    · cases houtcome.symm.trans hanswer
      obtain ⟨before, hbefore, hscan⟩ := hfollows.ingested.scanObservations
      obtain ⟨after, hafter, hscan'⟩ := hnext.ingested.scanObservations
      use rows.page, before, after, rows.items.filterMap PlannedItem.added, hpage, hscan, hscan'
      use hrows.commitsItems hbefore hafter
      obtain ⟨current', hcurrent', hcursor', -⟩ :=
        hfollows'.exists_currentCheckpoint call call.collectionId
      have hlast : committedPage? call.collectionId
          (env.ingestion.event (env.ingestion.final .open calls) call) = some rows.page := by
        rw [committedPage?, Machine.event_output, Machine.event_input, hanswer, hpage]
        simp
      rw [committedPages_snoc, hlast, Option.toList_some, List.getLast?_concat] at hcursor'
      obtain ⟨checkpoint, rfl, hcheckpoint⟩ := Option.map_eq_some_iff.mp hcursor'
      use checkpoint, hcurrent', hcheckpoint
  · intro hanswer
    obtain ⟨-, hnext, -⟩ | ⟨rows, -, houtcome, -⟩ := hfollows.next_cases call
    · apply hnext
    · exact absurd houtcome (hanswer rows.outcome)

end

/-! ### A replayed page -/

/-- An incoming message that was first observed read. -/
def sampleItem (n : UInt8) : DeltaPageItem where
  testedLocator := [n]
  observedVersion := [1]
  direction := .incoming
  readState := .firstObservedRead
  firstObserved := false
  inBackfillBatch := false
  reFetchLocator := [171, n]

/-- A call with these items, on a page that closes a round; the random draws count from
`seed`. -/
def sampleCall (items : List DeltaPageItem) (seed : ℕ) : PageCall Unit where
  collectionId := Vector.replicate 32 3
  fetchResult := .ok { items, nextCursor := [5], closesRound := true }
  classifier := surfaceToReviewClassifier
  classifierState := ()
  maxItemAttempts := 3
  keyUsage := ⟨sampleInstallation.envelopeKey.id, 0⟩
  schemaVersion := ⟨1, firstSchema_ne_zero⟩
  draws := (List.range 8).map fun n => some fun _ => UInt8.ofNat (seed + n)
  readFails _ := false
  writeFails := false
  crashesBeforeCommit := false

/-- The page of a message is committed a second time without a row for the message, whose
outcome was committed with the first cursor. -/
theorem replayedItem_not_committed :
  let event := sampleInstallation.ingestion.event
    (sampleInstallation.ingestion.next .open (sampleCall [sampleItem 1] 1))
    (sampleCall [sampleItem 1] 21)
  event.output = .committed
      { cursor := [5], closesRound := true, itemOutcomes := [.needsReview],
        quarantinedLocators := [] }
    ∧ sampleInstallation.scanObservations event.after
      = sampleInstallation.scanObservations event.before
  := by
  decide +kernel

end Application
