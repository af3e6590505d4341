import OpenLoops.Application.Deduplication
import OpenLoops.Library.Instrument

/-!
# Quarantine

An item that runs out of attempts is quarantined, and its row keeps the locator to fetch it
again by.  A page that brings one new item twice, with two locators, may keep the second one
only; apart from such pages the row of every quarantined item has the locator the item had
when it was first observed.
-/

namespace Application

open Persistence

/-! ### Calls of the classifier -/

section

variable {κ : Type}

/-- A classifier that also logs the items it is called with. -/
def ItemClassifier.logged (classifier : ItemClassifier κ) :
    ItemClassifier (κ × List DeltaPageItem) := fun (state, log) item eligibility =>
  let (attempt, state) := classifier state item eligibility
  (attempt, (state, log ++ [item]))

/-- An item is classified in at most the given number of calls. -/
theorem classifyWithin_logged (classifier : ItemClassifier κ) (item : DeltaPageItem)
    (eligibility : EligibilityOutcome) (attempts : ℕ) (state : κ) (log : List DeltaPageItem) :
  ∃ calls ≤ attempts, classifyWithin classifier.logged item eligibility attempts (state, log)
    = ((classifyWithin classifier item eligibility attempts state).1,
      ((classifyWithin classifier item eligibility attempts state).2,
        log ++ List.replicate calls item))
  := by
  induction attempts generalizing state log with
  | zero =>
      use 0, le_refl 0
      rw [List.replicate_zero, List.append_nil]
      rfl
  | succ attempts ih =>
      rw [classifyWithin, classifyWithin, ItemClassifier.logged]
      rcases classifier state item eligibility with ⟨outcome | _, state⟩
      · use 1, Nat.le_add_left 1 attempts
        rfl
      · obtain ⟨calls, hle, hcalls⟩ := ih state (log ++ [item])
        use calls + 1, Nat.succ_le_succ hle
        dsimp only
        rw [hcalls, List.append_assoc, List.singleton_append, List.replicate_succ]

/-- Classifying an item logs its calls. -/
theorem classify_logs (classifier : ItemClassifier κ) (item : DeltaPageItem)
    (eligibility : EligibilityOutcome) (attempts : ℕ) :
  StateT.Logs (ε := Failure IngestionError)
    (fun _ calls => ∃ n ≤ attempts, calls = List.replicate n item)
    (modifyGet (classifyWithin classifier item eligibility attempts))
    (modifyGet (classifyWithin classifier.logged item eligibility attempts))
  := by
  apply StateT.Logs.modifyGet
  intro state log
  obtain ⟨n, hle, hn⟩ := classifyWithin_logged classifier item eligibility attempts state log
  exact ⟨_, hn, n, hle, rfl⟩

variable (platform : Platform) (ctx : IngestionContext) (classifier : ItemClassifier κ)

/-- Planning an item calls the classifier with the item, not at all when the item is replayed,
and otherwise within the attempts it has. -/
theorem planItem_logs (baselineCommitted : Bool) (maxItemAttempts : UInt8)
    (rawItem : DeltaPageItem) (readFails : Bool) :
  StateT.Logs (fun planned calls => ∃ n ≤ max maxItemAttempts.toNat 1,
      calls = List.replicate n (itemInForce baselineCommitted rawItem)
        ∧ ∀ existing, planned = .replayed existing → n = 0)
    (planItem platform ctx classifier baselineCommitted maxItemAttempts rawItem readFails)
    (planItem platform ctx classifier.logged baselineCommitted maxItemAttempts rawItem
      readFails)
  := by
  rw [planItem, planItem]
  apply StateT.Logs.lift_bind
  intro key
  apply StateT.Logs.lift_bind
  intro existing
  cases existing with
  | some existing =>
      apply StateT.Logs.pure
      use 0, Nat.zero_le _, rfl
      intro _ _
      rfl
  | none =>
      apply ((classify_logs classifier _ _ _).bind (Q := fun _ planned calls => calls = []
        ∧ ∀ existing, planned ≠ .replayed existing) _).mono
      · rintro planned _ ⟨_, _, _, rfl, ⟨n, hle, rfl⟩, rfl, hnew⟩
        use n, hle, List.append_nil _
        intro existing hreplayed
        exact absurd hreplayed (hnew existing)
      · intro outcome
        apply StateT.Logs.lift_bind
        intro encoded
        apply StateT.Logs.pure
        use rfl
        intro existing
        nofun

/-- Plan items, each with the number of its read of the store. -/
def planItems (baselineCommitted : Bool) (maxItemAttempts : UInt8) (readFails : ℕ → Bool)
    (items : List DeltaPageItem) : Planning κ (List PlannedItem) :=
  items.zipIdx.mapM fun raw =>
    planItem platform ctx classifier baselineCommitted maxItemAttempts raw.1
      (readFails (raw.2 + 1))

/-- Planning items calls the classifier with one item after the other. -/
theorem planItems_logs (baselineCommitted : Bool) (maxItemAttempts : UInt8)
    (readFails : ℕ → Bool) (items : List DeltaPageItem) :
  StateT.Logs (fun planned calls => ∃ parts : List (PlannedItem × List DeltaPageItem),
      planned = parts.map (·.1) ∧ calls = (parts.map (·.2)).flatten
        ∧ List.Forall₂ (fun item part => ∃ n ≤ max maxItemAttempts.toNat 1,
            part.2 = List.replicate n (itemInForce baselineCommitted item)
              ∧ ∀ existing, part.1 = .replayed existing → n = 0) items parts)
    (planItems platform ctx classifier baselineCommitted maxItemAttempts readFails items)
    (planItems platform ctx classifier.logged baselineCommitted maxItemAttempts readFails items)
  := by
  have h := StateT.Logs.mapM (fun raw : DeltaPageItem × ℕ =>
    planItem_logs platform ctx classifier baselineCommitted maxItemAttempts raw.1
      (readFails (raw.2 + 1))) items.zipIdx
  apply h.mono
  rintro planned calls ⟨parts, hplanned, hcalls, hparts⟩
  use parts, hplanned, hcalls
  apply Log.forall₂_of_zipIdx hparts

/-! ### Locators of planned rows -/

variable {platform ctx classifier}

/-- The row planned for a new item keeps the locator of the item exactly when the item is
quarantined. -/
theorem planItem_locator {baselineCommitted : Bool} {maxItemAttempts : UInt8}
    {rawItem : DeltaPageItem} {readFails : Bool} {state state' : κ} {planned : PlannedItem}
    (h : (planItem platform ctx classifier baselineCommitted maxItemAttempts rawItem
      readFails).run state = .ok (planned, state')) :
  ∀ record, planned.added = some record →
    record.reFetchLocator = if record.outcome = .quarantined then rawItem.reFetchLocator else []
  := by
  obtain ⟨key, state, -, h⟩ := StateT.run_bind_eq_ok.mp h
  obtain ⟨existing, state, -, h⟩ := StateT.run_bind_eq_ok.mp h
  cases existing with
  | some existing =>
      cases h
      nofun
  | none =>
      obtain ⟨outcome, state, -, h⟩ := StateT.run_bind_eq_ok.mp h
      obtain ⟨encoded, state, -, h⟩ := StateT.run_bind_eq_ok.mp h
      cases h
      rintro record ⟨⟩
      rfl

/-- The rows planned for a page keep the locators of the items that are quarantined. -/
theorem planRows_locators {collectionId : Vector UInt8 32}
    {fetchResult : Except MailSourceError DeltaPage} {state : κ} {maxItemAttempts : UInt8}
    {readFails : ℕ → Bool} {rows : PlannedRows}
    (h : planRows platform ctx classifier collectionId fetchResult state maxItemAttempts
      readFails = .ok rows) :
  List.Forall₂ (fun item planned => ∀ record, planned.added = some record →
      record.reFetchLocator = if record.outcome = .quarantined then item.reFetchLocator else [])
    rows.page.items rows.items
  := by
  obtain ⟨page, -, h⟩ := Except.bind_eq_ok.mp h
  obtain ⟨current, -, h⟩ := Except.bind_eq_ok.mp h
  obtain ⟨generation, -, h⟩ := Except.bind_eq_ok.mp h
  obtain ⟨items, hitems, h⟩ := Except.bind_eq_ok.mp h
  obtain ⟨encoded, -, ⟨⟩⟩ := Except.bind_eq_ok.mp h
  obtain ⟨state', hrun⟩ := StateT.run'_eq_ok.mp hitems
  apply Log.forall₂_of_zipIdx
  apply (StateT.run_mapM_eq_ok hrun).imp
  rintro ⟨rawItem, i⟩ planned ⟨t, t', hitem⟩
  apply planItem_locator hitem

end

/-! ### First observations -/

/-- Items with one key that no committed row has are to be fetched again by one locator. -/
def OneLocatorEach (platform : Platform) (ctx : IngestionContext) (page : DeltaPage) : Prop :=
  ∀ item ∈ page.items, ∀ item' ∈ page.items,
    dedupKey platform ctx item = dedupKey platform ctx item' →
    isDurable platform ctx item = false → item.reFetchLocator = item'.reFetchLocator

instance (platform : Platform) (ctx : IngestionContext) (page : DeltaPage) :
    Decidable (OneLocatorEach platform ctx page) :=
  inferInstanceAs (Decidable (∀ item ∈ page.items, ∀ item' ∈ page.items, _ → _ → _))

/-- The items, each under its key with its locator. -/
def keyedItems (platform : Platform) (ctx : IngestionContext) (items : List DeltaPageItem) :
    List (Vector UInt8 32 × Bytes) :=
  items.filterMap fun item =>
    match dedupKey platform ctx item with
    | .ok key => some (key, item.reFetchLocator)
    | .error _ => none

theorem mem_keyedItems {platform : Platform} {ctx : IngestionContext}
    {items : List DeltaPageItem} {key : Vector UInt8 32} {locator : Bytes} :
  (key, locator) ∈ keyedItems platform ctx items ↔
    ∃ item ∈ items, dedupKey platform ctx item = .ok key ∧ item.reFetchLocator = locator
  := by
  rw [keyedItems, List.mem_filterMap]
  apply exists_congr
  intro item
  apply and_congr_right
  intro _
  cases dedupKey platform ctx item <;> simp

namespace Installation

variable (env : Installation) {κ : Type}

/-- The items an event observed, by committing their page. -/
def observedItems (event : Machine.Event Store (PageCall κ) PageAnswer) :
    List (Vector UInt8 32 × Bytes) :=
  match event.output, event.input.fetchResult with
  | .committed _, .ok page =>
      keyedItems env.platform (env.context event.before event.input) page.items
  | _, _ => []

/-- The locator of the first item with a key that was observed. -/
def firstLocator (history : List (Machine.Event Store (PageCall κ) PageAnswer))
    (key : Vector UInt8 32) : Option Bytes :=
  (history.flatMap env.observedItems).lookup key

/-- The locator an item of an event was first observed with. -/
def firstLocatorOf (history : List (Machine.Event Store (PageCall κ) PageAnswer))
    (event : Machine.Event Store (PageCall κ) PageAnswer) (item : DeltaPageItem) :
    Option Bytes :=
  match dedupKey env.platform (env.context event.before event.input) item with
  | .ok key => env.firstLocator history key
  | .error _ => none

/-- What an event reports as quarantined can be fetched again: every quarantined item has a row
with its key and the locator it was first observed with, and these locators are reported in the
order of the items. -/
def KeepsWayBack (history : List (Machine.Event Store (PageCall κ) PageAnswer))
    (rows : List ObservationRecord) (event : Machine.Event Store (PageCall κ) PageAnswer) :
    Prop :=
  ∀ outcome page, event.output = .committed outcome → event.input.fetchResult = .ok page →
    List.Forall₂ (fun item itemOutcome => itemOutcome = .quarantined → ∃ row ∈ rows,
        dedupKey env.platform (env.context event.before event.input) item = .ok row.dedupKey
          ∧ row.outcome = .quarantined
          ∧ env.firstLocator history row.dedupKey = some row.reFetchLocator)
      page.items outcome.itemOutcomes
    ∧ outcome.quarantinedLocators.map some
      = ((page.items.zip outcome.itemOutcomes).filter (·.2 = .quarantined)).map fun reported =>
        env.firstLocatorOf history event reported.1

/-- At a store, the planning of the items of any page a call may bring calls the classifier
with one item after the other: within the attempts of the call, and not at all for an item
whose key a row has. -/
def BoundsCalls (rows : List ObservationRecord) (store : Store) (call : PageCall κ) : Prop :=
  ∀ baselineCommitted items planned state,
    (planItems env.platform (env.context store call) call.classifier baselineCommitted
      call.maxItemAttempts call.readFails items).run call.classifierState
        = .ok (planned, state) →
    ∃ calls : List (List DeltaPageItem),
      (planItems env.platform (env.context store call) call.classifier.logged baselineCommitted
        call.maxItemAttempts call.readFails items).run (call.classifierState, [])
          = .ok (planned, (state, calls.flatten))
      ∧ List.Forall₂ (fun item itemCalls => ∃ n ≤ max call.maxItemAttempts.toNat 1,
          itemCalls = List.replicate n (itemInForce baselineCommitted item)
            ∧ ∀ row ∈ rows, dedupKey env.platform (env.context store call) item
                = .ok row.dedupKey → n = 0)
        items calls

end Installation

section

variable {κ : Type} {env : Installation} {checkpoints : List CheckpointRecord}
  {observations rows : List ObservationRecord}

/-- The calls of the classifier are bounded at every store that is followed. -/
theorem Ingested.boundsCalls {store : Store} (call : PageCall κ)
    (hingested : Ingested env.platform env.envelopeKey env.account store checkpoints
      observations)
    (hrows : rows.Perm observations) :
  env.BoundsCalls rows store call
  := by
  intro baselineCommitted items planned state hplanned
  obtain ⟨calls, hcalls, parts, rfl, rfl, hparts⟩ :=
    (planItems_logs env.platform (env.context store call) call.classifier baselineCommitted
      call.maxItemAttempts call.readFails items).run_eq_ok hplanned []
  use parts.map (·.2), hcalls
  have hingested : Ingested env.platform (env.context store call).envelopeKey
      (env.context store call).account (env.context store call).store checkpoints
      observations := hingested
  have hfor : List.Forall₂ (fun item part =>
      PlannedFor env.platform (env.context store call) observations item part.1) items
      parts := by
    apply List.forall₂_map_right_iff.mp
    apply Log.forall₂_of_zipIdx
    apply (StateT.run_mapM_eq_ok hplanned).imp
    rintro ⟨rawItem, i⟩ part ⟨t, t', hitem⟩
    apply planItem_eq_ok hingested hitem
  apply List.forall₂_map_right_iff.mpr
  apply List.Forall₂.mp _ hfor hparts
  rintro item ⟨part, partCalls⟩ hpart ⟨n, hle, hn, hreplayed⟩
  use n, hle, hn
  intro row hrow hkey
  cases hpart with
  | replayed _ _ => apply hreplayed _ rfl
  | recorded key new =>
      rw [← Except.ok.inj (hkey.symm.trans key)] at new
      apply absurd _ new
      apply List.mem_map_of_mem (hrows.mem_iff.mp hrow)

/-- After the events of a history, what the committed observations record of the items
observed. -/
structure Recorded (env : Installation)
    (history : List (Machine.Event Store (PageCall κ) PageAnswer))
    (observations : List ObservationRecord) : Prop where
  observed : ∀ key, key ∈ observations.map (·.dedupKey)
    ↔ key ∈ (history.flatMap env.observedItems).map (·.1)
  located : ∀ row ∈ observations, row.outcome = .quarantined →
    env.firstLocator history row.dedupKey = some row.reFetchLocator
  plain : ∀ row ∈ observations, row.outcome ≠ .quarantined → row.reFetchLocator = []
  /-- Every committed event reports of rows of its items. -/
  reported : ∀ event ∈ history, ∀ outcome page, event.output = .committed outcome →
    event.input.fetchResult = .ok page → ∃ records : List ObservationRecord,
      outcome.itemOutcomes = records.map (·.outcome)
        ∧ outcome.quarantinedLocators
          = (records.filter fun r => r.outcome = .quarantined).map (·.reFetchLocator)
        ∧ List.Forall₂ (fun item record =>
            dedupKey env.platform (env.context event.before event.input) item
              = .ok record.dedupKey ∧ record ∈ observations)
          page.items records

/-- Before any event nothing is recorded. -/
theorem recorded_open (env : Installation) :
  Recorded env ([] : List (Machine.Event Store (PageCall κ) PageAnswer)) []
  := by
  constructor <;> simp

/-- What is recorded of the items observed does not change by an event that observes
none. -/
theorem Recorded.of_uncommitted
    {history : List (Machine.Event Store (PageCall κ) PageAnswer)}
    {event : Machine.Event Store (PageCall κ) PageAnswer}
    (h : Recorded env history observations)
    (hanswer : ∀ outcome, event.output ≠ .committed outcome) :
  Recorded env (history ++ [event]) observations
  := by
  have hnone : env.observedItems event = [] := by
    rw [Installation.observedItems]
    split
    · rename_i houtput _
      exact absurd houtput (hanswer _)
    · rfl
  have hflat : (history ++ [event]).flatMap env.observedItems
      = history.flatMap env.observedItems := by
    rw [List.flatMap_append, List.flatMap_singleton, hnone, List.append_nil]
  constructor
  · rw [hflat]
    exact h.observed
  · intro row hrow hquarantined
    rw [Installation.firstLocator, hflat]
    apply h.located row hrow hquarantined
  · exact h.plain
  · intro e he outcome page houtput
    rcases List.mem_append.mp he with he | he
    · apply h.reported e he outcome page houtput
    · cases List.mem_singleton.mp he
      exact absurd houtput (hanswer outcome)

/-- The keys of the items of a page are those of the rows they have. -/
theorem mem_keys_of_planned {platform : Platform} {ctx : IngestionContext}
    {items : List DeltaPageItem} {planned : List PlannedItem} {key : Vector UInt8 32}
    (h : List.Forall₂ (PlannedFor platform ctx observations) items planned) :
  key ∈ (observations ++ planned.filterMap PlannedItem.added).map (·.dedupKey) ↔
    key ∈ observations.map (·.dedupKey) ∨ key ∈ (keyedItems platform ctx items).map (·.1)
  := by
  rw [List.map_append, List.mem_append]
  induction h with
  | nil => simp [keyedItems]
  | @cons item plan items planned hplanned _ ih =>
      cases hplanned with
      | @replayed existing hkey durable =>
          have hkeyed : keyedItems platform ctx (item :: items)
              = (existing.dedupKey, item.reFetchLocator) :: keyedItems platform ctx items := by
            rw [keyedItems, List.filterMap_cons, hkey]
            rfl
          have hdurable : key = existing.dedupKey → key ∈ observations.map (·.dedupKey) := by
            rintro rfl
            apply List.mem_map_of_mem durable
          rw [hkeyed, List.map_cons, List.mem_cons]
          have hskip : (PlannedItem.replayed existing :: planned).filterMap PlannedItem.added
              = planned.filterMap PlannedItem.added := rfl
          rw [hskip, ih]
          tauto
      | @recorded record encoded hkey new =>
          have hkeyed : keyedItems platform ctx (item :: items)
              = (record.dedupKey, item.reFetchLocator) :: keyedItems platform ctx items := by
            rw [keyedItems, List.filterMap_cons, hkey]
            rfl
          have hadd : (PlannedItem.recorded record encoded :: planned).filterMap
              PlannedItem.added = record :: planned.filterMap PlannedItem.added := rfl
          rw [hkeyed, hadd, List.map_cons, List.map_cons, List.mem_cons, List.mem_cons]
          tauto

/-- A row that is added has the key and, when it is quarantined, the locator of an item of the
page. -/
theorem added_of_planned {platform : Platform} {ctx : IngestionContext}
    {items : List DeltaPageItem} {planned : List PlannedItem} {row : ObservationRecord}
    (h : List.Forall₂ (fun item plan => PlannedFor platform ctx observations item plan
      ∧ ∀ record, plan.added = some record → record.reFetchLocator
        = if record.outcome = .quarantined then item.reFetchLocator else []) items planned)
    (hrow : row ∈ planned.filterMap PlannedItem.added) :
  row.dedupKey ∉ observations.map (·.dedupKey)
    ∧ ∃ item ∈ items, dedupKey platform ctx item = .ok row.dedupKey
      ∧ row.reFetchLocator
        = if row.outcome = .quarantined then item.reFetchLocator else []
  := by
  induction h with
  | nil => cases hrow
  | @cons item plan items planned hplan _ ih =>
      obtain ⟨hfor, hlocator⟩ := hplan
      have hrest : row ∈ planned.filterMap PlannedItem.added →
          row.dedupKey ∉ observations.map (·.dedupKey)
            ∧ ∃ other ∈ item :: items, dedupKey platform ctx other = .ok row.dedupKey
              ∧ row.reFetchLocator
                = if row.outcome = .quarantined then other.reFetchLocator else [] := by
        intro hrow
        obtain ⟨hnew, other, hother, hfacts⟩ := ih hrow
        exact ⟨hnew, other, List.mem_cons_of_mem item hother, hfacts⟩
      cases hfor with
      | replayed _ _ => apply hrest hrow
      | recorded key new =>
          rcases List.mem_cons.mp hrow with rfl | hrow
          · exact ⟨new, item, List.mem_cons_self, key, hlocator row rfl⟩
          · apply hrest hrow

/-- A committed event is recorded, when the new items of its page have one locator each. -/
theorem Recorded.of_committed {history : List (Machine.Event Store (PageCall κ) PageAnswer)}
    {store : Store} {call : PageCall κ} {plannedRows : PlannedRows}
    {current : Option CheckpointRecord}
    (h : Recorded env history observations)
    (hingested : Ingested env.platform env.envelopeKey env.account store checkpoints
      observations)
    (hplanned : env.planRows store call = .ok plannedRows)
    (hanswer : (env.ingestion.step store call).2 = .committed plannedRows.outcome)
    (hpage : call.fetchResult = .ok plannedRows.page)
    (hrows : PlannedRowsFor env.platform (env.context store call) observations current
      call.collectionId plannedRows)
    (hlocators : OneLocatorEach env.platform (env.context store call) plannedRows.page) :
  Recorded env (history ++ [env.ingestion.event store call])
    (observations ++ plannedRows.items.filterMap PlannedItem.added)
  := by
  have hitems := hrows.items
  have hobserved : (history ++ [env.ingestion.event store call]).flatMap env.observedItems
      = history.flatMap env.observedItems
        ++ keyedItems env.platform (env.context store call) plannedRows.page.items := by
    rw [List.flatMap_append, List.flatMap_singleton, Installation.observedItems,
      Machine.event_output, Machine.event_input, hanswer, hpage]
    rfl
  have hadded : ∀ row ∈ plannedRows.items.filterMap PlannedItem.added,
      row.dedupKey ∉ observations.map (·.dedupKey)
        ∧ ∃ item ∈ plannedRows.page.items,
          dedupKey env.platform (env.context store call) item = .ok row.dedupKey
            ∧ row.reFetchLocator
              = if row.outcome = .quarantined then item.reFetchLocator else [] := by
    intro row hrow
    apply added_of_planned _ hrow
    apply List.Forall₂.mp _ hitems (planRows_locators hplanned)
    intro item plan hfor hlocator
    exact ⟨hfor, hlocator⟩
  constructor
  · intro key
    rw [mem_keys_of_planned hitems, h.observed, hobserved, List.map_append, List.mem_append]
  · intro row hrow hquarantined
    rw [Installation.firstLocator, hobserved]
    rcases List.mem_append.mp hrow with hrow | hrow
    · rw [Log.lookup_append_of_mem]
      · apply h.located row hrow hquarantined
      · apply (h.observed _).mp (List.mem_map_of_mem hrow)
    · obtain ⟨hnew, item, hitem, hkey, hlocator⟩ := hadded row hrow
      rw [if_pos hquarantined] at hlocator
      rw [Log.lookup_append_of_notMem (mt (h.observed _).mpr hnew), hlocator]
      -- every item with the key has the locator of this one
      apply Log.lookup_eq_some_of_unique
      · apply List.mem_map.mpr
        exact ⟨(row.dedupKey, item.reFetchLocator),
          mem_keyedItems.mpr ⟨item, hitem, hkey, rfl⟩, rfl⟩
      · intro locator hmem
        obtain ⟨other, hother, hkey', rfl⟩ := mem_keyedItems.mp hmem
        apply hlocators other hother item hitem (hkey'.trans hkey.symm)
        have hingested : Ingested env.platform (env.context store call).envelopeKey
            (env.context store call).account (env.context store call).store checkpoints
            observations := hingested
        rw [← Bool.not_eq_true, isDurable_iff hingested hkey']
        exact hnew
  · intro row hrow hplain
    rcases List.mem_append.mp hrow with hrow | hrow
    · apply h.plain row hrow hplain
    · obtain ⟨-, item, -, -, hlocator⟩ := hadded row hrow
      rw [hlocator, if_neg hplain]
  · intro event hevent outcome page houtput hfetch
    rcases List.mem_append.mp hevent with hevent | hevent
    · obtain ⟨records, houtcomes, hlocators, hrecords⟩ :=
        h.reported event hevent outcome page houtput hfetch
      use records, houtcomes, hlocators
      apply hrecords.imp
      rintro item record ⟨hkey, hrecord⟩
      exact ⟨hkey, List.mem_append_left _ hrecord⟩
    · cases List.mem_singleton.mp hevent
      cases hanswer.symm.trans houtput
      cases hpage.symm.trans hfetch
      use plannedRows.items.map PlannedItem.record, rfl, rfl
      apply records_of_planned hitems
      · intro row hrow
        apply List.mem_append_left _ hrow
      · intro row hrow
        apply List.mem_append_right _ hrow

/-- The locators reported of records are those of the items they are of. -/
theorem quarantinedLocators_eq {f : DeltaPageItem → Option Bytes}
    {items : List DeltaPageItem} {records : List ObservationRecord}
    (h : List.Forall₂ (fun item record => record.outcome = .quarantined →
      f item = some record.reFetchLocator) items records) :
  ((records.filter fun r => r.outcome = .quarantined).map (·.reFetchLocator)).map some
    = ((items.zip (records.map (·.outcome))).filter (·.2 = .quarantined)).map
      fun reported => f reported.1
  := by
  induction h with
  | nil => rfl
  | @cons item record items records hitem _ ih =>
      rw [List.map_cons, List.zip_cons_cons]
      by_cases hquarantined : record.outcome = .quarantined
      · rw [List.filter_cons_of_pos (by simpa using hquarantined),
          List.filter_cons_of_pos (by simpa using hquarantined), List.map_cons, List.map_cons,
          List.map_cons, ih, hitem hquarantined]
      · rw [List.filter_cons_of_neg (by simpa using hquarantined),
          List.filter_cons_of_neg (by simpa using hquarantined), ih]

/-- What is recorded keeps the way back to the quarantined items of every event. -/
theorem Recorded.keepsWayBack {history : List (Machine.Event Store (PageCall κ) PageAnswer)}
    (h : Recorded env history observations) (hrows : rows.Perm observations) :
  ∀ event ∈ history, env.KeepsWayBack history rows event
  := by
  intro event hevent outcome page houtput hfetch
  obtain ⟨records, houtcomes, hlocators, hrecords⟩ :=
    h.reported event hevent outcome page houtput hfetch
  rw [houtcomes, hlocators]
  constructor
  · apply List.forall₂_map_right_iff.mpr
    apply hrecords.imp
    rintro item record ⟨hkey, hrecord⟩ hquarantined
    use record, hrows.mem_iff.mpr hrecord, hkey, hquarantined
    apply h.located record hrecord hquarantined
  · apply quarantinedLocators_eq
    apply hrecords.imp
    rintro item record ⟨hkey, hrecord⟩ hquarantined
    rw [Installation.firstLocatorOf, hkey]
    apply h.located record hrecord hquarantined

/-- In every run whose pages give the items with one new key one locator, and at every store it
reaches: each item reported as quarantined has a row with its key and the locator it was first
observed with, which is reported in the order of the items; the other rows have no locator; and
the classifier is called within the attempts for a new item, and not at all for one that is
recorded. -/
theorem quarantine_keepsWayBack (env : Installation) (calls : List (PageCall κ))
    (hcalls : env.ingestion.Admits (fun store call => ∀ page, call.fetchResult = .ok page →
      OneLocatorEach env.platform (env.context store call) page) .open calls) :
  let history := env.ingestion.history .open calls
  let store := env.ingestion.final .open calls
  ∃ rows, env.scanObservations store = .ok rows
    ∧ (∀ event ∈ history, env.KeepsWayBack history rows event)
    ∧ (∀ row ∈ rows, row.outcome ≠ .quarantined → row.reFetchLocator = [])
    ∧ ∀ call : PageCall κ, env.BoundsCalls rows store call
  := by
  have hrun : ∃ checkpoints observations, Follows env (env.ingestion.history .open calls)
      (env.ingestion.final .open calls) checkpoints observations
        ∧ Recorded env (env.ingestion.history .open calls) observations := by
    apply Machine.run_induction_of_admits env.ingestion
      (P := fun history store => ∃ checkpoints observations,
        Follows env history store checkpoints observations ∧ Recorded env history observations)
      _ _ calls hcalls
    · exact ⟨[], [], follows_open env, recorded_open env⟩
    · rintro history store call ⟨checkpoints, observations, hfollows, hrecorded⟩ hlocators
      obtain ⟨hanswer, -, hnext⟩ | ⟨rows, hplanned, hanswer, hpage, hrows, hnext⟩ :=
        hfollows.next_cases call
      · exact ⟨_, _, hnext, hrecorded.of_uncommitted hanswer⟩
      · exact ⟨_, _, hnext, hrecorded.of_committed hfollows.ingested hplanned hanswer hpage
          hrows (hlocators rows.page hpage)⟩
  obtain ⟨checkpoints, observations, hfollows, hrecorded⟩ := hrun
  obtain ⟨rows, hperm, hscan⟩ := hfollows.ingested.scanObservations
  use rows, hscan, hrecorded.keepsWayBack hperm
  constructor
  · intro row hrow
    apply hrecorded.plain row (hperm.mem_iff.mp hrow)
  · intro call
    apply hfollows.ingested.boundsCalls call hperm

end

/-! ### Two locators of one item -/

/-- A classifier that reviews the first item it is called with, and asks to retry from then
on. -/
def firstOnlyClassifier : ItemClassifier Bool := fun called _ _ =>
  if called then (.retryable, true) else (.terminal .needsReview, true)

/-- A call with these items, each with two attempts by this classifier; the random draws count
from `seed`. -/
def retryingCall (items : List DeltaPageItem) (seed : ℕ) : PageCall Bool where
  collectionId := Vector.replicate 32 3
  fetchResult := .ok { items, nextCursor := [5], closesRound := true }
  classifier := firstOnlyClassifier
  classifierState := false
  maxItemAttempts := 2
  keyUsage := ⟨sampleInstallation.envelopeKey.id, 0⟩
  schemaVersion := ⟨1, firstSchema_ne_zero⟩
  draws := (List.range 8).map fun n => some fun _ => UInt8.ofNat (seed + n)
  readFails _ := false
  writeFails := false
  crashesBeforeCommit := false

/-- The second item of a page is quarantined, and its locator is reported again when the page is
replayed. -/
theorem retryingCalls_keepWayBack :
  let calls := [retryingCall [sampleItem 1, sampleItem 2] 1,
    retryingCall [sampleItem 1, sampleItem 2] 21]
  let history := sampleInstallation.ingestion.history .open calls
  history.map (·.output) = List.replicate 2 (.committed
      { cursor := [5], closesRound := true, itemOutcomes := [.needsReview, .quarantined],
        quarantinedLocators := [[171, 2]] })
    ∧ ∃ rows, sampleInstallation.scanObservations
        (sampleInstallation.ingestion.final .open calls) = .ok rows
      ∧ (∀ event ∈ history, sampleInstallation.KeepsWayBack history rows event)
      ∧ (∀ row ∈ rows, row.outcome ≠ .quarantined → row.reFetchLocator = [])
      ∧ ∀ call : PageCall Bool, sampleInstallation.BoundsCalls rows
        (sampleInstallation.ingestion.final .open calls) call
  := by
  constructor
  · decide +kernel
  · apply quarantine_keepsWayBack sampleInstallation
    refine ⟨?_, ?_, trivial⟩
    · rintro page ⟨⟩
      decide +kernel
    · rintro page ⟨⟩
      decide +kernel

/-- Of two items of a page with one key but locators of their own, the first one is left to a
review and the second one is quarantined: the locator that was first observed is in no row, and
is not the one that is reported. -/
theorem twoLocators_not_keepsWayBack :
  let first := sampleItem 1
  let second := { sampleItem 1 with reFetchLocator := [172] }
  let calls := [retryingCall [first, second] 1]
  let history := sampleInstallation.ingestion.history .open calls
  let store := sampleInstallation.ingestion.final .open calls
  history.map (·.output) = [.committed
      { cursor := [5], closesRound := true, itemOutcomes := [.needsReview, .quarantined],
        quarantinedLocators := [[172]] }]
    ∧ (sampleInstallation.scanObservations store).map
        (fun rows => rows.all fun row => row.reFetchLocator ≠ first.reFetchLocator) = .ok true
    ∧ ∀ rows, ¬ ∀ event ∈ history, sampleInstallation.KeepsWayBack history rows event
  := by
  refine ⟨by decide, by decide, ?_⟩
  intro rows hkeeps
  obtain ⟨-, hlisted⟩ := hkeeps _ List.mem_cons_self
    { cursor := [5], closesRound := true, itemOutcomes := [.needsReview, .quarantined],
      quarantinedLocators := [[172]] }
    { items := [sampleItem 1, { sampleItem 1 with reFetchLocator := [172] }],
      nextCursor := [5], closesRound := true } (by decide) rfl
  revert hlisted
  decide

end Application
