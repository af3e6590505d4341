import Mathlib.Data.Set.Function
import OpenLoops.Application.IngestionRuns

/-!
# Deduplication

An item is looked up among the committed rows only, so a page that brings the same new item
twice gets two rows with one key.  Apart from such pages every row has a key of its own.
-/

namespace Application

open Persistence

section

variable (platform : Platform) (ctx : IngestionContext)

/-- Whether a committed row has the key of the item. -/
def isDurable (item : DeltaPageItem) : Bool :=
  match dedupKey platform ctx item with
  | .error _ => false
  | .ok key =>
      match existingObservation platform ctx key false with
      | .ok (some _) => true
      | _ => false

/-- The items of a page that no committed row records are told apart by their locators and
versions. -/
def NewItemsDistinct (page : DeltaPage) : Prop :=
  ((page.items.filter fun item => !isDurable platform ctx item).map fun item =>
    (item.testedLocator, item.observedVersion)).Nodup

instance (page : DeltaPage) : Decidable (NewItemsDistinct platform ctx page) :=
  inferInstanceAs (Decidable (List.Nodup _))

end

/-- The message that the key of an item is the HMAC of. -/
def itemFrame (account : AccountBindingAad) (schemaVersion : SchemaVersion)
    (item : DeltaPageItem) : Except DigestError Bytes :=
  Digest.frame .messageObservationSourceVersion account schemaVersion
    [item.testedLocator, item.observedVersion]

/-- The messages that the keys of the items of a call are the HMACs of. -/
def Installation.pageFrames (env : Installation) {κ : Type} (call : PageCall κ) : List Bytes :=
  match call.fetchResult with
  | .error _ => []
  | .ok page =>
      page.items.filterMap fun item =>
        (itemFrame env.account call.schemaVersion item).toOption

section

variable {platform : Platform} {ctx : IngestionContext} {checkpoints : List CheckpointRecord}
  {observations : List ObservationRecord}

/-- An item is durable when a committed row has its key. -/
theorem isDurable_iff {item : DeltaPageItem} {key : Vector UInt8 32}
    (hingested : Ingested platform ctx.envelopeKey ctx.account ctx.store checkpoints
      observations)
    (hkey : dedupKey platform ctx item = .ok key) :
  isDurable platform ctx item = true ↔ key ∈ observations.map (·.dedupKey)
  := by
  obtain ⟨result, hresult⟩ := hingested.exists_existingObservation key
  rw [isDurable, hkey]
  dsimp only
  rw [hresult]
  cases result with
  | none =>
      have hnone := hingested.existingObservation_none hresult
      simp [hnone]
  | some existing =>
      obtain ⟨hmem, rfl⟩ := hingested.existingObservation_some hresult
      simp [List.mem_map_of_mem hmem]

/-- The rows a page adds are those of its items that are not durable, in order. -/
theorem added_forall₂ {items : List DeltaPageItem} {planned : List PlannedItem}
    (hingested : Ingested platform ctx.envelopeKey ctx.account ctx.store checkpoints
      observations)
    (h : List.Forall₂ (PlannedFor platform ctx observations) items planned) :
  List.Forall₂ (fun item key => dedupKey platform ctx item = .ok key)
    (items.filter fun item => !isDurable platform ctx item)
    ((planned.filterMap PlannedItem.added).map (·.dedupKey))
  := by
  induction h with
  | nil => exact List.Forall₂.nil
  | cons hplanned _ ih =>
      cases hplanned with
      | replayed key durable =>
          have hdurable := (isDurable_iff hingested key).mpr (List.mem_map_of_mem durable)
          rw [List.filter_cons_of_neg (by simp [hdurable])]
          apply ih
      | recorded key new =>
          have hnew := mt (isDurable_iff hingested key).mp new
          rw [List.filter_cons_of_pos (by simp [hnew])]
          exact List.Forall₂.cons key ih

/-- Items with one key have the same locator and version, when the HMAC tells their frames
apart. -/
theorem dedupKey_inj {S : Set Bytes} {item item' : DeltaPageItem} {key : Vector UInt8 32}
    (hinj : Set.InjOn (platform.hmac ctx.digestKey.bytes) S)
    (hS : ∀ framed, itemFrame ctx.account ctx.schemaVersion item = .ok framed → framed ∈ S)
    (hS' : ∀ framed, itemFrame ctx.account ctx.schemaVersion item' = .ok framed → framed ∈ S)
    (h : dedupKey platform ctx item = .ok key) (h' : dedupKey platform ctx item' = .ok key) :
  (item.testedLocator, item.observedVersion) = (item'.testedLocator, item'.observedVersion)
  := by
  obtain ⟨framed, hframed, hkey⟩ := Except.bind_eq_ok.mp h
  obtain ⟨framed', hframed', hkey'⟩ := Except.bind_eq_ok.mp h'
  have hmac := (Except.ok.inj hkey).trans (Except.ok.inj hkey').symm
  cases hinj (hS framed hframed) (hS' framed' hframed') hmac
  obtain ⟨-, -, hcomponents⟩ := Digest.frame_inj hframed hframed'
  simpa using hcomponents

/-- The keys a page adds are distinct when its new items are. -/
theorem nodup_added {S : Set Bytes} {page : DeltaPage} {planned : List PlannedItem}
    (hingested : Ingested platform ctx.envelopeKey ctx.account ctx.store checkpoints
      observations)
    (h : List.Forall₂ (PlannedFor platform ctx observations) page.items planned)
    (hinj : Set.InjOn (platform.hmac ctx.digestKey.bytes) S)
    (hS : ∀ item ∈ page.items, ∀ framed,
      itemFrame ctx.account ctx.schemaVersion item = .ok framed → framed ∈ S)
    (hdistinct : NewItemsDistinct platform ctx page) :
  ((planned.filterMap PlannedItem.added).map (·.dedupKey)).Nodup
  := by
  apply Log.nodup_of_forall₂ (added_forall₂ hingested h) _ hdistinct
  intro item hitem item' hitem' key
  apply dedupKey_inj hinj
  · apply hS item (List.mem_of_mem_filter hitem)
  · apply hS item' (List.mem_of_mem_filter hitem')

/-- The message of an item of a page that was fetched is a message of the call. -/
theorem mem_pageFrames {env : Installation} {κ : Type} {call : PageCall κ} {page : DeltaPage}
    {item : DeltaPageItem} {framed : Bytes} (hpage : call.fetchResult = .ok page)
    (hitem : item ∈ page.items)
    (hframed : itemFrame env.account call.schemaVersion item = .ok framed) :
  framed ∈ env.pageFrames call
  := by
  rw [Installation.pageFrames, hpage]
  apply List.mem_filterMap.mpr
  use item, hitem
  rw [hframed]
  rfl

/-- A call whose page brings its new items once keeps the keys distinct. -/
theorem Follows.next_nodup {env : Installation} {κ : Type}
    {history : List (Machine.Event Store (PageCall κ) PageAnswer)} {store : Store}
    {S : Set Bytes} (hfollows : Follows env history store checkpoints observations)
    (hnodup : (observations.map (·.dedupKey)).Nodup) {call : PageCall κ}
    (hinj : Set.InjOn (env.platform.hmac env.digestKey.bytes) S)
    (hS : ∀ framed ∈ env.pageFrames call, framed ∈ S)
    (hdistinct : ∀ page, call.fetchResult = .ok page →
      NewItemsDistinct env.platform (env.context store call) page) :
  ∃ checkpoints' observations', Follows env (history ++ [env.ingestion.event store call])
      (env.ingestion.next store call) checkpoints' observations'
    ∧ (observations'.map (·.dedupKey)).Nodup
  := by
  obtain ⟨-, -, hnext⟩ | ⟨rows, -, -, hpage, hrows, hnext⟩ := hfollows.next_cases call
  · use checkpoints, observations, hnext, hnodup
  · refine ⟨_, _, hnext, ?_⟩
    have hingested : Ingested env.platform (env.context store call).envelopeKey
        (env.context store call).account (env.context store call).store checkpoints
        observations := hfollows.ingested
    have hadded : ((rows.items.filterMap PlannedItem.added).map (·.dedupKey)).Nodup := by
      apply nodup_added hingested hrows.items hinj _ (hdistinct rows.page hpage)
      intro item hitem framed hframed
      apply hS
      apply mem_pageFrames hpage hitem hframed
    rw [List.map_append]
    apply hnodup.append hadded
    intro key hkey
    apply added_of_durable hrows.items hkey

/-- In every run whose pages each bring their new items once, the committed observations
have keys of their own. -/
theorem observations_nodup {κ : Type} (env : Installation) (calls : List (PageCall κ))
    (hinj : Set.InjOn (env.platform.hmac env.digestKey.bytes)
      {framed | framed ∈ calls.flatMap env.pageFrames})
    (hcalls : env.ingestion.Admits (fun store call => ∀ page, call.fetchResult = .ok page →
      NewItemsDistinct env.platform (env.context store call) page) .open calls) :
  ∃ rows, env.scanObservations (env.ingestion.final .open calls) = .ok rows
    ∧ (rows.map (·.dedupKey)).Nodup
  := by
  have hframes : ∀ call ∈ calls, ∀ framed ∈ env.pageFrames call,
      framed ∈ calls.flatMap env.pageFrames := by
    intro call hcall framed hframed
    apply List.mem_flatMap_of_mem hcall hframed
  have hrun : ∃ checkpoints observations, Follows env (env.ingestion.history .open calls)
      (env.ingestion.final .open calls) checkpoints observations
        ∧ (observations.map (·.dedupKey)).Nodup := by
    apply Machine.run_induction_of_admits env.ingestion
      (P := fun history store => ∃ checkpoints observations,
        Follows env history store checkpoints observations
          ∧ (observations.map (·.dedupKey)).Nodup) _ _ calls
      (hcalls.and_forall hframes)
    · exact ⟨[], [], follows_open env, List.nodup_nil⟩
    · rintro history store call ⟨checkpoints, observations, hfollows, hnodup⟩ ⟨hdistinct, hS⟩
      apply hfollows.next_nodup hnodup hinj hS hdistinct
  obtain ⟨checkpoints, observations, hfollows, hnodup⟩ := hrun
  obtain ⟨rows, hperm, hrows⟩ := hfollows.ingested.scanObservations
  use rows, hrows
  apply (hperm.map _).nodup_iff.mpr hnodup

end

/-- Two pages, each with its items once, of which the second brings an item of the first
again. -/
theorem sampleCalls_nodup :
  ∃ rows, sampleInstallation.scanObservations (sampleInstallation.ingestion.final .open
      [sampleCall [sampleItem 1, sampleItem 2] 1, sampleCall [sampleItem 3, sampleItem 2] 21])
      = .ok rows
    ∧ (rows.map (·.dedupKey)).Nodup
  := by
  apply observations_nodup sampleInstallation
  · decide +kernel
  · refine ⟨?_, ?_, trivial⟩
    · rintro page ⟨⟩
      decide
    · rintro page ⟨⟩
      decide +kernel

/-- A page that brings a new item twice commits two rows with one key. -/
theorem itemTwice_not_nodup :
  Set.InjOn (sampleInstallation.platform.hmac sampleInstallation.digestKey.bytes)
      {framed | framed ∈ [sampleCall [sampleItem 1, sampleItem 1] 1].flatMap
        sampleInstallation.pageFrames}
    ∧ (sampleInstallation.scanObservations (sampleInstallation.ingestion.final .open
        [sampleCall [sampleItem 1, sampleItem 1] 1])).map
        (fun rows => decide (rows.map (·.dedupKey)).Nodup) = .ok false
  := by
  constructor
  · decide
  · decide +kernel

end Application
