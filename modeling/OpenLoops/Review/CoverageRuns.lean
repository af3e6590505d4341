import OpenLoops.Review.CoverageTally
import OpenLoops.Review.PassAnswers

/-!
# Coverage of whole scans

A scan that is not cancelled accounts for each of its conversations, whichever of them were handed
to a worker, and it still does when those that the triage has skipped are counted.
-/

namespace Review

open Inference

/-! ### Outcomes of all conversations -/

/-- Every job has an outcome, in the order of the jobs. -/
theorem withMissing_indices {α : Type} {jobs : ℕ} (outcomes : PassOutcomes α jobs) :
  (withMissing jobs outcomes.entries).map Prod.fst = List.range jobs
  := by
  have hmem : ∀ index ∈ outcomes.entries.map Prod.fst, index < jobs := by
    intro index hindex
    obtain ⟨entry, hentry, rfl⟩ := List.mem_map.mp hindex
    apply outcomes.lt entry hentry
  have hnodup := outcomes.sorted.nodup
  rw [withMissing]
  split_ifs with hshort
  · have hperm := (KeyOrder.sort_perm Prod.fst (outcomes.entries ++ ((List.range jobs).filter
        fun index => index ∉ outcomes.entries.map Prod.fst).map fun index =>
          (index, JobOutcome.notStarted))).map Prod.fst
    rw [List.map_append, List.map_map] at hperm
    have hmissing : ((List.range jobs).filter fun index =>
        index ∉ outcomes.entries.map Prod.fst).map
          (Prod.fst ∘ fun index => (index, (JobOutcome.notStarted : JobOutcome α)))
        = (List.range jobs).filter fun index => index ∉ outcomes.entries.map Prod.fst :=
      List.map_id _
    rw [hmissing] at hperm
    apply List.SortedLT.eq_of_mem_iff _ (List.sortedLT_range _)
    · intro index
      rw [hperm.mem_iff, List.mem_append, List.mem_filter, List.mem_range, decide_eq_true_eq]
      constructor
      · rintro (hindex | ⟨hlt, -⟩)
        · apply hmem index hindex
        · exact hlt
      · tauto
    · apply (KeyOrder.sortedLE_map_sort Prod.fst _).sortedLT_of_nodup
      apply hperm.nodup_iff.mpr
      apply List.nodup_append'.mpr
      refine ⟨hnodup, List.nodup_range.filter _, ?_⟩
      intro index hindex hother
      have h := (List.mem_filter.mp hother).2
      simp only [decide_eq_true_eq] at h
      apply h hindex
  · apply outcomes.sorted.eq_of_mem_iff (List.sortedLT_range _)
    have hsub : outcomes.entries.map Prod.fst ⊆ List.range jobs := by
      intro index hindex
      rw [List.mem_range]
      apply hmem index hindex
    have hperm := (hnodup.subperm hsub).perm_of_length_le (by
      rw [List.length_range, List.length_map]
      omega)
    intro index
    rw [hperm.mem_iff]

/-- Each conversation has its outcome. -/
theorem map_conversationOf {conversations : List (List ReviewMessage)}
    {entries : JobResults LoopItems}
    (hentries : entries.map Prod.fst = List.range conversations.length) :
  entries.map (conversationOf conversations) = conversations
  := by
  have hmap : entries.map (conversationOf conversations)
      = (entries.map Prod.fst).map fun index => conversations.getD index [] := by
    rw [List.map_map]
    rfl
  rw [hmap, hentries]
  apply List.ext_getElem
  · simp
  · intro index h h'
    simp [h']

/-! ### Adding up -/

/-- The result accounts for all conversations: those that were analyzed, and the failures, each with
its line and its detail. -/
structure ScanResult.AddsUp (result : ScanResult) (conversations : List (List ReviewMessage))
    (covered : List (List ReviewMessage)) (reported : List (String × ConversationFailure)) :
    Prop where
  conversationCount : result.conversationCount = conversations.length
  parts : result.analyzedConversations + result.failedConversations + result.notStartedConversations
    = result.conversationCount
  analyzedConversations : result.analyzedConversations = covered.length
  analyzed : result.analyzed = (covered.map List.length).sum
  quality : result.conversationQuality.keys.Perm (covered.map conversationKey)
  failures : result.failures = reported.map Prod.fst
  details : result.failedConversationsDetail = reported.map Prod.snd
  length_reported : reported.length = result.failedConversations + result.notStartedConversations

/-- The conversations that were analyzed. -/
def analyzedOf (conversations : List (List ReviewMessage)) (entries : JobResults LoopItems) :
    List (List ReviewMessage) :=
  (entries.filter (·.2.isAnalyzed)).map (conversationOf conversations)

section

variable (quotaDetail : Option String) (toLowercase : List Char → List Char) (registry : Registry)
  (reader : TimeReader)

/-- The outcomes that are reported: those of the pass, unless the scan is cancelled. -/
theorem tally_scanOutcomes (conversations : List (List ReviewMessage))
    (outcomes : PassOutcomes LoopItems conversations.length) {cancel : Bool}
    (hcancelled : (scanOutcomes quotaDetail toLowercase registry reader conversations
      outcomes.entries cancel).cancelled = false) :
  cancel = false ∧ Tally quotaDetail toLowercase registry reader conversations
    (withMissing conversations.length outcomes.entries)
    (scanOutcomes quotaDetail toLowercase registry reader conversations outcomes.entries cancel)
  := by
  cases cancel
  · use rfl
    apply tally_mergeConversations
  · cases hcancelled

end

variable {quotaDetail : Option String} {toLowercase : List Char → List Char} {registry : Registry}
  {reader : TimeReader}

/-- The conversations that were analyzed are among all of them, in their order. -/
theorem analyzedOf_sublist {conversations : List (List ReviewMessage)}
    {entries : JobResults LoopItems}
    (hentries : entries.map Prod.fst = List.range conversations.length) :
  (analyzedOf conversations entries).Sublist conversations
  := by
  have hsublist := (List.filter_sublist (p := fun entry : ℕ × JobOutcome LoopItems =>
    entry.2.isAnalyzed) (l := entries)).map (conversationOf conversations)
  rw [map_conversationOf hentries] at hsublist
  exact hsublist

/-- A tally of all outcomes adds up, when none of them was cancelled. -/
theorem Tally.addsUp {conversations : List (List ReviewMessage)} {entries : JobResults LoopItems}
    {result : ScanResult}
    (htally : Tally quotaDetail toLowercase registry reader conversations entries result)
    (hentries : entries.map Prod.fst = List.range conversations.length)
    (hkeys : (conversations.map conversationKey).Nodup) (hcancelled : result.cancelled = false) :
  result.AddsUp conversations (analyzedOf conversations entries)
    (entries.filterMap (failureOf quotaDetail conversations))
  := by
  have hlength : entries.length = conversations.length := by
    rw [← List.length_map (f := Prod.fst), hentries, List.length_range]
  have hnone : entries.countP (·.2.isCancelled) = 0 := by
    rw [htally.cancelled, List.any_eq_false] at hcancelled
    apply List.countP_eq_zero.mpr hcancelled
  have hkinds := countP_kinds entries
  constructor
  · exact htally.conversationCount
  · rw [htally.analyzedConversations, htally.failedConversations, htally.notStartedConversations,
      htally.conversationCount]
    omega
  · rw [htally.analyzedConversations, analyzedOf, List.length_map, List.countP_eq_length_filter]
  · rw [htally.analyzed, analyzedOf, List.map_map]
    rfl
  · apply (List.perm_ext_iff_of_nodup (Table.nodup_keys _)
      (hkeys.sublist ((analyzedOf_sublist hentries).map _))).mpr
    intro key
    rw [htally.quality key, analyzedOf, List.map_map, List.mem_map]
    simp only [List.mem_filter, Function.comp_apply, and_assoc]
  · exact htally.failures
  · exact htally.details
  · rw [length_filterMap_failureOf, htally.failedConversations, htally.notStartedConversations]

/-! ### Conversations that were skipped -/

section

variable (triage : TriageResult)

/-- The conversations that the triage has skipped. -/
def skippedOf (conversations : List (List ReviewMessage)) : List (List ReviewMessage) :=
  conversations.filter fun conversation => conversationKey conversation ∈ triage.skipped

/-- A conversation that was skipped counts as analyzed, and nothing else is changed that adds up. -/
structure Covers (before after : ScanResult) (skipped : List (List ReviewMessage)) : Prop where
  analyzedConversations : after.analyzedConversations
    = before.analyzedConversations + skipped.length
  analyzed : after.analyzed = before.analyzed + (skipped.map List.length).sum
  quality : ∀ key, key ∈ after.conversationQuality.keys
    ↔ key ∈ before.conversationQuality.keys ∨ key ∈ skipped.map conversationKey
  failures : after.failures = before.failures
  details : after.failedConversationsDetail = before.failedConversationsDetail
  failedConversations : after.failedConversations = before.failedConversations
  notStartedConversations : after.notStartedConversations = before.notStartedConversations
  conversationCount : after.conversationCount = before.conversationCount
  cancelled : after.cancelled = before.cancelled

theorem Covers.trans {a b c : ScanResult} {skipped skipped' : List (List ReviewMessage)}
    (h : Covers a b skipped) (h' : Covers b c skipped') :
  Covers a c (skipped ++ skipped')
  := by
  constructor
  · rw [h'.analyzedConversations, h.analyzedConversations, List.length_append, Nat.add_assoc]
  · rw [h'.analyzed, h.analyzed, List.map_append, List.sum_append, Nat.add_assoc]
  · intro key
    rw [h'.quality, h.quality, List.map_append, List.mem_append, or_assoc]
  · rw [h'.failures, h.failures]
  · rw [h'.details, h.details]
  · rw [h'.failedConversations, h.failedConversations]
  · rw [h'.notStartedConversations, h.notStartedConversations]
  · rw [h'.conversationCount, h.conversationCount]
  · rw [h'.cancelled, h.cancelled]

theorem covers_coverSkipped (result : ScanResult) {place : List ReviewMessage × ℕ}
    (hne : place.1 ≠ []) :
  Covers result (coverSkipped triage result place) (skippedOf triage [place.1])
  := by
  obtain ⟨conversation, index⟩ := place
  rcases conversation with _ | ⟨first, rest⟩
  · contradiction
  · have hkey : conversationKey (first :: rest) = first.key := rfl
    by_cases hskipped : first.key ∈ triage.skipped
    · constructor <;>
        simp [coverSkipped, skippedOf, hkey, hskipped, Table.mem_keys_alter, or_comm]
    · constructor <;> simp [coverSkipped, skippedOf, hkey, hskipped]

theorem covers_foldl (result : ScanResult) {places : List (List ReviewMessage × ℕ)}
    (hne : ∀ place ∈ places, place.1 ≠ []) :
  Covers result (places.foldl (coverSkipped triage) result)
    (skippedOf triage (places.map Prod.fst))
  := by
  induction places generalizing result with
  | nil => constructor <;> simp [skippedOf]
  | cons place places ih =>
      have hfirst := covers_coverSkipped triage result (hne place List.mem_cons_self)
      have hrest := ih (coverSkipped triage result place) (fun place' hplace' =>
        hne place' (List.mem_cons_of_mem _ hplace'))
      have h := hfirst.trans hrest
      rw [skippedOf, skippedOf, ← List.filter_append] at h
      exact h

theorem covers_conversationsBySize (result : ScanResult) (messages : List ReviewMessage)
    (conversationFilter : Option (Finset ConversationKey)) :
  Covers result
    ((conversationsBySize messages conversationFilter).zipIdx.foldl (coverSkipped triage) result)
    (skippedOf triage (conversationsBySize messages conversationFilter))
  := by
  have hne : ∀ place ∈ (conversationsBySize messages conversationFilter).zipIdx,
      place.1 ≠ [] := by
    rintro ⟨conversation, index⟩ hplace
    have hmem := List.fst_mem_of_mem_zipIdx hplace
    obtain ⟨row, hrow, rfl⟩ :=
      List.mem_map.mp ((KeyOrder.sort_perm List.length _).mem_iff.mp hmem)
    obtain ⟨-, message, hmessage, -⟩ := mem_conversationRows hrow
    apply List.ne_nil_of_mem hmessage
  have hcovers := covers_foldl triage result hne
  rw [List.zipIdx_map_fst] at hcovers
  exact hcovers

/-- What is cancelled stays so. -/
theorem applyTriageCoverage_cancelled (result : ScanResult) (messages : List ReviewMessage)
    (conversationFilter : Option (Finset ConversationKey)) (selected : ℕ) :
  (applyTriageCoverage result messages conversationFilter triage selected).cancelled
    = (result.cancelled || triage.cancelled)
  := by
  have hcovers := covers_conversationsBySize triage { result with
    total := selected
    conversationCount := (conversationsBySize messages conversationFilter).length } messages
    conversationFilter
  simp only [applyTriageCoverage, hcovers.cancelled]

/-- The conversations that are left after the triage, with those that were skipped, are all. -/
theorem ScanResult.AddsUp.applyTriageCoverage {messages : List ReviewMessage}
    {conversationFilter : Option (Finset ConversationKey)} {triage : TriageResult}
    {result : ScanResult} {covered : List (List ReviewMessage)}
    {reported : List (String × ConversationFailure)}
    (haddsUp : result.AddsUp
      (orderedConversations (primaryMessages messages conversationFilter triage) none)
      covered reported)
    (hcovered : covered.Sublist
      (orderedConversations (primaryMessages messages conversationFilter triage) none))
    (selected : ℕ) :
  (Review.applyTriageCoverage result messages conversationFilter triage selected).AddsUp
    (conversationsBySize messages conversationFilter)
    (covered ++ skippedOf triage (conversationsBySize messages conversationFilter)) reported
  := by
  have hkeys := conversationsBySize_keys_eq messages conversationFilter triage
  have hnodup := (conversationsBySize_keys messages conversationFilter).nodup_iff.mpr
    (Table.nodup_keys _)
  have hskipped : (skippedOf triage (conversationsBySize messages conversationFilter)).map
      conversationKey = ((conversationsBySize messages conversationFilter).map
        conversationKey).filter (· ∈ triage.skipped) := by
    rw [skippedOf, List.filter_map]
    rfl
  have hlength := hkeys.length_eq
  rw [← hskipped, List.length_map, List.length_append, List.length_map, List.length_map] at hlength
  have hcovers := covers_conversationsBySize triage { result with
    total := selected
    conversationCount := (conversationsBySize messages conversationFilter).length } messages
    conversationFilter
  have hparts := haddsUp.parts
  have hcount := haddsUp.conversationCount
  have hfailed := hcovers.failedConversations
  have hnotStarted := hcovers.notStartedConversations
  have hanalyzed := hcovers.analyzedConversations
  constructor
  · exact hcovers.conversationCount
  · apply Eq.trans _ hcovers.conversationCount.symm
    apply Eq.trans (congrArg₂ (· + ·) (congrArg₂ (· + ·) hanalyzed hfailed) hnotStarted)
    simp only
    omega
  · rw [List.length_append, ← haddsUp.analyzedConversations]
    exact hanalyzed
  · rw [List.map_append, List.sum_append, ← haddsUp.analyzed]
    exact hcovers.analyzed
  · rw [List.map_append, hskipped]
    apply (List.perm_ext_iff_of_nodup (Table.nodup_keys _) _).mpr
    · intro key
      rw [← hskipped, List.mem_append, ← haddsUp.quality.mem_iff]
      apply hcovers.quality
    · apply List.Nodup.sublist _ (hkeys.nodup_iff.mp hnodup)
      apply (hcovered.map _).append_right
  · exact hcovers.failures.trans haddsUp.failures
  · exact hcovers.details.trans haddsUp.details
  · rw [haddsUp.length_reported]
    exact (congrArg₂ (· + ·) hfailed hnotStarted).symm

end

/-! ### Details of quotas -/

/-- The result but for its lines on failures. -/
def ScanResult.withoutFailures (result : ScanResult) : ScanResult :=
  { result with failures := [] }

/-- The results are the same, but for what the provider said about its quota. -/
structure ScanResult.SameButQuotes (result result' : ScanResult) : Prop where
  withoutFailures : result.withoutFailures = result'.withoutFailures
  lines : List.Forall₂ (fun pair pair' => pair.2.reason ≠ .quota → pair.1 = pair'.1)
    (result.failures.zip result.failedConversationsDetail)
    (result'.failures.zip result'.failedConversationsDetail)

variable {conversations : List (List ReviewMessage)}

theorem mergeEntry_withoutFailures {quotaDetail quotaDetail' : Option String}
    {result result' : ScanResult} (h : result.withoutFailures = result'.withoutFailures)
    (entry : ℕ × JobOutcome LoopItems) :
  (mergeEntry quotaDetail toLowercase registry reader conversations result entry).withoutFailures
    = (mergeEntry quotaDetail' toLowercase registry reader conversations
      result' entry).withoutFailures
  := by
  obtain ⟨index, outcome⟩ := entry
  cases result
  cases result'
  simp only [ScanResult.withoutFailures, ScanResult.mk.injEq] at h
  obtain ⟨rfl, rfl, -, rfl, rfl, rfl, rfl, rfl, rfl, rfl, rfl, rfl, rfl, rfl, rfl, rfl, rfl, rfl, rfl⟩
    := h
  rcases outcome with (error | analysis) | - | -
  · cases error <;> rfl
  · rfl
  · rfl
  · rfl

/-- A failure other than of a quota has the same line, whatever the provider said. -/
theorem forall₂_failureOf (quotaDetail quotaDetail' : Option String)
    (entry : ℕ × JobOutcome LoopItems) :
  List.Forall₂ (fun pair pair' => pair.2.reason ≠ .quota → pair.1 = pair'.1)
    (failureOf quotaDetail conversations entry).toList
    (failureOf quotaDetail' conversations entry).toList
  := by
  obtain ⟨index, outcome⟩ := entry
  rcases outcome with (error | analysis) | - | -
  · cases error <;> simp [failureOf, failureLine, failureDetail, failureReason]
  · exact .nil
  · exact .cons (fun _ => rfl) .nil
  · exact .cons (fun _ => rfl) .nil

theorem forall₂_filterMap_failureOf (quotaDetail quotaDetail' : Option String)
    (entries : JobResults LoopItems) :
  List.Forall₂ (fun pair pair' => pair.2.reason ≠ .quota → pair.1 = pair'.1)
    (entries.filterMap (failureOf quotaDetail conversations))
    (entries.filterMap (failureOf quotaDetail' conversations))
  := by
  rw [List.filterMap_eq_flatMap_toList, List.filterMap_eq_flatMap_toList]
  induction entries with
  | nil => exact .nil
  | cons entry entries ih =>
      rw [List.flatMap_cons, List.flatMap_cons]
      apply List.rel_append (forall₂_failureOf quotaDetail quotaDetail' entry) ih

/-- Results of the same outcomes are the same, but for what the provider said. -/
theorem sameButQuotes_mergeConversations (quotaDetail quotaDetail' : Option String) (total : ℕ)
    (entries : JobResults LoopItems) :
  let first := { emptyResult total with conversationCount := conversations.length }
  (mergeConversations quotaDetail toLowercase registry reader conversations first
      entries).SameButQuotes
    (mergeConversations quotaDetail' toLowercase registry reader conversations first entries)
  := by
  intro first
  constructor
  · induction entries using List.reverseRecOn with
    | nil => rfl
    | append_singleton entries entry ih =>
        rw [mergeConversations, mergeConversations, List.foldl_append, List.foldl_append]
        apply mergeEntry_withoutFailures ih entry
  · have htally := fun quotaDetail =>
      @tally_mergeConversations quotaDetail toLowercase registry reader conversations total entries
    rw [(htally quotaDetail).failures, (htally quotaDetail).details, (htally quotaDetail').failures,
      (htally quotaDetail').details, List.zip_map', List.zip_map']
    simpa using forall₂_filterMap_failureOf quotaDetail quotaDetail' entries

/-! ### Whole scans -/

/-- A scan that is not cancelled accounts for each conversation, with or without an outcome of the
pass: it was analyzed, it failed or it was not started, and the counters, the qualities and both
lists of failures say so; items, notes and failures are in the order of the conversations, the
smallest ones first.  It still does when the conversations that the triage has skipped are counted.
When no job stops the pass, the result does not depend on how the workers interleave, but for what
the provider says about its quota. -/
theorem scan_adds_up (quotaDetail : Option String) (toLowercase : List Char → List Char)
    (registry : Registry) (reader : TimeReader) (messages : List ReviewMessage)
    (conversationFilter : Option (Finset ConversationKey)) :
  let conversations := orderedConversations messages conversationFilter
  let weights := conversationWeights messages conversationFilter
  (∀ (outcomes : PassOutcomes LoopItems conversations.length) (cancel : Bool),
    let result := scanOutcomes quotaDetail toLowercase registry reader conversations
      outcomes.entries cancel
    let entries := withMissing conversations.length outcomes.entries
    result.cancelled = false →
      result.AddsUp conversations (analyzedOf conversations entries)
          (entries.filterMap (failureOf quotaDetail conversations))
        ∧ (conversations.map List.length).SortedLE
        ∧ entries.map Prod.fst = List.range conversations.length
        ∧ result.analysis.items = (entries.flatMap fun entry =>
          ((analysisOf toLowercase registry reader conversations entry).map (·.items)).getD [])
        ∧ result.conversationNotes = entries.filterMap fun entry =>
          (analysisOf toLowercase registry reader conversations entry).bind
            (conversationNote entry.1 (conversationOf conversations entry)))
  ∧ (∀ (triage : TriageResult) (selected : ℕ),
    let primary :=
      orderedConversations (primaryMessages messages conversationFilter triage) none
    ∀ (outcomes : PassOutcomes LoopItems primary.length) (cancel : Bool),
    let result := applyTriageCoverage (scanOutcomes quotaDetail toLowercase registry reader primary
      outcomes.entries cancel) messages conversationFilter triage selected
    let entries := withMissing primary.length outcomes.entries
    result.cancelled = false →
      result.AddsUp (conversationsBySize messages conversationFilter)
        (analyzedOf primary entries
          ++ skippedOf triage (conversationsBySize messages conversationFilter))
        (entries.filterMap (failureOf quotaDetail primary)))
  ∧ (∀ (analyze : ℕ → Option (Except ProviderError LoopItems)) (run run' : PassRun LoopItems)
      (quotaDetail' : Option String),
    let scan (quotaDetail : Option String) (run : PassRun LoopItems) :=
      scanConversationsFiltered quotaDetail toLowercase registry reader messages conversationFilter
        (run.final weights)
    (∀ index < weights.length, ∀ result, analyze index = some result → jobSignal result ≠ .stop) →
    run.Completes weights analyze → run'.Completes weights analyze →
    (scan quotaDetail run).cancelled = false → (scan quotaDetail' run').cancelled = false →
      (scan quotaDetail run).SameButQuotes (scan quotaDetail' run')
        ∧ scan quotaDetail run = scan quotaDetail run')
  := by
  intro conversations weights
  refine ⟨?_, ?_, ?_⟩
  · intro outcomes cancel result entries hcancelled
    have hentries := withMissing_indices outcomes
    obtain ⟨-, htally⟩ := tally_scanOutcomes quotaDetail toLowercase registry reader conversations
      outcomes hcancelled
    refine ⟨?_, orderedConversations_sizes messages conversationFilter, hentries, htally.items,
      htally.notes⟩
    apply htally.addsUp hentries _ hcancelled
    apply nodup_orderedConversations_keys
  · intro triage selected primary outcomes cancel result entries hcancelled
    have hentries := withMissing_indices outcomes
    have hscan : (scanOutcomes quotaDetail toLowercase registry reader primary outcomes.entries
        cancel).cancelled = false := by
      simp only [result, applyTriageCoverage_cancelled, Bool.or_eq_false_iff] at hcancelled
      exact hcancelled.1
    obtain ⟨-, htally⟩ := tally_scanOutcomes quotaDetail toLowercase registry reader primary
      outcomes hscan
    apply ScanResult.AddsUp.applyTriageCoverage
    · apply htally.addsUp hentries _ hscan
      apply nodup_orderedConversations_keys
    · apply analyzedOf_sublist hentries
  · intro analyze run run' quotaDetail' scan hstop hrun hrun' hcancelled hcancelled'
    have hresults : ∀ (quotaDetail : Option String) (run : PassRun LoopItems),
        run.Completes weights analyze → (scan quotaDetail run).cancelled = false →
        (run.final weights).cancel = false ∧ (run.final weights).results
          = (List.range weights.length).map fun index => (index, .ofAnswer (analyze index)) := by
      intro quotaDetail run hrun hcancelled
      have hcancel : (run.final weights).cancel = false := by
        cases hcancel : (run.final weights).cancel
        · rfl
        · simp only [scan, scanConversationsFiltered, scanOutcomes, hcancel] at hcancelled
          cases hcancelled
      use hcancel
      apply Pass.results_eq_answers weights analyze _ _ _ _ hrun.answers hstop hrun.exited hcancel
    obtain ⟨hcancel, hrun⟩ := hresults quotaDetail run hrun hcancelled
    obtain ⟨hcancel', hrun'⟩ := hresults quotaDetail' run' hrun' hcancelled'
    have hsame : ∀ quotaDetail, scan quotaDetail run = scan quotaDetail run' := by
      intro quotaDetail
      simp only [scan, scanConversationsFiltered, hcancel, hcancel', hrun, hrun']
    use ?_, hsame quotaDetail
    rw [hsame quotaDetail]
    simp only [scan, scanConversationsFiltered, scanOutcomes, hcancel']
    apply sameButQuotes_mergeConversations

end Review
