import OpenLoops.Review.CoverageRuns
import OpenLoops.Review.ExtractionAssembly

/-!
# What the extraction analyzes

A conversation with a paragraph in doubt, or one whose request failed, goes to the chat model.  One
with paragraphs that were not asked about, because an error stopped the pass, does not: it counts as
analyzed, with what the other paragraphs say.
-/

namespace Review

open Contracts Inference

/-! ### Conversations in doubt -/

/-- The outcome sends its conversation to the chat model. -/
def JobOutcome.escalates : JobOutcome ExtractionAnswer → Bool
  | .completed (.ok ⟨_, .gray⟩) => true
  | .completed (.ok _) => false
  | .completed (.error error) => error ≠ .cancelled
  | .panicked => true
  | .notStarted => false

theorem ExtractionCollection.mem_needsChat_add (collection : ExtractionCollection)
    (message : ReviewMessage) (ordinal : ℕ) (outcome : JobOutcome ExtractionAnswer)
    (key : ConversationKey) :
  key ∈ (collection.add message ordinal outcome).needsChat
    ↔ key ∈ collection.needsChat ∨ message.key = key ∧ outcome.escalates
  := by
  rcases outcome with (error | ⟨paragraph, _ | fields | _⟩) | - | -
  · cases error <;> simp [ExtractionCollection.add, JobOutcome.escalates, eq_comm, or_comm]
  all_goals simp [ExtractionCollection.add, JobOutcome.escalates, eq_comm, or_comm]

example : JobOutcome.escalates (.completed (.error .cancelled)) = false
    ∧ JobOutcome.escalates .panicked = true
  := by decide +kernel

section

variable (selected : List ReviewMessage) (skipped : Finset ConversationKey)

theorem mem_needsChat_collectExtraction (collection : ExtractionCollection)
    (entry : ℕ × JobOutcome ExtractionAnswer) (key : ConversationKey) :
  key ∈ (collectExtraction selected skipped collection entry).needsChat
    ↔ key ∈ collection.needsChat
      ∨ key ∉ skipped ∧ OfConversation selected entry.1 key ∧ entry.2.escalates
  := by
  rw [collectExtraction, OfConversation]
  rcases hjob : (triageJobs selected)[entry.1]? with _ | ⟨index, ordinal⟩
  · simp
  · rcases hmessage : selected[index]? with _ | message
    · simp [hmessage]
    · simp only [hmessage]
      split_ifs with hskipped
      · simp only [iff_self_or]
        rintro ⟨hnot, ⟨job, other, hjob', hother, hkey⟩, -⟩
        cases hjob'
        rw [hmessage] at hother
        cases hother
        exact absurd (hkey ▸ hskipped) hnot
      · rw [ExtractionCollection.mem_needsChat_add]
        apply or_congr_right
        constructor
        · rintro ⟨rfl, hescalates⟩
          exact ⟨hskipped, ⟨_, message, rfl, hmessage, rfl⟩, hescalates⟩
        · rintro ⟨-, ⟨job, other, hjob', hother, hkey⟩, hescalates⟩
          cases hjob'
          rw [hmessage] at hother
          cases hother
          exact ⟨hkey, hescalates⟩

/-- A conversation goes to the chat model when it is not skipped and some outcome says so. -/
theorem mem_needsChat_collectExtractions (outcomes : JobResults ExtractionAnswer)
    (key : ConversationKey) :
  key ∈ (collectExtractions selected skipped outcomes).needsChat
    ↔ key ∉ skipped ∧ ∃ entry ∈ outcomes, OfConversation selected entry.1 key ∧ entry.2.escalates
  := by
  induction outcomes using List.reverseRecOn with
  | nil => simp [collectExtractions]
  | append_singleton outcomes entry ih =>
      rw [collectExtractions_append, mem_needsChat_collectExtraction, ih]
      simp only [List.mem_append, List.mem_singleton]
      grind

end

/-! ### Conversations that are skipped -/

theorem JobOutcome.isCancelled_map {α β : Type} (f : α → β) (outcome : JobOutcome α) :
  (outcome.map f).isCancelled = outcome.isCancelled
  := by
  rcases outcome with (_ | _) | _ | _ <;> rfl

theorem JobOutcome.isStopError_map {α β : Type} (f : α → β) (outcome : JobOutcome α) :
  (outcome.map f).isStopError = outcome.isStopError
  := by
  rcases outcome with (_ | _) | _ | _ <;> rfl

section

variable {selected : List ReviewMessage} {outcomes : JobResults ExtractionAnswer}
  (hslots : ∀ entry ∈ outcomes, entry.1 < (triageJobs selected).length)
  {key : ConversationKey} (hskipped : key ∈ (partitionExtractionOutcomes selected outcomes).triage.skipped)

include hslots hskipped

/-- When a conversation is skipped, the pass was not interrupted, and the requests of the
conversation that were made were answered. -/
theorem answered_of_skipped :
  (∀ entry ∈ outcomes, ¬entry.2.isCancelled ∧ ¬entry.2.isStopError)
    ∧ ∀ entry ∈ outcomes, OfConversation selected entry.1 key → entry.2.wasSent →
      ∃ answer, entry.2 = .completed (.ok answer)
  := by
  have hcollected : Collected selected (triageJobs selected)
      (outcomes.map fun entry => (entry.1, entry.2.map (·.triage)))
      (collectOutcomes selected (triageJobs selected)
        (outcomes.map fun entry => (entry.1, entry.2.map (·.triage)))) := by
    apply collected_collectOutcomes
    simp only [List.forall_mem_map]
    exact hslots
  have hsome : ∀ entry ∈ outcomes, (triageJobs selected)[entry.1]?.isSome := by
    intro entry hentry
    rw [List.getElem?_eq_getElem (hslots entry hentry)]
    rfl
  have hcancelled := hcollected.cancelled
  have hstopped := hcollected.stopped
  have hclassified := hcollected.classified
  have hnone := hcollected.skipped
  simp only [List.mem_map, exists_exists_and_eq_and] at hcancelled hstopped hclassified
  rw [partitionExtractionOutcomes, collectTriageResults] at hskipped
  simp only at hskipped
  split_ifs at hskipped with hflags
  · have hclean : ∀ entry ∈ outcomes, ¬entry.2.isCancelled ∧ ¬entry.2.isStopError := by
      simp only [Bool.and_eq_true, Bool.not_eq_true', Bool.eq_false_iff, ne_eq, hcancelled,
        hstopped, JobOutcome.isCancelled_map, JobOutcome.isStopError_map] at hflags
      intro entry hentry
      constructor
      · intro h
        exact hflags.2 ⟨entry, hentry, hsome entry hentry, h⟩
      · intro h
        exact hflags.1 ⟨entry, hentry, hsome entry hentry, h⟩
    use hclean
    rintro ⟨slot, outcome⟩ hentry ⟨⟨index, ordinal⟩, message, hjob, hmessage, hkey⟩ hsent
    obtain ⟨hlt, -⟩ := List.getElem?_eq_some_iff.mp hmessage
    -- a request that failed stands for a sign of an obligation, so that nothing would be skipped
    have hread : ∀ paragraph, (outcome.map (·.triage)).reading = some paragraph →
        paragraph.signal = .negative ∨ paragraph.notification := by
      intro paragraph hreading
      have hmem := (hclassified index hlt paragraph).mpr ⟨_, hentry, ordinal, hjob, hreading⟩
      rcases (mem_skippedTriageConversations.mp hskipped).2 with hall | hall
      · left
        apply hall index message hmessage hkey paragraph hmem
      · right
        apply (hall index message hmessage hkey).2 paragraph hmem
    have hfailed : (outcome.map (·.triage)).reading ≠ some failedTriage := by
      intro hreading
      rcases hread _ hreading with h | h <;> cases h
    rcases outcome with (error | answer) | - | -
    · have hne : error ≠ .cancelled := by
        simpa [JobOutcome.isCancelled] using (hclean _ hentry).1
      exact absurd (if_neg hne) hfailed
    · use answer
    · exact absurd rfl hfailed
    · cases hsent
  · rw [hnone] at hskipped
    cases hskipped

end

/-! ### The primary pass -/

/-- The conversations are read by the decision model, and assembled in a second pass; where both
passes end is given. -/
def extractionPrimaryPass (quotaDetail : Option String) (toLowercase : List Char → List Char)
    (registry : Registry) (reader : TimeReader)
    (candidates : ConversationMessage → ℕ → List TemporalCandidate) (messages : List ReviewMessage)
    (conversationFilter : Option (Finset ConversationKey)) (s : Pass Answers) (t : Pass LoopItems) :
    ScanResult :=
  let selected := selectedMessages messages conversationFilter
  let extraction := extractionPass toLowercase registry candidates selected s
  let result := scanConversationsFiltered quotaDetail toLowercase registry reader
    (primaryMessages messages conversationFilter extraction.triage) none t
  (applyTriageCoverage result messages conversationFilter extraction.triage selected.length).note
    (extractionCoverageNote extraction)

/-- The conversation goes to the chat model as a whole: its items are what the chat model makes of
it, whatever that is. -/
def ExtractionOutcome.SentToChat (extraction : ExtractionOutcome)
    (conversation : List ConversationMessage) : Prop :=
  ∀ (floatText : UInt64 → String) (fromStr : String → Option Json)
    (review : AnalysisOutput → List ConversationMessage → Except ProviderError LoopItems)
    (chat : List ConversationMessage → Except ProviderError LoopItems),
    extractionAssembleOrEscalate floatText fromStr review chat conversation extraction
      = chat conversation

theorem ExtractionOutcome.sentToChat_iff {extraction : ExtractionOutcome}
    {conversation : List ConversationMessage} :
  extraction.SentToChat conversation ↔ extraction.needsChat conversation
  := by
  constructor
  · intro hsent
    by_contra hchat
    have hfirst := hsent (fun _ => "") (fun _ => none) (fun _ _ => .ok emptyItems)
      fun _ => .error .network
    have hsecond := hsent (fun _ => "") (fun _ => none) (fun _ _ => .ok emptyItems)
      fun _ => .error .cancelled
    rw [extractionAssembleOrEscalate, if_neg hchat] at hfirst hsecond
    have h := hfirst.symm.trans hsecond
    cases h
  · intro hchat floatText fromStr review chat
    rw [extractionAssembleOrEscalate, if_pos hchat]

/-- Every paragraph of the conversation that is offered was answered by the decision model. -/
def ReadByDecisionModel (selected : List ReviewMessage) (outcomes : JobResults ExtractionAnswer)
    (key : ConversationKey) : Prop :=
  ∀ slot, OfConversation selected slot key → ∃ answer, (slot, .completed (.ok answer)) ∈ outcomes

/-- Every paragraph of the conversation that is offered was asked about. -/
def AskedWhole (selected : List ReviewMessage) (outcomes : JobResults Answers)
    (key : ConversationKey) : Prop :=
  ∀ slot, OfConversation selected slot key →
    ∃ outcome : JobOutcome Answers, outcome.wasSent ∧ (slot, outcome) ∈ outcomes

/-- Some paragraph of the conversation is in doubt, or its request failed. -/
def InDoubt (selected : List ReviewMessage) (outcomes : JobResults ExtractionAnswer)
    (key : ConversationKey) : Prop :=
  ∃ entry ∈ outcomes, OfConversation selected entry.1 key ∧ entry.2.escalates

/-! ### Conversations that are analyzed -/

section

variable {messages : List ReviewMessage} {conversationFilter : Option (Finset ConversationKey)}

/-- A conversation that counts as analyzed is one of those that are left, or was skipped. -/
theorem quality_extractionPrimaryPass (quotaDetail : Option String)
    (toLowercase : List Char → List Char) (registry : Registry) (reader : TimeReader)
    (candidates : ConversationMessage → ℕ → List TemporalCandidate) (s : Pass Answers)
    {triage : TriageResult}
    (htriage : triage = (extractionPass toLowercase registry candidates
      (selectedMessages messages conversationFilter) s).triage)
    (run : PassRun LoopItems) {key : ConversationKey}
    (hkey : key ∈ (extractionPrimaryPass quotaDetail toLowercase registry reader candidates messages
      conversationFilter s (run.final (conversationWeights
        (primaryMessages messages conversationFilter triage) none))).conversationQuality.keys) :
  (∃ conversation ∈ orderedConversations (primaryMessages messages conversationFilter triage) none,
    conversationKey conversation = key) ∨ key ∈ triage.skipped
  := by
  subst htriage
  set triage := (extractionPass toLowercase registry candidates
    (selectedMessages messages conversationFilter) s).triage with htriage
  set conversations := orderedConversations
    (primaryMessages messages conversationFilter triage) none with hconversations
  let weights := conversationWeights (primaryMessages messages conversationFilter triage) none
  let outcomes : PassOutcomes LoopItems conversations.length := {
    entries := (run.outcomes weights).entries
    sorted := (run.outcomes weights).sorted
    lt := by
      intro entry hentry
      have h := (run.outcomes weights).lt entry hentry
      have hlength : weights.length = conversations.length := List.length_map _
      omega }
  have hindices := withMissing_indices outcomes
  rcases (covers_conversationsBySize triage _ messages conversationFilter).quality key |>.mp hkey
    with hscan | hskipped
  · left
    have hmerged : key ∈ (mergeConversations quotaDetail toLowercase registry reader conversations
        { emptyResult (conversations.map List.length).sum with
          conversationCount := conversations.length }
        (withMissing conversations.length outcomes.entries)).conversationQuality.keys := by
      simp only [scanConversationsFiltered, scanOutcomes] at hscan
      split_ifs at hscan <;> exact hscan
    obtain ⟨entry, hentry, -, rfl⟩ :=
      ((tally_mergeConversations _ _).quality key).mp hmerged
    have hlt : entry.1 < conversations.length := by
      rw [← List.mem_range, ← hindices]
      apply List.mem_map_of_mem hentry
    refine ⟨_, ?_, rfl⟩
    rw [conversationOf, List.getD_eq_getElem?_getD, List.getElem?_eq_getElem hlt]
    apply List.getElem_mem
  · right
    obtain ⟨conversation, hconversation, rfl⟩ := List.mem_map.mp hskipped
    simpa [skippedOf] using (List.mem_filter.mp hconversation).2

variable (hhandles : (messages.map (·.input.handle)).Nodup)

include hhandles

/-- A conversation goes to the chat model when some paragraph of it is in doubt. -/
theorem needsChat_iff (outcomes : JobResults ExtractionAnswer) {conversation : List ReviewMessage}
    (hconversation : conversation ∈ orderedConversations (primaryMessages messages
      conversationFilter (partitionExtractionOutcomes (selectedMessages messages conversationFilter)
        outcomes).triage) none) :
  (partitionExtractionOutcomes (selectedMessages messages conversationFilter)
      outcomes).needsChat (conversation.map (·.analysisInput))
    ↔ InDoubt (selectedMessages messages conversationFilter) outcomes (conversationKey conversation)
  := by
  set selected := selectedMessages messages conversationFilter with hselected
  set extraction := partitionExtractionOutcomes selected outcomes with hextraction
  have hnodup : (selected.map (·.input.handle)).Nodup :=
    List.Nodup.sublist (List.filter_sublist.map _) hhandles
  have hmem : ∀ message, message ∈ conversation ↔ message ∈ selected
      ∧ message.key ∉ extraction.triage.skipped ∧ message.key = conversationKey conversation := by
    intro message
    have hall : ∀ l, selectedMessages l none = l := fun l => List.filter_true l
    rw [mem_conversation_iff hconversation, hall, primaryMessages, List.mem_filter,
      decide_eq_true_eq, and_assoc]
  have hhandle : ∀ message ∈ selected, message.input.handle ∈ extraction.needsChatHandles
      ↔ message.key ∈ (collectExtractions selected extraction.triage.skipped outcomes).needsChat := by
    intro message hmessage
    simp only [hextraction, partitionExtractionOutcomes, List.mem_toFinset, List.mem_map,
      List.mem_filter, decide_eq_true_eq]
    constructor
    · rintro ⟨other, ⟨hother, hkey⟩, heq⟩
      rw [← List.inj_on_of_nodup_map hnodup hother hmessage heq]
      exact hkey
    · intro hkey
      exact ⟨message, ⟨hmessage, hkey⟩, rfl⟩
  simp only [ExtractionOutcome.needsChat, List.any_eq_true, List.mem_map, decide_eq_true_eq,
    exists_exists_and_eq_and]
  constructor
  · rintro ⟨message, hmessage, hchat⟩
    obtain ⟨hin, -, hkey⟩ := (hmem message).mp hmessage
    have h := ((mem_needsChat_collectExtractions _ _ _ _).mp ((hhandle message hin).mp hchat)).2
    rw [hkey] at h
    exact h
  · rintro ⟨entry, hentry, ⟨job, message, hjob, hmessage, hkey⟩, hescalates⟩
    have hin := List.mem_of_getElem? hmessage
    have hskipped : message.key ∉ extraction.triage.skipped := by
      obtain ⟨first, hfirst⟩ := exists_mem_conversation hconversation
      obtain ⟨-, hfirst, hsame⟩ := (hmem first).mp hfirst
      rw [hkey, ← hsame]
      exact hfirst
    use message, (hmem message).mpr ⟨hin, hskipped, hkey⟩
    apply (hhandle message hin).mpr
    apply (mem_needsChat_collectExtractions _ _ _ _).mpr
    exact ⟨hskipped, entry, hentry, ⟨job, message, hjob, hmessage, rfl⟩, hescalates⟩

end

/-! ### Runs without a cancellation -/

section

variable (toLowercase : List Char → List Char) (registry : Registry)
  (candidates : ConversationMessage → ℕ → List TemporalCandidate)

theorem classifyChoice_error {α : Type} {id : String} {answers : Answers}
    {option : String → Option α} {error : ProviderError}
    (h : classifyChoice registry id answers option = .error error) :
  error = .invalidResponse
  := by
  revert h
  fun_cases classifyChoice registry id answers option <;> grind

theorem classifyClaimType_error {answers : Answers} {waitingParty : List String}
    {temporal : List TemporalCandidate} {error : ProviderError}
    (h : classifyClaimType registry answers waitingParty temporal = .error error) :
  error = .invalidResponse
  := by
  revert h
  fun_cases classifyClaimType registry answers waitingParty temporal
  case case3 choice probabilities confidence hlookup hgray hnone =>
    intro h
    rcases Except.bind_eq_error.mp h with htype | ⟨claimType, -, hprobability⟩
    · revert htype
      fun_cases claimTypeFromChoice choice <;> grind
    · dsimp only at hprobability
      split at hprobability
      · have hwaiting : (classifyWaitingParty registry answers waitingParty >>= _) = _ :=
          hprobability
        rcases Except.bind_eq_error.mp hwaiting with hparty | ⟨party, -, htemporals⟩
        · apply classifyChoice_error registry hparty
        · rcases Except.bind_eq_error.mp htemporals with htemporal | ⟨value, -, hfields⟩
          · rw [classifyTemporal] at htemporal
            split_ifs at htemporal with hempty
            apply classifyChoice_error registry htemporal
          · cases hfields
      · cases hprobability
        rfl
  all_goals grind

/-- What is made of an answer is no cancellation. -/
theorem extractionJob_error {selected : List ReviewMessage} {slot : ℕ} {answers : Answers}
    {error : ProviderError}
    (h : extractionJob toLowercase registry candidates selected slot answers = .error error) :
  error = .invalidResponse ∨ error = .invalidQuestion
  := by
  revert h
  fun_cases extractionJob toLowercase registry candidates selected slot answers
  case case1 index ordinal hslot message hmessage =>
    intro h
    rcases Except.bind_eq_error.mp h with hclaim | ⟨claim, -, hanswer⟩
    · left
      apply classifyClaimType_error registry hclaim
    · cases hanswer
  all_goals grind

variable {selected : List ReviewMessage} {outcomes : JobResults Answers}
  (hslots : ∀ entry ∈ outcomes, entry.1 < (triageJobs selected).length)
  (hclean : ∀ entry ∈ outcomes, ¬entry.2.isCancelled)

include hclean in
/-- A paragraph that was asked about was answered, or its conversation is in doubt. -/
theorem answered_or_inDoubt {key : ConversationKey} (hasked : AskedWhole selected outcomes key) :
  ReadByDecisionModel selected
      (extractionOutcomes toLowercase registry candidates selected outcomes) key
    ∨ InDoubt selected (extractionOutcomes toLowercase registry candidates selected outcomes) key
  := by
  by_cases hdoubt : InDoubt selected
      (extractionOutcomes toLowercase registry candidates selected outcomes) key
  · right
    exact hdoubt
  · left
    intro slot hslot
    obtain ⟨outcome, hsent, hentry⟩ := hasked slot hslot
    have hchecked : (slot, outcome.check (extractionJob toLowercase registry candidates selected
        slot)) ∈ extractionOutcomes toLowercase registry candidates selected outcomes :=
      List.mem_map.mpr ⟨_, hentry, rfl⟩
    have hcertain : ¬(outcome.check (extractionJob toLowercase registry candidates selected
        slot)).escalates := fun hescalates => hdoubt ⟨_, hchecked, hslot, hescalates⟩
    rcases outcome with (error | answers) | - | -
    · have hne : error ≠ .cancelled := by
        simpa [JobOutcome.isCancelled] using hclean _ hentry
      exact absurd (decide_eq_true hne) hcertain
    · rcases hjob : extractionJob toLowercase registry candidates selected slot answers
        with error | answer
      · have hne : error ≠ .cancelled := by
          rcases extractionJob_error toLowercase registry candidates hjob with rfl | rfl <;> decide
        apply absurd _ hcertain
        rw [JobOutcome.check, Except.bind, hjob]
        exact decide_eq_true hne
      · use answer
        rw [JobOutcome.check, Except.bind, hjob] at hchecked
        exact hchecked
    · exact absurd rfl hcertain
    · cases hsent

theorem askedWhole_of_read {key : ConversationKey}
    (hread : ReadByDecisionModel selected
      (extractionOutcomes toLowercase registry candidates selected outcomes) key) :
  AskedWhole selected outcomes key
  := by
  intro slot hslot
  obtain ⟨answer, hanswer⟩ := hread slot hslot
  obtain ⟨⟨slot', outcome⟩, hentry, heq⟩ := List.mem_map.mp hanswer
  obtain ⟨rfl, hcheck⟩ := Prod.mk.inj heq
  use outcome
  rcases outcome with _ | _ | _
  · exact ⟨rfl, hentry⟩
  · cases hcheck
  · cases hcheck

end

/-! ### Whole runs -/

section

variable {selected : List ReviewMessage} {run : PassRun Answers}
  (hexited : (run.final (triageWeights selected)).AllExited)
  (hcancel : (run.final (triageWeights selected)).cancel = false)

include hexited hcancel

/-- A pass that is neither stopped nor cancelled asks about every paragraph. -/
theorem askedWhole_of_not_stopped
    (hstop : ∀ entry ∈ (run.final (triageWeights selected)).results, ∀ result,
      entry.2 = .completed result → jobSignal result ≠ .stop) (key : ConversationKey) :
  AskedWhole selected (run.final (triageWeights selected)).results key
  := by
  obtain ⟨haccounted, hexplained, -⟩ := Pass.pass_runs (triageWeights selected) run.limiter
    run.cancel run.conversationIndex run.processed run.turns
  obtain ⟨hall, hsent⟩ := Pass.results_of_not_stopped (triageWeights selected) haccounted hexplained
    hexited hstop hcancel
  rintro slot ⟨job, message, hjob, -⟩
  obtain ⟨hlt, -⟩ := List.getElem?_eq_some_iff.mp hjob
  have hslot : slot ∈ (run.final (triageWeights selected)).results.map Prod.fst := by
    apply hall.symm.subst (motive := fun l => slot ∈ l)
    rw [List.mem_range, triageWeights, List.length_replicate]
    exact hlt
  obtain ⟨⟨slot, outcome⟩, hentry, rfl⟩ := List.mem_map.mp hslot
  exact ⟨outcome, hsent _ hentry, hentry⟩

variable (toLowercase : List Char → List Char) (registry : Registry)
  (candidates : ConversationMessage → ℕ → List TemporalCandidate)

/-- A conversation that is skipped was read by the decision model. -/
theorem read_of_skipped {key : ConversationKey}
    (hskipped : key ∈ (extractionPass toLowercase registry candidates selected
      (run.final (triageWeights selected))).triage.skipped) :
  ReadByDecisionModel selected (extractionOutcomes toLowercase registry candidates selected
    (run.final (triageWeights selected)).results) key
  := by
  have hslots : ∀ entry ∈ extractionOutcomes toLowercase registry candidates selected
      (run.final (triageWeights selected)).results, entry.1 < (triageJobs selected).length :=
    ((run.extractionRun selected).extraction toLowercase registry candidates selected).lt
  obtain ⟨hclean, hanswered⟩ := answered_of_skipped hslots hskipped
  have hstop : ∀ entry ∈ (run.final (triageWeights selected)).results, ∀ result,
      entry.2 = .completed result → jobSignal result ≠ .stop := by
    rintro ⟨slot, outcome⟩ hentry result rfl hstop
    have h := hclean _ (List.mem_map.mpr ⟨_, hentry, rfl⟩)
    rcases result with error | answers
    · rcases jobSignal_eq_stop.mp hstop with hcancelled | hstopped
      · exact h.1 hcancelled
      · exact h.2 hstopped
    · cases hstop
  intro slot hslot
  obtain ⟨outcome, hsent, hentry⟩ := askedWhole_of_not_stopped hexited hcancel hstop key slot hslot
  have hchecked : (slot, outcome.check (extractionJob toLowercase registry candidates selected
      slot)) ∈ extractionOutcomes toLowercase registry candidates selected
        (run.final (triageWeights selected)).results := List.mem_map.mpr ⟨_, hentry, rfl⟩
  have hsent' : (outcome.check (extractionJob toLowercase registry candidates selected
      slot)).wasSent := by
    rcases outcome with _ | _ | _ <;> first | rfl | cases hsent
  obtain ⟨answer, hanswer⟩ := hanswered _ hchecked hslot hsent'
  use answer
  rw [← hanswer]
  exact hchecked

end

/-- However the decision model behaves while the user does not cancel, a conversation that counts as
analyzed was read by it as a whole or goes to the chat model as a whole, exactly when each of its
paragraphs was asked about or some paragraph of it is in doubt.  Every paragraph is asked about
unless an error stops the pass. -/
theorem extraction_failsOpen_iff (quotaDetail : Option String)
    (toLowercase : List Char → List Char) (registry : Registry) (reader : TimeReader)
    (candidates : ConversationMessage → ℕ → List TemporalCandidate) (messages : List ReviewMessage)
    (conversationFilter : Option (Finset ConversationKey))
    (hhandles : (messages.map (·.input.handle)).Nodup)
    {analyze : ℕ → Option (Except ProviderError Answers)} {run : PassRun Answers}
    (hrun : run.Completes (triageWeights (selectedMessages messages conversationFilter)) analyze)
    (hcancel : (run.final
      (triageWeights (selectedMessages messages conversationFilter))).cancel = false)
    (hnever : ∀ index, analyze index ≠ some (.error .cancelled)) (run' : PassRun LoopItems) :
  let selected := selectedMessages messages conversationFilter
  let s := run.final (triageWeights selected)
  let extraction := extractionPass toLowercase registry candidates selected s
  let outcomes := extractionOutcomes toLowercase registry candidates selected s.results
  let primary := primaryMessages messages conversationFilter extraction.triage
  let result := extractionPrimaryPass quotaDetail toLowercase registry reader candidates messages
    conversationFilter s (run'.final (conversationWeights primary none))
  (∀ key ∈ result.conversationQuality.keys,
    (ReadByDecisionModel selected outcomes key
      ∨ ∃ conversation ∈ orderedConversations primary none, conversationKey conversation = key
        ∧ extraction.SentToChat (conversation.map (·.analysisInput)))
    ↔ AskedWhole selected s.results key ∨ InDoubt selected outcomes key)
  ∧ ((∀ index < (triageWeights selected).length, ∀ result, analyze index = some result →
      jobSignal result ≠ .stop) → ∀ key, AskedWhole selected s.results key)
  := by
  intro selected s extraction outcomes primary result
  have hknown : ∀ entry ∈ s.results,
      entry.2 = .notStarted ∨ entry.2 = .ofAnswer (analyze entry.1) := by
    intro entry hentry
    apply Pass.answered_final (triageWeights selected) analyze _ _ _ _ hrun.answers
    apply hrun.exited.known.mpr hentry
  have hclean : ∀ entry ∈ s.results, ¬entry.2.isCancelled := by
    intro entry hentry
    rcases hknown entry hentry with h | h
    · rw [h]
      exact Bool.false_ne_true
    · rw [h]
      rcases hanswer : analyze entry.1 with _ | error | answers
      · exact Bool.false_ne_true
      · have hne : error ≠ .cancelled := fun heq => hnever entry.1 (by rw [hanswer, heq])
        simpa [JobOutcome.ofAnswer, JobOutcome.isCancelled] using hne
      · exact Bool.false_ne_true
  constructor
  · intro key hkey
    have hchat : ∀ conversation ∈ orderedConversations primary none,
        conversationKey conversation = key →
        (extraction.SentToChat (conversation.map (·.analysisInput))
          ↔ InDoubt selected outcomes key) := by
      rintro conversation hconversation rfl
      rw [ExtractionOutcome.sentToChat_iff]
      apply needsChat_iff hhandles outcomes hconversation
    constructor
    · rintro (hread | ⟨conversation, hconversation, hof, hsent⟩)
      · left
        apply askedWhole_of_read toLowercase registry candidates hread
      · right
        exact (hchat conversation hconversation hof).mp hsent
    · intro hcond
      rcases quality_extractionPrimaryPass quotaDetail toLowercase registry reader candidates s rfl
        run' hkey with ⟨conversation, hconversation, hof⟩ | hskipped
      · have hdoubt : ReadByDecisionModel selected outcomes key
            ∨ InDoubt selected outcomes key := by
          rcases hcond with hasked | hdoubt
          · apply answered_or_inDoubt toLowercase registry candidates hclean hasked
          · right
            exact hdoubt
        apply hdoubt.imp_right
        intro hdoubt
        exact ⟨conversation, hconversation, hof,
          (hchat conversation hconversation hof).mpr hdoubt⟩
      · left
        apply read_of_skipped hrun.exited hcancel toLowercase registry candidates hskipped
  · intro hstop key
    apply askedWhole_of_not_stopped hrun.exited hcancel
    intro entry hentry result hresult
    rcases hknown entry hentry with h | h
    · rw [h] at hresult
      cases hresult
    · rw [h] at hresult
      have hlt := (run.outcomes (triageWeights selected)).lt entry hentry
      rcases hanswer : analyze entry.1 with _ | result'
      · rw [hanswer] at hresult
        cases hresult
      · rw [hanswer] at hresult
        cases hresult
        apply hstop entry.1 hlt _ hanswer

/-! ### A conversation that nobody reads -/

/-- One worker, which has the same answer each time. -/
def steadyRun {α : Type} (answer : Option (Except ProviderError α)) (steps : ℕ) : PassRun α where
  limiter := .new 1
  cancel := false
  conversationIndex := 0
  processed := 0
  turns := List.replicate steps (.worker 0 answer)

def Place.isExited {α : Type} : Place α → Bool
  | .exited => true
  | _ => false

theorem Place.eq_exited_of_isExited {α : Type} {place : Place α} (h : place.isExited) :
  place = .exited
  := by
  cases place <;> first | rfl | cases h

theorem steadyRun_completes {α : Type} {answer : Option (Except ProviderError α)} {steps : ℕ}
    {weights : List ℕ} {analyze : ℕ → Option (Except ProviderError α)}
    (hanalyze : ∀ index, analyze index = answer)
    (hexited : (((steadyRun answer steps).final weights).workers 0).isExited) :
  (steadyRun answer steps).Completes weights analyze
  := by
  constructor
  · have hturns : ∀ turn ∈ (steadyRun answer steps).turns, turn = .worker 0 answer := by
      intro turn hturn
      apply List.eq_of_mem_replicate hturn
    revert hturns
    generalize (steadyRun answer steps).first weights = s
    induction (steadyRun answer steps).turns generalizing s with
    | nil => intro _; trivial
    | cons turn turns ih =>
        intro hturns
        obtain rfl := hturns turn List.mem_cons_self
        constructor
        · intro index _
          rw [hanalyze]
        · apply ih
          intro turn hturn
          apply hturns turn (List.mem_cons_of_mem _ hturn)
  · apply Pass.allExited_final
    intro worker hworker
    have hone : worker = 0 := by
      have hmax : (steadyRun answer steps).limiter.maximum = 1 := rfl
      rw [Pass.workerCount, hmax] at hworker
      omega
    rw [hone]
    apply Place.eq_exited_of_isExited hexited

theorem remindersRun_eq (paragraphs : ℕ) :
  remindersRun paragraphs = steadyRun (some (.ok requestAnswers)) (12 * paragraphs)
  := rfl

/-- A message of another conversation. -/
def agendaReminder : ReviewMessage :=
  { remindersMail "m1" 1 with conversation := "agenda" }

/-- The decision model refuses the user at the first paragraph. -/
def refusedRun : PassRun Answers :=
  steadyRun (some (.error .unauthorized)) 24

/-- What the conversations are analyzed to, when the chat model finds nothing. -/
def emptyRun : PassRun LoopItems :=
  steadyRun (some (.ok emptyItems)) 24

def quietReader : TimeReader where
  subject _ := none
  prose _ _ _ := none
  localOffset _ := 0

/-- The second conversation was not asked about, and counts as analyzed all the same: its items are
none, whatever the chat model would say. -/
theorem agendaReminder_unread :
  let messages := [remindersMail "m0" 1, agendaReminder]
  let weights := triageWeights (selectedMessages messages none)
  let s := refusedRun.final weights
  let extraction := extractionPass id halfRegistry (fun _ _ => []) (selectedMessages messages none) s
  let outcomes := extractionOutcomes id halfRegistry (fun _ _ => []) (selectedMessages messages none)
    s.results
  let primary := primaryMessages messages none extraction.triage
  let result := extractionPrimaryPass none id halfRegistry quietReader (fun _ _ => []) messages none
    s (emptyRun.final (conversationWeights primary none))
  (messages.map (·.input.handle)).Nodup
    ∧ refusedRun.Completes weights (fun _ => some (.error .unauthorized))
    ∧ s.cancel = false
    ∧ agendaReminder.key ∈ result.conversationQuality.keys
    ∧ ¬(ReadByDecisionModel (selectedMessages messages none) outcomes agendaReminder.key
      ∨ ∃ conversation ∈ orderedConversations primary none,
        conversationKey conversation = agendaReminder.key
          ∧ extraction.SentToChat (conversation.map (·.analysisInput)))
    ∧ ∀ floatText fromStr review chat, extractionAssembleOrEscalate floatText fromStr review chat
      [agendaReminder.analysisInput] extraction = .ok emptyItems
  := by
  intro messages weights s extraction outcomes primary result
  have hslots : outcomes.map Prod.fst = [0] := by decide
  have hchat : ∀ conversation ∈ orderedConversations primary none,
      conversationKey conversation = agendaReminder.key →
        ¬extraction.needsChat (conversation.map (·.analysisInput)) := by decide
  have halone : ¬extraction.needsChat [agendaReminder.analysisInput]
      ∧ (extraction.claims [agendaReminder.analysisInput]).isEmpty := by decide
  have hrun : refusedRun.Completes weights (fun _ => some (.error .unauthorized)) := by
    rw [refusedRun]
    apply steadyRun_completes fun _ => rfl
    decide
  refine ⟨by decide, hrun, by decide, by decide, ?_, ?_⟩
  · rintro (hread | ⟨conversation, hconversation, hkey, hsent⟩)
    · obtain ⟨answer, hanswer⟩ := hread 1 ⟨(1, 0), agendaReminder, rfl, rfl, rfl⟩
      have hslot : 1 ∈ outcomes.map Prod.fst := List.mem_map.mpr ⟨_, hanswer, rfl⟩
      rw [hslots] at hslot
      exact absurd hslot (by decide)
    · apply hchat conversation hconversation hkey
      exact ExtractionOutcome.sentToChat_iff.mp hsent
  · intro floatText fromStr review chat
    rw [extractionAssembleOrEscalate, if_neg halone.1]
    exact if_pos halone.2

/-- When the decision model answers, both conversations are read. -/
theorem agendaReminder_read :
  let messages := [remindersMail "m0" 1, agendaReminder]
  let s := (remindersRun 2).final (triageWeights (selectedMessages messages none))
  let extraction := extractionPass id halfRegistry (fun _ _ => []) (selectedMessages messages none) s
  let outcomes := extractionOutcomes id halfRegistry (fun _ _ => []) (selectedMessages messages none)
    s.results
  let primary := primaryMessages messages none extraction.triage
  ReadByDecisionModel (selectedMessages messages none) outcomes agendaReminder.key
    ∨ ∃ conversation ∈ orderedConversations primary none,
      conversationKey conversation = agendaReminder.key
        ∧ extraction.SentToChat (conversation.map (·.analysisInput))
  := by
  intro messages s extraction outcomes primary
  have hcancel : s.cancel = false := by decide
  have hrun : (remindersRun 2).Completes (triageWeights (selectedMessages messages none))
      (fun _ => some (.ok requestAnswers)) := by
    rw [remindersRun_eq]
    apply steadyRun_completes fun _ => rfl
    decide
  obtain ⟨hiff, hasked⟩ := extraction_failsOpen_iff none id halfRegistry quietReader (fun _ _ => [])
    messages none (by decide) hrun hcancel (by simp) emptyRun
  apply (hiff agendaReminder.key (by decide +kernel)).mpr
  left
  apply hasked
  intro index _ result hresult
  cases hresult
  decide

end Review
