import OpenLoops.Review.TriageResults

/-!
# What triage hides

A conversation that is skipped was read, unless the user cancels between two requests: then no
answer says so, and a conversation whose paragraphs were never offered is skipped as well.
-/

namespace Review

open Inference Pass

section

variable (registry : Registry) (selected : List ReviewMessage)

/-- The request of the pass is for a paragraph of the conversation. -/
def OfConversation (slot : ℕ) (key : ConversationKey) : Prop :=
  ∃ job message, (triageJobs selected)[slot]? = some job ∧ selected[job.1]? = some message
    ∧ message.key = key

/-- Some request was answered by a cancellation, or by an error that concerns the provider. -/
def Interrupted (outcomes : JobResults Answers) : Prop :=
  ∃ entry ∈ outcomes, entry.2.isCancelled ∨ entry.2.isStopError

/-- Triage hides nothing that was not read.  The outcomes of its requests are given, and whether the
user has cancelled while they were made. -/
structure HidesOnlyRead (cancelled : Prop) (outcomes : JobResults Answers) (result : TriageResult) :
    Prop where
  /-- Each paragraph of a conversation that is skipped was answered, and they are all without a sign
  of an obligation or all notifications. -/
  skipped : ∀ key ∈ result.skipped,
    (∀ slot, OfConversation selected slot key →
      ∃ answers, (slot, .completed (.ok answers)) ∈ outcomes)
    ∧ ((∀ slot answers, OfConversation selected slot key →
          (slot, .completed (.ok answers)) ∈ outcomes → signalBand registry answers = .negative)
      ∨ ∀ slot answers, OfConversation selected slot key →
          (slot, .completed (.ok answers)) ∈ outcomes →
          accepts registry answers "triage.automated_notification")
  /-- The paragraphs that are left out are those whose own answer says so. -/
  omitted : ¬(cancelled ∨ Interrupted outcomes) → ∀ handle ordinal,
    result.Omits handle ordinal ↔ ∃ slot answers index message,
      (triageJobs selected)[slot]? = some (index, ordinal) ∧ selected[index]? = some message
        ∧ message.input.handle = handle ∧ (slot, .completed (.ok answers)) ∈ outcomes
        ∧ accepts registry answers "triage.boilerplate"
        ∧ ∀ id ∈ signalIds, triageProbability answers id < registry.escalate id
  /-- Nothing is hidden after an interruption. -/
  interrupted : cancelled ∨ Interrupted outcomes →
    result.skipped = ∅ ∧ result.omittedBodyBlocks = .empty ∧ result.boilerplateDropped = 0

/-- What an outcome says about its paragraph, by the thresholds of the questions. -/
def JobOutcome.triage (outcome : JobOutcome Answers) : Option ParagraphTriage :=
  (outcome.map (classifyTriage registry)).reading

/-- There is nothing that could be hidden: each conversation has a paragraph with a sign of an
obligation, and a message of which no paragraph is read or one is no notification; and no paragraph
is boilerplate.  A paragraph whose request failed has a sign of an obligation. -/
def NothingToHide (outcomes : JobResults Answers) : Prop :=
  (∀ message ∈ selected,
    (∃ entry ∈ outcomes, OfConversation selected entry.1 message.key
      ∧ ∃ paragraph, entry.2.triage registry = some paragraph ∧ paragraph.signal ≠ .negative)
    ∧ ∃ index message', selected[index]? = some message' ∧ message'.key = message.key
      ∧ ((∀ entry ∈ outcomes, ∀ ordinal, (triageJobs selected)[entry.1]? = some (index, ordinal) →
          entry.2.triage registry = none)
        ∨ ∃ entry ∈ outcomes, ∃ ordinal, (triageJobs selected)[entry.1]? = some (index, ordinal)
          ∧ ∃ paragraph, entry.2.triage registry = some paragraph ∧ ¬paragraph.notification))
    ∧ ∀ entry ∈ outcomes, ∀ paragraph, entry.2.triage registry = some paragraph →
      ¬paragraph.boilerplate

/-! ### The result of the outcomes -/

/-- The outcomes say of a conversation what lets it be skipped. -/
def Skippable (outcomes : JobResults Answers) (key : ConversationKey) : Prop :=
  (∀ entry ∈ outcomes, OfConversation selected entry.1 key → ∀ paragraph,
      entry.2.triage registry = some paragraph → paragraph.signal = .negative)
    ∨ ∀ (index : ℕ) (message : ReviewMessage), selected[index]? = some message → message.key = key →
      (∃ entry ∈ outcomes, ∃ ordinal, (triageJobs selected)[entry.1]? = some (index, ordinal)
        ∧ ∃ paragraph, entry.2.triage registry = some paragraph)
      ∧ ∀ entry ∈ outcomes, ∀ ordinal, (triageJobs selected)[entry.1]? = some (index, ordinal) →
        ∀ paragraph, entry.2.triage registry = some paragraph → paragraph.notification

/-- The outcome says that its paragraph is left out of the message with the handle. -/
def Drops (outcomes : JobResults Answers) (handle : String) (ordinal : ℕ) : Prop :=
  ∃ entry ∈ outcomes, ∃ index message paragraph,
    (triageJobs selected)[entry.1]? = some (index, ordinal) ∧ selected[index]? = some message
      ∧ message.input.handle = handle ∧ entry.2.triage registry = some paragraph
      ∧ paragraph.boilerplate

variable {selected} {s : Pass Answers}
  (hslots : ∀ entry ∈ s.results, entry.1 < (triageJobs selected).length)
include hslots

/-- The outcomes of the pass with what is made of their answers. -/
theorem collected_results :
  Collected selected (triageJobs selected)
    (s.results.map fun entry => (entry.1, entry.2.map (classifyTriage registry)))
    (collectOutcomes selected (triageJobs selected)
      (s.results.map fun entry => (entry.1, entry.2.map (classifyTriage registry))))
  := by
  apply collected_collectOutcomes
  simp only [List.forall_mem_map]
  exact hslots

/-- The flags say whether the pass was interrupted. -/
theorem flags_iff_interrupted :
  let result := (collectOutcomes selected (triageJobs selected)
    (s.results.map fun entry => (entry.1, entry.2.map (classifyTriage registry)))).result
  (!result.stopClassError && !result.cancelled) = false ↔ Interrupted s.results
  := by
  intro result
  have hcollected := collected_results registry hslots
  have hcancelled : ∀ outcome : JobOutcome Answers,
      (outcome.map (classifyTriage registry)).isCancelled = outcome.isCancelled := by
    rintro ((_ | _) | _ | _) <;> rfl
  have hstopped : ∀ outcome : JobOutcome Answers,
      (outcome.map (classifyTriage registry)).isStopError = outcome.isStopError := by
    rintro ((_ | _) | _ | _) <;> rfl
  have hsome : ∀ entry ∈ s.results, (triageJobs selected)[entry.1]?.isSome := by
    intro entry hentry
    rw [List.getElem?_eq_getElem (hslots entry hentry)]
    rfl
  have hleft := hcollected.cancelled
  have hright := hcollected.stopped
  simp only [List.mem_map, exists_exists_and_eq_and, hcancelled, hstopped] at hleft hright
  simp only [Bool.and_eq_false_iff, Bool.not_eq_false', result, hleft, hright, Interrupted]
  grind

/-- Nothing is hidden when the pass was interrupted. -/
theorem triagePass_of_interrupted (hinterrupted : Interrupted s.results) :
  let result := triagePass registry selected s
  result.skipped = ∅ ∧ result.omittedBodyBlocks = .empty ∧ result.boilerplateDropped = 0
  := by
  have hflags := (flags_iff_interrupted registry hslots).mpr hinterrupted
  intro result
  have hresult : result = triagePass registry selected s := rfl
  rw [triagePass, collectTriageResults] at hresult
  simp only [hflags, Bool.false_eq_true, if_false] at hresult
  rw [hresult]
  exact ⟨(collected_results registry hslots).skipped, rfl, rfl⟩

/-- When the pass was not interrupted, the conversations are skipped of which the outcomes say so,
and the paragraphs are left out of which they do. -/
theorem triagePass_of_not_interrupted (hinterrupted : ¬Interrupted s.results) :
  let result := triagePass registry selected s
  (∀ key, key ∈ result.skipped ↔ (∃ message ∈ selected, message.key = key)
      ∧ Skippable registry selected s.results key)
    ∧ (∀ handle ordinal, result.Omits handle ordinal
      ↔ Drops registry selected s.results handle ordinal)
    ∧ (result.boilerplateDropped = 0 ↔ ¬∃ handle ordinal, result.Omits handle ordinal)
    ∧ (result.boilerplateDropped = 0 → result.omittedBodyBlocks = .empty)
  := by
  have hflags := mt (flags_iff_interrupted registry hslots).mp hinterrupted
  intro result
  have hresult : result = triagePass registry selected s := rfl
  rw [triagePass, collectTriageResults] at hresult
  simp only [Bool.not_eq_false] at hflags
  simp only [hflags, if_true] at hresult
  have hcollected := collected_results registry hslots
  rw [hresult]
  refine ⟨?_, ?_, hcollected.dropped, hcollected.empty⟩
  · intro key
    rw [mem_skippedTriageConversations]
    apply and_congr_right
    intro _
    have hread : ∀ (index : ℕ) (message : ReviewMessage), selected[index]? = some message →
        ∀ paragraph, paragraph ∈ (collectOutcomes selected (triageJobs selected)
          (s.results.map fun entry => (entry.1, entry.2.map (classifyTriage registry)))).classified.getD
            index [] ↔ ∃ entry ∈ s.results, ∃ ordinal,
              (triageJobs selected)[entry.1]? = some (index, ordinal)
                ∧ entry.2.triage registry = some paragraph := by
      intro index message hmessage paragraph
      rw [hcollected.classified index (List.getElem?_eq_some_iff.mp hmessage).1]
      simp only [List.mem_map, exists_exists_and_eq_and, JobOutcome.triage]
    apply or_congr
    · constructor
      · rintro hall entry hentry ⟨⟨index, ordinal⟩, message, hjob, hmessage, hkey⟩ paragraph hp
        apply hall index message hmessage hkey paragraph
        apply (hread index message hmessage paragraph).mpr
        exact ⟨entry, hentry, ordinal, hjob, hp⟩
      · intro hall index message hmessage hkey paragraph hp
        obtain ⟨entry, hentry, ordinal, hjob, hp⟩ := (hread index message hmessage paragraph).mp hp
        exact hall entry hentry ⟨(index, ordinal), message, hjob, hmessage, hkey⟩ paragraph hp
    · apply forall_congr'
      intro index
      apply forall_congr'
      intro message
      apply forall_congr'
      intro hmessage
      apply forall_congr'
      intro _
      rw [← List.length_pos_iff, List.length_pos_iff_exists_mem]
      simp only [hread index message hmessage]
      apply and_congr
      · constructor
        · rintro ⟨paragraph, entry, hentry, ordinal, hjob, hp⟩
          exact ⟨entry, hentry, ordinal, hjob, paragraph, hp⟩
        · rintro ⟨entry, hentry, ordinal, hjob, paragraph, hp⟩
          exact ⟨paragraph, entry, hentry, ordinal, hjob, hp⟩
      · constructor
        · intro hall entry hentry ordinal hjob paragraph hp
          exact hall paragraph ⟨entry, hentry, ordinal, hjob, hp⟩
        · rintro hall paragraph ⟨entry, hentry, ordinal, hjob, hp⟩
          exact hall entry hentry ordinal hjob paragraph hp
  · intro handle ordinal
    apply (hcollected.omits handle ordinal).trans
    simp only [List.mem_map, exists_exists_and_eq_and]
    constructor
    · rintro ⟨entry, hentry, ⟨index, _⟩, hjob, message, paragraph, hmessage, hhandle, rfl,
        hreading, hboilerplate⟩
      exact ⟨entry, hentry, index, message, paragraph, hjob, hmessage, hhandle, hreading,
        hboilerplate⟩
    · rintro ⟨entry, hentry, index, message, paragraph, hjob, hmessage, hhandle, hreading,
        hboilerplate⟩
      exact ⟨entry, hentry, (index, ordinal), hjob, message, paragraph, hmessage, hhandle, rfl,
        hreading, hboilerplate⟩

/-- Nothing could be hidden exactly when nothing is, as long as the pass was not interrupted. -/
theorem nothingToHide_iff (hinterrupted : ¬Interrupted s.results) :
  let result := triagePass registry selected s
  NothingToHide registry selected s.results
    ↔ result.skipped = ∅ ∧ result.omittedBodyBlocks = .empty ∧ result.boilerplateDropped = 0
  := by
  intro result
  obtain ⟨hskipped, homits, hdropped, hempty⟩ :=
    triagePass_of_not_interrupted registry hslots hinterrupted
  have hconversations : (∀ message ∈ selected, ¬Skippable registry selected s.results message.key)
      ↔ result.skipped = ∅ := by
    rw [Finset.eq_empty_iff_forall_notMem]
    simp only [result, hskipped]
    grind
  have hparagraphs : (¬∃ handle ordinal, Drops registry selected s.results handle ordinal)
      ↔ result.omittedBodyBlocks = .empty ∧ result.boilerplateDropped = 0 := by
    simp only [← homits, ← hdropped]
    exact ⟨fun h => ⟨hempty h, h⟩, fun h => h.2⟩
  rw [← hconversations, ← hparagraphs]
  apply and_congr
  · apply forall_congr'
    intro message
    apply forall_congr'
    intro _
    unfold Skippable
    rw [not_or]
    apply and_congr
    · push Not
      rfl
    · push Not
      apply exists_congr
      intro index
      apply exists_congr
      intro message'
      apply and_congr_right
      intro _
      apply and_congr_right
      intro _
      rw [or_iff_not_imp_left]
      apply imp_congr
      · push Not
        simp only [Option.ne_none_iff_exists']
      · apply Iff.rfl
  · constructor
    · rintro hall ⟨handle, ordinal, entry, hentry, index, message, paragraph, -, -, -, hp,
        hboilerplate⟩
      exact hall entry hentry paragraph hp hboilerplate
    · intro hnone entry hentry paragraph hp hboilerplate
      have hjob := List.getElem?_eq_getElem (hslots entry hentry)
      obtain ⟨message, hmessage, -⟩ := mem_triageJobs.mp (List.mem_of_getElem? hjob)
      exact hnone ⟨_, _, entry, hentry, _, message, paragraph, hjob, hmessage, rfl, hp,
        hboilerplate⟩

omit hslots in
/-- An outcome that stops the pass is a cancellation or an error that concerns the provider. -/
theorem jobSignal_eq_stop {α : Type} {result : Except ProviderError α} :
  jobSignal result = .stop ↔ (JobOutcome.completed result).isCancelled
    ∨ (JobOutcome.completed result).isStopError
  := by
  rcases result with error | _
  · cases error <;>
      simp [jobSignal, JobOutcome.isCancelled, JobOutcome.isStopError, isStopError,
        isTransportError]
  · simp [jobSignal, JobOutcome.isCancelled, JobOutcome.isStopError]

omit hslots in
/-- What a request says about its paragraph comes from its answer, or it failed. -/
theorem JobOutcome.triage_eq_some {outcome : JobOutcome Answers} {paragraph : ParagraphTriage}
    (h : outcome.triage registry = some paragraph) :
  paragraph = failedTriage ∨ ∃ answers, outcome = .completed (.ok answers)
    ∧ paragraph = classifyTriage registry answers
  := by
  rcases outcome with (error | answers) | _ | _
  · simp only [JobOutcome.triage, JobOutcome.map, JobOutcome.reading, Except.map] at h
    split at h
    · cases h
    · exact .inl (Option.some.inj h).symm
  · exact .inr ⟨answers, rfl, (Option.some.inj h).symm⟩
  · exact .inl (Option.some.inj h).symm
  · cases h

omit hslots in
/-- A request that was made says something, unless it was cancelled. -/
theorem JobOutcome.exists_triage {outcome : JobOutcome Answers} (hsent : outcome.wasSent)
    (hcancelled : ¬outcome.isCancelled) :
  ∃ paragraph, outcome.triage registry = some paragraph
  := by
  rcases outcome with (error | answers) | _ | _
  · have hne : error ≠ .cancelled := by
      simpa [JobOutcome.isCancelled] using hcancelled
    use failedTriage
    simp [JobOutcome.triage, JobOutcome.map, JobOutcome.reading, Except.map, hne]
  · exact ⟨_, rfl⟩
  · exact ⟨_, rfl⟩
  · cases hsent

omit hslots in
/-- When each request was answered, the conversations that are skipped were read. -/
theorem skippable_read (hinterrupted : ¬Interrupted s.results)
    (hslots : s.results.map Prod.fst = List.range (triageJobs selected).length)
    (hsent : ∀ entry ∈ s.results, entry.2.wasSent) {key : ConversationKey}
    (hskippable : Skippable registry selected s.results key) :
  (∀ slot, OfConversation selected slot key →
      ∃ answers, (slot, .completed (.ok answers)) ∈ s.results)
    ∧ ((∀ slot answers, OfConversation selected slot key →
          (slot, .completed (.ok answers)) ∈ s.results → signalBand registry answers = .negative)
      ∨ ∀ slot answers, OfConversation selected slot key →
          (slot, .completed (.ok answers)) ∈ s.results →
          accepts registry answers "triage.automated_notification")
  := by
  have hread : (∀ slot outcome paragraph, OfConversation selected slot key →
        (slot, outcome) ∈ s.results → outcome.triage registry = some paragraph →
        paragraph.signal = .negative)
      ∨ ∀ slot outcome paragraph, OfConversation selected slot key →
        (slot, outcome) ∈ s.results → outcome.triage registry = some paragraph →
        paragraph.notification := by
    rcases hskippable with hnegative | hnotification
    · left
      intro slot outcome paragraph hslot hentry hp
      exact hnegative (slot, outcome) hentry hslot paragraph hp
    · right
      rintro slot outcome paragraph ⟨⟨index, ordinal⟩, message, hjob, hmessage, hkey⟩ hentry hp
      exact (hnotification index message hmessage hkey).2 (slot, outcome) hentry ordinal hjob
        paragraph hp
  constructor
  · intro slot hslot
    have ⟨job, message, hjob, _⟩ := hslot
    have hmem : slot ∈ s.results.map Prod.fst := by
      rw [hslots, List.mem_range]
      exact (List.getElem?_eq_some_iff.mp hjob).1
    obtain ⟨⟨slot, outcome⟩, hentry, rfl⟩ := List.mem_map.mp hmem
    have hcancelled : ¬outcome.isCancelled := by
      intro hcancelled
      exact hinterrupted ⟨_, hentry, .inl hcancelled⟩
    obtain ⟨paragraph, hp⟩ := JobOutcome.exists_triage registry (hsent _ hentry) hcancelled
    rcases JobOutcome.triage_eq_some registry hp with rfl | ⟨answers, rfl, -⟩
    · rcases hread with hnegative | hnotification
      · cases hnegative slot outcome failedTriage hslot hentry hp
      · cases hnotification slot outcome failedTriage hslot hentry hp
    · exact ⟨answers, hentry⟩
  · apply hread.imp
    · intro hnegative slot answers hslot hentry
      exact hnegative slot _ (classifyTriage registry answers) hslot hentry rfl
    · intro hnotification slot answers hslot hentry
      exact hnotification slot _ (classifyTriage registry answers) hslot hentry rfl

omit hslots in
/-- The paragraphs that are left out are those whose own answer says so. -/
theorem drops_iff {handle : String} {ordinal : ℕ} :
  Drops registry selected s.results handle ordinal ↔ ∃ slot answers index message,
    (triageJobs selected)[slot]? = some (index, ordinal) ∧ selected[index]? = some message
      ∧ message.input.handle = handle ∧ (slot, .completed (.ok answers)) ∈ s.results
      ∧ accepts registry answers "triage.boilerplate"
      ∧ ∀ id ∈ signalIds, triageProbability answers id < registry.escalate id
  := by
  have hboilerplate : ∀ answers, (classifyTriage registry answers).boilerplate
      ↔ accepts registry answers "triage.boilerplate"
        ∧ ∀ id ∈ signalIds, triageProbability answers id < registry.escalate id := by
    intro answers
    simp [classifyTriage, belowSignalEscalation]
  constructor
  · rintro ⟨⟨slot, outcome⟩, hentry, index, message, paragraph, hjob, hmessage, hhandle, hp, hdrop⟩
    rcases JobOutcome.triage_eq_some registry hp with rfl | ⟨answers, rfl, rfl⟩
    · cases hdrop
    · exact ⟨slot, answers, index, message, hjob, hmessage, hhandle, hentry,
        (hboilerplate answers).mp hdrop⟩
  · rintro ⟨slot, answers, index, message, hjob, hmessage, hhandle, hentry, hdrop⟩
    exact ⟨_, hentry, index, message, _, hjob, hmessage, hhandle, rfl,
      (hboilerplate answers).mpr hdrop⟩

end

/-! ### The whole pass -/

/-- Whatever the answers are and however the workers interleave, triage hides only what was read
exactly when the user does not cancel while the requests are made, some request is answered by a
cancellation or an error that concerns the provider, or there is nothing to hide. -/
theorem triagePass_hidesOnlyRead_iff (registry : Registry) (messages : List ReviewMessage)
    (conversationFilter : Option (Finset ConversationKey)) (limiter : LimiterState) (cancel : Bool)
    (conversationIndex : ℕ) (turns : List (Turn Answers)) :
  let selected := selectedMessages messages conversationFilter
  let s := (machine Answers (triageWeights selected)).final
    (start (triageWeights selected) limiter cancel conversationIndex 0) turns
  let cancelled := cancel = true ∨ Turn.cancel ∈ turns
  s.AllExited →
    (HidesOnlyRead registry selected cancelled s.results (triagePass registry selected s)
      ↔ ¬cancelled ∨ Interrupted s.results ∨ NothingToHide registry selected s.results)
  := by
  intro selected s cancelled hexited
  obtain ⟨haccounted, hexplained, -⟩ :=
    pass_runs (triageWeights selected) limiter cancel conversationIndex 0 turns
  have hlength : (triageWeights selected).length = (triageJobs selected).length :=
    List.length_replicate
  have hslots : ∀ entry ∈ s.results, entry.1 < (triageJobs selected).length := by
    intro entry hentry
    rw [← hlength]
    apply haccounted.lt_of_mem_results _ hentry
  by_cases hinterrupted : Interrupted s.results
  · simp only [hinterrupted, true_or, or_true, iff_true]
    have hnothing := triagePass_of_interrupted registry hslots hinterrupted
    constructor
    · intro key hkey
      rw [hnothing.1] at hkey
      cases hkey
    · intro hnot
      apply absurd (.inr hinterrupted) hnot
    · intro _
      exact hnothing
  · have hiff := nothingToHide_iff registry hslots hinterrupted
    obtain ⟨hskipped, homits, -⟩ := triagePass_of_not_interrupted registry hslots hinterrupted
    by_cases hcancelled : cancelled
    · simp only [hcancelled, hinterrupted, not_true_eq_false, false_or]
      apply Iff.trans _ hiff.symm
      constructor
      · intro hhides
        apply hhides.interrupted (.inl trivial)
      · intro hnothing
        constructor
        · intro key hkey
          rw [hnothing.1] at hkey
          cases hkey
        · intro hnot
          apply absurd (.inl trivial) hnot
        · intro _
          exact hnothing
    · simp only [hcancelled, not_false_eq_true, true_or, iff_true]
      have hfinal : s.cancel = false := by
        simp only [cancelled, not_or, Bool.not_eq_true] at hcancelled
        obtain ⟨rfl, hturns⟩ := hcancelled
        apply final_cancel (triageWeights selected) limiter conversationIndex 0 hturns
      obtain ⟨hall, hsent⟩ := results_of_not_stopped (triageWeights selected) haccounted hexplained
        hexited (by
          rintro ⟨slot, outcome⟩ hentry result rfl hstop
          exact hinterrupted ⟨_, hentry, jobSignal_eq_stop.mp hstop⟩) hfinal
      rw [hlength] at hall
      constructor
      · intro key hkey
        apply skippable_read registry hinterrupted hall hsent ((hskipped key).mp hkey).2
      · intro _ handle ordinal
        rw [homits, drops_iff]
      · rintro (h | h)
        · cases h
        · exact absurd h hinterrupted

/-- A message with a paragraph in which something is asked. -/
def agendaMail : ReviewMessage where
  provider := .microsoft
  input :=
    { handle := "m0"
      message :=
        { subject := ⟨['A'], length_shortSubject⟩
          bodyBlocks := [⟨['S', 'e', 'n', 'd', ' ', 'i', 't', '.'], length_shortBlock⟩]
          quoteBlocks := []
          sender := none
          «to» := []
          cc := []
          attachmentNames := []
          linkLabels := [] }
      timestamp := 0
      fromUser := false
      recipient := .«to»
      ownAddresses := []
      userDisplayName := none
      userGivenName := none
      team := false }
  source := "Inbox"
  id := "a"
  account := "anna"
  conversation := "agenda"
  dateLabel := ""
  webLink := ""
  ownAddresses := []
  ownDisplayName := none
  ownGivenName := none
  otherAddresses := []
  event := none

/-- Every question is accepted from one half on, and asked about again from one quarter on. -/
def halfRegistry : Registry where
  accept _ := 1 / 2
  escalate _ := 1 / 4
  toVec _ := []

/-- A pass of one worker over the paragraph of the message. -/
def agendaPass (turns : List (Turn Answers)) : Pass Answers :=
  (machine Answers (triageWeights [agendaMail])).final
    (start (triageWeights [agendaMail]) (.new 1) false 0 0) turns

/-- The user cancels before the paragraph is offered, and the conversation is skipped. -/
theorem agendaMail_hidden :
  let turns : List (Turn Answers) := [.cancel, .worker 0 none]
  let s := agendaPass turns
  s.AllExited ∧ ¬HidesOnlyRead halfRegistry [agendaMail] (false = true ∨ Turn.cancel ∈ turns)
    s.results (triagePass halfRegistry [agendaMail] s)
  := by
  intro turns s
  constructor
  · apply allExited_final
    intro worker hworker
    have h : workerCount (triageWeights [agendaMail]) (.new 1) = 1 := by decide
    obtain rfl : worker = 0 := by omega
    rfl
  · intro hhides
    have hskipped := (hhides.interrupted (.inl (.inr List.mem_cons_self))).1
    have hne : (triagePass halfRegistry [agendaMail] s).skipped ≠ ∅ := by decide
    exact hne hskipped

/-- When the paragraph is offered and answered, the conversation is skipped as one that was read. -/
theorem agendaMail_read :
  let turns : List (Turn Answers) := List.replicate 12 (.worker 0 (some (.ok [])))
  let s := agendaPass turns
  HidesOnlyRead halfRegistry [agendaMail] (false = true ∨ Turn.cancel ∈ turns) s.results
    (triagePass halfRegistry [agendaMail] s)
  := by
  intro turns s
  have hexited : s.AllExited := by
    apply allExited_final
    intro worker hworker
    have h : workerCount (triageWeights [agendaMail]) (.new 1) = 1 := by decide
    obtain rfl : worker = 0 := by omega
    rfl
  apply (triagePass_hidesOnlyRead_iff halfRegistry [agendaMail] none (.new 1) false 0
    turns hexited).mpr
  left
  simp [turns]

end Review
