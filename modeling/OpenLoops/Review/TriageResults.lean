import OpenLoops.Review.PassRuns
import OpenLoops.Review.Triage

/-!
# What triage reads out of the outcomes

The results of the triage are those of the outcomes that say something about their paragraphs.  A
request that failed counts as a sign of an obligation; one that was never made says nothing.
-/

namespace Review

open Inference

/-! ### Outcomes -/

/-- What an outcome says about its paragraph. -/
def JobOutcome.reading : JobOutcome ParagraphTriage → Option ParagraphTriage
  | .completed (.ok paragraph) => some paragraph
  | .completed (.error error) => if error = .cancelled then none else some failedTriage
  | .panicked => some failedTriage
  | .notStarted => none

/-- An outcome that says that the request was cancelled. -/
def JobOutcome.isCancelled {α : Type} : JobOutcome α → Bool
  | .completed (.error error) => error = .cancelled
  | _ => false

/-- An outcome with an error that concerns the provider. -/
def JobOutcome.isStopError {α : Type} : JobOutcome α → Bool
  | .completed (.error error) => Review.isStopError error
  | _ => false

/-- A paragraph is left out when it was before, or is the one that is added. -/
theorem TriageCollection.omits_add (messages : List ReviewMessage) (collection : TriageCollection)
    (job : ℕ × ℕ) (paragraph : ParagraphTriage) (handle : String) (ordinal : ℕ) :
  (collection.add messages job paragraph).result.Omits handle ordinal
    ↔ collection.result.Omits handle ordinal
      ∨ ∃ message, messages[job.1]? = some message ∧ message.input.handle = handle
        ∧ job.2 = ordinal ∧ paragraph.boilerplate
  := by
  unfold TriageCollection.add TriageResult.Omits
  rcases hmessage : messages[job.1]? with _ | message
  · simp
  · by_cases hboilerplate : paragraph.boilerplate = true
    · simp only [hboilerplate, if_true, Table.get?_alter, Option.some.injEq, exists_eq_left']
      by_cases hhandle : handle = message.input.handle
      · subst hhandle
        cases hrow : collection.result.omittedBodyBlocks.get? message.input.handle with
        | none => simp [eq_comm]
        | some ordinals => simp [eq_comm, or_comm]
      · simp [hhandle, Ne.symm hhandle]
    · simp [hboilerplate]

/-- The number of paragraphs that are left out grows when one is. -/
theorem TriageCollection.dropped_add (messages : List ReviewMessage) (collection : TriageCollection)
    (job : ℕ × ℕ) (paragraph : ParagraphTriage) :
  (collection.add messages job paragraph).result.boilerplateDropped = 0
    ↔ collection.result.boilerplateDropped = 0
      ∧ ¬∃ message, messages[job.1]? = some message ∧ paragraph.boilerplate
  := by
  unfold TriageCollection.add
  rcases hmessage : messages[job.1]? with _ | message
  · simp
  · by_cases hboilerplate : paragraph.boilerplate = true
    · simp [hboilerplate]
    · simp [hboilerplate]

section

variable (messages : List ReviewMessage) (collection : TriageCollection) (job : ℕ × ℕ)
  (outcome : JobOutcome ParagraphTriage)

/-- The outcome says that the paragraph is left out. -/
def DropsParagraph (handle : String) (ordinal : ℕ) : Prop :=
  ∃ message paragraph, messages[job.1]? = some message ∧ message.input.handle = handle
    ∧ job.2 = ordinal ∧ outcome.reading = some paragraph ∧ paragraph.boilerplate

/-- An outcome adds what it says about its paragraph to the message. -/
theorem collectOutcome_classified :
  (collectOutcome messages collection job outcome).classified
    = collection.classified.modify job.1 (· ++ outcome.reading.toList)
  := by
  have hnone : collection.classified = collection.classified.modify job.1 (· ++ []) := by
    simp only [List.append_nil]
    exact (List.modify_id _ _).symm
  fun_cases collectOutcome messages collection job outcome
  · rfl
  · exact hnone
  · case case3 error hne =>
      rw [JobOutcome.reading, if_neg hne]
      rfl
  · rfl
  · exact hnone

/-- A paragraph is left out when it was before, or the outcome says so. -/
theorem collectOutcome_omits (handle : String) (ordinal : ℕ) :
  (collectOutcome messages collection job outcome).result.Omits handle ordinal
    ↔ collection.result.Omits handle ordinal
      ∨ DropsParagraph messages job outcome handle ordinal
  := by
  unfold DropsParagraph
  fun_cases collectOutcome messages collection job outcome
  · rw [TriageCollection.omits_add]
    simp [JobOutcome.reading]
  · simp [JobOutcome.reading, TriageResult.Omits]
  · rw [TriageCollection.omits_add]
    simp [JobOutcome.reading, failedTriage, TriageResult.Omits]
  · rw [TriageCollection.omits_add]
    simp [JobOutcome.reading, failedTriage, TriageResult.Omits]
  · simp [JobOutcome.reading]

/-- The number of paragraphs that are left out grows when the outcome says so. -/
theorem collectOutcome_dropped :
  (collectOutcome messages collection job outcome).result.boilerplateDropped = 0
    ↔ collection.result.boilerplateDropped = 0
      ∧ ¬∃ handle ordinal, DropsParagraph messages job outcome handle ordinal
  := by
  unfold DropsParagraph
  fun_cases collectOutcome messages collection job outcome
  · rw [TriageCollection.dropped_add]
    simp [JobOutcome.reading]
  · simp [JobOutcome.reading]
  · rw [TriageCollection.dropped_add]
    simp [JobOutcome.reading, failedTriage]
  · rw [TriageCollection.dropped_add]
    simp [JobOutcome.reading, failedTriage]
  · simp [JobOutcome.reading]

/-- The flags are raised by the outcomes that say so. -/
theorem collectOutcome_flags :
  let result := (collectOutcome messages collection job outcome).result
  result.cancelled = (collection.result.cancelled || outcome.isCancelled)
    ∧ result.stopClassError = (collection.result.stopClassError || outcome.isStopError)
  := by
  have hadd : ∀ (collection : TriageCollection) (paragraph : ParagraphTriage),
      (collection.add messages job paragraph).result.cancelled = collection.result.cancelled
        ∧ (collection.add messages job paragraph).result.stopClassError
          = collection.result.stopClassError := by
    intro collection paragraph
    unfold TriageCollection.add
    rcases messages[job.1]? with _ | message
    · exact ⟨rfl, rfl⟩
    · cases hboilerplate : paragraph.boilerplate <;> simp
  fun_cases collectOutcome messages collection job outcome
  · simp [hadd, JobOutcome.isCancelled, JobOutcome.isStopError]
  · simp [JobOutcome.isCancelled, JobOutcome.isStopError, Review.isStopError, isTransportError]
  · case case3 error hne =>
      have hfalse : decide (error = ProviderError.cancelled) = false := decide_eq_false hne
      simp only [hadd, JobOutcome.isCancelled, JobOutcome.isStopError, hfalse, Bool.or_false,
        and_self]
  · simp [hadd, JobOutcome.isCancelled, JobOutcome.isStopError]
  · simp [JobOutcome.isCancelled, JobOutcome.isStopError]

/-- As long as no paragraph is left out, there is no row of those that are. -/
theorem collectOutcome_empty
    (hempty : collection.result.boilerplateDropped = 0 →
      collection.result.omittedBodyBlocks = .empty)
    (hdropped : (collectOutcome messages collection job outcome).result.boilerplateDropped = 0) :
  (collectOutcome messages collection job outcome).result.omittedBodyBlocks = .empty
  := by
  have hadd : ∀ (collection : TriageCollection) (paragraph : ParagraphTriage),
      (collection.result.boilerplateDropped = 0 → collection.result.omittedBodyBlocks = .empty) →
      (collection.add messages job paragraph).result.boilerplateDropped = 0 →
      (collection.add messages job paragraph).result.omittedBodyBlocks = .empty := by
    intro collection paragraph hempty
    unfold TriageCollection.add
    rcases messages[job.1]? with _ | message
    · exact hempty
    · cases hboilerplate : paragraph.boilerplate
      · simpa using hempty
      · simp
  revert hdropped
  fun_cases collectOutcome messages collection job outcome
  · apply hadd _ _ hempty
  · exact hempty
  · apply hadd
    exact hempty
  · apply hadd
    exact hempty
  · exact hempty

/-- No conversation is skipped by an outcome. -/
theorem collectOutcome_skipped :
  (collectOutcome messages collection job outcome).result.skipped = collection.result.skipped
  := by
  have hadd : ∀ (collection : TriageCollection) (paragraph : ParagraphTriage),
      (collection.add messages job paragraph).result.skipped = collection.result.skipped := by
    intro collection paragraph
    unfold TriageCollection.add
    rcases messages[job.1]? with _ | message
    · rfl
    · cases hboilerplate : paragraph.boilerplate <;> simp
  fun_cases collectOutcome messages collection job outcome <;> simp [hadd]

end

/-! ### All outcomes -/

/-- What the outcomes of the jobs say together. -/
structure Collected (messages : List ReviewMessage) (jobs : List (ℕ × ℕ))
    (outcomes : JobResults ParagraphTriage) (collection : TriageCollection) : Prop where
  length : collection.classified.length = messages.length
  classified : ∀ index < messages.length, ∀ paragraph,
    paragraph ∈ collection.classified.getD index [] ↔ ∃ entry ∈ outcomes, ∃ ordinal,
      jobs[entry.1]? = some (index, ordinal) ∧ entry.2.reading = some paragraph
  omits : ∀ handle ordinal, collection.result.Omits handle ordinal ↔ ∃ entry ∈ outcomes, ∃ job,
    jobs[entry.1]? = some job ∧ DropsParagraph messages job entry.2 handle ordinal
  dropped : collection.result.boilerplateDropped = 0
    ↔ ¬∃ handle ordinal, collection.result.Omits handle ordinal
  cancelled : collection.result.cancelled
    ↔ ∃ entry ∈ outcomes, jobs[entry.1]?.isSome ∧ entry.2.isCancelled
  stopped : collection.result.stopClassError
    ↔ ∃ entry ∈ outcomes, jobs[entry.1]?.isSome ∧ entry.2.isStopError
  skipped : collection.result.skipped = ∅
  empty : collection.result.boilerplateDropped = 0 → collection.result.omittedBodyBlocks = .empty

/-- One more outcome is collected. -/
theorem Collected.snoc {messages : List ReviewMessage} {jobs : List (ℕ × ℕ)}
    {outcomes : JobResults ParagraphTriage} {collection : TriageCollection}
    (hcollected : Collected messages jobs outcomes collection)
    {entry : ℕ × JobOutcome ParagraphTriage} {job : ℕ × ℕ} (hjob : jobs[entry.1]? = some job) :
  Collected messages jobs (outcomes ++ [entry]) (collectOutcome messages collection job entry.2)
  := by
  have hexists : ∀ p : ℕ × JobOutcome ParagraphTriage → Prop,
      (∃ entry' ∈ outcomes ++ [entry], p entry') ↔ (∃ entry' ∈ outcomes, p entry') ∨ p entry := by
    simp [or_and_right, exists_or]
  have homits : ∀ handle ordinal,
      (∃ job', jobs[entry.1]? = some job' ∧ DropsParagraph messages job' entry.2 handle ordinal)
        ↔ DropsParagraph messages job entry.2 handle ordinal := by
    simp [hjob]
  obtain ⟨hcancelled, hstopped⟩ := collectOutcome_flags messages collection job entry.2
  constructor
  · rw [collectOutcome_classified, List.length_modify, hcollected.length]
  · intro index hindex paragraph
    have hold := hcollected.classified index hindex paragraph
    have hlt : index < collection.classified.length := by
      rw [hcollected.length]
      exact hindex
    rw [collectOutcome_classified, hexists, ← hold, List.getD_eq_getElem?_getD,
      List.getD_eq_getElem?_getD, List.getElem?_modify, List.getElem?_eq_getElem hlt, hjob]
    obtain ⟨messageIndex, ordinal⟩ := job
    by_cases heq : messageIndex = index
    · simp [heq]
    · simp [heq]
  · intro handle ordinal
    rw [collectOutcome_omits, hexists, homits, hcollected.omits]
  · rw [collectOutcome_dropped, hcollected.dropped]
    simp only [collectOutcome_omits]
    grind
  · rw [hcancelled, hexists, ← hcollected.cancelled, hjob]
    simp
  · rw [hstopped, hexists, ← hcollected.stopped, hjob]
    simp
  · rw [collectOutcome_skipped, hcollected.skipped]
  · apply collectOutcome_empty messages collection job entry.2 hcollected.empty

/-- What the outcomes say is collected. -/
theorem collected_collectOutcomes (messages : List ReviewMessage) {jobs : List (ℕ × ℕ)}
    {outcomes : JobResults ParagraphTriage} (hjobs : ∀ entry ∈ outcomes, entry.1 < jobs.length) :
  Collected messages jobs outcomes (collectOutcomes messages jobs outcomes)
  := by
  unfold collectOutcomes
  induction outcomes using List.reverseRecOn with
  | nil =>
      constructor
      · apply List.length_replicate
      · intro index hindex paragraph
        simp [List.getD_eq_getElem?_getD, hindex]
      all_goals simp [TriageResult.initial, TriageResult.Omits, Table.get?_empty]
  | append_singleton outcomes entry ih =>
      have hlt := hjobs entry (by simp)
      have hold := ih (fun entry hentry => hjobs entry (by simp [hentry]))
      rw [List.foldl_append, List.foldl_cons, List.foldl_nil, List.getElem?_eq_getElem hlt]
      apply hold.snoc (List.getElem?_eq_getElem hlt)

/-! ### The paragraphs that are offered -/

/-- The paragraphs that are offered are the first ones of each message. -/
theorem mem_triageJobs {messages : List ReviewMessage} {index ordinal : ℕ} :
  (index, ordinal) ∈ triageJobs messages ↔ ∃ message, messages[index]? = some message
    ∧ ordinal < min message.input.message.bodyBlocks.length maxBodyBlocks
  := by
  simp only [triageJobs, List.mem_flatMap, Prod.exists, List.mem_zipIdx_iff_getElem?, List.mem_map,
    List.mem_range, Prod.mk.injEq]
  constructor
  · rintro ⟨message, index', hmessage, ordinal', hordinal, rfl, rfl⟩
    exact ⟨message, hmessage, hordinal⟩
  · rintro ⟨message, hmessage, hordinal⟩
    exact ⟨message, index, hmessage, ordinal, hordinal, rfl, rfl⟩

/-! ### Conversations that are skipped -/

/-- The places of a conversation are those of its messages. -/
theorem mem_conversationPlaces {messages : List ReviewMessage} {key : ConversationKey}
    {places : List ℕ} (hrow : (conversationPlaces messages).get? key = some places) (index : ℕ) :
  index ∈ places ↔ ∃ message, messages[index]? = some message ∧ message.key = key
  := by
  have hfold : ∀ (l : List (ReviewMessage × ℕ)) (places : List ℕ),
      l.foldl (fun places entry => places ++ [entry.2]) places = places ++ l.map Prod.snd := by
    intro l
    induction l with
    | nil => simp
    | cons entry l ih =>
        intro places
        rw [List.foldl_cons, ih, List.append_assoc]
        rfl
  rw [conversationPlaces, Table.get?_group] at hrow
  split_ifs at hrow
  have hplaces := Option.some.inj hrow
  rw [← hplaces, hfold, List.nil_append]
  simp only [List.mem_map, List.mem_filter, Prod.exists, List.mem_zipIdx_iff_getElem?,
    decide_eq_true_eq]
  constructor
  · rintro ⟨message, index', ⟨hmessage, hkey⟩, rfl⟩
    exact ⟨message, hmessage, hkey⟩
  · rintro ⟨message, hmessage, hkey⟩
    exact ⟨message, index, ⟨hmessage, hkey⟩, rfl⟩

/-- A conversation is skipped when its paragraphs are all without a sign of an obligation, or its
messages all have paragraphs and these are notifications. -/
theorem mem_skippedTriageConversations {messages : List ReviewMessage}
    {classified : List (List ParagraphTriage)} {key : ConversationKey} :
  key ∈ skippedTriageConversations messages classified ↔ (∃ message ∈ messages, message.key = key)
    ∧ ((∀ (index : ℕ) (message : ReviewMessage), messages[index]? = some message →
        message.key = key → ∀ paragraph ∈ classified.getD index [], paragraph.signal = .negative)
      ∨ ∀ (index : ℕ) (message : ReviewMessage), messages[index]? = some message →
        message.key = key → classified.getD index [] ≠ []
          ∧ ∀ paragraph ∈ classified.getD index [], paragraph.notification)
  := by
  have hkeys : (∃ message ∈ messages, message.key = key)
      ↔ ∃ places, (conversationPlaces messages).get? key = some places := by
    rw [← Table.mem_keys, conversationPlaces, Table.mem_keys_group]
    constructor
    · rintro ⟨message, hmessage, hkey⟩
      obtain ⟨index, hindex⟩ := List.mem_iff_getElem?.mp hmessage
      use (message, index), List.mem_zipIdx_iff_getElem?.mpr hindex
    · rintro ⟨entry, hentry, hkey⟩
      use entry.1, List.mem_of_getElem? (List.mem_zipIdx_iff_getElem?.mp hentry)
  simp only [skippedTriageConversations, List.mem_toFinset, List.mem_map, List.mem_filter,
    Prod.exists, exists_and_right, exists_eq_right, Table.mem_rows, hkeys]
  rw [← exists_and_right]
  apply exists_congr
  intro places
  apply and_congr_right
  intro hrow
  have hmem := mem_conversationPlaces hrow
  simp only [Bool.or_eq_true, Bool.not_eq_true', List.any_eq_false, List.any_eq_true, hmem,
    List.all_eq_true, Bool.and_eq_true, decide_eq_true_eq, List.isEmpty_eq_false_iff, ne_eq,
    not_exists, not_and, not_not]
  grind

end Review
