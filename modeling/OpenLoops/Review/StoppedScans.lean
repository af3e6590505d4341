import OpenLoops.Review.CoverageRuns
import OpenLoops.Review.LoopLinkRuns
import OpenLoops.Review.Merging

/-!
# Scans that are stopped

When the scan of some conversations is stopped, those that were not analyzed are listed as failures,
so that they can be tried again.  A request that was in flight is not: it only marks the scan as
cancelled, and its conversation counts as reviewed.
-/

namespace Review

open Desktop (LoopKey)
open Inference

variable (quotaDetail : Option String) (hmac : LoopKey → Bytes → LoopKey) (T : CharTable)
  (toLowercase : List Char → List Char) (registry : Registry) (times : TimeReader)
  (reader : EventReader) (now : ℤ)

namespace ReviewState

/-- The conversations that are listed as failures. -/
def listed (s : ReviewState) : List ConversationKey :=
  s.failedConversationsDetail.map ConversationFailure.key

/-- The messages that count as analyzed. -/
def reviewedMessages (s : ReviewState) : List ReviewMessage :=
  s.messages.filter fun message => message.key ∉ s.listed

variable (s : ReviewState) (retried : Finset ConversationKey)

/-- The conversations that are scanned again. -/
def rescanned : List (List ReviewMessage) :=
  orderedConversations s.messages (some retried)

/-- The result of a scan of the conversations with these outcomes; the user may have cancelled. -/
def rescan (outcomes : PassOutcomes LoopItems (s.rescanned retried).length) (cancel : Bool) :
    ScanResult :=
  scanOutcomes quotaDetail toLowercase registry times (s.rescanned retried) outcomes.entries cancel

/-- The review with the result merged into it. -/
def afterRescan (outcomes : PassOutcomes LoopItems (s.rescanned retried).length) (cancel : Bool) :
    ReviewState :=
  (s.mergeScan hmac T toLowercase registry reader now
    (s.rescan quotaDetail toLowercase registry times retried outcomes cancel) retried).2

/-- What became of each conversation that was scanned again. -/
def rescanEntries (outcomes : PassOutcomes LoopItems (s.rescanned retried).length) :
    JobResults LoopItems :=
  withMissing (s.rescanned retried).length outcomes.entries

/-- The conversations that were scanned again are listed when they were not analyzed, and then none
of their messages counts as analyzed; those that were analyzed are not listed. -/
def StaysRetryable (entries : JobResults LoopItems) (after : ReviewState) : Prop :=
  ∀ entry ∈ entries,
    let conversation := conversationOf (s.rescanned retried) entry
    (¬entry.2.isAnalyzed → conversationKey conversation ∈ after.listed
        ∧ ∀ message ∈ conversation, message ∉ after.reviewedMessages)
      ∧ (entry.2.isAnalyzed → conversationKey conversation ∉ after.listed)

/-! ### What is listed -/

variable {s retried}

/-- The failures of a result are those of its outcomes. -/
theorem rescan_failures (outcomes : PassOutcomes LoopItems (s.rescanned retried).length)
    (cancel : Bool) :
  (s.rescan quotaDetail toLowercase registry times retried outcomes cancel).failedConversationsDetail
    = ((s.rescanEntries retried outcomes).filterMap
      (failureOf quotaDetail (s.rescanned retried))).map Prod.snd
  := by
  have htally := @tally_mergeConversations quotaDetail toLowercase registry times
    (s.rescanned retried) ((s.rescanned retried).map List.length).sum
    (s.rescanEntries retried outcomes)
  rw [← htally.details]
  cases cancel <;> rfl

/-- A conversation that failed or was not started has its own failure. -/
theorem failureOf_key {conversations : List (List ReviewMessage)}
    {entry : ℕ × JobOutcome LoopItems} {failure : String × ConversationFailure}
    (h : failureOf quotaDetail conversations entry = some failure) :
  failure.2.key = conversationKey (conversationOf conversations entry)
  := by
  obtain ⟨index, outcome⟩ := entry
  rcases outcome with (error | analysis) | - | -
  · cases error <;> cases h <;> rfl
  · cases h
  · cases h
    rfl
  · cases h
    rfl

theorem failureOf_isSome (conversations : List (List ReviewMessage))
    (entry : ℕ × JobOutcome LoopItems) :
  (failureOf quotaDetail conversations entry).isSome
    = (!entry.2.isAnalyzed && !entry.2.isCancelled)
  := by
  obtain ⟨index, outcome⟩ := entry
  rcases outcome with (error | analysis) | - | -
  · cases error <;> rfl
  · rfl
  · rfl
  · rfl

/-- A conversation is scanned again when it is among those that are. -/
theorem key_of_rescanned {conversation : List ReviewMessage}
    (hconversation : conversation ∈ s.rescanned retried) :
  conversationKey conversation ∈ retried
  := by
  obtain ⟨message, hmessage⟩ := exists_mem_conversation hconversation
  obtain ⟨hselected, hkey⟩ := (mem_conversation_iff hconversation).mp hmessage
  rw [← hkey]
  simpa using (List.mem_filter.mp hselected).2

theorem rescanned_of_mem {outcomes : PassOutcomes LoopItems (s.rescanned retried).length}
    {entry : ℕ × JobOutcome LoopItems} (hentry : entry ∈ s.rescanEntries retried outcomes) :
  conversationOf (s.rescanned retried) entry ∈ s.rescanned retried
  := by
  have hmap := map_conversationOf (withMissing_indices outcomes)
  have hmem := List.mem_map_of_mem (f := conversationOf (s.rescanned retried)) hentry
  change _ ∈ (withMissing _ outcomes.entries).map _ at hmem
  rw [hmap] at hmem
  exact hmem

/-- Each conversation has one outcome. -/
theorem entry_eq_of_key {outcomes : PassOutcomes LoopItems (s.rescanned retried).length}
    {entry entry' : ℕ × JobOutcome LoopItems} (hentry : entry ∈ s.rescanEntries retried outcomes)
    (hentry' : entry' ∈ s.rescanEntries retried outcomes)
    (hkey : conversationKey (conversationOf (s.rescanned retried) entry)
      = conversationKey (conversationOf (s.rescanned retried) entry')) :
  entry = entry'
  := by
  have hnodup : ((s.rescanEntries retried outcomes).map fun entry =>
      conversationKey (conversationOf (s.rescanned retried) entry)).Nodup := by
    have hmap := congrArg (List.map conversationKey)
      (map_conversationOf (withMissing_indices outcomes))
    rw [List.map_map] at hmap
    change (List.map (conversationKey ∘ conversationOf (s.rescanned retried))
      (withMissing _ outcomes.entries)).Nodup
    rw [hmap]
    apply nodup_orderedConversations_keys
  apply List.inj_on_of_nodup_map hnodup hentry hentry' hkey

variable (outcomes : PassOutcomes LoopItems (s.rescanned retried).length) (cancel : Bool)

/-- A conversation that was scanned again is listed when its job has failed or was not started. -/
theorem key_mem_listed {entry : ℕ × JobOutcome LoopItems}
    (hentry : entry ∈ s.rescanEntries retried outcomes) :
  conversationKey (conversationOf (s.rescanned retried) entry)
      ∈ (s.afterRescan quotaDetail hmac T toLowercase registry times reader now retried outcomes
        cancel).listed
    ↔ ¬entry.2.isAnalyzed ∧ ¬entry.2.isCancelled
  := by
  have hretried := key_of_rescanned (rescanned_of_mem hentry)
  have hsome := failureOf_isSome quotaDetail (s.rescanned retried) entry
  rw [listed, afterRescan, mergeScan_failures, rescan_failures, List.map_append, List.mem_append]
  constructor
  · rintro (hkept | hnew)
    · rcases List.mem_map.mp hkept with ⟨failure, hfailure, hkey⟩
      have hnot := (List.mem_filter.mp hfailure).2
      rw [hkey] at hnot
      simp [hretried] at hnot
    · rw [List.map_map] at hnew
      rcases List.mem_map.mp hnew with ⟨failure, hfailure, hkey⟩
      rcases List.mem_filterMap.mp hfailure with ⟨entry', hentry', hof⟩
      have heq := entry_eq_of_key hentry hentry' (hkey.symm.trans (failureOf_key quotaDetail hof))
      rw [← heq] at hof
      rw [hof] at hsome
      simpa using hsome.symm
  · rintro ⟨hanalyzed, hcancelled⟩
    right
    rw [Bool.not_eq_true] at hanalyzed hcancelled
    rw [hanalyzed, hcancelled] at hsome
    obtain ⟨failure, hof⟩ := Option.isSome_iff_exists.mp hsome
    rw [List.map_map]
    apply List.mem_map.mpr
    use failure, List.mem_filterMap.mpr ⟨entry, hentry, hof⟩
    apply failureOf_key quotaDetail hof

/-- An outcome that was cancelled is one of the pass. -/
theorem mem_rescanEntries_cancelled {entry : ℕ × JobOutcome LoopItems}
    (hcancelled : entry.2.isCancelled) :
  entry ∈ s.rescanEntries retried outcomes ↔ entry ∈ outcomes.entries
  := by
  rw [rescanEntries, withMissing]
  split_ifs
  · rw [(KeyOrder.sort_perm _ _).mem_iff, List.mem_append, or_iff_left]
    rintro hmissing
    rcases List.mem_map.mp hmissing with ⟨index, -, rfl⟩
    cases hcancelled
  · rfl

/-- The conversations of a scan that was stopped stay retryable if and only if no request was
answered as cancelled, whatever else became of the jobs; what counts as analyzed are the messages of
the conversations that are not listed. -/
theorem staysRetryable_iff :
  let after := s.afterRescan quotaDetail hmac T toLowercase registry times reader now retried
    outcomes cancel
  (s.StaysRetryable retried (s.rescanEntries retried outcomes) after
      ↔ ∀ entry ∈ outcomes.entries, ¬entry.2.isCancelled)
    ∧ (s.mergedResult (s.rescan quotaDetail toLowercase registry times retried outcomes cancel)
      retried).analyzed = after.reviewedMessages.length
  := by
  intro after
  have hlisted := fun entry (hentry : entry ∈ s.rescanEntries retried outcomes) =>
    key_mem_listed quotaDetail hmac T toLowercase registry times reader now outcomes cancel hentry
  constructor
  · constructor
    · intro hstays entry hentry hcancelled
      have hmem := (mem_rescanEntries_cancelled outcomes hcancelled).mpr hentry
      have hnot : ¬entry.2.isAnalyzed := by
        obtain ⟨index, outcome⟩ := entry
        rcases outcome with (error | analysis) | - | - <;> simp_all [JobOutcome.isAnalyzed,
          JobOutcome.isCancelled]
      apply ((hlisted entry hmem).mp ((hstays entry hmem).1 hnot).1).2 hcancelled
    · intro hnone entry hentry conversation
      constructor
      · intro hanalyzed
        have hcancelled : ¬entry.2.isCancelled := by
          intro hcancelled
          apply hnone entry _ hcancelled
          apply (mem_rescanEntries_cancelled outcomes hcancelled).mp hentry
        have hkey := (hlisted entry hentry).mpr ⟨hanalyzed, hcancelled⟩
        use hkey
        intro message hmessage hreviewed
        have hmember := (mem_conversation_iff (rescanned_of_mem hentry)).mp hmessage
        have hnot := (List.mem_filter.mp hreviewed).2
        rw [hmember.2, decide_eq_true_eq] at hnot
        apply hnot hkey
      · intro hanalyzed hkey
        apply ((hlisted entry hentry).mp hkey).1 hanalyzed
  · rw [reviewedMessages, listed, ← List.countP_eq_length_filter]
    simp only [after, afterRescan, mergeScan_messages, mergeScan_failures]
    rfl

/-- No time is read from any text. -/
def silentTimes : TimeReader where
  subject _ := none
  prose _ _ _ := none
  localOffset _ := 0

def silentEvents : EventReader where
  subjectTime _ _ := none
  prose _ := none
  localOffset _ := 0

/-- Every answer counts. -/
def openRegistry : Registry where
  accept _ := 0
  escalate _ := 0
  toVec _ := []

/-- A review of one message. -/
def oneInvoice : ReviewState :=
  { invoiceReview with messages := [invoiceMail "m0" 0] }

/-- The conversation of the message. -/
def invoiceKeys : Finset ConversationKey :=
  {toLex ("anna", "m0")}

/-- The request was in flight when the user stopped the scan. -/
def inFlight : PassOutcomes LoopItems (oneInvoice.rescanned invoiceKeys).length where
  entries := [(0, .completed (.error .cancelled))]
  sorted := by decide
  lt := by decide

/-- The conversation is not listed, though its request was not answered. -/
theorem inFlight_lost :
  ¬oneInvoice.StaysRetryable invoiceKeys (oneInvoice.rescanEntries invoiceKeys inFlight)
    (oneInvoice.afterRescan none lastByteKey .ascii id openRegistry silentTimes silentEvents 0
      invoiceKeys inFlight true)
  := by
  intro hstays
  have hmem : (0, .completed (.error .cancelled)) ∈ oneInvoice.rescanEntries invoiceKeys inFlight :=
    (mem_rescanEntries_cancelled inFlight rfl).mpr List.mem_cons_self
  have hlisted := key_mem_listed none lastByteKey .ascii id openRegistry silentTimes silentEvents 0
    inFlight true hmem
  apply (hlisted.mp ((hstays _ hmem).1 _).1).2 rfl
  simp [JobOutcome.isAnalyzed]


end ReviewState

end Review
