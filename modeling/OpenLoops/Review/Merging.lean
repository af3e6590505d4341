import OpenLoops.Review.Coverage
import OpenLoops.Review.LoopLinks
import OpenLoops.Review.PassedEvents
import OpenLoops.Review.Sources

/-!
# Merging of scans

The result of a scan of all conversations becomes the analysis of the review.  The result of a scan
of some of them is merged into it: what was known of those is replaced, and the rest stays.
-/

namespace Review

open Desktop (LoopKey)
open Graph (MailProvider)

/-! ### Coverage -/

/-- How many conversations were analyzed, how many have failed, and how many were not started. -/
def conversationCoverage (conversationCount : ℕ) (failures : List ConversationFailure) :
    ℕ × ℕ × ℕ :=
  let failed := failures.countP fun failure => failure.reason ≠ .notStarted
  let notStarted := failures.countP fun failure => failure.reason = .notStarted
  (conversationCount - failed - notStarted, failed, notStarted)

def ScanResult.unanalyzedConversations (result : ScanResult) : ℕ :=
  result.failedConversations + result.notStartedConversations

/-- What is told of a scan. -/
def ScanResult.summary (result : ScanResult) : String :=
  let unanalyzed := result.unanalyzedConversations
  let reviewed := "Reviewed " ++ toString result.analyzed ++ " of " ++ toString result.total
    ++ " loaded messages (" ++ toString result.analyzedConversations ++ " of "
    ++ toString result.conversationCount ++ " conversations)."
  let stoppedBecause := if result.cancelled then "you stopped the scan"
    else "the scan stopped after a provider error"
  reviewed
    ++ (if unanalyzed = 0 then ""
      else " " ++ toString unanalyzed ++ " conversations were not analyzed: "
        ++ toString result.failedConversations ++ " failed, "
        ++ toString result.notStartedConversations ++ " not started because " ++ stoppedBecause
        ++ ".")
    ++ (if result.cancelled then "; stopped by you" else "")

/-- The lines that are shown of a scan: its failures, why answers were rejected, its notes and the
failure of its closure pass. -/
def ScanResult.errorLines (result : ScanResult) : List String :=
  result.analysis.rejectionReasons.foldl insertEntry result.failures
    ++ result.conversationNotes ++ result.closurePassFailure.toList

/-! ### Suggestions for items that were there before -/

/-- The suggestion is for the item. -/
def PriorUpdate.isFor (prior : PriorUpdate) (item : LoopItem) : Bool :=
  item.evidence.message = prior.message && item.evidence.block = prior.block
    && item.actionPhrase = prior.actionPhrase

/-- The item has the suggestion, when that is better than the one it has. -/
def attachPriorUpdate (state : List LoopItem × ℕ) (prior : PriorUpdate) : List LoopItem × ℕ :=
  match state.1.findIdx? prior.isFor with
  | none => state
  | some place =>
      if (state.1[place]?.bind (·.suggestedUpdate)).all fun current =>
          outranks prior.update current then
        (state.1.modify place fun item => { item with suggestedUpdate := some prior.update },
          state.2 + 1)
      else state

/-- The items with the suggestions, and how many were attached. -/
def attachPriorUpdates (items : List LoopItem) (updates : List PriorUpdate) : List LoopItem × ℕ :=
  updates.foldl attachPriorUpdate (items, 0)

namespace ReviewState

/-! ### A scan of all conversations -/

section

variable (hmac : LoopKey → Bytes → LoopKey) (toLowercase : List Char → List Char)

/-- The result of a scan with what it says. -/
def withScan (s : ReviewState) (result : ScanResult) : ReviewState :=
  { s with
    scanFailed := false
    conversationQuality := result.conversationQuality
    conversationNotesById := result.conversationNotesById
    conversationRejectionReasons := result.conversationRejectionReasons
    failedConversationsDetail := result.failedConversationsDetail
    closurePassFailure := result.closurePassFailure
    scanSummary := result.summary
    scanIncomplete := result.analyzed < result.total || 0 < s.sourceFailures
      || 0 < result.analysis.rejected || 0 < result.analysis.degraded
      || result.closurePassFailure.isSome || result.cancelled
    scanErrors := result.errorLines
    analysis := some result.analysis }

/-- The result of a scan becomes the analysis of the review. -/
def setScan (s : ReviewState) (result : ScanResult) (model : String) : ReviewState :=
  { ((s.withScan result).applyLoopLinks hmac toLowercase).2 with analysisModel := model }

end

/-! ### A scan of some conversations -/

/-- What is known of conversations, with the rows of those that were scanned anew. -/
def mergeRows {α : Type*} (s : ReviewState) (old new : Table ConversationKey α)
    (retried : Finset ConversationKey) : Table ConversationKey α :=
  ((old.filter (· ∉ retried)).merge new).filter (· ∈ s.liveConversations)

/-- The notes of a result that are of no conversation. -/
def aggregateNotes (result : ScanResult) : List String :=
  let keyed := result.conversationNotesById.rows.flatMap Prod.snd
  result.conversationNotes.filter fun note =>
    note ∉ keyed && !("Event index:".toList.isPrefixOf note.toList)

/-- What is known of the conversations. -/
def mergeConversationMetadata (s : ReviewState) (result : ScanResult)
    (retried : Finset ConversationKey) : ReviewState :=
  { s with
    conversationQuality := s.mergeRows s.conversationQuality result.conversationQuality retried
    conversationNotesById :=
      s.mergeRows s.conversationNotesById result.conversationNotesById retried
    conversationRejectionReasons := s.mergeRows s.conversationRejectionReasons
      result.conversationRejectionReasons retried }

/-- The handles of the messages of the conversations. -/
def handlesOf (s : ReviewState) (conversations : Finset ConversationKey) : List String :=
  (s.messages.filter fun message => message.key ∈ conversations).map (·.input.handle)

/-- The items that stay, followed by those of a result. -/
def keptItems (s : ReviewState) (result : ScanResult) (retried : Finset ConversationKey) :
    List LoopItem :=
  ((s.analysis.map (·.items)).getD []).filter
    (fun item => item.evidence.message ∉ s.handlesOf retried) ++ result.analysis.items

/-- The failures that stay. -/
def keptFailures (s : ReviewState) (retried : Finset ConversationKey) : List ConversationFailure :=
  s.failedConversationsDetail.filter (·.key ∉ retried)

/-- The lines of the failures that stay, which are told apart by their places. -/
def keptLines (s : ReviewState) (retried : Finset ConversationKey) : List String :=
  (s.keptFailures retried).filterMap fun failure =>
    ((s.failedConversationsDetail.zip s.scanErrors).find? (·.1 = failure)).map Prod.snd

/-- The result of a scan of some conversations, with what stays of the review. -/
def mergedResult (s : ReviewState) (result : ScanResult) (retried : Finset ConversationKey) :
    ScanResult :=
  let known := s.mergeConversationMetadata result retried
  let (items, attached) := attachPriorUpdates (s.keptItems result retried) result.priorUpdates
  let failures := s.keptFailures retried ++ result.failedConversationsDetail
  let conversationCount := s.liveConversations.card
  let (analyzed, failed, notStarted) := conversationCoverage conversationCount failures
  { analysis :=
      { items
        rejected := (known.conversationQuality.rows.map (·.2.1)).sum
        rejectionReasons :=
          (known.conversationRejectionReasons.rows.flatMap Prod.snd).foldl insertEntry []
        degraded := (known.conversationQuality.rows.map (·.2.2)).sum }
    priorUpdates := []
    failures := s.keptLines retried ++ result.failures
    failedConversationsDetail := failures
    analyzed := s.messages.countP fun message => message.key ∉ failures.map ConversationFailure.key
    total := s.messages.length
    cancelled := result.cancelled
    conversationNotes :=
      known.conversationNotesById.rows.flatMap Prod.snd ++ aggregateNotes result
    conversationQuality := known.conversationQuality
    conversationNotesById := known.conversationNotesById
    conversationRejectionReasons := known.conversationRejectionReasons
    suggestedUpdates := result.suggestedUpdates + attached
    eventClosures := 0
    primaryScanTransportError := result.primaryScanTransportError
    conversationCount
    analyzedConversations := analyzed
    failedConversations := failed
    notStartedConversations := notStarted
    closurePassFailure := result.closurePassFailure }

section

variable (hmac : LoopKey → Bytes → LoopKey) (T : CharTable) (toLowercase : List Char → List Char)
  (registry : Registry) (reader : EventReader) (now : ℤ)

/-- The result of a scan of some conversations is merged into the review at a time.  The number is
that of the suggestions. -/
def mergeScan (s : ReviewState) (result : ScanResult) (retried : Finset ConversationKey) :
    ℕ × ReviewState :=
  let merged := closePassedEvents T toLowercase registry reader s.messages now
    (s.mergedResult result retried)
  (merged.suggestedUpdates, s.setScan hmac toLowercase merged s.analysisModel)

/-- Links change the items and the titles alone. -/
theorem applyLoopLinks_eq (s : ReviewState) :
  ∃ titles items, (s.applyLoopLinks hmac toLowercase).2 = { s with
    linkedCardTitles := titles
    analysis := s.analysis.map fun analysis => { analysis with items } }
  := by
  obtain ⟨_, _, analysis⟩ := s
  cases analysis with
  | none => exact ⟨_, [], rfl⟩
  | some analysis => exact ⟨_, _, rfl⟩

theorem setScan_messages (s : ReviewState) (result : ScanResult) (model : String) :
  (s.setScan hmac toLowercase result model).messages = s.messages
  := by
  obtain ⟨titles, items, heq⟩ := applyLoopLinks_eq hmac toLowercase (s.withScan result)
  rw [setScan, heq]
  rfl

theorem setScan_failures (s : ReviewState) (result : ScanResult) (model : String) :
  (s.setScan hmac toLowercase result model).failedConversationsDetail
    = result.failedConversationsDetail
  := by
  obtain ⟨titles, items, heq⟩ := applyLoopLinks_eq hmac toLowercase (s.withScan result)
  rw [setScan, heq]
  rfl

theorem mergeScan_messages (s : ReviewState) (result : ScanResult)
    (retried : Finset ConversationKey) :
  (s.mergeScan hmac T toLowercase registry reader now result retried).2.messages = s.messages
  := setScan_messages hmac toLowercase s _ _

/-- The failures are those that stay, followed by those of the result. -/
theorem mergeScan_failures (s : ReviewState) (result : ScanResult)
    (retried : Finset ConversationKey) :
  (s.mergeScan hmac T toLowercase registry reader now result retried).2.failedConversationsDetail
    = s.keptFailures retried ++ result.failedConversationsDetail
  := by
  obtain ⟨items, closures, notes, heq⟩ := closePassedEvents_eq T toLowercase registry reader
    s.messages now (s.mergedResult result retried)
  rw [mergeScan, setScan_failures, heq]
  rfl

end

/-! ### What can be tried again -/

/-- The failures that may be mended by trying again. -/
def retryableDetail (s : ReviewState) : List ConversationFailure :=
  s.failedConversationsDetail.filter fun failure =>
    failure.reason ≠ .rateLimited ∧ failure.reason ≠ .quota

def retryableFailures (s : ReviewState) : ℕ :=
  s.failedSources.length + s.retryableDetail.length

def retryableConversations (s : ReviewState) : Finset ConversationKey :=
  (s.retryableDetail.map ConversationFailure.key).toFinset

/-- The items that are open, of conversations that have not changed. -/
def priorOpenItems (hmac : LoopKey → Bytes → LoopKey) (toLowercase : List Char → List Char)
    (s : ReviewState) (changed : Finset ConversationKey) : List LoopItem :=
  ((s.analysis.map (·.items)).getD []).filter fun item =>
    item.resolution.isNone && item.eventPassed.isNone
      && (s.cardContext hmac toLowercase item).all (fun card => !card.closed)
      && (s.message item.evidence.message).any fun message => message.key ∉ changed


end ReviewState

end Review
