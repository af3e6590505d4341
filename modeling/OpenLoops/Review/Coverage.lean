import OpenLoops.Review.ChatClosure
import OpenLoops.Review.Recap
import OpenLoops.Review.Triage

/-!
# Coverage of a scan

The conversations are analyzed in a pass of their own, the smallest ones first, and the outcomes are
merged in that order.  A conversation is analyzed, it failed, or it was not started; those that the
triage has skipped are analyzed as well.
-/

namespace Review

open Inference

/-! ### Conversations -/

/-- The conversations of the messages that are selected, the smallest ones first. -/
def conversationsBySize (messages : List ReviewMessage)
    (conversationFilter : Option (Finset ConversationKey)) : List (List ReviewMessage) :=
  KeyOrder.sort List.length ((Table.group ReviewMessage.key []
    (fun members message => members ++ [message])
    (selectedMessages messages conversationFilter)).rows.map Prod.snd)

/-- The conversations with their messages in the order of their times. -/
def orderedConversations (messages : List ReviewMessage)
    (conversationFilter : Option (Finset ConversationKey)) : List (List ReviewMessage) :=
  (conversationsBySize messages conversationFilter).map inTime

/-- The key of the conversation, which is that of its first message. -/
def conversationKey (conversation : List ReviewMessage) : ConversationKey :=
  ((conversation.head?).map (·.key)).getD (toLex ("", ""))

/-- The beginning of the subject. -/
def subjectSnippet (conversation : List ReviewMessage) : String :=
  String.ofList (((conversation.head?.map (·.rawSubject)).getD []).take 60)

/-- How lines on the conversation at a place begin. -/
def conversationHead (index : ℕ) (conversation : List ReviewMessage) : String :=
  "Conversation " ++ toString (index + 1) ++ " (" ++ toString conversation.length
    ++ " messages; subject: " ++ subjectSnippet conversation ++ ")"

/-- The texts without those that were there before. -/
def distinctTexts (texts : List String) : List String :=
  texts.foldl (fun seen text => if text ∈ seen then seen else seen ++ [text]) []

/-- The conversation is between the user and one other alone. -/
def isTwoParty (conversation : List ReviewMessage) : Bool :=
  (conversation.foldl (fun (addresses : Finset String) message =>
      addresses ∪ message.otherAddresses.toFinset) ∅).card = 1
    && conversation.any (fun message => !message.input.fromUser)
    && conversation.any (fun message => message.input.fromUser)
    && conversation.all fun message =>
      !message.input.team && message.input.message.«to».length ≤ 1
        && message.input.message.cc.isEmpty

/-- What is said about a conversation that was analyzed. -/
def conversationNote (index : ℕ) (conversation : List ReviewMessage) (analysis : LoopItems) :
    Option String :=
  if 0 < analysis.rejected || 0 < analysis.degraded || !analysis.rejectionReasons.isEmpty then
    some (conversationHead index conversation ++ ": " ++ toString analysis.items.length
      ++ " accepted, " ++ toString analysis.rejected ++ " rejected, " ++ toString analysis.degraded
      ++ " kept with unverified evidence. "
      ++ " / ".intercalate (distinctTexts analysis.rejectionReasons))
  else if analysis.items.isEmpty && isTwoParty conversation then
    some (conversationHead index conversation ++ ": no expectations returned.")
  else none

/-! ### Failures -/

section

variable (quotaDetail : Option String)

/-- The line on a conversation that failed; the provider may have said why a quota is used up. -/
def failureLine (index : ℕ) (conversation : List ReviewMessage) (error : ProviderError) : String :=
  let head := conversationHead index conversation
  match error with
  | .rateLimited => head ++ ": The provider rate-limited this request; it was not resent."
  | .creditsInFlight =>
      head ++ ": " ++ errorText .creditsInFlight ++ " This request was not resent."
  | .timeout => head ++ ": " ++ errorText .timeout ++ " Request size: "
      ++ toString conversation.length ++ " messages."
  | .quota =>
      match quotaDetail with
      | some detail => head ++ ": " ++ errorText .quota ++ " OpenRouter's reason: " ++ detail
      | none => head ++ ": " ++ errorText .quota
  | error => head ++ ": " ++ errorText error

def failureReason : ProviderError → FailureReason
  | .timeout => .timeout
  | .rateLimited | .creditsInFlight => .rateLimited
  | .network => .transport
  | .quota => .quota
  | error => .provider (errorText error)

def failureDetail (conversation : List ReviewMessage) (reason : FailureReason) :
    ConversationFailure where
  account := (ofLex (conversationKey conversation)).1
  conversation := (ofLex (conversationKey conversation)).2
  subjectShort := subjectSnippet conversation
  reason

/-! ### Merging -/

/-- The result before any conversation is analyzed. -/
def emptyResult (total : ℕ) : ScanResult where
  analysis := { items := [], rejected := 0, rejectionReasons := [], degraded := 0 }
  priorUpdates := []
  failures := []
  failedConversationsDetail := []
  analyzed := 0
  total
  cancelled := false
  conversationNotes := []
  conversationQuality := .empty
  conversationNotesById := .empty
  conversationRejectionReasons := .empty
  suggestedUpdates := 0
  eventClosures := 0
  primaryScanTransportError := false
  conversationCount := 0
  analyzedConversations := 0
  failedConversations := 0
  notStartedConversations := 0
  closurePassFailure := none

variable (toLowercase : List Char → List Char) (registry : Registry) (reader : TimeReader)

/-- The answer on a conversation, with what is known of recaps. -/
def correctedAnalysis (conversation : List ReviewMessage) (analysis : LoopItems) : LoopItems :=
  tagCallSummaries toLowercase registry reader
    (correctRecapAttribution toLowercase registry analysis conversation none) conversation none

/-- The notes with one more on a conversation. -/
def noteById (notes : Table ConversationKey (List String)) (key : ConversationKey)
    (note : Option String) : Table ConversationKey (List String) :=
  match note with
  | some note => notes.alter key fun notes => notes.getD [] ++ [note]
  | none => notes

/-- The outcome of the conversation at a place is merged. -/
def mergeConversation (result : ScanResult) (index : ℕ) (conversation : List ReviewMessage) :
    JobOutcome LoopItems → ScanResult
  | .completed (.ok analysis) =>
      let analysis := correctedAnalysis toLowercase registry reader conversation analysis
      let key := conversationKey conversation
      let note := conversationNote index conversation analysis
      { result with
        analyzed := result.analyzed + conversation.length
        analyzedConversations := result.analyzedConversations + 1
        conversationNotes := result.conversationNotes ++ note.toList
        conversationNotesById := noteById result.conversationNotesById key note
        conversationQuality :=
          result.conversationQuality.alter key fun _ => (analysis.rejected, analysis.degraded)
        conversationRejectionReasons :=
          result.conversationRejectionReasons.alter key fun _ => analysis.rejectionReasons
        analysis := {
          items := result.analysis.items ++ analysis.items
          rejected := result.analysis.rejected + analysis.rejected
          rejectionReasons := result.analysis.rejectionReasons ++ analysis.rejectionReasons
          degraded := result.analysis.degraded + analysis.degraded } }
  | .completed (.error .cancelled) => { result with cancelled := true }
  | .completed (.error error) =>
      { result with
        failures := result.failures ++ [failureLine quotaDetail index conversation error]
        failedConversationsDetail := result.failedConversationsDetail
          ++ [failureDetail conversation (failureReason error)]
        failedConversations := result.failedConversations + 1
        primaryScanTransportError := result.primaryScanTransportError || isStopError error }
  | .panicked =>
      { result with
        failures := result.failures ++ ["Conversation " ++ toString (index + 1)
          ++ ": the analysis failed unexpectedly and was skipped."]
        failedConversationsDetail :=
          result.failedConversationsDetail ++ [failureDetail conversation .panicked]
        failedConversations := result.failedConversations + 1 }
  | .notStarted =>
      { result with
        failures := result.failures ++ [conversationHead index conversation
          ++ ": the conversation was not analyzed because the scan stopped after a provider error."]
        failedConversationsDetail :=
          result.failedConversationsDetail ++ [failureDetail conversation .notStarted]
        notStartedConversations := result.notStartedConversations + 1 }

/-- The outcomes with those of the jobs that no worker has taken. -/
def withMissing {α : Type} (jobs : ℕ) (outcomes : JobResults α) : JobResults α :=
  if outcomes.length < jobs then
    KeyOrder.sort Prod.fst (outcomes ++ ((List.range jobs).filter fun index =>
      index ∉ outcomes.map Prod.fst).map fun index => (index, .notStarted))
  else outcomes

/-- The outcomes merged, one after the other. -/
def mergeConversations (conversations : List (List ReviewMessage)) (result : ScanResult)
    (outcomes : JobResults LoopItems) : ScanResult :=
  outcomes.foldl (fun result entry => mergeConversation quotaDetail toLowercase registry reader
    result entry.1 (conversations.getD entry.1 []) entry.2) result

/-- The result of outcomes; the user may have cancelled the scan. -/
def scanOutcomes (conversations : List (List ReviewMessage)) (outcomes : JobResults LoopItems)
    (cancel : Bool) : ScanResult :=
  let first := { emptyResult (conversations.map List.length).sum with
    conversationCount := conversations.length }
  let merged := mergeConversations quotaDetail toLowercase registry reader conversations first
    (withMissing conversations.length outcomes)
  if cancel then { merged with cancelled := true } else merged

/-- How much the analysis of each conversation weighs. -/
def conversationWeights (messages : List ReviewMessage)
    (conversationFilter : Option (Finset ConversationKey)) : List ℕ :=
  (orderedConversations messages conversationFilter).map List.length

/-- The conversations analyzed in a pass, whose end is given. -/
def scanConversationsFiltered (messages : List ReviewMessage)
    (conversationFilter : Option (Finset ConversationKey)) (s : Pass LoopItems) : ScanResult :=
  scanOutcomes quotaDetail toLowercase registry reader
    (orderedConversations messages conversationFilter) s.results s.cancel

end

/-! ### Conversations that were skipped -/

/-- A conversation without obligations counts as analyzed. -/
def coverSkipped (triage : TriageResult) (result : ScanResult)
    (place : List ReviewMessage × ℕ) : ScanResult :=
  let (conversation, index) := place
  match conversation.head? with
  | none => result
  | some first =>
      if first.key ∈ triage.skipped then
        let note := conversationHead index conversation ++ ": no obligations found by triage."
        { result with
          analyzed := result.analyzed + conversation.length
          analyzedConversations := result.analyzedConversations + 1
          conversationNotes := result.conversationNotes ++ [note]
          conversationNotesById := noteById result.conversationNotesById first.key (some note)
          conversationQuality := result.conversationQuality.alter first.key fun _ => (0, 0)
          conversationRejectionReasons :=
            result.conversationRejectionReasons.alter first.key fun _ => [] }
      else result

/-- What is said about the triage. -/
def triageNote (triage : TriageResult) (notes : List String) : String :=
  toString triage.skipped.card ++ " conversations skipped by triage, "
    ++ toString triage.boilerplateDropped ++ " boilerplate paragraphs dropped, "
    ++ toString triage.requestErrors ++ " triage requests skipped (rate limit / errors)."
    ++ (if triage.stopClassError then
      " Triage stopped after a provider error; every conversation continued to the primary pass."
      else "")
    ++ (if triage.skipped.Nonempty ∧ ¬ notes.any fun note => "Rescan".toList <:+: note.toList then
      " Rescan with the decision model off to analyze skipped conversations." else "")

def applyTriageCoverage (result : ScanResult) (messages : List ReviewMessage)
    (conversationFilter : Option (Finset ConversationKey)) (triage : TriageResult)
    (selected : ℕ) : ScanResult :=
  let ordered := conversationsBySize messages conversationFilter
  let covered := ordered.zipIdx.foldl (coverSkipped triage)
    { result with total := selected, conversationCount := ordered.length }
  { covered.note (triageNote triage covered.conversationNotes) with
    cancelled := covered.cancelled || triage.cancelled }

/-- The messages of the selected conversations that the triage has not skipped. -/
def primaryMessages (messages : List ReviewMessage)
    (conversationFilter : Option (Finset ConversationKey)) (triage : TriageResult) :
    List ReviewMessage :=
  (selectedMessages messages conversationFilter).filter fun message =>
    message.key ∉ triage.skipped

end Review
