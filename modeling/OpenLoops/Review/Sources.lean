import Mathlib.Data.Finset.Sort
import OpenLoops.Graph.Hydration
import OpenLoops.Review.Recap
import OpenLoops.Review.State
import OpenLoops.Review.Threads

/-!
# Mail that is added to a review

Sources of mail are appended to the mail that a review holds: messages that it has are passed over,
the others are given handles.  Then the threads are merged, which may give old messages other
conversations.  All the mail of a provider can be removed.
-/

namespace Review

open Graph (ConnectionError MailItem MailProvider SourceReview)
open Inference (CanonicalMessage)

/-! ### Preparing -/

/-- What is read of the text and the times of a message. -/
structure MailText where
  message : CanonicalMessage
  timestamp : ℤ
  dateLabel : String
  event : Option (ℤ × ℤ × Bool)

/-- How messages are read, which may be refused. -/
abbrev MailReader :=
  MailItem → Except ConnectionError MailText

/-- The address is one of the user's own. -/
def isOwnAddress (item : MailItem) (address : String) : Bool :=
  item.ownAddresses.any fun own => eqIgnoreAsciiCase address.toList own.toList

def userRecipient (item : MailItem) : UserRecipient :=
  if item.«to».any (isOwnAddress item) then .«to»
  else if item.cc.any (isOwnAddress item) then .cc
  else .notAddressed

/-- The handle with a number. -/
def messageHandle (index : ℕ) : String :=
  "m" ++ Nat.repr index

section

variable (toLowercase : List Char → List Char) (read : MailReader)

def lowercase (text : String) : String :=
  String.ofList (toLowercase text.toList)

/-- The addresses of the others, in small letters. -/
def otherAddresses (item : MailItem) : List String :=
  let sender := if item.senderAddress = "" then [] else [item.senderAddress]
  ((((sender ++ item.«to» ++ item.cc).map (lowercase toLowercase)).toFinset
    \ (item.ownAddresses.map (lowercase toLowercase)).toFinset)).sort

/-- The message as it is reviewed, under the handle with the number. -/
def prepare (item : MailItem) (source : String) (index : ℕ) :
    Except ConnectionError ReviewMessage :=
  (read item).map fun text =>
    { provider := item.provider
      input :=
        { handle := messageHandle index
          message := text.message
          timestamp := text.timestamp
          fromUser := isOwnAddress item item.senderAddress
          recipient := userRecipient item
          ownAddresses := item.ownAddresses
          userDisplayName := item.ownDisplayName
          userGivenName := item.ownGivenName
          team := item.team }
      source
      id := item.id
      account := item.account
      conversation := item.conversation
      dateLabel := text.dateLabel
      webLink := item.webLink
      ownAddresses := item.ownAddresses
      ownDisplayName := item.ownDisplayName
      ownGivenName := item.ownGivenName
      otherAddresses := otherAddresses toLowercase item
      event := text.event }

/-! ### Appending -/

/-- The mail while the messages of a source are appended. -/
structure Appending where
  messages : List ReviewMessage
  nextHandle : ℕ
  appendedHandles : List String
  refused : List ConnectionError

/-- A message is passed over when it is there, and given the next handle when it is not. -/
def appendMessage (label : String) (s : Appending) (item : MailItem) : Appending :=
  if s.messages.any fun message => message.account = item.account && message.id = item.id then s
  else
    let index := max s.nextHandle s.messages.length
    match prepare toLowercase read item label index with
    | .ok message => { s with
        messages := s.messages ++ [message]
        nextHandle := index + 1
        appendedHandles := s.appendedHandles ++ [message.input.handle] }
    | .error error => { s with refused := s.refused ++ [error] }

/-- How often each error says so. -/
def reasonCounts (errors : List ConnectionError) : Table String ℕ :=
  Table.group ConnectionError.text 0 (fun count _ => count + 1) errors

/-- The lines on the errors of messages. -/
def reasonNotes (label what : String) (errors : List ConnectionError) : List String :=
  (reasonCounts errors).rows.map fun (reason, count) =>
    label ++ ": " ++ toString count ++ " message(s) " ++ what ++ " ("
      ++ String.ofList (trimEndMatches (· = '.') reason.toList) ++ ")."

/-- What is said of a source. -/
def sourceNotesFor (source : SourceReview) (total priorCount : ℕ)
    (preparedNotes messageNotes : List String) : List String :=
  preparedNotes
    ++ [source.label ++ ": " ++ toString total ++ " messages"
      ++ (if 0 < priorCount then "; " ++ toString (total - priorCount) ++ " new" else "")
      ++ (if source.partialListing then "; coverage capped, more mail exists" else "")
      ++ (if source.messageErrors.isEmpty then ""
        else "; " ++ toString source.messageErrors.length ++ " message(s) could not be loaded")]
    ++ source.errors.map (fun error => source.label ++ ": " ++ error.text)
    ++ messageNotes

/-- The set with one more entry. -/
def insertEntry {α : Type*} [DecidableEq α] (entries : List α) (entry : α) : List α :=
  if entry ∈ entries then entries else entries ++ [entry]

/-- The set without an entry. -/
def removeEntry {α : Type*} [DecidableEq α] (entries : List α) (entry : α) : List α :=
  entries.filter (· ≠ entry)

namespace ReviewState

/-- How many messages there are of a source. -/
def messagesOf (s : ReviewState) (label : String) : ℕ :=
  s.messages.countP (·.source = label)

/-- The messages of a source appended. -/
def appending (s : ReviewState) (source : SourceReview) : Appending :=
  source.messages.foldl (appendMessage toLowercase read source.label)
    ⟨s.messages, s.nextHandle, [], []⟩

/-- The source is noted with what became of its messages. -/
def noteSource (s : ReviewState) (source : SourceReview) (appended : Appending) : ReviewState :=
  let key := (source.provider, source.label)
  let priorCount := s.messagesOf source.label
  let total := appended.messages.countP (·.source = source.label)
  let notes := sourceNotesFor source total priorCount
    (reasonNotes source.label "skipped during preparation" appended.refused)
    (reasonNotes source.label "could not be loaded" source.messageErrors)
  let issueCount := (if source.partialListing then 1 else 0) + source.errors.length
    + source.messageErrors.length + appended.refused.length
  { s with
    messages := appended.messages
    nextHandle := appended.nextHandle
    failedSources := if source.failed then insertEntry s.failedSources key
      else removeEntry s.failedSources key
    sourceProviders := s.sourceProviders.alter source.label fun _ => source.provider
    sourceNotes := s.sourceNotes.alter source.label fun _ => notes
    sourceIssueCounts := s.sourceIssueCounts.alter source.label fun _ => issueCount }

/-- A source is added, with the handles that were given so far. -/
def addSource (state : ReviewState × List String) (source : SourceReview) :
    ReviewState × List String :=
  let appended := state.1.appending toLowercase read source
  (state.1.noteSource source appended, state.2 ++ appended.appendedHandles)

/-- The conversations by the handles of their messages. -/
def conversationsByHandle (s : ReviewState) : Table String ConversationKey :=
  Table.group (·.input.handle) (toLex ("", "")) (fun _ message => message.key) s.messages

/-- All that is said of the sources. -/
def allSourceNotes (s : ReviewState) : List String :=
  s.sourceNotes.rows.flatMap Prod.snd

def totalIssueCount (s : ReviewState) : ℕ :=
  (s.sourceIssueCounts.rows.map Prod.snd).sum

variable (T : CharTable) (registry : Registry)

/-- The threads merged, and the messages in the order of their times. -/
def mergedMessages (s : ReviewState) : ReviewState :=
  let (merged, messages) := mergeThreads T toLowercase registry s.messages
  { s with
    messages := KeyOrder.sort (·.input.timestamp) messages
    notices := s.allSourceNotes ++ if 0 < merged then
      [toString merged ++ " conversation identities were merged by subject and participants."]
      else []
    sourceFailures := s.totalIssueCount }

/-- The sources are appended.  The conversations are those with messages that are new, and those
that messages were moved to. -/
def appendSources (s : ReviewState) (sources : List SourceReview) :
    Finset ConversationKey × ReviewState :=
  let added := sources.foldl (addSource toLowercase read) (s, [])
  let merged := added.1.mergedMessages toLowercase T registry
  let changed := merged.messages.filter fun message =>
    message.input.handle ∈ added.2
      || (s.conversationsByHandle.get? message.input.handle).any (· ≠ message.key)
  ((changed.map ReviewMessage.key).toFinset, merged)

/-- The review of mail that was loaded. -/
def loaded (empty : ReviewState) (sources : List SourceReview) : ReviewState :=
  (empty.appendSources toLowercase read T registry sources).2

/-- The review without what is said of the sources. -/
def withoutSources (s : ReviewState) (sourceKeys : List (MailProvider × String)) : ReviewState :=
  let labels := sourceKeys.map Prod.snd
  { s with
    failedSources := s.failedSources.filter (· ∉ sourceKeys)
    sourceNotes := s.sourceNotes.filter (· ∉ labels)
    sourceIssueCounts := s.sourceIssueCounts.filter (· ∉ labels) }

def replaceSources (s : ReviewState) (sourceKeys : List (MailProvider × String))
    (sources : List SourceReview) : Finset ConversationKey × ReviewState :=
  (s.withoutSources sourceKeys).appendSources toLowercase read T registry sources

end ReviewState

end

/-! ### Removing -/

/-- The conversation that has failed. -/
def ConversationFailure.key (failure : ConversationFailure) : ConversationKey :=
  toLex (failure.account, failure.conversation)

namespace ReviewState

/-- The conversations of the messages. -/
def liveConversations (s : ReviewState) : Finset ConversationKey :=
  (s.messages.map ReviewMessage.key).toFinset

/-- The review without the messages of a provider. -/
def withoutMessages (s : ReviewState) (provider : MailProvider) : ReviewState :=
  let removed := (s.messages.filter fun message => message.provider = provider).map (·.input.handle)
  let labels := (s.sourceProviders.rows.filter fun row => row.2 = provider).map Prod.fst
  { s with
    messages := s.messages.filter fun message => message.provider ≠ provider
    analysis := s.analysis.map fun analysis => { analysis with
      items := analysis.items.filter fun item => item.evidence.message ∉ removed }
    failedSources := s.failedSources.filter fun source => source.1 ≠ provider
    sourceProviders := s.sourceProviders.filter (· ∉ labels)
    sourceNotes := s.sourceNotes.filter (· ∉ labels)
    sourceIssueCounts := s.sourceIssueCounts.filter (· ∉ labels) }

/-- What is known of conversations, for those that are there. -/
def withLiveMetadata (s : ReviewState) : ReviewState :=
  { s with
    conversationQuality := s.conversationQuality.filter (· ∈ s.liveConversations)
    conversationNotesById := s.conversationNotesById.filter (· ∈ s.liveConversations)
    conversationRejectionReasons :=
      s.conversationRejectionReasons.filter (· ∈ s.liveConversations) }

/-- The mail of a provider is removed, with its cards and what is said of its sources. -/
def removeProvider (s : ReviewState) (provider : MailProvider) : ReviewState :=
  let s := (s.withoutMessages provider).withLiveMetadata
  let failures := s.failedConversationsDetail.filter (·.key ∈ s.liveConversations)
  { s with
    failedConversationsDetail := failures
    notices := s.allSourceNotes
    sourceFailures := s.totalIssueCount
    scanSummary := provider.serviceName
      ++ " mail removed from this review. Scan inboxes to refresh the counts."
    scanErrors := []
    scanIncomplete := 0 < s.totalIssueCount || !failures.isEmpty }

end ReviewState

end Review
