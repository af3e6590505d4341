import OpenLoops.Desktop.LinkState
import OpenLoops.Review.Item

/-!
# The state of a review

A review holds the mail of the accounts with what is said about their loading, the result of the
last scan with those that were merged into it, and the saved decisions and links of the user.
-/

namespace Review

open Desktop (Decisions Relations LoopKey Record)
open Graph (MailProvider)

structure ReviewState where
  messages : List ReviewMessage
  notices : List String
  analysis : Option LoopItems
  analysisModel : String
  scanSummary : String
  scanErrors : List String
  scanIncomplete : Bool
  sourceFailures : ℕ
  failedSources : List (MailProvider × String)
  failedConversationsDetail : List ConversationFailure
  decisions : Decisions
  relations : Relations
  /-- The secret that the keys of the links are made with. -/
  relationKeys : LoopKey
  actionStatus : String
  actionStatusSucceeded : Bool
  scanFailed : Bool
  sourceNotes : Table String (List String)
  sourceIssueCounts : Table String ℕ
  sourceProviders : Table String MailProvider
  /-- The next number for a handle that was not given out. -/
  nextHandle : ℕ
  conversationQuality : Table ConversationKey (ℕ × ℕ)
  conversationNotesById : Table ConversationKey (List String)
  conversationRejectionReasons : Table ConversationKey (List String)
  closurePassFailure : Option String
  linkedCardTitles : LoopKey → Option String

/-- What the user has decided on a card. -/
structure CardContext where
  record : Record
  terminal : Bool
  closed : Bool

namespace ReviewState

/-- The review before any mail is loaded, with the stores that were opened. -/
def ofStores (decisions : Decisions) (relations : Relations) : ReviewState where
  messages := []
  notices := []
  analysis := none
  analysisModel := ""
  scanSummary := ""
  scanErrors := []
  scanIncomplete := false
  sourceFailures := 0
  failedSources := []
  failedConversationsDetail := []
  decisions
  relations
  relationKeys := decisions.secret
  actionStatus := ""
  actionStatusSucceeded := false
  scanFailed := false
  sourceNotes := .empty
  sourceIssueCounts := .empty
  sourceProviders := .empty
  nextHandle := 0
  conversationQuality := .empty
  conversationNotesById := .empty
  conversationRejectionReasons := .empty
  closurePassFailure := none
  linkedCardTitles := fun _ => none

/-- The message that is known under a handle. -/
def message (s : ReviewState) (handle : String) : Option ReviewMessage :=
  s.messages.find? fun message => message.input.handle = handle

def itemTimestamp (s : ReviewState) (item : LoopItem) : ℤ :=
  ((s.message item.evidence.message).map (·.input.timestamp)).getD 0

section

variable (hmac : LoopKey → Bytes → LoopKey) (toLowercase : List Char → List Char)

/-- The key of the card of an item, when its message is there. -/
def cardKey (s : ReviewState) (item : LoopItem) : Option LoopKey :=
  (s.message item.evidence.message).map fun source =>
    s.decisions.fingerprint hmac toLowercase source.account source.id item.evidence.block
      item.evidence.quote item.actionPhrase

/-- The card of an item. -/
def cardContext (s : ReviewState) (item : LoopItem) : Option CardContext :=
  (s.cardKey hmac toLowercase item).map fun key =>
    let record := s.decisions.get key
    let terminal := record.decision.isTerminal
    { record
      terminal
      closed := terminal || ((item.resolution.isSome || item.eventPassed.isSome)
        && !(record.decision = .mine || record.decision = .watching)) }

/-- The key of the conversation of an item. -/
def threadKeyForItem (s : ReviewState) (item : LoopItem) : Option LoopKey :=
  (s.message item.evidence.message).map fun message =>
    Desktop.threadKey hmac s.relationKeys message.account message.conversation

end

end ReviewState

end Review
