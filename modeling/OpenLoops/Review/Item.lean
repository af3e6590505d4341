import Mathlib.Data.Prod.Lex
import Mathlib.Data.String.Basic
import OpenLoops.Graph.Session
import OpenLoops.Inference.Projection
import OpenLoops.Library.Table

/-!
# Messages and items of a review

A review holds the messages of the accounts, each with the conversation that it belongs to and the
handle under which the models know it.  An item is an obligation that a scan has found, anchored to
the block of a message that states it.  The result of a scan holds its items, what is said about
each conversation, and how many of them were analyzed.
-/

namespace Review

/-! ### Messages -/

open Inference

/-- How the user appears among the recipients of a message. -/
inductive UserRecipient where
  | notAddressed
  | «to»
  | cc
deriving DecidableEq

/-- A message as it is supplied to an analysis. -/
structure ConversationMessage where
  handle : String
  message : CanonicalMessage
  timestamp : ℤ
  fromUser : Bool
  recipient : UserRecipient
  ownAddresses : List String
  userDisplayName : Option String
  userGivenName : Option String
  team : Bool

namespace ConversationMessage

/-- The user is a recipient in the first line of this message. -/
def toUser (message : ConversationMessage) : Bool :=
  message.recipient = .«to»

/-- The user is only among those who receive a copy. -/
def ccUser (message : ConversationMessage) : Bool :=
  message.recipient = .cc

end ConversationMessage

structure ReviewMessage where
  provider : Graph.MailProvider
  input : ConversationMessage
  source : String
  id : String
  account : String
  conversation : String
  dateLabel : String
  webLink : String
  ownAddresses : List String
  ownDisplayName : Option String
  ownGivenName : Option String
  /-- The addresses of the others, in small letters. -/
  otherAddresses : List String
  /-- The start and the end of an event, and whether they are out of date. -/
  event : Option (ℤ × ℤ × Bool)

/-- A conversation of an account; those of one account are neighbours. -/
abbrev ConversationKey := String ×ₗ String

namespace ReviewMessage

/-- The conversation that the message belongs to. -/
def key (message : ReviewMessage) : ConversationKey :=
  toLex (message.account, message.conversation)

/-- The subject as it stands. -/
def rawSubject (message : ReviewMessage) : List Char :=
  message.input.message.subject.scalars

end ReviewMessage

/-- Who is to act. -/
inductive Owner where
  | you
  | team
  | unclear
deriving DecidableEq

inductive ResolutionKind where
  | completed
  | declined
  | withdrawn
  | superseded
  | agreed
deriving DecidableEq

/-- A block of a message. -/
structure Anchor where
  message : String
  block : ℕ
  quote : String
  context : String
deriving DecidableEq

structure EventPassed where
  name : String
  «end» : ℤ
  messageHandle : String
  fromSubject : Bool
  expired : Bool
deriving DecidableEq

inductive SuggestedUpdateKind where
  | closure
  | deadlineChange
  | declined
  | delegated
  | modification
deriving DecidableEq

/-- What a later message makes of an obligation, for the user to decide on. -/
structure SuggestedUpdate where
  kind : SuggestedUpdateKind
  handoffText : Option String
  sourceUnit : String
  evidenceText : String
  sourceMessage : String
  sourceBlock : ℕ
  temporalValue : Option String
  confidenceMicros : UInt32
deriving DecidableEq

inductive DeadlineKindHint where
  | eventTied
  | soft
  | unknown
deriving DecidableEq

inductive MentionOrigin where
  | restated
  | ownerLink
  | duplicate
  | amended
  | rescheduled
deriving DecidableEq

/-- Another place where the obligation is stated. -/
structure Mention where
  message : String
  block : ℕ
  quote : String
  timestamp : ℤ
  origin : MentionOrigin
deriving DecidableEq

structure LoopItem where
  action : String
  actionPhrase : String
  owner : Owner
  waitingParty : String
  kind : String
  evidence : Anchor
  deadline : Option Anchor
  deadlineKindHint : Option DeadlineKindHint
  event : Option Anchor
  eventTime : Option Anchor
  resolution : Option Anchor
  resolutionKind : Option ResolutionKind
  uncertainty : String
  unverifiedDeadline : Bool
  unverifiedResolution : Bool
  crossThread : Bool
  eventPassed : Option EventPassed
  suggestedUpdate : Option SuggestedUpdate
  handoffText : Option String
  fromCallSummary : Bool
  meetingTime : Option ℤ
  meetingTimeApprox : Bool
  mentions : List Mention
deriving DecidableEq

structure LoopItems where
  items : List LoopItem
  rejected : ℕ
  rejectionReasons : List String
  degraded : ℕ
deriving DecidableEq

/-! ### Results of scans -/

/-- A suggestion for an item that was there before the scan. -/
structure PriorUpdate where
  message : String
  block : ℕ
  actionPhrase : String
  update : SuggestedUpdate
deriving DecidableEq

inductive FailureReason where
  | timeout
  | rateLimited
  | transport
  | quota
  | provider (text : String)
  | panicked
  | notStarted
deriving DecidableEq

structure ConversationFailure where
  account : String
  conversation : String
  subjectShort : String
  reason : FailureReason
deriving DecidableEq

structure ScanResult where
  analysis : LoopItems
  priorUpdates : List PriorUpdate
  failures : List String
  failedConversationsDetail : List ConversationFailure
  analyzed : ℕ
  total : ℕ
  cancelled : Bool
  conversationNotes : List String
  /-- What was rejected and degraded of each analyzed conversation. -/
  conversationQuality : Table ConversationKey (ℕ × ℕ)
  conversationNotesById : Table ConversationKey (List String)
  conversationRejectionReasons : Table ConversationKey (List String)
  suggestedUpdates : ℕ
  eventClosures : ℕ
  primaryScanTransportError : Bool
  conversationCount : ℕ
  analyzedConversations : ℕ
  failedConversations : ℕ
  notStartedConversations : ℕ
  closurePassFailure : Option String

namespace ScanResult

/-- The result with other items. -/
def withItems (result : ScanResult) (items : List LoopItem) : ScanResult :=
  { result with analysis := { result.analysis with items } }

/-- The result with one more note. -/
def note (result : ScanResult) (text : String) : ScanResult :=
  { result with conversationNotes := result.conversationNotes ++ [text] }

/-- The number of items that carry a suggestion. -/
def suggestions (result : ScanResult) : ℕ :=
  result.analysis.items.countP fun item => item.suggestedUpdate.isSome

/-- The number of suggestions is counted right. -/
def Counted (result : ScanResult) : Prop :=
  result.suggestedUpdates = result.suggestions

end ScanResult

/-! ### Keys and texts -/

instance lawfulBEq_conversationKey : LawfulBEq (Lex (String × String)) :=
  inferInstance

instance isTrans_addresses : IsTrans String fun a b => a ≤ b :=
  inferInstance

instance antisymm_addresses : Std.Antisymm fun a b : String => a ≤ b :=
  inferInstance

theorem length_shortSubject :
  ['A'].length ≤ maxScalarsPerBlock
  := by decide

theorem length_shortBlock :
  ['S', 'e', 'n', 'd', ' ', 'i', 't', '.'].length ≤ maxScalarsPerBlock
  := by decide

end Review
