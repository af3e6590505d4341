import OpenLoops.Library.Text
import OpenLoops.Review.Item
import OpenLoops.Review.Threads

/-!
# Looking for closures

For the items that the user owes, later messages may say that they are done, or changed.  The
conversations with such messages are offered to a model, each in a request of its own with the items
that it may bear on and the messages that state them.
-/

namespace Review

/-! ### Candidates -/

section

variable (toLowercase : List Char → List Char)

/-- What stands in the first angle brackets. -/
def angleAddress (label : List Char) : Option (List Char) :=
  match label.dropWhile (· ≠ '<') with
  | [] => none
  | _ :: rest =>
      let inner := rest.takeWhile (· ≠ '>')
      if '>' ∈ rest ∧ inner ≠ [] then some inner else none

/-- The address of a participant, in small letters. -/
def waitingPartyAddress (label : String) : Option String :=
  match angleAddress label.toList with
  | some inner => some (String.ofList (toLowercase inner))
  | none => ((splitWhitespace label.toList).find? ('@' ∈ ·)).map fun token =>
      String.ofList (toLowercase token)

/-- The messages in the order of their times. -/
def inTime (messages : List ReviewMessage) : List ReviewMessage :=
  KeyOrder.sort (fun message => message.input.timestamp) messages

/-- The newest messages, the newest one first. -/
def newestFirst (messages : List ReviewMessage) : List ReviewMessage :=
  KeyOrder.sort (fun message => OrderDual.toDual message.input.timestamp) messages

/-- How many candidates are kept. -/
def maxClosureCandidates : ℕ := 8

/-- Later messages of the user to the waiting party in other conversations of the account: the
newest ones, in order. -/
def closureCandidates (item : LoopItem) (all : List ReviewMessage) (account : String)
    (evidenceConversation : String) (evidenceTimestamp : ℤ) : List ReviewMessage :=
  match waitingPartyAddress toLowercase item.waitingParty with
  | none => []
  | some address =>
      inTime ((newestFirst (all.filter fun message =>
        message.account = account && message.input.fromUser
          && message.conversation ≠ evidenceConversation
          && evidenceTimestamp < message.input.timestamp
          && address ∈ message.otherAddresses)).take maxClosureCandidates)

/-- Later messages of the user in the conversation: the newest ones, in order. -/
def sameThreadClosureCandidates (all : List ReviewMessage) (account : String)
    (evidenceConversation : String) (evidenceTimestamp : ℤ) : List ReviewMessage :=
  inTime ((newestFirst (all.filter fun message =>
    message.account = account && message.conversation = evidenceConversation
      && message.input.fromUser && evidenceTimestamp < message.input.timestamp)).take
    maxClosureCandidates)

/-! ### Offers -/

/-- An item that is offered: its handle, its place and the message that states it. -/
structure OfferedLoop where
  handle : String
  item : ℕ
  source : ReviewMessage

/-- An incremental scan: where the items begin that were there before, and the messages that are
new. -/
structure ClosureScope where
  priorStart : ℕ
  newMessages : Finset String

/-- The message may say something about the item in this scan. -/
def ClosureScope.admits (scope : ClosureScope) (offered : OfferedLoop) (later : ReviewMessage) :
    Bool :=
  offered.item < scope.priorStart || later.input.handle ∈ scope.newMessages

/-- The item is open, and a request or a promise that the user owes. -/
def LoopItem.offerable (item : LoopItem) : Bool :=
  item.resolution.isNone && item.eventPassed.isNone
    && (item.kind = "request" || item.kind = "promise") && item.owner = .you

/-- The message with a handle. -/
def messageOf (messages : List ReviewMessage) (handle : String) : Option ReviewMessage :=
  messages.find? fun message => message.input.handle = handle

/-- The handle of the offer at a place. -/
def loopHandle (place : ℕ) (source : ReviewMessage) (block : ℕ) : String :=
  "loop-" ++ toString (place + 1) ++ "-" ++ source.input.handle ++ "-b" ++ toString block

def offeredLoops (items : List LoopItem) (messages : List ReviewMessage) : List OfferedLoop :=
  (((items.zipIdx.filter fun entry => entry.1.offerable).filterMap fun entry =>
    (messageOf messages entry.1.evidence.message).map fun source => (entry.2, entry.1, source)).zipIdx).map
      fun entry =>
        { handle := loopHandle entry.2 entry.1.2.2 entry.1.2.1.evidence.block
          item := entry.1.1
          source := entry.1.2.2 }

/-! ### Conversations -/

/-- The addresses of each conversation. -/
def conversationGroups (messages : List ReviewMessage) : Table ConversationKey (Finset String) :=
  Table.group ReviewMessage.key ∅
    (fun addresses message => addresses ∪ message.otherAddresses.toFinset) messages

def conversationGroupAddressCounts (messages : List ReviewMessage) :
    GroupsPerAccount × AddressGroupCounts :=
  let groups := conversationGroups messages
  (Table.group (fun key => (ofLex key).1) 0 (fun count _ => count + 1) groups.keys,
    Table.group id 0 (fun count _ => count + 1) (groups.rows.flatMap fun row =>
      (row.2.sort (· ≤ ·)).map fun address => toLex ((ofLex row.1).1, address)))

/-- The conversations of the account in which there may be something about the offered item. -/
def reachedConversations (offered : OfferedLoop) (item : LoopItem) (messages : List ReviewMessage)
    (counts : GroupsPerAccount × AddressGroupCounts) : Finset String :=
  let source := offered.source
  let own : Finset String :=
    if (sameThreadClosureCandidates messages source.account source.conversation
      source.input.timestamp).isEmpty then ∅ else {source.conversation}
  match waitingPartyAddress toLowercase item.waitingParty with
  | some address =>
      if isSharedMailboxAddress source.account address counts.1 counts.2 then own
      else own ∪ ((closureCandidates toLowercase item messages source.account source.conversation
        source.input.timestamp).map (·.conversation)).toFinset
  | none => own

/-- For each conversation, the places of the offers that it may bear on. -/
def loopsByConversation (loops : List OfferedLoop) (items : List LoopItem)
    (messages : List ReviewMessage) (scope : Option ClosureScope) :
    Table ConversationKey (List ℕ) :=
  let counts := conversationGroupAddressCounts messages
  let newConversations : Finset ConversationKey :=
    match scope with
    | some scope => ((messages.filter fun message =>
        message.input.handle ∈ scope.newMessages).map ReviewMessage.key).toFinset
    | none => ∅
  loops.zipIdx.foldl (fun reach entry =>
    match items[entry.1.item]? with
    | some item =>
        ((reachedConversations toLowercase entry.1 item messages counts).sort (· ≤ ·)).foldl
          (fun reach conversation =>
            let key : ConversationKey := toLex (entry.1.source.account, conversation)
            if scope.any fun scope => scope.priorStart ≤ entry.1.item && key ∉ newConversations then
              reach
            else reach.alter key fun places => places.getD [] ++ [entry.2]) reach
    | none => reach) .empty

end

/-! ### Requests -/

/-- How many conversations are offered in a scan. -/
def maxClosureConversations : ℕ := 40

/-- How many items a request names. -/
def maxLoopHandles : ℕ := 8

/-- How many messages a request has. -/
def maxRequestMessages : ℕ := 40

/-- A conversation, and the places of the offers that it may bear on. -/
structure ClosureJob where
  conversation : List ReviewMessage
  loops : List ℕ

/-- The jobs, those with most offers first, and whether there are too many. -/
def closureJobs (reach : Table ConversationKey (List ℕ)) (messages : List ReviewMessage) :
    List ClosureJob × Bool :=
  let ranked := KeyOrder.sort (fun row => OrderDual.toDual row.2.length) reach.rows
  ((ranked.take maxClosureConversations).map fun row =>
    { conversation := inTime (messages.filter fun message => message.key = row.1)
      loops := row.2.take maxLoopHandles },
    maxClosureConversations < ranked.length)

/-- What is sent of a job: the messages and the handles of the offers. -/
structure ClosureRequest where
  inputs : List ConversationMessage
  handles : List String

/-- The offers of a job. -/
def ClosureJob.named (job : ClosureJob) (offered : List OfferedLoop) : List OfferedLoop :=
  job.loops.filterMap (offered[·]?)

/-- The messages that state the offers, unless they are there already. -/
def closureExtras (conversation : List ReviewMessage) (loops : List OfferedLoop) :
    List ReviewMessage :=
  loops.foldl (fun extras loop =>
    if (conversation ++ extras).any fun message =>
      message.input.handle = loop.source.input.handle then extras
    else extras ++ [loop.source]) []

def closureRequest (job : ClosureJob) (offered : List OfferedLoop) : ClosureRequest :=
  let loops := job.named offered
  let extras := closureExtras job.conversation loops
  let keep := maxRequestMessages - extras.length
  let skip := job.conversation.length - keep
  { inputs := KeyOrder.sort (fun message => message.timestamp)
      ((job.conversation.drop skip ++ extras).map (·.input))
    handles := loops.map (·.handle) }

end Review
