import Mathlib.Data.Finset.Sort
import OpenLoops.Library.Forest
import OpenLoops.Library.Table
import OpenLoops.Review.Item
import OpenLoops.Review.Rules
import OpenLoops.Review.Subject

/-!
# Joining threads

Exchange splits a thread into several conversations.  Those of one account that share a subject and
a participant, with messages close in time, are joined: all their messages are given the least one
of the ids.
-/

namespace Review

/-- What the messages of a conversation have in common. -/
structure ThreadGroup where
  /-- The provider has threads of its own. -/
  authoritative : Bool
  subjects : Finset (List Char)
  addresses : Finset String
  /-- The places of the messages. -/
  indices : List ℕ
  hasCalendarPrefix : Bool
  hasTeam : Bool

def ThreadGroup.empty : ThreadGroup where
  authoritative := false
  subjects := ∅
  addresses := ∅
  indices := []
  hasCalendarPrefix := false
  hasTeam := false

/-- The number of conversations of each account. -/
abbrev GroupsPerAccount := Table String ℕ

/-- The number of conversations of an account in which an address is found. -/
abbrev AddressGroupCounts := Table (String ×ₗ String) ℕ

/-- An address that is in at least half of the conversations of an account says nothing. -/
def isSharedMailboxAddress (account address : String) (groupsPerAccount : GroupsPerAccount)
    (addressGroupCounts : AddressGroupCounts) : Bool :=
  let total := (groupsPerAccount.get? account).getD 0
  if total < 8 then false
  else
    let count := (addressGroupCounts.get? (toLex (account, address))).getD 0
    3 ≤ count && total ≤ count * 2

/-- Two messages of the groups are close in time. -/
def groupsWithin (a b : ThreadGroup) (messages : List ReviewMessage) (maxGapSeconds : ℤ) : Bool :=
  a.indices.any fun i => b.indices.any fun j =>
    match messages[i]?, messages[j]? with
    | some message, some message' =>
        |message.input.timestamp - message'.input.timestamp| ≤ maxGapSeconds
    | _, _ => false

structure ThreadMergeContext where
  messages : List ReviewMessage
  groupsPerAccount : GroupsPerAccount
  addressGroupCounts : AddressGroupCounts
  maxGapSeconds : ℤ
  rules : Option RuleDecisions

def ruleThreadMerge : String :=
  "rules.thread_merge"

/-- The first one of the messages that are earliest. -/
def earliestMessage : List ReviewMessage → Option ReviewMessage
  | [] => none
  | message :: messages =>
      some (messages.foldl (fun earliest message =>
        if message.input.timestamp < earliest.input.timestamp then message else earliest) message)

/-- The case that a decision model is asked about. -/
def threadMergeState (a b : ThreadGroup) (messages : List ReviewMessage) : Json :=
  let earliest (group : ThreadGroup) := earliestMessage (group.indices.filterMap (messages[·]?))
  let subject (message : Option ReviewMessage) :=
    Json.string ((message.map fun message => message.input.message.subject.asString).getD "")
  let firstParagraph (message : Option ReviewMessage) :=
    Json.string (((message.bind fun message => message.input.message.bodyBlocks.head?).map
      Inference.CanonicalBlock.asString).getD "")
  .object [("subject_a", subject (earliest a)), ("subject_b", subject (earliest b)),
    ("first_paragraph_a", firstParagraph (earliest a)),
    ("first_paragraph_b", firstParagraph (earliest b))]

section

variable (registry : Registry)

/-- The groups are of one thread. -/
def shouldMergeWithRules (account : String) (a b : ThreadGroup) (context : ThreadMergeContext) :
    Bool :=
  if a.authoritative || b.authoritative || a.hasTeam || b.hasTeam || a.hasCalendarPrefix
      || b.hasCalendarPrefix then false
  else
    let subjectsMatch := decide (∃ s ∈ a.subjects ∩ b.subjects, subjectStrongEnough s = true)
    let addressesMatch := decide (∃ address ∈ a.addresses ∩ b.addresses,
      isSharedMailboxAddress account address context.groupsPerAccount
        context.addressGroupCounts = false)
    if a.subjects ∩ b.subjects = ∅ then false
    else if a.addresses ∩ b.addresses = ∅ then false
    else if !groupsWithin a b context.messages context.maxGapSeconds then false
    else (subjectsMatch && addressesMatch) || context.rules.any fun rules =>
      rules.noul registry ruleThreadMerge (threadMergeState a b context.messages)

end

section

variable (T : CharTable) (toLowercase : List Char → List Char)

/-- The message at a place becomes part of its group. -/
def ThreadGroup.add (group : ThreadGroup) (place : ReviewMessage × ℕ) : ThreadGroup :=
  let (message, i) := place
  let subject := normalizeSubject T toLowercase message.rawSubject
  { authoritative := group.authoritative || message.provider ≠ .microsoft
    subjects := if subject = [] then group.subjects else insert subject group.subjects
    addresses := group.addresses ∪ message.otherAddresses.toFinset
    indices := group.indices ++ [i]
    hasCalendarPrefix :=
      group.hasCalendarPrefix || rawSubjectHasCalendarPrefix toLowercase message.rawSubject
    hasTeam := group.hasTeam || message.input.team }

/-- The conversations of the messages. -/
def threadGroups (messages : List ReviewMessage) : Table ConversationKey ThreadGroup :=
  Table.group (fun place => place.1.key) .empty (ThreadGroup.add T toLowercase) messages.zipIdx

def maxGapSeconds : ℤ := 259200

def groupsPerAccount (groups : Table ConversationKey ThreadGroup) : GroupsPerAccount :=
  Table.group (fun key => (ofLex key).1) 0 (fun count _ => count + 1) groups.keys

def addressGroupCounts (groups : Table ConversationKey ThreadGroup) : AddressGroupCounts :=
  Table.group id 0 (fun count _ => count + 1) (groups.rows.flatMap fun row =>
    (row.2.addresses.sort (· ≤ ·)).map fun address => toLex ((ofLex row.1).1, address))

/-- What decides whether groups of the messages are of one thread. -/
def threadMergeContext (messages : List ReviewMessage) (rules : Option RuleDecisions) :
    ThreadMergeContext where
  messages
  groupsPerAccount := groupsPerAccount (threadGroups T toLowercase messages)
  addressGroupCounts := addressGroupCounts (threadGroups T toLowercase messages)
  maxGapSeconds
  rules

variable (registry : Registry)

/-- The groups at these places are of one thread. -/
def rowsMerge (context : ThreadMergeContext) (rows : List (ConversationKey × ThreadGroup))
    (a b : Fin rows.length) : Bool :=
  (ofLex (rows.get a).1).1 = (ofLex (rows.get b).1).1
    && shouldMergeWithRules registry (ofLex (rows.get a).1).1 (rows.get a).2 (rows.get b).2 context

/-- The places of each thread, by its root. -/
def clusters {n : ℕ} (forest : Forest n) : Table (Fin n) (List (Fin n)) :=
  ((List.finRange n).foldl (fun state i =>
    let (root, forest) := state.1.root i
    (forest, state.2.alter root fun members => members.getD [] ++ [i])) (forest, Table.empty)).2

/-- Give the messages at the places this conversation. -/
def rewriteConversation (winner : String) (indices : List ℕ) (messages : List ReviewMessage) :
    List ReviewMessage :=
  indices.foldl (fun messages i => messages.modify i fun message =>
    { message with conversation := winner }) messages

/-- Join the groups of a thread. -/
def mergeCluster (rows : List (ConversationKey × ThreadGroup)) (state : ℕ × List ReviewMessage)
    (members : List (Fin rows.length)) : ℕ × List ReviewMessage :=
  if members.length ≤ 1 then state
  else
    let winner := ((members.map fun i => (ofLex (rows.get i).1).2).min?).getD ""
    (state.1 + (members.length - 1), members.foldl (fun messages i =>
      rewriteConversation winner (rows.get i).2.indices messages) state.2)

def mergeThreadsWithRules (messages : List ReviewMessage) (rules : Option RuleDecisions) :
    ℕ × List ReviewMessage :=
  let rows := (threadGroups T toLowercase messages).rows
  let context := threadMergeContext T toLowercase messages rules
  let forest := Forest.joinWhere (rowsMerge registry context rows)
  (clusters forest).rows.foldl (fun state row => mergeCluster rows state row.2) (0, messages)

/-- Join the threads, and count the groups that were joined to others. -/
def mergeThreads (messages : List ReviewMessage) : ℕ × List ReviewMessage :=
  mergeThreadsWithRules T toLowercase registry messages none

end

end Review
