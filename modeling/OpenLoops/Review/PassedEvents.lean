import Mathlib.Data.List.MinMax
import OpenLoops.Review.DeadlineView
import OpenLoops.Review.Rules
import OpenLoops.Review.Subject

/-!
# Events that have passed

An obligation that is bound to an event is closed when the event is over.  The events are learned
from the messages, and an item is matched to one of them by its name, by the time that is stated for
it, by the message that it comes from, or by its own words.
-/

namespace Review

/-! ### The index of events -/

/-- How an event was learned. -/
inductive EventSource where
  | meeting
  | subject
  | subjectProse
  | prose
deriving DecidableEq

structure EventRef where
  name : String
  start : ℤ
  «end» : ℤ
  conversation : String
  messageHandle : String
  source : EventSource
deriving DecidableEq

/-- How events are read from messages: the time in a subject, the event that the prose of a subject
or a body states, and the offset of the local time at an instant. -/
structure EventReader where
  subjectTime : String → ℤ → Option (ℤ × ℤ)
  prose : ReviewMessage → Option (String × ℤ × ℤ × EventSource)
  localOffset : ℤ → ℤ

def stripLeadingPossessive (name : List Char) : List Char :=
  match ["your ", "my ", "our "].find? fun start => start.toList.isPrefixOf name with
  | some start => name.drop start.length
  | none => name

/-- The name says which event it is. -/
def isSpecificEventName (name : List Char) : Bool :=
  2 ≤ (splitWhitespace name).length

section

variable (T : CharTable) (toLowercase : List Char → List Char) (registry : Registry)
  (reader : EventReader)

/-- The name of the event that is the subject of a message. -/
def subjectEventName (message : ReviewMessage) : List Char :=
  stripLeadingPossessive (normalizeSubject T toLowercase message.rawSubject)

/-- The event that a message tells of. -/
def learnOneEvent (message : ReviewMessage) (rules : Option RuleDecisions) :
    Option (String × ℤ × ℤ × EventSource) :=
  let name := subjectEventName T toLowercase message
  if isMeetingRecapArtifactWithRules toLowercase registry message rules then none
  else match message.event with
    | some (start, «end», outOfDate) =>
        if outOfDate || !isSpecificEventName name then none
        else some (String.ofList name, start, «end», .meeting)
    | none =>
        match reader.subjectTime message.input.message.subject.asString message.input.timestamp with
        | some (start, «end») =>
            if isSpecificEventName name then some (String.ofList name, start, «end», .subject)
            else none
        | none => reader.prose message

/-- The event of a conversation with one that was learned: the later one counts. -/
def laterEvent (message : ReviewMessage) (name : String) (start «end» : ℤ) (source : EventSource) :
    Option EventRef → EventRef
  | none => ⟨name, start, «end», message.conversation, message.input.handle, source⟩
  | some event =>
      if event.start < start then
        ⟨event.name, start, «end», event.conversation, message.input.handle, source⟩
      else event

/-- The events of the messages, by conversation and name. -/
def buildEventIndex (messages : List ReviewMessage) (rules : Option RuleDecisions) :
    List EventRef :=
  (messages.foldl (fun (best : Table (String ×ₗ String) EventRef) message =>
    match learnOneEvent T toLowercase registry reader message rules with
    | none => best
    | some (name, start, «end», source) =>
        if isSpecificEventName name.toList then
          best.alter (toLex (message.conversation, name))
            (laterEvent message name start «end» source)
        else best) .empty).rows.map Prod.snd

end

/-! ### Matching -/

def eventMatchStopWords : List String :=
  ["the", "our", "a", "an", "this", "that", "with", "for", "of", "on", "at", "and", "before",
    "prior", "ahead", "after", "to", "by", "in", "during", "next", "upcoming", "my", "your",
    "coming"]

def ruleEventMatch : String :=
  "rules.event_match"

def ruleScopedEvent : String :=
  "rules.scoped_event"

def eventMatchState (phrase eventName : String) : Json :=
  .object [("phrase", .string phrase), ("event_name", .string eventName)]

def scopedEventState (item : LoopItem) : Json :=
  .object [("request_text", .string (item.action ++ " " ++ item.evidence.quote))]

/-- How long before an event it is named. -/
def eventHorizon : ℤ := 60 * 86400

section

variable (T : CharTable) (toLowercase : List Char → List Char)

/-- The words of a text in small letters. -/
def eventWords (text : String) : List String :=
  (((toLowercase text.toList).splitOnP fun c => !T.isAlphanumeric c).filter
    fun word => !word.isEmpty).map String.ofList

/-- The words that tell events apart; a name without such words has all of its words. -/
def meaningfulEventTokens (text : String) : Finset String :=
  let raw := (eventWords T toLowercase text).toFinset
  let filtered := raw.filter fun token =>
    token ∉ eventMatchStopWords ∧ token ∉ eventGenericNouns
  if filtered = ∅ then raw else filtered

/-- Times come before messages in the order of events. -/
abbrev eventOrder : LinearOrder (ℤ ×ₗ String) :=
  inferInstance

/-- The first of the events that start soonest after the evidence, by the message they come from. -/
def soonest (evidenceTimestamp : ℤ) (events : List EventRef) : Option EventRef :=
  @List.argmin _ _ eventOrder.toPreorder eventOrder.toDecidableLT
    (fun event => toLex (event.start - evidenceTimestamp, event.messageHandle)) events

/-- The event starts in time after the evidence. -/
def EventRef.near (event : EventRef) (evidenceTimestamp : ℤ) : Bool :=
  evidenceTimestamp ≤ event.start && event.start - evidenceTimestamp ≤ eventHorizon

variable (registry : Registry)

/-- The event that a phrase names. -/
def matchEventWithRules (phrase : String) (evidenceTimestamp : ℤ) (index : List EventRef)
    (rules : Option RuleDecisions) : Option EventRef :=
  let phraseTokens := meaningfulEventTokens T toLowercase phrase
  if phraseTokens = ∅ then none
  else soonest evidenceTimestamp ((index.filter (·.near evidenceTimestamp)).filter fun event =>
    let nameTokens := meaningfulEventTokens T toLowercase event.name
    let shared := (phraseTokens ∩ nameTokens).card
    shared ≠ 0 && (nameTokens.card < 2 || 2 ≤ shared || phraseTokens ⊆ nameTokens
      || rules.any fun rules =>
        rules.noul registry ruleEventMatch (eventMatchState phrase event.name)))

/-- The event that a text is about, though it does not name one. -/
def matchEventByTextWithRules (phrase : String) (evidenceTimestamp : ℤ) (index : List EventRef)
    (rules : Option RuleDecisions) : Option EventRef :=
  let phraseTokens := meaningfulEventTokens T toLowercase phrase
  if phraseTokens = ∅ then none
  else soonest evidenceTimestamp (((index.filter fun event =>
    event.source = .meeting || event.source = .subject).filter (·.near evidenceTimestamp)).filter
    fun event =>
      let nameTokens := meaningfulEventTokens T toLowercase event.name
      let shared := (phraseTokens ∩ nameTokens).card
      2 ≤ nameTokens.card && (2 ≤ shared || (0 < shared && rules.any fun rules =>
        rules.noul registry ruleEventMatch (eventMatchState phrase event.name))))

def eventNounFollowers : List String :=
  ["notes", "minutes", "recording", "summary", "agenda", "invite", "link"]

/-- The words of a request connect it to a gathering. -/
def scopedEventWords : List String → Bool
  | [] => false
  | word :: words =>
      word ∈ ["arrive", "arriving", "attend", "attending", "bring"]
        || (word ∈ eventGenericNouns && words.head?.all (· ∉ eventNounFollowers))
        || scopedEventWords words

def hasScopedEventLanguageWithRules (item : LoopItem) (rules : Option RuleDecisions) : Bool :=
  [item.action, item.evidence.quote].any (fun text => scopedEventWords (eventWords T toLowercase text))
    || rules.any fun rules => rules.noul registry ruleScopedEvent (scopedEventState item)

end

/-! ### Deadlines of items -/

section

variable (reader : EventReader)

/-- How the deadline of an item reads in a message. -/
def deadlineViewAt (message : ReviewMessage) (deadline : Anchor) (hint : Option DeadlineKindHint)
    (now : ℤ) : DeadlineView :=
  classifyWithHint deadline.quote message.input.timestamp now
    (reader.localOffset message.input.timestamp) hint

/-- The phrase with which the item names an event. -/
def namedEventPhrase (item : LoopItem) (source : ReviewMessage) (now : ℤ) : Option String :=
  match item.event with
  | some event => some event.quote
  | none => (item.deadline.filter fun deadline =>
      deadlineViewAt reader source deadline item.deadlineKindHint now = .eventTied).map (·.quote)

/-- The deadline of the item is tied to an event. -/
def eventTiedDeadline (item : LoopItem) (source : ReviewMessage) (now : ℤ) : Bool :=
  item.deadline.any fun deadline =>
    deadlineViewAt reader source deadline item.deadlineKindHint now = .eventTied

variable (messages : List ReviewMessage) (now : ℤ)

def deadlineBoundary (item : LoopItem) : Option ℤ := do
  let deadline ← item.deadline
  let message ← messageOf messages deadline.message
  (deadlineViewAt reader message deadline item.deadlineKindHint now).boundary

def localDay (timestamp offsetSeconds : ℤ) : ℤ :=
  (timestamp + offsetSeconds) / 86400

/-- The deadline is at the end of the event or on its day. -/
def DeadlineView.isAt (eventEnd offset : ℤ) : DeadlineView → Bool
  | pastDue boundary offsetSeconds | due boundary offsetSeconds =>
      boundary = eventEnd || localDay boundary offsetSeconds = localDay eventEnd offsetSeconds
  | dueDate day boundary _ | dueBusinessDay day boundary _ =>
      boundary = eventEnd || day = localDay eventEnd offset
  | dueRange _ endDay boundary _ => boundary = eventEnd || endDay = localDay eventEnd offset
  | eventTied | soft | unknown => false

/-- The deadline of the item is the time of the event. -/
def deadlineIsEventTime (item : LoopItem) (eventEnd : ℤ) : Bool :=
  match item.deadline, item.eventTime with
  | some deadline, some eventTime =>
      eqIgnoreAsciiCase (trim deadline.quote.toList) (trim eventTime.quote.toList)
        || (messageOf messages deadline.message).any fun message =>
          (deadlineViewAt reader message deadline item.deadlineKindHint now).isAt eventEnd
            (reader.localOffset message.input.timestamp)
  | _, _ => false

/-- The item names an event and its time, which is not its deadline. -/
def rule3Applies (item : LoopItem) (eventEnd : ℤ) : Bool :=
  item.event.isSome && item.eventTime.isSome
    && !deadlineIsEventTime reader messages now item eventEnd

end

/-! ### Local times in writing -/

/-- The year, the month and the day that many days after the epoch. -/
def civilOfDays (days : ℤ) : ℤ × ℤ × ℤ :=
  let shifted := days + 719468
  let era := shifted / 146097
  let dayOfEra := shifted % 146097
  let yearOfEra :=
    (dayOfEra - dayOfEra / 1460 + dayOfEra / 36524 - dayOfEra / 146096) / 365
  let dayOfYear := dayOfEra - (365 * yearOfEra + yearOfEra / 4 - yearOfEra / 100)
  let month := (5 * dayOfYear + 2) / 153
  let day := dayOfYear - (153 * month + 2) / 5 + 1
  if month < 10 then (yearOfEra + era * 400, month + 3, day)
  else (yearOfEra + era * 400 + 1, month - 9, day)

/-- A number with zeros before it. -/
def padded (width : ℕ) (n : ℕ) : String :=
  String.ofList (List.leftpad width '0' (Nat.repr n).toList)

/-- A year beyond those of four digits has a sign. -/
def formatYear (year : ℤ) : String :=
  if 0 ≤ year ∧ year ≤ 9999 then padded 4 year.toNat
  else (if year < 0 then "-" else "+") ++ padded 4 year.natAbs

/-- How an instant is written in local time to the minute, when the calendar has it. -/
def formatLocalMinute (instant offset : ℤ) : Option String :=
  if 86400 ≤ offset.natAbs ∨ instant < -8334601228800 ∨ 8210266876799 < instant then none
  else
    let seconds := instant + offset
    let (year, month, day) := civilOfDays (seconds / 86400)
    let minutes := seconds % 86400 / 60
    some (formatYear year ++ "-" ++ padded 2 month.toNat ++ "-" ++ padded 2 day.toNat ++ "T"
      ++ padded 2 (minutes / 60).toNat ++ ":" ++ padded 2 (minutes % 60).toNat)

example : formatLocalMinute 1771513200 (-18000) = some "2026-02-19T10:00" := by decide

/-! ### Closing -/

/-- What is noted of an item for the coverage of the index. -/
inductive EventMark where
  | named
  | timed
  | matched
  | matchedByText
  | scoped
  | closedFromIndex
  | closedFromStatedTime
deriving DecidableEq

def EventMark.isClosure : EventMark → Bool
  | closedFromIndex | closedFromStatedTime => true
  | _ => false

def LoopItem.passed (item : LoopItem) (eventPassed : EventPassed) : LoopItem :=
  { item with eventPassed := some eventPassed }

section

variable (T : CharTable) (toLowercase : List Char → List Char) (registry : Registry)
  (reader : EventReader) (messages : List ReviewMessage) (now : ℤ)

/-- Close the item when the event is over, and was not when the evidence was sent. -/
def closeFromIndex (item : LoopItem) (event : EventRef) (sourceTimestamp : ℤ) : Option LoopItem :=
  if now ≤ event.end || event.end ≤ sourceTimestamp
      || (deadlineBoundary reader messages now item).any (event.end < ·)
      || (item.event.isSome && item.eventTime.isSome
        && !rule3Applies reader messages now item event.end) then none
  else some (item.passed
    { name := event.name
      «end» := event.end
      messageHandle := event.messageHandle
      fromSubject := event.source = .subject || event.source = .subjectProse
      expired := false })

/-- Close the item when the time that is stated for its event is over. -/
def closeFromStatedTime (item : LoopItem) (sourceTimestamp : ℤ) : Option LoopItem := do
  let event ← item.event
  let eventTime ← item.eventTime
  let timeMessage ← messageOf messages eventTime.message
  let «end» ← (classify eventTime.quote timeMessage.input.timestamp now
    (reader.localOffset timeMessage.input.timestamp)).pastBoundary
  if «end» ≤ sourceTimestamp || !rule3Applies reader messages now item «end»
      || (deadlineBoundary reader messages now item).any («end» < ·) then none
  else some (item.passed
    { name := event.quote
      «end»
      messageHandle := eventTime.message
      fromSubject := false
      expired := false })

/-- The item has the end of the event that it names as its time. -/
def setEventTimeFromSource (item : LoopItem) (event : EventRef) : LoopItem :=
  match item.event, item.eventTime, messageOf messages event.messageHandle with
  | some anchor, none, some message =>
      match formatLocalMinute event.end (reader.localOffset event.end) with
      | none => item
      | some quote =>
          let eventTime : Anchor := ⟨message.input.handle, anchor.block, quote, event.name⟩
          { item with eventTime := some eventTime }
  | _, _, _ => item

/-- The event that the item is tied to by the message that it comes from or by its conversation. -/
def scopedEvent (item : LoopItem) (source : ReviewMessage) (index : List EventRef)
    (rules : Option RuleDecisions) : Option EventRef :=
  let qualifies (event : EventRef) :=
    event.source = .meeting || event.source = .subject || event.source = .subjectProse
  let worded := hasScopedEventLanguageWithRules T toLowercase registry item rules
  ((index.find? fun event => event.messageHandle = item.evidence.message
      && (qualifies event || (event.source = .prose
        && (item.eventTime.any fun anchor => anchor.message = item.evidence.message)
        && rule3Applies reader messages now item event.end))).filter fun event =>
    worded || eventTiedDeadline reader item source now
      || rule3Applies reader messages now item event.end).or
  (if worded then
    match (index.filter qualifies).filter (·.conversation = source.conversation) with
    | [event] => some event
    | _ => none
  else none)

def textMatchedEvent (item : LoopItem) (source : ReviewMessage) (index : List EventRef)
    (rules : Option RuleDecisions) : Option EventRef :=
  (matchEventByTextWithRules T toLowercase registry item.action source.input.timestamp index
    rules).or
  (matchEventByTextWithRules T toLowercase registry item.evidence.quote source.input.timestamp index
    rules)

/-- An item that an event was found for is closed from it, or stays open. -/
def closeMatched (item : LoopItem) (event : EventRef) (sourceTimestamp : ℤ) :
    LoopItem × List EventMark :=
  match closeFromIndex reader messages now item event sourceTimestamp with
  | some closed => (closed, [.closedFromIndex])
  | none => (item, [])

/-- An open item, with what is noted of it. -/
def closeOpenItem (index : List EventRef) (rules : Option RuleDecisions) (item : LoopItem)
    (source : ReviewMessage) : LoopItem × List EventMark :=
  let time := source.input.timestamp
  let timed := if item.eventTime.isSome then [EventMark.timed] else []
  let phrase := namedEventPhrase reader item source now
  let named := if phrase.isSome then [EventMark.named] else []
  match phrase.bind fun phrase =>
      matchEventWithRules T toLowercase registry phrase time index rules with
  | some event =>
      let (item, marks) := closeMatched reader messages now
        (setEventTimeFromSource reader messages item event) event time
      (item, timed ++ named ++ [.matched] ++ marks)
  | none =>
      match phrase.bind fun _ => closeFromStatedTime reader messages now item time with
      | some closed => (closed, timed ++ named ++ [.closedFromStatedTime])
      | none =>
          match scopedEvent T toLowercase registry reader messages now item source index rules with
          | some event =>
              let (item, marks) := closeMatched reader messages now
                (setEventTimeFromSource reader messages item event) event time
              (item, timed ++ named ++ [.scoped] ++ marks)
          | none =>
              match phrase, textMatchedEvent T toLowercase registry item source index rules with
              | none, some event =>
                  let (item, marks) := closeMatched reader messages now item event time
                  (item, timed ++ [.matchedByText] ++ marks)
              | _, _ => (item, timed ++ named)

/-- An item is looked at when it is open and its message is there. -/
def closeItem (index : List EventRef) (rules : Option RuleDecisions) (item : LoopItem) :
    LoopItem × List EventMark :=
  if item.resolution.isSome || item.eventPassed.isSome then (item, [])
  else match messageOf messages item.evidence.message with
    | none => (item, [])
    | some source => closeOpenItem T toLowercase registry reader messages now index rules item source

/-- What is said of the index and of what was closed. -/
def eventIndexNote (index : List EventRef) (marks : List EventMark) : String :=
  let learned (source : EventSource) := toString (index.countP (·.source = source))
  let marked (mark : EventMark) := toString (marks.count mark)
  "Event index: " ++ toString index.length
    ++ (if index.length = 1 then " event" else " events") ++ " learned (" ++ learned .meeting
    ++ " meetings, " ++ learned .subject ++ " calendar subjects, " ++ learned .subjectProse
    ++ " subject prose, " ++ learned .prose ++ " body prose); " ++ marked .scoped
    ++ " tied to their own message's event, " ++ marked .named ++ " named an event, "
    ++ marked .timed ++ " carried a time, " ++ marked .matched ++ " matched by name, "
    ++ marked .matchedByText ++ " matched by request text, " ++ marked .closedFromIndex
    ++ " closed from the index, " ++ marked .closedFromStatedTime ++ " closed from a stated time."

def closePassedEventsWithRules (result : ScanResult) (rules : Option RuleDecisions) : ScanResult :=
  let index := buildEventIndex T toLowercase registry reader messages rules
  let closed := result.analysis.items.map
    (closeItem T toLowercase registry reader messages now index rules)
  let marks := closed.flatMap Prod.snd
  let result := { result.withItems (closed.map Prod.fst) with
    eventClosures := result.eventClosures + marks.countP EventMark.isClosure }
  if result.cancelled then result else result.note (eventIndexNote index marks)

def closePassedEvents (result : ScanResult) : ScanResult :=
  closePassedEventsWithRules T toLowercase registry reader messages now result none

/-- Closing changes items, their number of closures and the notes alone. -/
theorem closePassedEvents_eq (result : ScanResult) :
  ∃ items closures notes,
    closePassedEvents T toLowercase registry reader messages now result
      = { result.withItems items with
        eventClosures := closures
        conversationNotes := notes }
  := by
  unfold closePassedEvents closePassedEventsWithRules
  dsimp only
  split_ifs
  · exact ⟨_, _, _, rfl⟩
  · exact ⟨_, _, _, rfl⟩

end

end Review
