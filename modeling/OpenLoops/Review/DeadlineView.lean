import OpenLoops.Desktop.LinkState
import OpenLoops.Domain.DeadlineParse
import OpenLoops.Review.Item
import OpenLoops.Review.Recap

/-!
# Deadlines as they are shown

The words of a deadline are read at the time of the message that states it.  Words that are not
recognized may still tie the deadline to an event, when they name one or when a model says so.
-/

namespace Review

open Domain

/-- What a deadline says, and whether it is past. -/
inductive DeadlineView where
  | pastDue (boundary offsetSeconds : ℤ)
  | due (boundary offsetSeconds : ℤ)
  | dueDate (day boundary : ℤ) (past : Bool)
  | dueBusinessDay (day boundary : ℤ) (past : Bool)
  | dueRange (startDay endDay boundary : ℤ) (past : Bool)
  | eventTied
  | soft
  | unknown
deriving DecidableEq

/-- The nouns that name a kind of gathering. -/
def eventGenericNouns : List String :=
  ["call", "closing", "conference", "deposition", "event", "hearing", "meeting", "retreat",
    "review", "seminar", "session", "summit", "sync", "training", "trial", "webinar", "workshop"]

/-! ### Reading -/

/-- The end of a working day. -/
def defaultEodSecondsSinceMidnight : UInt32 := 61200

/-- The words before a date that say nothing more. -/
def deadlinePrefixes : List (List Char) :=
  ["no later than ", "due by ", "due ", "by ", "on "].map String.toList

def normalizeQuote (quote : List Char) : List Char :=
  let trimmed c := Desktop.isAsciiPunctuation c || isWhitespace c
  let text := trimMatches trimmed quote
  match deadlinePrefixes.find? fun start => eqIgnoreAsciiCase (text.take start.length) start with
  | some start => trimMatches trimmed (text.drop start.length)
  | none => text

/-- The instant of a boundary, when it is one. -/
def boundarySeconds : LocalResolution → Option ℤ
  | .unambiguous time => some time.seconds.toInt
  | .ambiguous _ _ => none

/-- The boundary that follows from a day or a week. -/
def policyBoundary (value : ParsedValue) (context : ParseContext) : Option LocalResolution :=
  match value with
  | .date day | .businessDay day | .week _ day =>
      resolveLocal day context.eodSecondsSinceMidnight context.timezone
  | _ => none

def instantView (resolution : LocalResolution) (now offsetSeconds : ℤ) : DeadlineView :=
  match boundarySeconds resolution with
  | none => .unknown
  | some boundary =>
      if boundary < now then .pastDue boundary offsetSeconds else .due boundary offsetSeconds

/-- What is shown for a value that was read. -/
def valueView (value : ParsedValue) (context : ParseContext) (now offsetSeconds : ℤ) :
    DeadlineView :=
  let boundary := (policyBoundary value context).bind boundarySeconds
  match value, boundary with
  | .instant resolution, _ => instantView resolution now offsetSeconds
  | .date day, some boundary => .dueDate day.days.toInt boundary (boundary < now)
  | .businessDay day, some boundary => .dueBusinessDay day.days.toInt boundary (boundary < now)
  | .week start «end», some boundary =>
      .dueRange start.days.toInt «end».days.toInt boundary (boundary < now)
  | .soft, _ => .soft
  | .eventRelative, _ => .eventTied
  | .date _, none | .businessDay _, none | .week _ _, none => .unknown

/-- The white space of ASCII. -/
def isAsciiWhitespace (c : Char) : Bool :=
  c = ' ' || c = '\t' || c = '\n' || c = '\x0c' || c = '\r'

/-- The words name a gathering. -/
def namesGathering (quote : List Char) : Bool :=
  ((toAsciiLowercase quote).splitOnP isAsciiWhitespace).any fun token =>
    String.ofList (trimMatches Desktop.isAsciiPunctuation token) ∈ eventGenericNouns

def readContext (messageTimestamp offset : ℤ) : ParseContext where
  messageTimestamp := ⟨.ofInt messageTimestamp⟩
  timezone := { baseOffsetSeconds := .ofInt offset, transition := none }
  eodSecondsSinceMidnight := defaultEodSecondsSinceMidnight
  weekStart := .monday

/-- The deadline that some words state; times of messages are in the range of the calendar, where no
call of the parser panics. -/
def classifyWithHint (quote : String) (messageTimestamp now offset : ℤ)
    (hint : Option DeadlineKindHint) : DeadlineView :=
  let context := readContext messageTimestamp offset
  let normalized := String.ofList (normalizeQuote quote.toList)
  match [TemporalKind.localDatetime, .date, .relative].findSome? fun kind =>
      (reparse kind normalized context).toOption with
  | some value => valueView value context now offset
  | none =>
      if namesGathering quote.toList then .eventTied
      else match hint with
        | some .eventTied => .eventTied
        | some .soft => .soft
        | some .unknown | none => .unknown

def classify (quote : String) (messageTimestamp now offset : ℤ) : DeadlineView :=
  classifyWithHint quote messageTimestamp now offset none

/-! ### Boundaries -/

namespace DeadlineView

/-- The boundary, when it is past. -/
def pastBoundary : DeadlineView → Option ℤ
  | pastDue boundary _ | dueDate _ boundary true | dueBusinessDay _ boundary true
  | dueRange _ _ boundary true => some boundary
  | _ => none

/-- The boundary, when there is one. -/
def boundary : DeadlineView → Option ℤ
  | pastDue boundary _ | due boundary _ | dueDate _ boundary _ | dueBusinessDay _ boundary _
  | dueRange _ _ boundary _ => some boundary
  | eventTied | soft | unknown => none

end DeadlineView

end Review
