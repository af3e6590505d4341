import OpenLoops.Domain.Calendar
import OpenLoops.Library.Utf8
import OpenLoops.Review.DeadlineView

/-!
# Times of events

The time of an event is read from the line of an invitation in a subject, or from a date in prose,
with a time or a range of times after it.  Dates and times are read word by word; a date without a year
is put near the message.
-/

namespace Review

namespace EventTimes

/-- What the library for dates answers: a date by its numbers, the year of an instant, and the date that
a text of a fixed format writes. -/
structure Chrono where
  fromYmdOpt : ℤ → ℕ → ℕ → Option Domain.CivilDate
  yearOf : ℤ → Option ℤ
  parseFromStr : List Char → Option Domain.CivilDate
  fromYmdOpt_eq : ∀ {year : ℤ} {month day : ℕ} {date : Domain.CivilDate},
    fromYmdOpt year month day = some date →
      date.year.toInt = year ∧ date.month.toNat = month ∧ date.day.toNat = day
  yearOf_eq : ∀ {timestamp year : ℤ}, yearOf timestamp = some year →
    ∃ date : Domain.CivilDate, date.year.toInt = year ∧ date.number = timestamp / 86400

/-- The instant of the midnight before a date. -/
def midnight (date : Domain.CivilDate) : ℤ :=
  86400 * date.number

/-- The end of a working day, in seconds since midnight. -/
def endOfDay : ℤ :=
  defaultEodSecondsSinceMidnight.toNat

/-! ### Numbers -/

def parseDigits (bound : ℕ) (digits : List Char) : Option ℕ :=
  if Domain.isAsciiDigits digits then Domain.parseBelow bound digits else none

/-- A number without a sign. -/
def parseU32 : List Char → Option ℕ
  | '+' :: digits => parseDigits (2 ^ 32) digits
  | digits => parseDigits (2 ^ 32) digits

/-- A number with a sign or without one. -/
def parseI32 : List Char → Option ℤ
  | '-' :: digits => (parseDigits (2 ^ 31 + 1) digits).map fun n : ℕ => -(n : ℤ)
  | '+' :: digits => (parseDigits (2 ^ 31) digits).map Int.ofNat
  | digits => (parseDigits (2 ^ 31) digits).map Int.ofNat

/-- The part before a suffix. -/
def stripSuffix (suffix : String) (text : List Char) : Option (List Char) :=
  if suffix.toList <:+ text then some (text.take (text.length - suffix.length)) else none

/-- The text without its last character, if it is that one. -/
def dropLastIf (c : Char) (text : List Char) : List Char :=
  if text.getLast? = some c then text.dropLast else text

/-! ### Subjects -/

/-- What stands before the last place of a separator, and after it. -/
def rsplitOnce (separator : List Char) : List Char → Option (List Char × List Char)
  | [] => none
  | c :: text =>
      match rsplitOnce separator text with
      | some (before, after) => some (c :: before, after)
      | none =>
          if separator <+: c :: text then some ([], (c :: text).drop separator.length) else none

/-- The offsets of the time zones that are known. -/
def timezoneOffset (abbreviation : String) : Option ℤ :=
  match abbreviation with
  | "PDT" | "MST" => some (-7 * 3600)
  | "PST" => some (-8 * 3600)
  | "MDT" | "CST" => some (-6 * 3600)
  | "CDT" | "EST" => some (-5 * 3600)
  | "EDT" => some (-4 * 3600)
  | "UTC" | "GMT" => some 0
  | "BST" | "CET" => some 3600
  | "CEST" => some (2 * 3600)
  | _ => none

/-- Peel groups in parentheses off the end, up to one that is a time zone. -/
def peelGroups : ℕ → List Char → List Char × ℤ
  | 0, calendar => (calendar, 0)
  | rounds + 1, calendar =>
      if calendar.getLast? ≠ some ')' then (calendar, 0)
      else
        match rsplitOnce ['('] calendar with
        | none => (calendar, 0)
        | some (before, content) =>
            let calendar := trimEndMatches isWhitespace before
            match timezoneOffset (String.ofList (trim content.dropLast)) with
            | some found => (calendar, found)
            | none => peelGroups rounds calendar

def stripOrganizerAndTimezoneSuffix (calendar : List Char) : List Char × ℤ :=
  peelGroups 5 (trimEndMatches isWhitespace calendar)

/-- The word is a half of the day. -/
def isMeridiem (word : List Char) : Bool :=
  toAsciiLowercase word = "am".toList || toAsciiLowercase word = "pm".toList

/-- Join a half of the day to the word before it. -/
def joinSpacedAmPm (words : List (List Char)) : List (List Char) :=
  words.foldl (fun joined word =>
    match joined.getLast? with
    | some last => if isMeridiem word then joined.dropLast ++ [last ++ word] else joined ++ [word]
    | none => joined ++ [word]) []

/-- A clock before a half of the day, which is the second one or not. -/
def clockHalf (lower : List Char) : Option (List Char × Bool) :=
  match stripSuffix "am" lower with
  | some clock => some (clock, false)
  | none => (stripSuffix "pm" lower).map (·, true)

/-- The hour and the minute, which is zero if it is not stated. -/
def hourMinute (clock : List Char) : Option (ℤ × ℤ) :=
  match clock.splitOn ':' with
  | [hour] => (parseI32 hour).map (·, 0)
  | [hour, minute] => (parseI32 hour).bind fun hour => (parseI32 minute).map (hour, ·)
  | _ => none

/-- The seconds since midnight of a time with a half of the day. -/
def parseSubjectClock (value : List Char) : Option ℤ := do
  let (clock, pm) ← clockHalf (toAsciiLowercase value)
  let (hour, minute) ← hourMinute clock
  if 1 ≤ hour ∧ hour ≤ 12 ∧ 0 ≤ minute ∧ minute < 60 then
    some ((hour % 12 + if pm then 12 else 0) * 3600 + minute * 60)
  else none

variable (chrono : Chrono)

def subjectEventTime (subject : List Char) : Option (ℤ × ℤ) := do
  let (_, calendar) ← rsplitOnce " @ ".toList subject
  let (calendar, offset) := stripOrganizerAndTimezoneSuffix (trim calendar)
  match joinSpacedAmPm (splitWhitespace calendar) with
  | weekday :: month :: day :: year :: time =>
      let date ← chrono.parseFromStr ([' '].intercalate [weekday, month, day, year])
      match time with
      | [] => some (midnight date - offset, midnight date + endOfDay - offset)
      | [start, dash, stop] =>
          if dash ≠ ['-'] then none
          else do
            let start ← parseSubjectClock start
            let stop ← parseSubjectClock stop
            let stop := if stop ≤ start then stop + 86400 else stop
            some (midnight date + (start - offset), midnight date + (stop - offset))
      | _ => none
  | _ => none

/-! ### Words of prose -/

/-- The characters of words, with the punctuation within dates and times. -/
def isWordChar (c : Char) : Bool :=
  c.isAlphanum || c ∈ ['.', '-', '/', ':']

/-- The words of a text after an offset in bytes, each with its own. -/
def tokensFrom (offset : ℕ) (text : List Char) : List (List Char × ℕ) :=
  match text with
  | [] => []
  | c :: rest =>
      if isWordChar c then
        let word := c :: rest.takeWhile isWordChar
        (word, offset)
          :: tokensFrom (offset + (Utf8.bytes word).length) (rest.dropWhile isWordChar)
      else tokensFrom (offset + c.utf8Size) rest
termination_by text.length
decreasing_by
  · have hle := (List.dropWhile_sublist (l := rest) isWordChar).length_le
    simp only [List.length_cons]
    omega
  · simp

def proseTokens (text : List Char) : List (List Char × ℕ) :=
  tokensFrom 0 text

/-- The word at a place, if there is one. -/
def wordAt (tokens : List (List Char × ℕ)) (i : ℕ) : Option (List Char) :=
  tokens[i]?.map Prod.fst

/-! ### Dates of prose -/

def monthNames : List (String × ℕ) :=
  [("january", 1), ("jan", 1), ("february", 2), ("feb", 2), ("march", 3), ("mar", 3), ("april", 4),
    ("apr", 4), ("may", 5), ("june", 6), ("jun", 6), ("july", 7), ("jul", 7), ("august", 8),
    ("aug", 8), ("september", 9), ("sep", 9), ("sept", 9), ("october", 10), ("oct", 10),
    ("november", 11), ("nov", 11), ("december", 12), ("dec", 12)]

def monthNumber (word : List Char) : Option ℕ :=
  monthNames.lookup (String.ofList (toAsciiLowercase (trimEndMatches (· = '.') word)))

def parseDayOfMonth (token : List Char) : Option ℕ :=
  let token := dropLastIf '.' token
  if token = [] ∨ 2 < token.length ∨ ¬token.all Char.isDigit then none
  else (parseU32 token).filter fun day => 1 ≤ day ∧ day ≤ 31

def parseFourDigitYear (token : List Char) : Option ℤ :=
  let token := dropLastIf '.' token
  if token.length ≠ 4 ∨ ¬token.all Char.isDigit then none else parseI32 token

/-- The month, the day and the year, if there is one. -/
abbrev MatchedDate := ℕ × ℕ × Option ℤ

/-- The month is one of twelve, and the day one of thirty-one. -/
def isPlausible (month day : ℕ) : Bool :=
  1 ≤ month && month ≤ 12 && 1 ≤ day && day ≤ 31

def parseIsoDate (word : List Char) : Option MatchedDate :=
  match (dropLastIf '.' word).splitOn '-' with
  | [year, month, day] =>
      if year.length ≠ 4 ∨ month.length ≠ 2 ∨ day.length ≠ 2 then none
      else do
        let year ← parseI32 year
        let month ← parseU32 month
        let day ← parseU32 day
        if isPlausible month day then some (month, day, some year) else none
  | _ => none

def parseNumericDate (word : List Char) : Option MatchedDate :=
  match (dropLastIf '.' word).splitOn '/' with
  | [first, second, year] =>
      if year.length ≠ 4 then none
      else do
        let first ← parseU32 first
        let second ← parseU32 second
        let year ← parseI32 year
        let (month, day) := if 12 < first ∧ second ≤ 12 then (second, first) else (first, second)
        if isPlausible month day then some (month, day, some year) else none
  | _ => none

def dayFalsePositivePreceders : List String :=
  ["room", "ext", "suite", "unit", "no", "#"]

/-- A number after the word for a room, or one like it, is no day. -/
def dayThenMonthExcluded (tokens : List (List Char × ℕ)) (i : ℕ) : Bool :=
  0 < i && ((wordAt tokens (i - 1)).any fun word =>
    String.ofList (toAsciiLowercase word) ∈ dayFalsePositivePreceders)

/-- The date that begins with a word, and the number of its words. -/
def matchDateAt (tokens : List (List Char × ℕ)) (i : ℕ) : Option (MatchedDate × ℕ) := do
  let word ← wordAt tokens i
  match (parseIsoDate word).or (parseNumericDate word) with
  | some parsed => some (parsed, 1)
  | none =>
      let next := wordAt tokens (i + 1)
      let monthThenDay := (monthNumber word).bind fun month =>
        (next.bind parseDayOfMonth).map (month, ·)
      let dayThenMonth :=
        if dayThenMonthExcluded tokens i then none
        else (parseDayOfMonth word).bind fun day => (next.bind monthNumber).map (·, day)
      let (month, day) ← monthThenDay.or dayThenMonth
      match (wordAt tokens (i + 2)).bind parseFourDigitYear with
      | some year => some ((month, day, some year), 3)
      | none => some ((month, day, none), 2)

/-! ### Times of prose -/

/-- A time in a range, where the half of the day may not be stated. -/
structure RangeClock where
  hour : ℤ
  minute : ℤ
  meridiem : Option Bool
  hasColon : Bool

def parseRangeClockStr (s : List Char) : Option RangeClock := do
  let lower := toAsciiLowercase (dropLastIf '.' s)
  let clock := ((clockHalf lower).map Prod.fst).getD lower
  let meridiem := (clockHalf lower).map Prod.snd
  let (hour, minute) ← hourMinute clock
  if ¬(0 ≤ minute ∧ minute < 60) then none
  else if (if meridiem.isSome then 1 ≤ hour ∧ hour ≤ 12 else 0 ≤ hour ∧ hour < 24) then
    some { hour, minute, meridiem, hasColon := ':' ∈ clock }
  else none

def rangeClockSeconds (clock : RangeClock) (pm : Bool) : ℤ :=
  if ¬(1 ≤ clock.hour ∧ clock.hour ≤ 12) then clock.hour * 3600 + clock.minute * 60
  else (clock.hour % 12 + if pm then 12 else 0) * 3600 + clock.minute * 60

/-- A range of bare numbers is one of times only with a dash. -/
def rangeIsPlausible (start stop : RangeClock) (dashSeparator : Bool) : Bool :=
  if start.hasColon || stop.hasColon || start.meridiem.isSome || stop.meridiem.isSome then true
  else dashSeparator && start.hour ≤ 12 && stop.hour ≤ 12

def resolveRangeMeridiem (start stop : RangeClock) : ℤ × ℤ :=
  let (startPm, stopPm) :=
    match start.meridiem, stop.meridiem with
    | some s, some e => (s, e)
    | none, some e => (e, e)
    | some s, none => (s, s)
    | none, none => (decide (start.hour = 12), decide (stop.hour = 12 ∨ stop.hour < start.hour))
  let startSecs := rangeClockSeconds start startPm
  let stopSecs := rangeClockSeconds stop stopPm
  (startSecs, if stopSecs ≤ startSecs then stopSecs + 86400 else stopSecs)

def isDash (c : Char) : Bool :=
  c = '-' || c = '\u2013' || c = '\u2014'

def gapIsDashSeparator (gap : List Char) : Bool :=
  trim gap ≠ [] && (trim gap).all isDash

def isLoneDashToken (token : List Char) : Bool :=
  token = ['-'] || token = ['\u2013'] || token = ['\u2014']

def parseFusedRangeToken (token : List Char) : Option (RangeClock × RangeClock) := do
  let (left, right) ← splitOnce '-' token
  let start ← parseRangeClockStr left
  let stop ← parseRangeClockStr right
  some (start, stop)

def stripTrailingDash (token : List Char) : List Char :=
  if token.length = 1 then token else dropLastIf '-' token

def stripLeadingDash (token : List Char) : List Char :=
  match token with
  | '-' :: c :: rest => c :: rest
  | _ => token

/-- The seconds of a range since midnight, and the number of its words. -/
def finalizeRange (start stop : RangeClock) (dashSeparator : Bool) (tokens : List (List Char × ℕ))
    (stopNext consumed : ℕ) : Option (ℤ × ℤ × ℕ) :=
  let next := if stop.meridiem.isNone then (wordAt tokens stopNext).filter isMeridiem else none
  let (stop, consumed) :=
    match next with
    | some word => ({ stop with meridiem := some (toAsciiLowercase word = "pm".toList) }, consumed + 1)
    | none => (stop, consumed)
  if ¬rangeIsPlausible start stop dashSeparator then none
  else
    let (startSecs, stopSecs) := resolveRangeMeridiem start stop
    some (startSecs, stopSecs, consumed)

def parseProseTimeRange (text : List Char) (tokens : List (List Char × ℕ)) (i : ℕ) :
    Option (ℤ × ℤ × ℕ) := do
  let (token, offset) ← tokens[i]?
  match parseFusedRangeToken token with
  | some (start, stop) => finalizeRange start stop true tokens (i + 1) 1
  | none =>
      let startCore := stripTrailingDash token
      let start ← parseRangeClockStr startCore
      let (next, nextOffset) ← tokens[i + 1]?
      if toAsciiLowercase next = "to".toList then do
        let stop ← (wordAt tokens (i + 2)).bind parseRangeClockStr
        finalizeRange start stop false tokens (i + 3) 3
      else if isLoneDashToken next then do
        let stop ← (wordAt tokens (i + 2)).bind parseRangeClockStr
        finalizeRange start stop true tokens (i + 3) 3
      else do
        let stopCore := stripLeadingDash next
        let gap ← Utf8.slice text (offset + (Utf8.bytes startCore).length)
          (nextOffset + ((Utf8.bytes next).length - (Utf8.bytes stopCore).length))
        if ¬gapIsDashSeparator gap then none
        else do
          let stop ← parseRangeClockStr stopCore
          finalizeRange start stop true tokens (i + 2) 2

/-- The seconds of a time since midnight, and the number of its words. -/
def parseProseTimeLiteral (tokens : List (List Char × ℕ)) (i : ℕ) : Option (ℤ × ℕ) := do
  let token ← wordAt tokens i
  let spaced := (wordAt tokens (i + 1)).filter isMeridiem
  match parseSubjectClock token with
  | some seconds => some (seconds, 1)
  | none =>
      match spaced.bind fun next => parseSubjectClock (token ++ toAsciiLowercase next) with
      | some seconds => some (seconds, 2)
      | none =>
          match token.splitOn ':' with
          | [hour, minute] => do
              let hour ← parseI32 hour
              let minute ← parseI32 minute
              if 0 ≤ hour ∧ hour < 24 ∧ 0 ≤ minute ∧ minute < 60 then
                some (hour * 3600 + minute * 60, 1)
              else none
          | _ => none

def timePrepositions : List String :=
  ["at", "@", ",", "from", "starting"]

/-- A time or a range after at most one word that may stand before it. -/
def parseProseTime (text : List Char) (tokens : List (List Char × ℕ)) (i : ℕ) :
    Option (ℤ × ℤ × ℕ) :=
  let skips := (wordAt tokens i).any fun word =>
    isLoneDashToken word || String.ofList (toAsciiLowercase word) ∈ timePrepositions
  let (start, skipped) := if skips then (i + 1, 1) else (i, 0)
  match parseProseTimeRange text tokens start with
  | some (first, last, consumed) => some (first, last, skipped + consumed)
  | none =>
      (parseProseTimeLiteral tokens start).map fun (seconds, consumed) =>
        (seconds, seconds + 3600, skipped + consumed)

/-! ### Dates with times -/

/-- The year of a message where it is read; 1970 if there is none. -/
def localYear (messageTimestamp offset : ℤ) : ℤ :=
  (chrono.yearOf (messageTimestamp + offset)).getD 1970

/-- The date of a match: one without a year is put into the year of the message, or into the next if it
would be more than sixty days before it. -/
def resolveDate (messageTimestamp offset : ℤ) : MatchedDate → Option Domain.CivilDate
  | (month, day, some year) => chrono.fromYmdOpt year month day
  | (month, day, none) => do
      let year := localYear chrono messageTimestamp offset
      let date ← chrono.fromYmdOpt year month day
      if midnight date - offset < messageTimestamp - 60 * 86400 then
        chrono.fromYmdOpt (year + 1) month day
      else some date

theorem consumed_pos {tokens : List (List Char × ℕ)} {i consumed : ℕ} {date : MatchedDate}
    (h : matchDateAt tokens i = some (date, consumed)) :
  1 ≤ consumed
  := by
  obtain ⟨word, -, h⟩ := Option.bind_eq_some_iff.mp h
  split at h
  · cases h
    exact Nat.le_refl 1
  · obtain ⟨⟨month, day⟩, -, h⟩ := Option.bind_eq_some_iff.mp h
    simp only at h
    split at h
    · cases h
      decide
    · cases h
      decide

/-- The candidates from a word on: a start, an end and the offset of the date. -/
def candidatesFrom (text : List Char) (messageTimestamp offset : ℤ) (tokens : List (List Char × ℕ))
    (i : ℕ) : List (ℤ × ℤ × ℕ) :=
  if h : i < tokens.length then
    match hmatch : matchDateAt tokens i with
    | none => candidatesFrom text messageTimestamp offset tokens (i + 1)
    | some (matched, consumed) =>
        match resolveDate chrono messageTimestamp offset matched with
        | none => candidatesFrom text messageTimestamp offset tokens (i + 1)
        | some date =>
            let (start, stop) :=
              match parseProseTime text tokens (i + consumed) with
              | some (start, stop, _) => (start, stop)
              | none => (0, endOfDay)
            (midnight date + start - offset, midnight date + stop - offset, (tokens[i]).2)
              :: candidatesFrom text messageTimestamp offset tokens (i + consumed)
  else []
termination_by tokens.length - i
decreasing_by
  · omega
  · omega
  · have hpos := consumed_pos hmatch
    omega

def proseEventTimeCandidates (text : List Char) (messageTimestamp offset : ℤ) : List (ℤ × ℤ × ℕ) :=
  candidatesFrom chrono text messageTimestamp offset (proseTokens text) 0

/-! ### Seconds -/

/-- A time of a day. -/
def IsTimeOfDay (seconds : ℤ) : Prop :=
  0 ≤ seconds ∧ seconds < 86400

/-- A start on a day, and an end at most a day after it. -/
def IsSpan (start stop : ℤ) : Prop :=
  IsTimeOfDay start ∧ 0 < stop - start ∧ stop - start ≤ 86400

theorem parseSubjectClock_isTimeOfDay {value : List Char} {seconds : ℤ}
    (h : parseSubjectClock value = some seconds) :
  IsTimeOfDay seconds
  := by
  obtain ⟨⟨clock, pm⟩, -, h⟩ := Option.bind_eq_some_iff.mp h
  obtain ⟨⟨hour, minute⟩, -, h⟩ := Option.bind_eq_some_iff.mp h
  simp only at h
  split_ifs at h with hrange hpm
  · obtain rfl := Option.some.inj h
    rw [IsTimeOfDay]
    omega
  · obtain rfl := Option.some.inj h
    rw [IsTimeOfDay]
    omega

namespace RangeClock

/-- The hour and the minute are those of a day. -/
def InRange (clock : RangeClock) : Prop :=
  0 ≤ clock.hour ∧ clock.hour < 24 ∧ 0 ≤ clock.minute ∧ clock.minute < 60

end RangeClock

theorem parseRangeClockStr_inRange {s : List Char} {clock : RangeClock}
    (h : parseRangeClockStr s = some clock) :
  clock.InRange
  := by
  obtain ⟨⟨hour, minute⟩, -, h⟩ := Option.bind_eq_some_iff.mp h
  simp only at h
  rw [RangeClock.InRange]
  split_ifs at h with hminute hmeridiem hhour hhour
  · cases h
    simp only
    omega
  · cases h
    simp only
    omega

theorem rangeClockSeconds_isTimeOfDay {clock : RangeClock} (h : clock.InRange) (pm : Bool) :
  IsTimeOfDay (rangeClockSeconds clock pm)
  := by
  rw [RangeClock.InRange] at h
  rw [IsTimeOfDay, rangeClockSeconds]
  cases pm
  · simp only [Bool.false_eq_true, if_false]
    split_ifs <;> omega
  · simp only [if_true]
    split_ifs <;> omega

theorem resolveRangeMeridiem_isSpan {start stop : RangeClock} (hstart : start.InRange)
    (hstop : stop.InRange) :
  IsSpan (resolveRangeMeridiem start stop).1 (resolveRangeMeridiem start stop).2
  := by
  -- The halves of the day do not matter.
  have hspan : ∀ startPm stopPm,
      let startSecs := rangeClockSeconds start startPm
      let stopSecs := rangeClockSeconds stop stopPm
      IsSpan startSecs (if stopSecs ≤ startSecs then stopSecs + 86400 else stopSecs) := by
    intro startPm stopPm
    have hfirst := rangeClockSeconds_isTimeOfDay hstart startPm
    have hlast := rangeClockSeconds_isTimeOfDay hstop stopPm
    rw [IsTimeOfDay] at hfirst hlast
    simp only [IsSpan, IsTimeOfDay]
    split_ifs <;> omega
  apply hspan

theorem finalizeRange_isSpan {start stop : RangeClock} (hstart : start.InRange)
    (hstop : stop.InRange) {dashSeparator : Bool} {tokens : List (List Char × ℕ)}
    {stopNext consumed consumed' : ℕ} {first last : ℤ}
    (h : finalizeRange start stop dashSeparator tokens stopNext consumed
      = some (first, last, consumed')) :
  IsSpan first last
  := by
  simp only [finalizeRange] at h
  split_ifs at h
  all_goals
    split at h
    all_goals
      cases h
      apply resolveRangeMeridiem_isSpan hstart
      exact hstop

theorem parseProseTimeRange_isSpan {text : List Char} {tokens : List (List Char × ℕ)} {i consumed : ℕ}
    {first last : ℤ} (h : parseProseTimeRange text tokens i = some (first, last, consumed)) :
  IsSpan first last
  := by
  obtain ⟨⟨token, offset⟩, -, h⟩ := Option.bind_eq_some_iff.mp h
  simp only at h
  split at h
  · rename_i start stop hfused
    obtain ⟨⟨left, right⟩, -, hfused⟩ := Option.bind_eq_some_iff.mp hfused
    obtain ⟨start', hstart, hfused⟩ := Option.bind_eq_some_iff.mp hfused
    obtain ⟨stop', hstop, hfused⟩ := Option.bind_eq_some_iff.mp hfused
    cases hfused
    exact finalizeRange_isSpan (parseRangeClockStr_inRange hstart) (parseRangeClockStr_inRange hstop) h
  · obtain ⟨start, hstart, h⟩ := Option.bind_eq_some_iff.mp h
    obtain ⟨⟨next, nextOffset⟩, -, h⟩ := Option.bind_eq_some_iff.mp h
    have hstart := parseRangeClockStr_inRange hstart
    simp only at h
    split_ifs at h with hto hdash
    · obtain ⟨stop, hstop, h⟩ := Option.bind_eq_some_iff.mp h
      obtain ⟨word, -, hstop⟩ := Option.bind_eq_some_iff.mp hstop
      exact finalizeRange_isSpan hstart (parseRangeClockStr_inRange hstop) h
    · obtain ⟨stop, hstop, h⟩ := Option.bind_eq_some_iff.mp h
      obtain ⟨word, -, hstop⟩ := Option.bind_eq_some_iff.mp hstop
      exact finalizeRange_isSpan hstart (parseRangeClockStr_inRange hstop) h
    · obtain ⟨gap, -, h⟩ := Option.bind_eq_some_iff.mp h
      split_ifs at h
      obtain ⟨stop, hstop, h⟩ := Option.bind_eq_some_iff.mp h
      exact finalizeRange_isSpan hstart (parseRangeClockStr_inRange hstop) h

theorem parseProseTimeLiteral_isTimeOfDay {tokens : List (List Char × ℕ)} {i consumed : ℕ}
    {seconds : ℤ} (h : parseProseTimeLiteral tokens i = some (seconds, consumed)) :
  IsTimeOfDay seconds
  := by
  obtain ⟨token, -, h⟩ := Option.bind_eq_some_iff.mp h
  simp only at h
  split at h
  · rename_i hclock
    cases h
    exact parseSubjectClock_isTimeOfDay hclock
  · split at h
    · rename_i hclock
      obtain ⟨next, -, hclock⟩ := Option.bind_eq_some_iff.mp hclock
      cases h
      exact parseSubjectClock_isTimeOfDay hclock
    · split at h
      · obtain ⟨hour, -, h⟩ := Option.bind_eq_some_iff.mp h
        obtain ⟨minute, -, h⟩ := Option.bind_eq_some_iff.mp h
        split_ifs at h with hrange
        cases h
        rw [IsTimeOfDay]
        omega
      · cases h

theorem parseProseTime_isSpan {text : List Char} {tokens : List (List Char × ℕ)} {i consumed : ℕ}
    {first last : ℤ} (h : parseProseTime text tokens i = some (first, last, consumed)) :
  IsSpan first last
  := by
  simp only [parseProseTime] at h
  split at h
  · rename_i hrange
    cases h
    exact parseProseTimeRange_isSpan hrange
  · obtain ⟨⟨seconds, count⟩, hliteral, heq⟩ := Option.map_eq_some_iff.mp h
    have htime := parseProseTimeLiteral_isTimeOfDay hliteral
    cases heq
    rw [IsTimeOfDay] at htime
    rw [IsSpan, IsTimeOfDay]
    omega

theorem endOfDay_isSpan :
  IsSpan 0 endOfDay
  := by
  rw [IsSpan, IsTimeOfDay, endOfDay, show defaultEodSecondsSinceMidnight.toNat = 61200 from rfl]
  decide

theorem subjectEventTime_isSpan {subject : List Char} {start stop : ℤ}
    (h : subjectEventTime chrono subject = some (start, stop)) :
  0 < stop - start ∧ stop - start ≤ 86400
  := by
  obtain ⟨⟨before, calendar⟩, -, h⟩ := Option.bind_eq_some_iff.mp h
  simp only at h
  split at h
  · obtain ⟨date, -, h⟩ := Option.bind_eq_some_iff.mp h
    split at h
    · cases h
      have hspan := endOfDay_isSpan
      rw [IsSpan] at hspan
      omega
    · split_ifs at h
      obtain ⟨first, hfirst, h⟩ := Option.bind_eq_some_iff.mp h
      obtain ⟨last, hlast, h⟩ := Option.bind_eq_some_iff.mp h
      have hfirst := parseSubjectClock_isTimeOfDay hfirst
      have hlast := parseSubjectClock_isTimeOfDay hlast
      rw [IsTimeOfDay] at hfirst hlast
      cases h
      split_ifs <;> omega
    · cases h
  · cases h

/-! ### Words of a text -/

def IsWord (word : List Char) : Prop :=
  word ≠ [] ∧ ∀ c ∈ word, isWordChar c = true

def IsGap (gap : List Char) : Prop :=
  ∀ c ∈ gap, isWordChar c = false

/-- No word goes on at the beginning of the text. -/
def BeginsApart (text : List Char) : Prop :=
  ∀ c, text.head? = some c → isWordChar c = false

/-- The text is made of the words, with gaps between them. -/
inductive Joins : List Char → List (List Char) → Prop
  | single {word : List Char} : IsWord word → Joins word [word]
  | cons {word gap rest : List Char} {words : List (List Char)} :
      IsWord word → IsGap gap → gap ≠ [] → Joins rest words →
      Joins (word ++ gap ++ rest) (word :: words)

/-- The first word of a text, if it has one. -/
def FirstWord (text : List Char) : Option (List Char) → Prop
  | none => IsGap text
  | some word =>
      ∃ gap rest, text = gap ++ word ++ rest ∧ IsGap gap ∧ IsWord word ∧ BeginsApart rest

theorem beginsApart_dropWhile (text : List Char) :
  BeginsApart (text.dropWhile isWordChar)
  := by
  intro c hc
  have hhead := List.head?_dropWhile_not isWordChar text
  rw [hc] at hhead
  exact hhead

theorem isWord_takeWhile {c : Char} (hc : isWordChar c = true) (rest : List Char) :
  IsWord (c :: rest.takeWhile isWordChar)
  := by
  constructor
  · simp
  · intro d hd
    rcases List.mem_cons.mp hd with rfl | hd
    · exact hc
    · exact List.mem_takeWhile_imp hd

/-- The bytes of a text before another. -/
theorem length_bytes_append (text text' : List Char) :
  (Utf8.bytes (text ++ text')).length = (Utf8.bytes text).length + (Utf8.bytes text').length
  := by rw [Utf8.bytes_append, List.length_append]

/-- The first word is found after a gap. -/
theorem tokensFrom_eq_cons {offset start : ℕ} {text word : List Char}
    {tokens : List (List Char × ℕ)} (h : tokensFrom offset text = (word, start) :: tokens) :
  ∃ gap after, text = gap ++ word ++ after ∧ IsGap gap ∧ IsWord word ∧ BeginsApart after
    ∧ start = offset + (Utf8.bytes gap).length
    ∧ tokens = tokensFrom (start + (Utf8.bytes word).length) after
  := by
  induction offset, text using tokensFrom.induct with
  | case1 offset =>
      rw [tokensFrom] at h
      cases h
  | case2 offset c rest hc ih =>
      rw [tokensFrom, if_pos hc] at h
      simp only [List.cons.injEq, Prod.mk.injEq] at h
      obtain ⟨⟨rfl, rfl⟩, rfl⟩ := h
      refine ⟨[], rest.dropWhile isWordChar, ?_, by simp [IsGap], isWord_takeWhile hc rest,
        beginsApart_dropWhile rest, rfl, rfl⟩
      rw [List.nil_append, List.cons_append, List.takeWhile_append_dropWhile]
  | case3 offset c rest hc ih =>
      rw [tokensFrom, if_neg hc] at h
      obtain ⟨gap, after, rfl, hgap, hword, hafter, rfl, rfl⟩ := ih h
      refine ⟨c :: gap, after, rfl, ?_, hword, hafter, ?_, rfl⟩
      · intro d hd
        rcases List.mem_cons.mp hd with rfl | hd
        · exact Bool.eq_false_iff.mpr hc
        · exact hgap d hd
      · rw [Utf8.length_bytes_cons]
        omega

theorem tokensFrom_eq_nil {offset : ℕ} {text : List Char} (h : tokensFrom offset text = []) :
  IsGap text
  := by
  induction offset, text using tokensFrom.induct with
  | case1 offset => simp [IsGap]
  | case2 offset c rest hc ih =>
      rw [tokensFrom, if_pos hc] at h
      cases h
  | case3 offset c rest hc ih =>
      rw [tokensFrom, if_neg hc] at h
      intro d hd
      rcases List.mem_cons.mp hd with rfl | hd
      · exact Bool.eq_false_iff.mpr hc
      · exact ih h d hd

theorem firstWord_tokensFrom (offset : ℕ) (text : List Char) :
  FirstWord text ((tokensFrom offset text).head?.map Prod.fst)
  := by
  cases h : tokensFrom offset text with
  | nil => exact tokensFrom_eq_nil h
  | cons token tokens =>
      obtain ⟨gap, after, htext, hgap, hword, hafter, -⟩ := tokensFrom_eq_cons h
      exact ⟨gap, after, htext, hgap, hword, hafter⟩

/-- No word is before the offset. -/
theorem le_of_mem_tokensFrom {offset : ℕ} {text : List Char} {token : List Char × ℕ}
    (h : token ∈ tokensFrom offset text) :
  offset ≤ token.2
  := by
  induction offset, text using tokensFrom.induct with
  | case1 offset =>
      rw [tokensFrom] at h
      cases h
  | case2 offset c rest hc word ih =>
      rw [tokensFrom, if_pos hc] at h
      rcases List.mem_cons.mp h with rfl | h
      · exact Nat.le_refl _
      · have hle := ih h
        omega
  | case3 offset c rest hc ih =>
      rw [tokensFrom, if_neg hc] at h
      have hle := ih h
      omega

theorem Joins.exists_head {text : List Char} {words : List (List Char)} (h : Joins text words) :
  ∃ c, text.head? = some c ∧ isWordChar c = true
  := by
  have hword : ∀ {word : List Char} (rest : List Char), IsWord word →
      ∃ c, (word ++ rest).head? = some c ∧ isWordChar c = true := by
    intro word rest hword
    obtain ⟨c, word', rfl⟩ := List.exists_cons_of_ne_nil hword.1
    exact ⟨c, rfl, hword.2 c List.mem_cons_self⟩
  cases h with
  | @single word hisWord =>
      have hhead := hword [] hisWord
      rwa [List.append_nil] at hhead
  | cons hisWord _ _ _ =>
      rw [List.append_assoc]
      exact hword _ hisWord

/-- The first words stand after a gap, with gaps between them. -/
theorem tokensFrom_split {offset : ℕ} {text : List Char} {firsts more : List (List Char × ℕ)}
    (h : tokensFrom offset text = firsts ++ more) (hne : firsts ≠ []) :
  ∃ gap part after, text = gap ++ part ++ after ∧ IsGap gap
    ∧ firsts.head?.map Prod.snd = some (offset + (Utf8.bytes gap).length)
    ∧ Joins part (firsts.map Prod.fst) ∧ BeginsApart after
    ∧ more = tokensFrom (offset + (Utf8.bytes (gap ++ part)).length) after
  := by
  induction firsts generalizing offset text with
  | nil => exact absurd rfl hne
  | cons token firsts ih =>
      obtain ⟨word, start⟩ := token
      obtain ⟨gap, after, rfl, hgap, hword, hafter, rfl, hrest⟩ := tokensFrom_eq_cons h
      by_cases hnil : firsts = []
      · subst hnil
        refine ⟨gap, word, after, rfl, hgap, rfl, .single hword, hafter, ?_⟩
        rw [length_bytes_append, ← Nat.add_assoc]
        exact hrest
      · obtain ⟨gap', part, after', rfl, hgap', -, hjoins, hafter', rfl⟩ := ih hrest.symm hnil
        -- The next word does not go on with this one.
        have hgapNe : gap' ≠ [] := by
          rintro rfl
          obtain ⟨c, hhead, hc⟩ := hjoins.exists_head
          have happart := hafter c (by
            rw [List.nil_append, List.head?_append, hhead]
            rfl)
          rw [hc] at happart
          cases happart
        refine ⟨gap, word ++ gap' ++ part, after', by simp, hgap, rfl,
          .cons hword hgap' hgapNe hjoins, hafter', ?_⟩
        congr 1
        simp only [length_bytes_append]
        omega

/-- The words from a place on, and up to another. -/
theorem proseTokens_split {text : List Char} {skipped firsts more : List (List Char × ℕ)}
    (h : proseTokens text = skipped ++ (firsts ++ more)) (hne : firsts ≠ []) :
  ∃ before part after, text = before ++ part ++ after
    ∧ firsts.head?.map Prod.snd = some (Utf8.bytes before).length
    ∧ (∀ c, before.getLast? = some c → isWordChar c = false)
    ∧ Joins part (firsts.map Prod.fst) ∧ BeginsApart after
    ∧ more = tokensFrom (Utf8.bytes (before ++ part)).length after
  := by
  -- The place is where no word goes on.
  have hskip : ∃ before rest, text = before ++ rest
      ∧ firsts ++ more = tokensFrom (Utf8.bytes before).length rest
      ∧ (before ≠ [] → BeginsApart rest) := by
    by_cases hnil : skipped = []
    · subst hnil
      exact ⟨[], text, rfl, h.symm, fun h => absurd rfl h⟩
    · obtain ⟨gap, part, after, rfl, -, -, -, hafter, hmore⟩ := tokensFrom_split h hnil
      rw [Nat.zero_add] at hmore
      exact ⟨gap ++ part, after, rfl, hmore, fun _ => hafter⟩
  obtain ⟨before, rest, rfl, hrest, hapart⟩ := hskip
  obtain ⟨gap, part, after, rfl, hgap, hhead, hjoins, hafter, hmore⟩ :=
    tokensFrom_split hrest.symm hne
  refine ⟨before ++ gap, part, after, by simp, ?_, ?_, hjoins, hafter, ?_⟩
  · rw [hhead, length_bytes_append]
  · intro c hc
    by_cases hgapNil : gap = []
    · subst hgapNil
      rw [List.append_nil] at hc
      have hbefore : before ≠ [] := by
        rintro rfl
        cases hc
      obtain ⟨d, hd, hword⟩ := hjoins.exists_head
      have hfalse := hapart hbefore d (by
        rw [List.nil_append, List.head?_append, hd]
        rfl)
      rw [hword] at hfalse
      cases hfalse
    · rw [List.getLast?_append_of_ne_nil _ hgapNil] at hc
      exact hgap c (List.mem_of_getLast? hc)
  · rw [hmore]
    congr 1
    simp only [length_bytes_append]
    omega

/-! ### Dates of a text -/

/-- The digits write the number. -/
def IsNumeral (digits : List Char) (n : ℕ) : Prop :=
  digits ≠ [] ∧ (∀ c ∈ digits, c.isDigit = true) ∧ n = Nat.ofDigitChars 10 digits 0

/-- The text is a number, which may have a sign. -/
inductive IsInteger : List Char → ℤ → Prop
  | plain {digits : List Char} {n : ℕ} : IsNumeral digits n → IsInteger digits n
  | plus {digits : List Char} {n : ℕ} : IsNumeral digits n → IsInteger ('+' :: digits) n
  | minus {digits : List Char} {n : ℕ} : IsNumeral digits n → IsInteger ('-' :: digits) (-n)

/-- A full stop may end the word. -/
def Dotted (word core : List Char) : Prop :=
  word = core ∨ word = core ++ ['.']

def IsMonthWord (word : List Char) (month : ℕ) : Prop :=
  ∃ name dots, word = name ++ dots ∧ (∀ c ∈ dots, c = '.')
    ∧ (String.ofList (toAsciiLowercase name), month) ∈ monthNames

def IsDayWord (word : List Char) (day : ℕ) : Prop :=
  ∃ digits, Dotted word digits ∧ digits.length ≤ 2 ∧ IsNumeral digits day

def IsYearWord (word : List Char) (year : ℤ) : Prop :=
  ∃ digits n, Dotted word digits ∧ digits.length = 4 ∧ IsNumeral digits n ∧ year = n

/-- The words write a date, the next word being that one.  A date in digits is read with the month
first, unless its first number can only be a day; the year of a date in words is the next word if that
is one of four digits. -/
inductive IsDate : List (List Char) → Option (List Char) → ℕ → ℕ → Option ℤ → Prop
  | iso {word yearText monthText dayText : List Char} {next : Option (List Char)} {month day : ℕ}
      {year : ℤ} :
      Dotted word (yearText ++ '-' :: monthText ++ '-' :: dayText) →
      IsInteger yearText year → yearText.length = 4 → IsInteger monthText month →
      monthText.length = 2 → IsInteger dayText day → dayText.length = 2 →
      IsDate [word] next month day (some year)
  | monthFirst {word yearText monthText dayText : List Char} {next : Option (List Char)}
      {month day : ℕ} {year : ℤ} :
      Dotted word (monthText ++ '/' :: dayText ++ '/' :: yearText) →
      IsInteger yearText year → yearText.length = 4 → IsInteger monthText month →
      IsInteger dayText day → IsDate [word] next month day (some year)
  | dayFirst {word yearText monthText dayText : List Char} {next : Option (List Char)}
      {month day : ℕ} {year : ℤ} :
      Dotted word (dayText ++ '/' :: monthText ++ '/' :: yearText) → 12 < day →
      IsInteger yearText year → yearText.length = 4 → IsInteger monthText month →
      IsInteger dayText day → IsDate [word] next month day (some year)
  | monthDay {name dayWord : List Char} {next : Option (List Char)} {month day : ℕ} :
      IsMonthWord name month → IsDayWord dayWord day →
      (∀ word year, next = some word → ¬IsYearWord word year) →
      IsDate [name, dayWord] next month day none
  | dayMonth {name dayWord : List Char} {next : Option (List Char)} {month day : ℕ} :
      IsMonthWord name month → IsDayWord dayWord day →
      (∀ word year, next = some word → ¬IsYearWord word year) →
      IsDate [dayWord, name] next month day none
  | monthDayYear {name dayWord yearWord : List Char} {next : Option (List Char)} {month day : ℕ}
      {year : ℤ} :
      IsMonthWord name month → IsDayWord dayWord day → IsYearWord yearWord year →
      IsDate [name, dayWord, yearWord] next month day (some year)
  | dayMonthYear {name dayWord yearWord : List Char} {next : Option (List Char)} {month day : ℕ}
      {year : ℤ} :
      IsMonthWord name month → IsDayWord dayWord day → IsYearWord yearWord year →
      IsDate [dayWord, name, yearWord] next month day (some year)

theorem isNumeral_of_parseDigits {bound n : ℕ} {digits : List Char}
    (h : parseDigits bound digits = some n) :
  IsNumeral digits n
  := by
  rw [parseDigits] at h
  split_ifs at h with hdigits
  rw [Domain.isAsciiDigits, Bool.and_eq_true, decide_eq_true_eq, List.all_eq_true] at hdigits
  rw [Domain.parseBelow] at h
  split_ifs at h
  obtain rfl := Option.some.inj h
  exact ⟨hdigits.1, hdigits.2, rfl⟩

theorem isInteger_of_parseU32 {text : List Char} {n : ℕ} (h : parseU32 text = some n) :
  IsInteger text n
  := by
  rw [parseU32.eq_def] at h
  split at h
  · exact .plus (isNumeral_of_parseDigits h)
  · exact .plain (isNumeral_of_parseDigits h)

theorem isInteger_of_parseI32 {text : List Char} {n : ℤ} (h : parseI32 text = some n) :
  IsInteger text n
  := by
  rw [parseI32.eq_def] at h
  split at h
  · obtain ⟨m, hm, rfl⟩ := Option.map_eq_some_iff.mp h
    exact .minus (isNumeral_of_parseDigits hm)
  · obtain ⟨m, hm, rfl⟩ := Option.map_eq_some_iff.mp h
    exact .plus (isNumeral_of_parseDigits hm)
  · obtain ⟨m, hm, rfl⟩ := Option.map_eq_some_iff.mp h
    exact .plain (isNumeral_of_parseDigits hm)

theorem dotted_dropLastIf (word : List Char) :
  Dotted word (dropLastIf '.' word)
  := by
  rw [dropLastIf]
  split_ifs with h
  · obtain ⟨core, rfl⟩ := List.getLast?_eq_some_iff.mp h
    right
    rw [List.dropLast_concat]
  · exact Or.inl rfl

theorem isMonthWord_of_monthNumber {word : List Char} {month : ℕ}
    (h : monthNumber word = some month) :
  IsMonthWord word month
  := by
  obtain ⟨dots, hsplit, hdots, -⟩ := trimEndMatches_split (· = '.') word
  obtain ⟨before, after, hnames, -⟩ := List.lookup_eq_some_iff.mp h
  refine ⟨_, dots, hsplit, fun c hc => of_decide_eq_true (hdots c hc), ?_⟩
  rw [hnames]
  exact List.mem_append_right _ List.mem_cons_self

/-- Digits have no sign. -/
theorem parseU32_digits {digits : List Char} (h : ∀ c ∈ digits, c.isDigit = true) :
  parseU32 digits = parseDigits (2 ^ 32) digits
  := by
  rw [parseU32.eq_def]
  split
  · exact absurd (h '+' List.mem_cons_self) (by decide)
  · rfl

theorem parseI32_digits {digits : List Char} (h : ∀ c ∈ digits, c.isDigit = true) :
  parseI32 digits = (parseDigits (2 ^ 31) digits).map Int.ofNat
  := by
  rw [parseI32.eq_def]
  split
  · exact absurd (h '-' List.mem_cons_self) (by decide)
  · exact absurd (h '+' List.mem_cons_self) (by decide)
  · rfl

theorem isDayWord_of_parseDayOfMonth {word : List Char} {day : ℕ}
    (h : parseDayOfMonth word = some day) :
  IsDayWord word day
  := by
  simp only [parseDayOfMonth] at h
  split_ifs at h with hshape
  simp only [not_or, Classical.not_not, List.all_eq_true] at hshape
  obtain ⟨-, hlength, hdigits⟩ := hshape
  obtain ⟨hday, -⟩ := Option.filter_eq_some_iff.mp h
  rw [parseU32_digits hdigits] at hday
  exact ⟨_, dotted_dropLastIf word, Nat.not_lt.mp hlength, isNumeral_of_parseDigits hday⟩

/-- Four digits write a number that is small enough. -/
theorem ofDigitChars_lt {digits : List Char} (hlength : digits.length = 4)
    (hdigits : ∀ c ∈ digits, c.isDigit = true) :
  Nat.ofDigitChars 10 digits 0 < 10000
  := by
  have hdigit : ∀ c : Char, c.isDigit = true → c.toNat - '0'.toNat ≤ 9 := by
    intro c hc
    simp only [Char.isDigit, Bool.and_eq_true, decide_eq_true_eq, UInt32.le_iff_toNat_le] at hc
    have hle := hc.2
    simp only [Char.toNat]
    change c.val.toNat ≤ 57 at hle
    change c.val.toNat - 48 ≤ 9
    omega
  match digits, hlength with
  | [a, b, c, d], _ =>
      have ha := hdigit a (hdigits a (by simp))
      have hb := hdigit b (hdigits b (by simp))
      have hc := hdigit c (hdigits c (by simp))
      have hd := hdigit d (hdigits d (by simp))
      simp only [Nat.ofDigitChars_cons, Nat.ofDigitChars_nil]
      omega

/-- A full stop at the end is not one of the digits. -/
theorem dropLastIf_of_dotted {word digits : List Char} (h : Dotted word digits)
    (hdigits : ∀ c ∈ digits, c.isDigit = true) :
  dropLastIf '.' word = digits
  := by
  rw [dropLastIf]
  rcases h with rfl | rfl
  · apply if_neg
    intro hlast
    have hdot := hdigits '.' (List.mem_of_getLast? hlast)
    revert hdot
    decide
  · rw [if_pos List.getLast?_concat, List.dropLast_concat]

theorem parseFourDigitYear_eq_some_iff {word : List Char} {year : ℤ} :
  parseFourDigitYear word = some year ↔ IsYearWord word year
  := by
  constructor
  · intro h
    simp only [parseFourDigitYear] at h
    split_ifs at h with hshape
    simp only [not_or, ne_eq, Classical.not_not, List.all_eq_true] at hshape
    rw [parseI32_digits hshape.2] at h
    obtain ⟨n, hn, rfl⟩ := Option.map_eq_some_iff.mp h
    exact ⟨_, n, dotted_dropLastIf word, hshape.1, isNumeral_of_parseDigits hn, rfl⟩
  · rintro ⟨digits, n, hword, hlength, ⟨hne, hdigits, rfl⟩, rfl⟩
    have hcore := dropLastIf_of_dotted hword hdigits
    have hlt := ofDigitChars_lt hlength hdigits
    have hall : digits.all Char.isDigit = true := List.all_eq_true.mpr hdigits
    have hascii : Domain.isAsciiDigits digits = true := by
      rw [Domain.isAsciiDigits, Bool.and_eq_true, decide_eq_true_eq]
      exact ⟨hne, hall⟩
    simp only [parseFourDigitYear, hcore, hlength, hall]
    rw [if_neg (by simp), parseI32_digits hdigits, parseDigits, if_pos hascii, Domain.parseBelow,
      if_pos (by omega)]
    rfl

theorem eq_of_splitOn {c : Char} {text first second third : List Char}
    (h : text.splitOn c = [first, second, third]) :
  text = first ++ c :: second ++ c :: third
  := by
  have hjoin : [c].intercalate (text.splitOn c) = text := List.intercalate_splitOn c
  rw [h, List.intercalate_cons_cons, List.intercalate_cons_cons, List.intercalate_singleton] at hjoin
  rw [← hjoin]
  simp only [List.append_assoc, List.cons_append, List.nil_append]

theorem isDate_of_parseIsoDate {word : List Char} {month day : ℕ} {year : Option ℤ}
    (h : parseIsoDate word = some (month, day, year)) (next : Option (List Char)) :
  IsDate [word] next month day year
  := by
  rw [parseIsoDate] at h
  split at h
  · rename_i yearText monthText dayText hparts
    split_ifs at h with hlengths
    simp only [not_or, ne_eq, Classical.not_not] at hlengths
    obtain ⟨year', hyear, h⟩ := Option.bind_eq_some_iff.mp h
    obtain ⟨month', hmonth, h⟩ := Option.bind_eq_some_iff.mp h
    obtain ⟨day', hday, h⟩ := Option.bind_eq_some_iff.mp h
    split_ifs at h
    cases h
    have hdotted := dotted_dropLastIf word
    rw [eq_of_splitOn hparts] at hdotted
    exact .iso hdotted (isInteger_of_parseI32 hyear) hlengths.1 (isInteger_of_parseU32 hmonth)
      hlengths.2.1 (isInteger_of_parseU32 hday) hlengths.2.2
  · cases h

theorem isDate_of_parseNumericDate {word : List Char} {month day : ℕ} {year : Option ℤ}
    (h : parseNumericDate word = some (month, day, year)) (next : Option (List Char)) :
  IsDate [word] next month day year
  := by
  rw [parseNumericDate] at h
  split at h
  · rename_i firstText secondText yearText hparts
    split_ifs at h with hlength
    rw [ne_eq, Classical.not_not] at hlength
    obtain ⟨first, hfirst, h⟩ := Option.bind_eq_some_iff.mp h
    obtain ⟨second, hsecond, h⟩ := Option.bind_eq_some_iff.mp h
    obtain ⟨year', hyear, h⟩ := Option.bind_eq_some_iff.mp h
    have hdotted := dotted_dropLastIf word
    rw [eq_of_splitOn hparts] at hdotted
    by_cases hswap : 12 < first ∧ second ≤ 12
    · simp only [if_pos hswap] at h
      split_ifs at h
      cases h
      exact .dayFirst hdotted hswap.1 (isInteger_of_parseI32 hyear) hlength
        (isInteger_of_parseU32 hsecond) (isInteger_of_parseU32 hfirst)
    · simp only [if_neg hswap] at h
      split_ifs at h
      cases h
      exact .monthFirst hdotted (isInteger_of_parseI32 hyear) hlength
        (isInteger_of_parseU32 hfirst) (isInteger_of_parseU32 hsecond)
  · cases h

theorem wordAt_eq_some {tokens : List (List Char × ℕ)} {i : ℕ} {word : List Char}
    (h : wordAt tokens i = some word) :
  ∃ offset, tokens.drop i = (word, offset) :: tokens.drop (i + 1)
  := by
  obtain ⟨⟨word', offset⟩, htoken, rfl⟩ := Option.map_eq_some_iff.mp h
  obtain ⟨hi, htoken⟩ := List.getElem?_eq_some_iff.mp htoken
  exact ⟨offset, by rw [List.drop_eq_getElem_cons hi, htoken]⟩

/-- What is matched is a date that is written in the words from there on. -/
theorem isDate_of_matchDateAt {tokens : List (List Char × ℕ)} {i consumed month day : ℕ}
    {year : Option ℤ} (h : matchDateAt tokens i = some ((month, day, year), consumed)) :
  ∃ firsts, tokens.drop i = firsts ++ tokens.drop (i + consumed) ∧ firsts ≠ []
    ∧ IsDate (firsts.map Prod.fst) (wordAt tokens (i + consumed)) month day year
  := by
  obtain ⟨word, hword, h⟩ := Option.bind_eq_some_iff.mp h
  obtain ⟨offset, hdrop⟩ := wordAt_eq_some hword
  split at h
  · rename_i parsed hparsed
    cases h
    refine ⟨[(word, offset)], hdrop, by simp, ?_⟩
    rcases Option.or_eq_some_iff.mp hparsed with hiso | ⟨-, hnumeric⟩
    · exact isDate_of_parseIsoDate hiso _
    · exact isDate_of_parseNumericDate hnumeric _
  · obtain ⟨⟨month', day'⟩, hmonthDay, h⟩ := Option.bind_eq_some_iff.mp h
    -- The two words are those of a month and of a day, in one order or the other.
    have hnext : ∃ next offset', tokens.drop (i + 1) = (next, offset') :: tokens.drop (i + 2)
        ∧ (IsMonthWord word month' ∧ IsDayWord next day'
          ∨ IsMonthWord next month' ∧ IsDayWord word day') := by
      rcases Option.or_eq_some_iff.mp hmonthDay with hfirst | ⟨-, hlast⟩
      · obtain ⟨m, hm, hfirst⟩ := Option.bind_eq_some_iff.mp hfirst
        obtain ⟨d, hd, heq⟩ := Option.map_eq_some_iff.mp hfirst
        obtain ⟨next, hnext, hd⟩ := Option.bind_eq_some_iff.mp hd
        obtain ⟨offset', hdrop'⟩ := wordAt_eq_some hnext
        cases heq
        exact ⟨next, offset', hdrop',
          Or.inl ⟨isMonthWord_of_monthNumber hm, isDayWord_of_parseDayOfMonth hd⟩⟩
      · split_ifs at hlast
        obtain ⟨d, hd, hlast⟩ := Option.bind_eq_some_iff.mp hlast
        obtain ⟨m, hm, heq⟩ := Option.map_eq_some_iff.mp hlast
        obtain ⟨next, hnext, hm⟩ := Option.bind_eq_some_iff.mp hm
        obtain ⟨offset', hdrop'⟩ := wordAt_eq_some hnext
        cases heq
        exact ⟨next, offset', hdrop',
          Or.inr ⟨isMonthWord_of_monthNumber hm, isDayWord_of_parseDayOfMonth hd⟩⟩
    obtain ⟨next, offset', hdrop', hwords⟩ := hnext
    rw [hdrop'] at hdrop
    simp only at h
    split at h
    · rename_i year' hyear
      cases h
      obtain ⟨yearWord, hyearWord, hyear⟩ := Option.bind_eq_some_iff.mp hyear
      obtain ⟨offset'', hdrop''⟩ := wordAt_eq_some hyearWord
      have hyear' := parseFourDigitYear_eq_some_iff.mp hyear
      rw [hdrop''] at hdrop
      refine ⟨[(word, offset), (next, offset'), (yearWord, offset'')], hdrop, by simp, ?_⟩
      rcases hwords with ⟨hmonth, hday⟩ | ⟨hmonth, hday⟩
      · exact .monthDayYear hmonth hday hyear'
      · exact .dayMonthYear hmonth hday hyear'
    · rename_i hyear
      cases h
      have hnone : ∀ yearWord y, wordAt tokens (i + 2) = some yearWord → ¬IsYearWord yearWord y := by
        intro yearWord y hyearWord hy
        rw [hyearWord, Option.bind_some, parseFourDigitYear_eq_some_iff.mpr hy] at hyear
        cases hyear
      refine ⟨[(word, offset), (next, offset')], hdrop, by simp, ?_⟩
      rcases hwords with ⟨hmonth, hday⟩ | ⟨hmonth, hday⟩
      · exact .monthDay hmonth hday hnone
      · exact .dayMonth hmonth hday hnone

/-! ### Placing dates -/

variable {chrono}

theorem resolveDate_eq {messageTimestamp offset : ℤ} {month day : ℕ} {year : Option ℤ}
    {date : Domain.CivilDate}
    (h : resolveDate chrono messageTimestamp offset (month, day, year) = some date) :
  date.month.toNat = month ∧ date.day.toNat = day ∧ ∀ y, year = some y → date.year.toInt = y
  := by
  cases year with
  | some year =>
      obtain ⟨hyear, hmonth, hday⟩ := chrono.fromYmdOpt_eq h
      refine ⟨hmonth, hday, fun y hy => ?_⟩
      rw [hyear, Option.some.inj hy]
  | none =>
      have hnone : ∀ y, (none : Option ℤ) = some y → date.year.toInt = y := fun _ h => nomatch h
      obtain ⟨date', hdate', h⟩ := Option.bind_eq_some_iff.mp h
      split_ifs at h
      · obtain ⟨-, hmonth, hday⟩ := chrono.fromYmdOpt_eq h
        exact ⟨hmonth, hday, hnone⟩
      · obtain ⟨-, hmonth, hday⟩ := chrono.fromYmdOpt_eq hdate'
        rw [← Option.some.inj h]
        exact ⟨hmonth, hday, fun _ h => nomatch h⟩

/-- Later years begin later. -/
theorem number_lt_of_year_lt {date later : Domain.CivilDate} (h : date.year.toInt < later.year.toInt) :
  date.number < later.number
  := (date.number_lt_iff later).mpr (Or.inl (Int32.lt_iff_toInt_lt.mpr h))

/-- A date without a year is not put far before a message whose year is known: a date of the next year
is after the message. -/
theorem resolveDate_near {messageTimestamp offset : ℤ} {month day : ℕ} {date : Domain.CivilDate}
    (hyear : (chrono.yearOf (messageTimestamp + offset)).isSome)
    (h : resolveDate chrono messageTimestamp offset (month, day, none) = some date) :
  messageTimestamp - 60 * 86400 ≤ midnight date - offset
  := by
  obtain ⟨year, hyear⟩ := Option.isSome_iff_exists.mp hyear
  obtain ⟨today, htoday, hnumber⟩ := chrono.yearOf_eq hyear
  obtain ⟨date', -, h⟩ := Option.bind_eq_some_iff.mp h
  split_ifs at h with hbefore
  · obtain ⟨hnext, -⟩ := chrono.fromYmdOpt_eq h
    have hlater : today.number < date.number := by
      apply number_lt_of_year_lt
      rw [hnext, htoday, localYear, hyear, Option.getD_some]
      omega
    rw [midnight]
    omega
  · rw [← Option.some.inj h]
    omega

/-! ### Candidates -/

/-- A date of a text, from one offset in bytes to another. -/
structure WrittenDate where
  start : ℕ
  stop : ℕ
  month : ℕ
  day : ℕ
  year : Option ℤ

/-- The date is written in the text, in words of their own. -/
def IsWritten (text : List Char) (d : WrittenDate) : Prop :=
  ∃ before part after words next, text = before ++ part ++ after
    ∧ d.start = (Utf8.bytes before).length ∧ d.stop = (Utf8.bytes (before ++ part)).length
    ∧ (∀ c, before.getLast? = some c → isWordChar c = false) ∧ BeginsApart after
    ∧ Joins part words ∧ FirstWord after next ∧ IsDate words next d.month d.day d.year

variable (chrono)

/-- The candidate stands where the date does; it is at most a day long and begins on the date, as it is
read at the offset. -/
structure IsCandidate (text : List Char) (offset : ℤ) (candidate : ℤ × ℤ × ℕ) (d : WrittenDate) :
    Prop where
  written : IsWritten text d
  place : candidate.2.2 = d.start
  nonempty : d.start < d.stop
  lasts : 0 < candidate.2.1 - candidate.1 ∧ candidate.2.1 - candidate.1 ≤ 86400
  date : ∃ date : Domain.CivilDate, date.number = (candidate.1 + offset) / 86400
    ∧ date.month.toNat = d.month ∧ date.day.toNat = d.day
    ∧ ∀ year, d.year = some year → date.year.toInt = year

/-- A date without a year is at most sixty days before the message. -/
def IsNear (messageTimestamp : ℤ) (candidate : ℤ × ℤ × ℕ) (d : WrittenDate) : Prop :=
  d.year = none → messageTimestamp - 60 * 86400 ≤ candidate.1

theorem Joins.length_pos {part : List Char} {words : List (List Char)} (h : Joins part words) :
  0 < (Utf8.bytes part).length
  := by
  obtain ⟨c, hc, -⟩ := h.exists_head
  apply Utf8.length_bytes_pos.mpr
  rintro rfl
  cases hc

/-- The candidate of a match. -/
theorem exists_isCandidate {text : List Char} {messageTimestamp offset : ℤ} {i consumed : ℕ}
    (hi : i < (proseTokens text).length) {matched : MatchedDate}
    (hmatch : matchDateAt (proseTokens text) i = some (matched, consumed)) {date : Domain.CivilDate}
    (hdate : resolveDate chrono messageTimestamp offset matched = some date) {start stop : ℤ}
    (hspan : IsSpan start stop) :
  ∃ d : WrittenDate, IsCandidate text offset
      (midnight date + start - offset, midnight date + stop - offset, (proseTokens text)[i].2) d
    ∧ ((chrono.yearOf (messageTimestamp + offset)).isSome → IsNear messageTimestamp
      (midnight date + start - offset, midnight date + stop - offset, (proseTokens text)[i].2) d)
    ∧ ∀ token ∈ (proseTokens text).drop (i + consumed), d.stop ≤ token.2
  := by
  obtain ⟨month, day, year⟩ := matched
  obtain ⟨firsts, hdrop, hne, hisDate⟩ := isDate_of_matchDateAt hmatch
  have htokens : proseTokens text = (proseTokens text).take i
      ++ (firsts ++ (proseTokens text).drop (i + consumed)) := by
    rw [← hdrop, List.take_append_drop]
  obtain ⟨before, part, after, rfl, hhead, hbefore, hjoins, hafter, hmore⟩ :=
    proseTokens_split htokens hne
  have hplace : (proseTokens (before ++ part ++ after))[i].2 = (Utf8.bytes before).length := by
    have hfirst : firsts.head? = some (proseTokens (before ++ part ++ after))[i] := by
      have hcons := List.drop_eq_getElem_cons hi
      rw [hdrop] at hcons
      have hheads := congrArg List.head? hcons
      rwa [List.head?_append_of_ne_nil _ hne, List.head?_cons] at hheads
    rw [hfirst, Option.map_some, Option.some.injEq] at hhead
    exact hhead
  have hnext : FirstWord after (wordAt (proseTokens (before ++ part ++ after)) (i + consumed)) := by
    have hfirst := firstWord_tokensFrom (Utf8.bytes (before ++ part)).length after
    rwa [← hmore, List.head?_drop] at hfirst
  obtain ⟨hmonth, hday, hyear⟩ := resolveDate_eq hdate
  obtain ⟨⟨hfrom, hto⟩, hlasts⟩ := hspan
  refine ⟨⟨(Utf8.bytes before).length, (Utf8.bytes (before ++ part)).length, month, day, year⟩,
    ⟨⟨before, part, after, _, _, rfl, rfl, rfl, hbefore, hafter, hjoins, hnext, hisDate⟩, hplace, ?_,
      ?_, date, ?_, hmonth, hday, hyear⟩, ?_, ?_⟩
  · have hpos := hjoins.length_pos
    simp only [length_bytes_append]
    omega
  · simp only
    omega
  · simp only [midnight]
    omega
  · intro hknown hnone
    obtain rfl : year = none := hnone
    have hnear := resolveDate_near hknown hdate
    simp only
    omega
  · intro token htoken
    rw [hmore] at htoken
    exact le_of_mem_tokensFrom htoken

section

variable {chrono} (text : List Char) {messageTimestamp offset : ℤ} {tokens : List (List Char × ℕ)}
variable {i : ℕ} (hi : i < tokens.length)

include hi

theorem candidatesFrom_skip
    (h : ∀ matched consumed, matchDateAt tokens i = some (matched, consumed) →
      resolveDate chrono messageTimestamp offset matched = none) :
  candidatesFrom chrono text messageTimestamp offset tokens i
    = candidatesFrom chrono text messageTimestamp offset tokens (i + 1)
  := by
  rw [candidatesFrom, dif_pos hi]
  split
  · rfl
  · rename_i matched consumed hmatch
    rw [h matched consumed hmatch]

theorem exists_candidatesFrom {matched : MatchedDate} {consumed : ℕ}
    (hmatch : matchDateAt tokens i = some (matched, consumed)) {date : Domain.CivilDate}
    (hdate : resolveDate chrono messageTimestamp offset matched = some date) :
  ∃ start stop, IsSpan start stop
    ∧ candidatesFrom chrono text messageTimestamp offset tokens i
      = (midnight date + start - offset, midnight date + stop - offset, tokens[i].2)
        :: candidatesFrom chrono text messageTimestamp offset tokens (i + consumed)
  := by
  rw [candidatesFrom, dif_pos hi]
  split
  · rename_i hnone
    rw [hmatch] at hnone
    cases hnone
  · rename_i matched' consumed' hmatch'
    rw [hmatch] at hmatch'
    cases hmatch'
    simp only [hdate]
    cases htime : parseProseTime text tokens (i + consumed) with
    | none => exact ⟨0, endOfDay, endOfDay_isSpan, rfl⟩
    | some time =>
        obtain ⟨start, stop, count⟩ := time
        exact ⟨start, stop, parseProseTime_isSpan htime, rfl⟩

end

/-- From a word on, the candidates stand one after the other. -/
theorem candidatesFrom_spec (text : List Char) (messageTimestamp offset : ℤ) (i : ℕ) :
  ∃ dates : List WrittenDate,
    List.Forall₂ (IsCandidate text offset)
      (candidatesFrom chrono text messageTimestamp offset (proseTokens text) i) dates
    ∧ ((chrono.yearOf (messageTimestamp + offset)).isSome →
      List.Forall₂ (IsNear messageTimestamp)
        (candidatesFrom chrono text messageTimestamp offset (proseTokens text) i) dates)
    ∧ dates.Pairwise (fun d d' => d.stop ≤ d'.start)
    ∧ ∀ bound, (∀ token ∈ (proseTokens text).drop i, bound ≤ token.2) →
      ∀ d ∈ dates, bound ≤ d.start
  := by
  induction hn : (proseTokens text).length - i using Nat.strong_induction_on generalizing i with
  | h n ih =>
      subst hn
      by_cases hi : i < (proseTokens text).length
      · by_cases hskip : ∀ matched consumed,
            matchDateAt (proseTokens text) i = some (matched, consumed) →
              resolveDate chrono messageTimestamp offset matched = none
        · obtain ⟨dates, hdates, hnear, hapart, hbound⟩ := ih _ (by omega) (i + 1) rfl
          rw [candidatesFrom_skip text hi hskip]
          refine ⟨dates, hdates, hnear, hapart, fun bound h => hbound bound fun token htoken => ?_⟩
          apply h token
          rw [List.drop_eq_getElem_cons hi]
          exact List.mem_cons_of_mem _ htoken
        · push Not at hskip
          obtain ⟨matched, consumed, hmatch, hdate⟩ := hskip
          obtain ⟨date, hdate⟩ := Option.ne_none_iff_exists'.mp hdate
          have hpos := consumed_pos hmatch
          obtain ⟨dates, hdates, hnear, hapart, hbound⟩ := ih _ (by omega) (i + consumed) rfl
          obtain ⟨start, stop, hspan, heq⟩ := exists_candidatesFrom text hi hmatch hdate
          obtain ⟨d, hd, hdnear, hstop⟩ := exists_isCandidate chrono hi hmatch hdate hspan
          rw [heq]
          refine ⟨d :: dates, .cons hd hdates, fun hknown => .cons (hdnear hknown) (hnear hknown),
            List.pairwise_cons.mpr ⟨hbound _ hstop, hapart⟩, fun bound h d' hd' => ?_⟩
          have hfirst : bound ≤ d.start := by
            rw [← hd.place]
            apply h
            rw [List.drop_eq_getElem_cons hi]
            exact List.mem_cons_self
          rcases List.mem_cons.mp hd' with rfl | hd'
          · exact hfirst
          · have hle := hbound _ hstop d' hd'
            have hlt := hd.nonempty
            omega
      · rw [candidatesFrom, dif_neg hi]
        exact ⟨[], .nil, fun _ => .nil, .nil, fun _ _ d hd => nomatch hd⟩

/-- The candidates of dates that are apart stand one after the other. -/
theorem pairwise_place {text : List Char} {offset : ℤ} {candidates : List (ℤ × ℤ × ℕ)}
    {dates : List WrittenDate} (h : List.Forall₂ (IsCandidate text offset) candidates dates)
    (hapart : dates.Pairwise fun d d' => d.stop ≤ d'.start) :
  candidates.Pairwise fun candidate later => candidate.2.2 < later.2.2
  := by
  induction h with
  | nil => exact .nil
  | @cons candidate d candidates dates hd hdates ih =>
      rw [List.pairwise_cons] at hapart
      apply List.pairwise_cons.mpr
      refine ⟨fun later hlater => ?_, ih hapart.2⟩
      obtain ⟨k, hk, rfl⟩ := List.mem_iff_getElem.mp hlater
      have hk' : k < dates.length := by rwa [← hdates.length_eq]
      have hd' := hdates.get hk hk'
      have hle := hapart.1 _ (List.getElem_mem hk')
      have hlt := hd.nonempty
      have hplace := hd.place
      have hplace' := hd'.place
      simp only [List.get_eq_getElem] at hplace'
      omega

/-- The number of the first of January. -/
def newYear (year : ℤ) : ℤ :=
  Domain.monthStart (12 * year - 2)

theorem strictMono_newYear :
  StrictMono newYear
  := by
  intro year later h
  apply Domain.strictMono_monthStart
  omega

/-- A date is between the first of January of its year and the next one. -/
theorem number_mem_year (date : Domain.CivilDate) :
  newYear date.year.toInt ≤ date.number ∧ date.number < newYear (date.year.toInt + 1)
  := by
  have hmonth := date.mem_month
  rw [Blocks.Mem, Domain.monthNumber] at hmonth
  have hfrom := date.one_le_month
  have hto := date.month_le
  constructor
  · apply le_trans _ hmonth.1
    apply Domain.strictMono_monthStart.monotone
    omega
  · apply lt_of_lt_of_le hmonth.2
    apply Domain.strictMono_monthStart.monotone
    omega

/-- The year of a day, which is near the number of mean years since the epoch. -/
def yearOfDay (n : ℤ) : ℤ :=
  let year := n * 400 / 146097 + 1970
  if newYear (year + 1) ≤ n then year + 1 else if newYear year ≤ n then year else year - 1

/-- The first of January is near the number of mean years. -/
theorem newYear_bounds (year : ℤ) :
  146097 * (year - 1970) - 700 ≤ 400 * newYear year
    ∧ 400 * newYear year ≤ 146097 * (year - 1970) + 700
  := by
  have hquot : (12 * year - 2) / 12 = year - 1 := by omega
  have hrest : (12 * year - 2) % 12 = 10 := by omega
  rw [newYear, Domain.monthStart, hquot, hrest]
  omega

theorem yearOfDay_mem (n : ℤ) :
  newYear (yearOfDay n) ≤ n ∧ n < newYear (yearOfDay n + 1)
  := by
  rw [yearOfDay]
  have hbefore := (newYear_bounds (n * 400 / 146097 + 1970 - 1)).2
  have hafter := (newYear_bounds (n * 400 / 146097 + 1970 + 1 + 1)).1
  split_ifs with hlate hin
  · exact ⟨hlate, by omega⟩
  · exact ⟨hin, not_le.mp hlate⟩
  · rw [Int.sub_add_cancel]
    exact ⟨by omega, not_le.mp hin⟩

theorem year_eq_of_number {date : Domain.CivilDate} {year : ℤ}
    (h : newYear year ≤ date.number ∧ date.number < newYear (year + 1)) :
  date.year.toInt = year
  := by
  have hdate := number_mem_year date
  have hle := strictMono_newYear.lt_iff_lt.mp (lt_of_le_of_lt hdate.1 h.2)
  have hge := strictMono_newYear.lt_iff_lt.mp (lt_of_le_of_lt h.1 hdate.2)
  omega

/-- The years of the library. -/
def isChronoYear (year : ℤ) : Bool :=
  -262143 ≤ year && year ≤ 262142

theorem fromYmdOpt_gregorian {year : ℤ} {month day : ℕ} {date : Domain.CivilDate}
    (h : (if isChronoYear year ∧ month ≤ 12 ∧ day ≤ 31 then
      if h : Domain.isValidCivilDate (.ofInt year) (.ofNat month) (.ofNat day) = true then
        some (⟨.ofInt year, .ofNat month, .ofNat day, h⟩ : Domain.CivilDate)
      else none
    else none) = some date) :
  date.year.toInt = year ∧ date.month.toNat = month ∧ date.day.toNat = day
  := by
  split_ifs at h with hrange hvalid
  rw [isChronoYear, Bool.and_eq_true, decide_eq_true_eq, decide_eq_true_eq] at hrange
  cases h
  refine ⟨Int32.toInt_ofInt_of_le ?_ ?_, ?_, ?_⟩
  · omega
  · omega
  · rw [UInt32.toNat_ofNat']
    omega
  · rw [UInt32.toNat_ofNat']
    omega

theorem yearOf_gregorian {timestamp year : ℤ}
    (h : (some (yearOfDay (timestamp / 86400)) |>.filter isChronoYear) = some year) :
  ∃ date : Domain.CivilDate, date.year.toInt = year ∧ date.number = timestamp / 86400
  := by
  obtain ⟨hyear, hrange⟩ := Option.filter_eq_some_iff.mp h
  obtain rfl := Option.some.inj hyear
  have hmem := yearOfDay_mem (timestamp / 86400)
  rw [isChronoYear, Bool.and_eq_true, decide_eq_true_eq, decide_eq_true_eq] at hrange
  have hfirst : Domain.CivilDate.first.number ≤ newYear (-262143) := by decide
  have hlast : newYear 262143 ≤ Domain.CivilDate.last.number := by decide
  have hfrom := strictMono_newYear.monotone hrange.1
  have hto : newYear (yearOfDay (timestamp / 86400) + 1) ≤ newYear 262143 :=
    strictMono_newYear.monotone (by omega)
  obtain ⟨date, -, hdate⟩ := Domain.CivilDate.surjOn_number
    (show timestamp / 86400 ∈ Set.Icc _ _ from ⟨by omega, by omega⟩)
  refine ⟨date, ?_, hdate⟩
  apply year_eq_of_number
  rwa [hdate]

/-- The dates of the calendar, with the years of the library. -/
def gregorian : Chrono where
  fromYmdOpt year month day :=
    if isChronoYear year ∧ month ≤ 12 ∧ day ≤ 31 then
      if h : Domain.isValidCivilDate (.ofInt year) (.ofNat month) (.ofNat day) = true then
        some ⟨.ofInt year, .ofNat month, .ofNat day, h⟩
      else none
    else none
  yearOf timestamp := some (yearOfDay (timestamp / 86400)) |>.filter isChronoYear
  parseFromStr _ := none
  fromYmdOpt_eq := @fromYmdOpt_gregorian
  yearOf_eq := @yearOf_gregorian

/-- Words are parts of a text that is made of them. -/
theorem Joins.isInfix {part word : List Char} {words : List (List Char)} (h : Joins part words)
    (hword : word ∈ words) :
  word <:+: part
  := by
  induction h with
  | single _ =>
      rw [List.mem_singleton.mp hword]
  | @cons first gap rest words _ _ _ _ ih =>
      rcases List.mem_cons.mp hword with rfl | hword
      · exact ⟨[], gap ++ rest, by simp⟩
      · exact (ih hword).trans ⟨first ++ gap, [], by simp⟩

/-- A text without dashes and slashes and with fewer than four digits has no year. -/
theorem IsWritten.year_eq_none {text : List Char} {d : WrittenDate} (h : IsWritten text d)
    (hdash : '-' ∉ text) (hslash : '/' ∉ text) (hdigits : text.countP Char.isDigit < 4) :
  d.year = none
  := by
  obtain ⟨before, part, after, words, next, rfl, -, -, -, -, hjoins, -, hdate⟩ := h
  have hpart : ∀ word ∈ words, word <:+: before ++ part ++ after := fun word hword =>
    (hjoins.isInfix hword).trans ⟨before, after, rfl⟩
  -- A word with the character is not there.
  have hmem : ∀ {c : Char} {word core : List Char}, c ∉ before ++ part ++ after → word ∈ words →
      Dotted word core → c ∉ core := by
    intro c word core hc hword hdotted hcore
    apply hc
    apply (hpart word hword).subset
    rcases hdotted with rfl | rfl
    · exact hcore
    · exact List.mem_append_left _ hcore
  have hyear : ∀ {word : List Char} {year : ℤ}, word ∈ words → ¬IsYearWord word year := by
    rintro word year hword ⟨digits, n, hdotted, hlength, ⟨-, hall, -⟩, -⟩
    have hcount : digits.countP Char.isDigit = 4 := by
      rw [List.countP_eq_length.mpr hall, hlength]
    have hle := (hpart word hword).sublist.countP_le (p := Char.isDigit)
    rcases hdotted with rfl | rfl
    · omega
    · rw [List.countP_append] at hle
      omega
  generalize d.year = year at hdate ⊢
  cases hdate with
  | iso hword => exact absurd (by simp) (hmem hdash (by simp) hword)
  | monthFirst hword => exact absurd (by simp) (hmem hslash (by simp) hword)
  | dayFirst hword => exact absurd (by simp) (hmem hslash (by simp) hword)
  | monthDay _ _ _ => rfl
  | dayMonth _ _ _ => rfl
  | monthDayYear _ _ hword => exact absurd hword (hyear (by simp))
  | dayMonthYear _ _ hword => exact absurd hword (hyear (by simp))

end EventTimes

end Review
