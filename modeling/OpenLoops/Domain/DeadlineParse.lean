import OpenLoops.Domain.LocalTime
import OpenLoops.Library.Text
import Mathlib.Algebra.Order.Group.Abs
import Mathlib.Algebra.Order.Ring.Int
import Mathlib.Tactic.Ring

/-!
# Parsing of deadlines

The deterministic parser of temporal expressions.  An expression is read in the context of the
message that has it: relative to the day of the message, in its zone.
-/

namespace Domain

variable {ε : Type*}

/-! ### Days of the week -/

/-- The day that many days later; the call panics when it is out of range. -/
def CivilDay.addDays (day : CivilDay) (count : ℤ) : Except (Failure ε) CivilDay := do
  let days ← (Int64.checked (day.days.toInt + count)).okOr .panicked
  return ⟨days⟩

/-- The place of a day in its week, from Sunday on; the epoch began on a Thursday. -/
def weekdayIndex (day : CivilDay) : ℤ :=
  (day.days.toInt % 7 + 4) % 7

inductive Weekday where
  | sunday
  | monday
  | tuesday
  | wednesday
  | thursday
  | friday
  | saturday
deriving DecidableEq, Repr

def Weekday.index : Weekday → ℤ
  | sunday => 0
  | monday => 1
  | tuesday => 2
  | wednesday => 3
  | thursday => 4
  | friday => 5
  | saturday => 6

/-- The day of the week with an English name in small letters. -/
def Weekday.fromName : String → Option Weekday
  | "sunday" => some .sunday
  | "monday" => some .monday
  | "tuesday" => some .tuesday
  | "wednesday" => some .wednesday
  | "thursday" => some .thursday
  | "friday" => some .friday
  | "saturday" => some .saturday
  | _ => none

def isBusinessDay (day : CivilDay) : Bool :=
  weekdayIndex day ≠ 0 && weekdayIndex day ≠ 6

theorem isBusinessDay_iff {day : CivilDay} :
  isBusinessDay day = true ↔ weekdayIndex day ≠ 0 ∧ weekdayIndex day ≠ 6
  := by simp [isBusinessDay]

/-- The first day on the way from a day on that is as wanted, within so many days. -/
def CivilDay.seek (wanted : CivilDay → Bool) (step : ℤ) : ℕ → CivilDay →
    Except (Failure ε) CivilDay
  | 0, _ => .error .panicked
  | fuel + 1, day => if wanted day then .ok day else do seek wanted step fuel (← day.addDays step)

/-- The next business day after a day. -/
def nextBusinessDay («from» : CivilDay) : Except (Failure ε) CivilDay := do
  CivilDay.seek isBusinessDay 1 7 (← «from».addDays 1)

/-- The day so many business days later. -/
def addBusinessDays («from» : CivilDay) : ℕ → Except (Failure ε) CivilDay
  | 0 => .ok «from»
  | count + 1 => do addBusinessDays (← nextBusinessDay «from») count

/-- The next such day of the week from a day on, or after it. -/
def nextWeekday («from» : CivilDay) (target : Weekday) (strictlyAfter : Bool) :
    Except (Failure ε) CivilDay := do
  let day ← (if strictlyAfter then «from».addDays 1 else .ok «from»)
  CivilDay.seek (weekdayIndex · = target.index) 1 7 day

/-- The last such day of the week up to a day. -/
def previousOrSameWeekday («from» : CivilDay) (target : Weekday) :
    Except (Failure ε) CivilDay :=
  CivilDay.seek (weekdayIndex · = target.index) (-1) 7 «from»

/-! ### Contexts and values -/

/-- The context of a message, in which its expressions are read. -/
structure ParseContext where
  messageTimestamp : UnixSeconds
  timezone : TimezoneContext
  /-- The time of the end of a day. -/
  eodSecondsSinceMidnight : UInt32
  weekStart : Weekday
deriving DecidableEq, Repr

/-- The day of a message. -/
def messageLocalDay (context : ParseContext) : Except (Failure ε) CivilDay := do
  let offset := offsetAt context.messageTimestamp context.timezone
  let localSeconds ←
    (Int64.checked (context.messageTimestamp.seconds.toInt + offset.toInt)).okOr .panicked
  return ⟨Int64.ofInt (localSeconds.toInt / 86400)⟩

/-- The kind of an expression, as it is declared. -/
inductive TemporalKind where
  | date
  | localDatetime
  | relative
  | eventRelative
  | softWindow
deriving DecidableEq, Repr

/-- Why an expression is rejected. -/
inductive ParseRejection where
  | unrecognizedText
  | invalidCalendarComponent
  | countOutOfRange
deriving DecidableEq, Repr

/-- The greatest number of days of an expression. -/
def maximumRelativeDayCount : ℕ := 3650

/-- What an expression is read as. -/
inductive ParsedValue where
  | instant (resolution : LocalResolution)
  | date (day : CivilDay)
  | businessDay (day : CivilDay)
  | week (start «end» : CivilDay)
  | eventRelative
  | soft
deriving DecidableEq, Repr

/-! ### Parsing -/

/-- What is read of an expression, or why it is not. -/
abbrev Parsed (α : Type) : Type :=
  Except (Failure ParseRejection) α

/-- A rejection of the expression. -/
def reject {α : Type} (rejection : ParseRejection) : Parsed α :=
  .error (.error rejection)

def instantAt (day : CivilDay) (context : ParseContext) : Parsed ParsedValue := do
  let resolution ←
    (resolveLocal day context.eodSecondsSinceMidnight context.timezone).okOr .panicked
  return .instant resolution

/-- The first and the last day of the week of a day, or of the next one. -/
def weekRange (today : CivilDay) (weekStart : Weekday) (next : Bool) :
    Parsed (CivilDay × CivilDay) := do
  let thisWeekStart ← previousOrSameWeekday today weekStart
  let start ← (if next then thisWeekStart.addDays 7 else .ok thisWeekStart)
  return (start, ← start.addDays 6)

def isAsciiDigits (value : List Char) : Bool :=
  value ≠ [] && value.all Char.isDigit

/-- The number that digits write, when it is below the bound. -/
def parseBelow (bound : ℕ) (digits : List Char) : Option ℕ :=
  let n := Nat.ofDigitChars 10 digits 0
  if n < bound then some n else none

def parseBoundedCount (token : String) : Parsed ℕ :=
  if ¬isAsciiDigits token.toList then reject .unrecognizedText
  else match parseBelow (2 ^ 32) token.toList with
    | none => reject .countOutOfRange
    | some count =>
        if maximumRelativeDayCount < count then reject .countOutOfRange else .ok count

def parseSoft (value : String) : Parsed ParsedValue :=
  match String.ofList (toAsciiLowercase (trim value.toList)) with
  | "asap" | "when you can" | "when you get a chance" => .ok .soft
  | _ => reject .unrecognizedText

/-- The number of a component of a date or a time. -/
def parseComponent (bound : ℕ) (digits : List Char) : Parsed ℕ :=
  (parseBelow bound digits).okOr (.error .unrecognizedText)

/-- The components of a date.  A value with characters beyond ASCII is not recognized, whether
positions are those of characters or those of bytes. -/
def parseDateComponents (value : List Char) : Parsed (Int32 × UInt32 × UInt32) :=
  if value.length ≠ 10 || value[4]? ≠ some '-' || value[7]? ≠ some '-' then
    reject .unrecognizedText
  else do
    let yearText := value.take 4
    let monthText := (value.drop 5).take 2
    let dayText := value.drop 8
    if ¬isAsciiDigits yearText || ¬isAsciiDigits monthText || ¬isAsciiDigits dayText then
      reject .unrecognizedText
    else
      let year ← parseComponent (2 ^ 31) yearText
      let month ← parseComponent (2 ^ 32) monthText
      let day ← parseComponent (2 ^ 32) dayText
      if ¬isValidCivilDate (.ofNat year) (.ofNat month) (.ofNat day) then
        reject .invalidCalendarComponent
      else return (.ofNat year, .ofNat month, .ofNat day)

/-- The hour, the minute and the second of a time. -/
def parseTimeComponents (value : List Char) : Parsed (UInt32 × UInt32 × UInt32) := do
  let (hourText, minuteText, secondText) ← match value.splitOn ':' with
    | [hour, minute] => .ok (hour, minute, ['0', '0'])
    | [hour, minute, second] => .ok (hour, minute, second)
    | _ => reject .unrecognizedText
  if ¬isAsciiDigits hourText || ¬isAsciiDigits minuteText || ¬isAsciiDigits secondText then
    reject .unrecognizedText
  else
    let hour ← parseComponent (2 ^ 32) hourText
    let minute ← parseComponent (2 ^ 32) minuteText
    let second ← parseComponent (2 ^ 32) secondText
    if 23 < hour || 59 < minute || 59 < second then reject .invalidCalendarComponent
    else return (.ofNat hour, .ofNat minute, .ofNat second)

def parseExplicitDate (value : String) : Parsed ParsedValue := do
  let (year, month, day) ← parseDateComponents value.toList
  return .date (.ofCivil year month day)

def parseExplicitDatetime (value : String) (context : ParseContext) : Parsed ParsedValue := do
  let characters := value.toList
  if characters.length < 12 then reject .unrecognizedText
  else if characters[10]? ≠ some 'T' && characters[10]? ≠ some ' ' then
    reject .unrecognizedText
  else
    let (year, month, day) ← parseDateComponents (characters.take 10)
    let (hour, minute, second) ← parseTimeComponents (characters.drop 11)
    instantAt (.ofCivil year month day)
      { context with eodSecondsSinceMidnight := hour * 3600 + minute * 60 + second }

/-- The words of a relative expression, in small letters. -/
def relativeTokens (value : String) : List String :=
  (splitWhitespace (toAsciiLowercase (trim value.toList))).map String.ofList

/-- Read the words of a relative expression on the day of the message. -/
def parseRelativeTokens (today : CivilDay) (context : ParseContext) :
    List String → Parsed ParsedValue
  | ["today"] => .ok (.date today)
  | ["today", "eod"] | ["eod", "today"] | ["eod"] => instantAt today context
  | ["tomorrow"] => do return .date (← today.addDays 1)
  | ["tomorrow", "eod"] | ["eod", "tomorrow"] => do instantAt (← today.addDays 1) context
  | ["next", "week"] => do
      let (start, «end») ← weekRange today context.weekStart true
      return .week start «end»
  | ["this", "week"] | ["end", "of", "week"] => do
      let (start, «end») ← weekRange today context.weekStart false
      return .week start «end»
  | ["next", "business", "day"] => do return .businessDay (← nextBusinessDay today)
  | ["asap"] | ["when", "you", "can"] | ["when", "you", "get", "a", "chance"] => .ok .soft
  | [weekday, "eod"] | ["eod", weekday] =>
      match Weekday.fromName weekday with
      | none => reject .unrecognizedText
      | some target => do instantAt (← nextWeekday today target true) context
  | [weekday] =>
      match Weekday.fromName weekday with
      | none => reject .unrecognizedText
      | some target => do return .date (← nextWeekday today target true)
  | ["in", count, "business", "days"] => do
      let count ← parseBoundedCount count
      return .businessDay (← addBusinessDays today count)
  | ["in", count, "days"] => do
      let count ← parseBoundedCount count
      return .date (← today.addDays count)
  | _ => reject .unrecognizedText

def parseRelative (value : String) (context : ParseContext) : Parsed ParsedValue := do
  let today ← messageLocalDay context
  parseRelativeTokens today context (relativeTokens value)

/-- Read an expression of the declared kind. -/
def reparse (kind : TemporalKind) (value : String) (context : ParseContext) :
    Parsed ParsedValue :=
  match kind with
  | .eventRelative => .ok .eventRelative
  | .softWindow => parseSoft value
  | .date => parseExplicitDate value
  | .localDatetime => parseExplicitDatetime value context
  | .relative => parseRelative value context

/-! ### Days in range -/

/-- A number of days that seconds of 64 bits reach, with room for the days of an expression. -/
def CivilDay.InRange (day : CivilDay) (room : ℤ) : Prop :=
  -2 ^ 60 - room ≤ day.days.toInt ∧ day.days.toInt ≤ 2 ^ 60 + room

/-- A day in range has a day so many days later. -/
theorem CivilDay.InRange.exists_addDays {day : CivilDay} {room : ℤ} (h : day.InRange room)
    (hroom : room ≤ 2 ^ 59) {count : ℤ} (hcount : |count| ≤ 2 ^ 59) :
  ∃ later : CivilDay, day.addDays (ε := ε) count = .ok later
    ∧ later.days.toInt = day.days.toInt + count
  := by
  obtain ⟨hlower, hupper⟩ := abs_le.mp hcount
  obtain ⟨hfrom, hto⟩ := h
  obtain ⟨days, hdays⟩ : ∃ x, Int64.checked (day.days.toInt + count) = some x := by
    apply Int64.exists_checked
    · omega
    · omega
  refine ⟨⟨days⟩, ?_, Int64.checked_eq_some.mp hdays⟩
  rw [CivilDay.addDays, hdays]
  rfl

/-- What is wanted of a day in range is found, when it is there within the days looked at. -/
theorem CivilDay.InRange.exists_seek {day : CivilDay} {room : ℤ} (h : day.InRange room)
    (wanted : CivilDay → Bool) (step : ℤ) (hstep : |step| ≤ 1) (fuel : ℕ)
    (hroom : room + fuel ≤ 2 ^ 59) {k : ℕ} (hk : k < fuel)
    (hwanted : ∀ later : CivilDay, later.days.toInt = day.days.toInt + k * step →
      wanted later = true) :
  ∃ found, CivilDay.seek (ε := ε) wanted step fuel day = .ok found ∧ found.InRange (room + k)
  := by
  obtain ⟨hlower, hupper⟩ := abs_le.mp hstep
  induction fuel generalizing day room k with
  | zero => omega
  | succ fuel ih =>
      rw [CivilDay.seek]
      by_cases hday : wanted day = true
      · rw [if_pos hday]
        obtain ⟨hfrom, hto⟩ := h
        exact ⟨day, rfl, by omega, by omega⟩
      · rw [if_neg hday]
        -- the day itself is not wanted, so it is not the last one
        obtain ⟨k, rfl⟩ : ∃ j, k = j + 1 := by
          apply Nat.exists_eq_succ_of_ne_zero
          rintro rfl
          apply hday
          apply hwanted
          simp
        obtain ⟨next, hnext, hdays⟩ := h.exists_addDays (ε := ε) (by omega)
          (show |step| ≤ 2 ^ 59 by omega)
        have hrange : next.InRange (room + 1) := by
          obtain ⟨hfrom, hto⟩ := h
          constructor
          · omega
          · omega
        obtain ⟨found, hfound, hin⟩ := ih hrange (by push_cast at hroom; omega)
          (Nat.lt_of_succ_lt_succ hk) (by
            intro later hlater
            apply hwanted
            rw [hlater, hdays]
            push_cast
            ring)
        refine ⟨found, ?_, ?_⟩
        · rw [hnext]
          exact hfound
        · rw [show room + ((k + 1 : ℕ) : ℤ) = room + 1 + k by push_cast; ring]
          exact hin

theorem Weekday.index_bounds (weekday : Weekday) :
  0 ≤ weekday.index ∧ weekday.index < 7
  := by
  cases weekday <;> decide

/-- Each day of the week comes within seven days. -/
theorem exists_weekday_after (day : CivilDay) (target : Weekday) :
  ∃ k : ℕ, k < 7 ∧ ∀ later : CivilDay, later.days.toInt = day.days.toInt + k * 1 →
    weekdayIndex later = target.index
  := by
  obtain ⟨hlower, hupper⟩ := target.index_bounds
  use ((target.index - weekdayIndex day) % 7).toNat
  constructor
  · omega
  · intro later hlater
    rw [weekdayIndex, hlater]
    rw [weekdayIndex]
    omega

/-- Each day of the week was there within seven days. -/
theorem exists_weekday_before (day : CivilDay) (target : Weekday) :
  ∃ k : ℕ, k < 7 ∧ ∀ later : CivilDay, later.days.toInt = day.days.toInt + k * (-1) →
    weekdayIndex later = target.index
  := by
  obtain ⟨hlower, hupper⟩ := target.index_bounds
  use ((weekdayIndex day - target.index) % 7).toNat
  constructor
  · omega
  · intro later hlater
    rw [weekdayIndex, hlater]
    rw [weekdayIndex]
    omega

/-- A business day comes within three days. -/
theorem exists_business_day_after (day : CivilDay) :
  ∃ k : ℕ, k < 3 ∧ ∀ later : CivilDay, later.days.toInt = day.days.toInt + k * 1 →
    isBusinessDay later = true
  := by
  have hlater : ∀ (k : ℕ) (later : CivilDay), later.days.toInt = day.days.toInt + k * 1 →
      weekdayIndex later = (weekdayIndex day + k) % 7 := by
    intro k later hlater
    rw [weekdayIndex, weekdayIndex, hlater]
    omega
  by_cases hsaturday : weekdayIndex day = 6
  · use 2, by decide
    intro later h
    rw [isBusinessDay_iff, hlater 2 later h, hsaturday]
    decide
  · by_cases hsunday : weekdayIndex day = 0
    · use 1, by decide
      intro later h
      rw [isBusinessDay_iff, hlater 1 later h, hsunday]
      decide
    · use 0, by decide
      intro later h
      rw [isBusinessDay_iff, hlater 0 later h]
      have hbounds : 0 ≤ weekdayIndex day ∧ weekdayIndex day < 7 := by
        rw [weekdayIndex]
        omega
      omega

namespace CivilDay.InRange

variable {day : CivilDay} {room : ℤ} (h : day.InRange room)
include h

theorem mono {room' : ℤ} (hle : room ≤ room') :
  day.InRange room'
  := by
  obtain ⟨hfrom, hto⟩ := h
  constructor
  · omega
  · omega

theorem of_addDays {later : CivilDay} {count : ℤ} (hcount : 0 ≤ count)
    (hlater : later.days.toInt = day.days.toInt + count) :
  later.InRange (room + count)
  := by
  obtain ⟨hfrom, hto⟩ := h
  constructor
  · omega
  · omega

/-- The next business day is in range. -/
theorem exists_nextBusinessDay (hroom : room + 8 ≤ 2 ^ 59) :
  ∃ next, nextBusinessDay (ε := ε) day = .ok next ∧ next.InRange (room + 3)
  := by
  obtain ⟨first, hfirst, hdays⟩ := h.exists_addDays (ε := ε) (by omega)
    (show |(1 : ℤ)| ≤ 2 ^ 59 by decide)
  obtain ⟨k, hk, hwanted⟩ := exists_business_day_after first
  obtain ⟨next, hnext, hin⟩ := (h.of_addDays (by decide) hdays).exists_seek (ε := ε)
    isBusinessDay 1 (by decide) 7 (by push_cast; omega) (by omega) hwanted
  refine ⟨next, ?_, hin.mono (by omega)⟩
  rw [nextBusinessDay, hfirst]
  exact hnext

/-- The day some business days later is in range. -/
theorem exists_addBusinessDays (count : ℕ) (hroom : room + 3 * count + 8 ≤ 2 ^ 59) :
  ∃ later, addBusinessDays (ε := ε) day count = .ok later
  := by
  induction count generalizing day room with
  | zero => exact ⟨day, rfl⟩
  | succ count ih =>
      obtain ⟨next, hnext, hin⟩ := h.exists_nextBusinessDay (ε := ε) (by push_cast at hroom; omega)
      obtain ⟨later, hlater⟩ := ih hin (by push_cast at hroom; omega)
      refine ⟨later, ?_⟩
      rw [addBusinessDays, hnext]
      exact hlater

/-- The next such day of the week is there. -/
theorem exists_nextWeekday (target : Weekday) (hroom : room + 8 ≤ 2 ^ 59) :
  ∃ next, nextWeekday (ε := ε) day target true = .ok next
  := by
  obtain ⟨first, hfirst, hdays⟩ := h.exists_addDays (ε := ε) (by omega)
    (show |(1 : ℤ)| ≤ 2 ^ 59 by decide)
  obtain ⟨k, hk, hwanted⟩ := exists_weekday_after first target
  obtain ⟨next, hnext, -⟩ := (h.of_addDays (by decide) hdays).exists_seek (ε := ε)
    (weekdayIndex · = target.index) 1 (by decide) 7 (by push_cast; omega) hk (fun later hlater => decide_eq_true (hwanted later hlater))
  refine ⟨next, ?_⟩
  rw [nextWeekday, if_pos rfl, hfirst]
  exact hnext

/-- The week of a day is there, and the next one. -/
theorem exists_weekRange (weekStart : Weekday) (next : Bool) (hroom : room + 20 ≤ 2 ^ 59) :
  ∃ range, weekRange day weekStart next = .ok range
  := by
  obtain ⟨k, hk, hwanted⟩ := exists_weekday_before day weekStart
  obtain ⟨first, hfirst, hin⟩ := h.exists_seek (ε := ParseRejection)
    (weekdayIndex · = weekStart.index) (-1) (by decide) 7 (by push_cast; omega) hk (fun later hlater => decide_eq_true (hwanted later hlater))
  obtain ⟨start, hstart, hstartIn⟩ : ∃ start : CivilDay,
      (if next then first.addDays (ε := ParseRejection) 7 else .ok first) = .ok start
        ∧ start.InRange (room + 13) := by
    cases next with
    | false => exact ⟨first, rfl, hin.mono (by omega)⟩
    | true =>
        obtain ⟨start, hstart, hdays⟩ := hin.exists_addDays (ε := ParseRejection) (by omega)
          (show |(7 : ℤ)| ≤ 2 ^ 59 by decide)
        exact ⟨start, hstart, (hin.of_addDays (by decide) hdays).mono (by omega)⟩
  obtain ⟨last, hlast, -⟩ := hstartIn.exists_addDays (ε := ParseRejection) (by omega)
    (show |(6 : ℤ)| ≤ 2 ^ 59 by decide)
  refine ⟨(start, last), ?_⟩
  rw [weekRange, previousOrSameWeekday, hfirst]
  apply Except.bind_eq_ok.mpr
  refine ⟨first, rfl, ?_⟩
  rw [hstart]
  apply Except.bind_eq_ok.mpr
  refine ⟨start, rfl, ?_⟩
  rw [hlast]
  rfl

end CivilDay.InRange

/-! ### Expressions of the calendar -/

/-- The words of an expression that names a day or a week. -/
inductive CalendarTokens : List String → Prop where
  | today : CalendarTokens ["today"]
  | tomorrow : CalendarTokens ["tomorrow"]
  | nextWeek : CalendarTokens ["next", "week"]
  | endOfWeek : CalendarTokens ["end", "of", "week"]
  | nextBusinessDay : CalendarTokens ["next", "business", "day"]
  | sunday : CalendarTokens ["sunday"]
  | monday : CalendarTokens ["monday"]
  | tuesday : CalendarTokens ["tuesday"]
  | wednesday : CalendarTokens ["wednesday"]
  | thursday : CalendarTokens ["thursday"]
  | friday : CalendarTokens ["friday"]
  | saturday : CalendarTokens ["saturday"]
  | days {token : String} {count : ℕ} (h : parseBoundedCount token = .ok count) :
      CalendarTokens ["in", token, "days"]
  | businessDays {token : String} {count : ℕ} (h : parseBoundedCount token = .ok count) :
      CalendarTokens ["in", token, "business", "days"]

/-- In a context in range the calendar has the day of the message. -/
def ParseContext.InRange (context : ParseContext) : Prop :=
  -2 ^ 63 ≤ context.messageTimestamp.seconds.toInt
      + (offsetAt context.messageTimestamp context.timezone).toInt
    ∧ context.messageTimestamp.seconds.toInt
      + (offsetAt context.messageTimestamp context.timezone).toInt < 2 ^ 63

/-- The day of a message in range leaves room for the days of an expression. -/
theorem ParseContext.InRange.exists_messageLocalDay {context : ParseContext}
    (h : context.InRange) :
  ∃ day : CivilDay, messageLocalDay (ε := ε) context = .ok day ∧ day.InRange 0
  := by
  obtain ⟨hfrom, hto⟩ := h
  obtain ⟨localSeconds, hlocal⟩ := Int64.exists_checked hfrom hto
  have hday : (Int64.ofInt (localSeconds.toInt / 86400)).toInt = localSeconds.toInt / 86400 := by
    apply Int64.toInt_ofInt_of_le
    · have hmin := localSeconds.le_toInt
      omega
    · have hmax := localSeconds.toInt_lt
      omega
  refine ⟨⟨Int64.ofInt (localSeconds.toInt / 86400)⟩, ?_, ?_⟩
  · rw [messageLocalDay, hlocal]
    rfl
  · have hmin := localSeconds.le_toInt
    have hmax := localSeconds.toInt_lt
    constructor
    · dsimp only
      omega
    · dsimp only
      omega

/-- A count that is accepted is bounded. -/
theorem parseBoundedCount_le {token : String} {count : ℕ}
    (h : parseBoundedCount token = .ok count) :
  count ≤ maximumRelativeDayCount
  := by
  rw [parseBoundedCount] at h
  by_cases hdigits : isAsciiDigits token.toList = true
  · rw [if_neg (not_not.mpr hdigits)] at h
    split at h
    · cases h
    · split_ifs at h with hle
      · cases h
      · cases h
        apply Nat.not_lt.mp hle
  · rw [if_pos hdigits] at h
    cases h

/-- The words of an expression of the calendar are accepted in every context in range. -/
theorem CalendarTokens.accepted {tokens : List String} (h : CalendarTokens tokens)
    {today : CivilDay} (htoday : today.InRange 0) (context : ParseContext) :
  ∃ parsed, parseRelativeTokens today context tokens = .ok parsed
  := by
  have hweekday : ∀ target, ∃ parsed,
      (do return .date (← nextWeekday today target true) : Parsed ParsedValue) = .ok parsed := by
    intro target
    obtain ⟨next, hnext⟩ := htoday.exists_nextWeekday (ε := ParseRejection) target (by decide)
    exact ⟨.date next, by rw [hnext]; rfl⟩
  cases h with
  | today => exact ⟨.date today, rfl⟩
  | tomorrow =>
      obtain ⟨next, hnext, -⟩ := htoday.exists_addDays (ε := ParseRejection) (by decide)
        (show |(1 : ℤ)| ≤ 2 ^ 59 by decide)
      exact ⟨.date next, by rw [parseRelativeTokens, hnext]; rfl⟩
  | nextWeek =>
      obtain ⟨⟨start, last⟩, hrange⟩ := htoday.exists_weekRange context.weekStart true (by decide)
      exact ⟨.week start last, by rw [parseRelativeTokens, hrange]; rfl⟩
  | endOfWeek =>
      obtain ⟨⟨start, last⟩, hrange⟩ := htoday.exists_weekRange context.weekStart false (by decide)
      exact ⟨.week start last, by rw [parseRelativeTokens, hrange]; rfl⟩
  | nextBusinessDay =>
      obtain ⟨next, hnext, -⟩ := htoday.exists_nextBusinessDay (ε := ParseRejection) (by decide)
      exact ⟨.businessDay next, by rw [parseRelativeTokens, hnext]; rfl⟩
  | sunday => exact hweekday .sunday
  | monday => exact hweekday .monday
  | tuesday => exact hweekday .tuesday
  | wednesday => exact hweekday .wednesday
  | thursday => exact hweekday .thursday
  | friday => exact hweekday .friday
  | saturday => exact hweekday .saturday
  | @days token count hcount =>
      have hle := parseBoundedCount_le hcount
      rw [maximumRelativeDayCount] at hle
      obtain ⟨next, hnext, -⟩ := htoday.exists_addDays (ε := ParseRejection) (by decide)
        (show |(count : ℤ)| ≤ 2 ^ 59 by rw [abs_le]; omega)
      use .date next
      rw [parseRelativeTokens, hcount]
      apply Except.bind_eq_ok.mpr
      exact ⟨count, rfl, by rw [hnext]; rfl⟩
  | @businessDays token count hcount =>
      have hle := parseBoundedCount_le hcount
      rw [maximumRelativeDayCount] at hle
      obtain ⟨next, hnext⟩ := htoday.exists_addBusinessDays (ε := ParseRejection) count (by omega)
      use .businessDay next
      rw [parseRelativeTokens, hcount]
      apply Except.bind_eq_ok.mpr
      exact ⟨count, rfl, by rw [hnext]; rfl⟩

/-- An expression of the calendar is accepted in every context in range. -/
theorem CalendarTokens.reparse_eq_ok {value : String} (h : CalendarTokens (relativeTokens value))
    {context : ParseContext} (hcontext : context.InRange) :
  ∃ parsed, reparse .relative value context = .ok parsed
  := by
  obtain ⟨today, htoday, hrange⟩ := hcontext.exists_messageLocalDay (ε := ParseRejection)
  obtain ⟨parsed, hparsed⟩ := h.accepted hrange context
  refine ⟨parsed, ?_⟩
  rw [reparse, parseRelative, htoday]
  exact hparsed

end Domain
