import OpenLoops.Domain.BusinessDays
import OpenLoops.Domain.DeadlineBytes

/-!
# What deadlines are accepted

Expressions of each kind are accepted by their grammar, and the others are rejected for what is
wrong with them.  A time with a number beyond 32 bits is not recognized, though it has the form of
a time.
-/

namespace Domain

/-! ### Relative expressions -/

/-- The words of a relative expression, with counts as described. -/
inductive RelativePhrase (counted : String → Prop) : List String → Prop where
  | today : RelativePhrase counted ["today"]
  | todayEod : RelativePhrase counted ["today", "eod"]
  | eodToday : RelativePhrase counted ["eod", "today"]
  | eod : RelativePhrase counted ["eod"]
  | tomorrow : RelativePhrase counted ["tomorrow"]
  | tomorrowEod : RelativePhrase counted ["tomorrow", "eod"]
  | eodTomorrow : RelativePhrase counted ["eod", "tomorrow"]
  | nextWeek : RelativePhrase counted ["next", "week"]
  | thisWeek : RelativePhrase counted ["this", "week"]
  | endOfWeek : RelativePhrase counted ["end", "of", "week"]
  | nextBusinessDay : RelativePhrase counted ["next", "business", "day"]
  | asap : RelativePhrase counted ["asap"]
  | whenYouCan : RelativePhrase counted ["when", "you", "can"]
  | whenYouGetAChance : RelativePhrase counted ["when", "you", "get", "a", "chance"]
  | weekdayEod {name : String} {target : Weekday} (h : Weekday.fromName name = some target) :
      RelativePhrase counted [name, "eod"]
  | eodWeekday {name : String} {target : Weekday} (h : Weekday.fromName name = some target) :
      RelativePhrase counted ["eod", name]
  | weekday {name : String} {target : Weekday} (h : Weekday.fromName name = some target) :
      RelativePhrase counted [name]
  | businessDays {token : String} (h : counted token) :
      RelativePhrase counted ["in", token, "business", "days"]
  | days {token : String} (h : counted token) : RelativePhrase counted ["in", token, "days"]

/-- The words of an expression with a count. -/
def CountPhrase (counted : String → Prop) (tokens : List String) : Prop :=
  ∃ token, counted token
    ∧ (tokens = ["in", token, "business", "days"] ∨ tokens = ["in", token, "days"])

/-- The token is a count within the bound. -/
def CountWithin (token : String) : Prop :=
  isAsciiDigits token.toList = true ∧ numberOf token.toList ≤ maximumRelativeDayCount

/-- The token is a count above the bound. -/
def CountAbove (token : String) : Prop :=
  isAsciiDigits token.toList = true ∧ maximumRelativeDayCount < numberOf token.toList

theorem parseBoundedCount_within {token : String} (h : CountWithin token) :
  parseBoundedCount token = .ok (numberOf token.toList)
  := by
  obtain ⟨hdigits, hle⟩ := h
  rw [maximumRelativeDayCount] at hle
  rw [parseBoundedCount, if_neg (not_not.mpr hdigits), parseBelow_eq, if_pos (by omega)]
  apply if_neg
  rw [maximumRelativeDayCount]
  omega

theorem parseBoundedCount_above {token : String} (h : CountAbove token) :
  parseBoundedCount token = reject .countOutOfRange
  := by
  obtain ⟨hdigits, hlt⟩ := h
  rw [parseBoundedCount, if_neg (not_not.mpr hdigits), parseBelow_eq]
  split_ifs
  · apply if_pos hlt
  · rfl

theorem parseBoundedCount_unrecognized {token : String} (hwithin : ¬CountWithin token)
    (habove : ¬CountAbove token) :
  parseBoundedCount token = reject .unrecognizedText
  := by
  apply if_pos
  intro hdigits
  rcases Nat.lt_or_ge maximumRelativeDayCount (numberOf token.toList) with hlt | hle
  · exact habove ⟨hdigits, hlt⟩
  · exact hwithin ⟨hdigits, hle⟩

/-- In the context no arithmetic leaves 64 bits: there is the day of the message, and the end of
the day can be told on it and on the seven days after it. -/
def ParseContext.StaysInRange (context : ParseContext) : Prop :=
  ∃ today : CivilDay, messageLocalDay (ε := ParseRejection) context = .ok today
    ∧ ∀ day : CivilDay, today.days.toInt ≤ day.days.toInt → day.days.toInt ≤ today.days.toInt + 7 →
      ∃ resolution, resolveLocal day context.eodSecondsSinceMidnight context.timezone
        = some resolution

section

variable {context : ParseContext} {today : CivilDay}

/-- A phrase of the grammar is accepted. -/
theorem RelativePhrase.accepted {tokens : List String} (h : RelativePhrase CountWithin tokens)
    (hrange : today.InRange 0)
    (heod : ∀ day : CivilDay, today.days.toInt ≤ day.days.toInt →
      day.days.toInt ≤ today.days.toInt + 7 →
      ∃ resolution, resolveLocal day context.eodSecondsSinceMidnight context.timezone
        = some resolution) :
  ∃ parsed, parseRelativeTokens today context tokens = .ok parsed
  := by
  have hinstant : ∀ day : CivilDay, today.days.toInt ≤ day.days.toInt →
      day.days.toInt ≤ today.days.toInt + 7 → ∃ parsed, instantAt day context = .ok parsed := by
    intro day hfrom hto
    obtain ⟨resolution, hresolution⟩ := heod day hfrom hto
    use .instant resolution
    rw [instantAt, hresolution]
    rfl
  have htomorrow : ∃ parsed,
      (do instantAt (← today.addDays 1) context : Parsed ParsedValue) = .ok parsed := by
    obtain ⟨day, hday, hdays⟩ := hrange.exists_addDays (ε := ParseRejection) (by decide)
      (show |(1 : ℤ)| ≤ 2 ^ 59 by decide)
    obtain ⟨parsed, hparsed⟩ := hinstant day (by omega) (by omega)
    exact ⟨parsed, Except.bind_eq_ok.mpr ⟨day, hday, hparsed⟩⟩
  have hweekday : ∀ target, ∃ parsed,
      (do instantAt (← nextWeekday today target true) context : Parsed ParsedValue)
        = .ok parsed := by
    intro target
    obtain ⟨day, hday, ⟨hlt, -, -⟩, hle⟩ :=
      exists_isNextWeekday (ε := ParseRejection) hrange target
    obtain ⟨parsed, hparsed⟩ := hinstant day (by omega) hle
    exact ⟨parsed, Except.bind_eq_ok.mpr ⟨day, hday, hparsed⟩⟩
  cases h with
  | today => exact CalendarTokens.today.accepted hrange context
  | todayEod => exact hinstant today (le_refl _) (by omega)
  | eodToday => exact hinstant today (le_refl _) (by omega)
  | eod => exact hinstant today (le_refl _) (by omega)
  | tomorrow => exact CalendarTokens.tomorrow.accepted hrange context
  | tomorrowEod => exact htomorrow
  | eodTomorrow => exact htomorrow
  | nextWeek => exact CalendarTokens.nextWeek.accepted hrange context
  | thisWeek => exact CalendarTokens.endOfWeek.accepted hrange context
  | endOfWeek => exact CalendarTokens.endOfWeek.accepted hrange context
  | nextBusinessDay => exact CalendarTokens.nextBusinessDay.accepted hrange context
  | asap => exact ⟨.soft, rfl⟩
  | whenYouCan => exact ⟨.soft, rfl⟩
  | whenYouGetAChance => exact ⟨.soft, rfl⟩
  | @weekdayEod name target h =>
      rw [(parseRelativeTokens_weekday h).2.1]
      apply hweekday
  | @eodWeekday name target h =>
      rw [(parseRelativeTokens_weekday h).2.2]
      apply hweekday
  | @weekday name target h =>
      rw [(parseRelativeTokens_weekday h).1]
      obtain ⟨day, hday, -⟩ := exists_isNextWeekday (ε := ParseRejection) hrange target
      exact ⟨.date day, by rw [hday]; rfl⟩
  | businessDays h =>
      exact (CalendarTokens.businessDays (parseBoundedCount_within h)).accepted hrange context
  | days h => exact (CalendarTokens.days (parseBoundedCount_within h)).accepted hrange context

/-- A phrase with a count above the bound is rejected for it. -/
theorem CountPhrase.rejected {tokens : List String} (h : CountPhrase CountAbove tokens) :
  parseRelativeTokens today context tokens = reject .countOutOfRange
  := by
  obtain ⟨token, habove, rfl | rfl⟩ := h
  · rw [parseRelativeTokens, parseBoundedCount_above habove]
    rfl
  · rw [parseRelativeTokens, parseBoundedCount_above habove]
    rfl

/-- Other phrases are not recognized. -/
theorem parseRelativeTokens_unrecognized {tokens : List String}
    (haccepted : ¬RelativePhrase CountWithin tokens) (habove : ¬CountPhrase CountAbove tokens) :
  parseRelativeTokens today context tokens = reject .unrecognizedText
  := by
  have hcount : ∀ {token : String}, (CountWithin token → RelativePhrase CountWithin tokens) →
      (CountAbove token → CountPhrase CountAbove tokens) →
      parseBoundedCount token = reject .unrecognizedText := by
    intro token hwithin hover
    apply parseBoundedCount_unrecognized
    · intro h
      apply haccepted (hwithin h)
    · intro h
      apply habove (hover h)
  rw [parseRelativeTokens.eq_def]
  split
  · exact absurd .today haccepted
  · exact absurd .todayEod haccepted
  · exact absurd .eodToday haccepted
  · exact absurd .eod haccepted
  · exact absurd .tomorrow haccepted
  · exact absurd .tomorrowEod haccepted
  · exact absurd .eodTomorrow haccepted
  · exact absurd .nextWeek haccepted
  · exact absurd .thisWeek haccepted
  · exact absurd .endOfWeek haccepted
  · exact absurd .nextBusinessDay haccepted
  · exact absurd .asap haccepted
  · exact absurd .whenYouCan haccepted
  · exact absurd .whenYouGetAChance haccepted
  · split
    · rfl
    · next h => exact absurd (.weekdayEod h) haccepted
  · split
    · rfl
    · next h => exact absurd (.eodWeekday h) haccepted
  · split
    · rfl
    · next h => exact absurd (.weekday h) haccepted
  · rw [hcount .businessDays fun h => ⟨_, h, Or.inl rfl⟩]
    rfl
  · rw [hcount .days fun h => ⟨_, h, Or.inr rfl⟩]
    rfl
  · rfl

end

/-! ### The grammar -/

/-- The phrases of a soft window. -/
def SoftPhrase (value : String) : Prop :=
  String.ofList (toAsciiLowercase (trim value.toList))
    ∈ ["asap", "when you can", "when you get a chance"]

/-- The expression is one of the grammar of its kind. -/
def Accepted : TemporalKind → String → Prop
  | .eventRelative, _ => True
  | .softWindow, value => SoftPhrase value
  | .date, value => ∃ year month day, DateText value.toList year month day
      ∧ realDate year month day = true
  | .localDatetime, value => ∃ date time, DatetimeText value.toList date time
      ∧ (∃ year month day, DateText date year month day ∧ realDate year month day = true)
      ∧ ∃ hour minute second, TimeText time hour minute second
        ∧ timeInRange hour minute second = true
  | .relative, value => RelativePhrase CountWithin (relativeTokens value)

/-- The expression would be one of the grammar, but for a count above the bound. -/
def CountTooLarge (kind : TemporalKind) (value : String) : Prop :=
  kind = .relative ∧ CountPhrase CountAbove (relativeTokens value)

/-- The expression has the form of a date or of a time on a date, but there is no such date or no
such time. -/
def ComponentOutOfRange : TemporalKind → String → Prop
  | .date, value => ∃ year month day, DateText value.toList year month day
      ∧ realDate year month day = false
  | .localDatetime, value => ∃ date time, DatetimeText value.toList date time
      ∧ ∃ year month day, DateText date year month day
        ∧ (realDate year month day = false
          ∨ ∃ hour minute second, TimeText time hour minute second
            ∧ timeInRange hour minute second = false)
  | _, _ => False

/-- The expression is a time on a date of the calendar, with a number beyond 32 bits. -/
def HugeTime (kind : TemporalKind) (value : String) : Prop :=
  kind = .localDatetime ∧ ∃ date time, DatetimeText value.toList date time
    ∧ (∃ year month day, DateText date year month day ∧ realDate year month day = true)
    ∧ ∃ hour minute second, TimeText time hour minute second
      ∧ hugeTime hour minute second = true

/-- The expression is read as documented: accepted by the grammar, or else rejected for a count
above the bound, or for a component out of range, or as not recognized. -/
structure ReadsAsDocumented (kind : TemporalKind) (value : String) (context : ParseContext) :
    Prop where
  ok : (∃ parsed, Bytes.reparse kind value context = .ok parsed) ↔ Accepted kind value
  count : Bytes.reparse kind value context = reject .countOutOfRange ↔ CountTooLarge kind value
  component : Bytes.reparse kind value context = reject .invalidCalendarComponent
    ↔ ComponentOutOfRange kind value
  unrecognized : Bytes.reparse kind value context = reject .unrecognizedText
    ↔ ¬Accepted kind value ∧ ¬CountTooLarge kind value ∧ ¬ComponentOutOfRange kind value

/-! ### Outcomes -/

/-- What becomes of an expression. -/
structure Outcome (kind : TemporalKind) (value : String) (result : Parsed ParsedValue) : Prop where
  accepted : Accepted kind value → ∃ parsed, result = .ok parsed
  count : CountTooLarge kind value → result = reject .countOutOfRange
  component : ComponentOutOfRange kind value → ¬HugeTime kind value →
    result = reject .invalidCalendarComponent
  huge : HugeTime kind value → result = reject .unrecognizedText
  unrecognized : ¬Accepted kind value → ¬CountTooLarge kind value →
    ¬ComponentOutOfRange kind value → result = reject .unrecognizedText

theorem outcome_softWindow (value : String) :
  Outcome .softWindow value (parseSoft value)
  := by
  constructor
  · intro h
    use .soft
    rw [parseSoft]
    rw [Accepted, SoftPhrase] at h
    simp only [List.mem_cons, List.not_mem_nil, or_false] at h
    rcases h with h | h | h
    · rw [h]
      rfl
    · rw [h]
      rfl
    · rw [h]
      rfl
  · rintro ⟨⟨⟩, -⟩
  · rintro ⟨⟩
  · rintro ⟨⟨⟩, -⟩
  · intro h _ _
    rw [parseSoft]
    rw [Accepted, SoftPhrase] at h
    split
    · next h' => exact absurd (by rw [h']; decide) h
    · next h' => exact absurd (by rw [h']; decide) h
    · next h' => exact absurd (by rw [h']; decide) h
    · rfl

theorem outcome_eventRelative (value : String) :
  Outcome .eventRelative value (.ok .eventRelative)
  := by
  constructor
  · intro _
    exact ⟨_, rfl⟩
  · rintro ⟨⟨⟩, -⟩
  · rintro ⟨⟩
  · rintro ⟨⟨⟩, -⟩
  · intro h
    exact absurd trivial h

theorem outcome_date (value : String) :
  Outcome .date value (parseExplicitDate value)
  := by
  constructor
  · rintro ⟨year, month, day, h, hreal⟩
    rw [parseExplicitDate, h.parseDateComponents_eq, h.readDate_eq, if_pos hreal]
    exact ⟨_, rfl⟩
  · rintro ⟨⟨⟩, -⟩
  · rintro ⟨year, month, day, h, hreal⟩ -
    rw [parseExplicitDate, h.parseDateComponents_eq, h.readDate_eq,
      if_neg (by rw [hreal]; exact Bool.false_ne_true)]
    rfl
  · rintro ⟨⟨⟩, -⟩
  · intro haccepted _ hcomponent
    rw [parseExplicitDate, parseDateComponents_eq_unrecognized]
    · rfl
    · intro year month day h
      cases hreal : realDate year month day with
      | true => exact haccepted ⟨year, month, day, h, hreal⟩
      | false => exact hcomponent ⟨year, month, day, h, hreal⟩

/-- A time on a date that there is is told. -/
theorem exists_instantAt {year month day : List Char} (h : realDate year month day = true)
    (context : ParseContext) :
  ∃ parsed, instantAt (.ofCivil (.ofNat (numberOf year)) (.ofNat (numberOf month))
    (.ofNat (numberOf day))) context = .ok parsed
  := by
  obtain ⟨resolution, hresolution⟩ :=
    exists_resolveLocal h context.eodSecondsSinceMidnight context.timezone
  use .instant resolution
  rw [instantAt, hresolution]
  rfl

section

variable {date time year month day : List Char} (h : DateText date year month day)
  (context : ParseContext)
include h

/-- A time is read on a date that there is. -/
theorem DateText.readDatetime_eq (hreal : realDate year month day = true) :
  readDatetime context date time = (do
    let (hour, minute, second) ← parseTimeComponents time
    instantAt (.ofCivil (.ofNat (numberOf year)) (.ofNat (numberOf month))
        (.ofNat (numberOf day)))
      { context with eodSecondsSinceMidnight := hour * 3600 + minute * 60 + second })
  := by
  rw [readDatetime, h.parseDateComponents_eq, h.readDate_eq, if_pos hreal]
  rfl

theorem DateText.readDatetime_invalid (hreal : realDate year month day = false) :
  readDatetime context date time = reject .invalidCalendarComponent
  := by
  rw [readDatetime, h.parseDateComponents_eq, h.readDate_eq,
    if_neg (by rw [hreal]; exact Bool.false_ne_true)]
  rfl

end

/-- The text of a time, and whether it is one of the day. -/
theorem TimeText.parseTimeComponents_cases {time hour minute second : List Char}
    (h : TimeText time hour minute second) :
  (hugeTime hour minute second = true → parseTimeComponents time = reject .unrecognizedText)
    ∧ (hugeTime hour minute second = false → timeInRange hour minute second = false →
      parseTimeComponents time = reject .invalidCalendarComponent)
    ∧ (timeInRange hour minute second = true →
      ∃ components, parseTimeComponents time = .ok components)
  := by
  rw [h.parseTimeComponents_eq, readTime_eq h.hour h.minute h.second]
  refine ⟨?_, ?_, ?_⟩
  · intro hhuge
    rw [if_pos hhuge]
  · intro hhuge hrange
    rw [if_neg (by rw [hhuge]; exact Bool.false_ne_true),
      if_neg (by rw [hrange]; exact Bool.false_ne_true)]
  · intro hrange
    have hhuge : ¬hugeTime hour minute second = true := by
      simp only [timeInRange, Bool.and_eq_true, decide_eq_true_iff] at hrange
      simp only [hugeTime, Bool.or_eq_true, decide_eq_true_iff]
      omega
    rw [if_neg hhuge, if_pos hrange]
    exact ⟨_, rfl⟩

theorem outcome_localDatetime (value : String) (context : ParseContext) :
  Outcome .localDatetime value (parseExplicitDatetime value context)
  := by
  have hread : ∀ {date time year month day}, DatetimeText value.toList date time →
      DateText date year month day →
      parseExplicitDatetime value context = readDatetime context date time := by
    intro date time year month day htext hdate
    apply htext.parseExplicitDatetime_eq hdate.ascii.1
  constructor
  · rintro ⟨date, time, htext, ⟨year, month, day, hdate, hreal⟩, hour, minute, second, htime,
      hrange⟩
    obtain ⟨components, hcomponents⟩ := htime.parseTimeComponents_cases.2.2 hrange
    rw [hread htext hdate, hdate.readDatetime_eq context hreal, hcomponents]
    apply exists_instantAt hreal
  · rintro ⟨⟨⟩, -⟩
  · rintro ⟨date, time, htext, year, month, day, hdate, hcomponent⟩ hhuge
    rw [hread htext hdate]
    cases hreal : realDate year month day with
    | false => exact hdate.readDatetime_invalid context hreal
    | true =>
        rcases hcomponent with hfalse | ⟨hour, minute, second, htime, hrange⟩
        · rw [hreal] at hfalse
          cases hfalse
        · have hfits : hugeTime hour minute second = false := by
            rw [← Bool.not_eq_true]
            intro hhuge'
            exact hhuge ⟨rfl, date, time, htext, ⟨year, month, day, hdate, hreal⟩, hour, minute,
              second, htime, hhuge'⟩
          rw [hdate.readDatetime_eq context hreal,
            htime.parseTimeComponents_cases.2.1 hfits hrange]
          rfl
  · rintro ⟨-, date, time, htext, ⟨year, month, day, hdate, hreal⟩, hour, minute, second, htime,
      hhuge⟩
    rw [hread htext hdate, hdate.readDatetime_eq context hreal,
      htime.parseTimeComponents_cases.1 hhuge]
    rfl
  · intro haccepted _ hcomponent
    by_cases htext : ∃ date time, DatetimeText value.toList date time
        ∧ ∃ year month day, DateText date year month day
    · obtain ⟨date, time, htext, year, month, day, hdate⟩ := htext
      cases hreal : realDate year month day with
      | false => exact absurd ⟨date, time, htext, year, month, day, hdate, Or.inl hreal⟩ hcomponent
      | true =>
          have htime : ∀ hour minute second, ¬TimeText time hour minute second := by
            intro hour minute second htime
            cases hrange : timeInRange hour minute second with
            | true => exact haccepted ⟨date, time, htext, ⟨year, month, day, hdate, hreal⟩, hour,
                minute, second, htime, hrange⟩
            | false => exact hcomponent ⟨date, time, htext, year, month, day, hdate,
                Or.inr ⟨hour, minute, second, htime, hrange⟩⟩
          rw [hread htext hdate, hdate.readDatetime_eq context hreal,
            parseTimeComponents_eq_unrecognized htime]
          rfl
    · apply parseExplicitDatetime_eq_unrecognized
      intro date time htext' year month day hdate
      exact htext ⟨date, time, htext', year, month, day, hdate⟩

theorem outcome_relative (value : String) {context : ParseContext} (h : context.StaysInRange) :
  Outcome .relative value (reparse .relative value context)
  := by
  obtain ⟨today, htoday, heod⟩ := h
  rw [reparse_relative_of_day htoday]
  constructor
  · intro haccepted
    exact RelativePhrase.accepted haccepted (inRange_of_messageLocalDay htoday).2 heod
  · rintro ⟨-, habove⟩
    exact habove.rejected
  · rintro ⟨⟩
  · rintro ⟨⟨⟩, -⟩
  · intro haccepted habove _
    apply parseRelativeTokens_unrecognized haccepted
    intro hphrase
    exact habove ⟨rfl, hphrase⟩

/-- Each expression has its outcome. -/
theorem outcome_reparse (kind : TemporalKind) (value : String) {context : ParseContext}
    (h : context.StaysInRange) :
  Outcome kind value (Bytes.reparse kind value context)
  := by
  rw [Bytes.reparse_eq]
  cases kind with
  | date => exact outcome_date value
  | localDatetime => exact outcome_localDatetime value context
  | relative => exact outcome_relative value h
  | eventRelative => exact outcome_eventRelative value
  | softWindow => exact outcome_softWindow value

/-- A time beyond 32 bits is out of range. -/
theorem HugeTime.componentOutOfRange {kind : TemporalKind} {value : String}
    (h : HugeTime kind value) :
  ComponentOutOfRange kind value
  := by
  obtain ⟨rfl, date, time, htext, ⟨year, month, day, hdate, -⟩, hour, minute, second, htime,
    hhuge⟩ := h
  refine ⟨date, time, htext, year, month, day, hdate, Or.inr ⟨hour, minute, second, htime, ?_⟩⟩
  rw [← Bool.not_eq_true]
  simp only [hugeTime, Bool.or_eq_true, decide_eq_true_iff] at hhuge
  simp only [timeInRange, Bool.and_eq_true, decide_eq_true_iff]
  omega

section

variable {kind : TemporalKind} {value : String} {result : Parsed ParsedValue}
  (h : Outcome kind value result)
include h

/-- An expression is accepted, or rejected for one of the reasons. -/
theorem Outcome.cases :
  (Accepted kind value ∧ ∃ parsed, result = .ok parsed)
    ∨ (CountTooLarge kind value ∧ result = reject .countOutOfRange)
    ∨ (ComponentOutOfRange kind value ∧ ¬HugeTime kind value
      ∧ result = reject .invalidCalendarComponent)
    ∨ (HugeTime kind value ∧ result = reject .unrecognizedText)
    ∨ (¬Accepted kind value ∧ ¬CountTooLarge kind value ∧ ¬ComponentOutOfRange kind value
      ∧ result = reject .unrecognizedText)
  := by
  by_cases haccepted : Accepted kind value
  · exact Or.inl ⟨haccepted, h.accepted haccepted⟩
  · by_cases hcount : CountTooLarge kind value
    · exact Or.inr (Or.inl ⟨hcount, h.count hcount⟩)
    · by_cases hhuge : HugeTime kind value
      · exact Or.inr (Or.inr (Or.inr (Or.inl ⟨hhuge, h.huge hhuge⟩)))
      · by_cases hcomponent : ComponentOutOfRange kind value
        · exact Or.inr (Or.inr (Or.inl ⟨hcomponent, hhuge, h.component hcomponent hhuge⟩))
        · exact Or.inr (Or.inr (Or.inr (Or.inr ⟨haccepted, hcount, hcomponent,
            h.unrecognized haccepted hcount hcomponent⟩)))

theorem Outcome.ne_panicked :
  result ≠ .error .panicked
  := by
  rcases h.cases with ⟨-, parsed, rfl⟩ | ⟨-, rfl⟩ | ⟨-, -, rfl⟩ | ⟨-, rfl⟩ | ⟨-, -, -, rfl⟩
  all_goals nofun

/-- What is not huge is rejected for the reason that it has. -/
theorem Outcome.iffs (hhuge : ¬HugeTime kind value) :
  ((∃ parsed, result = .ok parsed) ↔ Accepted kind value)
    ∧ (result = reject .countOutOfRange ↔ CountTooLarge kind value)
    ∧ (result = reject .invalidCalendarComponent ↔ ComponentOutOfRange kind value)
    ∧ (result = reject .unrecognizedText
      ↔ ¬Accepted kind value ∧ ¬CountTooLarge kind value ∧ ¬ComponentOutOfRange kind value)
  := by
  refine ⟨⟨?_, h.accepted⟩, ⟨?_, h.count⟩, ⟨?_, fun hcomponent => h.component hcomponent hhuge⟩,
    ⟨?_, fun ⟨haccepted, hcount, hcomponent⟩ => h.unrecognized haccepted hcount hcomponent⟩⟩
  · rintro ⟨parsed, hresult⟩
    rcases h.cases with ⟨hthis, -⟩ | ⟨-, rfl⟩ | ⟨-, -, rfl⟩ | ⟨-, rfl⟩ | ⟨-, -, -, rfl⟩
    · exact hthis
    all_goals cases hresult
  · intro hresult
    rcases h.cases with ⟨-, _, rfl⟩ | ⟨hthis, -⟩ | ⟨-, -, rfl⟩ | ⟨-, rfl⟩ | ⟨-, -, -, rfl⟩
    · cases hresult
    · exact hthis
    all_goals cases hresult
  · intro hresult
    rcases h.cases with ⟨-, _, rfl⟩ | ⟨-, rfl⟩ | ⟨hthis, -⟩ | ⟨-, rfl⟩ | ⟨-, -, -, rfl⟩
    · cases hresult
    · cases hresult
    · exact hthis
    all_goals cases hresult
  · intro hresult
    rcases h.cases with ⟨-, _, rfl⟩ | ⟨-, rfl⟩ | ⟨-, -, rfl⟩ | ⟨hthis, -⟩ | ⟨h, h', h'', -⟩
    · cases hresult
    · cases hresult
    · cases hresult
    · exact absurd hthis hhuge
    · exact ⟨h, h', h''⟩

end

/-- Deadlines are read by their grammar, unless a time has a number beyond 32 bits.  No expression
makes the parser panic.  An expression is accepted exactly by the grammar of its kind, and rejected
for a count above the bound, for a component out of range, or else as not recognized, exactly when
it is not a time on a date of the calendar with a number beyond 32 bits. -/
theorem reparse_exact (kind : TemporalKind) (value : String) (context : ParseContext)
    (h : context.StaysInRange) :
  Bytes.reparse kind value context ≠ .error .panicked
    ∧ (ReadsAsDocumented kind value context ↔ ¬HugeTime kind value)
  := by
  have houtcome := outcome_reparse kind value h
  use houtcome.ne_panicked
  constructor
  · intro hreads hhuge
    have hcomponent := hreads.component.mpr hhuge.componentOutOfRange
    rw [houtcome.huge hhuge] at hcomponent
    cases hcomponent
  · intro hhuge
    obtain ⟨hok, hcount, hcomponent, hunrecognized⟩ := houtcome.iffs hhuge
    exact ⟨hok, hcount, hcomponent, hunrecognized⟩

/-- The arithmetic stays in range for a message of a Monday morning. -/
theorem mondayMorning_staysInRange :
  mondayMorning.StaysInRange
  := by
  refine ⟨.ofCivil 2026 8 3, by decide +kernel, ?_⟩
  intro day hfrom hto
  rw [show (CivilDay.ofCivil 2026 8 3).days.toInt = 20668 by decide] at hfrom hto
  obtain ⟨midnight, hmidnight⟩ : ∃ x, Int64.checked (day.days.toInt * 86400) = some x := by
    apply Int64.exists_checked
    · omega
    · omega
  have hmidnight' := Int64.checked_eq_some.mp hmidnight
  obtain ⟨naive, hnaive⟩ : ∃ x, Int64.checked (midnight.toInt + 61200) = some x := by
    apply Int64.exists_checked
    · omega
    · omega
  have hnaive' := Int64.checked_eq_some.mp hnaive
  obtain ⟨instant, hinstant⟩ : ∃ x, Int64.checked (naive.toInt - (-18000)) = some x := by
    apply Int64.exists_checked
    · omega
    · omega
  refine ⟨.unambiguous ⟨instant⟩, ?_⟩
  apply Option.bind_eq_some_iff.mpr ⟨midnight, hmidnight, _⟩
  apply Option.bind_eq_some_iff.mpr ⟨naive, hnaive, _⟩
  exact Option.bind_eq_some_iff.mpr ⟨instant, hinstant, rfl⟩

/-- A date that ends with a character of two bytes is read as documented. -/
theorem mondayMorning_reads :
  ReadsAsDocumented .date "2026-08-1é" mondayMorning
  := by
  apply (reparse_exact _ _ _ mondayMorning_staysInRange).2.mpr
  rintro ⟨⟨⟩, -⟩

/-- An hour of eleven digits is not recognized, though there is no such hour. -/
theorem hugeHour_unrecognized :
  Bytes.reparse .localDatetime "2026-08-10T99999999999:00" mondayMorning
      = reject .unrecognizedText
    ∧ ComponentOutOfRange .localDatetime "2026-08-10T99999999999:00"
    ∧ ¬ReadsAsDocumented .localDatetime "2026-08-10T99999999999:00" mondayMorning
  := by
  have hdate : DateText "2026-08-10".toList "2026".toList "08".toList "10".toList :=
    ⟨by decide, by decide, by decide, by decide⟩
  have htime : TimeText "99999999999:00".toList "99999999999".toList "00".toList "00".toList :=
    ⟨Or.inl (by decide), by decide, by decide, by decide⟩
  have hhuge : HugeTime .localDatetime "2026-08-10T99999999999:00" :=
    ⟨rfl, "2026-08-10".toList, "99999999999:00".toList,
      ⟨by decide, Or.inl (by decide)⟩, ⟨_, _, _, hdate, by decide⟩,
      _, _, _, htime, by decide⟩
  have hresult : Bytes.reparse .localDatetime "2026-08-10T99999999999:00" mondayMorning
      = reject .unrecognizedText := by
    decide
  refine ⟨hresult, hhuge.componentOutOfRange, ?_⟩
  intro hreads
  have hcomponent := hreads.component.mpr hhuge.componentOutOfRange
  rw [hresult] at hcomponent
  cases hcomponent

end Domain
