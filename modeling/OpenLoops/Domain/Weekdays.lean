import OpenLoops.Domain.Calendar
import OpenLoops.Library.Blocks

/-!
# Days of the week

The day of a weekday phrase is the next such day after the day of the message, and the week of a
phrase is the one with the day of the message, or the one after it.  The search for a day of the
week always ends within seven steps.
-/

namespace Domain

variable {ε : Type*}

/-- The place in its week of a day with a number. -/
def weekdayOf (n : ℤ) : ℤ :=
  (n % 7 + 4) % 7

theorem weekdayIndex_eq (day : CivilDay) :
  weekdayIndex day = weekdayOf day.days.toInt
  := rfl

/-! ### Searches -/

theorem CivilDay.addDays_eq_ok {day later : CivilDay} {count : ℤ} :
  day.addDays (ε := ε) count = .ok later ↔ later.days.toInt = day.days.toInt + count
  := by
  obtain ⟨days⟩ := later
  rw [CivilDay.addDays]
  constructor
  · intro h
    obtain ⟨days', hdays, ⟨⟩⟩ := Except.bind_eq_ok.mp h
    apply Int64.checked_eq_some.mp
    cases hchecked : Int64.checked (day.days.toInt + count) with
    | none =>
        rw [hchecked] at hdays
        cases hdays
    | some x =>
        rw [hchecked] at hdays
        cases hdays
        rfl
  · intro h
    rw [Int64.checked_eq_some.mpr h]
    rfl

/-- A search that ends has come to a day as wanted, past days that are not. -/
theorem CivilDay.seek_eq_ok {wanted : CivilDay → Bool} {P : ℤ → Prop}
    (hwanted : ∀ day, wanted day = true ↔ P day.days.toInt) {step : ℤ} {fuel : ℕ}
    {day found : CivilDay} (h : CivilDay.seek (ε := ε) wanted step fuel day = .ok found) :
  ∃ k : ℕ, k < fuel ∧ found.days.toInt = day.days.toInt + k * step ∧ P found.days.toInt
    ∧ ∀ j : ℕ, j < k → ¬ P (day.days.toInt + j * step)
  := by
  induction fuel generalizing day with
  | zero => cases h
  | succ fuel ih =>
      rw [CivilDay.seek] at h
      by_cases hday : wanted day = true
      · rw [if_pos hday] at h
        cases h
        exact ⟨0, by omega, by simp, (hwanted found).mp hday, by omega⟩
      · rw [if_neg hday] at h
        obtain ⟨next, hnext, hrest⟩ := Except.bind_eq_ok.mp h
        rw [CivilDay.addDays_eq_ok] at hnext
        obtain ⟨k, hk, hfound, hP, hnone⟩ := ih hrest
        rw [hnext] at hfound hnone
        refine ⟨k + 1, by omega, ?_, hP, ?_⟩
        · rw [hfound]
          push_cast
          ring
        · intro j hj
          cases j with
          | zero =>
              rw [hwanted] at hday
              simpa using hday
          | succ j =>
              rw [show day.days.toInt + ((j + 1 : ℕ) : ℤ) * step
                = day.days.toInt + step + j * step by push_cast; ring]
              apply hnone
              omega

/-- A search from the day after a day on ends at the next day as wanted. -/
theorem next_of_seek {wanted : CivilDay → Bool} {P : ℤ → Prop}
    (hwanted : ∀ day, wanted day = true ↔ P day.days.toInt) {fuel : ℕ} {day first found : CivilDay}
    (hfirst : first.days.toInt = day.days.toInt + 1)
    (h : CivilDay.seek (ε := ε) wanted 1 fuel first = .ok found) :
  Occurrences.Next P day.days.toInt found.days.toInt
    ∧ found.days.toInt ≤ day.days.toInt + fuel
  := by
  obtain ⟨k, hk, hfound, hP, hnone⟩ := CivilDay.seek_eq_ok hwanted h
  refine ⟨⟨by omega, hP, ?_⟩, by omega⟩
  intro x hlower hupper
  obtain ⟨j, hj⟩ := Int.eq_ofNat_of_zero_le (show 0 ≤ x - first.days.toInt by omega)
  rw [show x = first.days.toInt + j * 1 by omega]
  apply hnone
  omega

/-! ### Weekdays and weeks -/

variable {context : ParseContext} {today : CivilDay}

/-- The day of a message is in range. -/
theorem inRange_of_messageLocalDay (h : messageLocalDay (ε := ε) context = .ok today) :
  context.InRange ∧ today.InRange 0
  := by
  rw [messageLocalDay] at h
  obtain ⟨localSeconds, hlocal, -⟩ := Except.bind_eq_ok.mp h
  have hsum : localSeconds.toInt = context.messageTimestamp.seconds.toInt
      + (offsetAt context.messageTimestamp context.timezone).toInt := by
    apply Int64.checked_eq_some.mp
    cases hchecked : Int64.checked (context.messageTimestamp.seconds.toInt
        + (offsetAt context.messageTimestamp context.timezone).toInt) with
    | none =>
        rw [hchecked] at hlocal
        cases hlocal
    | some x =>
        rw [hchecked] at hlocal
        cases hlocal
        rfl
  have hmin := localSeconds.le_toInt
  have hmax := localSeconds.toInt_lt
  have hcontext : context.InRange := ⟨by omega, by omega⟩
  obtain ⟨day, hday, hrange⟩ := hcontext.exists_messageLocalDay (ε := ε)
  rw [messageLocalDay] at hday
  rw [hday] at h
  cases h
  exact ⟨hcontext, hrange⟩

/-- The next such day of the week after a day, within a week. -/
def IsNextWeekday (day : CivilDay) (target : Weekday) (later : CivilDay) : Prop :=
  Occurrences.Next (weekdayOf · = target.index) day.days.toInt later.days.toInt
    ∧ later.days.toInt ≤ day.days.toInt + 7

/-- The seven days from a day of the week on, with a day among them. -/
def IsWeekOf (day : CivilDay) (weekStart : Weekday) (start «end» : CivilDay) : Prop :=
  weekdayIndex start = weekStart.index
    ∧ start.days.toInt ≤ day.days.toInt ∧ day.days.toInt ≤ «end».days.toInt
    ∧ «end».days.toInt = start.days.toInt + 6

theorem exists_isNextWeekday (hrange : today.InRange 0) (target : Weekday) :
  ∃ day, nextWeekday (ε := ε) today target true = .ok day ∧ IsNextWeekday today target day
  := by
  obtain ⟨day, hday⟩ := hrange.exists_nextWeekday (ε := ε) target (by decide)
  refine ⟨day, hday, ?_⟩
  obtain ⟨first, hfirst, hseek⟩ := Except.bind_eq_ok.mp hday
  rw [if_pos rfl, CivilDay.addDays_eq_ok] at hfirst
  apply next_of_seek (P := (weekdayOf · = target.index)) _ hfirst hseek
  intro day
  rw [decide_eq_true_iff, weekdayIndex_eq]

/-- The week of a day is found, and the one that begins after it. -/
theorem exists_isWeekOf (hrange : today.InRange 0) (weekStart : Weekday) :
  ∃ start «end» nextStart nextEnd : CivilDay,
    weekRange today weekStart false = .ok (start, «end»)
      ∧ weekRange today weekStart true = .ok (nextStart, nextEnd)
      ∧ IsWeekOf today weekStart start «end»
      ∧ nextStart.days.toInt = «end».days.toInt + 1
      ∧ nextEnd.days.toInt = nextStart.days.toInt + 6
  := by
  obtain ⟨⟨start, «end»⟩, hweek⟩ := hrange.exists_weekRange weekStart false (by decide)
  obtain ⟨⟨nextStart, nextEnd⟩, hnext⟩ := hrange.exists_weekRange weekStart true (by decide)
  refine ⟨start, «end», nextStart, nextEnd, hweek, hnext, ?_⟩
  obtain ⟨first, hfirst, hrest⟩ := Except.bind_eq_ok.mp hweek
  obtain ⟨first', hfirst', hrest'⟩ := Except.bind_eq_ok.mp hnext
  rw [hfirst] at hfirst'
  cases hfirst'
  obtain ⟨_, ⟨⟩, hrest⟩ := Except.bind_eq_ok.mp hrest
  obtain ⟨_, hend, ⟨⟩⟩ := Except.bind_eq_ok.mp hrest
  obtain ⟨_, hstart', hrest'⟩ := Except.bind_eq_ok.mp hrest'
  obtain ⟨_, hend', ⟨⟩⟩ := Except.bind_eq_ok.mp hrest'
  rw [if_pos rfl] at hstart'
  rw [CivilDay.addDays_eq_ok] at hend hstart' hend'
  obtain ⟨k, hk, hfound, hweekday, -⟩ := CivilDay.seek_eq_ok
    (P := (weekdayOf · = weekStart.index)) (fun day => by
      rw [decide_eq_true_iff, weekdayIndex_eq]) hfirst
  exact ⟨⟨hweekday, by omega, by omega, hend⟩, by omega, hend'⟩

/-- The phrases for a weekday. -/
theorem parseRelativeTokens_weekday {name : String} {target : Weekday}
    (h : Weekday.fromName name = some target) :
  parseRelativeTokens today context [name]
      = (do return .date (← nextWeekday today target true))
    ∧ parseRelativeTokens today context [name, "eod"]
      = (do instantAt (← nextWeekday today target true) context)
    ∧ parseRelativeTokens today context ["eod", name]
      = (do instantAt (← nextWeekday today target true) context)
  := by
  rw [Weekday.fromName.eq_def] at h
  split at h
  all_goals first | (cases h; exact ⟨rfl, rfl, rfl⟩) | cases h

/-- A relative expression is read on the day of its message only. -/
theorem reparse_relative_of_day (h : messageLocalDay (ε := ParseRejection) context = .ok today)
    (value : String) :
  reparse .relative value context = parseRelativeTokens today context (relativeTokens value)
  := by
  rw [reparse, parseRelative, h]
  rfl

/-- Nothing else of the time of the message is read. -/
theorem parseRelativeTokens_timestamp (timestamp : UnixSeconds) (tokens : List String) :
  parseRelativeTokens today { context with messageTimestamp := timestamp } tokens
    = parseRelativeTokens today context tokens
  := by
  rw [parseRelativeTokens.eq_def, parseRelativeTokens.eq_def]
  rfl

/-- Weekdays and weeks are resolved exactly.  A phrase for a weekday is the next such day after the
day of the message, or its end; this week is the one with the day of the message, and the next week
begins when it ends; and a message at another time of the same day resolves every phrase alike. -/
theorem weekdays_exact (context : ParseContext) (today : CivilDay)
    (h : messageLocalDay (ε := ParseRejection) context = .ok today) :
  (∀ name target, Weekday.fromName name = some target →
      ∃ day, IsNextWeekday today target day
        ∧ (∀ value, relativeTokens value = [name] →
          reparse .relative value context = .ok (.date day))
        ∧ ∀ value, relativeTokens value = [name, "eod"] ∨ relativeTokens value = ["eod", name] →
          reparse .relative value context = instantAt day context)
    ∧ (∃ start «end» nextStart nextEnd : CivilDay,
      IsWeekOf today context.weekStart start «end»
        ∧ nextStart.days.toInt = «end».days.toInt + 1
        ∧ nextEnd.days.toInt = nextStart.days.toInt + 6
        ∧ (∀ value,
          relativeTokens value = ["this", "week"] ∨ relativeTokens value = ["end", "of", "week"] →
          reparse .relative value context = .ok (.week start «end»))
        ∧ ∀ value, relativeTokens value = ["next", "week"] →
          reparse .relative value context = .ok (.week nextStart nextEnd))
    ∧ ∀ timestamp,
      messageLocalDay (ε := ParseRejection) { context with messageTimestamp := timestamp }
        = .ok today →
      ∀ value, reparse .relative value { context with messageTimestamp := timestamp }
        = reparse .relative value context
  := by
  have hparse := reparse_relative_of_day h
  obtain ⟨-, hrange⟩ := inRange_of_messageLocalDay h
  refine ⟨?_, ?_, ?_⟩
  · intro name target hname
    obtain ⟨day, hday, hnext⟩ := exists_isNextWeekday (ε := ParseRejection) hrange target
    obtain ⟨hbare, hbefore, hafter⟩ :=
      @parseRelativeTokens_weekday context today _ _ hname
    rw [hday] at hbare hbefore hafter
    refine ⟨day, hnext, ?_, ?_⟩
    · intro value hvalue
      rw [hparse, hvalue, hbare]
      rfl
    · rintro value (hvalue | hvalue)
      · rw [hparse, hvalue, hbefore]
        rfl
      · rw [hparse, hvalue, hafter]
        rfl
  · obtain ⟨start, «end», nextStart, nextEnd, hthis, hnext, hweek, hstart, hend⟩ :=
      exists_isWeekOf hrange context.weekStart
    refine ⟨start, «end», nextStart, nextEnd, hweek, hstart, hend, ?_, ?_⟩
    · rintro value (hvalue | hvalue)
      · rw [hparse, hvalue, parseRelativeTokens, hthis]
        rfl
      · rw [hparse, hvalue, parseRelativeTokens, hthis]
        rfl
    · intro value hvalue
      rw [hparse, hvalue, parseRelativeTokens, hnext]
      rfl
  · intro timestamp hday value
    rw [reparse_relative_of_day hday, hparse, parseRelativeTokens_timestamp]

/-- A message of Monday, the third of August 2026, at nine. -/
def mondayMorning : ParseContext where
  messageTimestamp := ⟨1785765600⟩
  timezone := ⟨-18000, none⟩
  eodSecondsSinceMidnight := 61200
  weekStart := .monday

/-- Friday is then the seventh of August. -/
theorem mondayMorning_friday :
  reparse .relative "Friday" mondayMorning = .ok (.date (.ofCivil 2026 8 7))
  := by
  have hday : messageLocalDay (ε := ParseRejection) mondayMorning = .ok (.ofCivil 2026 8 3) := by
    decide +kernel
  obtain ⟨hweekday, -, -⟩ := weekdays_exact mondayMorning _ hday
  obtain ⟨day, hnext, hbare, -⟩ := hweekday "friday" .friday rfl
  rw [hbare "Friday" (by decide)]
  obtain ⟨⟨hlt, hfriday, -⟩, hle⟩ := hnext
  have hmonday : (CivilDay.ofCivil 2026 8 3).days.toInt = 20668 := by decide
  have hdays : day.days = (CivilDay.ofCivil 2026 8 7).days := by
    rw [← Int64.toInt_inj, show (CivilDay.ofCivil 2026 8 7).days.toInt = 20672 by decide]
    rw [weekdayOf, Weekday.index] at hfriday
    omega
  rw [show day = .ofCivil 2026 8 7 from congrArg CivilDay.mk hdays]

end Domain
