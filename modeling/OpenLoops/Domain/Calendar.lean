import OpenLoops.Domain.DeadlineParse
import OpenLoops.Library.Blocks
import Mathlib.Data.Set.Function
import Mathlib.Order.Interval.Set.Defs
import Mathlib.Tactic.IntervalCases

/-!
# The numbers of days

The days of the calendar are numbered one after the other, across the ends of months, leap days,
centuries and the year zero.  The number is computed from a year that begins in March; the months
counted from there on are consecutive blocks of days.
-/

namespace Domain

/-! ### Months -/

theorem isLeapYear_iff (year : Int32) :
  isLeapYear year = true ↔ year.toInt % 4 = 0 ∧ (year.toInt % 100 ≠ 0 ∨ year.toInt % 400 = 0)
  := by
  have hmod : ∀ k : Int32, (year % k = 0 ↔ year.toInt % k.toInt = 0) := by
    intro k
    rw [← Int32.toInt_inj, Int32.toInt_mod, Int32.toInt_zero, ← Int.dvd_iff_tmod_eq_zero,
      Int.dvd_iff_emod_eq_zero]
  simp only [isLeapYear, Bool.and_eq_true, Bool.or_eq_true, decide_eq_true_iff, ne_eq, hmod]
  rfl

/-- A month is one of twelve. -/
theorem mem_months {month : UInt32} (hfrom : 1 ≤ month.toNat) (hto : month.toNat ≤ 12) :
  month ∈ ([1, 2, 3, 4, 5, 6, 7, 8, 9, 10, 11, 12] : List UInt32)
  := by
  simp only [List.mem_cons, ← UInt32.toNat_inj, UInt32.reduceToNat, List.not_mem_nil, or_false]
  omega

/-- The length of a month, from its place in a year that begins in March. -/
theorem toNat_daysInMonth (year : Int32) {month : UInt32} (hfrom : 1 ≤ month.toNat)
    (hto : month.toNat ≤ 12) :
  ((daysInMonth year month).toNat : ℤ) =
    if month.toNat = 2 then (if isLeapYear year then 29 else 28)
    else (153 * (((month.toNat : ℤ) + 9) % 12 + 1) + 2) / 5 - (153 * (((month.toNat : ℤ) + 9) % 12) + 2) / 5
  := by
  have hmonth := mem_months hfrom hto
  by_cases hfebruary : month = 2
  · subst hfebruary
    by_cases hleap : isLeapYear year = true
    · simp [daysInMonth, hleap]
    · simp [daysInMonth, hleap]
  · rw [if_neg (by rw [← UInt32.toNat_inj] at hfebruary; exact hfebruary)]
    simp only [List.mem_cons, List.not_mem_nil, or_false] at hmonth
    rcases hmonth with rfl | rfl | rfl | rfl | rfl | rfl | rfl | rfl | rfl | rfl | rfl | rfl
    all_goals first | exact absurd rfl hfebruary | rfl

theorem one_le_daysInMonth (year : Int32) {month : UInt32} (hfrom : 1 ≤ month.toNat)
    (hto : month.toNat ≤ 12) :
  1 ≤ (daysInMonth year month).toNat
  := by
  have hlength := toNat_daysInMonth year hfrom hto
  split_ifs at hlength
  · omega
  · omega
  · omega

/-- The number of the first of a month, the months being counted from March of the year zero. -/
def monthStart (j : ℤ) : ℤ :=
  365 * (j / 12) + j / 12 / 4 - j / 12 / 100 + j / 12 / 400 + (153 * (j % 12) + 2) / 5 - 719468

/-- The number of a month, counted from March of the year zero. -/
def monthNumber (year : Int32) (month : UInt32) : ℤ :=
  12 * year.toInt + month.toNat - 3

/-- A date is so many days after the first of its month. -/
theorem daysFromCivil_eq (year : Int32) {month : UInt32} (hfrom : 1 ≤ month.toNat)
    (hto : month.toNat ≤ 12) (day : UInt32) :
  daysFromCivil year month day = monthStart (monthNumber year month) + day.toNat - 1
  := by
  -- rounded down, the era is a quotient
  have hera : ∀ y : ℤ, (if 0 ≤ y then y else y - 399).tdiv 400 = y / 400 := by
    intro y
    rw [Int.tdiv_eq_ediv, show Int.sign 400 = 1 from rfl]
    split_ifs with hy
    · omega
    · omega
    · omega
    · omega
  have hshift : (if month ≤ 2 then year.toInt - 1 else year.toInt) = monthNumber year month / 12
      ∧ (month.toNat : ℤ) + (if 2 < month then -3 else 9) = monthNumber year month % 12 := by
    rw [monthNumber]
    simp only [UInt32.le_iff_toNat_le, UInt32.lt_iff_toNat_lt, UInt32.reduceToNat]
    split_ifs
    · omega
    · omega
    · omega
    · omega
  obtain ⟨hyear, hmonth⟩ := hshift
  rw [daysFromCivil, hyear, hmonth, hera, monthStart]
  generalize monthNumber year month = j
  have hround : ∀ {n : ℤ} (k : ℤ), 0 ≤ n → n.tdiv k = n / k := by
    intro n k hn
    apply Int.tdiv_eq_ediv_of_nonneg hn
  rw [hround 5 (by omega), hround 4 (by omega), hround 100 (by omega)]
  omega

theorem strictMono_monthStart :
  StrictMono monthStart
  := by
  apply strictMono_int_of_lt_succ
  intro j
  rw [monthStart, monthStart]
  by_cases hlast : j % 12 = 11
  · have hquot : (j + 1) / 12 = j / 12 + 1 := by omega
    have hrest : (j + 1) % 12 = 0 := by omega
    rw [hquot, hrest, hlast]
    omega
  · have hquot : (j + 1) / 12 = j / 12 := by omega
    have hrest : (j + 1) % 12 = j % 12 + 1 := by omega
    rw [hquot, hrest]
    omega

/-- The next month begins where a month ends. -/
theorem monthStart_add_one (year : Int32) {month : UInt32} (hfrom : 1 ≤ month.toNat)
    (hto : month.toNat ≤ 12) :
  monthStart (monthNumber year month + 1)
    = monthStart (monthNumber year month) + (daysInMonth year month).toNat
  := by
  have hleap := isLeapYear_iff year
  rw [toNat_daysInMonth year hfrom hto, monthStart, monthStart, monthNumber]
  generalize year.toInt = y at *
  generalize month.toNat = m at *
  by_cases hfebruary : m = 2
  · subst hfebruary
    have hquot : (12 * y + (2 : ℕ) - 3 + 1) / 12 = y := by omega
    have hquot' : (12 * y + (2 : ℕ) - 3) / 12 = y - 1 := by omega
    have hrest : (12 * y + (2 : ℕ) - 3 + 1) % 12 = 0 := by omega
    have hrest' : (12 * y + (2 : ℕ) - 3) % 12 = 11 := by omega
    rw [hquot, hquot', hrest, hrest', if_pos rfl]
    split_ifs with h
    · rw [hleap] at h
      omega
    · rw [hleap] at h
      omega
  · have hrest : (12 * y + (m : ℤ) - 3) % 12 = ((m : ℤ) + 9) % 12 := by omega
    have hrest' : (12 * y + (m : ℤ) - 3 + 1) % 12 = ((m : ℤ) + 9) % 12 + 1 := by omega
    have hquot : (12 * y + (m : ℤ) - 3 + 1) / 12 = (12 * y + (m : ℤ) - 3) / 12 := by omega
    rw [hquot, hrest, hrest', if_neg hfebruary]
    omega

/-! ### Dates -/

theorem isValidCivilDate_iff {year : Int32} {month day : UInt32} :
  isValidCivilDate year month day = true ↔
    1 ≤ month.toNat ∧ month.toNat ≤ 12 ∧ 1 ≤ day.toNat ∧ day.toNat ≤ (daysInMonth year month).toNat
  := by
  simp only [isValidCivilDate, Bool.and_eq_true, decide_eq_true_iff, UInt32.le_iff_toNat_le,
    and_assoc]
  rfl

/-- A date of the calendar. -/
@[ext]
structure CivilDate where
  year : Int32
  month : UInt32
  day : UInt32
  valid : isValidCivilDate year month day = true
deriving DecidableEq, Repr

namespace CivilDate

/-- The number of the day, as it is computed. -/
def number (date : CivilDate) : ℤ :=
  daysFromCivil date.year date.month date.day

/-- The year, the month and the day of a date are compared one after the other. -/
def Before (date later : CivilDate) : Prop :=
  date.year < later.year
    ∨ date.year = later.year ∧ (date.month < later.month
      ∨ date.month = later.month ∧ date.day < later.day)

/-- The first of a month. -/
def firstOf (year : Int32) (month : UInt32) (h : 1 ≤ month.toNat ∧ month.toNat ≤ 12) :
    CivilDate where
  year := year
  month := month
  day := 1
  valid := isValidCivilDate_iff.mpr ⟨h.1, h.2, Nat.le_refl 1, one_le_daysInMonth year h.1 h.2⟩

variable (date : CivilDate)

theorem one_le_month :
  1 ≤ date.month.toNat
  := (isValidCivilDate_iff.mp date.valid).1

theorem month_le :
  date.month.toNat ≤ 12
  := (isValidCivilDate_iff.mp date.valid).2.1

theorem one_le_day :
  1 ≤ date.day.toNat
  := (isValidCivilDate_iff.mp date.valid).2.2.1

theorem day_le :
  date.day.toNat ≤ (daysInMonth date.year date.month).toNat
  := (isValidCivilDate_iff.mp date.valid).2.2.2

theorem toNat_day_add_one (h : date.day < daysInMonth date.year date.month) :
  (date.day + 1).toNat = date.day.toNat + 1
  := by
  have hlt := UInt32.lt_iff_toNat_lt.mp h
  have hbound := (daysInMonth date.year date.month).toNat_lt
  rw [UInt32.toNat_add, show (1 : UInt32).toNat = 1 from rfl]
  omega

theorem toNat_month_add_one :
  (date.month + 1).toNat = date.month.toNat + 1
  := by
  have hle := date.month_le
  rw [UInt32.toNat_add, show (1 : UInt32).toNat = 1 from rfl]
  omega

theorem isValidCivilDate_day_add_one (h : date.day < daysInMonth date.year date.month) :
  isValidCivilDate date.year date.month (date.day + 1) = true
  := by
  have hlt := UInt32.lt_iff_toNat_lt.mp h
  rw [isValidCivilDate_iff, date.toNat_day_add_one h]
  exact ⟨date.one_le_month, date.month_le, by omega, hlt⟩

/-- The date that follows, but after the last day of the last year. -/
def next : Option CivilDate :=
  if h : date.day < daysInMonth date.year date.month then
    some ⟨date.year, date.month, date.day + 1, date.isValidCivilDate_day_add_one h⟩
  else if h : date.month < 12 then
    some (firstOf date.year (date.month + 1)
      ⟨by rw [date.toNat_month_add_one]; omega,
        by rw [date.toNat_month_add_one]; exact UInt32.lt_iff_toNat_lt.mp h⟩)
  else if date.year < Int32.maxValue then
    some (firstOf (date.year + 1) 1 (by decide))
  else none

/-- The first date of the calendar. -/
def first : CivilDate :=
  firstOf Int32.minValue 1 (by decide)

/-- The last date of the calendar. -/
def last : CivilDate :=
  ⟨Int32.maxValue, 12, 31, by decide⟩

/-- A date is in the block of its month. -/
theorem number_eq :
  date.number = monthStart (monthNumber date.year date.month) + date.day.toNat - 1
  := daysFromCivil_eq date.year date.one_le_month date.month_le date.day

theorem mem_month :
  Blocks.Mem monthStart (monthNumber date.year date.month) date.number
  := by
  have hstart := monthStart_add_one date.year date.one_le_month date.month_le
  have hfrom := date.one_le_day
  have hto := date.day_le
  rw [Blocks.Mem, hstart, number_eq]
  constructor
  · omega
  · omega

/-- Later dates have greater numbers. -/
theorem number_lt_iff (later : CivilDate) :
  date.number < later.number ↔ date.Before later
  := by
  rw [date.mem_month.lt_iff strictMono_monthStart later.mem_month, number_eq, number_eq, Before,
    Int32.lt_iff_toInt_lt, ← Int32.toInt_inj, UInt32.lt_iff_toNat_lt, UInt32.lt_iff_toNat_lt,
    ← UInt32.toNat_inj, monthNumber, monthNumber]
  have hfrom := date.one_le_month
  have hto := date.month_le
  have hfrom' := later.one_le_month
  have hto' := later.month_le
  omega

/-- Dates with one number are one date. -/
theorem number_injective :
  Function.Injective number
  := by
  intro date later h
  have hbefore : ¬ date.Before later := by
    rw [← number_lt_iff]
    omega
  have hafter : ¬ later.Before date := by
    rw [← number_lt_iff]
    omega
  simp only [Before, Int32.lt_iff_toInt_lt, ← Int32.toInt_inj, UInt32.lt_iff_toNat_lt,
    ← UInt32.toNat_inj] at hbefore hafter
  ext
  · rw [Int32.toInt_inj.mp (show date.year.toInt = later.year.toInt by omega)]
  · rw [UInt32.toNat_inj.mp (show date.month.toNat = later.month.toNat by omega)]
  · rw [UInt32.toNat_inj.mp (show date.day.toNat = later.day.toNat by omega)]

theorem number_firstOf (year : Int32) (month : UInt32)
    (h : 1 ≤ month.toNat ∧ month.toNat ≤ 12) :
  (firstOf year month h).number = monthStart (monthNumber year month)
  := by
  rw [number_eq]
  dsimp only [firstOf]
  rw [show (1 : UInt32).toNat = 1 from rfl]
  omega

/-- After the last day of a month comes the first of the next one. -/
theorem number_add_one_of_last (h : ¬ date.day < daysInMonth date.year date.month) :
  date.number + 1 = monthStart (monthNumber date.year date.month + 1)
  := by
  rw [UInt32.lt_iff_toNat_lt] at h
  have hle := date.day_le
  rw [number_eq, monthStart_add_one date.year date.one_le_month date.month_le]
  omega

theorem month_eq_of_last (h : ¬ date.month < 12) :
  date.month = 12
  := by
  rw [UInt32.lt_iff_toNat_lt, show (12 : UInt32).toNat = 12 from rfl] at h
  have hle := date.month_le
  rw [← UInt32.toNat_inj, show (12 : UInt32).toNat = 12 from rfl]
  omega

theorem toInt_year_add_one (h : date.year < Int32.maxValue) :
  (date.year + 1).toInt = date.year.toInt + 1
  := by
  rw [Int32.lt_iff_toInt_lt, show Int32.maxValue.toInt = 2 ^ 31 - 1 from rfl] at h
  have hmin := date.year.le_toInt
  rw [Int32.toInt_add, show (1 : Int32).toInt = 1 from rfl]
  apply Int.bmod_eq_of_le
  · omega
  · omega

/-- The next date has the next number. -/
theorem number_next {next : CivilDate} (h : date.next = some next) :
  next.number = date.number + 1
  := by
  rw [CivilDate.next] at h
  split_ifs at h with hday hmonth hyear
  · cases h
    rw [number_eq, number_eq]
    dsimp only
    rw [date.toNat_day_add_one hday]
    omega
  · cases h
    rw [date.number_add_one_of_last hday, number_firstOf, monthNumber, monthNumber,
      date.toNat_month_add_one]
    apply congrArg monthStart
    omega
  · cases h
    rw [date.number_add_one_of_last hday, number_firstOf, monthNumber, monthNumber,
      date.toInt_year_add_one hyear, date.month_eq_of_last hmonth,
      show (12 : UInt32).toNat = 12 from rfl, show (1 : UInt32).toNat = 1 from rfl]
    apply congrArg monthStart
    omega

/-- Only the last date is not followed by another. -/
theorem next_eq_none_iff :
  date.next = none ↔ date = last
  := by
  constructor
  · intro h
    rw [CivilDate.next] at h
    split_ifs at h with hday hmonth hyear
    have hmonth' := date.month_eq_of_last hmonth
    have hyear' : date.year = Int32.maxValue := by
      rw [Int32.lt_iff_toInt_lt, show Int32.maxValue.toInt = 2 ^ 31 - 1 from rfl] at hyear
      have hmax := date.year.toInt_lt
      rw [← Int32.toInt_inj, show Int32.maxValue.toInt = 2 ^ 31 - 1 from rfl]
      omega
    have hday' := date.day_le
    rw [UInt32.lt_iff_toNat_lt] at hday
    rw [hyear', hmonth', show (daysInMonth Int32.maxValue 12).toNat = 31 from rfl] at hday hday'
    ext
    · rw [hyear', last]
    · rw [hmonth', last]
    · rw [last, UInt32.toNat_inj.mp (show date.day.toNat = (31 : UInt32).toNat by
        rw [show (31 : UInt32).toNat = 31 from rfl]
        omega)]
  · rintro rfl
    rfl

end CivilDate

/-! ### The numbers of dates -/

/-- The days of the week follow one another. -/
theorem weekdayIndex_add_one {day later : CivilDay}
    (h : later.days.toInt = day.days.toInt + 1) :
  weekdayIndex later = (weekdayIndex day + 1) % 7
  := by
  rw [weekdayIndex, weekdayIndex, h]
  omega

/-- The day of a date holds its number. -/
theorem CivilDate.toInt_days (date : CivilDate) :
  (CivilDay.ofCivil date.year date.month date.day).days.toInt = date.number
  := by
  obtain ⟨hlower, hupper⟩ := daysFromCivil_bounds date.valid
  apply Int64.toInt_ofInt_of_le
  · omega
  · omega

/-- Every number between those of two dates is the number of a date. -/
theorem CivilDate.surjOn_number :
  Set.SurjOn CivilDate.number Set.univ (Set.Icc CivilDate.first.number CivilDate.last.number)
  := by
  rintro n ⟨hfrom, hto⟩
  -- one after the other, from the first date on
  induction n, hfrom using Int.leInduction with
  | base => exact ⟨CivilDate.first, Set.mem_univ _, rfl⟩
  | succ n hfrom ih =>
      obtain ⟨date, -, rfl⟩ := ih (by omega)
      cases hnext : date.next with
      | some next => exact ⟨next, Set.mem_univ _, date.number_next hnext⟩
      | none =>
          rw [date.next_eq_none_iff] at hnext
          rw [hnext] at hto
          omega

/-- No date is outside of these numbers. -/
theorem CivilDate.number_mem (date : CivilDate) :
  date.number ∈ Set.Icc CivilDate.first.number CivilDate.last.number
  := by
  have hfirst : ¬ date.Before CivilDate.first := by
    have hmonth := date.one_le_month
    have hday := date.one_le_day
    have hyear := date.year.le_toInt
    simp only [Before, CivilDate.first, firstOf, Int32.lt_iff_toInt_lt, UInt32.lt_iff_toNat_lt,
      UInt32.reduceToNat, show Int32.minValue.toInt = -2 ^ 31 from rfl]
    omega
  have hlast : ¬ CivilDate.last.Before date := by
    have hmonth := date.month_le
    have hday := date.day_le
    have hyear := date.year.toInt_lt
    intro hbefore
    simp only [Before, CivilDate.last, Int32.lt_iff_toInt_lt, UInt32.lt_iff_toNat_lt,
      UInt32.reduceToNat, show Int32.maxValue.toInt = 2 ^ 31 - 1 from rfl] at hbefore
    rcases hbefore with hlt | ⟨-, hlt | ⟨hmonth', hlt⟩⟩
    · omega
    · omega
    · have hlong := isValidCivilDate_le date.valid
      omega
  rw [← number_lt_iff] at hfirst hlast
  constructor
  · omega
  · omega

/-- Dates are numbered one after the other.  Later dates have greater numbers; the date that
follows has the next number, across the ends of months and years; the epoch has the number zero
and is a Thursday, and the days of the week follow one another; so each number between those of
the first and the last date is that of exactly one date. -/
theorem daysFromCivil_exact :
  (∀ date later : CivilDate, date.number < later.number ↔ date.Before later)
    ∧ (∀ date next : CivilDate, date.next = some next → next.number = date.number + 1)
    ∧ (∀ date : CivilDate, date.next = none ↔ date = CivilDate.last)
    ∧ daysFromCivil 1970 1 1 = 0
    ∧ (∀ day later : CivilDay, later.days.toInt = day.days.toInt + 1 →
      weekdayIndex later = (weekdayIndex day + 1) % 7)
    ∧ weekdayIndex (.ofCivil 1970 1 1) = Weekday.thursday.index
    ∧ (∀ date : CivilDate,
      (CivilDay.ofCivil date.year date.month date.day).days.toInt = date.number)
    ∧ Set.BijOn CivilDate.number Set.univ
      (Set.Icc CivilDate.first.number CivilDate.last.number)
  := by
  refine ⟨CivilDate.number_lt_iff, fun date _ => date.number_next, CivilDate.next_eq_none_iff,
    by decide, fun _ _ => weekdayIndex_add_one, by decide, CivilDate.toInt_days, ?_⟩
  use fun date _ => date.number_mem, CivilDate.number_injective.injOn, CivilDate.surjOn_number

/-- The day after the twenty-ninth of February 2000 is the first of March. -/
theorem leapDay_number :
  (CivilDate.mk 2000 3 1 (by decide)).number = (CivilDate.mk 2000 2 29 (by decide)).number + 1
  := by
  obtain ⟨-, hnext, -⟩ := daysFromCivil_exact
  apply hnext
  decide

end Domain
