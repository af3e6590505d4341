import OpenLoops.Domain.Weekdays

/-!
# The grammar of deadlines

The texts of dates, times and relative expressions, and what the parser makes of each of them.
-/

namespace Domain

/-! ### Numbers -/

/-- The number that digits write. -/
def numberOf (digits : List Char) : ℕ :=
  Nat.ofDigitChars 10 digits 0

theorem parseBelow_eq (bound : ℕ) (digits : List Char) :
  parseBelow bound digits = if numberOf digits < bound then some (numberOf digits) else none
  := rfl

/-- Digits write a number below the power of ten with as many zeros. -/
theorem numberOf_lt {digits : List Char} (h : ∀ c ∈ digits, c.isDigit = true) :
  numberOf digits < 10 ^ digits.length
  := by
  induction digits with
  | nil => decide
  | cons c digits ih =>
      have hc := h c List.mem_cons_self
      have hrest := ih fun d hd => h d (List.mem_cons_of_mem c hd)
      have hdigit : c.toNat - '0'.toNat ≤ 9 := by
        simp only [Char.isDigit, Bool.and_eq_true, decide_eq_true_iff, ge_iff_le,
          UInt32.le_iff_toNat_le] at hc
        have hupper : c.toNat ≤ 57 := hc.2
        rw [show '0'.toNat = 48 from rfl]
        omega
      rw [numberOf, Nat.ofDigitChars_cons, Nat.ofDigitChars_eq_ofDigitChars_zero, List.length_cons,
        pow_succ]
      rw [numberOf] at hrest
      have hmul := Nat.mul_le_mul_left (10 ^ digits.length) hdigit
      rw [Nat.mul_zero, Nat.zero_add]
      omega

theorem isAsciiDigits_iff {digits : List Char} :
  isAsciiDigits digits = true ↔ digits ≠ [] ∧ ∀ c ∈ digits, c.isDigit = true
  := by
  rw [isAsciiDigits, Bool.and_eq_true, decide_eq_true_iff, List.all_eq_true]

/-- Digits are characters of ASCII. -/
theorem toNat_lt_of_isAsciiDigits {digits : List Char} (h : isAsciiDigits digits = true) {c : Char}
    (hc : c ∈ digits) :
  c.toNat < 128
  := by
  apply toNat_lt_of_isAlphanum
  rw [Char.isAlphanum, (isAsciiDigits_iff.mp h).2 c hc, Bool.or_true]

/-! ### Dates -/

/-- The text of a date, of four, two and two digits. -/
structure DateText (value year month day : List Char) : Prop where
  eq : value = year ++ '-' :: (month ++ '-' :: day)
  year : isAsciiDigits year = true ∧ year.length = 4
  month : isAsciiDigits month = true ∧ month.length = 2
  day : isAsciiDigits day = true ∧ day.length = 2

/-- Whether there is the date that the digits write. -/
def realDate (year month day : List Char) : Bool :=
  isValidCivilDate (.ofNat (numberOf year)) (.ofNat (numberOf month)) (.ofNat (numberOf day))

/-- Read a date from its digits. -/
def readDate (year month day : List Char) : Parsed (Int32 × UInt32 × UInt32) :=
  if ¬isAsciiDigits year || ¬isAsciiDigits month || ¬isAsciiDigits day then
    reject .unrecognizedText
  else do
    let y ← parseComponent (2 ^ 31) year
    let m ← parseComponent (2 ^ 32) month
    let d ← parseComponent (2 ^ 32) day
    if ¬isValidCivilDate (.ofNat y) (.ofNat m) (.ofNat d) then reject .invalidCalendarComponent
    else return (.ofNat y, .ofNat m, .ofNat d)

theorem parseComponent_eq {bound : ℕ} {digits : List Char} (h : numberOf digits < bound) :
  parseComponent bound digits = .ok (numberOf digits)
  := by
  rw [parseComponent, parseBelow_eq, if_pos h]
  rfl

/-- A date is read when there is such a date. -/
theorem DateText.readDate_eq {value year month day : List Char}
    (h : DateText value year month day) :
  readDate year month day = if realDate year month day = true then
      .ok (.ofNat (numberOf year), .ofNat (numberOf month), .ofNat (numberOf day))
    else reject .invalidCalendarComponent
  := by
  obtain ⟨-, ⟨hyear, hyear'⟩, ⟨hmonth, hmonth'⟩, hday, hday'⟩ := h
  have hyearLt := numberOf_lt (isAsciiDigits_iff.mp hyear).2
  have hmonthLt := numberOf_lt (isAsciiDigits_iff.mp hmonth).2
  have hdayLt := numberOf_lt (isAsciiDigits_iff.mp hday).2
  rw [hyear'] at hyearLt
  rw [hmonth'] at hmonthLt
  rw [hday'] at hdayLt
  rw [readDate, if_neg (by simp [hyear, hmonth, hday]), parseComponent_eq (by omega),
    parseComponent_eq (by omega), parseComponent_eq (by omega), realDate]
  change (if ¬isValidCivilDate (.ofNat (numberOf year)) (.ofNat (numberOf month))
      (.ofNat (numberOf day)) = true then reject .invalidCalendarComponent
    else Except.ok (Int32.ofNat (numberOf year), UInt32.ofNat (numberOf month),
      UInt32.ofNat (numberOf day))) = _
  by_cases hreal : isValidCivilDate (.ofNat (numberOf year)) (.ofNat (numberOf month))
      (.ofNat (numberOf day)) = true
  · rw [if_pos hreal, if_neg (not_not.mpr hreal)]
  · rw [if_neg hreal, if_pos hreal]

/-- What is not of digits is not recognized. -/
theorem readDate_eq_unrecognized {year month day : List Char}
    (h : ¬(isAsciiDigits year = true ∧ isAsciiDigits month = true ∧ isAsciiDigits day = true)) :
  readDate year month day = reject .unrecognizedText
  := by
  rw [readDate, if_pos]
  simp only [Bool.or_eq_true, decide_eq_true_iff]
  tauto

theorem drop_eq_cons {α : Type*} {l : List α} {n : ℕ} {a : α} (h : l[n]? = some a) :
  l.drop n = a :: l.drop (n + 1)
  := by
  obtain ⟨hn, rfl⟩ := List.getElem?_eq_some_iff.mp h
  apply List.drop_eq_getElem_cons hn

/-- The text of a date is read from its digits. -/
theorem DateText.parseDateComponents_eq {value year month day : List Char}
    (h : DateText value year month day) :
  parseDateComponents value = readDate year month day
  := by
  obtain ⟨rfl, ⟨-, hyear⟩, ⟨-, hmonth⟩, -, hday⟩ := h
  have htail : '-' :: (month ++ '-' :: day) = ('-' :: month) ++ ('-' :: day) := rfl
  have hlength : (year ++ '-' :: (month ++ '-' :: day)).length = 10 := by
    simp only [List.length_append, List.length_cons]
    omega
  have hfirst : (year ++ '-' :: (month ++ '-' :: day))[4]? = some '-' := by
    rw [List.getElem?_append_right (by omega), hyear]
    rfl
  have hsecond : (year ++ '-' :: (month ++ '-' :: day))[7]? = some '-' := by
    rw [List.getElem?_append_right (by omega), hyear, htail,
      List.getElem?_append_right (by rw [List.length_cons]; omega), List.length_cons, hmonth]
    rfl
  have hyearText : (year ++ '-' :: (month ++ '-' :: day)).take 4 = year := by
    rw [← hyear, List.take_left]
  have hmonthText : ((year ++ '-' :: (month ++ '-' :: day)).drop 5).take 2 = month := by
    rw [show 5 = year.length + 1 by omega, List.drop_length_add_append, List.drop_one,
      List.tail_cons, ← hmonth, List.take_left]
  have hdayText : (year ++ '-' :: (month ++ '-' :: day)).drop 8 = day := by
    rw [show 8 = year.length + 4 by omega, List.drop_length_add_append, htail,
      show 4 = ('-' :: month).length + 1 by rw [List.length_cons]; omega,
      List.drop_length_add_append, List.drop_one, List.tail_cons]
  rw [parseDateComponents, hlength, hfirst, hsecond, if_neg (by decide), hyearText, hmonthText,
    hdayText]
  rfl

/-- Other texts are not recognized as dates. -/
theorem parseDateComponents_eq_unrecognized {value : List Char}
    (h : ∀ year month day, ¬DateText value year month day) :
  parseDateComponents value = reject .unrecognizedText
  := by
  rw [parseDateComponents]
  split_ifs with hguard
  · rfl
  · simp only [Bool.or_eq_true, decide_eq_true_iff, not_or, ne_eq, not_not] at hguard
    obtain ⟨⟨hlength, hfirst⟩, hsecond⟩ := hguard
    -- the text has the form of a date, so it is not of digits
    apply readDate_eq_unrecognized
    rintro ⟨hyear, hmonth, hday⟩
    apply h (value.take 4) ((value.drop 5).take 2) (value.drop 8)
    refine ⟨?_, ⟨hyear, ?_⟩, ⟨hmonth, ?_⟩, hday, ?_⟩
    · rw [← drop_eq_cons hsecond, show value.drop 7 = (value.drop 5).drop 2 by rw [List.drop_drop],
        List.take_append_drop, ← drop_eq_cons hfirst, List.take_append_drop]
    · rw [List.length_take]
      omega
    · rw [List.length_take, List.length_drop]
      omega
    · rw [List.length_drop]
      omega

/-! ### Times -/

/-- The text of a time, of two or three numbers; the seconds may be left out. -/
structure TimeText (value hour minute second : List Char) : Prop where
  eq : value = hour ++ ':' :: minute ∧ second = ['0', '0']
    ∨ value = hour ++ ':' :: (minute ++ ':' :: second)
  hour : isAsciiDigits hour = true
  minute : isAsciiDigits minute = true
  second : isAsciiDigits second = true

/-- Whether the time that the digits write is one of the day. -/
def timeInRange (hour minute second : List Char) : Bool :=
  numberOf hour ≤ 23 && numberOf minute ≤ 59 && numberOf second ≤ 59

/-- Whether a number of the time does not fit in 32 bits. -/
def hugeTime (hour minute second : List Char) : Bool :=
  2 ^ 32 ≤ numberOf hour || 2 ^ 32 ≤ numberOf minute || 2 ^ 32 ≤ numberOf second

/-- Read a time from its digits. -/
def readTime (hour minute second : List Char) : Parsed (UInt32 × UInt32 × UInt32) :=
  if ¬isAsciiDigits hour || ¬isAsciiDigits minute || ¬isAsciiDigits second then
    reject .unrecognizedText
  else do
    let h ← parseComponent (2 ^ 32) hour
    let m ← parseComponent (2 ^ 32) minute
    let s ← parseComponent (2 ^ 32) second
    if 23 < h || 59 < m || 59 < s then reject .invalidCalendarComponent
    else return (.ofNat h, .ofNat m, .ofNat s)

theorem parseComponent_eq_unrecognized {bound : ℕ} {digits : List Char}
    (h : bound ≤ numberOf digits) :
  parseComponent bound digits = reject .unrecognizedText
  := by
  rw [parseComponent, parseBelow_eq, if_neg (Nat.not_lt.mpr h)]
  rfl

/-- A time is read when it is one of the day, and rejected as out of range when its numbers fit in
32 bits. -/
theorem readTime_eq {hour minute second : List Char} (hhour : isAsciiDigits hour = true)
    (hminute : isAsciiDigits minute = true) (hsecond : isAsciiDigits second = true) :
  readTime hour minute second =
    if hugeTime hour minute second = true then reject .unrecognizedText
    else if timeInRange hour minute second = true then
      .ok (.ofNat (numberOf hour), .ofNat (numberOf minute), .ofNat (numberOf second))
    else reject .invalidCalendarComponent
  := by
  rw [readTime, if_neg (by simp [hhour, hminute, hsecond])]
  by_cases hhuge : hugeTime hour minute second = true
  · rw [if_pos hhuge]
    simp only [hugeTime, Bool.or_eq_true, decide_eq_true_iff] at hhuge
    -- the first number that does not fit is not recognized
    rcases lt_or_ge (numberOf hour) (2 ^ 32) with hhour | hhour
    · rw [parseComponent_eq hhour]
      rcases lt_or_ge (numberOf minute) (2 ^ 32) with hminute | hminute
      · rw [parseComponent_eq hminute, parseComponent_eq_unrecognized (by omega)]
        rfl
      · rw [parseComponent_eq_unrecognized hminute]
        rfl
    · rw [parseComponent_eq_unrecognized hhour]
      rfl
  · rw [if_neg hhuge]
    simp only [hugeTime, Bool.or_eq_true, decide_eq_true_iff, not_or, not_le] at hhuge
    obtain ⟨⟨hhourLt, hminuteLt⟩, hsecondLt⟩ := hhuge
    rw [parseComponent_eq hhourLt, parseComponent_eq hminuteLt, parseComponent_eq hsecondLt]
    change (if (23 < numberOf hour || 59 < numberOf minute || 59 < numberOf second) = true then
        reject .invalidCalendarComponent
      else Except.ok (UInt32.ofNat (numberOf hour), UInt32.ofNat (numberOf minute),
        UInt32.ofNat (numberOf second))) = _
    by_cases hrange : timeInRange hour minute second = true
    · rw [if_pos hrange]
      apply if_neg
      simp only [timeInRange, Bool.and_eq_true, decide_eq_true_iff] at hrange
      simp only [Bool.or_eq_true, decide_eq_true_iff]
      omega
    · rw [if_neg hrange]
      apply if_pos
      simp only [timeInRange, Bool.and_eq_true, decide_eq_true_iff] at hrange
      simp only [Bool.or_eq_true, decide_eq_true_iff]
      omega

theorem readTime_eq_unrecognized {hour minute second : List Char}
    (h : ¬(isAsciiDigits hour = true ∧ isAsciiDigits minute = true
      ∧ isAsciiDigits second = true)) :
  readTime hour minute second = reject .unrecognizedText
  := by
  rw [readTime, if_pos]
  simp only [Bool.or_eq_true, decide_eq_true_iff]
  tauto

theorem colon_notMem_of_isAsciiDigits {digits : List Char} (h : isAsciiDigits digits = true) :
  ':' ∉ digits
  := by
  intro hc
  have hdigit := (isAsciiDigits_iff.mp h).2 ':' hc
  revert hdigit
  decide

/-- The text of a time is read from its digits. -/
theorem TimeText.parseTimeComponents_eq {value hour minute second : List Char}
    (h : TimeText value hour minute second) :
  parseTimeComponents value = readTime hour minute second
  := by
  obtain ⟨heq, hhour, hminute, hsecond⟩ := h
  have hhour' := List.splitOn_append_cons_self_of_not_mem (colon_notMem_of_isAsciiDigits hhour)
  have hminute' := colon_notMem_of_isAsciiDigits hminute
  rcases heq with ⟨rfl, rfl⟩ | rfl
  · rw [parseTimeComponents, hhour', List.splitOn_eq_singleton hminute']
    rfl
  · rw [parseTimeComponents, hhour', List.splitOn_append_cons_self_of_not_mem hminute',
      List.splitOn_eq_singleton (colon_notMem_of_isAsciiDigits hsecond)]
    rfl

/-- Other texts are not recognized as times. -/
theorem parseTimeComponents_eq_unrecognized {value : List Char}
    (h : ∀ hour minute second, ¬TimeText value hour minute second) :
  parseTimeComponents value = reject .unrecognizedText
  := by
  have hvalue : [':'].intercalate (value.splitOn ':') = value := List.intercalate_splitOn ':'
  rw [parseTimeComponents]
  generalize value.splitOn ':' = parts at hvalue
  -- the parts are not of digits, as the text is not that of a time
  have hread : ∀ {hour minute second : List Char},
      (value = hour ++ ':' :: minute ∧ second = ['0', '0']
        ∨ value = hour ++ ':' :: (minute ++ ':' :: second)) →
      readTime hour minute second = reject .unrecognizedText := by
    intro hour minute second heq
    apply readTime_eq_unrecognized
    rintro ⟨hhour, hminute, hsecond⟩
    apply h hour minute second ⟨heq, hhour, hminute, hsecond⟩
  rcases parts with _ | ⟨hour, _ | ⟨minute, _ | ⟨second, _ | ⟨part, parts⟩⟩⟩⟩
  · rfl
  · rfl
  · apply hread (Or.inl ⟨_, rfl⟩)
    rw [← hvalue]
    simp [List.intercalate]
  · apply hread (Or.inr _)
    rw [← hvalue]
    simp [List.intercalate]
  · rfl

/-! ### Dates with times -/

/-- The text of a date and a time, with one character between them. -/
def DatetimeText (value date time : List Char) : Prop :=
  time ≠ [] ∧ (value = date ++ 'T' :: time ∨ value = date ++ ' ' :: time)

/-- Read a time on a date. -/
def readDatetime (context : ParseContext) (date time : List Char) : Parsed ParsedValue := do
  let (year, month, day) ← parseDateComponents date
  let (hour, minute, second) ← parseTimeComponents time
  instantAt (.ofCivil year month day)
    { context with eodSecondsSinceMidnight := hour * 3600 + minute * 60 + second }

/-- The text of a date is one of ten characters of ASCII. -/
theorem DateText.ascii {value year month day : List Char} (h : DateText value year month day) :
  value.length = 10 ∧ ∀ c ∈ value, c.toNat < 128
  := by
  obtain ⟨rfl, ⟨hyear, hyear'⟩, ⟨hmonth, hmonth'⟩, hday, hday'⟩ := h
  constructor
  · simp only [List.length_append, List.length_cons]
    omega
  · intro c hc
    rw [List.mem_append, List.mem_cons, List.mem_append, List.mem_cons] at hc
    rcases hc with hc | rfl | hc | rfl | hc
    · apply toNat_lt_of_isAsciiDigits hyear hc
    · decide
    · apply toNat_lt_of_isAsciiDigits hmonth hc
    · decide
    · apply toNat_lt_of_isAsciiDigits hday hc

/-- The text of a date and a time is read from both. -/
theorem DatetimeText.parseExplicitDatetime_eq {value : String} {date time : List Char}
    (h : DatetimeText value.toList date time) (hdate : date.length = 10) (context : ParseContext) :
  parseExplicitDatetime value context = readDatetime context date time
  := by
  obtain ⟨htime, hvalue⟩ := h
  have hpos := List.length_pos_iff.mpr htime
  have hread : ∀ c, (c = 'T' ∨ c = ' ') → value.toList = date ++ c :: time →
      parseExplicitDatetime value context = readDatetime context date time := by
    intro c hc hvalue
    have hlength : ¬ value.toList.length < 12 := by
      rw [hvalue, List.length_append, List.length_cons]
      omega
    have hat : value.toList[10]? = some c := by
      rw [hvalue, List.getElem?_append_right (by omega), hdate]
      rfl
    have hdateText : value.toList.take 10 = date := by
      rw [hvalue, ← hdate, List.take_left]
    have htimeText : value.toList.drop 11 = time := by
      rw [hvalue, show 11 = date.length + 1 by omega, List.drop_length_add_append]
      rfl
    rw [parseExplicitDatetime, if_neg hlength, hat, if_neg, hdateText, htimeText]
    · rfl
    · rcases hc with rfl | rfl
      · decide
      · decide
  rcases hvalue with hvalue | hvalue
  · apply hread 'T' (Or.inl rfl) hvalue
  · apply hread ' ' (Or.inr rfl) hvalue

/-- Other texts are not recognized as dates with times. -/
theorem parseExplicitDatetime_eq_unrecognized {value : String} {context : ParseContext}
    (h : ∀ date time, DatetimeText value.toList date time →
      ∀ year month day, ¬DateText date year month day) :
  parseExplicitDatetime value context = reject .unrecognizedText
  := by
  rw [parseExplicitDatetime]
  split_ifs with hlength hat
  · rfl
  · rfl
  · simp only [Bool.and_eq_true, decide_eq_true_iff, ne_eq, not_and_or, not_not] at hat
    have htime : value.toList.drop 11 ≠ [] := by
      rw [ne_eq, List.drop_eq_nil_iff]
      omega
    have hdatetime : DatetimeText value.toList (value.toList.take 10) (value.toList.drop 11) := by
      use htime
      rcases hat with hat | hat
      · rw [← drop_eq_cons hat, List.take_append_drop]
        exact Or.inl rfl
      · rw [← drop_eq_cons hat, List.take_append_drop]
        exact Or.inr rfl
    rw [parseDateComponents_eq_unrecognized (h _ _ hdatetime)]
    rfl

end Domain
