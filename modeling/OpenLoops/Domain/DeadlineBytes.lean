import OpenLoops.Domain.DeadlineGrammar
import OpenLoops.Library.Utf8

/-!
# Deadlines in bytes

Dates are parsed at offsets in bytes, and a text may have characters of several bytes.  An offset
inside of a character would panic; it never comes to that, and the bytes are parsed as the
characters are.
-/

namespace Domain.Bytes

open Utf8

/-- The components of a date, at their offsets in bytes. -/
def parseDateComponents (value : List Char) : Parsed (Int32 × UInt32 × UInt32) :=
  if (bytes value).length ≠ 10 || (bytes value)[4]? ≠ some '-'.toUInt8
      || (bytes value)[7]? ≠ some '-'.toUInt8 then
    reject .unrecognizedText
  else do
    let yearText ← (slice value 0 4).okOr .panicked
    let monthText ← (slice value 5 7).okOr .panicked
    let dayText ← (slice value 8 10).okOr .panicked
    if ¬isAsciiDigits yearText || ¬isAsciiDigits monthText || ¬isAsciiDigits dayText then
      reject .unrecognizedText
    else
      let year ← parseComponent (2 ^ 31) yearText
      let month ← parseComponent (2 ^ 32) monthText
      let day ← parseComponent (2 ^ 32) dayText
      if ¬isValidCivilDate (.ofNat year) (.ofNat month) (.ofNat day) then
        reject .invalidCalendarComponent
      else return (.ofNat year, .ofNat month, .ofNat day)

def parseExplicitDate (value : String) : Parsed ParsedValue := do
  let (year, month, day) ← parseDateComponents value.toList
  return .date (.ofCivil year month day)

def parseExplicitDatetime (value : String) (context : ParseContext) : Parsed ParsedValue := do
  if (bytes value.toList).length < 12 then reject .unrecognizedText
  else
    let separator ← ((bytes value.toList)[10]?).okOr .panicked
    if separator ≠ 'T'.toUInt8 && separator ≠ ' '.toUInt8 then reject .unrecognizedText
    else
      let (year, month, day) ← parseDateComponents (← (slice value.toList 0 10).okOr .panicked)
      let (hour, minute, second) ←
        parseTimeComponents (← (dropBytes value.toList 11).okOr .panicked)
      instantAt (.ofCivil year month day)
        { context with eodSecondsSinceMidnight := hour * 3600 + minute * 60 + second }

/-- Read an expression of the declared kind. -/
def reparse (kind : TemporalKind) (value : String) (context : ParseContext) :
    Parsed ParsedValue :=
  match kind with
  | .eventRelative => .ok .eventRelative
  | .softWindow => parseSoft value
  | .date => parseExplicitDate value
  | .localDatetime => parseExplicitDatetime value context
  | .relative => parseRelative value context

/-! ### Bytes and characters -/

theorem getElem?_bytes_append {before : List Char} {c : Char} (after : List Char)
    (hc : c.toNat < 128) {n : ℕ} (hn : n = (bytes before).length) :
  (bytes (before ++ c :: after))[n]? = some c.toUInt8
  := by
  rw [bytes_append, bytes_cons, utf8EncodeChar_ascii hc, hn, List.getElem?_append_right (le_refl _),
    Nat.sub_self]
  rfl

/-- Each text that passes the checks on its bytes has the form of a date. -/
theorem exists_of_dashes {value : List Char} (hlength : (bytes value).length = 10)
    (hfirst : (bytes value)[4]? = some '-'.toUInt8)
    (hsecond : (bytes value)[7]? = some '-'.toUInt8) :
  ∃ year month day, value = year ++ '-' :: (month ++ '-' :: day)
    ∧ (bytes year).length = 4 ∧ (bytes month).length = 2 ∧ (bytes day).length = 2
  := by
  have hdash : '-'.toNat < 128 := by decide
  obtain ⟨year, rest, rfl, hyear⟩ := exists_of_getElem?_bytes hdash hfirst
  have hbytes : bytes (year ++ '-' :: rest) = bytes year ++ '-'.toUInt8 :: bytes rest := by
    rw [bytes_append, bytes_cons, utf8EncodeChar_ascii hdash]
    rfl
  rw [hbytes, List.getElem?_append_right (by omega), hyear] at hsecond
  obtain ⟨month, day, rfl, hmonth⟩ := exists_of_getElem?_bytes hdash (n := 2) hsecond
  refine ⟨year, month, day, rfl, hyear, hmonth, ?_⟩
  rw [hbytes, List.length_append, List.length_cons, bytes_append, List.length_append,
    length_bytes_cons, show '-'.utf8Size = 1 from rfl] at hlength
  omega

/-- The parts of such a text are read. -/
theorem parseDateComponents_eq_readDate {year month day : List Char}
    (hyear : (bytes year).length = 4) (hmonth : (bytes month).length = 2)
    (hday : (bytes day).length = 2) :
  parseDateComponents (year ++ '-' :: (month ++ '-' :: day)) = readDate year month day
  := by
  have hdash : '-'.toNat < 128 := by decide
  have hsize : ∀ text : List Char, (bytes ('-' :: text)).length = 1 + (bytes text).length :=
    fun text => length_bytes_cons '-' text
  have hlength : (bytes (year ++ '-' :: (month ++ '-' :: day))).length = 10 := by
    rw [bytes_append, List.length_append, hsize, bytes_append, List.length_append, hsize]
    omega
  have hsecondDash : year ++ '-' :: (month ++ '-' :: day)
      = (year ++ '-' :: month) ++ '-' :: day := by
    simp
  have hbefore : (bytes (year ++ '-' :: month)).length = 7 := by
    rw [bytes_append, List.length_append, hsize]
    omega
  have hfirst : (bytes (year ++ '-' :: (month ++ '-' :: day)))[4]? = some '-'.toUInt8 :=
    getElem?_bytes_append _ hdash hyear.symm
  have hsecond : (bytes (year ++ '-' :: (month ++ '-' :: day)))[7]? = some '-'.toUInt8 := by
    rw [hsecondDash]
    apply getElem?_bytes_append _ hdash hbefore.symm
  have hyearText : slice (year ++ '-' :: (month ++ '-' :: day)) 0 4 = some year :=
    slice_append [] year _ rfl (by omega)
  have hmonthText : slice (year ++ '-' :: (month ++ '-' :: day)) 5 7 = some month := by
    rw [show year ++ '-' :: (month ++ '-' :: day) = (year ++ ['-']) ++ (month ++ '-' :: day) by simp]
    apply slice_append
    · rw [bytes_append, List.length_append, hsize, hyear]
      rfl
    · omega
  have hdayText : slice (year ++ '-' :: (month ++ '-' :: day)) 8 10 = some day := by
    rw [show year ++ '-' :: (month ++ '-' :: day)
      = (year ++ '-' :: month ++ ['-']) ++ (day ++ []) by simp]
    apply slice_append
    · rw [bytes_append, List.length_append, hbefore]
      rfl
    · omega
  rw [parseDateComponents, hlength, hfirst, hsecond, if_neg (by decide), hyearText, hmonthText,
    hdayText]
  rfl

/-- Dates are parsed in bytes as they are in characters. -/
theorem parseDateComponents_eq (value : List Char) :
  parseDateComponents value = Domain.parseDateComponents value
  := by
  by_cases hdate : ∃ year month day, DateText value year month day
  · obtain ⟨year, month, day, hdate⟩ := hdate
    rw [hdate.parseDateComponents_eq]
    obtain ⟨rfl, ⟨hyear, hyear'⟩, ⟨hmonth, hmonth'⟩, hday, hday'⟩ := hdate
    apply parseDateComponents_eq_readDate
    · rw [length_bytes_ascii fun c => toNat_lt_of_isAsciiDigits hyear, hyear']
    · rw [length_bytes_ascii fun c => toNat_lt_of_isAsciiDigits hmonth, hmonth']
    · rw [length_bytes_ascii fun c => toNat_lt_of_isAsciiDigits hday, hday']
  · simp only [not_exists] at hdate
    rw [parseDateComponents_eq_unrecognized hdate]
    by_cases hguard : (bytes value).length = 10 ∧ (bytes value)[4]? = some '-'.toUInt8
        ∧ (bytes value)[7]? = some '-'.toUInt8
    · obtain ⟨hlength, hfirst, hsecond⟩ := hguard
      obtain ⟨year, month, day, rfl, hyear, hmonth, hday⟩ :=
        exists_of_dashes hlength hfirst hsecond
      rw [parseDateComponents_eq_readDate hyear hmonth hday]
      -- the parts are not of digits, since the text is not that of a date
      apply readDate_eq_unrecognized
      rintro ⟨hyear', hmonth', hday'⟩
      apply hdate year month day
      rw [length_bytes_ascii fun c => toNat_lt_of_isAsciiDigits hyear'] at hyear
      rw [length_bytes_ascii fun c => toNat_lt_of_isAsciiDigits hmonth'] at hmonth
      rw [length_bytes_ascii fun c => toNat_lt_of_isAsciiDigits hday'] at hday
      exact ⟨rfl, ⟨hyear', hyear⟩, ⟨hmonth', hmonth⟩, hday', hday⟩
    · rw [parseDateComponents, if_pos]
      simp only [Bool.or_eq_true, decide_eq_true_iff, ne_eq]
      tauto

/-- A text whose date is read is parsed in bytes as it is in characters. -/
theorem parseExplicitDatetime_append {value : String} {date time : List Char} {c : Char}
    (hvalue : value.toList = date ++ c :: time) (hc : c = 'T' ∨ c = ' ') (htime : time ≠ [])
    (hdate : (bytes date).length = 10) (context : ParseContext) :
  parseExplicitDatetime value context = readDatetime context date time
  := by
  have hascii : c.toNat < 128 := by
    rcases hc with rfl | rfl <;> decide
  have hpos := length_bytes_pos.mpr htime
  have hlength : ¬ (bytes value.toList).length < 12 := by
    rw [hvalue, bytes_append, List.length_append, length_bytes_cons, utf8Size_ascii hascii]
    omega
  have hat : (bytes value.toList)[10]? = some c.toUInt8 := by
    rw [hvalue]
    apply getElem?_bytes_append _ hascii hdate.symm
  have hdateText : slice value.toList 0 10 = some date := by
    rw [hvalue]
    exact slice_append [] date _ rfl (by omega)
  have htimeText : dropBytes value.toList 11 = some time := by
    have hbefore : 11 = (bytes (date ++ [c])).length := by
      rw [bytes_append, List.length_append, length_bytes_cons, utf8Size_ascii hascii, hdate]
      rfl
    rw [hvalue, hbefore, show date ++ c :: time = date ++ [c] ++ time by simp]
    apply dropBytes_append
  rw [parseExplicitDatetime, if_neg hlength, hat]
  apply Eq.trans (if_neg _)
  · rw [hdateText, htimeText, readDatetime, ← parseDateComponents_eq]
    rfl
  · rcases hc with rfl | rfl <;> decide

/-- Dates with times are parsed in bytes as they are in characters. -/
theorem parseExplicitDatetime_eq (value : String) (context : ParseContext) :
  parseExplicitDatetime value context = Domain.parseExplicitDatetime value context
  := by
  by_cases hdatetime : ∃ date time, DatetimeText value.toList date time
      ∧ ∃ year month day, DateText date year month day
  · obtain ⟨date, time, htext, year, month, day, hdate⟩ := hdatetime
    obtain ⟨hlength, hascii⟩ := hdate.ascii
    rw [htext.parseExplicitDatetime_eq hlength]
    obtain ⟨htime, hvalue⟩ := htext
    rw [← length_bytes_ascii hascii] at hlength
    rcases hvalue with hvalue | hvalue
    · apply parseExplicitDatetime_append hvalue (Or.inl rfl) htime hlength
    · apply parseExplicitDatetime_append hvalue (Or.inr rfl) htime hlength
  · have hunrecognized : ∀ date time, DatetimeText value.toList date time →
        ∀ year month day, ¬DateText date year month day := by
      intro date time htext year month day hdate
      exact hdatetime ⟨date, time, htext, year, month, day, hdate⟩
    rw [parseExplicitDatetime_eq_unrecognized hunrecognized]
    by_cases hlength : (bytes value.toList).length < 12
    · rw [parseExplicitDatetime, if_pos hlength]
    · obtain ⟨b, hb⟩ : ∃ b, (bytes value.toList)[10]? = some b :=
        ⟨_, List.getElem?_eq_getElem (by omega)⟩
      by_cases hseparator : b = 'T'.toUInt8 ∨ b = ' '.toUInt8
      · -- the bytes before the separator are not those of a date
        obtain ⟨c, hc, rfl⟩ : ∃ c : Char, (c = 'T' ∨ c = ' ') ∧ b = c.toUInt8 := by
          rcases hseparator with rfl | rfl
          · exact ⟨'T', Or.inl rfl, rfl⟩
          · exact ⟨' ', Or.inr rfl, rfl⟩
        have hascii : c.toNat < 128 := by
          rcases hc with rfl | rfl <;> decide
        obtain ⟨date, time, hvalue, hdate⟩ := exists_of_getElem?_bytes hascii hb
        have htime : time ≠ [] := by
          rintro rfl
          apply hlength
          rw [hvalue, bytes_append, List.length_append, length_bytes_cons, utf8Size_ascii hascii,
            hdate]
          decide
        rw [parseExplicitDatetime_append hvalue hc htime hdate, readDatetime,
          parseDateComponents_eq_unrecognized (hunrecognized date time ⟨htime, _⟩)]
        · rfl
        · rcases hc with rfl | rfl
          · exact Or.inl hvalue
          · exact Or.inr hvalue
      · rw [parseExplicitDatetime, if_neg hlength, hb]
        apply if_pos
        simp only [Bool.and_eq_true, decide_eq_true_iff, ne_eq]
        tauto

/-- Expressions are read in bytes as they are in characters; no offset is inside of a character. -/
theorem reparse_eq (kind : TemporalKind) (value : String) (context : ParseContext) :
  reparse kind value context = Domain.reparse kind value context
  := by
  cases kind with
  | date => rw [reparse, parseExplicitDate, parseDateComponents_eq, Domain.reparse,
      Domain.parseExplicitDate]
  | localDatetime => rw [reparse, parseExplicitDatetime_eq, Domain.reparse]
  | relative => rfl
  | eventRelative => rfl
  | softWindow => rfl

end Domain.Bytes
