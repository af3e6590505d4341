import OpenLoops.Domain.DeadlineExactness
import OpenLoops.Review.DeadlineView

/-!
# Deadlines that were validated

A deadline is validated as an expression of a declared kind.  It is shown without its kind, from its
words alone, as what the validated expression was read as.
-/

namespace Review

open Domain

/-! ### Words -/

/-- The words of a phrase that is read are of letters and digits. -/
theorem isAlphanum_of_relativePhrase {tokens : List String}
    (h : RelativePhrase CountWithin tokens) :
  ∀ token ∈ tokens, ∀ c ∈ token.toList, c.isAlphanum = true
  := by
  have hweekday : ∀ {name : String} {target : Weekday}, Weekday.fromName name = some target →
      ∀ c ∈ name.toList, c.isAlphanum = true := by
    intro name target hname
    rw [Weekday.fromName.eq_def] at hname
    split at hname
    all_goals first | decide | cases hname
  have hcount : ∀ {token : String}, CountWithin token →
      ∀ c ∈ token.toList, c.isAlphanum = true := by
    intro token htoken c hc
    rw [Char.isAlphanum, (isAsciiDigits_iff.mp htoken.1).2 c hc, Bool.or_true]
  cases h with
  | weekdayEod hname =>
      simp only [List.forall_mem_cons]
      exact ⟨hweekday hname, by decide, fun _ h => absurd h List.not_mem_nil⟩
  | eodWeekday hname =>
      simp only [List.forall_mem_cons]
      exact ⟨by decide, hweekday hname, fun _ h => absurd h List.not_mem_nil⟩
  | weekday hname =>
      simp only [List.forall_mem_cons]
      exact ⟨hweekday hname, fun _ h => absurd h List.not_mem_nil⟩
  | businessDays htoken =>
      simp only [List.forall_mem_cons]
      exact ⟨by decide, hcount htoken, by decide, by decide, fun _ h => absurd h List.not_mem_nil⟩
  | days htoken =>
      simp only [List.forall_mem_cons]
      exact ⟨by decide, hcount htoken, by decide, fun _ h => absurd h List.not_mem_nil⟩
  | _ => decide

/-- No phrase begins with a word that may stand before a date. -/
theorem head_of_relativePhrase {tokens : List String} (h : RelativePhrase CountWithin tokens) :
  ∀ word ∈ ["no", "due", "by", "on"], tokens.head? ≠ some word
  := by
  have hweekday : ∀ {name : String} {target : Weekday}, Weekday.fromName name = some target →
      ∀ word ∈ ["no", "due", "by", "on"], some name ≠ some word := by
    intro name target hname word hword
    rintro ⟨⟩
    revert hname
    simp only [List.mem_cons, List.not_mem_nil, or_false] at hword
    rcases hword with rfl | rfl | rfl | rfl
    all_goals nofun
  cases h with
  | weekdayEod hname => exact hweekday hname
  | weekday hname => exact hweekday hname
  | businessDays htoken => simp
  | days htoken => simp
  | eodWeekday hname => simp
  | _ => decide

/-- No letter or digit is punctuation. -/
theorem isAsciiPunctuation_of_isAlphanum {c : Char} (h : c.isAlphanum = true) :
  Desktop.isAsciiPunctuation c = false
  := by
  apply forall_ascii (P := fun c => c.isAlphanum = true → Desktop.isAsciiPunctuation c = false) _
    (toNat_lt_of_isAlphanum h) h
  decide

/-- Each of the words before a date is followed by a space. -/
theorem exists_word_of_deadlinePrefixes {start : List Char} (h : start ∈ deadlinePrefixes) :
  ∃ word rest, toAsciiLowercase start = word ++ ' ' :: rest ∧ word ≠ []
    ∧ (∀ c ∈ word, isWhitespace c = false) ∧ String.ofList word ∈ ["no", "due", "by", "on"]
  := by
  simp only [deadlinePrefixes, List.map_cons, List.map_nil, List.mem_cons, List.not_mem_nil,
    or_false] at h
  rcases h with rfl | rfl | rfl | rfl | rfl
  · exact ⟨"no".toList, "later than ".toList, by decide⟩
  · exact ⟨"due".toList, "by ".toList, by decide⟩
  · exact ⟨"due".toList, [], by decide⟩
  · exact ⟨"by".toList, [], by decide⟩
  · exact ⟨"on".toList, [], by decide⟩

section

variable {value : String} (h : RelativePhrase CountWithin (relativeTokens value))
include h

/-- What is read as a phrase has something but white space. -/
theorem trim_ne_nil_of_relativePhrase :
  trim value.toList ≠ []
  := by
  intro hnil
  have htokens : relativeTokens value = [] := by
    rw [relativeTokens, hnil]
    rfl
  rw [htokens] at h
  cases h

/-- All of it but white space is of letters and digits. -/
theorem isAlphanum_of_mem_trim {c : Char} (hc : c ∈ trim value.toList)
    (hplain : isWhitespace c = false) :
  c.isAlphanum = true
  := by
  have hlower : ∀ d : Char, d.isAlpha = true → (!isWhitespace d) = true := by
    intro d hd
    rw [isWhitespace_of_isAlphanum (by rw [Char.isAlphanum, hd, Bool.true_or])]
    rfl
  have hplain' : isWhitespace c.toLower = false := by
    have hclass := class_toLower hlower c
    rw [hplain] at hclass
    simpa using hclass
  obtain ⟨word, hword, hmem⟩ := exists_mem_splitWhitespace (List.mem_map_of_mem hc) hplain'
  have halphanum := isAlphanum_of_relativePhrase h (String.ofList word)
    (List.mem_map_of_mem hword) c.toLower (by rwa [String.toList_ofList])
  rw [← class_toLower (p := Char.isAlphanum) _ c]
  · exact halphanum
  · intro d hd
    rw [Char.isAlphanum, hd, Bool.true_or]

/-- Its ends stay when it is normalized. -/
theorem trimMatches_of_relativePhrase :
  trimMatches (fun c => Desktop.isAsciiPunctuation c || isWhitespace c) value.toList
    = trim value.toList
  := by
  obtain ⟨before, after, hsplit, hbefore, hafter, hhead, hlast⟩ := trim_split value.toList
  have hends : ∀ c ∈ trim value.toList, isWhitespace c = false →
      (Desktop.isAsciiPunctuation c || isWhitespace c) = false := by
    intro c hc hplain
    rw [isAsciiPunctuation_of_isAlphanum (isAlphanum_of_mem_trim h hc hplain), hplain]
    rfl
  calc trimMatches (fun c => Desktop.isAsciiPunctuation c || isWhitespace c) value.toList
      = trimMatches (fun c => Desktop.isAsciiPunctuation c || isWhitespace c)
        (before ++ (trim value.toList ++ after)) := congrArg _ hsplit
    _ = trim value.toList := by
        apply trimMatches_append (trim_ne_nil_of_relativePhrase h)
        · intro c hc
          rw [hbefore c hc, Bool.or_true]
        · intro c hc
          rw [hafter c hc, Bool.or_true]
        · intro c hc
          exact hends c (List.mem_of_mem_head? hc) (hhead c hc)
        · intro c hc
          exact hends c (List.mem_of_getLast? hc) (hlast c hc)

/-- A phrase that is read is only trimmed when it is normalized. -/
theorem normalizeQuote_of_relativePhrase :
  normalizeQuote value.toList = trim value.toList
  := by
  have hnone : deadlinePrefixes.find? (fun start =>
      eqIgnoreAsciiCase ((trim value.toList).take start.length) start) = none := by
    rw [List.find?_eq_none]
    intro start hstart heq
    obtain ⟨word, rest, hword, hne, hplain, hmem⟩ := exists_word_of_deadlinePrefixes hstart
    rw [eqIgnoreAsciiCase, decide_eq_true_iff, hword] at heq
    apply head_of_relativePhrase h _ hmem
    have hlower : toAsciiLowercase (trim value.toList) = word ++ ' ' :: (rest
        ++ toAsciiLowercase ((trim value.toList).drop start.length)) := by
      rw [← List.cons_append, ← List.append_assoc, ← heq, toAsciiLowercase, toAsciiLowercase,
        toAsciiLowercase, ← List.map_append, List.take_append_drop]
    rw [relativeTokens, hlower, splitWhitespace_cons hne hplain]
    rfl
  rw [normalizeQuote, trimMatches_of_relativePhrase h, hnone]

end

/-! ### Dates -/

/-- A text with digits at its ends is not changed when it is normalized. -/
theorem normalizeQuote_of_isDigit {text : List Char} {c : Char} (hhead : text.head? = some c)
    (hc : c.isDigit = true) (hlast : ∀ d, text.getLast? = some d → d.isDigit = true) :
  normalizeQuote text = text
  := by
  have hstays : ∀ d : Char, d.isDigit = true →
      (Desktop.isAsciiPunctuation d || isWhitespace d) = false := by
    intro d hd
    have halphanum : d.isAlphanum = true := by rw [Char.isAlphanum, hd, Bool.or_true]
    rw [isAsciiPunctuation_of_isAlphanum halphanum, isWhitespace_of_isAlphanum halphanum]
    rfl
  have htrim : trimMatches (fun c => Desktop.isAsciiPunctuation c || isWhitespace c) text = text := by
    apply trimMatches_eq_self
    · intro d hd
      rw [hhead] at hd
      cases hd
      apply hstays c hc
    · intro d hd
      apply hstays d (hlast d hd)
  have hnone : deadlinePrefixes.find? (fun start =>
      eqIgnoreAsciiCase (text.take start.length) start) = none := by
    rw [List.find?_eq_none]
    intro start hstart heq
    rw [eqIgnoreAsciiCase, decide_eq_true_iff] at heq
    obtain ⟨rest, rfl⟩ : ∃ rest, text = c :: rest := by
      rcases text with _ | ⟨d, rest⟩
      · cases hhead
      · cases hhead
        exact ⟨rest, rfl⟩
    -- the words before a date begin with letters
    have hletter : ∀ start ∈ deadlinePrefixes, start ≠ []
        ∧ start.head?.all (fun d => !d.toLower.isDigit) = true := by
      decide
    obtain ⟨hne, hd⟩ := hletter start hstart
    obtain ⟨d, others, rfl⟩ := List.exists_cons_of_ne_nil hne
    have hd : (!d.toLower.isDigit) = true := hd
    rw [List.length_cons, List.take_succ_cons, toAsciiLowercase, toAsciiLowercase, List.map_cons,
      List.map_cons, List.cons.injEq, toLower_of_isDigit hc] at heq
    rw [← heq.1, hc] at hd
    cases hd
  rw [normalizeQuote, htrim, hnone]

/-- The text of a date begins and ends with digits. -/
theorem ends_of_dateText {text year month day : List Char} (h : DateText text year month day) :
  (∃ c, text.head? = some c ∧ c.isDigit = true)
    ∧ ∀ d, text.getLast? = some d → d.isDigit = true
  := by
  obtain ⟨rfl, ⟨hyear, -⟩, -, hday, -⟩ := h
  obtain ⟨hyearNe, hyear⟩ := isAsciiDigits_iff.mp hyear
  obtain ⟨hdayNe, hday⟩ := isAsciiDigits_iff.mp hday
  constructor
  · obtain ⟨c, rest, rfl⟩ := List.exists_cons_of_ne_nil hyearNe
    exact ⟨c, rfl, hyear c List.mem_cons_self⟩
  · intro d hd
    rw [List.getLast?_append_cons, ← List.cons_append, List.getLast?_append_cons,
      List.getLast?_cons_of_ne_nil hdayNe] at hd
    exact hday d (List.mem_of_getLast? hd)

/-- The text of a time ends with a digit. -/
theorem last_of_timeText {text hour minute second : List Char}
    (h : TimeText text hour minute second) :
  ∀ d, text.getLast? = some d → d.isDigit = true
  := by
  obtain ⟨heq, -, hminute, hsecond⟩ := h
  obtain ⟨hminuteNe, hminute⟩ := isAsciiDigits_iff.mp hminute
  obtain ⟨hsecondNe, hsecond⟩ := isAsciiDigits_iff.mp hsecond
  intro d hd
  rcases heq with ⟨rfl, -⟩ | rfl
  · rw [List.getLast?_append_cons, List.getLast?_cons_of_ne_nil hminuteNe] at hd
    exact hminute d (List.mem_of_getLast? hd)
  · rw [List.getLast?_append_cons, ← List.cons_append, List.getLast?_append_cons,
      List.getLast?_cons_of_ne_nil hsecondNe] at hd
    exact hsecond d (List.mem_of_getLast? hd)

/-- An accepted date with a time is not changed when it is normalized. -/
theorem normalizeQuote_of_localDatetime {value : String} (h : Accepted .localDatetime value) :
  normalizeQuote value.toList = value.toList
  := by
  obtain ⟨date, time, ⟨htime, hvalue⟩, ⟨year, month, day, hdate, -⟩, hour, minute, second,
    htimeText, -⟩ := h
  obtain ⟨⟨c, hhead, hc⟩, -⟩ := ends_of_dateText hdate
  have hlast := last_of_timeText htimeText
  have hends : ∀ separator : Char, value.toList = date ++ separator :: time →
      normalizeQuote value.toList = value.toList := by
    intro separator heq
    apply normalizeQuote_of_isDigit (c := c) _ hc
    · intro d hd
      rw [heq, List.getLast?_append_cons, List.getLast?_cons_of_ne_nil htime] at hd
      exact hlast d hd
    · rw [heq, List.head?_append, hhead]
      rfl
  rcases hvalue with hvalue | hvalue
  · apply hends 'T' hvalue
  · apply hends ' ' hvalue

/-- An accepted date is not changed when it is normalized. -/
theorem normalizeQuote_of_date {value : String} (h : Accepted .date value) :
  normalizeQuote value.toList = value.toList
  := by
  obtain ⟨year, month, day, hdate, -⟩ := h
  obtain ⟨⟨c, hhead, hc⟩, hlast⟩ := ends_of_dateText hdate
  apply normalizeQuote_of_isDigit hhead hc hlast

/-! ### Which kind is found -/

/-- A date with a time is no date. -/
theorem not_localDatetime_of_date {value : String} (h : Accepted .date value) :
  ∀ date time, DatetimeText value.toList date time →
    ∀ year month day, ¬DateText date year month day
  := by
  obtain ⟨year, month, day, hvalue, -⟩ := h
  obtain ⟨hlength, -⟩ := hvalue.ascii
  rintro date time ⟨htime, heq⟩ year' month' day' hdate
  obtain ⟨hlength', -⟩ := hdate.ascii
  have hpos := List.length_pos_iff.mpr htime
  rcases heq with heq | heq
  · rw [heq, List.length_append, List.length_cons] at hlength
    omega
  · rw [heq, List.length_append, List.length_cons] at hlength
    omega

/-- What is read as a phrase has no text of a date in it. -/
theorem not_dateText_of_relativePhrase {value : String}
    (h : RelativePhrase CountWithin (relativeTokens value)) {text after : List Char}
    (heq : trim value.toList = text ++ after) {year month day : List Char} :
  ¬DateText text year month day
  := by
  rintro ⟨rfl, -, -, -⟩
  have hdash := isAlphanum_of_mem_trim h (c := '-') (by rw [heq]; simp) (by decide)
  revert hdash
  decide

/-- An expression of a phrase is trimmed without a change of its words. -/
theorem relativeTokens_trim (value : String) :
  relativeTokens (String.ofList (trim value.toList)) = relativeTokens value
  := by
  obtain ⟨-, -, -, -, -, hhead, hlast⟩ := trim_split value.toList
  rw [relativeTokens, String.toList_ofList, trim_eq_self hhead hlast, relativeTokens]

/-- What is read as relative is a phrase. -/
theorem relativePhrase_of_ok {value : String} {context : ParseContext} {parsed : ParsedValue}
    (h : reparse .relative value context = .ok parsed) :
  RelativePhrase CountWithin (relativeTokens value)
  := by
  obtain ⟨today, -, hparse⟩ := Except.bind_eq_ok.mp h
  by_contra haccepted
  by_cases habove : CountPhrase CountAbove (relativeTokens value)
  · rw [habove.rejected] at hparse
    cases hparse
  · rw [parseRelativeTokens_unrecognized haccepted habove] at hparse
    cases hparse

theorem accepted_of_ok {kind : TemporalKind} {value : String} {result : Parsed ParsedValue}
    {parsed : ParsedValue} (h : Outcome kind value result) (hok : result = .ok parsed) :
  Accepted kind value
  := by
  subst hok
  rcases h.cases with ⟨haccepted, -⟩ | ⟨-, h⟩ | ⟨-, -, h⟩ | ⟨-, h⟩ | ⟨-, -, -, h⟩
  · exact haccepted
  all_goals cases h

/-- The kinds that are tried for the words of a deadline, in their order. -/
def readKinds (value : String) (context : ParseContext) : Option ParsedValue :=
  [TemporalKind.localDatetime, .date, .relative].findSome? fun kind =>
    (reparse kind (String.ofList (normalizeQuote value.toList)) context).toOption

/-- An expression that is read as relative is read so of its words. -/
theorem readKinds_of_relative {value : String} {context : ParseContext} {parsed : ParsedValue}
    (h : reparse .relative value context = .ok parsed) :
  readKinds value context = some parsed
  := by
  have hphrase := relativePhrase_of_ok h
  have hdatetime : parseExplicitDatetime (String.ofList (trim value.toList)) context
      = reject .unrecognizedText := by
    apply parseExplicitDatetime_eq_unrecognized
    rw [String.toList_ofList]
    rintro date time ⟨-, heq⟩ year month day
    rcases heq with heq | heq
    · exact not_dateText_of_relativePhrase hphrase heq
    · exact not_dateText_of_relativePhrase hphrase heq
  have hdate : parseExplicitDate (String.ofList (trim value.toList)) = reject .unrecognizedText := by
    rw [parseExplicitDate, parseDateComponents_eq_unrecognized]
    · rfl
    · rw [String.toList_ofList]
      intro year month day
      exact not_dateText_of_relativePhrase hphrase (List.append_nil _).symm
  have hrelative : parseRelative (String.ofList (trim value.toList)) context = .ok parsed := by
    rw [parseRelative, relativeTokens_trim]
    exact h
  rw [readKinds, normalizeQuote_of_relativePhrase hphrase, List.findSome?_cons, reparse, hdatetime]
  dsimp only [reject, Except.toOption]
  rw [List.findSome?_cons, reparse, hdate]
  dsimp only [reject, Except.toOption]
  rw [List.findSome?_cons, reparse, hrelative]

/-- The words of a soft window are those of a phrase. -/
theorem reparse_relative_of_softPhrase {value : String} {context : ParseContext} {today : CivilDay}
    (htoday : messageLocalDay (ε := ParseRejection) context = .ok today) (h : SoftPhrase value) :
  reparse .relative value context = .ok .soft
  := by
  have hlower : ∀ {text : String}, String.ofList (toAsciiLowercase (trim value.toList)) = text →
      relativeTokens value = (splitWhitespace text.toList).map String.ofList := by
    rintro text rfl
    rw [String.toList_ofList, relativeTokens]
  rw [reparse_relative_of_day htoday]
  rw [SoftPhrase] at h
  simp only [List.mem_cons, List.not_mem_nil, or_false] at h
  rcases h with h | h | h
  · rw [hlower h, show (splitWhitespace "asap".toList).map String.ofList = ["asap"] by
      decide]
    rfl
  · rw [hlower h, show (splitWhitespace "when you can".toList).map String.ofList
      = ["when", "you", "can"] by decide]
    rfl
  · rw [hlower h, show (splitWhitespace "when you get a chance".toList).map String.ofList
      = ["when", "you", "get", "a", "chance"] by decide]
    rfl

/-- What was read of an expression is read of its words alone. -/
theorem readKinds_eq {kind : TemporalKind} (hkind : kind ≠ .eventRelative) {value : String}
    {context : ParseContext} {today : CivilDay} {parsed : ParsedValue}
    (htoday : messageLocalDay (ε := ParseRejection) context = .ok today)
    (h : reparse kind value context = .ok parsed) :
  readKinds value context = some parsed
  := by
  cases kind with
  | eventRelative => exact absurd rfl hkind
  | relative => exact readKinds_of_relative h
  | softWindow =>
      have hsoft : SoftPhrase value := accepted_of_ok (outcome_softWindow value) h
      have hparsed : parsed = .soft := by
        rw [reparse, parseSoft] at h
        split at h
        · cases h
          rfl
        · cases h
          rfl
        · cases h
          rfl
        · cases h
      rw [hparsed]
      exact readKinds_of_relative (reparse_relative_of_softPhrase htoday hsoft)
  | date =>
      have haccepted : Accepted .date value := accepted_of_ok (outcome_date value) h
      rw [readKinds, normalizeQuote_of_date haccepted, String.ofList_toList, List.findSome?_cons,
        reparse, parseExplicitDatetime_eq_unrecognized (not_localDatetime_of_date haccepted)]
      dsimp only [reject, Except.toOption]
      rw [List.findSome?_cons, h]
  | localDatetime =>
      have haccepted : Accepted .localDatetime value :=
        accepted_of_ok (outcome_localDatetime value context) h
      rw [readKinds, normalizeQuote_of_localDatetime haccepted, String.ofList_toList,
        List.findSome?_cons, h]
      rfl

/-! ### Values -/

/-- A day that is so near the epoch that the seconds of its end are far from the bounds of 64
bits. -/
def NearEpoch (day : CivilDay) : Prop :=
  -2 ^ 44 ≤ day.days.toInt ∧ day.days.toInt ≤ 2 ^ 44

/-- What may be read in a context: instants of its zone, days and weeks near the epoch. -/
inductive Reading (timezone : TimezoneContext) : ParsedValue → Prop where
  | instant {day : CivilDay} {secondsSinceMidnight : UInt32} {resolution : LocalResolution}
      (h : resolveLocal day secondsSinceMidnight timezone = some resolution) :
      Reading timezone (.instant resolution)
  | date {day : CivilDay} (h : NearEpoch day) : Reading timezone (.date day)
  | businessDay {day : CivilDay} (h : NearEpoch day) : Reading timezone (.businessDay day)
  | week {start «end» : CivilDay} (h : NearEpoch «end») : Reading timezone (.week start «end»)
  | soft : Reading timezone .soft

theorem reading_of_instantAt {day : CivilDay} {context : ParseContext} {parsed : ParsedValue}
    (h : instantAt day context = .ok parsed) :
  Reading context.timezone parsed
  := by
  obtain ⟨resolution, hresolution, ⟨⟩⟩ := Except.bind_eq_ok.mp h
  cases hlocal : resolveLocal day context.eodSecondsSinceMidnight context.timezone with
  | none =>
      rw [hlocal] at hresolution
      cases hresolution
  | some resolution' =>
      rw [hlocal] at hresolution
      cases hresolution
      exact .instant hlocal

/-- So many business days later is not many days later. -/
theorem le_of_addBusinessDays {day later : CivilDay} {count : ℕ}
    (h : addBusinessDays (ε := ParseRejection) day count = .ok later) :
  day.days.toInt ≤ later.days.toInt ∧ later.days.toInt ≤ day.days.toInt + 7 * count
  := by
  induction count generalizing day with
  | zero =>
      cases h
      omega
  | succ count ih =>
      obtain ⟨next, hnext, hrest⟩ := Except.bind_eq_ok.mp h
      obtain ⟨first, hfirst, hseek⟩ := Except.bind_eq_ok.mp hnext
      rw [CivilDay.addDays_eq_ok] at hfirst
      obtain ⟨⟨hlt, -, -⟩, hle⟩ := next_of_seek isBusinessDay_iff_number hfirst hseek
      obtain ⟨hfrom, hto⟩ := ih hrest
      push_cast at hle ⊢
      omega

/-- What a phrase is read as. -/
theorem reading_of_tokens {today : CivilDay} (hfrom : -2 ^ 43 ≤ today.days.toInt)
    (hto : today.days.toInt ≤ 2 ^ 43) {context : ParseContext} {tokens : List String}
    {parsed : ParsedValue} (h : parseRelativeTokens today context tokens = .ok parsed) :
  Reading context.timezone parsed
  := by
  have hnear : ∀ {day : CivilDay}, today.days.toInt - 7 ≤ day.days.toInt →
      day.days.toInt ≤ today.days.toInt + 30000 → NearEpoch day := by
    intro day hlower hupper
    constructor
    · omega
    · omega
  have hweekday : ∀ {target : Weekday} {day : CivilDay},
      nextWeekday (ε := ParseRejection) today target true = .ok day → NearEpoch day := by
    intro target day hday
    obtain ⟨first, hfirst, hseek⟩ := Except.bind_eq_ok.mp hday
    rw [if_pos rfl, CivilDay.addDays_eq_ok] at hfirst
    obtain ⟨⟨hlt, -, -⟩, hle⟩ := next_of_seek (P := (weekdayOf · = target.index))
      (fun day => by rw [decide_eq_true_iff, weekdayIndex_eq]) hfirst hseek
    apply hnear
    · omega
    · push_cast at hle
      omega
  have hweek : ∀ {next : Bool} {start «end» : CivilDay},
      weekRange today context.weekStart next = .ok (start, «end») → NearEpoch «end» := by
    intro next start «end» hrange
    obtain ⟨first, hfirst, hrest⟩ := Except.bind_eq_ok.mp hrange
    obtain ⟨start', hstart, hrest⟩ := Except.bind_eq_ok.mp hrest
    obtain ⟨end', hend, ⟨⟩⟩ := Except.bind_eq_ok.mp hrest
    obtain ⟨k, hk, hfound, -⟩ := CivilDay.seek_eq_ok
      (P := (weekdayOf · = context.weekStart.index)) (fun day => by
        rw [decide_eq_true_iff, weekdayIndex_eq]) hfirst
    rw [CivilDay.addDays_eq_ok] at hend
    cases next with
    | false =>
        cases hstart
        apply hnear
        · omega
        · omega
    | true =>
        rw [if_pos rfl, CivilDay.addDays_eq_ok] at hstart
        apply hnear
        · omega
        · omega
  rw [parseRelativeTokens.eq_def] at h
  split at h
  · cases h
    exact .date (hnear (by omega) (by omega))
  · exact reading_of_instantAt h
  · exact reading_of_instantAt h
  · exact reading_of_instantAt h
  · obtain ⟨day, hday, ⟨⟩⟩ := Except.bind_eq_ok.mp h
    rw [CivilDay.addDays_eq_ok] at hday
    exact .date (hnear (by omega) (by omega))
  · obtain ⟨_, -, h⟩ := Except.bind_eq_ok.mp h
    exact reading_of_instantAt h
  · obtain ⟨_, -, h⟩ := Except.bind_eq_ok.mp h
    exact reading_of_instantAt h
  · obtain ⟨_, hrange, ⟨⟩⟩ := Except.bind_eq_ok.mp h
    exact .week (hweek hrange)
  · obtain ⟨_, hrange, ⟨⟩⟩ := Except.bind_eq_ok.mp h
    exact .week (hweek hrange)
  · obtain ⟨_, hrange, ⟨⟩⟩ := Except.bind_eq_ok.mp h
    exact .week (hweek hrange)
  · obtain ⟨day, hday, ⟨⟩⟩ := Except.bind_eq_ok.mp h
    rw [← addBusinessDays_one] at hday
    obtain ⟨hlower, hupper⟩ := le_of_addBusinessDays hday
    exact .businessDay (hnear (by omega) (by omega))
  · cases h
    exact .soft
  · cases h
    exact .soft
  · cases h
    exact .soft
  · split at h
    · cases h
    · obtain ⟨_, -, h⟩ := Except.bind_eq_ok.mp h
      exact reading_of_instantAt h
  · split at h
    · cases h
    · obtain ⟨_, -, h⟩ := Except.bind_eq_ok.mp h
      exact reading_of_instantAt h
  · split at h
    · cases h
    · obtain ⟨day, hday, ⟨⟩⟩ := Except.bind_eq_ok.mp h
      exact .date (hweekday hday)
  · obtain ⟨count, hcount, h⟩ := Except.bind_eq_ok.mp h
    obtain ⟨day, hday, ⟨⟩⟩ := Except.bind_eq_ok.mp h
    obtain ⟨hlower, hupper⟩ := le_of_addBusinessDays hday
    have hle := parseBoundedCount_le hcount
    rw [maximumRelativeDayCount] at hle
    exact .businessDay (hnear (by omega) (by omega))
  · obtain ⟨count, hcount, h⟩ := Except.bind_eq_ok.mp h
    obtain ⟨day, hday, ⟨⟩⟩ := Except.bind_eq_ok.mp h
    rw [CivilDay.addDays_eq_ok] at hday
    have hle := parseBoundedCount_le hcount
    rw [maximumRelativeDayCount] at hle
    exact .date (hnear (by omega) (by omega))
  · cases h

/-! ### What is shown -/

/-- The context in which the deadlines of a message are validated. -/
def governedTemporalContext (messageTimestamp offset : ℤ) : ParseContext where
  messageTimestamp := ⟨.ofInt messageTimestamp⟩
  timezone := { baseOffsetSeconds := .ofInt offset, transition := none }
  eodSecondsSinceMidnight := defaultEodSecondsSinceMidnight
  weekStart := .monday

/-- A time that the date of a message may have: the dates that are parsed are of years before the
year 262144, and after the one as long before. -/
def IsMessageTime (timestamp : ℤ) : Prop :=
  -2 ^ 43 < timestamp ∧ timestamp < 2 ^ 43

/-- What is to be shown for a value. -/
inductive Shows (context : ParseContext) (now offset : ℤ) : ParsedValue → DeadlineView → Prop where
  | pastDue {time : UnixSeconds} (h : time.seconds.toInt < now) :
      Shows context now offset (.instant (.unambiguous time)) (.pastDue time.seconds.toInt offset)
  | due {time : UnixSeconds} (h : now ≤ time.seconds.toInt) :
      Shows context now offset (.instant (.unambiguous time)) (.due time.seconds.toInt offset)
  | dueDate {day : CivilDay} {time : UnixSeconds}
      (h : policyBoundary (.date day) context = some (.unambiguous time)) :
      Shows context now offset (.date day)
        (.dueDate day.days.toInt time.seconds.toInt (time.seconds.toInt < now))
  | dueBusinessDay {day : CivilDay} {time : UnixSeconds}
      (h : policyBoundary (.businessDay day) context = some (.unambiguous time)) :
      Shows context now offset (.businessDay day)
        (.dueBusinessDay day.days.toInt time.seconds.toInt (time.seconds.toInt < now))
  | dueRange {start «end» : CivilDay} {time : UnixSeconds}
      (h : policyBoundary (.week start «end») context = some (.unambiguous time)) :
      Shows context now offset (.week start «end») (.dueRange start.days.toInt «end».days.toInt
        time.seconds.toInt (time.seconds.toInt < now))
  | soft : Shows context now offset .soft .soft

/-- The view but for whether it is past. -/
def DeadlineView.atAnyTime : DeadlineView → DeadlineView
  | pastDue boundary offsetSeconds => due boundary offsetSeconds
  | dueDate day boundary _ => dueDate day boundary false
  | dueBusinessDay day boundary _ => dueBusinessDay day boundary false
  | dueRange startDay endDay boundary _ => dueRange startDay endDay boundary false
  | view => view

section

variable {context : ParseContext} (hfixed : context.timezone.transition = none)
include hfixed

/-- A time on a day near the epoch is shown at one instant. -/
theorem exists_resolveLocal_of_nearEpoch {day : CivilDay} (h : NearEpoch day)
    (secondsSinceMidnight : UInt32) :
  ∃ time, resolveLocal day secondsSinceMidnight context.timezone = some (.unambiguous time)
  := by
  obtain ⟨hfrom, hto⟩ := h
  have hseconds := secondsSinceMidnight.toNat_lt
  have hoffset := context.timezone.baseOffsetSeconds.toInt_lt
  have hoffset' := context.timezone.baseOffsetSeconds.le_toInt
  obtain ⟨midnight, hmidnight⟩ : ∃ x, Int64.checked (day.days.toInt * 86400) = some x := by
    apply Int64.exists_checked
    · omega
    · omega
  have hmidnight' := Int64.checked_eq_some.mp hmidnight
  obtain ⟨naive, hnaive⟩ : ∃ x, Int64.checked
      (midnight.toInt + secondsSinceMidnight.toNat) = some x := by
    apply Int64.exists_checked
    · omega
    · omega
  have hnaive' := Int64.checked_eq_some.mp hnaive
  obtain ⟨instant, hinstant⟩ : ∃ x, Int64.checked
      (naive.toInt - context.timezone.baseOffsetSeconds.toInt) = some x := by
    apply Int64.exists_checked
    · omega
    · omega
  use ⟨instant⟩
  rw [resolveLocal, hmidnight, Option.bind_eq_bind, Option.bind_some, hnaive, Option.bind_some,
    hfixed]
  exact Option.bind_eq_some_iff.mpr ⟨instant, hinstant, rfl⟩

/-- In a zone without a transition no time is ambiguous. -/
theorem exists_unambiguous {day : CivilDay} {secondsSinceMidnight : UInt32}
    {resolution : LocalResolution}
    (h : resolveLocal day secondsSinceMidnight context.timezone = some resolution) :
  ∃ time, resolution = .unambiguous time
  := by
  obtain ⟨_, -, h⟩ := Option.bind_eq_some_iff.mp h
  obtain ⟨_, -, h⟩ := Option.bind_eq_some_iff.mp h
  rw [hfixed] at h
  obtain ⟨instant, -, ⟨⟩⟩ := Option.bind_eq_some_iff.mp h
  exact ⟨⟨instant⟩, rfl⟩

/-- What was read is shown as such. -/
theorem Reading.shows {parsed : ParsedValue} (h : Reading context.timezone parsed)
    (now offset : ℤ) :
  Shows context now offset parsed (valueView parsed context now offset)
  := by
  cases h with
  | instant h =>
      obtain ⟨time, rfl⟩ := exists_unambiguous hfixed h
      change Shows context now offset _ (if time.seconds.toInt < now then
        .pastDue time.seconds.toInt offset else .due time.seconds.toInt offset)
      split_ifs with hpast
      · exact .pastDue hpast
      · exact .due (Int.not_lt.mp hpast)
  | date h =>
      obtain ⟨time, htime⟩ :=
        exists_resolveLocal_of_nearEpoch hfixed h context.eodSecondsSinceMidnight
      have hpolicy : policyBoundary (.date _) context = some (.unambiguous time) := htime
      rw [valueView.eq_def, hpolicy]
      exact .dueDate hpolicy
  | businessDay h =>
      obtain ⟨time, htime⟩ :=
        exists_resolveLocal_of_nearEpoch hfixed h context.eodSecondsSinceMidnight
      have hpolicy : policyBoundary (.businessDay _) context = some (.unambiguous time) := htime
      rw [valueView.eq_def, hpolicy]
      exact .dueBusinessDay hpolicy
  | @week start _ h =>
      obtain ⟨time, htime⟩ :=
        exists_resolveLocal_of_nearEpoch hfixed h context.eodSecondsSinceMidnight
      have hpolicy : policyBoundary (.week start _) context = some (.unambiguous time) := htime
      rw [valueView.eq_def, hpolicy]
      exact .dueRange hpolicy
  | soft => exact .soft

end

/-- In the context of a message there is its day, near the epoch. -/
theorem exists_messageLocalDay_near {timestamp : ℤ} (h : IsMessageTime timestamp)
    (offset : Int32) :
  ∃ today : CivilDay,
    messageLocalDay (ε := ParseRejection) (governedTemporalContext timestamp offset.toInt)
      = .ok today
      ∧ -2 ^ 43 ≤ today.days.toInt ∧ today.days.toInt ≤ 2 ^ 43
  := by
  obtain ⟨hfrom, hto⟩ := h
  have hlower := offset.le_toInt
  have hupper := offset.toInt_lt
  have htimestamp : (Int64.ofInt timestamp).toInt = timestamp := by
    apply Int64.toInt_ofInt_of_le
    · omega
    · omega
  obtain ⟨localSeconds, hlocal⟩ : ∃ x, Int64.checked (timestamp + offset.toInt) = some x := by
    apply Int64.exists_checked
    · omega
    · omega
  have hlocal' := Int64.checked_eq_some.mp hlocal
  have hdays : (Int64.ofInt (localSeconds.toInt / 86400)).toInt = localSeconds.toInt / 86400 := by
    apply Int64.toInt_ofInt_of_le
    · omega
    · omega
  refine ⟨⟨Int64.ofInt (localSeconds.toInt / 86400)⟩, ?_, ?_, ?_⟩
  · rw [messageLocalDay, governedTemporalContext, offsetAt]
    dsimp only
    rw [Int32.ofInt_toInt, htimestamp, hlocal]
    rfl
  · rw [hdays]
    omega
  · rw [hdays]
    omega

/-- What is accepted of an expression is near the epoch. -/
theorem reading_of_ok {timestamp : ℤ} (h : IsMessageTime timestamp) (offset : Int32)
    {kind : TemporalKind} (hkind : kind ≠ .eventRelative) {value : String} {parsed : ParsedValue}
    (hparsed : reparse kind value (governedTemporalContext timestamp offset.toInt)
      = .ok parsed) :
  Reading (governedTemporalContext timestamp offset.toInt).timezone parsed
  := by
  cases kind with
  | eventRelative => exact absurd rfl hkind
  | relative =>
      obtain ⟨today, htoday, hfrom, hto⟩ := exists_messageLocalDay_near h offset
      rw [reparse_relative_of_day htoday] at hparsed
      exact reading_of_tokens hfrom hto hparsed
  | softWindow =>
      rw [reparse, parseSoft] at hparsed
      split at hparsed
      · cases hparsed
        exact .soft
      · cases hparsed
        exact .soft
      · cases hparsed
        exact .soft
      · cases hparsed
  | date =>
      obtain ⟨year, month, day, hdate, hreal⟩ := accepted_of_ok (outcome_date value) hparsed
      obtain ⟨hlower, hupper⟩ := daysFromCivil_bounds hreal
      rw [reparse, parseExplicitDate, hdate.parseDateComponents_eq, hdate.readDate_eq,
        if_pos hreal] at hparsed
      cases hparsed
      apply Reading.date
      have hdays : (CivilDay.ofCivil (.ofNat (numberOf year)) (.ofNat (numberOf month))
          (.ofNat (numberOf day))).days.toInt = daysFromCivil (.ofNat (numberOf year))
            (.ofNat (numberOf month)) (.ofNat (numberOf day)) := by
        apply Int64.toInt_ofInt_of_le
        · omega
        · omega
      rw [NearEpoch, hdays]
      constructor
      · omega
      · omega
  | localDatetime =>
      rw [reparse, parseExplicitDatetime] at hparsed
      split_ifs at hparsed
      · cases hparsed
      · cases hparsed
      · obtain ⟨_, -, hparsed⟩ := Except.bind_eq_ok.mp hparsed
        obtain ⟨⟨hour, minute, second⟩, -, hparsed⟩ := Except.bind_eq_ok.mp hparsed
        exact @reading_of_instantAt _ { governedTemporalContext timestamp offset.toInt with
          eodSecondsSinceMidnight := hour * 3600 + minute * 60 + second } _ hparsed

section

variable {context : ParseContext} {parsed : ParsedValue} {now now' offset : ℤ}
  {view view' : DeadlineView}

/-- A view is past exactly when its boundary is. -/
theorem Shows.pastBoundary_iff (h : Shows context now offset parsed view) (boundary : ℤ) :
  view.pastBoundary = some boundary ↔ view.boundary = some boundary ∧ boundary < now
  := by
  have hflag : ∀ {time : ℤ} {view : Bool → DeadlineView},
      (view true).pastBoundary = some time → (view false).pastBoundary = none →
      (∀ past, (view past).boundary = some time) →
      ((view (time < now)).pastBoundary = some boundary
        ↔ (view (time < now)).boundary = some boundary ∧ boundary < now) := by
    intro time view htrue hfalse hboundary
    rw [hboundary]
    by_cases hpast : time < now
    · rw [decide_eq_true hpast, htrue]
      constructor
      · rintro ⟨⟩
        exact ⟨rfl, hpast⟩
      · rintro ⟨heq, -⟩
        exact heq
    · rw [decide_eq_false hpast, hfalse]
      constructor
      · rintro ⟨⟩
      · rintro ⟨⟨⟩, hlt⟩
        exact absurd hlt hpast
  cases h with
  | @pastDue time h =>
      constructor
      · rintro ⟨⟩
        exact ⟨rfl, h⟩
      · rintro ⟨heq, -⟩
        exact heq
  | @due time h =>
      constructor
      · rintro ⟨⟩
      · rintro ⟨⟨⟩, hlt⟩
        omega
  | @dueDate day time h => exact @hflag _ (.dueDate _ _) rfl rfl fun _ => rfl
  | @dueBusinessDay day time h => exact @hflag _ (.dueBusinessDay _ _) rfl rfl fun _ => rfl
  | @dueRange start _ time h => exact @hflag _ (.dueRange _ _ _) rfl rfl fun _ => rfl
  | soft =>
      constructor
      · rintro ⟨⟩
      · rintro ⟨⟨⟩, -⟩

/-- Only whether it is past depends on the time. -/
theorem Shows.atAnyTime_eq (h : Shows context now offset parsed view)
    (h' : Shows context now' offset parsed view') :
  view.atAnyTime = view'.atAnyTime
  := by
  cases h with
  | pastDue h =>
      cases h' with
      | pastDue h' => rfl
      | due h' => rfl
  | due h =>
      cases h' with
      | pastDue h' => rfl
      | due h' => rfl
  | dueDate h =>
      cases h' with
      | dueDate h' =>
          rw [h] at h'
          cases h'
          rfl
  | dueBusinessDay h =>
      cases h' with
      | dueBusinessDay h' =>
          rw [h] at h'
          cases h'
          rfl
  | dueRange h =>
      cases h' with
      | dueRange h' =>
          rw [h] at h'
          cases h'
          rfl
  | soft =>
      cases h'
      rfl

/-- A boundary that is past stays past. -/
theorem Shows.pastBoundary_mono (h : Shows context now offset parsed view)
    (h' : Shows context now' offset parsed view') (hle : now ≤ now') {boundary : ℤ}
    (hpast : view.pastBoundary = some boundary) :
  view'.pastBoundary = some boundary
  := by
  have hboundary : ∀ view : DeadlineView, view.atAnyTime.boundary = view.boundary := by
    intro view
    cases view <;> rfl
  rw [h.pastBoundary_iff, ← hboundary, h.atAnyTime_eq h', hboundary] at hpast
  rw [h'.pastBoundary_iff]
  exact ⟨hpast.1, by omega⟩

end

/-- What is read of the words is shown. -/
theorem classifyWithHint_of_readKinds {value : String} {timestamp now offset : ℤ}
    {parsed : ParsedValue} (h : readKinds value (readContext timestamp offset) = some parsed)
    (hint : Option DeadlineKindHint) :
  classifyWithHint value timestamp now offset hint
    = valueView parsed (readContext timestamp offset) now offset
  := by
  rw [readKinds] at h
  delta classifyWithHint
  dsimp only
  rw [h]

/-- A validated deadline is shown as what was validated.  Whatever the kind of an expression that is
read in the context of its message, the words alone are shown as the value that was read, at every
time and with every hint.  The view is past exactly when its boundary is; otherwise it is the same at
all times, and what is past stays past. -/
theorem classifyWithHint_exact (timestamp : ℤ) (h : IsMessageTime timestamp) (offset : Int32)
    (kind : TemporalKind) (hkind : kind ≠ .eventRelative) (value : String) (parsed : ParsedValue)
    (hparsed : reparse kind value (governedTemporalContext timestamp offset.toInt)
      = .ok parsed) :
  (∀ now hint, Shows (governedTemporalContext timestamp offset.toInt) now offset.toInt parsed
      (classifyWithHint value timestamp now offset.toInt hint))
    ∧ (∀ now hint boundary,
      (classifyWithHint value timestamp now offset.toInt hint).pastBoundary = some boundary ↔
        (classifyWithHint value timestamp now offset.toInt hint).boundary = some boundary
          ∧ boundary < now)
    ∧ ∀ now now' hint hint',
      (classifyWithHint value timestamp now offset.toInt hint).atAnyTime
          = (classifyWithHint value timestamp now' offset.toInt hint').atAnyTime
        ∧ (now ≤ now' → ∀ boundary,
          (classifyWithHint value timestamp now offset.toInt hint).pastBoundary = some boundary →
          (classifyWithHint value timestamp now' offset.toInt hint').pastBoundary
            = some boundary)
  := by
  have hshows : ∀ now hint, Shows (governedTemporalContext timestamp offset.toInt) now offset.toInt
      parsed (classifyWithHint value timestamp now offset.toInt hint) := by
    intro now hint
    obtain ⟨today, htoday, -⟩ := exists_messageLocalDay_near h offset
    have hread : readKinds value (readContext timestamp offset.toInt) = some parsed :=
      readKinds_eq hkind htoday hparsed
    rw [classifyWithHint_of_readKinds hread]
    exact (reading_of_ok h offset hkind hparsed).shows rfl now offset.toInt
  refine ⟨hshows, fun now hint boundary => (hshows now hint).pastBoundary_iff boundary, ?_⟩
  intro now now' hint hint'
  use (hshows now hint).atAnyTime_eq (hshows now' hint')
  intro hle boundary hpast
  exact (hshows now hint).pastBoundary_mono (hshows now' hint') hle hpast

/-- The Friday after a Monday morning is shown as the seventh of August, though the hint is that the
deadline is soft. -/
theorem mondayMorning_shown :
  Shows (governedTemporalContext 1785765600 (-18000 : Int32).toInt) 1785765600
    (-18000 : Int32).toInt (.date (.ofCivil 2026 8 7))
    (classifyWithHint "Friday" 1785765600 1785765600 (-18000 : Int32).toInt (some .soft))
  := by
  have hparsed : reparse .relative "Friday"
      (governedTemporalContext 1785765600 (-18000 : Int32).toInt)
      = .ok (.date (.ofCivil 2026 8 7)) := by
    decide +kernel
  obtain ⟨hshows, -, -⟩ := classifyWithHint_exact 1785765600 ⟨by decide, by decide⟩ (-18000)
    .relative (by decide) "Friday" _ hparsed
  apply hshows

end Review
