import OpenLoops.Library.Text

/-!
# Subjects of threads

Messages of one thread have subjects that differ in what mail programs put around them: marks of
replies and of answers to invitations in front, the time of a meeting and an organizer at the end.
-/

namespace Review

/-- The beginning and the rest around the last place where the pattern stands. -/
def splitLast (pattern : List Char) : List Char → Option (List Char × List Char)
  | [] => none
  | c :: text =>
      match splitLast pattern text with
      | some (before, after) => some (c :: before, after)
      | none =>
          if pattern.isPrefixOf (c :: text) then some ([], (c :: text).drop pattern.length) else none

/-! ### Marks in front -/

/-- The mark before the first colon and what follows it. -/
def splitSeparator (text : List Char) : Option (List Char × List Char) :=
  match text.dropWhile fun c => c ≠ ':' && c ≠ '：' with
  | [] => none
  | _ :: rest => some (text.takeWhile fun c => c ≠ ':' && c ≠ '：', rest)

/-- The mark without the number of replies in brackets. -/
def stripReplyCountSuffix (mark : List Char) : List Char :=
  match mark.dropWhile (· ≠ '[') with
  | [] => mark
  | _ :: rest =>
      if mark.getLast? = some ']' ∧ rest.dropLast ≠ [] ∧ rest.dropLast.all Char.isDigit then
        mark.takeWhile (· ≠ '[')
      else mark

def calendarPrefixes : List (List Char) :=
  ["invitation", "updated invitation", "accepted", "tentatively accepted", "tentative", "declined",
    "canceled", "cancelled", "new time proposed"].map String.toList

def isThreadPrefix (mark : List Char) : Bool :=
  mark ∈ ["re", "fw", "fwd", "aw", "wg", "sv", "vs", "tr", "accepted", "tentatively accepted",
    "tentative", "declined", "invitation", "updated invitation", "canceled", "cancelled", "updated",
    "new time proposed", "meeting forward notification", "automatic reply"].map String.toList

/-! ### Dates at the end -/

def weekdayOrMonthNames : List (List Char) :=
  ["monday", "tuesday", "wednesday", "thursday", "friday", "saturday", "sunday", "mon", "tue",
    "wed", "thu", "fri", "sat", "sun", "january", "february", "march", "april", "may", "june",
    "july", "august", "september", "october", "november", "december", "jan", "feb", "mar", "apr",
    "jun", "jul", "aug", "sep", "oct", "nov", "dec"].map String.toList

/-- What stands in the last brackets is the name of a time zone, or it has a digit. -/
def looksLikeTimezoneOrHasDigit (content : List Char) : Bool :=
  (2 ≤ content.length && content.length ≤ 5 && content.all Char.isUpper)
    || content.any Char.isDigit

/-- The text without its last brackets, and those that are kept. -/
def peelTrailingParenGroup (text : List Char) : Option (List Char) × List Char :=
  let trimmedEnd := trimEndMatches isWhitespace text
  if trimmedEnd.getLast? ≠ some ')' then (none, text)
  else
    match splitLast ['('] trimmedEnd with
    | none => (none, text)
    | some (before, group) =>
        let content := group.dropLast
        if looksLikeTimezoneOrHasDigit content then (none, before)
        else (some ('(' :: content ++ [')']), before)

section

variable (T : CharTable)

/-- What follows the name of a day or a month. -/
def stripWeekdayOrMonthPrefix (text : List Char) : Option (List Char) :=
  weekdayOrMonthNames.findSome? fun name =>
    if name.isPrefixOf text && !(text.drop name.length).head?.any T.isAlphanumeric then
      some (text.drop name.length)
    else none

/-- The text looks like a date: a digit stands soon after the name of a day or a month. -/
def looksLikeCalendarDate (after : List Char) : Bool :=
  match stripWeekdayOrMonthPrefix T after with
  | none => false
  | some rest =>
      let follows := (rest.zip (rest.drop 1)).take 12
      follows.any (fun pair => pair.1.isDigit && pair.2 = ',')
        || follows.any (fun pair => pair.1 = ' ' && pair.2.isDigit)
        || (rest.take 4).any Char.isDigit

variable (toLowercase : List Char → List Char)

/-- The mark of a thread in front of the subject, and the rest. -/
def nextPrefix (subject : List Char) : Option (List Char × List Char) :=
  (splitSeparator (subject.dropWhile isWhitespace)).bind fun (before, rest) =>
    let mark := stripReplyCountSuffix (toLowercase (trim before))
    if isThreadPrefix mark then some (mark, rest) else none

theorem length_lt_of_splitSeparator {text before rest : List Char}
    (h : splitSeparator text = some (before, rest)) :
  rest.length < text.length
  := by
  rw [splitSeparator] at h
  rcases hdrop : text.dropWhile fun c => c ≠ ':' && c ≠ '：' with _ | ⟨c, tail⟩
  · rw [hdrop] at h
    cases h
  · rw [hdrop] at h
    obtain rfl : tail = rest := (Prod.mk.inj (Option.some.inj h)).2
    have hsuffix : (text.dropWhile fun c => c ≠ ':' && c ≠ '：') <:+ text := List.dropWhile_suffix _
    rw [hdrop] at hsuffix
    exact hsuffix.length_le

theorem length_lt_of_nextPrefix {subject mark rest : List Char}
    (h : nextPrefix toLowercase subject = some (mark, rest)) :
  rest.length < subject.length
  := by
  rw [nextPrefix, Option.bind_eq_some_iff] at h
  obtain ⟨⟨before, rest'⟩, hsplit, h⟩ := h
  dsimp only at h
  split_ifs at h
  cases h
  exact (length_lt_of_splitSeparator hsplit).trans_le (List.dropWhile_suffix _).length_le

/-- The subject without the marks of threads. -/
def stripPrefixes (subject : List Char) : List Char :=
  match h : nextPrefix toLowercase subject with
  | none => subject
  | some (_, rest) =>
      have := length_lt_of_nextPrefix toLowercase h
      stripPrefixes rest
termination_by subject.length

/-- One of the marks of the subject is that of an answer to an invitation. -/
def rawSubjectHasCalendarPrefix (subject : List Char) : Bool :=
  match h : nextPrefix toLowercase subject with
  | none => false
  | some (mark, rest) =>
      have := length_lt_of_nextPrefix toLowercase h
      if mark ∈ calendarPrefixes then true else rawSubjectHasCalendarPrefix rest
termination_by subject.length

/-- The subject as all messages of a thread have it. -/
def normalizeSubject (subject : List Char) : List Char :=
  let (keepSuffix, text) := peelTrailingParenGroup (stripPrefixes toLowercase subject)
  let text :=
    match splitLast [' ', '@', ' '] text with
    | some (before, after) => if looksLikeCalendarDate T (toLowercase after) then before else text
    | none => text
  let result := toLowercase text ++ (keepSuffix.elim [] fun suffix => ' ' :: toLowercase suffix)
  joinWords (splitWhitespace result)

end

/-- A normalized subject says enough to join threads. -/
def subjectStrongEnough (subject : List Char) : Bool :=
  2 ≤ (splitWhitespace subject).length || 12 ≤ subject.length

end Review
