import OpenLoops.Domain.DeadlineParse
import OpenLoops.Library.Selection

/-!
# Relative dates in texts

Phrases for relative dates are found in a text word by word, and are given with the value under
which the parser of deadlines knows them.
-/

namespace Review

/-- A word of a text, in small letters, with its place. -/
structure Token where
  word : String
  start : ℕ
  «end» : ℕ
deriving DecidableEq, Repr

/-- A phrase for a value. -/
structure Pattern where
  words : List String
  value : String
deriving DecidableEq, Repr

/-- A phrase for a value, from one word of a text to another. -/
structure PhraseMatch where
  start : ℕ
  «end» : ℕ
  value : String
deriving DecidableEq, Repr

/-! ### Words -/

/-- The part of a text between two places. -/
def slice (text : List Char) (start «end» : ℕ) : List Char :=
  (text.take «end»).drop start

def tokenAt (text : List Char) (start «end» : ℕ) : Token where
  word := String.ofList (toAsciiLowercase (slice text start «end»))
  start := start
  «end» := «end»

/-- The characters of words. -/
def isTokenCharacter (T : CharTable) (character : Char) : Bool :=
  T.isAlphanumeric character || character = '_'

/-- One more character of the text, after the words so far and the start of an unfinished one. -/
def tokenizeStep (T : CharTable) (text : List Char) (state : List Token × Option ℕ)
    (item : Char × ℕ) : List Token × Option ℕ :=
  let (tokens, start) := state
  let (character, index) := item
  if isTokenCharacter T character then (tokens, some (start.getD index))
  else match start with
    | some tokenStart => (tokens ++ [tokenAt text tokenStart index], none)
    | none => (tokens, none)

/-- The words of a text. -/
def tokenize (T : CharTable) (text : List Char) : List Token :=
  let (tokens, start) := text.zipIdx.foldl (tokenizeStep T text) ([], none)
  match start with
  | some tokenStart => tokens ++ [tokenAt text tokenStart text.length]
  | none => tokens

/-! ### Patterns -/

def pattern (phrase value : String) : Pattern where
  words := (splitWhitespace phrase.toList).map fun word => String.ofList (toAsciiLowercase word)
  value := value

def weekdays : List String :=
  ["monday", "tuesday", "wednesday", "thursday", "friday", "saturday", "sunday"]

def weekdayPrefixes : List String :=
  ["on", "by", "this", "next"]

def weekdayPatterns (weekday : String) : List Pattern :=
  pattern weekday weekday
    :: weekdayPrefixes.map (fun before => pattern (before ++ " " ++ weekday) weekday)
    ++ ["eod", "end of day", "end of the day"].flatMap fun suffix =>
      pattern (weekday ++ " " ++ suffix) weekday
        :: pattern (suffix ++ " " ++ weekday) weekday
        :: weekdayPrefixes.flatMap fun before =>
          [pattern (before ++ " " ++ weekday ++ " " ++ suffix) weekday,
            pattern (before ++ " " ++ suffix ++ " " ++ weekday) weekday]

def phrasePatterns : List Pattern :=
  ["today", "tonight", "this morning", "this afternoon", "this evening", "later today",
      "end of day", "end of the day", "eod", "close of business", "cob"].map (pattern · "today")
    ++ ["tomorrow", "tomorrow morning", "tomorrow afternoon", "tomorrow evening",
      "first thing tomorrow", "end of day tomorrow", "end of the day tomorrow",
      "tomorrow eod"].map (pattern · "tomorrow")
    ++ ["next week", "early next week"].map (pattern · "next week")
    ++ ["this week", "end of week", "end of the week", "later this week"].map
      (pattern · "end of week")
    ++ ["next business day", "next working day"].map (pattern · "next business day")
    ++ weekdays.flatMap weekdayPatterns

/-- The number that a word writes. -/
def wordNumber : String → Option ℕ
  | "one" => some 1
  | "two" => some 2
  | "three" => some 3
  | "four" => some 4
  | "five" => some 5
  | "six" => some 6
  | "seven" => some 7
  | "eight" => some 8
  | "nine" => some 9
  | "ten" => some 10
  | "eleven" => some 11
  | "twelve" => some 12
  | "thirteen" => some 13
  | "fourteen" => some 14
  | word =>
      if Domain.isAsciiDigits word.toList then Domain.parseBelow (2 ^ 32) word.toList else none

/-- The number that a word writes, up to the greatest number of days. -/
def numberValue (word : String) : Option ℕ :=
  (wordNumber word).filter (· ≤ 3650)

/-! ### Matches -/

/-- The words of a pattern are there from a word on. -/
def patternMatch (tokens : List Token) (start : ℕ) (pattern : Pattern) : Option PhraseMatch :=
  let «end» := start + pattern.words.length
  if «end» ≤ tokens.length
      ∧ ((tokens.take «end»).drop start).map (·.word) = pattern.words then
    some ⟨start, «end», pattern.value⟩
  else none

/-- The end and the unit of a number of days from a word on. -/
def countUnit (tokens : List Token) (start : ℕ) : Option (ℕ × String) := do
  let unit ← tokens[start + 2]?
  if unit.word ∈ ["business", "working"] ∧ tokens[start + 3]?.any (·.word = "days") then
    some (start + 4, "business days")
  else if unit.word = "days" then some (start + 3, "days")
  else none

/-- A number of days is there from a word on. -/
def countMatch (tokens : List Token) (start : ℕ) : Option PhraseMatch := do
  let count ← tokens[start + 1]?.bind (numberValue ·.word)
  let («end», canonicalUnit) ← countUnit tokens start
  let first ← tokens[start]?
  if first.word ∈ ["in", "within"] then
    some ⟨start, «end», "in " ++ toString count ++ " " ++ canonicalUnit⟩
  else none

def collectMatches (tokens : List Token) (patterns : List Pattern) : List PhraseMatch :=
  (List.range tokens.length).flatMap fun start =>
    patterns.filterMap (patternMatch tokens start) ++ (countMatch tokens start).toList

/-! ### Selection -/

/-- The words that are taken, and the matches that took them. -/
abbrev Taken : Type :=
  List Bool × List PhraseMatch

/-- Take the words of a match, unless one of them is taken. -/
def takeMatch (taken : Taken) (candidate : PhraseMatch) : Taken :=
  let (used, matched) := taken
  if ((used.take candidate.end).drop candidate.start).any id then taken
  else (used.take candidate.start ++ List.replicate (candidate.end - candidate.start) true
      ++ used.drop candidate.end, matched ++ [candidate])

/-- The text of a match, with single spaces for white space. -/
def phraseText (text : List Char) (tokens : List Token) (candidate : PhraseMatch) :
    Option String := do
  let first ← tokens[candidate.start]?
  let last ← tokens[candidate.end - 1]?
  return String.ofList (joinWords (splitWhitespace (slice text first.start last.end)))

/-- The matches that are taken of a text with such words. -/
def takenMatches (tokens : List Token) : List PhraseMatch :=
  ((KeyOrder.sort (Selection.order PhraseMatch.start PhraseMatch.end)
    (collectMatches tokens phrasePatterns)).foldl takeMatch
      (List.replicate tokens.length false, [])).2

/-- The phrases for relative dates in a text, each with its value and its text; the call panics
when a match is not of words. -/
def findRelativeDatePhrases (T : CharTable) (text : List Char) : Option (List (String × String)) :=
  let tokens := tokenize T text
  if tokens = [] then some []
  else (takenMatches tokens).mapM fun candidate =>
    (phraseText text tokens candidate).map fun matched => (candidate.value, matched)

end Review
