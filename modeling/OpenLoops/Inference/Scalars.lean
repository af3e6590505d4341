import OpenLoops.Library.Fallible
import OpenLoops.Library.Text
import Mathlib.Data.List.Sort
import Mathlib.Data.List.Infix

/-!
# Scalars of canonical text

Texts are rejected when they have forbidden scalars, their line endings are line feeds, and they are
composed: the marks after a starter are sorted by their classes and, with the table of compositions,
composed with it, and jamo are composed to syllables.
-/

namespace Inference

/-- A rejected text. -/
inductive ScalarError where
  | unpairedSurrogate
  | forbiddenScalar
deriving DecidableEq, Repr

/-! ### Forbidden scalars and line endings -/

def isForbiddenScalar (c : Char) : Bool :=
  let codePoint := c.toNat
  codePoint ≤ 0x0008 || codePoint = 0x000B || codePoint = 0x000C
    || (0x000E ≤ codePoint && codePoint ≤ 0x001F) || (0x007F ≤ codePoint && codePoint ≤ 0x009F)
    || (0xFDD0 ≤ codePoint && codePoint ≤ 0xFDEF) || codePoint &&& 0xFFFE = 0xFFFE

def rejectForbiddenScalars (text : List Char) : Except ScalarError Unit :=
  if text.any isForbiddenScalar then .error .forbiddenScalar else .ok ()

/-- Every ending of a line is a line feed. -/
def normalizeLineEndings : List Char → List Char
  | [] => []
  | '\r' :: '\n' :: rest => '\n' :: normalizeLineEndings rest
  | c :: rest => (if c = '\r' then '\n' else c) :: normalizeLineEndings rest

theorem normalizeLineEndings_cons {c : Char} {text : List Char}
    (h : c = '\r' → text.head? ≠ some '\n') :
  normalizeLineEndings (c :: text) = (if c = '\r' then '\n' else c) :: normalizeLineEndings text
  := by
  rw [normalizeLineEndings]
  rintro rest rfl rfl
  exact h rfl rfl

/-! ### Compositions -/

/-- The combining class of a mark; it is zero for all other scalars. -/
def combiningClass (c : Char) : ℕ :=
  if c = '\u0327' ∨ c = '\u0328' then 202
  else if c = '\u0323' then 220
  else if c = '\u031B' then 216
  else if '\u0300' ≤ c ∧ c ≤ '\u036F' then 230
  else 0

def isMark (c : Char) : Bool :=
  combiningClass c ≠ 0

def hangulSBase : ℕ := 0xAC00

def hangulLBase : ℕ := 0x1100

def hangulVBase : ℕ := 0x1161

def hangulTBase : ℕ := 0x11A7

def hangulLCount : ℕ := 19

def hangulVCount : ℕ := 21

def hangulTCount : ℕ := 28

def hangulNCount : ℕ := hangulVCount * hangulTCount

def hangulSCount : ℕ := hangulLCount * hangulNCount

def fromU32 (n : ℕ) : Option Char :=
  if n.isValidChar then some (Char.ofNat n) else none

/-- A leading and a vowel jamo give a syllable, and a syllable with no trailing jamo and one give
a syllable. -/
def composeHangul (base next : Char) : Option Char :=
  let b := base.toNat
  let n := next.toNat
  if (hangulLBase ≤ b ∧ b < hangulLBase + hangulLCount)
      ∧ (hangulVBase ≤ n ∧ n < hangulVBase + hangulVCount) then
    let lIndex := b - hangulLBase
    let vIndex := n - hangulVBase
    let sIndex := lIndex * hangulNCount + vIndex * hangulTCount
    fromU32 (hangulSBase + sIndex)
  else if (hangulSBase ≤ b ∧ b < hangulSBase + hangulSCount) ∧ (b - hangulSBase) % hangulTCount = 0
      ∧ (hangulTBase + 1 ≤ n ∧ n < hangulTBase + hangulTCount) then
    let tIndex := n - hangulTBase
    fromU32 (b + tIndex)
  else none

/-- The letters with a mark: the letter, the mark, and both as one scalar. -/
def compositions : List (Char × Char × Char) := [
  ('A', '\u0300', '\u00C0'), ('A', '\u0301', '\u00C1'), ('A', '\u0302', '\u00C2'),
  ('A', '\u0303', '\u00C3'), ('A', '\u0308', '\u00C4'), ('A', '\u030A', '\u00C5'),
  ('C', '\u0327', '\u00C7'), ('E', '\u0300', '\u00C8'), ('E', '\u0301', '\u00C9'),
  ('E', '\u0302', '\u00CA'), ('E', '\u0308', '\u00CB'), ('I', '\u0300', '\u00CC'),
  ('I', '\u0301', '\u00CD'), ('I', '\u0302', '\u00CE'), ('I', '\u0308', '\u00CF'),
  ('N', '\u0303', '\u00D1'), ('O', '\u0300', '\u00D2'), ('O', '\u0301', '\u00D3'),
  ('O', '\u0302', '\u00D4'), ('O', '\u0303', '\u00D5'), ('O', '\u0308', '\u00D6'),
  ('U', '\u0300', '\u00D9'), ('U', '\u0301', '\u00DA'), ('U', '\u0302', '\u00DB'),
  ('U', '\u0308', '\u00DC'), ('Y', '\u0301', '\u00DD'), ('a', '\u0300', '\u00E0'),
  ('a', '\u0301', '\u00E1'), ('a', '\u0302', '\u00E2'), ('a', '\u0303', '\u00E3'),
  ('a', '\u0308', '\u00E4'), ('a', '\u030A', '\u00E5'), ('c', '\u0327', '\u00E7'),
  ('e', '\u0300', '\u00E8'), ('e', '\u0301', '\u00E9'), ('e', '\u0302', '\u00EA'),
  ('e', '\u0308', '\u00EB'), ('i', '\u0300', '\u00EC'), ('i', '\u0301', '\u00ED'),
  ('i', '\u0302', '\u00EE'), ('i', '\u0308', '\u00EF'), ('n', '\u0303', '\u00F1'),
  ('o', '\u0300', '\u00F2'), ('o', '\u0301', '\u00F3'), ('o', '\u0302', '\u00F4'),
  ('o', '\u0303', '\u00F5'), ('o', '\u0308', '\u00F6'), ('u', '\u0300', '\u00F9'),
  ('u', '\u0301', '\u00FA'), ('u', '\u0302', '\u00FB'), ('u', '\u0308', '\u00FC'),
  ('y', '\u0301', '\u00FD'), ('y', '\u0308', '\u00FF'), ('C', '\u0301', '\u0106'),
  ('c', '\u0301', '\u0107'), ('L', '\u0301', '\u0139'), ('l', '\u0301', '\u013A'),
  ('N', '\u0301', '\u0143'), ('n', '\u0301', '\u0144'), ('R', '\u0301', '\u0154'),
  ('r', '\u0301', '\u0155'), ('S', '\u0301', '\u015A'), ('s', '\u0301', '\u015B'),
  ('Z', '\u0301', '\u0179'), ('z', '\u0301', '\u017A'), ('C', '\u0302', '\u0108'),
  ('c', '\u0302', '\u0109'), ('G', '\u0302', '\u011C'), ('g', '\u0302', '\u011D'),
  ('H', '\u0302', '\u0124'), ('h', '\u0302', '\u0125'), ('J', '\u0302', '\u0134'),
  ('j', '\u0302', '\u0135'), ('S', '\u0302', '\u015C'), ('s', '\u0302', '\u015D'),
  ('W', '\u0302', '\u0174'), ('w', '\u0302', '\u0175'), ('Y', '\u0302', '\u0176'),
  ('y', '\u0302', '\u0177'), ('I', '\u0303', '\u0128'), ('i', '\u0303', '\u0129'),
  ('U', '\u0303', '\u0168'), ('u', '\u0303', '\u0169'), ('A', '\u0304', '\u0100'),
  ('a', '\u0304', '\u0101'), ('E', '\u0304', '\u0112'), ('e', '\u0304', '\u0113'),
  ('I', '\u0304', '\u012A'), ('i', '\u0304', '\u012B'), ('O', '\u0304', '\u014C'),
  ('o', '\u0304', '\u014D'), ('U', '\u0304', '\u016A'), ('u', '\u0304', '\u016B'),
  ('A', '\u0306', '\u0102'), ('a', '\u0306', '\u0103'), ('E', '\u0306', '\u0114'),
  ('e', '\u0306', '\u0115'), ('G', '\u0306', '\u011E'), ('g', '\u0306', '\u011F'),
  ('I', '\u0306', '\u012C'), ('i', '\u0306', '\u012D'), ('O', '\u0306', '\u014E'),
  ('o', '\u0306', '\u014F'), ('U', '\u0306', '\u016C'), ('u', '\u0306', '\u016D'),
  ('C', '\u0307', '\u010A'), ('c', '\u0307', '\u010B'), ('E', '\u0307', '\u0116'),
  ('e', '\u0307', '\u0117'), ('G', '\u0307', '\u0120'), ('g', '\u0307', '\u0121'),
  ('Z', '\u0307', '\u017B'), ('z', '\u0307', '\u017C'), ('U', '\u030A', '\u016E'),
  ('u', '\u030A', '\u016F'), ('C', '\u030C', '\u010C'), ('c', '\u030C', '\u010D'),
  ('D', '\u030C', '\u010E'), ('d', '\u030C', '\u010F'), ('E', '\u030C', '\u011A'),
  ('e', '\u030C', '\u011B'), ('L', '\u030C', '\u013D'), ('l', '\u030C', '\u013E'),
  ('N', '\u030C', '\u0147'), ('n', '\u030C', '\u0148'), ('R', '\u030C', '\u0158'),
  ('r', '\u030C', '\u0159'), ('S', '\u030C', '\u0160'), ('s', '\u030C', '\u0161'),
  ('T', '\u030C', '\u0164'), ('t', '\u030C', '\u0165'), ('Z', '\u030C', '\u017D'),
  ('z', '\u030C', '\u017E'), ('O', '\u030B', '\u0150'), ('o', '\u030B', '\u0151'),
  ('U', '\u030B', '\u0170'), ('u', '\u030B', '\u0171'), ('G', '\u0327', '\u0122'),
  ('g', '\u0327', '\u0123'), ('K', '\u0327', '\u0136'), ('k', '\u0327', '\u0137'),
  ('L', '\u0327', '\u013B'), ('l', '\u0327', '\u013C'), ('N', '\u0327', '\u0145'),
  ('n', '\u0327', '\u0146'), ('R', '\u0327', '\u0156'), ('r', '\u0327', '\u0157'),
  ('S', '\u0327', '\u015E'), ('s', '\u0327', '\u015F'), ('T', '\u0327', '\u0162'),
  ('t', '\u0327', '\u0163'), ('A', '\u0328', '\u0104'), ('a', '\u0328', '\u0105'),
  ('E', '\u0328', '\u0118'), ('e', '\u0328', '\u0119'), ('I', '\u0328', '\u012E'),
  ('i', '\u0328', '\u012F'), ('U', '\u0328', '\u0172'), ('u', '\u0328', '\u0173'),
  ('\u0391', '\u0301', '\u0386'), ('\u0395', '\u0301', '\u0388'), ('\u0397', '\u0301', '\u0389'),
  ('\u0399', '\u0301', '\u038A'), ('\u039F', '\u0301', '\u038C'), ('\u03A5', '\u0301', '\u038E'),
  ('\u03A9', '\u0301', '\u038F'), ('\u0399', '\u0308', '\u03AA'), ('\u03A5', '\u0308', '\u03AB'),
  ('\u03B1', '\u0301', '\u03AC'), ('\u03B5', '\u0301', '\u03AD'), ('\u03B7', '\u0301', '\u03AE'),
  ('\u03B9', '\u0301', '\u03AF'), ('\u03B9', '\u0308', '\u03CA'), ('\u03C5', '\u0308', '\u03CB'),
  ('\u03BF', '\u0301', '\u03CC'), ('\u03C5', '\u0301', '\u03CD'), ('\u03C9', '\u0301', '\u03CE'),
  ('\u0418', '\u0306', '\u0419'), ('\u0438', '\u0306', '\u0439'), ('\u0415', '\u0308', '\u0401'),
  ('\u0435', '\u0308', '\u0451'), ('\u0413', '\u0301', '\u0403'), ('\u0433', '\u0301', '\u0453'),
  ('\u041A', '\u0301', '\u040C'), ('\u043A', '\u0301', '\u045C'), ('\u0423', '\u0306', '\u040E'),
  ('\u0443', '\u0306', '\u045E'), ('\u0406', '\u0308', '\u0407'), ('\u0456', '\u0308', '\u0457')
]

def compose (base mark : Char) : Option Char :=
  (compositions.find? fun entry => entry.1 = base && entry.2.1 = mark).map (·.2.2)

/-! ### Normalization -/

/-- Compose a scalar with the next ones to a syllable, as far as that goes; how many these are. -/
def composeSyllable (composed : Char) : List Char → Char × ℕ
  | [] => (composed, 0)
  | next :: rest =>
      match composeHangul composed next with
      | some c => let (syllable, consumed) := composeSyllable c rest; (syllable, consumed + 1)
      | none => (composed, 0)

/-- Sort marks by their classes; the sort is stable. -/
def sortMarks (marks : List Char) : List Char :=
  marks.insertionSort fun m m' => combiningClass m ≤ combiningClass m'

/-- Compose each of the marks that has a composition with what there is so far, and keep the
others. -/
def composeMarks (composed : Char) : List Char → Char × List Char
  | [] => (composed, [])
  | mark :: marks =>
      match compose composed mark with
      | some next => composeMarks next marks
      | none => let (last, remaining) := composeMarks composed marks; (last, mark :: remaining)

def nfc : List Char → List Char
  | [] => []
  | starter :: rest =>
      if isMark starter then
        -- a mark without a starter stays where it is
        starter :: nfc rest
      else
        let (syllable, consumed) := composeSyllable starter rest
        if 0 < consumed then syllable :: nfc (rest.drop consumed)
        else
          let (composed, remaining) := composeMarks starter (sortMarks (rest.takeWhile isMark))
          composed :: remaining ++ nfc (rest.dropWhile isMark)
termination_by text => text.length
decreasing_by
  · simp
  · simp only [List.length_drop, List.length_cons]
    omega
  · exact Nat.lt_succ_of_le (List.dropWhile_sublist _).length_le

/-! ### Components -/

/-- A subject, or the name of an attachment. -/
def canonicalizePlain (raw : List Char) : Except ScalarError (List Char) := do
  rejectForbiddenScalars raw
  return nfc (normalizeLineEndings raw)

def processParticipantField (raw : List Char) : Except ScalarError (List Char) := do
  let lineNormalized := normalizeLineEndings raw
  rejectForbiddenScalars lineNormalized
  let htReplaced := lineNormalized.map fun c => if c = '\t' then ' ' else c
  return nfc (trimMatches (· = ' ') htReplaced)

/-- A participant: the address, after the name if there is one. -/
def canonicalizeParticipant (name address : List Char) : Except ScalarError (List Char) := do
  let nameProcessed ← processParticipantField name
  let addressProcessed ← processParticipantField address
  if nameProcessed = [] then return addressProcessed
  else return nameProcessed ++ " <".toList ++ addressProcessed ++ ">".toList

end Inference
