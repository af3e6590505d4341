import OpenLoops.Graph.Encoding
import OpenLoops.Graph.Session
import OpenLoops.Library.Text

/-!
# Headers of mail

A header may hold words that are encoded in ASCII, with the name of a character set, and a list of
addresses, each with a name or without one.
-/

namespace Graph

namespace Mime

/-- The text is a name that is written in small letters, but for its capital ones. -/
def isNamed (name : String) (text : List Char) : Bool :=
  toAsciiLowercase text = name.toList

theorem splitOnce_append {c : Char} {before : List Char} (h : c ∉ before) (after : List Char) :
  splitOnce c (before ++ c :: after) = some (before, after)
  := by
  have hne : ∀ d ∈ before, decide (d ≠ c) = true := by
    intro d hd
    rw [decide_eq_true_eq]
    rintro rfl
    exact h hd
  have hhead : (c :: after).head?.any (fun d => decide (d ≠ c)) = false := by simp
  rw [splitOnce, List.span_eq_takeWhile_dropWhile, dropWhile_append_eq hne hhead,
    takeWhile_append_eq hne hhead]

theorem splitOnce_eq_none {c : Char} {text : List Char} (h : c ∉ text) :
  splitOnce c text = none
  := by
  have hnil : text.dropWhile (fun d => decide (d ≠ c)) = [] := by
    apply List.dropWhile_eq_nil_iff.mpr
    intro d hd
    rw [decide_eq_true_eq]
    rintro rfl
    exact h hd
  rw [splitOnce, List.span_eq_takeWhile_dropWhile, hnil]

/-! ### Character sets -/

/-- The characters of windows-1252 that are not those of the same number. -/
def windows1252 : List (UInt8 × Char) :=
  [(0x80, '\u20ac'), (0x82, '\u201a'), (0x83, '\u0192'), (0x84, '\u201e'), (0x85, '\u2026'),
    (0x86, '\u2020'), (0x87, '\u2021'), (0x88, '\u02c6'), (0x89, '\u2030'), (0x8a, '\u0160'),
    (0x8b, '\u2039'), (0x8c, '\u0152'), (0x8e, '\u017d'), (0x91, '\u2018'), (0x92, '\u2019'),
    (0x93, '\u201c'), (0x94, '\u201d'), (0x95, '\u2022'), (0x96, '\u2013'), (0x97, '\u2014'),
    (0x98, '\u02dc'), (0x99, '\u2122'), (0x9a, '\u0161'), (0x9b, '\u203a'), (0x9c, '\u0153'),
    (0x9e, '\u017e'), (0x9f, '\u0178')]

/-- The character of the number. -/
def charOfByte (b : UInt8) : Char :=
  Char.ofNat b.toNat

def decodeBytes (bytes : List UInt8) (charset : List Char) : List Char :=
  if isNamed "iso-8859-1" charset || isNamed "latin1" charset then bytes.map charOfByte
  else if isNamed "windows-1252" charset || isNamed "cp1252" charset then
    bytes.map fun b => (windows1252.lookup b).getD (charOfByte b)
  else Utf8.lossy bytes

/-! ### Encoded words -/

/-- A number of one or two hexadecimal digits, of which the first may be a plus sign instead. -/
def fromStrRadix16 (c d : Char) : Option UInt8 :=
  if c = '+' then hexValue d
  else do
    let high ← hexValue c
    let low ← hexValue d
    return high <<< 4 ||| low

/-- The bytes of a text in which a byte may stand as an equals sign with two hexadecimal digits, and
a space as an underscore. -/
def decodeQ : List Char → Option (List UInt8)
  | [] => some []
  | '_' :: text => (decodeQ text).map (0x20 :: ·)
  | '=' :: c :: d :: text => (fromStrRadix16 c d).bind fun byte => (decodeQ text).map (byte :: ·)
  | '=' :: _ => none
  | c :: text => (decodeQ text).map (String.utf8EncodeChar c ++ ·)

/-- The character of base64url for one of base64. -/
def normalize (c : Char) : Char :=
  if c = '+' then '-' else if c = '/' then '_' else c

/-- The bytes of a text in the encoding. -/
def decodeContent (encoding value : List Char) : Option (List UInt8) :=
  if isNamed "b" encoding then base64urlDecode ((trimEndMatches (· = '=') value).map normalize)
  else if isNamed "q" encoding then decodeQ value
  else none

/-- The character set and the bytes of an encoded word, of which the text between its delimiters is
given. -/
def decodeWordBytes (inner : List Char) : Option (List Char × List UInt8) := do
  let (charset, rest) ← splitOnce '?' inner
  let (encoding, value) ← splitOnce '?' rest
  if !isNamed "utf-8" charset && !isNamed "iso-8859-1" charset && !isNamed "latin1" charset then none
  else
    let bytes ← decodeContent encoding value
    return (charset, bytes)

/-- An encoded word that follows white space, and the text after it. -/
def nextWord (text : List Char) : Option ((List Char × List UInt8) × List Char) :=
  if text.head?.any isWhitespace then
    match text.dropWhile isWhitespace with
    | '=' :: '?' :: rest =>
        (breakOn '?' '=' rest).bind fun parts =>
          (decodeWordBytes parts.1).map fun word => (word, parts.2)
    | _ => none
  else none

theorem length_of_breakOn {a b : Char} {text before after : List Char}
    (h : breakOn a b text = some (before, after)) :
  after.length < text.length
  := by
  rw [eq_of_breakOn h]
  simp only [List.length_append, List.length_cons]
  omega

theorem length_of_nextWord {text after : List Char} {word : List Char × List UInt8}
    (h : nextWord text = some (word, after)) :
  after.length < text.length
  := by
  rw [nextWord] at h
  split_ifs at h
  split at h
  · rename_i rest hdrop
    obtain ⟨parts, hparts, hword⟩ := Option.bind_eq_some_iff.mp h
    obtain ⟨word', -, heq⟩ := Option.map_eq_some_iff.mp hword
    cases heq
    have hlt := length_of_breakOn hparts
    have hle := (List.dropWhile_suffix isWhitespace (l := text)).length_le
    rw [hdrop, List.length_cons, List.length_cons] at hle
    omega
  · cases h

/-- The bytes of a word are added to those before them, if they are of the same character set. -/
def addGroup (groups : List (List Char × List UInt8)) (word : List Char × List UInt8) :
    List (List Char × List UInt8) :=
  match groups.getLast? with
  | some last =>
      if toAsciiLowercase last.1 = toAsciiLowercase word.1 then
        groups.dropLast ++ [(last.1, last.2 ++ word.2)]
      else groups ++ [word]
  | none => groups ++ [word]

/-- The groups of the encoded words that follow one another, and the text after them. -/
def joinWords (groups : List (List Char × List UInt8)) (text : List Char) :
    List (List Char × List UInt8) × List Char :=
  match _h : nextWord text with
  | none => (groups, text)
  | some (word, after) => joinWords (addGroup groups word) after
  termination_by text.length
  decreasing_by exact length_of_nextWord _h

theorem joinWords_of_none {groups : List (List Char × List UInt8)} {text : List Char}
    (h : nextWord text = none) :
  joinWords groups text = (groups, text)
  := by
  rw [joinWords]
  split
  · rfl
  · simp_all

theorem joinWords_of_some {groups : List (List Char × List UInt8)} {text after : List Char}
    {word : List Char × List UInt8} (h : nextWord text = some (word, after)) :
  joinWords groups text = joinWords (addGroup groups word) after
  := by
  rw [joinWords]
  split
  · simp_all
  · simp_all

theorem length_joinWords_le (groups : List (List Char × List UInt8)) (text : List Char) :
  (joinWords groups text).2.length ≤ text.length
  := by
  induction groups, text using joinWords.induct with
  | case1 groups text hnone => rw [joinWords_of_none hnone]
  | case2 groups text word after hword ih =>
      rw [joinWords_of_some hword]
      exact ih.trans (length_of_nextWord hword).le

def decodeRfc2047 (value : List Char) : List Char :=
  match _h : breakOn '=' '?' value with
  | none => value
  | some (before, text) =>
      match _h' : breakOn '?' '=' text with
      | none => before ++ '=' :: '?' :: text
      | some (inner, after) =>
          match decodeWordBytes inner with
          | none => before ++ '=' :: '?' :: inner ++ '?' :: '=' :: decodeRfc2047 after
          | some word =>
              before ++ ((joinWords [word] after).1.flatMap fun group => decodeBytes group.2 group.1)
                ++ decodeRfc2047 (joinWords [word] after).2
  termination_by value.length
  decreasing_by
    · have hlt := length_of_breakOn _h
      have hlt' := length_of_breakOn _h'
      omega
    · have hlt := length_of_breakOn _h
      have hlt' := length_of_breakOn _h'
      have hle := length_joinWords_le [word] after
      omega

section

variable {value before text inner after : List Char} {word : List Char × List UInt8}

theorem decodeRfc2047_of_none (h : breakOn '=' '?' value = none) :
  decodeRfc2047 value = value
  := by
  rw [decodeRfc2047]
  split
  · rfl
  · simp_all

variable (hstart : breakOn '=' '?' value = some (before, text))
  (hend : breakOn '?' '=' text = some (inner, after))

include hstart hend

/-- What stands between the delimiters and is no word stays as it is. -/
theorem decodeRfc2047_of_not_word (hword : decodeWordBytes inner = none) :
  decodeRfc2047 value = before ++ '=' :: '?' :: inner ++ '?' :: '=' :: decodeRfc2047 after
  := by
  rw [decodeRfc2047]
  split
  · simp_all
  · split <;> simp_all

theorem decodeRfc2047_of_word (hword : decodeWordBytes inner = some word) :
  decodeRfc2047 value
    = before ++ ((joinWords [word] after).1.flatMap fun group => decodeBytes group.2 group.1)
      ++ decodeRfc2047 (joinWords [word] after).2
  := by
  rw [decodeRfc2047]
  split
  · simp_all
  · split <;> simp_all

end

end Mime

end Graph
