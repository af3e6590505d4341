import OpenLoops.Inference.Scalars

/-!
# Markup

The constructs of a hypertext, and how they are skipped: a tag ends at the first `>` that is not
quoted, a comment at the first `-->`, and the content of a dropped element at the first end tag of
its name.  A reference stands for a character.
-/

namespace Inference

/-! ### Elements -/

/-- What an element does to the text around it. -/
inductive Category where
  | drop
  | lineBreak
  | block
  | cell
  | quote
  | anchor
  | other
deriving DecidableEq, Repr

def categorize (name : String) : Category :=
  match name with
  | "address" | "article" | "aside" | "dd" | "div" | "dl" | "dt" | "fieldset" | "figcaption"
  | "figure" | "footer" | "h1" | "h2" | "h3" | "h4" | "h5" | "h6" | "header" | "li" | "main"
  | "nav" | "ol" | "p" | "pre" | "section" | "table" | "tbody" | "thead" | "tfoot" | "tr"
  | "ul" => .block
  | "blockquote" => .quote
  | "td" | "th" => .cell
  | "br" | "hr" => .lineBreak
  | "head" | "script" | "style" | "template" | "noscript" | "iframe" | "object" | "embed" | "svg"
  | "math" | "canvas" | "audio" | "video" | "source" | "track" | "form" | "input" | "button"
  | "select" | "option" | "textarea" => .drop
  | "a" => .anchor
  | _ => .other

/-- An element that has no content and no end tag. -/
def isVoid (name : String) : Bool :=
  name ∈ ["area", "base", "br", "col", "embed", "hr", "img", "input", "link", "meta", "param",
    "source", "track", "wbr"]

/-- An open element is closed by the start tag of another one. -/
def shouldAutoClose (openName incoming : String) : Bool :=
  match openName with
  | "p" => categorize incoming ∈ [.block, .quote, .cell]
  | "li" => incoming = "li"
  | "dd" | "dt" => incoming ∈ ["dd", "dt"]
  | "h1" | "h2" | "h3" | "h4" | "h5" | "h6" => incoming ∈ ["h1", "h2", "h3", "h4", "h5", "h6"]
  | "td" | "th" => incoming ∈ ["td", "th", "tr", "thead", "tbody", "tfoot"]
  | "tr" => incoming ∈ ["tr", "thead", "tbody", "tfoot"]
  | "thead" | "tbody" | "tfoot" => incoming ∈ ["thead", "tbody", "tfoot"]
  | _ => false

/-! ### Tags -/

def isTagNameStart (c : Char) : Bool :=
  c.isAlpha

def isTagNameChar (c : Char) : Bool :=
  c.isAlphanum || c = '-' || c = ':'

/-- The name of a tag that the text starts with. -/
def tagName (text : List Char) : String :=
  String.ofList (toAsciiLowercase (text.takeWhile isTagNameChar))

/-- What comes after the end of a tag, in a quoted value or outside of one. -/
def skipToTagEnd (quote : Option Char) : List Char → List Char
  | [] => []
  | c :: text =>
      match quote with
      | some q => skipToTagEnd (if c = q then none else some q) text
      | none =>
          if c = '\'' ∨ c = '"' then skipToTagEnd (some c) text
          else if c = '>' then text
          else skipToTagEnd none text

/-- What comes after the first place where another text stands. -/
def findSubsequence (needle : List Char) : List Char → Option (List Char)
  | [] => none
  | c :: text =>
      if needle ≠ [] ∧ needle <+: c :: text then some ((c :: text).drop needle.length)
      else findSubsequence needle text

/-- What comes after a comment or a declaration, of which `<!` is taken. -/
def skipMarkupDeclaration (text : List Char) : List Char :=
  if ['-', '-'] <+: text then (findSubsequence ['-', '-', '>'] (text.drop 2)).getD []
  else skipToTagEnd none text

/-- The character ends the name of an end tag. -/
def endsTagName (c : Char) : Bool :=
  isWhitespace c || c = '>' || c = '/'

/-- The text starts with an end tag of the name. -/
def startsEndTag (name text : List Char) : Bool :=
  match text with
  | '<' :: '/' :: rest =>
      toAsciiLowercase (rest.take name.length) = toAsciiLowercase name
        && (rest.drop name.length).head?.all endsTagName
  | _ => false

/-- What comes after the first end tag of the name. -/
def findCaseInsensitiveClose (name : List Char) : List Char → Option (List Char)
  | [] => none
  | c :: text =>
      if startsEndTag name (c :: text) then
        some (skipToTagEnd none ((c :: text).drop (2 + name.length)))
      else findCaseInsensitiveClose name text

/-! ### References -/

/-- The characters of the names of references. -/
def namedEntity (name : String) : Option Char :=
  match name with
  | "amp" => some '&'
  | "lt" => some '<'
  | "gt" => some '>'
  | "quot" => some '"'
  | "apos" => some '\''
  | "nbsp" => some '\u00A0'
  | "copy" => some '\u00A9'
  | "reg" => some '\u00AE'
  | "trade" => some '\u2122'
  | "mdash" => some '\u2014'
  | "ndash" => some '\u2013'
  | "hellip" => some '\u2026'
  | "lsquo" => some '\u2018'
  | "rsquo" => some '\u2019'
  | "ldquo" => some '\u201C'
  | "rdquo" => some '\u201D'
  | "deg" => some '\u00B0'
  | "plusmn" => some '\u00B1'
  | "times" => some '\u00D7'
  | "divide" => some '\u00F7'
  | "sect" => some '\u00A7'
  | "para" => some '\u00B6'
  | "middot" => some '\u00B7'
  | "laquo" => some '\u00AB'
  | "raquo" => some '\u00BB'
  | "iexcl" => some '\u00A1'
  | "iquest" => some '\u00BF'
  | "euro" => some '\u20AC'
  | "pound" => some '\u00A3'
  | "yen" => some '\u00A5'
  | "cent" => some '\u00A2'
  | "bull" => some '\u2022'
  | "dagger" => some '\u2020'
  | "Dagger" => some '\u2021'
  | "permil" => some '\u2030'
  | "larr" => some '\u2190'
  | "rarr" => some '\u2192'
  | "uarr" => some '\u2191'
  | "darr" => some '\u2193'
  | "harr" => some '\u2194'
  | "spades" => some '\u2660'
  | "clubs" => some '\u2663'
  | "hearts" => some '\u2665'
  | "diams" => some '\u2666'
  | _ => none

def isHexDigit (c : Char) : Bool :=
  c.isDigit || ('a' ≤ c && c ≤ 'f') || ('A' ≤ c && c ≤ 'F')

def digitValue (c : Char) : ℕ :=
  if c.isDigit then c.toNat - '0'.toNat
  else if 'a' ≤ c && c ≤ 'f' then c.toNat - 'a'.toNat + 10
  else c.toNat - 'A'.toNat + 10

/-- The number of digits, or zero when it does not fit 32 bits. -/
def parseU32 (radix : ℕ) (digits : List Char) : ℕ :=
  let value := digits.foldl (fun n c => radix * n + digitValue c) 0
  if value < 2 ^ 32 then value else 0

/-- The character of a number; what no character has stands for the replacement character. -/
def decodeNumericRef (digits : List Char) (isHex : Bool) : Char :=
  let value := parseU32 (if isHex then 16 else 10) digits
  if value = 0 ∨ (0xD800 ≤ value ∧ value ≤ 0xDFFF) ∨ 0x10FFFF < value then '\uFFFD'
  else (fromU32 value).getD '\uFFFD'

/-- The number is written in hexadecimal digits. -/
def startsHex (text : List Char) : Bool :=
  text.head? = some 'x' || text.head? = some 'X'

/-- What comes after the semicolon of a reference. -/
def afterSemicolon : List Char → Option (List Char)
  | ';' :: after => some after
  | _ => none

def digitOk (isHex : Bool) (c : Char) : Bool :=
  if isHex then isHexDigit c else c.isDigit

def decodeNumeric (isHex : Bool) (text : List Char) : Option (Char × List Char) :=
  let digits := text.takeWhile (digitOk isHex)
  if digits = [] then none
  else (afterSemicolon (text.dropWhile (digitOk isHex))).map fun after =>
    (decodeNumericRef digits isHex, after)

def decodeNamed (text : List Char) : Option (Char × List Char) :=
  let name := (text.take 32).takeWhile Char.isAlphanum
  if name = [] then none
  else (afterSemicolon (text.drop name.length)).bind fun after =>
    (namedEntity (String.ofList name)).map fun c => (c, after)

/-- The character that a reference stands for, and what comes after it; the sign before the
reference is taken. -/
def decodeEntity : List Char → Option (Char × List Char)
  | '#' :: text =>
      if startsHex text then decodeNumeric true (text.drop 1) else decodeNumeric false text
  | text => decodeNamed text

/-! ### Ends of tags -/

/-- What stands in a tag after its name: quotes are balanced, and no `>` is outside of them. -/
inductive IsAttributes : List Char → Prop
  | nil : IsAttributes []
  | plain {c : Char} {text : List Char} (hc : c ≠ '\'' ∧ c ≠ '"' ∧ c ≠ '>')
      (h : IsAttributes text) : IsAttributes (c :: text)
  | quoted {q : Char} {value text : List Char} (hq : q = '\'' ∨ q = '"') (hvalue : q ∉ value)
      (h : IsAttributes text) : IsAttributes (q :: (value ++ q :: text))

theorem skipToTagEnd_quoted {q : Char} {value : List Char} (h : q ∉ value) (text : List Char) :
  skipToTagEnd (some q) (value ++ q :: text) = skipToTagEnd none text
  := by
  induction value with
  | nil => rw [List.nil_append, skipToTagEnd, if_pos rfl]
  | cons c value ih =>
      rw [List.mem_cons, not_or] at h
      rw [List.cons_append, skipToTagEnd, if_neg (Ne.symm h.1)]
      apply ih h.2

/-- A tag ends where its attributes do. -/
theorem IsAttributes.skipToTagEnd_eq {attributes : List Char} (h : IsAttributes attributes)
    (text : List Char) :
  skipToTagEnd none (attributes ++ '>' :: text) = text
  := by
  induction h with
  | nil => rfl
  | plain hc h ih =>
      rw [List.cons_append, skipToTagEnd, if_neg (by simp [hc.1, hc.2.1]), if_neg hc.2.2]
      exact ih
  | quoted hq hvalue h ih =>
      rw [List.cons_append, skipToTagEnd, if_pos hq, List.append_assoc, List.cons_append,
        skipToTagEnd_quoted hvalue]
      exact ih

theorem skipToTagEnd_suffix (quote : Option Char) (text : List Char) :
  skipToTagEnd quote text <:+ text
  := by
  induction text generalizing quote with
  | nil => exact List.suffix_refl []
  | cons c text ih =>
      have hnext := fun quote => (ih quote).trans (List.suffix_cons c text)
      cases quote with
      | some q => apply hnext
      | none =>
          rw [skipToTagEnd]
          split_ifs
          · apply hnext
          · apply List.suffix_cons
          · apply hnext

/-! ### Comments -/

theorem findSubsequence_suffix {needle text after : List Char}
    (h : findSubsequence needle text = some after) :
  after <:+ text
  := by
  induction text with
  | nil => cases h
  | cons c text ih =>
      rw [findSubsequence] at h
      split_ifs at h with hfound
      · cases h
        apply List.drop_suffix
      · apply (ih h).trans (List.suffix_cons c text)

/-- A comment ends at the first `-->`, also when dashes stand before it. -/
theorem findSubsequence_comment {content : List Char} (h : ¬ ['-', '-', '>'] <:+: content)
    (text : List Char) :
  findSubsequence ['-', '-', '>'] (content ++ '-' :: '-' :: '>' :: text) = some text
  := by
  induction content with
  | nil => rfl
  | cons c content ih =>
      rw [List.cons_append, findSubsequence, if_neg, ih]
      · exact fun hmem => h (hmem.trans (List.suffix_cons c content).isInfix)
      · rintro ⟨-, hstart⟩
        match content with
        | [] => simp at hstart
        | [d] => simp at hstart
        | d :: e :: content =>
            obtain ⟨others, heq⟩ := hstart
            cases heq
            exact h ⟨[], content, rfl⟩

theorem findSubsequence_eq_none {needle content : List Char} (h : ¬ needle <:+: content) :
  findSubsequence needle content = none
  := by
  induction content with
  | nil => rfl
  | cons c content ih =>
      rw [findSubsequence, if_neg fun hstart => h hstart.2.isInfix, ih]
      exact fun hmem => h (hmem.trans (List.suffix_cons c content).isInfix)

/-! ### Dropped elements -/

theorem findCaseInsensitiveClose_suffix {name text after : List Char}
    (h : findCaseInsensitiveClose name text = some after) :
  after <:+ text
  := by
  induction text with
  | nil => cases h
  | cons c text ih =>
      rw [findCaseInsensitiveClose] at h
      split_ifs at h with hfound
      · cases h
        apply (skipToTagEnd_suffix none _).trans (List.drop_suffix _ _)
      · apply (ih h).trans (List.suffix_cons c text)

/-- There is an end tag of the name in the text. -/
def HasEndTag (name text : List Char) : Prop :=
  ∃ before written c after, text = before ++ '<' :: '/' :: (written ++ c :: after)
    ∧ toAsciiLowercase written = toAsciiLowercase name ∧ endsTagName c = true

theorem HasEndTag.cons {name text : List Char} (h : HasEndTag name text) (c : Char) :
  HasEndTag name (c :: text)
  := by
  obtain ⟨before, written, d, after, rfl, hwritten, hd⟩ := h
  exact ⟨c :: before, written, d, after, rfl, hwritten, hd⟩

theorem startsEndTag_iff {name text : List Char} :
  startsEndTag name text = true ↔
    ∃ rest, text = '<' :: '/' :: rest
      ∧ toAsciiLowercase (rest.take name.length) = toAsciiLowercase name
      ∧ (rest.drop name.length).head?.all endsTagName = true
  := by
  rw [startsEndTag.eq_def]
  split
  · rename_i rest
    rw [Bool.and_eq_true, decide_eq_true_iff]
    constructor
    · rintro ⟨hname, hends⟩
      exact ⟨rest, rfl, hname, hends⟩
    · rintro ⟨rest', heq, hname, hends⟩
      cases heq
      exact ⟨hname, hends⟩
  · rename_i hother
    apply iff_of_false Bool.false_ne_true
    rintro ⟨rest, rfl, -⟩
    exact hother rest rfl

theorem length_eq_of_toAsciiLowercase {text text' : List Char}
    (h : toAsciiLowercase text = toAsciiLowercase text') :
  text.length = text'.length
  := by
  have hlength := congrArg List.length h
  rwa [toAsciiLowercase, toAsciiLowercase, List.length_map, List.length_map] at hlength

/-- An end tag that starts in a text ends in it, when a sign follows the text that no name has. -/
theorem hasEndTag_of_startsEndTag {name text rest : List Char} (hname : '<' ∉ toAsciiLowercase name)
    (hne : text ≠ []) (h : startsEndTag name (text ++ '<' :: rest) = true) :
  HasEndTag name text
  := by
  obtain ⟨others, heq, hstart, hends⟩ := startsEndTag_iff.mp h
  match text with
  | [] => exact absurd rfl hne
  | [c] =>
      obtain ⟨-, hrest⟩ := List.cons.inj heq
      cases hrest
  | c :: d :: text =>
      obtain ⟨rfl, hrest⟩ := List.cons.inj heq
      obtain ⟨rfl, hothers⟩ := List.cons.inj hrest
      change text ++ '<' :: rest = others at hothers
      subst hothers
      rcases Nat.lt_trichotomy text.length name.length with hlt | hsame | hgt
      · exfalso
        apply hname
        rw [← hstart, toAsciiLowercase, List.mem_map]
        refine ⟨'<', ?_, rfl⟩
        have hlength : (text ++ ['<']).length ≤ name.length := by
          rw [List.length_append]
          exact hlt
        rw [← List.singleton_append, ← List.append_assoc, List.take_append,
          List.take_of_length_le hlength]
        simp
      · rw [← hsame, List.drop_left] at hends
        cases hends
      · obtain ⟨c, after, hsplit⟩ := List.exists_cons_of_length_pos
          (show 0 < (text.drop name.length).length by rw [List.length_drop]; omega)
        refine ⟨[], text.take name.length, c, after, ?_, ?_, ?_⟩
        · rw [← hsplit, List.take_append_drop]
          rfl
        · rwa [List.take_append_of_le_length hgt.le] at hstart
        · rw [List.drop_append_of_le_length hgt.le, hsplit] at hends
          exact hends

/-- The content of a dropped element is skipped up to its end tag, and the end tag with it. -/
theorem findCaseInsensitiveClose_append {name content written attributes : List Char}
    (hfree : ¬ HasEndTag name content) (hname : '<' ∉ toAsciiLowercase name)
    (hwritten : toAsciiLowercase written = toAsciiLowercase name)
    (hattributes : IsAttributes attributes) (hends : attributes.head?.all endsTagName = true)
    (text : List Char) :
  findCaseInsensitiveClose name (content ++ '<' :: '/' :: (written ++ (attributes ++ '>' :: text)))
    = some text
  := by
  have hlength := length_eq_of_toAsciiLowercase hwritten
  induction content with
  | nil =>
      rw [List.nil_append, findCaseInsensitiveClose, if_pos]
      · rw [Nat.add_comm, List.drop_succ_cons, List.drop_succ_cons, ← hlength, List.drop_left,
          hattributes.skipToTagEnd_eq]
      · rw [startsEndTag_iff]
        refine ⟨_, rfl, ?_, ?_⟩
        · rw [← hlength, List.take_left, hwritten]
        · rw [← hlength, List.drop_left]
          cases attributes with
          | nil => rfl
          | cons c attributes => exact hends
  | cons c content ih =>
      rw [List.cons_append, findCaseInsensitiveClose, if_neg, ih fun h => hfree (h.cons c)]
      exact fun hstart => hfree (hasEndTag_of_startsEndTag hname (List.cons_ne_nil _ _) hstart)

/-- Content without an end tag is skipped to the end of the text. -/
theorem findCaseInsensitiveClose_getD {name content : List Char} (hfree : ¬ HasEndTag name content) :
  (findCaseInsensitiveClose name content).getD [] = []
  := by
  induction content with
  | nil => rfl
  | cons c content ih =>
      rw [findCaseInsensitiveClose]
      split_ifs with hstart
      · -- the name of the end tag is the end of the text
        obtain ⟨rest, heq, hname, hends⟩ := startsEndTag_iff.mp hstart
        cases hdrop : rest.drop name.length with
        | nil =>
            rw [heq, Nat.add_comm, List.drop_succ_cons, List.drop_succ_cons, hdrop]
            rfl
        | cons d after =>
            exfalso
            apply hfree
            refine ⟨[], rest.take name.length, d, after, ?_, hname, ?_⟩
            · rw [← hdrop, List.take_append_drop]
              exact heq
            · rw [hdrop] at hends
              exact hends
      · apply ih
        exact fun h => hfree (h.cons c)

/-! ### Ends of references -/

theorem afterSemicolon_suffix {text after : List Char} (h : afterSemicolon text = some after) :
  after <:+ text
  := by
  rw [afterSemicolon.eq_def] at h
  split at h
  · cases h
    apply List.suffix_cons
  · cases h

theorem decodeNumeric_suffix {isHex : Bool} {text after : List Char} {c : Char}
    (h : decodeNumeric isHex text = some (c, after)) :
  after <:+ text
  := by
  rw [decodeNumeric] at h
  split_ifs at h with hdigits
  obtain ⟨after', hafter, heq⟩ := Option.map_eq_some_iff.mp h
  cases heq
  exact (afterSemicolon_suffix hafter).trans (List.dropWhile_suffix _)

theorem decodeNamed_suffix {text after : List Char} {c : Char}
    (h : decodeNamed text = some (c, after)) :
  after <:+ text
  := by
  rw [decodeNamed] at h
  split_ifs at h with hname
  obtain ⟨after', hafter, hnamed⟩ := Option.bind_eq_some_iff.mp h
  obtain ⟨d, -, heq⟩ := Option.map_eq_some_iff.mp hnamed
  cases heq
  exact (afterSemicolon_suffix hafter).trans (List.drop_suffix _ _)

theorem decodeEntity_suffix {text after : List Char} {c : Char}
    (h : decodeEntity text = some (c, after)) :
  after <:+ text
  := by
  rw [decodeEntity.eq_def] at h
  split at h
  · rename_i rest
    have hrest := List.suffix_cons '#' rest
    split_ifs at h
    · exact ((decodeNumeric_suffix h).trans (List.drop_suffix 1 rest)).trans hrest
    · exact (decodeNumeric_suffix h).trans hrest
  · apply decodeNamed_suffix h

/-- Characters are taken up to the first other one, in the text or right after it. -/
theorem takeWhile_append_stop {p : Char → Bool} {text rest : List Char}
    (h : rest.head?.any p = false) :
  (text ++ rest).takeWhile p = text.takeWhile p
    ∧ (text ++ rest).dropWhile p = text.dropWhile p ++ rest
  := by
  induction text with
  | nil =>
      cases rest with
      | nil => exact ⟨rfl, rfl⟩
      | cons c rest =>
          have hc : ¬ p c = true := by
            rw [Bool.not_eq_true]
            exact h
          exact ⟨List.takeWhile_cons_of_neg hc, List.dropWhile_cons_of_neg hc⟩
  | cons c text ih =>
      by_cases hc : p c = true
      · rw [List.cons_append, List.takeWhile_cons_of_pos hc, List.takeWhile_cons_of_pos hc,
          List.dropWhile_cons_of_pos hc, List.dropWhile_cons_of_pos hc, ih.1, ih.2]
        exact ⟨rfl, rfl⟩
      · rw [List.cons_append, List.takeWhile_cons_of_neg hc, List.takeWhile_cons_of_neg hc,
          List.dropWhile_cons_of_neg hc, List.dropWhile_cons_of_neg hc]
        exact ⟨rfl, rfl⟩

/-- A tag starts right after the text, or nothing comes after it. -/
def StopsText (rest : List Char) : Prop :=
  ∀ c, rest.head? = some c → c = '<'

section

variable {rest : List Char}

theorem StopsText.any_head? (h : StopsText rest) {p : Char → Bool} (hp : p '<' = false) :
  rest.head?.any p = false
  := by
  cases hrest : rest.head? with
  | none => rfl
  | some c => rw [h c hrest, Option.any_some, hp]

theorem afterSemicolon_append (h : StopsText rest) (text : List Char) :
  afterSemicolon (text ++ rest) = (afterSemicolon text).map (· ++ rest)
  := by
  cases text with
  | nil =>
      rw [List.nil_append, afterSemicolon.eq_def]
      split
      · cases h ';' rfl
      · rfl
  | cons c text =>
      by_cases hc : c = ';'
      · subst hc
        rfl
      · have hnone : ∀ others, afterSemicolon (c :: others) = none := by
          intro others
          rw [afterSemicolon.eq_2]
          rintro after ⟨⟩
          exact hc rfl
        rw [List.cons_append, hnone, hnone, Option.map_none]

theorem decodeNumeric_append (h : StopsText rest) (isHex : Bool) (text : List Char) :
  decodeNumeric isHex (text ++ rest)
    = (decodeNumeric isHex text).map fun decoded => (decoded.1, decoded.2 ++ rest)
  := by
  have hdigit : digitOk isHex '<' = false := by
    cases isHex <;> rfl
  obtain ⟨htake, hdrop⟩ := @takeWhile_append_stop _ text _ (h.any_head? hdigit)
  rw [decodeNumeric, decodeNumeric, htake, hdrop, afterSemicolon_append h]
  split_ifs
  · rfl
  · rw [Option.map_map, Option.map_map]
    rfl

theorem decodeNamed_append (h : StopsText rest) (text : List Char) :
  decodeNamed (text ++ rest)
    = (decodeNamed text).map fun decoded => (decoded.1, decoded.2 ++ rest)
  := by
  have hstop : (rest.take (32 - text.length)).head?.any Char.isAlphanum = false := by
    apply StopsText.any_head? _ rfl
    intro c hc
    rw [List.head?_take] at hc
    split_ifs at hc
    apply h c hc
  have hname : ((text ++ rest).take 32).takeWhile Char.isAlphanum
      = (text.take 32).takeWhile Char.isAlphanum := by
    rw [List.take_append]
    exact (takeWhile_append_stop hstop).1
  have hlength : ((text.take 32).takeWhile Char.isAlphanum).length ≤ text.length :=
    ((List.takeWhile_sublist _).trans (List.take_sublist 32 text)).length_le
  rw [decodeNamed, decodeNamed, hname, List.drop_append_of_le_length hlength,
    afterSemicolon_append h]
  split_ifs
  · rfl
  · cases afterSemicolon (text.drop ((text.take 32).takeWhile Char.isAlphanum).length) with
    | none => rfl
    | some after =>
        rw [Option.map_some, Option.bind_some, Option.bind_some, Option.map_map]
        rfl

/-- A reference ends before the next tag. -/
theorem decodeEntity_append (h : StopsText rest) (text : List Char) :
  decodeEntity (text ++ rest)
    = (decodeEntity text).map fun decoded => (decoded.1, decoded.2 ++ rest)
  := by
  have hnamed : ∀ text : List Char, text.head? ≠ some '#' → decodeEntity text = decodeNamed text := by
    intro text hhead
    rw [decodeEntity.eq_2]
    rintro others rfl
    exact hhead rfl
  by_cases hhash : text.head? = some '#'
  · obtain ⟨text, rfl⟩ := List.head?_eq_some_iff.mp hhash
    rw [List.cons_append, decodeEntity, decodeEntity]
    cases text with
    | nil =>
        have hhex : startsHex rest = false := by
          rw [startsHex, Bool.or_eq_false_iff, decide_eq_false_iff_not, decide_eq_false_iff_not]
          constructor
          · intro hhead
            cases h 'x' hhead
          · intro hhead
            cases h 'X' hhead
        rw [List.nil_append, hhex, if_neg Bool.false_ne_true]
        apply decodeNumeric_append h false []
    | cons c text =>
        have hhex : startsHex (c :: text ++ rest) = startsHex (c :: text) := rfl
        rw [hhex]
        split_ifs
        · apply decodeNumeric_append h true text
        · apply decodeNumeric_append h false (c :: text)
  · rw [hnamed text hhash, hnamed, decodeNamed_append h]
    cases text with
    | nil =>
        intro hhead
        cases h '#' hhead
    | cons c text => exact hhash

end

end Inference
