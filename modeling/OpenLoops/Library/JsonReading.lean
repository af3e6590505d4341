import OpenLoops.Library.JsonText
import OpenLoops.Library.Numerals

/-!
# Reading documents

A document is read from a text, with any white space between its tokens.  The text that is written
for a document is read as the document, as long as the texts of its floats are read back.  How floats
are written and read is given.
-/

namespace Json

/-! ### Sequences -/

section

variable {α : Type*} (item : List Char → Option (α × List Char)) (close : Char)

def isWhitespace (c : Char) : Bool :=
  c = ' ' || c.toNat = 0x09 || c.toNat = 0x0a || c.toNat = 0x0d

def skipWhitespace (text : List Char) : List Char :=
  text.dropWhile isWhitespace

/-- Items with commas between them, and what comes after the character that closes them. -/
def readItems : ℕ → List Char → Option (List α × List Char)
  | 0, _ => none
  | fuel + 1, text => do
      let (a, text) ← item (skipWhitespace text)
      match skipWhitespace text with
      | [] => none
      | c :: text =>
          if c = close then return ([a], text)
          else if c = ',' then do
            let (items, text) ← readItems fuel text
            return (a :: items, text)
          else none

/-- `readItems`, or no items. -/
def readSequence (text : List Char) : Option (List α × List Char) :=
  match skipWhitespace text with
  | [] => none
  | c :: rest => if c = close then some ([], rest) else readItems item close text.length text

end

/-! ### Strings -/

def hexValue (c : Char) : Option ℕ :=
  if c.isDigit then some (c.toNat - '0'.toNat)
  else if 'a' ≤ c ∧ c ≤ 'f' then some (c.toNat - 'a'.toNat + 10)
  else if 'A' ≤ c ∧ c ≤ 'F' then some (c.toNat - 'A'.toNat + 10)
  else none

/-- The number that four digits write. -/
def readHex : List Char → Option (ℕ × List Char)
  | a :: b :: c :: d :: text => do
      let a ← hexValue a
      let b ← hexValue b
      let c ← hexValue c
      let d ← hexValue d
      return (((a * 16 + b) * 16 + c) * 16 + d, text)
  | _ => none

/-- The character that a unit stands for, or two units of a pair. -/
def readUnit (text : List Char) : Option (Char × List Char) := do
  let (unit, text) ← readHex text
  if 0xd800 ≤ unit ∧ unit < 0xdc00 then
    match text with
    | backslash :: 'u' :: text => do
        let (low, text) ← readHex text
        if backslash.toNat = 0x5c ∧ 0xdc00 ≤ low ∧ low < 0xe000 then
          return (Char.ofNat (0x10000 + (unit - 0xd800) * 0x400 + (low - 0xdc00)), text)
        else none
    | _ => none
  else if 0xdc00 ≤ unit ∧ unit < 0xe000 then none
  else return (Char.ofNat unit, text)

/-- The character that stands after a backslash for another one, or for itself. -/
def unescape (c : Char) : Option Char :=
  if c.toNat = 0x22 ∨ c.toNat = 0x5c ∨ c = '/' then some c
  else if c = 'b' then some (Char.ofNat 0x08)
  else if c = 'f' then some (Char.ofNat 0x0c)
  else if c = 'n' then some (Char.ofNat 0x0a)
  else if c = 'r' then some (Char.ofNat 0x0d)
  else if c = 't' then some (Char.ofNat 0x09)
  else none

/-- A character of a string. -/
def readChar : List Char → Option (Char × List Char)
  | [] => none
  | c :: text =>
      if c.toNat < 0x20 then none
      else if c.toNat ≠ 0x5c then some (c, text)
      else match text with
        | [] => none
        | 'u' :: text => readUnit text
        | c :: text => (unescape c).map fun c => (c, text)

/-- The characters of a string, and what comes after its last quote. -/
def readChars : ℕ → List Char → Option (List Char × List Char)
  | 0, _ => none
  | _ + 1, [] => none
  | fuel + 1, c :: text =>
      if c.toNat = 0x22 then some ([], text)
      else do
        let (c, text) ← readChar (c :: text)
        let (chars, text) ← readChars fuel text
        return (c :: chars, text)

def readText : List Char → Option (String × List Char)
  | [] => none
  | c :: text =>
      if c.toNat = 0x22 then do
        let (chars, text) ← readChars text.length text
        return (String.ofList chars, text)
      else none

/-! ### Numbers -/

variable (readFloat : List Char → Option UInt64)

/-- A character of a number. -/
def isNumeric (c : Char) : Bool :=
  c.isDigit || ['+', '-', '.', 'e', 'E'].contains c

/-- The number that digits write, without zeros in front. -/
def readNatural (digits : List Char) : Option ℕ :=
  (Numerals.parseDigits (2 ^ 64) digits).filter fun n => Numerals.write n = digits

/-- A number is an integer when it is written as one that fits. -/
def readNumeral (numeral : List Char) : Option JsonNumber :=
  match readNatural numeral, numeral with
  | some n, _ => some (.posInt (UInt64.ofNat n))
  | none, '-' :: digits =>
      match readNatural digits with
      | some n =>
          if h : n ≤ 2 ^ 63 ∧ Int64.ofInt (-n) < 0 then some (.negInt (Int64.ofInt (-n)) h.2)
          else (readFloat numeral).map .float
      | none => (readFloat numeral).map .float
  | none, _ => (readFloat numeral).map .float

/-! ### Documents -/

/-- A member, with its name. -/
def readNamed (value : List Char → Option (Json × List Char)) (text : List Char) :
    Option ((String × Json) × List Char) := do
  let (name, text) ← readText text
  match skipWhitespace text with
  | ':' :: text => do
      let (d, text) ← value (skipWhitespace text)
      return ((name, d), text)
  | _ => none

def readWord (text : List Char) : Option (Json × List Char) :=
  if "null".toList.isPrefixOf text then some (null, text.drop 4)
  else if "true".toList.isPrefixOf text then some (bool true, text.drop 4)
  else if "false".toList.isPrefixOf text then some (bool false, text.drop 5)
  else none

/-- A document, and what comes after it; it is not nested more deeply than the fuel. -/
def readValue : ℕ → List Char → Option (Json × List Char)
  | 0, _ => none
  | _ + 1, [] => none
  | fuel + 1, c :: text =>
      if c = '[' then do
        let (elements, text) ← readSequence (readValue fuel) ']' text
        return (array elements, text)
      else if c.toNat = 0x7b then do
        let (members, text) ← readSequence (readNamed (readValue fuel)) (Char.ofNat 0x7d) text
        return (object members, text)
      else if c.toNat = 0x22 then do
        let (s, text) ← readText (c :: text)
        return (string s, text)
      else if c = '-' ∨ c.isDigit then do
        let n ← readNumeral readFloat ((c :: text).takeWhile isNumeric)
        return (number n, (c :: text).dropWhile isNumeric)
      else readWord (c :: text)

/-- The document of a text. -/
def read (text : List Char) : Option Json := do
  let (d, text) ← readValue readFloat (text.length + 1) (skipWhitespace text)
  if skipWhitespace text = [] then return d else none

/-! ### Reading strings back -/

theorem readUnit_of_digits {high low : ℕ} (hhigh : high < 16) (hlow : low < 16)
    (text : List Char) :
  readUnit ('0' :: '0' :: Nat.digitChar high :: Nat.digitChar low :: text)
    = some (Char.ofNat (high * 16 + low), text)
  := by
  have hdigit : ∀ n < 16, hexValue (Nat.digitChar n) = some n := by decide
  have hzero : hexValue '0' = some 0 := by decide
  have hread : readHex ('0' :: '0' :: Nat.digitChar high :: Nat.digitChar low :: text)
      = some (high * 16 + low, text) := by
    simp only [readHex, hzero, hdigit high hhigh, hdigit low hlow, Option.bind_eq_bind,
      Option.bind_some, Nat.zero_mul, Nat.zero_add, Option.pure_def]
  have hsurrogate : ¬(0xd800 ≤ high * 16 + low ∧ high * 16 + low < 0xdc00) := by omega
  have hlone : ¬(0xdc00 ≤ high * 16 + low ∧ high * 16 + low < 0xe000) := by omega
  simp only [readUnit, hread, Option.bind_eq_bind, Option.bind_some, if_neg hsurrogate, if_neg hlone,
    Option.pure_def]

/-- A character is read back from what stands for it. -/
theorem readChar_escape (c : Char) (text : List Char) :
  readChar (escape c ++ text) = some (c, text)
  := by
  have hofNat : ∀ n, c.toNat = n → c = Char.ofNat n := by
    rintro n rfl
    exact (Char.ofNat_toNat c).symm
  simp only [escape]
  split_ifs with hquote hb hf hn hr ht hcontrol
  · rcases hquote with h | h
    · rw [hofNat _ h]
      rfl
    · rw [hofNat _ h]
      rfl
  · rw [hofNat _ hb]
    rfl
  · rw [hofNat _ hf]
    rfl
  · rw [hofNat _ hn]
    rfl
  · rw [hofNat _ hr]
    rfl
  · rw [hofNat _ ht]
    rfl
  · have hhigh : c.toNat / 16 < 16 := by omega
    have hunit := readUnit_of_digits hhigh (Nat.mod_lt c.toNat (by decide)) text
    rw [Nat.div_add_mod', Char.ofNat_toNat] at hunit
    exact hunit
  · show readChar (c :: text) = _
    rw [readChar.eq_def]
    simp only [if_neg hcontrol]
    exact if_pos fun h => hquote (Or.inr h)

/-- What stands for a character does not begin with a quote. -/
theorem exists_escape_eq (c : Char) :
  ∃ c' text, escape c = c' :: text ∧ c'.toNat ≠ 0x22
  := by
  simp only [escape]
  split_ifs with hquote
  all_goals try exact ⟨_, _, rfl, by decide⟩
  exact ⟨_, _, rfl, fun h => hquote (Or.inl h)⟩

theorem length_le_length_flatMap_escape (chars : List Char) :
  chars.length ≤ (chars.flatMap escape).length
  := by
  induction chars with
  | nil => exact Nat.le_refl 0
  | cons c chars ih =>
      obtain ⟨c', text, hescape, -⟩ := exists_escape_eq c
      rw [List.flatMap_cons, hescape, List.length_append, List.length_cons, List.length_cons]
      omega

/-- The characters of a string are read back. -/
theorem readChars_flatMap_escape (chars text : List Char) {fuel : ℕ} (h : chars.length < fuel) :
  readChars fuel (chars.flatMap escape ++ Char.ofNat 0x22 :: text) = some (chars, text)
  := by
  induction chars generalizing fuel with
  | nil =>
      obtain ⟨fuel, rfl⟩ := Nat.exists_eq_add_one_of_ne_zero (Nat.ne_zero_of_lt h)
      rfl
  | cons c chars ih =>
      obtain ⟨fuel, rfl⟩ := Nat.exists_eq_add_one_of_ne_zero (Nat.ne_zero_of_lt h)
      obtain ⟨c', rest, hescape, hquote⟩ := exists_escape_eq c
      have hchar := readChar_escape c (chars.flatMap escape ++ Char.ofNat 0x22 :: text)
      rw [hescape, List.cons_append] at hchar
      rw [List.flatMap_cons, hescape, List.append_assoc, List.cons_append]
      simp only [readChars, if_neg hquote, hchar, ih (Nat.lt_of_succ_lt_succ h),
        Option.bind_eq_bind, Option.bind_some, Option.pure_def]

/-- A string is read back from its text. -/
theorem readText_printString (s : String) (text : List Char) :
  readText (printString s ++ text) = some (s, text)
  := by
  have hfuel : s.toList.length < (s.toList.flatMap escape ++ Char.ofNat 0x22 :: text).length := by
    have h := length_le_length_flatMap_escape s.toList
    rw [List.length_append, List.length_cons]
    omega
  have hread := readChars_flatMap_escape s.toList text hfuel
  have hquote : (Char.ofNat 0x22).toNat = 0x22 := by decide
  rw [printString, List.cons_append, List.cons_append, List.append_assoc, List.singleton_append]
  simp only [readText, if_pos hquote, hread, Option.bind_eq_bind, Option.bind_some,
    String.ofList_toList, Option.pure_def]

/-! ### Reading numbers back -/

/-- The text is read as the float, and it could not be read as an integer. -/
structure IsFloatText (bits : UInt64) (text : List Char) : Prop where
  start : ∃ c rest, text = c :: rest ∧ (c = '-' ∨ c.isDigit)
  numeric : ∀ c ∈ text, isNumeric c
  fraction : ∃ c ∈ text, c ≠ '-' ∧ ¬c.isDigit
  reads : readFloat text = some bits

variable {readFloat} {floatText : UInt64 → String}

theorem readNatural_write {n : ℕ} (h : n < 2 ^ 64) :
  readNatural (Numerals.write n) = some n
  := by
  have hparse : Numerals.parseDigits (2 ^ 64) (Numerals.write n) = some n :=
    Numerals.parseDigits_eq_some_iff.mpr ⟨h, 0, rfl⟩
  rw [readNatural, hparse, Option.filter_some, if_pos (decide_eq_true rfl)]

/-- Only digits are read as a number. -/
theorem readNatural_eq_none {text : List Char} (h : ∃ c ∈ text, ¬c.isDigit) :
  readNatural text = none
  := by
  obtain ⟨c, hc, hdigit⟩ := h
  have hall : ¬(text ≠ [] ∧ text.all Char.isDigit) := by
    rintro ⟨-, hall⟩
    apply hdigit (List.all_eq_true.mp hall c hc)
  rw [readNatural, Numerals.parseDigits, if_neg hall]
  rfl

theorem readNumeral_posInt (n : UInt64) :
  readNumeral readFloat (printNumber floatText (.posInt n)) = some (.posInt n)
  := by
  rw [printNumber, Nat.toList_repr]
  have hread := readNatural_write n.toNat_lt
  rw [Numerals.write] at hread
  simp only [readNumeral, hread, UInt64.ofNat_toNat]

theorem readNumeral_negInt {n : Int64} (h : n < 0) :
  readNumeral readFloat (printNumber floatText (.negInt n h)) = some (.negInt n h)
  := by
  have hneg : n.toInt < 0 := Int64.lt_iff_toInt_lt.mp h
  have hmin : -2 ^ 63 ≤ n.toInt := n.le_toInt
  have habs : (-(n.toInt.natAbs : ℤ)) = n.toInt := by omega
  have hbound : n.toInt.natAbs ≤ 2 ^ 63 := by omega
  have hread := readNatural_write (n := n.toInt.natAbs) (by omega)
  have hsign : readNatural ('-' :: Nat.toDigits 10 n.toInt.natAbs) = none :=
    readNatural_eq_none ⟨'-', List.mem_cons_self, by decide⟩
  rw [Numerals.write] at hread
  rw [printNumber, Nat.toList_repr]
  have hint : Int64.ofInt (-(n.toInt.natAbs : ℤ)) = n := by rw [habs, Int64.ofInt_toInt]
  have hlt : Int64.ofInt (-(n.toInt.natAbs : ℤ)) < 0 := by
    rw [hint]
    exact h
  simp only [readNumeral, hsign, hread]
  rw [dif_pos ⟨hbound, hlt⟩]
  simp only [hint]

theorem readNumeral_float {bits : UInt64} {text : List Char}
    (h : IsFloatText readFloat bits text) :
  readNumeral readFloat text = some (.float bits)
  := by
  obtain ⟨c, hc, hminus, hdigit⟩ := h.fraction
  have hnone : readNatural text = none := readNatural_eq_none ⟨c, hc, hdigit⟩
  have hreads : (readFloat text).map JsonNumber.float = some (.float bits) := by
    rw [h.reads]
    rfl
  rw [readNumeral.eq_def, hnone]
  split
  · next hsome => cases hsome
  · next digits _ =>
      -- the digits behind a sign are not only digits either
      have hrest : ∃ c ∈ digits, ¬c.isDigit :=
        ⟨c, (List.mem_cons.mp hc).resolve_left hminus, hdigit⟩
      rw [readNatural_eq_none hrest]
      exact hreads
  · exact hreads

/-- A text that a number may have. -/
structure IsNumeral (text : List Char) : Prop where
  start : ∃ c rest, text = c :: rest ∧ (c = '-' ∨ c.isDigit)
  numeric : ∀ c ∈ text, isNumeric c

theorem isNumeral_write (n : ℕ) :
  IsNumeral (Numerals.write n)
  := by
  constructor
  · obtain ⟨c, rest, hwrite⟩ := List.exists_cons_of_ne_nil (Numerals.write_ne_nil n)
    use c, rest, hwrite
    exact Or.inr (Numerals.isDigit_of_mem_write (hwrite ▸ List.mem_cons_self))
  · intro c hc
    rw [isNumeric, Numerals.isDigit_of_mem_write hc, Bool.true_or]

/-- A number is read back from its text. -/
theorem readNumeral_printNumber {n : JsonNumber}
    (h : ∀ bits, n = .float bits → IsFloatText readFloat bits (floatText bits).toList) :
  IsNumeral (printNumber floatText n)
    ∧ readNumeral readFloat (printNumber floatText n) = some n
  := by
  cases n with
  | posInt n =>
      refine ⟨?_, readNumeral_posInt n⟩
      rw [printNumber, Nat.toList_repr]
      apply isNumeral_write
  | negInt n hneg =>
      refine ⟨?_, readNumeral_negInt hneg⟩
      rw [printNumber, Nat.toList_repr]
      constructor
      · exact ⟨'-', _, rfl, Or.inl rfl⟩
      · intro c hc
        rcases List.mem_cons.mp hc with rfl | hc
        · rfl
        · apply (isNumeral_write _).numeric c hc
  | float bits =>
      have htext := h bits rfl
      exact ⟨⟨htext.start, htext.numeric⟩, readNumeral_float htext⟩

/-! ### Reading sequences back -/

/-- The text begins with a character that is neither white space nor the one that closes a
sequence. -/
def Begins (close : Char) (text : List Char) : Prop :=
  ∃ c rest, text = c :: rest ∧ isWhitespace c = false ∧ c ≠ close

theorem skipWhitespace_cons {c : Char} (h : isWhitespace c = false) (text : List Char) :
  skipWhitespace (c :: text) = c :: text
  := by
  rw [skipWhitespace, List.dropWhile_cons_of_neg]
  rw [h]
  exact Bool.false_ne_true

theorem Begins.skipWhitespace_append {close : Char} {text : List Char} (h : Begins close text)
    (rest : List Char) :
  skipWhitespace (text ++ rest) = text ++ rest
  := by
  obtain ⟨c, text, rfl, hc, -⟩ := h
  exact skipWhitespace_cons hc _

section

variable {α : Type*} {item : List Char → Option (α × List Char)} {close : Char}
  {write : α → List Char} {items : List α}

theorem length_le_length_intercalate (h : ∀ a ∈ items, write a ≠ []) :
  items.length ≤ ([','].intercalate (items.map write)).length
  := by
  induction items with
  | nil => exact Nat.zero_le _
  | cons a items ih =>
      have ha : 0 < (write a).length := List.length_pos_of_ne_nil (h a List.mem_cons_self)
      have hrest := ih fun b hb => h b (List.mem_cons_of_mem a hb)
      cases items with
      | nil =>
          rw [List.map_cons, List.map_nil, List.intercalate_singleton]
          exact ha
      | cons b items =>
          rw [List.map_cons, List.map_cons, List.intercalate_cons_cons, List.length_append,
            List.length_append, ← List.map_cons, List.length_singleton, List.length_cons]
          omega

theorem length_le_of_mem_intercalate (write : α → List Char) {a : α} (h : a ∈ items) :
  (write a).length ≤ ([','].intercalate (items.map write)).length
  := by
  induction items with
  | nil => cases h
  | cons b items ih =>
      cases items with
      | nil =>
          rw [List.mem_singleton.mp h, List.map_cons, List.map_nil, List.intercalate_singleton]
      | cons c items =>
          rw [List.map_cons, List.map_cons, List.intercalate_cons_cons, List.length_append,
            List.length_append, ← List.map_cons]
          rcases List.mem_cons.mp h with rfl | h
          · omega
          · have hrest := ih h
            omega

/-- Items are read back when each of them is. -/
theorem readItems_intercalate (hclose : isWhitespace close = false ∧ close ≠ ',')
    (hne : items ≠ []) (hbegins : ∀ a ∈ items, Begins close (write a))
    (hitem : ∀ a ∈ items, ∀ c text, c = ',' ∨ c = close →
      item (write a ++ c :: text) = some (a, c :: text))
    {fuel : ℕ} (hfuel : items.length ≤ fuel) (text : List Char) :
  readItems item close fuel ([','].intercalate (items.map write) ++ close :: text)
    = some (items, text)
  := by
  induction items generalizing fuel with
  | nil => exact absurd rfl hne
  | cons a items ih =>
      obtain ⟨fuel, rfl⟩ := Nat.exists_eq_add_one_of_ne_zero (Nat.ne_zero_of_lt hfuel)
      have hskip := (hbegins a List.mem_cons_self).skipWhitespace_append
      cases items with
      | nil =>
          have hread := hitem a List.mem_cons_self close text (Or.inr rfl)
          rw [List.map_cons, List.map_nil, List.intercalate_singleton, readItems, hskip, hread]
          simp only [Option.bind_eq_bind, Option.bind_some, skipWhitespace_cons hclose.1]
          rw [if_pos trivial]
          rfl
      | cons b items =>
          have hcomma : ',' ≠ close := hclose.2.symm
          have hrest := ih (List.cons_ne_nil b items)
            (fun b hb => hbegins b (List.mem_cons_of_mem a hb))
            (fun b hb => hitem b (List.mem_cons_of_mem a hb)) (Nat.le_of_succ_le_succ hfuel)
          have hread := fun text => hitem a List.mem_cons_self ',' text (Or.inl rfl)
          rw [List.map_cons, List.map_cons, List.intercalate_cons_cons, ← List.map_cons,
            List.append_assoc, List.append_assoc, List.singleton_append, readItems, hskip, hread]
          simp only [Option.bind_eq_bind, Option.bind_some,
            skipWhitespace_cons (show isWhitespace ',' = false by decide)]
          rw [if_neg hcomma, if_pos trivial, hrest]
          rfl

/-- A sequence is read back when each of its items is. -/
theorem readSequence_intercalate (hclose : isWhitespace close = false ∧ close ≠ ',')
    (hbegins : ∀ a ∈ items, Begins close (write a))
    (hitem : ∀ a ∈ items, ∀ c text, c = ',' ∨ c = close →
      item (write a ++ c :: text) = some (a, c :: text)) (text : List Char) :
  readSequence item close ([','].intercalate (items.map write) ++ close :: text)
    = some (items, text)
  := by
  cases items with
  | nil =>
      show readSequence item close (close :: text) = _
      rw [readSequence, skipWhitespace_cons hclose.1]
      exact if_pos rfl
  | cons a items =>
      have hne : ∀ b ∈ a :: items, write b ≠ [] := by
        intro b hb
        obtain ⟨c, rest, heq, -, -⟩ := hbegins b hb
        rw [heq]
        exact List.cons_ne_nil c rest
      have hfuel : (a :: items).length
          ≤ ([','].intercalate ((a :: items).map write) ++ close :: text).length := by
        apply (length_le_length_intercalate hne).trans
        rw [List.length_append]
        exact Nat.le_add_right _ _
      have hitems := readItems_intercalate hclose (List.cons_ne_nil a items) hbegins hitem hfuel text
      have hfirst : Begins close ([','].intercalate ((a :: items).map write) ++ close :: text) := by
        obtain ⟨c, rest, heq, hspace, hc⟩ := hbegins a List.mem_cons_self
        cases items with
        | nil =>
            refine ⟨c, rest ++ close :: text, ?_, hspace, hc⟩
            rw [List.map_cons, List.map_nil, List.intercalate_singleton, heq, List.cons_append]
        | cons b items =>
            refine ⟨c, rest ++ [','] ++ [','].intercalate ((b :: items).map write)
              ++ close :: text, ?_, hspace, hc⟩
            rw [List.map_cons, List.map_cons, List.intercalate_cons_cons, heq]
            simp only [List.cons_append, List.append_assoc]
      obtain ⟨c, rest, heq, hspace, hc⟩ := hfirst
      rw [heq] at hitems ⊢
      rw [readSequence, skipWhitespace_cons hspace]
      simp only [if_neg hc]
      exact hitems

end

/-! ### Reading documents back -/

theorem printElements_eq (elements : List Json) :
  printElements floatText elements = [','].intercalate (elements.map (print floatText))
  := by
  induction elements with
  | nil => rfl
  | cons d elements ih =>
      cases elements with
      | nil => rw [printElements, List.map_cons, List.map_nil, List.intercalate_singleton]
      | cons d' elements =>
          rw [printElements, List.map_cons, List.map_cons, List.intercalate_cons_cons,
            ← List.map_cons, ih, List.append_assoc, List.singleton_append]

/-- The text of a member. -/
def printNamed (floatText : UInt64 → String) (member : String × Json) : List Char :=
  printString member.1 ++ ':' :: print floatText member.2

theorem printMembers_eq (members : List (String × Json)) :
  printMembers floatText members = [','].intercalate (members.map (printNamed floatText))
  := by
  induction members with
  | nil => rfl
  | cons member members ih =>
      obtain ⟨name, d⟩ := member
      cases members with
      | nil =>
          rw [printMembers, List.map_cons, List.map_nil, List.intercalate_singleton, printNamed]
      | cons member members =>
          rw [printMembers, List.map_cons, List.map_cons, List.intercalate_cons_cons,
            ← List.map_cons, ih, printNamed]
          simp only [List.append_assoc, List.cons_append, List.nil_append]

/-- The texts of the floats in the document are read back. -/
def FloatsReadBack (readFloat : List Char → Option UInt64) (floatText : UInt64 → String)
    (d : Json) : Prop :=
  ∀ bits, Within (number (.float bits)) d → IsFloatText readFloat bits (floatText bits).toList

theorem floatsReadBack_string (s : String) :
  FloatsReadBack readFloat floatText (string s)
  := by
  intro bits h
  cases h

theorem floatsReadBack_bool (b : Bool) :
  FloatsReadBack readFloat floatText (bool b)
  := by
  intro bits h
  cases h

theorem floatsReadBack_array {elements : List Json} :
  FloatsReadBack readFloat floatText (array elements) ↔
    ∀ d ∈ elements, FloatsReadBack readFloat floatText d
  := by
  constructor
  · intro h d hd bits hbits
    apply h bits (.array hd hbits)
  · rintro h bits (_ | ⟨hd, hbits⟩)
    apply h _ hd bits hbits

theorem floatsReadBack_object {members : List (String × Json)} :
  FloatsReadBack readFloat floatText (object members) ↔
    ∀ member ∈ members, FloatsReadBack readFloat floatText member.2
  := by
  constructor
  · intro h member hmember bits hbits
    apply h bits (.object hmember hbits)
  · rintro h bits (_ | _ | ⟨hd, hbits⟩)
    apply h _ hd bits hbits

/-- A character that begins a number. -/
theorem ne_of_starts_number {c : Char} (h : c = '-' ∨ c.isDigit) :
  c ≠ '[' ∧ c.toNat ≠ 0x7b ∧ c.toNat ≠ 0x22 ∧ c ≠ ']' ∧ isWhitespace c = false
  := by
  rcases h with rfl | hdigit
  · decide
  · obtain ⟨hlow, hhigh⟩ := Numerals.digit_bounds hdigit
    have hzero : '0'.toNat = 48 := rfl
    refine ⟨?_, by omega, by omega, ?_, ?_⟩
    · rintro rfl
      exact absurd hdigit (by decide)
    · rintro rfl
      exact absurd hdigit (by decide)
    · have hspace : c ≠ ' ' := by
        rintro rfl
        exact absurd hdigit (by decide)
      simp only [isWhitespace, Bool.or_eq_false_iff, decide_eq_false_iff_not]
      refine ⟨⟨⟨hspace, ?_⟩, ?_⟩, ?_⟩ <;> omega

/-- The text of a document begins with a character of its own. -/
theorem begins_print {d : Json} (h : FloatsReadBack readFloat floatText d) :
  Begins ']' (print floatText d)
  := by
  cases d with
  | null => exact ⟨'n', _, rfl, by decide, by decide⟩
  | bool b =>
      cases b
      · exact ⟨'f', _, rfl, by decide, by decide⟩
      · exact ⟨'t', _, rfl, by decide, by decide⟩
  | number n =>
      obtain ⟨⟨⟨c, rest, heq, hc⟩, -⟩, -⟩ := readNumeral_printNumber (n := n)
        (fun bits hbits => h bits (hbits ▸ Within.refl _))
      obtain ⟨-, -, -, hclose, hspace⟩ := ne_of_starts_number hc
      exact ⟨c, rest, heq, hspace, hclose⟩
  | string s => exact ⟨_, _, rfl, by decide, by decide⟩
  | array elements => exact ⟨_, _, rfl, by decide, by decide⟩
  | object members => exact ⟨_, _, rfl, by decide, by decide⟩

/-- What may come after a number. -/
theorem span_numeric {numeral : List Char} (h : ∀ c ∈ numeral, isNumeric c) {text : List Char}
    (htext : ∀ c ∈ text.head?, isNumeric c = false) :
  (numeral ++ text).takeWhile isNumeric = numeral ∧ (numeral ++ text).dropWhile isNumeric = text
  := by
  rw [List.takeWhile_append_of_pos h, List.dropWhile_append_of_pos h]
  cases text with
  | nil => simp
  | cons c text =>
      have hc : ¬isNumeric c = true := by
        rw [htext c rfl]
        exact Bool.false_ne_true
      rw [List.takeWhile_cons_of_neg hc, List.dropWhile_cons_of_neg hc, List.append_nil]
      exact ⟨rfl, rfl⟩

/-- A text that is read back is not empty, so there is fuel to read it. -/
theorem exists_fuel {d : Json} (h : FloatsReadBack readFloat floatText d) {fuel : ℕ}
    (hfuel : (print floatText d).length ≤ fuel) :
  ∃ fuel', fuel = fuel' + 1
  := by
  obtain ⟨c, rest, heq, -, -⟩ := begins_print h
  rw [heq, List.length_cons] at hfuel
  apply Nat.exists_eq_add_one_of_ne_zero
  omega

/-- No number goes on after a separator. -/
theorem isNumeric_separator {c close : Char} (hc : c = ',' ∨ c = close)
    (hclose : close = ']' ∨ close = Char.ofNat 0x7d) (text : List Char) :
  ∀ c' ∈ (c :: text).head?, isNumeric c' = false
  := by
  intro c' hc'
  obtain rfl := Option.some.inj hc'
  rcases hc with rfl | rfl
  · decide
  · rcases hclose with rfl | rfl
    · decide
    · decide

/-- A member is read back when its value is. -/
theorem readNamed_printNamed {value : List Char → Option (Json × List Char)}
    {member : String × Json} {text : List Char}
    (hbegins : Begins ']' (print floatText member.2))
    (h : value (print floatText member.2 ++ text) = some (member.2, text)) :
  readNamed value (printNamed floatText member ++ text) = some (member, text)
  := by
  have hcolon : isWhitespace ':' = false := by decide
  rw [printNamed, List.append_assoc, List.cons_append, readNamed, readText_printString]
  simp only [Option.bind_eq_bind, Option.bind_some, skipWhitespace_cons hcolon,
    hbegins.skipWhitespace_append, h, Option.pure_def]

/-- The text of a document is read as the document, when what comes after it is no part of a
number. -/
theorem readValue_print {d : Json} (h : FloatsReadBack readFloat floatText d) {fuel : ℕ}
    (hfuel : (print floatText d).length ≤ fuel) {text : List Char}
    (htext : ∀ c ∈ text.head?, isNumeric c = false) :
  readValue readFloat fuel (print floatText d ++ text) = some (d, text)
  := by
  induction d generalizing fuel text with
  | null =>
      obtain ⟨fuel, rfl⟩ := exists_fuel h hfuel
      rfl
  | bool b =>
      obtain ⟨fuel, rfl⟩ := exists_fuel h hfuel
      cases b
      · rfl
      · rfl
  | number n =>
      obtain ⟨fuel, rfl⟩ := exists_fuel h hfuel
      obtain ⟨hnumeral, hread⟩ := readNumeral_printNumber (n := n)
        (fun bits hbits => h bits (hbits ▸ Within.refl _))
      obtain ⟨htake, hdrop⟩ := span_numeric hnumeral.numeric htext
      obtain ⟨c, rest, heq, hc⟩ := hnumeral.start
      obtain ⟨harray, hobject, hstring, -, -⟩ := ne_of_starts_number hc
      rw [heq] at hread
      rw [heq, List.cons_append] at htake hdrop
      rw [print, heq, List.cons_append, readValue, if_neg harray, if_neg hobject, if_neg hstring,
        if_pos hc, htake, hdrop, hread]
      rfl
  | string s =>
      obtain ⟨fuel, rfl⟩ := exists_fuel h hfuel
      have hread := readText_printString s text
      rw [print]
      rw [printString, List.cons_append, List.cons_append] at hread ⊢
      rw [readValue, if_neg (by decide), if_neg (by decide), if_pos (by decide), hread]
      rfl
  | array elements ih =>
      obtain ⟨fuel, rfl⟩ := exists_fuel h hfuel
      rw [print, List.cons_append, List.length_cons, List.length_append, printElements_eq]
        at hfuel
      have hparts := floatsReadBack_array.mp h
      have hitem : ∀ d ∈ elements, ∀ c text, c = ',' ∨ c = ']' →
          readValue readFloat fuel (print floatText d ++ c :: text) = some (d, c :: text) := by
        intro d hd c text hc
        have hlength := length_le_of_mem_intercalate (print floatText) hd
        apply ih d hd (hparts d hd) (by omega)
        apply isNumeric_separator hc (Or.inl rfl)
      have hread := readSequence_intercalate (by decide)
        (fun d hd => begins_print (hparts d hd)) hitem text
      rw [print, List.cons_append, List.cons_append, List.append_assoc, List.singleton_append,
        printElements_eq, readValue, if_pos rfl, hread]
      rfl
  | object members ih =>
      obtain ⟨fuel, rfl⟩ := exists_fuel h hfuel
      rw [print, List.cons_append, List.length_cons, List.length_append, printMembers_eq] at hfuel
      have hparts := floatsReadBack_object.mp h
      have hitem : ∀ member ∈ members, ∀ c text, c = ',' ∨ c = Char.ofNat 0x7d →
          readNamed (readValue readFloat fuel) (printNamed floatText member ++ c :: text)
            = some (member, c :: text) := by
        intro member hmember c text hc
        have hlength := length_le_of_mem_intercalate (printNamed floatText) hmember
        have hvalue : (print floatText member.2).length ≤ (printNamed floatText member).length := by
          rw [printNamed, List.length_append, List.length_cons]
          omega
        apply readNamed_printNamed (begins_print (hparts member hmember))
        apply ih member hmember (hparts member hmember) (by omega)
        apply isNumeric_separator hc (Or.inr rfl)
      have hbegins : ∀ member ∈ members,
          Begins (Char.ofNat 0x7d) (printNamed floatText member) := by
        intro member _
        exact ⟨Char.ofNat 0x22, _, rfl, by decide, by decide⟩
      have hread := readSequence_intercalate (by decide) hbegins hitem text
      rw [print, List.cons_append, List.cons_append, List.append_assoc, List.singleton_append,
        printMembers_eq, readValue, if_neg (by decide), if_pos (by decide), hread]
      rfl

/-- A document is read back from its text. -/
theorem read_print {d : Json} (h : FloatsReadBack readFloat floatText d) :
  read readFloat (print floatText d) = some d
  := by
  have hskip := (begins_print h).skipWhitespace_append []
  have hend : ∀ c ∈ ([] : List Char).head?, isNumeric c = false := fun c hc => absurd hc (by simp)
  have hvalue := readValue_print h (Nat.le_succ (print floatText d).length) hend
  rw [List.append_nil] at hskip hvalue
  rw [read, hskip, hvalue]
  rfl

end Json
