import Mathlib.Data.List.Flatten
import Mathlib.Data.Nat.Digits.Defs
import OpenLoops.Library.Json
import OpenLoops.Library.Wire

/-!
# Texts of documents

A document is written without any white space.  The size of its text is bounded by the sizes of its
parts, as long as it has no floats.
-/

namespace Json

/-! ### Writing -/

/-- The character as it stands in a string. -/
def escape (c : Char) : List Char :=
  let n := c.toNat
  if n = 0x22 ∨ n = 0x5c then [Char.ofNat 0x5c, c]
  else if n = 0x08 then [Char.ofNat 0x5c, 'b']
  else if n = 0x0c then [Char.ofNat 0x5c, 'f']
  else if n = 0x0a then [Char.ofNat 0x5c, 'n']
  else if n = 0x0d then [Char.ofNat 0x5c, 'r']
  else if n = 0x09 then [Char.ofNat 0x5c, 't']
  else if n < 0x20 then
    [Char.ofNat 0x5c, 'u', '0', '0', Nat.digitChar (n / 16), Nat.digitChar (n % 16)]
  else [c]

def printString (s : String) : List Char :=
  Char.ofNat 0x22 :: s.toList.flatMap escape ++ [Char.ofNat 0x22]

/-- A number in decimal digits; `floatText` says how floats are written. -/
def printNumber (floatText : UInt64 → String) : JsonNumber → List Char
  | .posInt n => n.toNat.repr.toList
  | .negInt n _ => '-' :: n.toInt.natAbs.repr.toList
  | .float bits => (floatText bits).toList

mutual

/-- The text of a document. -/
def print (floatText : UInt64 → String) : Json → List Char
  | null => "null".toList
  | bool true => "true".toList
  | bool false => "false".toList
  | number n => printNumber floatText n
  | string s => printString s
  | array elements => '[' :: printElements floatText elements ++ [']']
  | object members => Char.ofNat 0x7b :: printMembers floatText members ++ [Char.ofNat 0x7d]

def printElements (floatText : UInt64 → String) : List Json → List Char
  | [] => []
  | [d] => print floatText d
  | d :: d' :: elements => print floatText d ++ ',' :: printElements floatText (d' :: elements)

def printMembers (floatText : UInt64 → String) : List (String × Json) → List Char
  | [] => []
  | [(name, d)] => printString name ++ ':' :: print floatText d
  | (name, d) :: member :: members =>
      printString name ++ ':' :: print floatText d ++ ',' :: printMembers floatText (member :: members)

end

/-! ### Sizes -/

/-- The number of bytes of a text. -/
def byteSize (text : List Char) : ℕ :=
  (text.map Char.utf8Size).sum

theorem length_utf8_ofList (text : List Char) :
  (Wire.utf8 (String.ofList text)).length = byteSize text
  := by
  simp [Wire.utf8, String.toUTF8_eq_toByteArray, List.utf8Encode, byteSize]

@[simp]
theorem byteSize_nil :
  byteSize [] = 0
  := rfl

@[simp]
theorem byteSize_cons (c : Char) (text : List Char) :
  byteSize (c :: text) = c.utf8Size + byteSize text
  := rfl

@[simp]
theorem byteSize_append (text text' : List Char) :
  byteSize (text ++ text') = byteSize text + byteSize text'
  := by
  rw [byteSize, List.map_append, List.sum_append]
  rfl

theorem byteSize_eq_length {text : List Char} (h : ∀ c ∈ text, c.utf8Size = 1) :
  byteSize text = text.length
  := by
  induction text with
  | nil => rfl
  | cons c text ih =>
      rw [byteSize_cons, h c List.mem_cons_self, ih fun c hc => h c (List.mem_cons_of_mem _ hc),
        List.length_cons, Nat.add_comm]

/-- A character of a string takes at most six bytes. -/
theorem byteSize_escape_le (c : Char) :
  byteSize (escape c) ≤ 6
  := by
  have hdigit : ∀ n < 16, (Nat.digitChar n).utf8Size = 1 := by decide
  have hc : c.utf8Size ≤ 4 := c.utf8Size_le_four
  simp only [escape]
  split_ifs with hquote hb hf hn hr ht hcontrol
  · have hone : c.utf8Size = 1 := by
      have hnat : c.toNat = c.val.toNat := rfl
      rw [Char.utf8Size_eq_one_iff, UInt32.le_iff_toNat_le]
      rcases hquote with h | h <;> rw [← hnat, h] <;> decide
    simp only [byteSize_cons, byteSize_nil, hone]
    decide
  · decide
  · decide
  · decide
  · decide
  · decide
  · simp only [byteSize_cons, byteSize_nil, hdigit _ (Nat.mod_lt _ (by omega)),
      hdigit (c.toNat / 16) (by omega)]
    decide
  · simp only [byteSize_cons, byteSize_nil]
    omega

/-- A string takes six bytes for each character at most, and two quotes. -/
theorem byteSize_printString_le (s : String) :
  byteSize (printString s) ≤ 6 * s.length + 2
  := by
  have hchars : ∀ text : List Char, byteSize (text.flatMap escape) ≤ 6 * text.length := by
    intro text
    induction text with
    | nil => rfl
    | cons c text ih =>
        have hc := byteSize_escape_le c
        rw [List.flatMap_cons, byteSize_append, List.length_cons]
        omega
  have h := hchars s.toList
  have hquote : (Char.ofNat 0x22).utf8Size = 1 := by decide
  simp only [printString, byteSize_cons, byteSize_append, byteSize_nil, hquote]
  rw [String.length_toList] at h
  omega

/-- A number of 64 bits takes twenty bytes at most. -/
theorem byteSize_posInt_le (floatText : UInt64 → String) (n : UInt64) :
  byteSize (printNumber floatText (.posInt n)) ≤ 20
  := by
  have hlength : n.toNat.repr.length ≤ 20 := by
    apply (Nat.length_repr_le_iff (by decide)).mpr
    have hlt : n.toNat < 2 ^ 64 := n.toNat_lt
    omega
  have hdigits : ∀ c ∈ n.toNat.repr.toList, c.utf8Size = 1 := by
    intro c hc
    rw [Nat.toList_repr] at hc
    have hdigit := Nat.isDigit_of_mem_toDigits (by decide) (by decide) hc
    simp only [Char.isDigit, Bool.and_eq_true, decide_eq_true_eq, ge_iff_le] at hdigit
    apply Char.utf8Size_eq_one_iff.mpr (UInt32.le_trans hdigit.2 (by decide))
  rw [printNumber, byteSize_eq_length hdigits, String.length_toList]
  exact hlength

mutual

/-- A bound of the size of a document. -/
def sizeBound (floatText : UInt64 → String) : Json → ℕ
  | null | bool _ => 5
  | number n => byteSize (printNumber floatText n)
  | string s => 6 * s.length + 2
  | array elements => sizeBoundElements floatText elements + 2
  | object members => sizeBoundMembers floatText members + 2

def sizeBoundElements (floatText : UInt64 → String) : List Json → ℕ
  | [] => 0
  | d :: elements => sizeBound floatText d + 1 + sizeBoundElements floatText elements

def sizeBoundMembers (floatText : UInt64 → String) : List (String × Json) → ℕ
  | [] => 0
  | (name, d) :: members =>
      6 * name.length + 4 + sizeBound floatText d + sizeBoundMembers floatText members

end

variable {floatText : UInt64 → String}

theorem byteSize_printElements_le {elements : List Json}
    (h : ∀ d ∈ elements, byteSize (print floatText d) ≤ sizeBound floatText d) :
  byteSize (printElements floatText elements) ≤ sizeBoundElements floatText elements
  := by
  induction elements with
  | nil => exact Nat.le_refl 0
  | cons d elements ih =>
      have hd := h d List.mem_cons_self
      have hrest := ih fun d' hd' => h d' (List.mem_cons_of_mem _ hd')
      have hcomma : (',' : Char).utf8Size = 1 := by decide
      cases elements with
      | nil =>
          simp only [printElements, sizeBoundElements]
          omega
      | cons d' elements =>
          simp only [printElements, byteSize_append, byteSize_cons, hcomma]
          rw [sizeBoundElements]
          omega

theorem byteSize_printMembers_le {members : List (String × Json)}
    (h : ∀ member ∈ members, byteSize (print floatText member.2) ≤ sizeBound floatText member.2) :
  byteSize (printMembers floatText members) ≤ sizeBoundMembers floatText members
  := by
  induction members with
  | nil => exact Nat.le_refl 0
  | cons member members ih =>
      obtain ⟨name, d⟩ := member
      have hname := byteSize_printString_le name
      have hd : byteSize (print floatText d) ≤ sizeBound floatText d :=
        h (name, d) List.mem_cons_self
      have hrest := ih fun member hmember => h member (List.mem_cons_of_mem _ hmember)
      have hcolon : (':' : Char).utf8Size = 1 := by decide
      have hcomma : (',' : Char).utf8Size = 1 := by decide
      cases members with
      | nil =>
          simp only [printMembers, byteSize_append, byteSize_cons, hcolon, sizeBoundMembers]
          omega
      | cons member members =>
          simp only [printMembers, byteSize_append, byteSize_cons, hcolon, hcomma]
          rw [sizeBoundMembers]
          omega

/-- The text of a document is not greater than its bound. -/
theorem byteSize_print_le (d : Json) :
  byteSize (print floatText d) ≤ sizeBound floatText d
  := by
  induction d with
  | null =>
      show byteSize "null".toList ≤ 5
      decide
  | bool b =>
      have hfalse : byteSize "false".toList ≤ 5 := by decide
      have htrue : byteSize "true".toList ≤ 5 := by decide
      cases b
      · exact hfalse
      · exact htrue
  | number n => exact Nat.le_refl _
  | string s => exact byteSize_printString_le s
  | array elements ih =>
      have h := byteSize_printElements_le ih
      have hopen : ('[' : Char).utf8Size = 1 := by decide
      have hclose : (']' : Char).utf8Size = 1 := by decide
      simp only [print, sizeBound, byteSize_append, byteSize_cons, byteSize_nil, hopen, hclose]
      omega
  | object members ih =>
      have h := byteSize_printMembers_le ih
      have hopen : (Char.ofNat 0x7b).utf8Size = 1 := by decide
      have hclose : (Char.ofNat 0x7d).utf8Size = 1 := by decide
      simp only [print, sizeBound, byteSize_append, byteSize_cons, byteSize_nil, hopen, hclose]
      omega

/-- Elements that are each bounded are bounded together. -/
theorem sizeBoundElements_le {elements : List Json} {bound : ℕ}
    (h : ∀ d ∈ elements, sizeBound floatText d ≤ bound) :
  sizeBoundElements floatText elements ≤ elements.length * (bound + 1)
  := by
  induction elements with
  | nil => exact Nat.zero_le _
  | cons d elements ih =>
      have hd := h d List.mem_cons_self
      have hrest := ih fun d' hd' => h d' (List.mem_cons_of_mem _ hd')
      rw [sizeBoundElements, List.length_cons, Nat.succ_mul]
      omega

/-- A bound of the sizes of the names of members. -/
def sizeBoundNames (names : List String) : ℕ :=
  (names.map fun name => 6 * name.length + 4).sum

/-- Members are bounded by their names and their values. -/
theorem sizeBoundMembers_eq (members : List (String × Json)) :
  sizeBoundMembers floatText members
    = sizeBoundNames (members.map Prod.fst)
      + (members.map fun member => sizeBound floatText member.2).sum
  := by
  induction members with
  | nil => rfl
  | cons member members ih =>
      obtain ⟨name, d⟩ := member
      rw [sizeBoundMembers, ih]
      simp only [sizeBoundNames, List.map_cons, List.sum_cons]
      omega

end Json
