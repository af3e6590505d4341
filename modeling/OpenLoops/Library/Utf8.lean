import Mathlib.Data.List.Basic
import Mathlib.Tactic.Common

/-!
# Texts in bytes

The bytes of a text, one character after the other, and the parts of a text between two offsets in
bytes.  An offset inside of a character parts nothing.  A byte below 128 is a whole character.
-/

namespace Utf8

/-- The bytes of a text. -/
def bytes (text : List Char) : List UInt8 :=
  text.flatMap String.utf8EncodeChar

/-- The text from an offset on, unless the offset is inside of a character or beyond the end. -/
def dropBytes : List Char → ℕ → Option (List Char)
  | text, 0 => some text
  | [], _ + 1 => none
  | c :: text, n + 1 =>
      if c.utf8Size ≤ n + 1 then dropBytes text (n + 1 - c.utf8Size) else none

/-- The text up to an offset, unless the offset is inside of a character or beyond the end. -/
def takeBytes : List Char → ℕ → Option (List Char)
  | _, 0 => some []
  | [], _ + 1 => none
  | c :: text, n + 1 =>
      if c.utf8Size ≤ n + 1 then (takeBytes text (n + 1 - c.utf8Size)).map (c :: ·) else none

/-- The text between two offsets. -/
def slice (text : List Char) (start stop : ℕ) : Option (List Char) :=
  if start ≤ stop then (dropBytes text start).bind (takeBytes · (stop - start)) else none

/-! ### Bytes -/

theorem bytes_append (text text' : List Char) :
  bytes (text ++ text') = bytes text ++ bytes text'
  := List.flatMap_append

theorem bytes_cons (c : Char) (text : List Char) :
  bytes (c :: text) = String.utf8EncodeChar c ++ bytes text
  := List.flatMap_cons

theorem length_bytes_cons (c : Char) (text : List Char) :
  (bytes (c :: text)).length = c.utf8Size + (bytes text).length
  := by
  rw [bytes_cons, List.length_append, String.length_utf8EncodeChar]

/-- A character of ASCII is its own byte. -/
theorem utf8EncodeChar_ascii {c : Char} (h : c.toNat < 128) :
  String.utf8EncodeChar c = [UInt8.ofNat c.toNat]
  := by
  rw [String.utf8EncodeChar]
  apply if_pos
  apply Nat.le_of_lt_succ h

/-- The bytes of other characters are not below 128. -/
theorem le_of_mem_utf8EncodeChar {c : Char} (h : 128 ≤ c.toNat) {b : UInt8}
    (hb : b ∈ String.utf8EncodeChar c) :
  128 ≤ b.toNat
  := by
  have hlt : ¬ c.val.toNat ≤ 0x7f := Nat.not_le_of_lt h
  rw [String.utf8EncodeChar, if_neg hlt] at hb
  split_ifs at hb
  all_goals
    simp only [List.mem_cons, List.not_mem_nil, or_false] at hb
    rcases hb with rfl | rfl | rfl | rfl <;> rw [UInt8.toNat_ofNat'] <;> omega

theorem utf8Size_ascii {c : Char} (h : c.toNat < 128) :
  c.utf8Size = 1
  := by
  rw [← String.length_utf8EncodeChar, utf8EncodeChar_ascii h]
  rfl

/-- A text of ASCII has as many bytes as characters. -/
theorem length_bytes_ascii {text : List Char} (h : ∀ c ∈ text, c.toNat < 128) :
  (bytes text).length = text.length
  := by
  induction text with
  | nil => rfl
  | cons c text ih =>
      rw [length_bytes_cons, utf8Size_ascii (h c List.mem_cons_self),
        ih fun d hd => h d (List.mem_cons_of_mem c hd), List.length_cons]
      omega

/-- A text has bytes when it has characters. -/
theorem length_bytes_pos {text : List Char} :
  0 < (bytes text).length ↔ text ≠ []
  := by
  rcases text with _ | ⟨c, text⟩
  · exact iff_of_false (by decide) (by simp)
  · rw [length_bytes_cons]
    have hpos := c.utf8Size_pos
    exact iff_of_true (by omega) (by simp)

/-- A byte below 128 is a character of the text. -/
theorem exists_of_getElem?_bytes {text : List Char} {n : ℕ} {c : Char} (hc : c.toNat < 128)
    (h : (bytes text)[n]? = some (UInt8.ofNat c.toNat)) :
  ∃ before after, text = before ++ c :: after ∧ (bytes before).length = n
  := by
  induction text generalizing n with
  | nil => cases h
  | cons d text ih =>
      rw [bytes_cons] at h
      by_cases hn : n < d.utf8Size
      · -- the byte is one of the first character
        rw [List.getElem?_append_left (by rwa [String.length_utf8EncodeChar])] at h
        have hmem := List.mem_of_getElem? h
        have hd : d.toNat < 128 := by
          by_contra hd
          have hle := le_of_mem_utf8EncodeChar (Nat.not_lt.mp hd) hmem
          rw [UInt8.toNat_ofNat'] at hle
          omega
        rw [utf8EncodeChar_ascii hd, List.mem_singleton] at hmem
        have hdc : d = c := by
          apply Char.toNat_inj.mp
          have hnat := congrArg UInt8.toNat hmem
          rw [UInt8.toNat_ofNat', UInt8.toNat_ofNat'] at hnat
          omega
        have hzero : n = 0 := by
          rw [utf8Size_ascii hd] at hn
          omega
        use [], text
        rw [hdc, hzero]
        exact ⟨rfl, rfl⟩
      · rw [List.getElem?_append_right (by rw [String.length_utf8EncodeChar]; omega),
          String.length_utf8EncodeChar] at h
        obtain ⟨before, after, rfl, hlength⟩ := ih h
        use d :: before, after, rfl
        rw [length_bytes_cons, hlength]
        omega

/-! ### Parts -/

/-- The offset after the bytes of a part is between characters. -/
theorem dropBytes_append (before text : List Char) :
  dropBytes (before ++ text) (bytes before).length = some text
  := by
  induction before with
  | nil =>
      cases text with
      | nil => rfl
      | cons c text => rfl
  | cons c before ih =>
      have hpos := c.utf8Size_pos
      obtain ⟨n, hn⟩ := Nat.exists_eq_succ_of_ne_zero
        (show (bytes (c :: before)).length ≠ 0 by rw [length_bytes_cons]; omega)
      have hrest := length_bytes_cons c before
      rw [hn, List.cons_append, dropBytes, if_pos (by omega)]
      rw [show n + 1 - c.utf8Size = (bytes before).length by omega]
      exact ih

theorem takeBytes_append (before text : List Char) :
  takeBytes (before ++ text) (bytes before).length = some before
  := by
  induction before with
  | nil =>
      cases text with
      | nil => rfl
      | cons c text => rfl
  | cons c before ih =>
      have hpos := c.utf8Size_pos
      obtain ⟨n, hn⟩ := Nat.exists_eq_succ_of_ne_zero
        (show (bytes (c :: before)).length ≠ 0 by rw [length_bytes_cons]; omega)
      have hrest := length_bytes_cons c before
      rw [hn, List.cons_append, takeBytes, if_pos (by omega)]
      rw [show n + 1 - c.utf8Size = (bytes before).length by omega, ih]
      rfl

/-- A part is between the offsets after what is before it and after it. -/
theorem slice_append (before part after : List Char) {start stop : ℕ}
    (hstart : start = (bytes before).length) (hstop : stop = start + (bytes part).length) :
  slice (before ++ (part ++ after)) start stop = some part
  := by
  rw [slice, if_pos (by omega), hstart, dropBytes_append, Option.bind_some,
    show stop - (bytes before).length = (bytes part).length by omega, takeBytes_append]

end Utf8
