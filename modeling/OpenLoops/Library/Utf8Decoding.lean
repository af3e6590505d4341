import OpenLoops.Library.Utf8

/-!
# Texts from bytes

Bytes are read one character after the other.  Bytes that are no character end a strict reading; a
lossy one puts the replacement character for as many of them as could have begun a character.
-/

namespace Utf8

/-- The character that the bytes begin with. -/
def decodeChar? (bs : List UInt8) : Option Char :=
  bs.toByteArray.utf8DecodeChar? 0

theorem decodeChar?_append (c : Char) (bs : List UInt8) :
  decodeChar? (String.utf8EncodeChar c ++ bs) = some c
  := by
  rw [decodeChar?, List.toByteArray_append]
  exact ByteArray.utf8DecodeChar?_utf8EncodeChar_append

/-- The bytes begin with a character when its bytes are their first ones. -/
theorem exists_of_decodeChar? {bs : List UInt8} {c : Char} (h : decodeChar? bs = some c) :
  ∃ rest, bs = String.utf8EncodeChar c ++ rest
  := by
  obtain ⟨rest, hrest⟩ := ByteArray.exists_of_utf8DecodeChar?_eq_some h
  use rest.data.toList
  have hlists := congrArg (fun a => a.data.toList) hrest
  simpa using hlists

/-- The text of the bytes, if they are one. -/
def decode? : List UInt8 → Option (List Char)
  | [] => some []
  | b :: bs =>
      match decodeChar? (b :: bs) with
      | none => none
      | some c => (decode? ((b :: bs).drop c.utf8Size)).map (c :: ·)
  termination_by bs => bs.length
  decreasing_by
    have hpos := c.utf8Size_pos
    simp only [List.length_drop, List.length_cons]
    omega

/-- The byte is one of those that continue a character. -/
def isContinuation (b : UInt8) : Bool :=
  0x80 ≤ b && b ≤ 0xbf

/-- The byte may be the second one of a character of three bytes or more. -/
def mayFollow (first second : UInt8) : Bool :=
  if first = 0xe0 then 0xa0 ≤ second && second ≤ 0xbf
  else if first = 0xed then 0x80 ≤ second && second ≤ 0x9f
  else if first = 0xf0 then 0x90 ≤ second && second ≤ 0xbf
  else if first = 0xf4 then 0x80 ≤ second && second ≤ 0x8f
  else isContinuation second

/-- How many bytes a character that the byte begins has between the first one and the last. -/
def innerBytes (first : UInt8) : ℕ :=
  if 0xe0 ≤ first && first ≤ 0xef then 1 else if 0xf0 ≤ first && first ≤ 0xf4 then 2 else 0

/-- How many bytes after the first one are replaced with it, when they begin no character. -/
def brokenTail (first : UInt8) : List UInt8 → ℕ
  | [] => 0
  | second :: bs =>
      if mayFollow first second then
        min (innerBytes first) (1 + (bs.takeWhile isContinuation).length)
      else 0

/-- The text of the bytes, with replacements for what is none. -/
def lossy : List UInt8 → List Char
  | [] => []
  | b :: bs =>
      match decodeChar? (b :: bs) with
      | none => '\uFFFD' :: lossy (bs.drop (brokenTail b bs))
      | some c => c :: lossy ((b :: bs).drop c.utf8Size)
  termination_by bs => bs.length
  decreasing_by
    · simp only [List.length_drop, List.length_cons]
      omega
    · have hpos := c.utf8Size_pos
      simp only [List.length_drop, List.length_cons]
      omega

/-! ### Texts and their bytes -/

theorem bytes_cons_ne_nil (c : Char) (text : List Char) :
  ∃ b bs, bytes (c :: text) = b :: bs ∧ b :: bs = String.utf8EncodeChar c ++ bytes text
  := by
  cases hbytes : bytes (c :: text) with
  | nil =>
      have hlength := length_bytes_cons c text
      have hpos := c.utf8Size_pos
      rw [hbytes, List.length_nil] at hlength
      omega
  | cons b bs =>
      refine ⟨b, bs, rfl, ?_⟩
      rw [← hbytes, bytes_cons]

/-- The bytes of a text are read back. -/
theorem decode?_bytes (text : List Char) :
  decode? (bytes text) = some text
  := by
  induction text with
  | nil => rw [bytes, List.flatMap_nil, decode?]
  | cons c text ih =>
      obtain ⟨b, bs, hbytes, hsplit⟩ := bytes_cons_ne_nil c text
      rw [hbytes, decode?, hsplit, decodeChar?_append]
      simp only
      rw [← String.length_utf8EncodeChar, List.drop_left, ih, Option.map_some]

/-- Bytes that are read strictly are those of the text. -/
theorem eq_bytes_of_decode? {bs : List UInt8} {text : List Char} (h : decode? bs = some text) :
  bs = bytes text
  := by
  induction bs using decode?.induct generalizing text with
  | case1 =>
      rw [decode?, Option.some.injEq] at h
      rw [← h]
      rfl
  | case2 b bs hnone =>
      rw [decode?, hnone] at h
      cases h
  | case3 b bs c hchar ih =>
      rw [decode?, hchar] at h
      obtain ⟨text', htext', rfl⟩ := Option.map_eq_some_iff.mp h
      obtain ⟨rest, hrest⟩ := exists_of_decodeChar? hchar
      have hdrop : (b :: bs).drop c.utf8Size = rest := by
        rw [hrest, ← String.length_utf8EncodeChar, List.drop_left]
      rw [bytes_cons, hrest, ← ih htext', hdrop]

theorem decode?_eq_some_iff {bs : List UInt8} {text : List Char} :
  decode? bs = some text ↔ bs = bytes text
  := by
  constructor
  · exact eq_bytes_of_decode?
  · rintro rfl
    exact decode?_bytes text

/-- Bytes around a character of ASCII are read on their own. -/
theorem decode?_append_cons {c : Char} (hc : c.toNat < 128) (bs bs' : List UInt8) :
  decode? (bs ++ UInt8.ofNat c.toNat :: bs')
    = (decode? bs).bind fun text => (decode? bs').map fun text' => text ++ c :: text'
  := by
  apply Option.ext
  intro text
  simp only [Option.bind_eq_some_iff, Option.map_eq_some_iff, decode?_eq_some_iff]
  constructor
  · intro h
    have hbyte : (bytes text)[bs.length]? = some (UInt8.ofNat c.toNat) := by
      rw [← h, List.getElem?_append_right (Nat.le_refl _), Nat.sub_self]
      rfl
    obtain ⟨before, after, rfl, hlength⟩ := exists_of_getElem?_bytes hc hbyte
    rw [bytes_append, bytes_cons, utf8EncodeChar_ascii hc, List.singleton_append] at h
    obtain ⟨hbefore, hafter⟩ := List.append_inj h hlength.symm
    exact ⟨before, hbefore, after, (List.cons.inj hafter).2, rfl⟩
  · rintro ⟨before, rfl, after, rfl, rfl⟩
    rw [bytes_append, bytes_cons, utf8EncodeChar_ascii hc, List.singleton_append]

theorem lossy_bytes (text : List Char) :
  lossy (bytes text) = text
  := by
  induction text with
  | nil => rw [bytes, List.flatMap_nil, lossy]
  | cons c text ih =>
      obtain ⟨b, bs, hbytes, hsplit⟩ := bytes_cons_ne_nil c text
      rw [hbytes, lossy, hsplit, decodeChar?_append]
      simp only
      rw [← String.length_utf8EncodeChar, List.drop_left, ih]

/-! ### ASCII -/

def isAsciiByte (b : UInt8) : Bool :=
  b < 128

def isAsciiChar (c : Char) : Bool :=
  c.toNat < 128

/-- A byte of ASCII is a character. -/
theorem decodeChar?_ascii {b : UInt8} (hb : isAsciiByte b = true) (bs : List UInt8) :
  ∃ c, decodeChar? (b :: bs) = some c
  := by
  have hlt : b.toNat < 128 := by simpa [isAsciiByte, UInt8.lt_iff_toNat_lt] using hb
  have hchar : (Char.ofNat b.toNat).toNat = b.toNat := by
    rw [Char.ofNat, dif_pos (Or.inl (by omega))]
    rfl
  use Char.ofNat b.toNat
  have henc : String.utf8EncodeChar (Char.ofNat b.toNat) = [b] := by
    rw [utf8EncodeChar_ascii (by omega), hchar, UInt8.ofNat_toNat]
  have happend := decodeChar?_append (Char.ofNat b.toNat) bs
  rwa [henc, List.singleton_append] at happend

theorem countP_utf8EncodeChar (c : Char) :
  (String.utf8EncodeChar c).countP isAsciiByte = [c].countP isAsciiChar
  := by
  by_cases hc : c.toNat < 128
  · rw [utf8EncodeChar_ascii hc]
    have hb : isAsciiByte (UInt8.ofNat c.toNat) = true := by
      simp only [isAsciiByte, UInt8.lt_iff_toNat_lt, decide_eq_true_eq, UInt8.toNat_ofNat']
      exact Nat.lt_of_le_of_lt (Nat.mod_le c.toNat (2 ^ 8)) hc
    simp [hb, isAsciiChar, hc]
  · have hnone : (String.utf8EncodeChar c).countP isAsciiByte = 0 := by
      apply List.countP_eq_zero.mpr
      intro b hb
      have hle := le_of_mem_utf8EncodeChar (Nat.le_of_not_lt hc) hb
      simp only [isAsciiByte, UInt8.lt_iff_toNat_lt, decide_eq_true_eq]
      exact Nat.not_lt.mpr hle
    rw [hnone]
    simp [isAsciiChar, hc]

theorem not_ascii_of_isContinuation {b : UInt8} (h : isContinuation b = true) :
  isAsciiByte b = false
  := by
  simp only [isContinuation, Bool.and_eq_true, decide_eq_true_eq, UInt8.le_iff_toNat_le] at h
  simp only [isAsciiByte, UInt8.lt_iff_toNat_lt, decide_eq_false_iff_not]
  exact Nat.not_lt.mpr h.1

theorem isContinuation_of_mayFollow {first second : UInt8} (h : mayFollow first second = true) :
  isContinuation second = true
  := by
  rw [mayFollow] at h
  simp only [isContinuation, Bool.and_eq_true, decide_eq_true_eq, UInt8.le_iff_toNat_le] at h ⊢
  split_ifs at h
  all_goals
    simp only [Bool.and_eq_true, decide_eq_true_eq, UInt8.reduceToNat] at h ⊢
    omega

/-- The bytes that are replaced with the first one are not of ASCII. -/
theorem countP_take_brokenTail (b : UInt8) (bs : List UInt8) :
  (bs.take (brokenTail b bs)).countP isAsciiByte = 0
  := by
  apply List.countP_eq_zero.mpr
  intro b' hmem
  rw [Bool.not_eq_true]
  apply not_ascii_of_isContinuation
  cases bs with
  | nil => cases List.mem_of_mem_take hmem
  | cons second bs =>
      rw [brokenTail] at hmem
      split_ifs at hmem with hfollow
      · have htake : b' ∈ second :: bs.takeWhile isContinuation := by
          have hsub := List.take_subset_take_left (second :: bs) (Nat.min_le_right _ _) hmem
          rw [Nat.add_comm, List.take_succ_cons] at hsub
          rwa [List.prefix_iff_eq_take.mp (List.takeWhile_prefix isContinuation)]
        rcases List.mem_cons.mp htake with rfl | htail
        · exact isContinuation_of_mayFollow hfollow
        · exact List.all_eq_true.mp List.all_takeWhile b' htail
      · cases hmem

/-- A lossy reading keeps every byte of ASCII, and makes none. -/
theorem countP_lossy (bs : List UInt8) :
  (lossy bs).countP isAsciiChar = bs.countP isAsciiByte
  := by
  induction bs using lossy.induct with
  | case1 => rw [lossy, List.countP_nil, List.countP_nil]
  | case2 b bs hnone ih =>
      have hb : isAsciiByte b = false := by
        rw [← Bool.not_eq_true]
        intro hb
        obtain ⟨c, hchar⟩ := decodeChar?_ascii hb bs
        rw [hnone] at hchar
        cases hchar
      have hsplit := congrArg (List.countP isAsciiByte) (List.take_append_drop (brokenTail b bs) bs)
      rw [List.countP_append, countP_take_brokenTail, Nat.zero_add] at hsplit
      rw [lossy, hnone]
      simp only
      rw [List.countP_cons_of_neg (by decide), ih, hsplit, List.countP_cons_of_neg (by simp [hb])]
  | case3 b bs c hchar ih =>
      obtain ⟨rest, hrest⟩ := exists_of_decodeChar? hchar
      have hdrop : (b :: bs).drop c.utf8Size = rest := by
        rw [hrest, ← String.length_utf8EncodeChar, List.drop_left]
      rw [lossy, hchar]
      simp only
      rw [hdrop] at ih ⊢
      rw [hrest, List.countP_append, countP_utf8EncodeChar, ← ih, ← List.countP_append,
        List.singleton_append]

end Utf8
