import Mathlib

/-!
# Texts

White space, and the words between it.  The classes of characters beyond ASCII are given by a
table.
-/

/- What holds of the characters of a text is decided by going through the text, not through all of the
characters that there are. -/
attribute [instance (1100)] List.decidableBAll List.decidableBEx

instance lawfulBEq_text : LawfulBEq (List Char) :=
  inferInstance

/-- The character is white space. -/
def isWhitespace (c : Char) : Bool :=
  let n := c.toNat
  (0x09 ≤ n && n ≤ 0x0d) || n = 0x20 || n = 0x85 || n = 0xa0 || n = 0x1680
    || (0x2000 ≤ n && n ≤ 0x200a) || n = 0x2028 || n = 0x2029 || n = 0x202f || n = 0x205f
    || n = 0x3000

/-- The words of a text, which white space parts. -/
def splitWhitespace (text : List Char) : List (List Char) :=
  (text.splitOnP isWhitespace).filter (· ≠ [])

/-- The words with single spaces between them. -/
def joinWords (words : List (List Char)) : List Char :=
  [' '].intercalate words

/-- The text without the white space around it. -/
def trim (text : List Char) : List Char :=
  ((text.dropWhile isWhitespace).reverse.dropWhile isWhitespace).reverse

/-- A text is trimmed away exactly when it is white space. -/
theorem trim_eq_nil_iff {text : List Char} :
  trim text = [] ↔ ∀ c ∈ text, isWhitespace c = true
  := by
  rw [trim, List.reverse_eq_nil_iff, List.dropWhile_eq_nil_iff]
  constructor
  · intro h c hc
    by_cases hdrop : c ∈ text.dropWhile isWhitespace
    · apply h c (List.mem_reverse.mpr hdrop)
    · rw [← List.takeWhile_append_dropWhile (p := isWhitespace) (l := text), List.mem_append] at hc
      rcases hc with hc | hc
      · apply List.mem_takeWhile_imp hc
      · exact absurd hc hdrop
  · intro h c hc
    apply h c
    apply (List.dropWhile_sublist isWhitespace).mem (List.mem_reverse.mp hc)

/-- The elements of a stretch of a list are the ones at its places. -/
theorem mem_drop_take_iff {α : Type*} {l : List α} {start stop : ℕ} {a : α} :
  a ∈ (l.take stop).drop start ↔ ∃ i, start ≤ i ∧ i < stop ∧ l[i]? = some a
  := by
  rw [List.mem_iff_getElem?]
  constructor
  · rintro ⟨i, hi⟩
    rw [List.getElem?_drop, List.getElem?_take] at hi
    split_ifs at hi with hlt
    exact ⟨start + i, Nat.le_add_right start i, hlt, hi⟩
  · rintro ⟨i, hstart, hstop, hi⟩
    use i - start
    rw [List.getElem?_drop, Nat.add_sub_cancel' hstart, List.getElem?_take, if_pos hstop]
    exact hi

/-- The text without the characters at its end. -/
def trimEndMatches (p : Char → Bool) (text : List Char) : List Char :=
  (text.reverse.dropWhile p).reverse

/-- The text without the characters around it. -/
def trimMatches (p : Char → Bool) (text : List Char) : List Char :=
  trimEndMatches p (text.dropWhile p)

/-- A text whose last character stays has nothing to lose at its end. -/
theorem trimEndMatches_append {p : Char → Bool} {text others : List Char}
    (htext : ∀ c, text.getLast? = some c → p c = false) (hothers : ∀ c ∈ others, p c = true) :
  trimEndMatches p (text ++ others) = text
  := by
  have hdrop : text.reverse.dropWhile p = text.reverse := by
    rcases hreverse : text.reverse with _ | ⟨c, rest⟩
    · rfl
    · rw [List.dropWhile_cons_of_neg]
      rw [htext c (by rw [← List.head?_reverse, hreverse]; rfl)]
      exact Bool.false_ne_true
  rw [trimEndMatches, List.reverse_append, List.dropWhile_append_of_pos, hdrop,
    List.reverse_reverse]
  intro c hc
  exact hothers c (List.mem_reverse.mp hc)

/-- What stands at the end of a text is lost there. -/
theorem trimEndMatches_split (p : Char → Bool) (text : List Char) :
  ∃ others, text = trimEndMatches p text ++ others ∧ (∀ c ∈ others, p c = true)
    ∧ ∀ c, (trimEndMatches p text).getLast? = some c → p c = false
  := by
  use (text.reverse.takeWhile p).reverse
  refine ⟨?_, ?_, ?_⟩
  · rw [trimEndMatches, ← List.reverse_append, List.takeWhile_append_dropWhile,
      List.reverse_reverse]
  · intro c hc
    exact List.mem_takeWhile_imp (List.mem_reverse.mp hc)
  · intro c hc
    rw [trimEndMatches, List.getLast?_reverse] at hc
    have hhead := List.head?_dropWhile_not p text.reverse
    rw [hc] at hhead
    exact hhead

/-- The characters are taken up to the first other one. -/
theorem takeWhile_append_eq {p : Char → Bool} {text rest : List Char}
    (htext : ∀ c ∈ text, p c = true) (hrest : rest.head?.any p = false) :
  (text ++ rest).takeWhile p = text
  := by
  rw [List.takeWhile_append_of_pos htext]
  rcases rest with _ | ⟨c, rest⟩
  · simp
  · rw [List.takeWhile_cons_of_neg, List.append_nil]
    rw [show p c = false from hrest]
    exact Bool.false_ne_true

/-- What is left after the characters starts with another one. -/
theorem dropWhile_append_eq {p : Char → Bool} {text rest : List Char}
    (htext : ∀ c ∈ text, p c = true) (hrest : rest.head?.any p = false) :
  (text ++ rest).dropWhile p = rest
  := by
  rw [List.dropWhile_append_of_pos htext]
  rcases rest with _ | ⟨c, rest⟩
  · rfl
  · rw [List.dropWhile_cons_of_neg]
    rw [show p c = false from hrest]
    exact Bool.false_ne_true

/-- What stands between two of the characters that part a text is one of its parts. -/
theorem mem_splitOnP {p : Char → Bool} {before word after : List Char}
    (hword : ∀ c ∈ word, p c = false) (hbefore : before.getLast?.all p = true)
    (hafter : after.head?.all p = true) :
  word ∈ (before ++ word ++ after).splitOnP p
  := by
  have hfirst : word ∈ (word ++ after).splitOnP p := by
    rcases after with _ | ⟨c, after⟩
    · rw [List.append_nil, List.splitOnP_eq_singleton hword]
      apply List.mem_singleton_self
    · have hc : p c = true := hafter
      rw [List.splitOnP_append_cons _ _ hc, List.splitOnP_eq_singleton hword]
      apply List.mem_cons_self
  rcases before.eq_nil_or_concat with rfl | ⟨before, c, rfl⟩
  · exact hfirst
  · rw [List.concat_eq_append, List.getLast?_concat] at hbefore
    have hc : p c = true := hbefore
    rw [List.concat_eq_append, List.append_assoc, List.append_assoc, List.singleton_append,
      List.splitOnP_append_cons _ _ hc]
    apply List.mem_append_right _ hfirst

theorem joinWords_cons_cons (word next : List Char) (words : List (List Char)) :
  joinWords (word :: next :: words) = word ++ ' ' :: joinWords (next :: words)
  := by
  rw [joinWords, joinWords, List.intercalate_cons_cons, List.append_assoc]
  rfl

/-- Words with single spaces between them are the words of the text. -/
theorem splitWhitespace_joinWords {words : List (List Char)}
    (h : ∀ word ∈ words, word ≠ [] ∧ ∀ c ∈ word, isWhitespace c = false) :
  splitWhitespace (joinWords words) = words
  := by
  induction words with
  | nil => rfl
  | cons word words ih =>
      obtain ⟨hne, hplain⟩ := h word List.mem_cons_self
      have hrest := ih fun w hw => h w (List.mem_cons_of_mem word hw)
      cases words with
      | nil =>
          rw [joinWords, List.intercalate_singleton, splitWhitespace,
            List.splitOnP_eq_singleton hplain]
          simp [hne]
      | cons next words =>
          rw [splitWhitespace] at hrest
          rw [joinWords_cons_cons, splitWhitespace,
            List.splitOnP_append_cons_of_forall_mem hplain ' ' (by decide) _,
            List.filter_cons_of_pos (by simpa using hne), hrest]

/-- Between words there are only spaces. -/
theorem mem_joinWords {words : List (List Char)} {c : Char} (h : c ∈ joinWords words) :
  c = ' ' ∨ ∃ word ∈ words, c ∈ word
  := by
  induction words with
  | nil => cases h
  | cons word words ih =>
      cases words with
      | nil =>
          rw [joinWords, List.intercalate_singleton] at h
          exact Or.inr ⟨word, List.mem_cons_self, h⟩
      | cons next words =>
          rw [joinWords_cons_cons] at h
          rcases List.mem_append.mp h with h | h
          · exact Or.inr ⟨word, List.mem_cons_self, h⟩
          · rcases List.mem_cons.mp h with rfl | h
            · exact Or.inl rfl
            · rcases ih h with rfl | ⟨word', hword', hc⟩
              · exact Or.inl rfl
              · exact Or.inr ⟨word', List.mem_cons_of_mem word hword', hc⟩

/-- A text without white space at its ends is not trimmed. -/
theorem trim_eq_self {text : List Char} (hhead : ∀ c, text.head? = some c → isWhitespace c = false)
    (hlast : ∀ c, text.getLast? = some c → isWhitespace c = false) :
  trim text = text
  := by
  have hdrop : ∀ l : List Char, (∀ c, l.head? = some c → isWhitespace c = false) →
      l.dropWhile isWhitespace = l := by
    intro l hl
    rcases l with _ | ⟨c, l⟩
    · rfl
    · rw [List.dropWhile_cons_of_neg]
      rw [hl c rfl]
      exact Bool.false_ne_true
  rw [trim, hdrop text hhead, hdrop text.reverse, List.reverse_reverse]
  intro c hc
  rw [List.head?_reverse] at hc
  exact hlast c hc

/-- Words with single spaces between them have no white space around them. -/
theorem trim_joinWords {words : List (List Char)}
    (h : ∀ word ∈ words, word ≠ [] ∧ ∀ c ∈ word, isWhitespace c = false) :
  trim (joinWords words) = joinWords words
  := by
  have hends : (∀ c, (joinWords words).head? = some c → isWhitespace c = false)
      ∧ (∀ c, (joinWords words).getLast? = some c → isWhitespace c = false)
      ∧ (words ≠ [] → joinWords words ≠ []) := by
    induction words with
    | nil => exact ⟨nofun, nofun, fun hne => absurd rfl hne⟩
    | cons word words ih =>
        obtain ⟨hne, hplain⟩ := h word List.mem_cons_self
        obtain ⟨-, hlast, hrest⟩ := ih fun w hw => h w (List.mem_cons_of_mem word hw)
        cases words with
        | nil =>
            rw [joinWords, List.intercalate_singleton]
            exact ⟨fun c hc => hplain c (List.mem_of_mem_head? hc),
              fun c hc => hplain c (List.mem_of_getLast? hc), fun _ => hne⟩
        | cons next words =>
            rw [joinWords_cons_cons]
            refine ⟨?_, ?_, by simp⟩
            · intro c hc
              rw [List.head?_append_of_ne_nil _ hne] at hc
              exact hplain c (List.mem_of_mem_head? hc)
            · intro c hc
              apply hlast c
              rw [List.getLast?_append_cons, List.getLast?_cons_of_ne_nil] at hc
              · exact hc
              · exact hrest (by simp)
  exact trim_eq_self hends.1 hends.2.1

/-- A text loses what stands around it only. -/
theorem trimMatches_split (p : Char → Bool) (text : List Char) :
  ∃ before after, text = before ++ (trimMatches p text ++ after)
    ∧ (∀ c ∈ before, p c = true) ∧ (∀ c ∈ after, p c = true)
    ∧ (∀ c, (trimMatches p text).head? = some c → p c = false)
    ∧ ∀ c, (trimMatches p text).getLast? = some c → p c = false
  := by
  obtain ⟨after, hsplit, hafter, hlast⟩ := trimEndMatches_split p (text.dropWhile p)
  refine ⟨text.takeWhile p, after, ?_, fun c hc => List.mem_takeWhile_imp hc, hafter, ?_, hlast⟩
  · calc text = text.takeWhile p ++ text.dropWhile p := List.takeWhile_append_dropWhile.symm
      _ = text.takeWhile p ++ (trimMatches p text ++ after) := congrArg _ hsplit
  · intro c hc
    have hhead := List.head?_dropWhile_not p text
    rw [hsplit, show (trimEndMatches p (text.dropWhile p) ++ after).head? = some c from by
        rw [List.head?_append]
        exact Option.or_eq_some_iff.mpr (Or.inl hc)] at hhead
    exact hhead

/-- Nothing is left of a text of which nothing stays. -/
theorem trimMatches_eq_nil {p : Char → Bool} {text : List Char} (h : ∀ c ∈ text, p c = true) :
  trimMatches p text = []
  := by
  rw [trimMatches, List.dropWhile_eq_nil_iff.mpr h]
  rfl

/-- A text is trimmed of the white space around it only. -/
theorem trim_split (text : List Char) :
  ∃ before after, text = before ++ (trim text ++ after)
    ∧ (∀ c ∈ before, isWhitespace c = true) ∧ (∀ c ∈ after, isWhitespace c = true)
    ∧ (∀ c, (trim text).head? = some c → isWhitespace c = false)
    ∧ ∀ c, (trim text).getLast? = some c → isWhitespace c = false
  := trimMatches_split isWhitespace text

/-- What stands around a text is lost when its ends stay. -/
theorem trimMatches_append {p : Char → Bool} {before text after : List Char} (hne : text ≠ [])
    (hbefore : ∀ c ∈ before, p c = true) (hafter : ∀ c ∈ after, p c = true)
    (hhead : ∀ c, text.head? = some c → p c = false)
    (hlast : ∀ c, text.getLast? = some c → p c = false) :
  trimMatches p (before ++ (text ++ after)) = text
  := by
  rw [trimMatches, dropWhile_append_eq hbefore, trimEndMatches_append hlast hafter]
  obtain ⟨c, rest, rfl⟩ := List.exists_cons_of_ne_nil hne
  exact hhead c rfl

/-- White space around a text is trimmed away with the text's own. -/
theorem trim_append {before after : List Char} (hbefore : ∀ c ∈ before, isWhitespace c = true)
    (hafter : ∀ c ∈ after, isWhitespace c = true) (text : List Char) :
  trim (before ++ (text ++ after)) = trim text
  := by
  obtain ⟨first, last, hsplit, hfirst, hlast, hhead, htail⟩ := trim_split text
  have hfront : ∀ c ∈ before ++ first, isWhitespace c = true :=
    List.forall_mem_append.mpr ⟨hbefore, hfirst⟩
  have hback : ∀ c ∈ last ++ after, isWhitespace c = true :=
    List.forall_mem_append.mpr ⟨hlast, hafter⟩
  have heq : before ++ (text ++ after) = (before ++ first) ++ (trim text ++ (last ++ after)) := by
    conv => lhs; rw [hsplit]
    simp only [List.append_assoc]
  rw [heq]
  rcases eq_or_ne (trim text) [] with hnil | hne
  · rw [hnil, List.nil_append]
    apply trimMatches_eq_nil
    exact List.forall_mem_append.mpr ⟨hfront, hback⟩
  · apply trimMatches_append hne hfront hback hhead htail

/-- A text whose ends stay loses nothing. -/
theorem trimMatches_eq_self {p : Char → Bool} {text : List Char}
    (hhead : ∀ c, text.head? = some c → p c = false)
    (hlast : ∀ c, text.getLast? = some c → p c = false) :
  trimMatches p text = text
  := by
  rcases eq_or_ne text [] with rfl | hne
  · rfl
  · have happend := @trimMatches_append p [] text [] hne nofun nofun hhead hlast
    rw [List.append_nil] at happend
    exact happend

/-- What is not white space is part of a word. -/
theorem exists_mem_splitWhitespace {text : List Char} {c : Char} (hc : c ∈ text)
    (hplain : isWhitespace c = false) :
  ∃ word ∈ splitWhitespace text, c ∈ word
  := by
  obtain ⟨word, hword, hmem⟩ : ∃ word ∈ text.splitOnP isWhitespace, c ∈ word := by
    induction text with
    | nil => cases hc
    | cons d text ih =>
        rw [List.splitOnP_cons_eq_if_modifyHead]
        rcases List.mem_cons.mp hc with rfl | hc
        · rw [hplain]
          obtain ⟨first, rest, hfirst⟩ :=
            List.exists_cons_of_ne_nil (List.splitOnP_ne_nil isWhitespace text)
          rw [hfirst]
          exact ⟨_, List.mem_cons_self, List.mem_cons_self⟩
        · obtain ⟨word, hword, hmem⟩ := ih hc
          split_ifs
          · exact ⟨word, List.mem_cons_of_mem [] hword, hmem⟩
          · rcases hsplit : text.splitOnP isWhitespace with _ | ⟨first, rest⟩
            · rw [hsplit] at hword
              cases hword
            · rw [hsplit] at hword
              rcases List.mem_cons.mp hword with rfl | hword
              · exact ⟨_, List.mem_cons_self, List.mem_cons_of_mem d hmem⟩
              · exact ⟨word, List.mem_cons_of_mem _ hword, hmem⟩
  refine ⟨word, List.mem_filter.mpr ⟨hword, ?_⟩, hmem⟩
  rw [decide_eq_true_iff]
  rintro rfl
  cases hmem

/-- A word and a space begin a text of this word and others. -/
theorem splitWhitespace_cons {word : List Char} (hne : word ≠ [])
    (hword : ∀ c ∈ word, isWhitespace c = false) (rest : List Char) :
  splitWhitespace (word ++ ' ' :: rest) = word :: splitWhitespace rest
  := by
  rw [splitWhitespace, List.splitOnP_append_cons_of_forall_mem hword ' ' (by decide),
    List.filter_cons_of_pos (by simpa using hne), splitWhitespace]

/-- What stands before the first of the characters, and after it. -/
def splitOnce (c : Char) (text : List Char) : Option (List Char × List Char) :=
  match text.dropWhile (· ≠ c) with
  | [] => none
  | _ :: rest => some (text.takeWhile (· ≠ c), rest)

/-- The text with small letters in place of the capital ones of ASCII. -/
def toAsciiLowercase (text : List Char) : List Char :=
  text.map Char.toLower

/-- Letters and digits are characters of ASCII. -/
theorem toNat_lt_of_isAlphanum {c : Char} (h : c.isAlphanum = true) :
  c.toNat < 128
  := by
  simp only [Char.isAlphanum, Char.isAlpha, Char.isUpper, Char.isLower, Char.isDigit,
    Bool.or_eq_true, Bool.and_eq_true, decide_eq_true_eq, UInt32.le_iff_toNat_le, ge_iff_le] at h
  have hnat : c.toNat = c.val.toNat := rfl
  have hupper : 'Z'.val.toNat = 90 := rfl
  have hlower : 'z'.val.toNat = 122 := rfl
  have hdigit : '9'.val.toNat = 57 := rfl
  omega

/-- What holds of the first 128 characters holds of those of ASCII. -/
theorem forall_ascii {P : Char → Prop} (h : ∀ n : Fin 128, P (Char.ofNat n)) {c : Char}
    (hc : c.toNat < 128) :
  P c
  := by
  have hofNat := h ⟨c.toNat, hc⟩
  rw [Char.ofNat_toNat] at hofNat
  exact hofNat

/-- No letter or digit is white space. -/
theorem isWhitespace_of_isAlphanum {c : Char} (h : c.isAlphanum = true) :
  isWhitespace c = false
  := by
  apply forall_ascii (P := fun c => c.isAlphanum = true → isWhitespace c = false) _
    (toNat_lt_of_isAlphanum h) h
  decide

/-- Only letters have small ones in their place. -/
theorem isAlpha_of_isLower_toLower {c : Char} (h : c.toLower.isLower = true) :
  c.isAlpha = true
  := by
  rw [Char.toLower] at h
  rw [Char.isAlpha, Bool.or_eq_true]
  split at h
  · rename_i hupper
    left
    simpa [Char.isUpper] using hupper
  · exact Or.inr h

/-- Only letters are changed, and they become letters. -/
theorem toLower_eq_or (c : Char) :
  c.toLower = c ∨ c.isAlpha = true ∧ c.toLower.isAlpha = true
  := by
  rw [Char.toLower]
  split
  · rename_i hupper
    right
    have hnat : c.toNat = c.val.toNat := rfl
    obtain ⟨hfrom, hto⟩ := hupper
    rw [ge_iff_le, UInt32.le_iff_toNat_le] at hfrom
    rw [UInt32.le_iff_toNat_le] at hto
    have hA : 'A'.val.toNat = 65 := rfl
    have hZ : 'Z'.val.toNat = 90 := rfl
    constructor
    · simp only [Char.isAlpha, Char.isUpper, Bool.or_eq_true, decide_eq_true_eq, ge_iff_le,
        UInt32.le_iff_toNat_le]
      exact Or.inl ⟨hfrom, hto⟩
    · have hsum : (c.val + ('a'.val - 'A'.val)).toNat = c.val.toNat + 32 := by
        rw [UInt32.toNat_add, show ('a'.val - 'A'.val).toNat = 32 from rfl]
        omega
      simp only [Char.isAlpha, Char.isLower, Bool.or_eq_true, Bool.and_eq_true, decide_eq_true_eq,
        ge_iff_le, UInt32.le_iff_toNat_le, hsum]
      right
      have ha : 'a'.val.toNat = 97 := rfl
      have hz : 'z'.val.toNat = 122 := rfl
      omega
  · exact Or.inl rfl

theorem toLower_toLower (c : Char) :
  c.toLower.toLower = c.toLower
  := by
  rcases toLower_eq_or c with heq | ⟨halpha, -⟩
  · rw [heq, heq]
  · have hascii : c.toNat < 128 :=
      toNat_lt_of_isAlphanum (by rw [Char.isAlphanum, halpha, Bool.true_or])
    apply forall_ascii (P := fun c => c.toLower.toLower = c.toLower) _ hascii
    decide

theorem toAsciiLowercase_toAsciiLowercase (text : List Char) :
  toAsciiLowercase (toAsciiLowercase text) = toAsciiLowercase text
  := by
  rw [toAsciiLowercase, toAsciiLowercase, List.map_map]
  apply List.map_congr_left
  intro c _
  apply toLower_toLower

/-- Digits are no letters, and they have no small ones. -/
theorem toLower_of_isDigit {c : Char} (h : c.isDigit = true) :
  c.toLower = c
  := by
  rcases toLower_eq_or c with hsame | ⟨halpha, -⟩
  · exact hsame
  · simp only [Char.isAlpha, Char.isUpper, Char.isLower, Char.isDigit, Bool.or_eq_true,
      Bool.and_eq_true, decide_eq_true_eq, UInt32.le_iff_toNat_le, ge_iff_le] at h halpha
    have hupper : 'A'.val.toNat = 65 := rfl
    have hlower : 'a'.val.toNat = 97 := rfl
    have hdigit : '9'.val.toNat = 57 := rfl
    omega

/-- What has no letter in its place is itself none. -/
theorem eq_of_toLower_eq {c d : Char} (hd : d.isAlpha = false) (h : c.toLower = d) :
  c = d
  := by
  rcases toLower_eq_or c with hsame | ⟨-, halpha⟩
  · rw [← hsame, h]
  · rw [h, hd] at halpha
    cases halpha

/-- A class of characters with all letters has a character when it has its small one. -/
theorem class_toLower {p : Char → Bool} (hp : ∀ c : Char, c.isAlpha = true → p c = true) (c : Char) :
  p c.toLower = p c
  := by
  rcases toLower_eq_or c with heq | ⟨halpha, hlower⟩
  · rw [heq]
  · rw [hp c halpha, hp _ hlower]

/-- A text is of a class with all letters when it is one that is, but for capital letters. -/
theorem forall_of_toAsciiLowercase_eq {p : Char → Bool}
    (hp : ∀ c : Char, c.isAlpha = true → p c = true) {text text' : List Char}
    (heq : toAsciiLowercase text = toAsciiLowercase text') (h : ∀ c ∈ text', p c = true) :
  ∀ c ∈ text, p c = true
  := by
  intro c hc
  have hmem : c.toLower ∈ toAsciiLowercase text := List.mem_map_of_mem hc
  rw [heq] at hmem
  obtain ⟨c', hc', hlower⟩ := List.mem_map.mp hmem
  rw [← class_toLower hp, ← hlower, class_toLower hp]
  exact h c' hc'

/-- The classes of all characters; those of ASCII are as they should be. -/
structure CharTable where
  isAlphabetic : Char → Bool
  isNumeric : Char → Bool
  isUppercase : Char → Bool
  isAlphabetic_ascii : ∀ c : Char, c.toNat < 128 → isAlphabetic c = c.isAlpha
  isNumeric_ascii : ∀ c : Char, c.toNat < 128 → isNumeric c = c.isDigit
  isUppercase_ascii : ∀ c : Char, c.toNat < 128 → isUppercase c = c.isUpper

namespace CharTable

/-- The table of ASCII alone. -/
def ascii : CharTable where
  isAlphabetic := Char.isAlpha
  isNumeric := Char.isDigit
  isUppercase := Char.isUpper
  isAlphabetic_ascii := fun _ _ => rfl
  isNumeric_ascii := fun _ _ => rfl
  isUppercase_ascii := fun _ _ => rfl

variable (T : CharTable)

def isAlphanumeric (c : Char) : Bool :=
  T.isAlphabetic c || T.isNumeric c

theorem isAlphanumeric_ascii {c : Char} (h : c.toNat < 128) :
  T.isAlphanumeric c = c.isAlphanum
  := by
  rw [isAlphanumeric, T.isAlphabetic_ascii c h, T.isNumeric_ascii c h, Char.isAlphanum]

end CharTable

/-! ### Delimiters -/

/-- What stands before the first place where the two characters follow one another, and after it. -/
def breakOn (a b : Char) : List Char → Option (List Char × List Char)
  | c :: d :: text =>
      if c = a ∧ d = b then some ([], text)
      else (breakOn a b (d :: text)).map fun parts => (c :: parts.1, parts.2)
  | _ => none

/-- The two characters follow one another nowhere in the text. -/
def Apart (a b : Char) (text : List Char) : Prop :=
  text.IsChain fun c d => ¬(c = a ∧ d = b)

theorem Apart.of_forall_ne_left {a b : Char} {text : List Char} (h : ∀ c ∈ text, c ≠ a) :
  Apart a b text
  := by
  induction text with
  | nil => exact .nil
  | cons c text ih =>
      cases text with
      | nil => exact .singleton c
      | cons d text =>
          apply List.isChain_cons_cons.mpr
          exact ⟨fun hboth => h c List.mem_cons_self hboth.1,
            ih fun e he => h e (List.mem_cons_of_mem c he)⟩

theorem Apart.of_forall_ne_right {a b : Char} {text : List Char} (h : ∀ c ∈ text, c ≠ b) :
  Apart a b text
  := by
  induction text with
  | nil => exact .nil
  | cons c text ih =>
      cases text with
      | nil => exact .singleton c
      | cons d text =>
          apply List.isChain_cons_cons.mpr
          exact ⟨fun hboth => h d (by simp) hboth.2, ih fun e he => h e (List.mem_cons_of_mem c he)⟩

theorem apart_append {a b : Char} {text text' : List Char} :
  Apart a b (text ++ text') ↔ Apart a b text ∧ Apart a b text'
    ∧ ¬(text.getLast? = some a ∧ text'.head? = some b)
  := by
  rw [Apart, List.isChain_append]
  apply and_congr Iff.rfl
  apply and_congr Iff.rfl
  constructor
  · rintro h ⟨ha, hb⟩
    exact h a ha b hb ⟨rfl, rfl⟩
  · rintro h c hc d hd ⟨rfl, rfl⟩
    exact h ⟨hc, hd⟩

theorem breakOn_eq_none {a b : Char} {text : List Char} (h : Apart a b text) :
  breakOn a b text = none
  := by
  induction text with
  | nil => rfl
  | cons c text ih =>
      cases text with
      | nil => rfl
      | cons d text =>
          obtain ⟨hne, hrest⟩ := List.isChain_cons_cons.mp h
          rw [breakOn, if_neg hne, ih hrest, Option.map_none]

/-- The text is parted where the two characters stand, if they do not stand before it. -/
theorem breakOn_append {a b : Char} {before : List Char} (h : Apart a b (before ++ [a]))
    (after : List Char) :
  breakOn a b (before ++ a :: b :: after) = some (before, after)
  := by
  induction before with
  | nil => rw [List.nil_append, breakOn, if_pos ⟨rfl, rfl⟩]
  | cons c before ih =>
      cases before with
      | nil =>
          obtain ⟨hne, hrest⟩ := List.isChain_cons_cons.mp h
          have hparts := ih hrest
          rw [List.nil_append] at hparts
          rw [List.cons_append, List.nil_append, breakOn, if_neg hne, hparts, Option.map_some]
      | cons d before =>
          obtain ⟨hne, hrest⟩ := List.isChain_cons_cons.mp h
          have hparts := ih hrest
          rw [List.cons_append] at hparts
          rw [List.cons_append, List.cons_append, breakOn, if_neg hne, hparts, Option.map_some]

/-- The parts of a text make it. -/
theorem eq_of_breakOn {a b : Char} {text before after : List Char}
    (h : breakOn a b text = some (before, after)) :
  text = before ++ a :: b :: after
  := by
  induction text using breakOn.induct (a := a) (b := b) generalizing before with
  | case1 c d text hboth =>
      obtain ⟨rfl, rfl⟩ := hboth
      rw [breakOn, if_pos ⟨rfl, rfl⟩] at h
      cases h
      rfl
  | case2 c d text hne ih =>
      rw [breakOn, if_neg hne] at h
      obtain ⟨⟨before', after'⟩, hparts, heq⟩ := Option.map_eq_some_iff.mp h
      cases heq
      rw [ih hparts, List.cons_append]
  | case3 text hshort =>
      rw [breakOn.eq_2 _ _ _ hshort] at h
      cases h
