import OpenLoops.Graph.Mime

/-!
# Reading encoded words

A text is written as encoded words when its bytes are cut into pieces and each piece is written in
base64 or with escapes.  The words are read back unless one of them begins with an escape: the sign
before it and the first sign of the escape are then taken for the end of the word.
-/

namespace Graph

namespace Mime

/-! ### Words -/

inductive WordCharset where
  | utf8
  | latin1
deriving DecidableEq

def WordCharset.name : WordCharset → String
  | .utf8 => "utf-8"
  | .latin1 => "iso-8859-1"

/-- The bytes of a text, if the character set has its characters. -/
def WordCharset.encode : WordCharset → List Char → Option (List UInt8)
  | .utf8, text => some (Utf8.bytes text)
  | .latin1, text =>
      if text.all fun c => c.toNat < 256 then some (text.map fun c => UInt8.ofNat c.toNat) else none

inductive WordEncoding where
  | base64
  | quoted
deriving DecidableEq

/-- The letters of the encodings, in both cases. -/
def WordEncoding.letters : WordEncoding → List Char
  | .base64 => ['B', 'b']
  | .quoted => ['Q', 'q']

/-- An encoded word: the name of the character set and the letter of the encoding as they are
written, the bytes that it stands for, and the white space that parts it from a word before it. -/
structure EncodedWord (charset : WordCharset) where
  label : List Char
  label_eq : toAsciiLowercase label = charset.name.toList
  encoding : WordEncoding
  letter : Char
  letter_mem : letter ∈ encoding.letters
  bytes : List UInt8
  gap : List Char
  gap_ne_nil : gap ≠ []
  gap_whitespace : ∀ c ∈ gap, isWhitespace c = true

/-- The character of base64 for one of base64url. -/
def toBase64 (c : Char) : Char :=
  if c = '-' then '+' else if c = '_' then '/' else c

/-- The bytes in base64, with padding. -/
def base64 (bytes : List UInt8) : List Char :=
  (base64urlChars bytes).map toBase64
    ++ List.replicate ((3 - bytes.length % 3) % 3) '='

/-- The byte is written as an escape. -/
def isEscaped (b : UInt8) : Bool :=
  b < 0x20 || 0x7e < b || b = 0x3d || b = 0x3f || b = 0x5f

/-- The text of a byte: an escape, an underscore for a space, or its own character. -/
def quotedByte (b : UInt8) : List Char :=
  if isEscaped b then ['=', hexDigit (b.toNat / 16), hexDigit (b.toNat % 16)]
  else if b = 0x20 then ['_']
  else [charOfByte b]

namespace EncodedWord

variable {charset : WordCharset}

def content (word : EncodedWord charset) : List Char :=
  match word.encoding with
  | .base64 => base64 word.bytes
  | .quoted => word.bytes.flatMap quotedByte

/-- What stands between the delimiters. -/
def inner (word : EncodedWord charset) : List Char :=
  word.label ++ '?' :: word.letter :: '?' :: word.content

def text (word : EncodedWord charset) : List Char :=
  '=' :: '?' :: word.inner ++ ['?', '=']

/-- The word is written with escapes, and begins with one. -/
def StartsWithEscape (word : EncodedWord charset) : Prop :=
  word.encoding = .quoted ∧ word.bytes.head?.any isEscaped = true

instance (word : EncodedWord charset) : Decidable word.StartsWithEscape :=
  inferInstanceAs (Decidable (_ ∧ _))

end EncodedWord

variable {charset : WordCharset}

/-- Words, each after white space. -/
def followingWords (words : List (EncodedWord charset)) : List Char :=
  words.flatMap fun word => word.gap ++ word.text

/-- Words with white space between them. -/
def encodedWords : List (EncodedWord charset) → List Char
  | [] => []
  | word :: words => word.text ++ followingWords words

/-! ### Bytes of words -/

theorem fromStrRadix16_hexDigits (b : UInt8) :
  fromStrRadix16 (hexDigit (b.toNat / 16)) (hexDigit (b.toNat % 16)) = some b
  := by
  have hall : ∀ n : Fin 256, fromStrRadix16 (hexDigit (n.val / 16)) (hexDigit (n.val % 16))
      = some (UInt8.ofNat n.val) := by decide +kernel
  have hb := hall ⟨b.toNat, b.toNat_lt⟩
  rwa [UInt8.ofNat_toNat] at hb

/-- Other characters than those with a meaning are read as they are. -/
theorem decodeQ_cons {c : Char} (hunderscore : c ≠ '_') (hequals : c ≠ '=') (text : List Char) :
  decodeQ (c :: text) = (decodeQ text).map (String.utf8EncodeChar c ++ ·)
  := by
  rw [decodeQ.eq_def]
  split <;> simp_all

theorem charOfByte_toNat (b : UInt8) :
  (charOfByte b).toNat = b.toNat
  := by
  have hlt := b.toNat_lt
  rw [charOfByte, Char.ofNat, dif_pos (Or.inl (by omega))]
  rfl

/-- A byte that is not escaped is a character of ASCII. -/
theorem quotedByte_cases (b : UInt8) :
  (isEscaped b = true ∧ quotedByte b = ['=', hexDigit (b.toNat / 16), hexDigit (b.toNat % 16)])
    ∨ (isEscaped b = false ∧ ∃ c, quotedByte b = [c] ∧ c ≠ '=' ∧ c ≠ '?' ∧ c.toNat < 128
      ∧ ∀ text, decodeQ (c :: text) = (decodeQ text).map (b :: ·))
  := by
  by_cases hescaped : isEscaped b = true
  · exact Or.inl ⟨hescaped, by rw [quotedByte, if_pos hescaped]⟩
  · apply Or.inr
    refine ⟨Bool.not_eq_true _ ▸ hescaped, ?_⟩
    by_cases hspace : b = 0x20
    · subst hspace
      refine ⟨'_', by decide, by decide, by decide, by decide, ?_⟩
      intro text
      rw [decodeQ]
    · have hnat := charOfByte_toNat b
      simp only [isEscaped, Bool.or_eq_true, decide_eq_true_eq, not_or, UInt8.lt_iff_toNat_lt,
        UInt8.reduceToNat, Nat.not_lt] at hescaped
      obtain ⟨⟨⟨⟨hlow, hhigh⟩, hequals⟩, hmark⟩, hunderscore⟩ := hescaped
      have hne : ∀ {c : Char} {n : UInt8}, b ≠ n → c.toNat = n.toNat → charOfByte b ≠ c := by
        rintro c n hbn hc rfl
        exact hbn (UInt8.toNat_inj.mp (hnat.symm.trans hc))
      refine ⟨charOfByte b, ?_, hne hequals rfl, hne hmark rfl, ?_, ?_⟩
      · rw [quotedByte, if_neg, if_neg hspace]
        simp only [isEscaped, Bool.or_eq_true, decide_eq_true_eq, not_or, UInt8.lt_iff_toNat_lt,
          UInt8.reduceToNat, Nat.not_lt]
        exact ⟨⟨⟨⟨hlow, hhigh⟩, hequals⟩, hmark⟩, hunderscore⟩
      · rw [hnat]
        omega
      · intro text
        rw [decodeQ_cons (hne hunderscore rfl) (hne hequals rfl), Utf8.utf8EncodeChar_ascii, hnat,
          UInt8.ofNat_toNat]
        · rfl
        · rw [hnat]
          omega

theorem decodeQ_quotedByte (b : UInt8) (text : List Char) :
  decodeQ (quotedByte b ++ text) = (decodeQ text).map (b :: ·)
  := by
  rcases quotedByte_cases b with ⟨-, hquoted⟩ | ⟨-, c, hquoted, -, -, -, hdecode⟩
  · rw [hquoted]
    simp only [List.cons_append, List.nil_append, decodeQ, fromStrRadix16_hexDigits,
      Option.bind_some]
  · rw [hquoted, List.singleton_append, hdecode]

theorem decodeQ_quoted (bytes : List UInt8) :
  decodeQ (bytes.flatMap quotedByte) = some bytes
  := by
  induction bytes with
  | nil => rfl
  | cons b bytes ih => rw [List.flatMap_cons, decodeQ_quotedByte, ih, Option.map_some]

theorem mem_base64urlChars {bytes : List UInt8} {c : Char} (h : c ∈ base64urlChars bytes) :
  c ∈ base64urlAlphabet
  := by
  have hdigit : ∀ n : ℕ, base64urlAlphabet.getD (n % 64) 'A' ∈ base64urlAlphabet := by
    have hall : ∀ index < 64, base64urlAlphabet.getD index 'A' ∈ base64urlAlphabet := by
      decide +kernel
    exact fun n => hall _ (Nat.mod_lt n (by decide))
  have hgroup : ∀ n chars, c ∈ pushGroup n chars → c ∈ base64urlAlphabet := by
    intro n chars hc
    obtain ⟨index, hindex, rfl⟩ := List.mem_map.mp hc
    have hmem := List.mem_of_mem_take hindex
    simp only [List.mem_cons, List.not_mem_nil, or_false] at hmem
    rcases hmem with rfl | rfl | rfl | rfl
    all_goals apply hdigit
  induction bytes using base64urlChars.induct with
  | case1 first second third bytes ih =>
      rw [base64urlChars, List.mem_append] at h
      rcases h with h | h
      · exact hgroup _ _ h
      · exact ih h
  | case2 first second => exact hgroup _ _ h
  | case3 first => exact hgroup _ _ h
  | case4 => cases h

/-- The characters of base64 are those of base64url, and stand for themselves. -/
theorem toBase64_spec {c : Char} (h : c ∈ base64urlAlphabet) :
  normalize (toBase64 c) = c ∧ toBase64 c ≠ '=' ∧ toBase64 c ≠ '?' ∧ (toBase64 c).toNat < 128
  := by
  revert c
  decide

theorem base64urlDecode_base64 (bytes : List UInt8) :
  base64urlDecode ((trimEndMatches (· = '=') (base64 bytes)).map normalize) = some bytes
  := by
  have htrim : trimEndMatches (· = '=') (base64 bytes) = (base64urlChars bytes).map toBase64 := by
    apply trimEndMatches_append
    · intro c hc
      obtain ⟨d, hd, rfl⟩ := List.mem_map.mp (List.mem_of_getLast? hc)
      exact decide_eq_false (toBase64_spec (mem_base64urlChars hd)).2.1
    · intro c hc
      exact decide_eq_true (List.eq_of_mem_replicate hc)
  have hmap : ((base64urlChars bytes).map toBase64).map normalize = base64urlChars bytes := by
    rw [List.map_map]
    apply (List.map_congr_left _).trans (List.map_id _)
    intro c hc
    exact (toBase64_spec (mem_base64urlChars hc)).1
  rw [htrim, hmap, base64urlDecode_chars]

namespace EncodedWord

variable (word : EncodedWord charset)

theorem label_notMem :
  '?' ∉ word.label
  := by
  intro hmem
  have hlower : '?' ∈ toAsciiLowercase word.label := List.mem_map.mpr ⟨'?', hmem, by decide⟩
  rw [word.label_eq] at hlower
  revert hlower
  cases charset <;> decide

theorem letter_ne :
  word.letter ≠ '?' ∧ word.letter ≠ '='
  := by
  have hmem := word.letter_mem
  have hall : ∀ encoding : WordEncoding, ∀ c ∈ encoding.letters, c ≠ '?' ∧ c ≠ '=' := by
    intro encoding
    cases encoding <;> decide
  exact hall word.encoding word.letter hmem

/-- The bytes are read from what stands between the delimiters. -/
theorem decodeWordBytes_inner :
  decodeWordBytes word.inner = some (word.label, word.bytes)
  := by
  have hletter : splitOnce '?' (word.letter :: '?' :: word.content)
      = some ([word.letter], word.content) := by
    have hne : '?' ∉ [word.letter] := by
      rw [List.mem_singleton]
      exact word.letter_ne.1.symm
    exact splitOnce_append hne word.content
  have hlabel : (!isNamed "utf-8" word.label && !isNamed "iso-8859-1" word.label
      && !isNamed "latin1" word.label) = false := by
    simp only [isNamed, word.label_eq]
    cases charset <;> decide
  have hbytes : decodeContent [word.letter] word.content = some word.bytes := by
    have hmem := word.letter_mem
    cases hencoding : word.encoding with
    | base64 =>
        have hb : isNamed "b" [word.letter] = true := by
          rw [hencoding] at hmem
          revert hmem
          generalize word.letter = c
          revert c
          decide
        rw [decodeContent, if_pos hb, content, hencoding, base64urlDecode_base64]
    | quoted =>
        have hq : isNamed "b" [word.letter] = false ∧ isNamed "q" [word.letter] = true := by
          rw [hencoding] at hmem
          revert hmem
          generalize word.letter = c
          revert c
          decide
        rw [decodeContent, hq.1, if_neg Bool.false_ne_true, if_pos hq.2, content, hencoding,
          decodeQ_quoted]
  rw [decodeWordBytes, inner, splitOnce_append word.label_notMem]
  simp only [Option.bind_eq_bind, Option.bind_some, hletter, hlabel, Bool.false_eq_true, if_false,
    hbytes, Option.pure_def]

/-! ### The ends of words -/

theorem mem_content_spec {c : Char} (h : c ∈ word.content) :
  c ≠ '?' ∧ c.toNat < 128
  := by
  have hdigit : ∀ n < 16, hexDigit n ≠ '?' ∧ (hexDigit n).toNat < 128 := by decide
  rw [content] at h
  cases hencoding : word.encoding with
  | base64 =>
      simp only [hencoding, base64, List.mem_append] at h
      rcases h with h | h
      · obtain ⟨d, hd, rfl⟩ := List.mem_map.mp h
        exact (toBase64_spec (mem_base64urlChars hd)).2.2
      · rw [List.eq_of_mem_replicate h]
        decide
  | quoted =>
      simp only [hencoding, List.mem_flatMap] at h
      obtain ⟨b, -, hc⟩ := h
      have hb := b.toNat_lt
      rcases quotedByte_cases b with ⟨-, hquoted⟩ | ⟨-, d, hquoted, -, hmark, hascii, -⟩
      · simp only [hquoted, List.mem_cons, List.not_mem_nil, or_false] at hc
        rcases hc with rfl | rfl | rfl
        · decide
        · exact hdigit _ (by omega)
        · exact hdigit _ (by omega)
      · rw [hquoted, List.mem_singleton] at hc
        rw [hc]
        exact ⟨hmark, hascii⟩

/-- A word begins with an equals sign exactly when it begins with an escape. -/
theorem head?_content :
  word.content.head? = some '=' ↔ word.StartsWithEscape
  := by
  rw [content, StartsWithEscape]
  cases hencoding : word.encoding with
  | base64 =>
      simp only [reduceCtorEq, false_and, iff_false, base64]
      cases hbytes : base64urlChars word.bytes with
      | nil =>
          cases hword : word.bytes with
          | nil => simp
          | cons b bytes =>
              rw [hword] at hbytes
              have hne : base64urlChars (b :: bytes) ≠ [] := by
                cases bytes with
                | nil => simp [base64urlChars, pushGroup]
                | cons b' bytes =>
                    cases bytes with
                    | nil => simp [base64urlChars, pushGroup]
                    | cons b'' bytes => simp [base64urlChars, pushGroup]
              exact absurd hbytes hne
      | cons c chars =>
          have hmem : c ∈ base64urlChars word.bytes := by
            rw [hbytes]
            exact List.mem_cons_self
          rw [List.map_cons, List.cons_append, List.head?_cons, Option.some.injEq]
          exact (toBase64_spec (mem_base64urlChars hmem)).2.1
  | quoted =>
      cases hbytes : word.bytes with
      | nil => simp
      | cons b bytes =>
          rcases quotedByte_cases b with ⟨hescaped, hquoted⟩ | ⟨hescaped, d, hquoted, hequals, -⟩
          · simp [hquoted, hescaped]
          · simp [hquoted, hescaped, hequals]

/-- A text with escapes does not end with an equals sign. -/
theorem getLast?_content (h : word.encoding = .quoted) :
  word.content.getLast? ≠ some '='
  := by
  have hdigit : ∀ n < 16, hexDigit n ≠ '=' := by decide
  simp only [content, h]
  rcases List.eq_nil_or_concat' word.bytes with hnil | ⟨bytes, b, hbytes⟩
  · simp [hnil]
  · have hb := b.toNat_lt
    rw [hbytes, List.flatMap_append, List.flatMap_singleton]
    rcases quotedByte_cases b with ⟨-, hquoted⟩ | ⟨-, d, hquoted, hequals, -⟩
    · simp [hquoted, hdigit (b.toNat % 16) (by omega)]
    · simp [hquoted, hequals]

theorem length_bytes_le (h : word.encoding = .quoted) :
  word.bytes.length ≤ word.content.length
  := by
  simp only [content, h]
  induction word.bytes with
  | nil => simp
  | cons b bytes ih =>
      rw [List.flatMap_cons, List.length_append, List.length_cons]
      rcases quotedByte_cases b with ⟨-, hquoted⟩ | ⟨-, d, hquoted, -⟩
      · simp only [hquoted, List.length_cons, List.length_nil]
        omega
      · simp only [hquoted, List.length_cons, List.length_nil]
        omega

theorem apart_label {rest : List Char} (hrest : Apart '?' '=' ('?' :: rest)) :
  Apart '?' '=' (word.label ++ '?' :: rest)
  := by
  apply apart_append.mpr
  refine ⟨?_, hrest, ?_⟩
  · apply Apart.of_forall_ne_left
    rintro c hc rfl
    exact word.label_notMem hc
  · rintro ⟨hlast, -⟩
    exact word.label_notMem (List.mem_of_getLast? hlast)

/-- The end of a word is found. -/
theorem breakOn_inner (h : ¬word.StartsWithEscape) (rest : List Char) :
  breakOn '?' '=' (word.inner ++ '?' :: '=' :: rest) = some (word.inner, rest)
  := by
  apply breakOn_append
  rw [inner, List.append_assoc]
  apply word.apart_label
  have hcontent : ∀ c ∈ word.content, c ≠ '?' := fun c hc => (word.mem_content_spec hc).1
  apply List.isChain_cons_cons.mpr
  refine ⟨fun hboth => word.letter_ne.2 hboth.2, ?_⟩
  apply List.isChain_cons_cons.mpr
  refine ⟨fun hboth => word.letter_ne.1 hboth.1, ?_⟩
  have hends : Apart '?' '=' (word.content ++ ['?']) := by
    apply apart_append.mpr
    exact ⟨Apart.of_forall_ne_left hcontent, .singleton _, by simp⟩
  have hhead : (word.content ++ ['?']).head? ≠ some '=' := by
    rw [← word.head?_content] at h
    cases hword : word.content with
    | nil => simp
    | cons c content =>
        rw [hword] at h
        exact h
  have happend : Apart '?' '=' (['?'] ++ (word.content ++ ['?'])) :=
    apart_append.mpr ⟨.singleton _, hends, fun hboth => hhead hboth.2⟩
  exact happend

/-- The first sign of an escape is taken for the end of the word. -/
theorem breakOn_inner_of_escape (h : word.StartsWithEscape) (rest : List Char) :
  ∃ content, word.content = '=' :: content
    ∧ breakOn '?' '=' (word.inner ++ '?' :: '=' :: rest)
      = some (word.label ++ ['?', word.letter], content ++ '?' :: '=' :: rest)
  := by
  cases hword : word.content with
  | nil =>
      rw [← word.head?_content, hword] at h
      cases h
  | cons c content =>
      have hhead := word.head?_content.mpr h
      rw [hword, List.head?_cons, Option.some.injEq] at hhead
      subst hhead
      refine ⟨content, rfl, ?_⟩
      have hsplit : word.inner ++ '?' :: '=' :: rest
          = (word.label ++ ['?', word.letter]) ++ '?' :: '=' :: (content ++ '?' :: '=' :: rest) := by
        simp [inner, hword]
      rw [hsplit]
      apply breakOn_append
      rw [List.append_assoc]
      apply word.apart_label
      apply List.isChain_cons_cons.mpr
      refine ⟨fun hboth => word.letter_ne.2 hboth.2, ?_⟩
      apply List.isChain_cons_cons.mpr
      exact ⟨fun hboth => word.letter_ne.1 hboth.1, .singleton _⟩

theorem decodeWordBytes_label :
  decodeWordBytes (word.label ++ ['?', word.letter]) = none
  := by
  have hletter : splitOnce '?' [word.letter] = none := by
    apply splitOnce_eq_none
    rw [List.mem_singleton]
    exact word.letter_ne.1.symm
  rw [decodeWordBytes, splitOnce_append word.label_notMem]
  simp only [Option.bind_eq_bind, Option.bind_some, hletter, Option.bind_none]

theorem text_append (rest : List Char) :
  word.text ++ rest = '=' :: '?' :: (word.inner ++ '?' :: '=' :: rest)
  := by
  simp [text]

end EncodedWord

/-! ### Words that follow one another -/

theorem followingWords_cons (word : EncodedWord charset) (words : List (EncodedWord charset)) :
  followingWords (word :: words)
    = word.gap ++ '=' :: '?' :: (word.inner ++ '?' :: '=' :: followingWords words)
  := by
  rw [followingWords, List.flatMap_cons, List.append_assoc, word.text_append]
  rfl

theorem nextWord_followingWords (word : EncodedWord charset) (words : List (EncodedWord charset)) :
  nextWord (followingWords (word :: words))
    = if word.StartsWithEscape then none
      else some ((word.label, word.bytes), followingWords words)
  := by
  have hhead : (followingWords (word :: words)).head?.any isWhitespace = true := by
    rw [followingWords_cons]
    cases hgap : word.gap with
    | nil => exact absurd hgap word.gap_ne_nil
    | cons c gap =>
        have hc := word.gap_whitespace c (by rw [hgap]; exact List.mem_cons_self)
        rwa [List.cons_append, List.head?_cons, Option.any_some]
  have hdrop : (followingWords (word :: words)).dropWhile isWhitespace
      = '=' :: '?' :: (word.inner ++ '?' :: '=' :: followingWords words) := by
    rw [followingWords_cons]
    exact dropWhile_append_eq word.gap_whitespace rfl
  rw [nextWord, if_pos hhead, hdrop]
  simp only
  split_ifs with hescape
  · obtain ⟨content, -, hbreak⟩ := word.breakOn_inner_of_escape hescape (followingWords words)
    rw [hbreak, Option.bind_some, word.decodeWordBytes_label, Option.map_none]
  · rw [word.breakOn_inner hescape, Option.bind_some, word.decodeWordBytes_inner, Option.map_some]

/-- The bytes of words that follow one another are put together. -/
theorem joinWords_followingWords {label : List Char}
    (hlabel : toAsciiLowercase label = charset.name.toList) (bytes : List UInt8)
    {words rest : List (EncodedWord charset)} (hwords : ∀ word ∈ words, ¬word.StartsWithEscape)
    (hrest : ∀ word, rest.head? = some word → word.StartsWithEscape) :
  joinWords [(label, bytes)] (followingWords (words ++ rest))
    = ([(label, bytes ++ words.flatMap EncodedWord.bytes)], followingWords rest)
  := by
  induction words generalizing bytes with
  | nil =>
      have hnone : nextWord (followingWords rest) = none := by
        cases rest with
        | nil => rfl
        | cons word rest => rw [nextWord_followingWords, if_pos (hrest word rfl)]
      rw [List.nil_append, joinWords_of_none hnone, List.flatMap_nil, List.append_nil]
  | cons word words ih =>
      have hnext : nextWord (followingWords (word :: words ++ rest))
          = some ((word.label, word.bytes), followingWords (words ++ rest)) := by
        rw [List.cons_append, nextWord_followingWords, if_neg (hwords word List.mem_cons_self)]
      have hgroup : addGroup [(label, bytes)] (word.label, word.bytes)
          = [(label, bytes ++ word.bytes)] := by
        rw [addGroup]
        simp [hlabel, word.label_eq]
      rw [joinWords_of_some hnext, hgroup, ih _ fun w hw => hwords w (List.mem_cons_of_mem _ hw),
        List.flatMap_cons, List.append_assoc]

/-- The words up to the first one that begins with an escape. -/
theorem exists_split_words (words : List (EncodedWord charset)) :
  ∃ before rest, words = before ++ rest ∧ (∀ word ∈ before, ¬word.StartsWithEscape)
    ∧ ∀ word, rest.head? = some word → word.StartsWithEscape
  := by
  induction words with
  | nil => exact ⟨[], [], rfl, by simp, by simp⟩
  | cons word words ih =>
      by_cases hescape : word.StartsWithEscape
      · refine ⟨[], word :: words, rfl, by simp, ?_⟩
        rintro w hw
        cases hw
        exact hescape
      · obtain ⟨before, rest, heq, hbefore, hrest⟩ := ih
        refine ⟨word :: before, rest, by rw [heq, List.cons_append], ?_, hrest⟩
        intro w hw
        rcases List.mem_cons.mp hw with rfl | hw
        · exact hescape
        · exact hbefore w hw

/-! ### Texts of bytes -/

section

variable {label : List Char} (hlabel : toAsciiLowercase label = charset.name.toList)

include hlabel

theorem decodeBytes_label (bytes : List UInt8) :
  decodeBytes bytes label
    = match charset with
      | .utf8 => Utf8.lossy bytes
      | .latin1 => bytes.map charOfByte
  := by
  cases charset with
  | utf8 =>
      have hother : (isNamed "iso-8859-1" label || isNamed "latin1" label) = false
          ∧ (isNamed "windows-1252" label || isNamed "cp1252" label) = false := by
        simp only [isNamed, hlabel]
        decide
      rw [decodeBytes, hother.1, hother.2]
      rfl
  | latin1 =>
      have hsame : (isNamed "iso-8859-1" label || isNamed "latin1" label) = true := by
        simp only [isNamed, hlabel]
        decide
      rw [decodeBytes, if_pos hsame]

/-- The bytes of a text are decoded to it. -/
theorem decodeBytes_encode {text : List Char} {bytes : List UInt8}
    (h : charset.encode text = some bytes) :
  decodeBytes bytes label = text
  := by
  rw [decodeBytes_label hlabel]
  cases charset with
  | utf8 =>
      rw [WordCharset.encode, Option.some.injEq] at h
      rw [← h]
      exact Utf8.lossy_bytes text
  | latin1 =>
      rw [WordCharset.encode] at h
      split_ifs at h with hall
      cases h
      simp only [List.map_map]
      apply (List.map_congr_left _).trans (List.map_id text)
      intro c hc
      have hlt : c.toNat < 256 := by simpa using List.all_eq_true.mp hall c hc
      rw [Function.comp_apply, charOfByte, UInt8.toNat_ofNat_of_lt' hlt, Char.ofNat_toNat, id]

/-- A character of ASCII is decoded from each byte of ASCII, and from no other one. -/
theorem countP_decodeBytes (bytes : List UInt8) :
  (decodeBytes bytes label).countP Utf8.isAsciiChar = bytes.countP Utf8.isAsciiByte
  := by
  rw [decodeBytes_label hlabel]
  cases charset with
  | utf8 => exact Utf8.countP_lossy bytes
  | latin1 =>
      rw [List.countP_map]
      apply List.countP_congr
      intro b _
      rw [Function.comp_apply, Utf8.isAsciiChar, charOfByte_toNat, Utf8.isAsciiByte]
      simp only [decide_eq_true_eq, UInt8.lt_iff_toNat_lt]
      rfl

end

/-! ### Reading words -/

section

variable {before : List Char} (hbefore : Apart '=' '?' (before ++ ['=']))

include hbefore

/-- A word is read together with the words after it. -/
theorem decodeRfc2047_words {word : EncodedWord charset} (hword : ¬word.StartsWithEscape)
    {words rest : List (EncodedWord charset)} (hwords : ∀ w ∈ words, ¬w.StartsWithEscape)
    (hrest : ∀ w, rest.head? = some w → w.StartsWithEscape) :
  decodeRfc2047 (before ++ (word.text ++ followingWords (words ++ rest)))
    = before ++ decodeBytes ((word :: words).flatMap EncodedWord.bytes) word.label
      ++ decodeRfc2047 (followingWords rest)
  := by
  have hstart : breakOn '=' '?' (before ++ (word.text ++ followingWords (words ++ rest)))
      = some (before, word.inner ++ '?' :: '=' :: followingWords (words ++ rest)) := by
    rw [word.text_append]
    exact breakOn_append hbefore _
  rw [decodeRfc2047_of_word hstart (word.breakOn_inner hword _) word.decodeWordBytes_inner,
    joinWords_followingWords word.label_eq word.bytes hwords hrest]
  simp only [List.flatMap_cons, List.flatMap_nil, List.append_nil]

/-- The beginning of a word stays as it is if the word begins with an escape. -/
theorem decodeRfc2047_escape {word : EncodedWord charset} (hword : word.StartsWithEscape)
    (words : List (EncodedWord charset)) :
  ∃ content, word.content = '=' :: content
    ∧ decodeRfc2047 (before ++ (word.text ++ followingWords words))
      = before ++ '=' :: '?' :: (word.label ++ ['?', word.letter])
        ++ '?' :: '=' :: decodeRfc2047 (content ++ '?' :: '=' :: followingWords words)
  := by
  have hstart : breakOn '=' '?' (before ++ (word.text ++ followingWords words))
      = some (before, word.inner ++ '?' :: '=' :: followingWords words) := by
    rw [word.text_append]
    exact breakOn_append hbefore _
  obtain ⟨content, hcontent, hend⟩ := word.breakOn_inner_of_escape hword (followingWords words)
  exact ⟨content, hcontent, decodeRfc2047_of_not_word hstart hend word.decodeWordBytes_label⟩

end

theorem apart_gap (word : EncodedWord charset) {before : List Char}
    (hbefore : Apart '=' '?' before) :
  Apart '=' '?' (before ++ word.gap ++ ['='])
  := by
  have hmark : ∀ c ∈ word.gap, c ≠ '?' := by
    rintro c hc rfl
    exact absurd (word.gap_whitespace _ hc) (by decide)
  apply apart_append.mpr
  refine ⟨?_, .singleton _, by simp⟩
  apply apart_append.mpr
  refine ⟨hbefore, Apart.of_forall_ne_right hmark, ?_⟩
  rintro ⟨-, hhead⟩
  exact hmark '?' (List.mem_of_head? hhead) rfl

/-- The rest of a word that began with an escape holds no beginning of a word. -/
theorem apart_escape {word : EncodedWord charset} (hword : word.StartsWithEscape)
    {content : List Char} (hcontent : word.content = '=' :: content) :
  Apart '=' '?' (content ++ ['?', '='])
  := by
  have hmark : ∀ c ∈ content, c ≠ '?' := by
    intro c hc
    apply (word.mem_content_spec _).1
    rw [hcontent]
    exact List.mem_cons_of_mem _ hc
  apply apart_append.mpr
  refine ⟨Apart.of_forall_ne_right hmark, ?_, ?_⟩
  · apply List.isChain_cons_cons.mpr
    exact ⟨by simp, .singleton _⟩
  · rintro ⟨hlast, -⟩
    apply word.getLast?_content hword.1
    rw [hcontent, List.getLast?_cons, hlast]
    rfl

/-- The bytes of ASCII of the words. -/
def asciiCount (words : List (EncodedWord charset)) : ℕ :=
  (words.flatMap EncodedWord.bytes).countP Utf8.isAsciiByte

theorem asciiCount_cons (word : EncodedWord charset) (words : List (EncodedWord charset)) :
  asciiCount (word :: words) = word.bytes.countP Utf8.isAsciiByte + asciiCount words
  := by
  rw [asciiCount, List.flatMap_cons, List.countP_append, asciiCount]

theorem asciiCount_append (words words' : List (EncodedWord charset)) :
  asciiCount (words ++ words') = asciiCount words + asciiCount words'
  := by
  rw [asciiCount, List.flatMap_append, List.countP_append, asciiCount, asciiCount]

theorem followingWords_eq (word : EncodedWord charset) (words : List (EncodedWord charset)) :
  followingWords (word :: words) = word.gap ++ (word.text ++ followingWords words)
  := by
  rw [followingWords, List.flatMap_cons, List.append_assoc]
  rfl

/-- The reading has a character for each byte of ASCII, and more if a word begins with an escape. -/
theorem asciiCount_le (word : EncodedWord charset) (words : List (EncodedWord charset))
    {before : List Char} (hbefore : Apart '=' '?' (before ++ ['='])) :
  before.countP Utf8.isAsciiChar + asciiCount (word :: words)
      + (if ∃ w ∈ word :: words, w.StartsWithEscape then 1 else 0)
    ≤ (decodeRfc2047 (before ++ (word.text ++ followingWords words))).countP Utf8.isAsciiChar
  := by
  -- The words that come first are read together, or the first one begins with an escape: fewer words
  -- are left in both cases.
  induction hn : words.length using Nat.strong_induction_on generalizing word words before with
  | _ n ih =>
      subst hn
      by_cases hword : word.StartsWithEscape
      · obtain ⟨content, hcontent, hdecode⟩ := decodeRfc2047_escape hbefore hword words
        have hascii : content.countP Utf8.isAsciiChar = content.length := by
          apply List.countP_eq_length.mpr
          intro c hc
          have hmem : c ∈ word.content := by
            rw [hcontent]
            exact List.mem_cons_of_mem _ hc
          exact decide_eq_true (word.mem_content_spec hmem).2
        have hrest : content.length + 2 + asciiCount words
            ≤ (decodeRfc2047 (content ++ '?' :: '=' :: followingWords words)).countP
              Utf8.isAsciiChar := by
          have hends := apart_escape hword hcontent
          cases words with
          | nil =>
              rw [followingWords, List.flatMap_nil, decodeRfc2047_of_none (breakOn_eq_none hends),
                List.countP_append, hascii]
              rfl
          | cons w words =>
              have hw := ih words.length (by simp) w words (apart_gap w hends) rfl
              have hsplit : content ++ '?' :: '=' :: followingWords (w :: words)
                  = content ++ ['?', '='] ++ w.gap ++ (w.text ++ followingWords words) := by
                rw [followingWords_eq]
                simp
              have hmarks : ['?', '='].countP Utf8.isAsciiChar = 2 := by decide
              rw [hsplit]
              simp only [List.countP_append, hascii, hmarks] at hw
              omega
        have hle : word.bytes.countP Utf8.isAsciiByte ≤ content.length + 1 := by
          have hlength := word.length_bytes_le hword.1
          rw [hcontent, List.length_cons] at hlength
          exact List.countP_le_length.trans hlength
        have hmark : Utf8.isAsciiChar '=' = true := by decide
        rw [hdecode, asciiCount_cons, if_pos ⟨word, List.mem_cons_self, hword⟩]
        simp only [List.countP_append, List.countP_cons, hmark, if_true]
        omega
      · obtain ⟨first, rest, rfl, hfirst, hrest⟩ := exists_split_words words
        rw [decodeRfc2047_words hbefore hword hfirst hrest, ← List.cons_append, asciiCount_append]
        simp only [List.countP_append, countP_decodeBytes word.label_eq]
        have hsame : ((word :: first).flatMap EncodedWord.bytes).countP Utf8.isAsciiByte
            = asciiCount (word :: first) := rfl
        cases rest with
        | nil =>
            have hnone : ¬∃ w ∈ word :: first ++ [], w.StartsWithEscape := by
              rintro ⟨w, hw, hescape⟩
              rw [List.append_nil] at hw
              rcases List.mem_cons.mp hw with rfl | hw
              · exact hword hescape
              · exact hfirst w hw hescape
            rw [if_neg hnone]
            simp only [asciiCount, List.flatMap_nil, List.countP_nil]
            omega
        | cons w rest =>
            have hgap : Apart '=' '?' (w.gap ++ ['=']) := @apart_gap charset w [] .nil
            have hshorter : rest.length < (first ++ w :: rest).length := by
              rw [List.length_append, List.length_cons]
              omega
            have hw := ih rest.length hshorter w rest hgap rfl
            rw [if_pos ⟨w, List.mem_cons_self, hrest w rfl⟩] at hw
            rw [if_pos ⟨w, by simp, hrest w rfl⟩, followingWords_eq]
            omega

/-- Words are read back as the text whose bytes they hold, exactly if none begins with an escape. -/
theorem decodeRfc2047_encodedWords_iff (charset : WordCharset) (text : List Char)
    (words : List (EncodedWord charset))
    (hbytes : charset.encode text = some (words.flatMap EncodedWord.bytes)) :
  decodeRfc2047 (encodedWords words) = text ↔ ∀ word ∈ words, ¬word.StartsWithEscape
  := by
  cases words with
  | nil =>
      have hlabel : toAsciiLowercase charset.name.toList = charset.name.toList := by
        cases charset <;> decide
      have htext := decodeBytes_encode hlabel hbytes
      rw [decodeBytes_label hlabel] at htext
      have hnil : text = [] := by
        rw [← htext]
        cases charset
        · exact Utf8.lossy_bytes []
        · rfl
      rw [hnil, encodedWords, decodeRfc2047_of_none rfl]
      simp
  | cons word words =>
      have hapart : Apart '=' '?' ([] ++ ['=']) := .singleton _
      have htext := decodeBytes_encode word.label_eq hbytes
      constructor
      · intro hread w hw hescape
        have hle := asciiCount_le word words hapart
        have hcount := countP_decodeBytes word.label_eq ((word :: words).flatMap EncodedWord.bytes)
        rw [if_pos ⟨w, hw, hescape⟩, List.nil_append, List.countP_nil, asciiCount] at hle
        rw [encodedWords] at hread
        rw [hread, ← htext] at hle
        omega
      · intro hwords
        have hread := @decodeRfc2047_words charset [] hapart word (hwords word List.mem_cons_self)
          words [] (fun w hw => hwords w (List.mem_cons_of_mem _ hw)) (by simp)
        rw [List.append_nil, List.nil_append, List.nil_append] at hread
        rw [encodedWords, hread, htext, followingWords, List.flatMap_nil, decodeRfc2047_of_none rfl,
          List.append_nil]

/-! ### Two texts -/

/-- A word in the encoding, after a space. -/
def utf8Word (encoding : WordEncoding) (bytes : List UInt8) : EncodedWord .utf8 where
  label := "UTF-8".toList
  label_eq := by decide
  encoding := encoding
  letter := encoding.letters.headD 'B'
  letter_mem := by cases encoding <;> decide
  bytes := bytes
  gap := [' ']
  gap_ne_nil := by decide
  gap_whitespace := by decide

/-- A check mark in base64, and a word with escapes that begins with a space. -/
def doneWords : List (EncodedWord .utf8) :=
  [utf8Word .base64 [0xe2, 0x9c, 0x93], utf8Word .quoted [0x20, 0x6f, 0x6b]]

theorem decodeRfc2047_done :
  decodeRfc2047 (encodedWords doneWords) = "✓ ok".toList
  :=
  (decodeRfc2047_encodedWords_iff .utf8 "✓ ok".toList doneWords (by decide)).mpr
    (by decide)

/-- A check mark with escapes. -/
def checkMark : EncodedWord .utf8 :=
  utf8Word .quoted [0xe2, 0x9c, 0x93]

/-- The word is not read at all. -/
theorem decodeRfc2047_checkMark :
  WordCharset.utf8.encode "✓".toList = some ([checkMark].flatMap EncodedWord.bytes)
    ∧ decodeRfc2047 (encodedWords [checkMark]) = "=?UTF-8?Q?=E2=9C=93?=".toList
    ∧ decodeRfc2047 (encodedWords [checkMark]) ≠ "✓".toList
  := by
  decide +kernel

end Mime

end Graph
