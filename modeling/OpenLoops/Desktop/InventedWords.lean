import OpenLoops.Desktop.KnownAddresses

/-!
# Invented words in an encoded text

Words of an encoded text are words of the text or parts of pseudonyms; they cannot be mixed up,
as the words of the pool that the text has are skipped.
-/

namespace Desktop

variable {T : CharTable}

/-! ### Words of the pool -/

theorem isAlphanum_of_isAlpha (c : Char) (h : c.isAlpha = true) :
  c.isAlphanum = true
  := by
  rw [Char.isAlphanum, h, Bool.true_or]

theorem poolWords_alphanum {word : Text} (h : word ∈ poolWords) :
  word ≠ [] ∧ ∀ c ∈ word, c.isAlphanum = true
  := by
  obtain ⟨first, rest, rfl, -, hletters⟩ := poolWords_capitalized h
  constructor
  · apply List.cons_ne_nil
  · intro c hc
    rw [Char.isAlphanum, hletters c hc, Bool.true_or]

/-- Words of the pool are the same when they are but for capital letters. -/
theorem poolWords_eq {word word' : Text} (h : word ∈ poolWords) (h' : word' ∈ poolWords)
    (heq : toAsciiLowercase word = toAsciiLowercase word') :
  word = word'
  := List.inj_on_of_nodup_map poolWords_nodup h h' heq

/-- No word is a given name and a family name of the pool. -/
theorem given_ne_family {given family : Text} (h : given ∈ givenNames) (h' : family ∈ familyNames) :
  given ≠ family
  := by
  have hall : ∀ given ∈ givenNames, given ∉ familyNames := by decide
  rintro rfl
  exact hall given h h'

/-- A word of a pseudonym, but for capital letters. -/
def Invented (word : Text) : Prop :=
  toAsciiLowercase word ∈ poolWords.map toAsciiLowercase
    ∨ "person".toList <+: toAsciiLowercase word

theorem invented_of_mem {word : Text} (h : word ∈ poolWords) :
  Invented word
  := Or.inl (List.mem_map_of_mem h)

/-- The letters and digits with which a text starts. -/
def headWord (text : Text) : Text :=
  text.takeWhile Char.isAlphanum

theorem headWord_append {word rest : Text} (hword : ∀ c ∈ word, c.isAlphanum = true)
    (hrest : rest.head?.any Char.isAlphanum = false) :
  headWord (word ++ rest) = word
  := takeWhile_append_eq hword hrest

/-! ### Parts of pseudonyms -/

/-- A pseudonym has two names of the pool, which are not skipped, or a number. -/
theorem Issued.pool_or {assignment : RequestAssignment} {pseudonym : Pseudonym}
    (h : Issued assignment pseudonym) :
  (∃ given family, (given, family) ∈ poolPairs ∧ given ∈ givenNames ∧ family ∈ familyNames
      ∧ toAsciiLowercase given ∉ assignment.skippedTokens
      ∧ toAsciiLowercase family ∉ assignment.skippedTokens
      ∧ pseudonym = Pseudonym.new given (some family))
    ∨ ∃ number, pseudonym = Pseudonym.new (personNumber number) none
  := by
  cases h with
  | @pool index given family h hlt hgiven hfamily =>
      obtain ⟨hmem, hmem'⟩ := mem_poolWords_of_pair h
      exact Or.inl ⟨given, family, List.mem_of_getElem? h, hmem, hmem', hgiven, hfamily, rfl⟩
  | @overflow number hle hlt => exact Or.inr ⟨number, rfl⟩

/-- The digits of a number. -/
def digitsOf (number : ℕ) : Text :=
  (Nat.repr number).toList

theorem digitsOf_alphanum (number : ℕ) :
  digitsOf number ≠ [] ∧ ∀ c ∈ digitsOf number, c.isDigit = true ∧ c.isAlphanum = true
  := by
  rw [digitsOf, Nat.toList_repr]
  constructor
  · exact Nat.toDigits_ne_nil
  · intro c hc
    have hdigit := Nat.isDigit_of_mem_toDigits (by decide) le_rfl hc
    use hdigit
    rw [Char.isAlphanum, hdigit, Bool.or_true]

theorem toAsciiLowercase_digitsOf (number : ℕ) :
  toAsciiLowercase (digitsOf number) = digitsOf number
  := by
  calc (digitsOf number).map Char.toLower = (digitsOf number).map id := by
        apply List.map_congr_left
        intro c hc
        exact toLower_of_isDigit ((digitsOf_alphanum number).2 c hc).1
    _ = digitsOf number := List.map_id _

theorem personNumber_eq (number : ℕ) :
  personNumber number = "Person".toList ++ ' ' :: digitsOf number
  := rfl

theorem numberedReplacement_eq (number : ℕ) (kind : MatchKind) :
  (Pseudonym.new (personNumber number) none).replacement kind =
    "Person".toList ++ ' ' :: digitsOf number
  := by
  cases kind with
  | full => rfl
  | family => rfl
  | given => rfl

/-- The address of a person by number. -/
theorem numberedAddress_eq (number : ℕ) :
  (Pseudonym.new (personNumber number) none).address =
    ("person".toList ++ digitsOf number) ++ '@' :: pseudonymDomain
  := by
  have hdigits : toAsciiLowercase ((digitsOf number).filter Char.isAlphanum) = digitsOf number := by
    rw [List.filter_eq_self.mpr fun c hc => ((digitsOf_alphanum number).2 c hc).2,
      toAsciiLowercase_digitsOf]
  have hspace : personNumber number = "Person ".toList ++ digitsOf number := rfl
  have hperson : toAsciiLowercase ("Person ".toList.filter Char.isAlphanum) = "person".toList := by
    decide
  show toAsciiLowercase ((personNumber number).filter Char.isAlphanum) ++ '@' :: pseudonymDomain = _
  rw [hspace, List.filter_append, toAsciiLowercase, List.map_append]
  exact congrArg₂ (fun word digits => word ++ digits ++ '@' :: pseudonymDomain) hperson hdigits

/-- The name in place of another one starts with an invented word, up to its end or a space. -/
theorem Issued.replacement_headWord {assignment : RequestAssignment} {pseudonym : Pseudonym}
    (h : Issued assignment pseudonym) (kind : MatchKind) :
  ∃ word rest, pseudonym.replacement kind = word ++ rest ∧ Invented word ∧ word ≠ []
    ∧ (∀ c ∈ word, c.isAlphanum = true) ∧ word.head?.any Char.isUpper = true
    ∧ (rest = [] ∨ ∃ rest', rest = ' ' :: rest')
  := by
  have hpool : ∀ word ∈ poolWords, Invented word ∧ word ≠ []
      ∧ (∀ c ∈ word, c.isAlphanum = true) ∧ word.head?.any Char.isUpper = true := by
    intro word hword
    obtain ⟨hne, halphanum⟩ := poolWords_alphanum hword
    obtain ⟨first, rest, rfl, hupper, -⟩ := poolWords_capitalized hword
    exact ⟨invented_of_mem hword, hne, halphanum, hupper⟩
  rcases h.pool_or with ⟨given, family, -, hgiven, hfamily, -, -, rfl⟩ | ⟨number, rfl⟩
  · obtain ⟨hi, hne, ha, hu⟩ := hpool given (List.mem_append_left familyNames hgiven)
    obtain ⟨hi', hne', ha', hu'⟩ := hpool family (List.mem_append_right givenNames hfamily)
    cases kind with
    | full => exact ⟨given, ' ' :: family, rfl, hi, hne, ha, hu, Or.inr ⟨family, rfl⟩⟩
    | family => exact ⟨family, [], (List.append_nil _).symm, hi', hne', ha', hu', Or.inl rfl⟩
    | given => exact ⟨given, [], (List.append_nil _).symm, hi, hne, ha, hu, Or.inl rfl⟩
  · rw [numberedReplacement_eq]
    refine ⟨"Person".toList, ' ' :: digitsOf number, rfl, Or.inr ?_, ?_, ?_, ?_,
      Or.inr ⟨digitsOf number, rfl⟩⟩
    · decide
    · decide
    · decide
    · decide

/-- The address in place of another one starts with an invented word in small letters, up to a dot
or the sign. -/
theorem Issued.address_headWord {assignment : RequestAssignment} {pseudonym : Pseudonym}
    (h : Issued assignment pseudonym) :
  ∃ word rest, pseudonym.address = word ++ rest ∧ Invented word ∧ word ≠ []
    ∧ (∀ c ∈ word, c.isAlphanum = true) ∧ word.head?.any Char.isUpper = false
    ∧ ∃ c rest', rest = c :: rest' ∧ c.isAlphanum = false
  := by
  rcases h.pool_or with ⟨given, family, -, hgiven, -, -, -, rfl⟩ | ⟨number, rfl⟩
  · have hall : ∀ given ∈ givenNames, toAsciiLowercase given ≠ []
        ∧ (∀ c ∈ toAsciiLowercase given, c.isAlphanum = true)
        ∧ (toAsciiLowercase given).head?.any Char.isUpper = false
        ∧ toAsciiLowercase (toAsciiLowercase given) ∈ poolWords.map toAsciiLowercase := by
      decide
    obtain ⟨hne, ha, hu, hi⟩ := hall given hgiven
    exact ⟨toAsciiLowercase given, '.' :: (toAsciiLowercase family ++ '@' :: pseudonymDomain),
      by simp [Pseudonym.new], Or.inl hi, hne, ha, hu, '.', _, rfl, rfl⟩
  · rw [numberedAddress_eq]
    refine ⟨"person".toList ++ digitsOf number, '@' :: pseudonymDomain, rfl, Or.inr ?_, ?_, ?_, rfl,
      '@', _, rfl, rfl⟩
    · rw [toAsciiLowercase, List.map_append]
      use (digitsOf number).map Char.toLower
      rfl
    · exact List.cons_ne_nil _ _
    · intro c hc
      rcases List.mem_append.mp hc with hc | hc
      · have hall : ∀ c ∈ "person".toList, c.isAlphanum = true := by decide
        exact hall c hc
      · exact ((digitsOf_alphanum number).2 c hc).2

/-! ### Requests that can be decoded -/

/-- The form of a name that is of this kind. -/
def PersonName.canonicalForm (name : PersonName) : MatchKind → Option Text
  | .full => some name.canonicalFull
  | .family => name.family
  | .given => some name.given

/-- All that is found is the first address of a person, or a canonical form of the first name. -/
structure FirstForms (cipher : NameCipher) (pieces : List (Piece Char Finding)) : Prop where
  address : ∀ span finding, .span span finding ∈ pieces → finding.IsAddress →
    ∃ i person, finding = .person i ∧ cipher.people[i]? = some person
      ∧ person.addresses.head? = some span
  name : ∀ span i kind, .span span (.name i kind) ∈ pieces →
    ∃ person name, cipher.people[i]? = some person ∧ person.names.head? = some name
      ∧ name.canonicalForm kind = some span

/-- What is found stands apart, and nothing that is not replaced looks like a pseudonym. -/
structure Restorable (T : CharTable) (assignment : RequestAssignment)
    (pieces : List (Piece Char Finding)) : Prop where
  /-- No name is found right before something else. -/
  apart : ∀ others span i kind span' finding others',
    pieces ≠ others ++ .span span (.name i kind) :: .span span' finding :: others'
  /-- No dot or dash stands right after an address. -/
  followed : ∀ others span finding c others', finding.IsAddress →
    pieces = others ++ .span span finding :: .symbol c :: others' → c ≠ '.' ∧ c ≠ '-'
  /-- The domain of the pseudonyms does not stand right after a name. -/
  unsigned : ∀ others span i kind others',
    pieces = others ++ .span span (.name i kind) :: .symbol '@' :: others' →
      ¬ pseudonymDomain <+: toAsciiLowercase (others'.flatMap Piece.source)
  /-- People with numbers are found by their full names. -/
  inFull : ∀ span i kind person, .span span (.name i kind) ∈ pieces →
    assignment.Assigned i person → person.pseudonym.family = none → kind = .full
  /-- Their numbers do not stand in the text. -/
  unnumbered : ∀ i person, assignment.Assigned i person → person.pseudonym.family = none →
    ∀ others c others', pieces = others ++ .symbol c :: others' →
      wholeWordMatchAt T (others.flatMap Piece.source).reverse
        (c :: others'.flatMap Piece.source) person.pseudonym.full = false

/-- The text is one of a request that can be decoded. -/
structure Setting (T : CharTable) (cipher : NameCipher) (assignment : RequestAssignment)
    (text : Text) : Prop where
  formed : cipher.Formed
  indexed : cipher.Indexed
  sound : assignment.Sound cipher assignment.skippedTokens
  covers : ∀ span finding, .span span finding ∈ cipher.pieces T text → assignment.Covers finding
  tokens : ∀ word ∈ text.splitOnP fun c => !T.isAlphanumeric c, word ≠ [] →
    toAsciiLowercase word ∈ assignment.skippedTokens
  forms : FirstForms cipher (cipher.pieces T text)
  restorable : Restorable T assignment (cipher.pieces T text)

end Desktop
