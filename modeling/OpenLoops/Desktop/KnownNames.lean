import OpenLoops.Desktop.NameEncoding

/-!
# Known names in an encoded text

Wherever a known form of a name stands as a whole word, it stands in a span that is replaced, or
it is a given name that is passed over and no longer form stands there.  Where a name is replaced,
the form that is found is the best one.
-/

namespace Desktop

variable {T : CharTable}

/-- The form stands at this place of the text as a whole word. -/
def NameCipher.KnownAt (T : CharTable) (cipher : NameCipher) (text : Text) (place : ℕ)
    (lookup : NameLookup) (form : Text) : Prop :=
  cipher.StandsAt T (text.take place).reverse (text.drop place) lookup form

/-- The place lies in a span of the pieces. -/
def InSpan (pieces : List (Piece Char Finding)) (place : ℕ) : Prop :=
  ∃ others span finding others', pieces = others ++ .span span finding :: others'
    ∧ (others.flatMap Piece.source).length ≤ place
    ∧ place < (others.flatMap Piece.source).length + span.length

/-- The names that stand in a text are replaced in the output. -/
structure NamesReplaced (T : CharTable) (cipher : NameCipher) (assignment : RequestAssignment)
    (text output : Text) (pieces : List (Piece Char Finding)) : Prop where
  source : pieces.flatMap Piece.source = text
  rendered : output = Piece.render assignment.replacement pieces
  assigned : ∀ span finding, .span span finding ∈ pieces → assignment.Covers finding
  /-- Only protected addresses are put back as they are. -/
  kept : ∀ span address, .span span (.protectedAddress address) ∈ pieces →
    address = span ∧ toAsciiLowercase span ∈ cipher.protectedAddresses
  covered : ∀ place lookup form, cipher.KnownAt T text place lookup form → InSpan pieces place ∨
    NameCipher.PassedOver (text.take place).reverse lookup form
      ∧ ∀ lookup' form', cipher.KnownAt T text place lookup' form' → form'.length ≤ form.length
  best : ∀ others span personIndex kind others',
    pieces = others ++ .span span (.name personIndex kind) :: others' →
    ∃ lookup form, cipher.KnownAt T text (others.flatMap Piece.source).length lookup form
      ∧ span = form ∧ lookup.personIndex = personIndex ∧ lookup.part.matchKind = kind
      ∧ ∀ lookup' form', cipher.KnownAt T text (others.flatMap Piece.source).length lookup' form' →
        ¬ (NameCipher.formMatch lookup' form').Beats (NameCipher.formMatch lookup form)

namespace NameCipher

/-- Of the given names that are passed over at a place, none is longer than another. -/
theorem length_le_of_passedOver {cipher : NameCipher} {before rest : Text}
    {lookup lookup' : NameLookup} {form form' : Text}
    (h : cipher.StandsAt T before rest lookup form)
    (h' : cipher.StandsAt T before rest lookup' form') (hpassed : PassedOver before lookup' form') :
  form'.length ≤ form.length
  := by
  by_contra hlonger
  obtain ⟨c, hc, hother⟩ := exists_not_word_of_length_lt h.2 h'.2 (Nat.lt_of_not_le hlonger)
  rw [isWordCharacter_of_englishGivenName hpassed.2.1 c hc] at hother
  cases hother

/-- A known form stands in a span, or is passed over. -/
theorem inSpan_or_passedOver {cipher : NameCipher} (hindexed : cipher.Indexed) {text : Text}
    {place : ℕ} {lookup : NameLookup} {form : Text}
    (h : cipher.KnownAt T text place lookup form) :
  InSpan (cipher.pieces T text) place ∨ PassedOver (text.take place).reverse lookup form
    ∧ ∀ lookup' form', cipher.KnownAt T text place lookup' form' → form'.length ≤ form.length
  := by
  have hplace : place < text.length := by
    by_contra hend
    obtain ⟨hne, after, heq, -, -⟩ := wholeWordMatchAt_iff.mp h.2
    rw [List.drop_of_length_le (Nat.le_of_not_lt hend)] at heq
    exact hne (List.append_eq_nil_iff.mp heq.symm).1
  rcases (scanned_pieces hindexed text).at_place hplace with
    ⟨others, span, finding, others', hpieces, hfrom, hto⟩ | hnone
  · exact Or.inl ⟨others, span, finding, others', hpieces, hfrom, hto⟩
  · right
    rw [List.append_nil] at hnone
    have hmatch : cipher.bestNameMatch T (text.take place).reverse (text.drop place) = none := by
      rw [found] at hnone
      rcases hemail : emailAt (text.take place).reverse (text.drop place) with _ | ⟨n, address⟩
      · rw [hemail] at hnone
        exact Option.map_eq_none_iff.mp hnone
      · rw [hemail] at hnone
        dsimp only at hnone
        rcases hlookup : cipher.byAddress.lookup address with _ | i
        · rw [hlookup] at hnone
          dsimp only at hnone
          split_ifs at hnone
        · rw [hlookup] at hnone
          cases hnone
    use passedOver_of_bestNameMatch_eq_none hindexed hmatch h
    intro lookup' form' h'
    exact length_le_of_passedOver h h' (passedOver_of_bestNameMatch_eq_none hindexed hmatch h')

/-- What is found at the start of a span. -/
theorem found_of_pieces {cipher : NameCipher} (hindexed : cipher.Indexed) {text : Text}
    {others others' : List (Piece Char Finding)} {span : Text} {finding : Finding}
    (h : cipher.pieces T text = others ++ .span span finding :: others') :
  ∃ rest, text = others.flatMap Piece.source ++ (span ++ rest) ∧ span ≠ []
    ∧ cipher.found T (others.flatMap Piece.source).reverse (span ++ rest) =
      some (span.length, finding)
  := by
  have hscanned := scanned_pieces (T := T) hindexed text
  rw [h] at hscanned
  obtain ⟨rest, htext, hrest⟩ := hscanned.drop
  rw [List.append_nil] at hrest
  cases hrest with
  | @span _ _ rest _ _ hne hfound hrest => exact ⟨rest, htext, hne, hfound⟩

/-- The name that is found at the start of a span is the best one. -/
theorem best_of_pieces {cipher : NameCipher} (hindexed : cipher.Indexed) {text : Text}
    {others others' : List (Piece Char Finding)} {span : Text} {personIndex : ℕ} {kind : MatchKind}
    (h : cipher.pieces T text = others ++ .span span (.name personIndex kind) :: others') :
  ∃ lookup form, cipher.KnownAt T text (others.flatMap Piece.source).length lookup form
    ∧ span = form ∧ lookup.personIndex = personIndex ∧ lookup.part.matchKind = kind
    ∧ ∀ lookup' form', cipher.KnownAt T text (others.flatMap Piece.source).length lookup' form' →
      ¬ (formMatch lookup' form').Beats (formMatch lookup form)
  := by
  obtain ⟨rest, rfl, hne, hfound⟩ := found_of_pieces hindexed h
  simp only [KnownAt, List.take_left, List.drop_left]
  rcases found_eq_some hfound with
    ⟨address, -, ⟨i, -, heq⟩ | ⟨-, -, heq⟩ | ⟨-, -, heq⟩⟩ | ⟨m, -, hmatch, hlength, heq⟩
  · cases heq
  · cases heq
  · cases heq
  · cases heq
    obtain ⟨lookup, form, hstands, -, rfl, hbest⟩ := bestNameMatch_eq_some hindexed hmatch
    refine ⟨lookup, form, hstands, ?_, rfl, rfl, hbest⟩
    obtain ⟨-, after, heq, -, -⟩ := wholeWordMatchAt_iff.mp hstands.2
    exact (List.append_inj heq hlength).1

/-- Only protected addresses are put back as they are. -/
theorem protected_of_pieces {cipher : NameCipher} (hindexed : cipher.Indexed) {text : Text}
    {others others' : List (Piece Char Finding)} {span address : Text}
    (h : cipher.pieces T text = others ++ .span span (.protectedAddress address) :: others') :
  address = span ∧ toAsciiLowercase span ∈ cipher.protectedAddresses
  := by
  obtain ⟨rest, rfl, hne, hfound⟩ := found_of_pieces hindexed h
  rcases found_eq_some hfound with
    ⟨found, hemail, ⟨i, -, heq⟩ | ⟨-, hprotected, heq⟩ | ⟨-, -, heq⟩⟩ | ⟨m, -, -, -, heq⟩
  · cases heq
  · cases heq
    rw [List.take_left]
    use rfl
    obtain ⟨localPart, domain, dots, after, -, hrest, hlength, rfl⟩ := emailAt_eq_some.mp hemail
    rwa [(List.append_inj hrest hlength).1]
  · cases heq
  · cases heq

end NameCipher

/-- Known names do not survive encoding as whole words. -/
theorem encodeText_namesReplaced (T : CharTable) (messages : List NameCipher.Source) (text : Text)
    (assignment : RequestAssignment) :
  NamesReplaced T (NameCipher.fromMessages T messages)
    (encodeText T (NameCipher.fromMessages T messages) text assignment).2 text
    (encodeText T (NameCipher.fromMessages T messages) text assignment).1
    ((NameCipher.fromMessages T messages).pieces T text)
  := by
  have hformed := NameCipher.fromMessages_formed T messages
  have hindexed := NameCipher.fromMessages_indexed T messages
  generalize NameCipher.fromMessages T messages = cipher at hformed hindexed
  obtain ⟨-, hcovers, houtput⟩ := encodeText_encoded hformed hindexed text assignment
  constructor
  · exact (NameCipher.scanned_pieces hindexed text).source
  · exact houtput
  · exact hcovers
  · intro span address hmem
    obtain ⟨others, others', hpieces⟩ := List.append_of_mem hmem
    exact NameCipher.protected_of_pieces hindexed hpieces
  · intro place lookup form hknown
    exact NameCipher.inSpan_or_passedOver hindexed hknown
  · intro others span personIndex kind others' hpieces
    exact NameCipher.best_of_pieces hindexed hpieces

end Desktop
