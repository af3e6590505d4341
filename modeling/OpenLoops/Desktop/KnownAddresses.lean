import OpenLoops.Desktop.KnownNames
import OpenLoops.Desktop.Pseudonyms

/-!
# Known addresses in an encoded text

An address that is known leaves in a text when the scanner does not find it there.  It does not
when around each sign `@` the scanner finds an address, or there is no known address, and when no
name that is replaced adjoins.

A name is found between characters that are not part of words, and an address between characters
that are not part of addresses.  So letters and digits never stand right beside what is found, and
words of the output that start with a plain letter are plain words of the text.
-/

namespace Desktop

section

variable {T : CharTable}

/-! ### Characters of addresses -/

theorem isLocalCharacter_of_isAlpha (c : Char) (h : c.isAlpha = true) :
  isLocalCharacter c = true
  := by
  rw [isLocalCharacter, Char.isAlphanum, h]
  rfl

theorem isDomainCharacter_of_isAlpha (c : Char) (h : c.isAlpha = true) :
  isDomainCharacter c = true
  := by
  rw [isDomainCharacter, Char.isAlphanum, h]
  rfl

theorem isEmailCharacter_of_isLocalCharacter {c : Char} (h : isLocalCharacter c = true) :
  isEmailCharacter c = true
  := by
  simp only [isLocalCharacter, isEmailCharacter, Bool.or_eq_true, decide_eq_true_eq] at h ⊢
  apply h.imp_right
  intro hc
  exact List.mem_append_left ['@'] hc

theorem isLocalCharacter_of_isDomainCharacter {c : Char} (h : isDomainCharacter c = true) :
  isLocalCharacter c = true
  := by
  simp only [isDomainCharacter, isLocalCharacter, Bool.or_eq_true, decide_eq_true_eq] at h ⊢
  apply h.imp_right
  intro hc
  simp only [List.mem_cons, List.not_mem_nil, or_false] at hc
  rcases hc with rfl | rfl
  · decide
  · decide

/-! ### Addresses that the scanner can find -/

/-- The scanner finds the address where it stands alone. -/
def Scannable (address : Text) : Prop :=
  emailAt [] address = some (address.length, address)

/-- A text that is a scannable address, but for capital letters. -/
theorem Scannable.split {address text : Text} (h : Scannable address)
    (heq : toAsciiLowercase text = toAsciiLowercase address) :
  ∃ localPart domain, text = localPart ++ '@' :: domain ∧ localPart ≠ []
    ∧ (∀ c ∈ localPart, isLocalCharacter c = true) ∧ (∀ c ∈ domain, isDomainCharacter c = true)
    ∧ ∃ c, domain.getLast? = some c ∧ (decide (c = '.') || decide (c = '-')) = false
  := by
  obtain ⟨l, d, dots, after, haddress, hsplit, hlength, -⟩ := emailAt_eq_some.mp h
  have hrest : dots ++ after = [] := by
    have hlengths := congrArg List.length hsplit
    rw [List.length_append, hlength] at hlengths
    apply List.eq_nil_of_length_eq_zero
    omega
  rw [hrest, List.append_nil] at hsplit
  subst hsplit
  rw [toAsciiLowercase, toAsciiLowercase, addressOf, List.map_append, List.map_cons] at heq
  obtain ⟨l', rest, rfl, hl, hrest⟩ := List.map_eq_append_iff.mp heq
  obtain ⟨sign, d', rfl, hsign, hd⟩ := List.map_eq_cons_iff.mp hrest
  obtain rfl : sign = '@' := eq_of_toLower_eq rfl hsign
  refine ⟨l', d', rfl, ?_, forall_of_toAsciiLowercase_eq isLocalCharacter_of_isAlpha hl
    haddress.isLocal, forall_of_toAsciiLowercase_eq isDomainCharacter_of_isAlpha hd
    haddress.isDomain, ?_⟩
  · rintro rfl
    exact haddress.ne_nil (List.map_eq_nil_iff.mp hl.symm)
  · have hlast : d'.getLast?.map Char.toLower = d.getLast?.map Char.toLower := by
      rw [← List.getLast?_map, hd, List.getLast?_map]
    have hletters : ∀ c : Char, c.isAlpha = true →
        (!(decide (c = '.') || decide (c = '-'))) = true := by
      intro c halpha
      simp only [Bool.not_eq_true', Bool.or_eq_false_iff, decide_eq_false_iff_not]
      constructor
      · rintro rfl
        cases halpha
      · rintro rfl
        cases halpha
    rcases hd' : d'.getLast? with _ | c
    · rw [hd'] at hlast
      have hnil := List.getLast?_eq_none_iff.mp (Option.map_eq_none_iff.mp hlast.symm)
      rw [hnil] at haddress
      cases haddress.dot
    · use c, rfl
      rw [hd'] at hlast
      obtain ⟨c', hc', hlower⟩ := Option.map_eq_some_iff.mp hlast.symm
      have hstays := haddress.last c' hc'
      have hsame := class_toLower hletters c
      rw [← hlower, class_toLower hletters c', hstays] at hsame
      rwa [eq_comm, Bool.not_eq_eq_eq_not] at hsame

/-! ### Replacements -/

/-- Numbers of people are written with digits. -/
theorem mem_personNumber {number : ℕ} {c : Char} (h : c ∈ personNumber number) :
  c.isAlphanum = true ∨ c = ' '
  := by
  rcases List.mem_append.mp h with h | h
  · have hall : ∀ c ∈ "Person ".toList, c.isAlphanum = true ∨ c = ' ' := by decide
    exact hall c h
  · left
    rw [Nat.toList_repr] at h
    rw [Char.isAlphanum, Nat.isDigit_of_mem_toDigits (by decide) le_rfl h, Bool.or_true]

/-- The address of a person by number is made of digits and of these. -/
theorem mem_numberedAddress {number : ℕ} {c : Char}
    (h : c ∈ (Pseudonym.new (personNumber number) none).address) :
  c.isDigit = true ∨ c ∈ "person@example.invalid".toList
  := by
  rcases List.mem_append.mp h with h | h
  · obtain ⟨c', hc', rfl⟩ := List.mem_map.mp h
    rcases List.mem_append.mp (List.mem_filter.mp hc').1 with hword | hdigits
    · have hall : ∀ c ∈ "Person ".toList, c.isAlphanum = true →
          c.toLower ∈ "person@example.invalid".toList := by decide
      exact Or.inr (hall c' hword (List.mem_filter.mp hc').2)
    · left
      rw [Nat.toList_repr] at hdigits
      have hdigit := Nat.isDigit_of_mem_toDigits (by decide) le_rfl hdigits
      rwa [toLower_of_isDigit hdigit]
  · have hall : ∀ c ∈ '@' :: pseudonymDomain, c ∈ "person@example.invalid".toList := by
      decide
    exact Or.inr (hall c h)

/-- What stands in place of names is made of letters and digits. -/
theorem Issued.mem_replacement {assignment : RequestAssignment} {pseudonym : Pseudonym}
    (h : Issued assignment pseudonym) {kind : MatchKind} {c : Char}
    (hc : c ∈ pseudonym.replacement kind) :
  c.isAlphanum = true ∨ c = ' '
  := by
  cases h with
  | @pool index given family h hlt hgiven hfamily =>
      obtain ⟨hmem, hmem'⟩ := mem_poolWords_of_pair h
      obtain ⟨-, -, -, -, hletters⟩ :=
        poolWords_capitalized (List.mem_append_left familyNames hmem)
      obtain ⟨-, -, -, -, hletters'⟩ :=
        poolWords_capitalized (List.mem_append_right givenNames hmem')
      have hword : ∀ c ∈ given, c.isAlphanum = true := fun c hc => by
        rw [Char.isAlphanum, hletters c hc, Bool.true_or]
      have hword' : ∀ c ∈ family, c.isAlphanum = true := fun c hc => by
        rw [Char.isAlphanum, hletters' c hc, Bool.true_or]
      cases kind with
      | full =>
          rcases List.mem_append.mp (show c ∈ given ++ ' ' :: family from hc) with hc | hc
          · exact Or.inl (hword c hc)
          · rcases List.mem_cons.mp hc with rfl | hc
            · exact Or.inr rfl
            · exact Or.inl (hword' c hc)
      | family => exact Or.inl (hword' c hc)
      | given => exact Or.inl (hword c hc)
  | overflow hle hlt =>
      cases kind with
      | full => exact mem_personNumber hc
      | family => exact mem_personNumber hc
      | given => exact mem_personNumber hc

/-! ### Addresses that do not leave -/

/-- The address is one of a person that is known. -/
def NameCipher.KnownAddress (cipher : NameCipher) (address : Text) : Prop :=
  ∃ personIndex, cipher.byAddress.lookup address = some personIndex

/-- The address stands in the text, but for capital letters. -/
def StandsIn (address text : Text) : Prop :=
  toAsciiLowercase address <:+: toAsciiLowercase text

/-- There is a symbol beyond this, and not one of the class. -/
def Stops (p : Char → Bool) : Option (Piece Char Finding) → Prop
  | none => True
  | some (.symbol c) => p c = false
  | some (.span _ _) => False

/-- The finding is an address. -/
def Finding.IsAddress : Finding → Prop
  | name _ _ => False
  | person _ | protectedAddress _ | otherAddress => True

/-- The known addresses of a text are found there. -/
structure AddressesFound (cipher : NameCipher) (pieces : List (Piece Char Finding)) : Prop where
  /-- Around a sign `@` that is in no address that is found there is plain text in which no known
  address stands, up to a character that is part of no address. -/
  signs : ∀ others others', pieces = others ++ .symbol '@' :: others' →
    ∃ outer, ∃ left right : Text, ∃ outer', others = outer ++ left.map .symbol
      ∧ others' = right.map .symbol ++ outer'
      ∧ Stops isLocalCharacter outer.getLast? ∧ Stops isDomainCharacter outer'.head?
      ∧ ∀ address, cipher.KnownAddress address → ¬ StandsIn address (left ++ '@' :: right)
  /-- No name that is replaced stands right before an address that is found. -/
  before : ∀ others span finding others', pieces = others ++ .span span finding :: others' →
    finding.IsAddress → ∀ outer name i kind, others ≠ outer ++ [.span name (.name i kind)]
  /-- No name that is replaced stands after one, with nothing but dots and dashes between. -/
  after : ∀ others span finding, ∀ dots : Text, ∀ name i kind others',
    pieces = others ++ .span span finding :: (dots.map .symbol ++ .span name (.name i kind) :: others') →
    finding.IsAddress → ∃ c ∈ dots, (decide (c = '.') || decide (c = '-')) = false

/-! ### Around an address -/

/-- An address ends with a character of addresses. -/
theorem AddressAt.getLast {before localPart domain dots after : Text}
    (h : AddressAt before localPart domain dots after) :
  ∃ c, (addressOf localPart domain).getLast? = some c ∧ isDomainCharacter c = true
  := by
  rcases hlast : domain.getLast? with _ | c
  · have hdot := h.dot
    rw [List.getLast?_eq_none_iff.mp hlast] at hdot
    cases hdot
  · use c
    constructor
    · rw [addressOf, List.getLast?_append, List.getLast?_cons, hlast]
      rfl
    · exact h.isDomain c (List.mem_of_getLast? hlast)

section Around

variable {cipher : NameCipher} (hindexed : cipher.Indexed) {text : Text}
  {others others' : List (Piece Char Finding)} {span : Text} {finding : Finding}
  (hpieces : cipher.pieces T text = others ++ .span span finding :: others')
  (haddress : finding.IsAddress)

include hindexed hpieces haddress

/-- Where an address is found, one stands. -/
theorem address_of_pieces :
  ∃ localPart domain dots after,
    AddressAt (others.flatMap Piece.source).reverse localPart domain dots after
      ∧ span = addressOf localPart domain ∧ others'.flatMap Piece.source = dots ++ after
      ∧ Scanned (cipher.found T) (span.reverse ++ (others.flatMap Piece.source).reverse)
        (others'.flatMap Piece.source) others'
  := by
  have hscanned := NameCipher.scanned_pieces (T := T) hindexed text
  rw [hpieces] at hscanned
  obtain ⟨rest, -, hrest⟩ := hscanned.drop
  rw [List.append_nil] at hrest
  cases hrest with
  | @span _ _ rest _ _ hne hfound hrest =>
      have hsource := hrest.source
      rcases NameCipher.found_eq_some hfound with ⟨address, hemail, -⟩ | ⟨m, -, -, -, rfl⟩
      · obtain ⟨localPart, domain, dots, after, hat, hsplit, hlength, -⟩ :=
          emailAt_eq_some.mp hemail
        obtain ⟨rfl, rfl⟩ := List.append_inj hsplit hlength
        exact ⟨localPart, domain, dots, after, hat, rfl, hsource, hsource ▸ hrest⟩
      · cases haddress

/-- What is before an address that is found does not end like the first part of one. -/
theorem stop_before_address (hfound : AddressesFound cipher (cipher.pieces T text))
    (replace : Finding → Text) :
  (Piece.render replace others).getLast?.any isLocalCharacter = false
  := by
  obtain ⟨localPart, domain, dots, after, hat, -⟩ := address_of_pieces hindexed hpieces haddress
  have hstart := hat.start
  rcases others.eq_nil_or_concat with rfl | ⟨outer, piece, rfl⟩
  · rfl
  rw [List.concat_eq_append] at hstart hpieces ⊢
  rw [List.flatMap_append, List.reverse_append] at hstart
  cases piece with
  | symbol c =>
      have hc : isEmailCharacter c = false := hstart
      rw [Piece.render_append, Piece.render_symbol, Piece.render_nil, List.getLast?_concat,
        Option.any_some]
      by_contra hlocal
      rw [Bool.not_eq_false] at hlocal
      rw [isEmailCharacter_of_isLocalCharacter hlocal] at hc
      cases hc
  | span span' finding' =>
      exfalso
      have hcase : finding'.IsAddress ∨ ∃ i kind, finding' = .name i kind := by
        cases finding' with
        | name i kind => exact Or.inr ⟨i, kind, rfl⟩
        | person i => exact Or.inl trivial
        | protectedAddress address => exact Or.inl trivial
        | otherAddress => exact Or.inl trivial
      rcases hcase with haddress' | ⟨i, kind, rfl⟩
      · rw [List.append_assoc] at hpieces
        obtain ⟨l, d, _, _, hat', rfl, -⟩ := address_of_pieces hindexed hpieces haddress'
        obtain ⟨c, hc, hdomain⟩ := hat'.getLast
        rw [show (([Piece.span (addressOf l d) finding'] : List (Piece Char Finding)).flatMap
          Piece.source) = addressOf l d by simp [Piece.source], List.head?_append,
          List.head?_reverse, hc] at hstart
        have hemail := isEmailCharacter_of_isLocalCharacter
          (isLocalCharacter_of_isDomainCharacter hdomain)
        rw [Option.some_or, Option.any_some, hemail] at hstart
        cases hstart
      · exact hfound.before _ _ _ _ hpieces haddress outer span' i kind rfl

end Around

/-- Behind an address there are its dots and dashes, and then a name or a character that is part of
no address. -/
theorem pieces_after_address {cipher : NameCipher} {before rest : Text}
    {pieces : List (Piece Char Finding)} (h : Scanned (cipher.found T) before rest pieces)
    (hbefore : before.head?.any isEmailCharacter = true) {dots after : Text}
    (hrest : rest = dots ++ after)
    (hdots : ∀ c ∈ dots, (decide (c = '.') || decide (c = '-')) = true)
    (hafter : after.head?.any isDomainCharacter = false) :
  ∃ dots' : Text, ∃ outer, pieces = dots'.map .symbol ++ outer
    ∧ (∀ c ∈ dots', (decide (c = '.') || decide (c = '-')) = true)
    ∧ (Stops isDomainCharacter outer.head?
      ∨ ∃ name i kind outer', outer = .span name (.name i kind) :: outer')
  := by
  induction h generalizing dots with
  | nil before => exact ⟨[], [], rfl, nofun, Or.inl trivial⟩
  | @symbol before rest c pieces hfound hscanned ih =>
      rcases dots with _ | ⟨dot, dots⟩
      · rw [List.nil_append] at hrest
        rw [← hrest] at hafter
        exact ⟨[], .symbol c :: pieces, rfl, nofun, Or.inl hafter⟩
      · rw [List.cons_append] at hrest
        obtain ⟨rfl, hsplit⟩ := List.cons.inj hrest
        have hdot := hdots c List.mem_cons_self
        have hemail : isEmailCharacter c = true := isEmailCharacter_of_isLocalCharacter
          (isLocalCharacter_of_isDomainCharacter (isDomainCharacter_of_dot hdot))
        obtain ⟨dots', outer, rfl, hdots', hstop⟩ :=
          ih hemail hsplit fun c hc => hdots c (List.mem_cons_of_mem _ hc)
        refine ⟨c :: dots', outer, rfl, ?_, hstop⟩
        intro c' hc'
        rcases List.mem_cons.mp hc' with rfl | hc'
        · exact hdot
        · exact hdots' c' hc'
  | @span before text rest finding pieces hne hfound hscanned ih =>
      rcases NameCipher.found_eq_some hfound with ⟨address, hemail, -⟩ | ⟨m, -, -, -, rfl⟩
      · obtain ⟨l, d, _, _, hat, -⟩ := emailAt_eq_some.mp hemail
        rw [hat.start] at hbefore
        cases hbefore
      · exact ⟨[], _, rfl, nofun, Or.inr ⟨text, m.personIndex, m.kind, pieces, rfl⟩⟩

/-- The domain of an address that starts in one that is found ends there. -/
theorem domain_in_address {cipher : NameCipher} (hindexed : cipher.Indexed) {text : Text}
    {others others' : List (Piece Char Finding)} {span : Text} {finding : Finding}
    (hpieces : cipher.pieces T text = others ++ .span span finding :: others')
    (haddress : finding.IsAddress) (hfound : AddressesFound cipher (cipher.pieces T text))
    (replace : Finding → Text) {domain rest v : Text}
    (h : v ++ Piece.render replace others' = domain ++ rest)
    (hdomain : ∀ c ∈ domain, isDomainCharacter c = true) {last : Char}
    (hlast : domain.getLast? = some last)
    (hstays : (decide (last = '.') || decide (last = '-')) = false) :
  ∃ w, v = domain ++ w ∧ rest = w ++ Piece.render replace others'
  := by
  obtain ⟨l, d, dots, after, hat, rfl, hsource, hscanned⟩ :=
    address_of_pieces hindexed hpieces haddress
  have hemail : ((addressOf l d).reverse ++ (others.flatMap Piece.source).reverse).head?.any
      isEmailCharacter = true := by
    obtain ⟨c, hc, hd⟩ := hat.getLast
    rw [List.head?_append, List.head?_reverse, hc]
    exact isEmailCharacter_of_isLocalCharacter (isLocalCharacter_of_isDomainCharacter hd)
  obtain ⟨dots', outer, rfl, hdots', hstop⟩ :=
    pieces_after_address hscanned hemail hsource hat.isDot hat.stop
  have hhead : (Piece.render replace outer).head?.any isDomainCharacter = false := by
    rcases hstop with hstop | ⟨name, i, kind, outer', rfl⟩
    · rcases outer with _ | ⟨⟨c⟩ | ⟨s, f⟩, outer⟩
      · rfl
      · exact hstop
      · exact hstop.elim
    · obtain ⟨c, hc, hother⟩ := hfound.after _ _ _ _ _ _ _ _ hpieces haddress
      rw [hdots' c hc] at hother
      cases hother
  rw [Piece.render_append, Piece.render_map_symbol, ← List.append_assoc] at h
  obtain ⟨y, hy, rfl⟩ := exists_eq_append_of_run' h hdomain hhead
  rcases List.append_eq_append_iff.mp hy with ⟨z, rfl, hz⟩ | ⟨w, rfl, rfl⟩
  · rcases z.eq_nil_or_concat with rfl | ⟨z, c, rfl⟩
    · use []
      rw [Piece.render_append, Piece.render_map_symbol, hz]
      simp
    · -- The last character of the domain would be a dot or a dash.
      rw [List.concat_eq_append, ← List.append_assoc, List.getLast?_concat] at hlast
      cases hlast
      rw [hdots' last (by rw [hz]; simp)] at hstays
      cases hstays
  · use w, rfl
    rw [Piece.render_append, Piece.render_map_symbol, List.append_assoc]

/-! ### Requests -/

/-- Nobody is known by an address that stands in one of the pool, or in the one for others. -/
structure NoneInvented (cipher : NameCipher) : Prop where
  generic : ∀ address, cipher.KnownAddress address → ¬ StandsIn address genericAddress
  pool : ∀ address, cipher.KnownAddress address → ∀ (index : ℕ) (given family : Text),
    poolPairs[index]? = some (given, family) →
      ¬ StandsIn address (Pseudonym.new given (some family)).address

/-- Nobody is known by an address that stands in one of a person by number. -/
def NoneNumbered (cipher : NameCipher) : Prop :=
  ∀ address, cipher.KnownAddress address → ∀ number, 25 ≤ number →
    ¬ StandsIn address (Pseudonym.new (personNumber number) none).address

/-- What stands between the others is part of a protected address. -/
def InProtected (cipher : NameCipher) (before text after : Text) : Prop :=
  ∃ outer inner inner' outer', before = outer ++ inner ∧ after = inner' ++ outer'
    ∧ toAsciiLowercase (inner ++ text ++ inner') ∈ cipher.protectedAddresses

/-- Where a known address stands in an encoded text, it is part of a protected one. -/
theorem inProtected_of_encodedAs {cipher : NameCipher} (hindexed : cipher.Indexed)
    {tokens : List Text} {assignment : RequestAssignment} (hsound : assignment.Sound cipher tokens)
    (hinvented : NoneInvented cipher) (hnumbered : NoneNumbered cipher) {text output : String}
    (hencoded : EncodedAs T cipher assignment text output)
    (hfound : AddressesFound cipher (cipher.pieces T text.toList)) {address : Text}
    (hknown : cipher.KnownAddress address) (hscannable : Scannable address)
    {before word after : Text} (houtput : output.toList = before ++ word ++ after)
    (heq : toAsciiLowercase word = toAsciiLowercase address) :
  InProtected cipher before word after
  := by
  obtain ⟨localPart, domain, rfl, -, hlocal, hdomain, last, hlast, hstays⟩ := hscannable.split heq
  have hrender : Piece.render assignment.replacement (cipher.pieces T text.toList) =
      (before ++ localPart) ++ '@' :: (domain ++ after) := by
    rw [← hencoded.output, houtput]
    simp
  rcases Piece.render_eq_append_cons hrender with ⟨others, others', hpieces, hleft, hright⟩ |
    ⟨others, span, finding, others', u, v, hpieces, hreplace, hleft, hright⟩
  · -- The sign is in no address that is found.
    exfalso
    obtain ⟨outer, left, right, outer', rfl, rfl, hstop, hstop', hnone⟩ :=
      hfound.signs others others' hpieces
    rw [Piece.render_append, Piece.render_map_symbol] at hleft hright
    have hlast : (Piece.render assignment.replacement outer).getLast?.any isLocalCharacter = false := by
      rcases outer.eq_nil_or_concat with rfl | ⟨outer, ⟨c⟩ | ⟨s, f⟩, rfl⟩
      · rfl
      · rw [List.concat_eq_append, List.getLast?_concat] at hstop
        rw [List.concat_eq_append, Piece.render_append, Piece.render_symbol, Piece.render_nil,
          List.getLast?_concat]
        exact hstop
      · rw [List.concat_eq_append, List.getLast?_concat] at hstop
        exact hstop.elim
    have hhead : (Piece.render assignment.replacement outer').head?.any isDomainCharacter =
        false := by
      rcases outer' with _ | ⟨⟨c⟩ | ⟨s, f⟩, outer'⟩
      · rfl
      · exact hstop'
      · exact hstop'.elim
    obtain ⟨x, rfl, -⟩ := exists_eq_append_of_run hleft.symm hlocal hlast
    obtain ⟨y, rfl, -⟩ := exists_eq_append_of_run' hright.symm hdomain hhead
    apply hnone address hknown
    rw [StandsIn, ← heq]
    apply List.IsInfix.map
    use x, y
    simp
  · have hissued : ∀ i, finding.personIndex = some i →
        ∃ person, assignment.assigned.lookup i = some person
          ∧ Issued assignment person.pseudonym := by
      intro i hi
      obtain ⟨person, hassigned⟩ :=
        hencoded.covers span finding (by rw [hpieces]; simp) i hi
      exact ⟨person, hassigned, hsound.issued i person hassigned⟩
    have haddress : finding.IsAddress := by
      cases finding with
      | person i => trivial
      | protectedAddress t => trivial
      | otherAddress => trivial
      | name i kind =>
          obtain ⟨person, hlookup, hperson⟩ := hissued i rfl
          have hmem : '@' ∈ person.pseudonym.replacement kind := by
            have hsign : '@' ∈ assignment.replacement (.name i kind) := by
              rw [hreplace]
              simp
            rwa [RequestAssignment.replacement, hlookup] at hsign
          rcases hperson.mem_replacement hmem with halphanum | hspace
          · cases halphanum
          · cases hspace
    have hstop := stop_before_address hindexed hpieces haddress hfound assignment.replacement
    obtain ⟨x, rfl, rfl⟩ := exists_eq_append_of_run hleft.symm hlocal hstop
    obtain ⟨y, rfl, rfl⟩ := domain_in_address hindexed hpieces haddress hfound
      assignment.replacement hright.symm hdomain hlast hstays
    have hstands : StandsIn address (assignment.replacement finding) := by
      rw [StandsIn, ← heq]
      apply List.IsInfix.map
      rw [hreplace]
      use x, y
      simp
    cases finding with
    | name i kind => exact haddress.elim
    | otherAddress => exact absurd hstands (hinvented.generic address hknown)
    | person i =>
        exfalso
        obtain ⟨person, hlookup, hperson⟩ := hissued i rfl
        rw [RequestAssignment.replacement, hlookup] at hstands
        have hinfix : StandsIn address person.pseudonym.address := hstands
        generalize person.pseudonym = pseudonym at hperson hinfix
        cases hperson with
        | pool hpair => exact hinvented.pool address hknown _ _ _ hpair hinfix
        | overflow hle => exact hnumbered address hknown _ hle hinfix
    | protectedAddress t =>
        obtain ⟨rfl, hprotected⟩ := NameCipher.protected_of_pieces hindexed hpieces
        use Piece.render assignment.replacement others, x, y, Piece.render assignment.replacement others'
        refine ⟨rfl, rfl, ?_⟩
        have hwhole : x ++ (localPart ++ '@' :: domain) ++ y = t := by
          have hkept : t = x ++ localPart ++ '@' :: (domain ++ y) := hreplace
          rw [hkept]
          simp
        rwa [hwhole]

/-- Unless people are known by invented addresses, known addresses leave in an encoded request only
in protected ones. -/
def KnownAddressesStay (T : CharTable) (messages : List NameCipher.Source) (state : Json)
    (questions : Questions) : Prop :=
  let cipher := NameCipher.fromMessages T messages
  let encoded := cipher.encodeRequest T state questions
  NoneInvented cipher → ∀ output ∈ requestTexts encoded.state encoded.questions,
    ∀ address, cipher.KnownAddress address → ∀ before word after,
      output.toList = before ++ word ++ after →
        toAsciiLowercase word = toAsciiLowercase address → InProtected cipher before word after

/-- The addresses of a text without other signs are found when no names are. -/
theorem addressesFound_of_forall {cipher : NameCipher} {pieces : List (Piece Char Finding)}
    (h : ∀ piece ∈ pieces, piece ≠ .symbol '@' ∧ ∀ name i kind, piece ≠ .span name (.name i kind)) :
  AddressesFound cipher pieces
  := by
  constructor
  · rintro others others' rfl
    exact absurd rfl (h _ (by simp)).1
  · rintro others span finding others' rfl haddress outer name i kind rfl
    exact (h (.span name (.name i kind)) (by simp)).2 name i kind rfl
  · rintro others span finding dots name i kind others' rfl haddress
    exact absurd rfl ((h (.span name (.name i kind)) (by simp)).2 name i kind)

/-- A message of one person. -/
def marenMessage : NameCipher.Source :=
  ⟨["Maren Qorrel <maren@x.com>".toList], [], none, none⟩

def marenName : PersonName :=
  ⟨"Maren Qorrel".toList, ["Maren Qorrel".toList], "Maren".toList, some "Qorrel".toList⟩

/-- Who is known from the message. -/
def marenCipher : NameCipher where
  people := [⟨["maren@x.com".toList], [marenName]⟩]
  byAddress := [("maren@x.com".toList, 0)]
  protectedAddresses := ∅
  nameForms := [('M', ⟨0, 0, .full 0⟩), ('Q', ⟨0, 0, .family⟩), ('M', ⟨0, 0, .given⟩)]

theorem fromMessages_maren :
  NameCipher.fromMessages CharTable.ascii [marenMessage] = marenCipher
  := by
  have hparts : participantParts "Maren Qorrel <maren@x.com>".toList =
      (some "Maren Qorrel".toList, some "maren@x.com".toList) := by decide
  have hname : parsePersonName CharTable.ascii "Maren Qorrel".toList = some { marenName with
      fullForms := ["Maren Qorrel".toList, "Maren Qorrel".toList] } := by decide
  have hknown := @NameCipher.addParticipant_new CharTable.ascii .empty _ _ _ _ hparts
    (by decide) hname (by decide) (by decide) rfl
  rw [NameCipher.fromMessages, List.foldl_cons, List.foldl_nil, NameCipher.addMessage]
  simp only [marenMessage, List.foldl_cons, List.foldl_nil, hknown]
  rw [List.mergeSort_eq_insertionSort]
  decide

/-- The person is known by this address alone. -/
theorem marenCipher_knownAddress {address : Text} :
  marenCipher.KnownAddress address ↔ address = "maren@x.com".toList
  := by
  rw [NameCipher.KnownAddress]
  constructor
  · rintro ⟨i, hi⟩
    rw [marenCipher, List.lookup_cons] at hi
    split at hi
    · rename_i heq
      exact beq_iff_eq.mp heq
    · cases hi
  · rintro rfl
    exact ⟨0, by decide⟩

theorem marenCipher_noneInvented :
  NoneInvented marenCipher
  := by
  constructor
  · rintro address haddress
    rw [marenCipher_knownAddress.mp haddress, StandsIn]
    decide
  · rintro address haddress index given family hpair
    rw [marenCipher_knownAddress.mp haddress, StandsIn]
    have hall : ∀ pair ∈ poolPairs, ¬ toAsciiLowercase "maren@x.com".toList <:+:
        toAsciiLowercase (Pseudonym.new pair.1 (some pair.2)).address := by decide
    exact hall _ (List.mem_of_getElem? hpair)

theorem marenCipher_noneNumbered :
  NoneNumbered marenCipher
  := by
  rintro address haddress number -
  rw [marenCipher_knownAddress.mp haddress, StandsIn]
  intro hinfix
  -- The address has a letter that is in none of those.
  have hmem : 'c' ∈ toAsciiLowercase (Pseudonym.new (personNumber number) none).address :=
    hinfix.subset (by decide)
  obtain ⟨c, hc, hlower⟩ := List.mem_map.mp hmem
  rcases mem_numberedAddress hc with hdigit | hletter
  · rw [toLower_of_isDigit hdigit] at hlower
    rw [hlower] at hdigit
    cases hdigit
  · have hall : ∀ c ∈ "person@example.invalid".toList, c.toLower ≠ 'c' := by decide
    exact hall c hletter hlower

/-- The request with one text. -/
def textState (text : String) : Json :=
  .object [("text", .string text)]

end

/-! ### What stands beside a piece -/

variable {T : CharTable} {cipher : NameCipher} {text : Text}

/-! ### Neighbours -/

theorem isWordCharacter_of_isAlphanum {c : Char} (h : c.isAlphanum = true) :
  isWordCharacter T c = true
  := by
  rw [isWordCharacter, T.isAlphanumeric_ascii (toNat_lt_of_isAlphanum h), h]
  rfl

theorem isEmailCharacter_of_isAlphanum {c : Char} (h : c.isAlphanum = true) :
  isEmailCharacter c = true
  := by
  rw [isEmailCharacter, h]
  rfl

/-- Nothing is found at a plain character. -/
theorem found_of_symbol (hindexed : cipher.Indexed) {others others' : List (Piece Char Finding)}
    {c : Char} (hpieces : cipher.pieces T text = others ++ .symbol c :: others') :
  cipher.found T (others.flatMap Piece.source).reverse (c :: others'.flatMap Piece.source) = none
  := by
  have hscanned := NameCipher.scanned_pieces (T := T) hindexed text
  rw [hpieces] at hscanned
  obtain ⟨rest, -, hrest⟩ := hscanned.drop
  rw [List.append_nil] at hrest
  cases hrest with
  | symbol hfound hrest => rwa [hrest.source]

/-- A finding is an address or a name. -/
theorem Finding.isAddress_or (finding : Finding) :
  finding.IsAddress ∨ ∃ i kind, finding = .name i kind
  := by
  cases finding with
  | name i kind => exact Or.inr ⟨i, kind, rfl⟩
  | person i => exact Or.inl trivial
  | protectedAddress address => exact Or.inl trivial
  | otherAddress => exact Or.inl trivial

/-- A name is found between characters that are not part of words. -/
theorem name_bounds (hindexed : cipher.Indexed) {others others' : List (Piece Char Finding)}
    {span : Text} {i : ℕ} {kind : MatchKind}
    (hpieces : cipher.pieces T text = others ++ .span span (.name i kind) :: others') :
  (others.flatMap Piece.source).getLast?.any (isWordCharacter T) = false
    ∧ (others'.flatMap Piece.source).head?.any (isWordCharacter T) = false
  := by
  obtain ⟨lookup, form, hknown, rfl, -⟩ := NameCipher.best_of_pieces hindexed hpieces
  have htext : text = others.flatMap Piece.source ++ (span ++ others'.flatMap Piece.source) := by
    have hsource := (NameCipher.scanned_pieces (T := T) hindexed text).source
    rw [hpieces, List.flatMap_append, List.flatMap_cons] at hsource
    exact hsource.symm
  rw [NameCipher.KnownAt] at hknown
  rw [htext, List.take_left, List.drop_left] at hknown
  obtain ⟨-, after, heq, hbefore, hafter⟩ := wholeWordMatchAt_iff.mp hknown.2
  rw [List.append_cancel_left heq]
  rw [List.head?_reverse] at hbefore
  exact ⟨hbefore, hafter⟩

/-- An address is found where no character of addresses stands before, and no letter or digit
after. -/
theorem address_bounds (hindexed : cipher.Indexed) {others others' : List (Piece Char Finding)}
    {span : Text} {finding : Finding}
    (hpieces : cipher.pieces T text = others ++ .span span finding :: others')
    (haddress : finding.IsAddress) :
  (others.flatMap Piece.source).getLast?.any isEmailCharacter = false
    ∧ (others'.flatMap Piece.source).head?.any isEmailContinuation = false
    ∧ ∃ c, span.getLast? = some c ∧ c.isAlphanum = true
  := by
  obtain ⟨l, d, dots, after, hat, rfl, hsource, -⟩ := address_of_pieces hindexed hpieces haddress
  have hstart := hat.start
  rw [List.head?_reverse] at hstart
  refine ⟨hstart, ?_, ?_⟩
  · rw [hsource]
    exact hat.continuation
  · obtain ⟨c, hc, hdomain⟩ := hat.getLast
    use c, hc
    have hlast : d.getLast? = some c := by
      rw [addressOf, List.getLast?_append, List.getLast?_cons] at hc
      rcases hd : d.getLast? with _ | c'
      · have hdot := hat.dot
        rw [List.getLast?_eq_none_iff.mp hd] at hdot
        cases hdot
      · rw [hd] at hc
        exact hc
    have hstays := hat.last c hlast
    rw [isDomainCharacter, Bool.or_eq_true] at hdomain
    apply hdomain.resolve_right
    intro hdot
    simp only [List.mem_cons, List.not_mem_nil, or_false, decide_eq_true_eq] at hdot
    rcases hdot with rfl | rfl
    · cases hstays
    · cases hstays

/-- Nothing is found right after a letter or a digit. -/
theorem not_span_after_alphanum (hindexed : cipher.Indexed) {others others' : List (Piece Char Finding)}
    {c : Char} (hc : c.isAlphanum = true) {span : Text} {finding : Finding} :
  cipher.pieces T text ≠ others ++ .symbol c :: .span span finding :: others'
  := by
  intro hpieces
  rw [List.append_cons] at hpieces
  have hlast : ((others ++ [Piece.symbol c]).flatMap Piece.source).getLast? = some c := by
    simp [Piece.source]
  rcases finding.isAddress_or with haddress | ⟨i, kind, rfl⟩
  · have hbefore := (address_bounds hindexed hpieces haddress).1
    rw [hlast, Option.any_some, isEmailCharacter_of_isAlphanum hc] at hbefore
    cases hbefore
  · have hbefore := (name_bounds hindexed hpieces).1
    rw [hlast, Option.any_some, isWordCharacter_of_isAlphanum hc] at hbefore
    cases hbefore

/-- No letter or digit stands right after what is found. -/
theorem not_alphanum_after_span (hindexed : cipher.Indexed) {others others' : List (Piece Char Finding)}
    {c : Char} (hc : c.isAlphanum = true) {span : Text} {finding : Finding} :
  cipher.pieces T text ≠ others ++ .span span finding :: .symbol c :: others'
  := by
  intro hpieces
  rcases finding.isAddress_or with haddress | ⟨i, kind, rfl⟩
  · have hafter := (address_bounds hindexed hpieces haddress).2.1
    rw [List.flatMap_cons, Piece.source, List.singleton_append, List.head?_cons, Option.any_some,
      isEmailContinuation, hc] at hafter
    cases hafter
  · have hafter := (name_bounds hindexed hpieces).2
    rw [List.flatMap_cons, Piece.source, List.singleton_append, List.head?_cons, Option.any_some,
      isWordCharacter_of_isAlphanum hc] at hafter
    cases hafter

/-- Nothing is found right after an address. -/
theorem not_span_after_address (hindexed : cipher.Indexed)
    {others others' : List (Piece Char Finding)} {span span' : Text} {finding finding' : Finding}
    (haddress : finding.IsAddress) :
  cipher.pieces T text ≠ others ++ .span span finding :: .span span' finding' :: others'
  := by
  intro hpieces
  obtain ⟨-, -, c, hlast, hc⟩ := address_bounds hindexed hpieces haddress
  rw [List.append_cons] at hpieces
  have hlast' : ((others ++ [Piece.span span finding]).flatMap Piece.source).getLast? = some c := by
    rw [List.flatMap_append, List.flatMap_singleton, Piece.source, List.getLast?_append, hlast]
    rfl
  rcases finding'.isAddress_or with haddress' | ⟨i, kind, rfl⟩
  · have hbefore := (address_bounds hindexed hpieces haddress').1
    rw [hlast', Option.any_some, isEmailCharacter_of_isAlphanum hc] at hbefore
    cases hbefore
  · have hbefore := (name_bounds hindexed hpieces).1
    rw [hlast', Option.any_some, isWordCharacter_of_isAlphanum hc] at hbefore
    cases hbefore

end Desktop
