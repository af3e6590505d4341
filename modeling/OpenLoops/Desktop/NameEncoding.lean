import OpenLoops.Desktop.NameCoding
import OpenLoops.Desktop.NameMatching

/-!
# Encoding in pieces

A text that is encoded is cut into pieces, and each span is replaced by what its person is called
in the request, if it is found for a person.  Once a person has a pseudonym it does not change.
-/

namespace Desktop

/-! ### Addresses in a text -/

/-- An address stands after what stands before, with dots and dashes behind it and what comes
then. -/
structure AddressAt (before localPart domain dots after : Text) : Prop where
  start : before.head?.any isEmailCharacter = false
  ne_nil : localPart ≠ []
  isLocal : ∀ c ∈ localPart, isLocalCharacter c = true
  isDomain : ∀ c ∈ domain, isDomainCharacter c = true
  dot : '.' ∈ domain
  head : domain.head? ≠ some '.'
  last : ∀ c, domain.getLast? = some c → (decide (c = '.') || decide (c = '-')) = false
  isDot : ∀ c ∈ dots, (decide (c = '.') || decide (c = '-')) = true
  stop : after.head?.any isDomainCharacter = false
  continuation : (dots ++ after).head?.any isEmailContinuation = false

/-- The address, as it stands in the text. -/
def addressOf (localPart domain : Text) : Text :=
  localPart ++ '@' :: domain

theorem isDomainCharacter_of_dot {c : Char} (h : (decide (c = '.') || decide (c = '-')) = true) :
  isDomainCharacter c = true
  := by
  rw [Bool.or_eq_true, decide_eq_true_eq, decide_eq_true_eq] at h
  rcases h with rfl | rfl
  · decide
  · decide

/-- The scanner finds exactly the addresses. -/
theorem emailAt_eq_some {before rest address : Text} {length : ℕ} :
  emailAt before rest = some (length, address) ↔ ∃ localPart domain dots after,
    AddressAt before localPart domain dots after
      ∧ rest = addressOf localPart domain ++ (dots ++ after)
      ∧ length = (addressOf localPart domain).length
      ∧ address = toAsciiLowercase (addressOf localPart domain)
  := by
  rw [emailAt]
  constructor
  · intro h
    split_ifs at h with hbefore
    dsimp only at h
    have hrest : rest.takeWhile isLocalCharacter ++ rest.dropWhile isLocalCharacter = rest :=
      List.takeWhile_append_dropWhile
    split at h
    · rename_i tail htail
      rw [htail] at hrest
      obtain ⟨dots, hdomain, hdots, hlast⟩ := trimEndMatches_split
        (fun c => decide (c = '.') || decide (c = '-')) (tail.takeWhile isDomainCharacter)
      have hsplit : tail.takeWhile isDomainCharacter ++ tail.dropWhile isDomainCharacter = tail :=
        List.takeWhile_append_dropWhile
      have hall : ∀ c ∈ tail.takeWhile isDomainCharacter, isDomainCharacter c = true :=
        fun c hc => List.mem_takeWhile_imp hc
      have hafter := List.head?_dropWhile_not isDomainCharacter tail
      generalize trimEndMatches (fun c => decide (c = '.') || decide (c = '-'))
        (tail.takeWhile isDomainCharacter) = domain at h hdomain hlast
      generalize tail.dropWhile isDomainCharacter = after at hsplit hafter
      rw [hdomain, List.append_assoc] at hsplit
      rw [hdomain] at hall
      split_ifs at h with hreject
      simp only [not_or, Bool.not_eq_true, not_not] at hreject
      obtain ⟨hlocal, hdot, hhead, hcontinuation⟩ := hreject
      rw [← hsplit, List.drop_left] at hcontinuation
      cases h
      refine ⟨_, domain, dots, after, ⟨?_, hlocal, ?_, ?_, hdot, hhead, hlast, hdots, ?_,
        hcontinuation⟩, ?_, rfl, rfl⟩
      · rwa [Bool.not_eq_true] at hbefore
      · exact fun c hc => List.mem_takeWhile_imp hc
      · exact fun c hc => hall c (List.mem_append_left dots hc)
      · rcases after with _ | ⟨c, after⟩
        · rfl
        · simpa using hafter
      · rw [addressOf, List.append_assoc, List.cons_append, hsplit, hrest]
    · cases h
  · rintro ⟨localPart, domain, dots, after, h, rfl, rfl, rfl⟩
    have hsplit : addressOf localPart domain ++ (dots ++ after) =
        localPart ++ ('@' :: (domain ++ (dots ++ after))) := by
      rw [addressOf]
      simp
    have hlocal : ('@' :: (domain ++ (dots ++ after))).head?.any isLocalCharacter = false := rfl
    have htake : (domain ++ (dots ++ after)).takeWhile isDomainCharacter = domain ++ dots := by
      rw [← List.append_assoc]
      apply takeWhile_append_eq _ h.stop
      intro c hc
      rcases List.mem_append.mp hc with hc | hc
      · exact h.isDomain c hc
      · exact isDomainCharacter_of_dot (h.isDot c hc)
    rw [h.start, if_neg Bool.false_ne_true, hsplit, takeWhile_append_eq h.isLocal hlocal,
      dropWhile_append_eq h.isLocal hlocal]
    simp only [htake]
    rw [trimEndMatches_append h.last h.isDot, List.drop_left, h.continuation, if_neg]
    · rfl
    · simp [h.ne_nil, h.dot, h.head]

variable {T : CharTable}

/-! ### Assignments -/

namespace RequestAssignment

/-- The person has a pseudonym. -/
def Assigned (assignment : RequestAssignment) (personIndex : ℕ) (person : AssignedPerson) : Prop :=
  assignment.assigned.lookup personIndex = some person

/-- Nobody has lost a pseudonym. -/
def Extends (assignment assignment' : RequestAssignment) : Prop :=
  ∀ personIndex person, assignment.Assigned personIndex person →
    assignment'.Assigned personIndex person

theorem Extends.refl (assignment : RequestAssignment) :
  assignment.Extends assignment
  := fun _ _ h => h

theorem Extends.trans {assignment assignment' assignment'' : RequestAssignment}
    (h : assignment.Extends assignment') (h' : assignment'.Extends assignment'') :
  assignment.Extends assignment''
  := fun i person hassigned => h' i person (h i person hassigned)

/-- What stands in place of what is found, by the pseudonyms of the request. -/
def replacement (assignment : RequestAssignment) : Finding → Text
  | .person personIndex => ((assignment.assigned.lookup personIndex).map fun person =>
      person.pseudonym.address).getD []
  | .protectedAddress text => text
  | .otherAddress => genericAddress
  | .name personIndex kind => ((assignment.assigned.lookup personIndex).map fun person =>
      person.pseudonym.replacement kind).getD []

end RequestAssignment

/-- The person for whom something is found. -/
def Finding.personIndex : Finding → Option ℕ
  | person i => some i
  | name i _ => some i
  | protectedAddress _ | otherAddress => none

namespace RequestAssignment

/-- The person of the finding has a pseudonym, if there is one. -/
def Covers (assignment : RequestAssignment) (finding : Finding) : Prop :=
  ∀ personIndex, finding.personIndex = some personIndex →
    ∃ person, assignment.Assigned personIndex person

theorem Covers.mono {assignment assignment' : RequestAssignment} {finding : Finding}
    (h : assignment.Covers finding) (hextends : assignment.Extends assignment') :
  assignment'.Covers finding
  := by
  intro i hi
  obtain ⟨person, hperson⟩ := h i hi
  exact ⟨person, hextends i person hperson⟩

/-- The replacement stays the same. -/
theorem Covers.replacement_eq {assignment assignment' : RequestAssignment} {finding : Finding}
    (h : assignment.Covers finding) (hextends : assignment.Extends assignment') :
  assignment'.replacement finding = assignment.replacement finding
  := by
  cases finding with
  | person i =>
      obtain ⟨person, hperson⟩ := h i rfl
      rw [replacement, replacement, hextends i person hperson, hperson]
  | protectedAddress text => rfl
  | otherAddress => rfl
  | name i kind =>
      obtain ⟨person, hperson⟩ := h i rfl
      rw [replacement, replacement, hextends i person hperson, hperson]

end RequestAssignment

/-- What is looked up after an entry more, under a key that was not there. -/
theorem lookup_orderedInsert {α : Type} {entries : List (ℕ × α)} {key : ℕ} {value : α}
    (habsent : entries.lookup key = none) (other : ℕ) :
  (entries.orderedInsert (fun entry entry' => entry.1 ≤ entry'.1) (key, value)).lookup other =
    if other = key then some value else entries.lookup other
  := by
  induction entries with
  | nil =>
      rw [List.orderedInsert_nil, List.lookup_cons]
      split_ifs with heq
      · rw [beq_iff_eq.mpr heq]
      · rw [beq_eq_false_iff_ne.mpr heq]
  | cons entry entries ih =>
      rw [List.lookup_cons] at habsent
      split at habsent
      · cases habsent
      · rename_i hne
        rw [List.orderedInsert_cons]
        split_ifs with hle heq heq
        · rw [List.lookup_cons, beq_iff_eq.mpr heq]
        · rw [List.lookup_cons, beq_eq_false_iff_ne.mpr heq]
        · subst heq
          rw [List.lookup_cons, hne, ih habsent, if_pos rfl]
        · rw [List.lookup_cons, List.lookup_cons, ih habsent, if_neg heq]

namespace RequestAssignment

@[simp]
theorem nextPseudonym_assigned (assignment : RequestAssignment) :
  assignment.nextPseudonym.2.assigned = assignment.assigned
  := by
  rw [nextPseudonym]
  split
  · rfl
  · rfl

/-- Who has a pseudonym keeps it. -/
theorem pseudonym_of_assigned {cipher : NameCipher} {personIndex : ℕ}
    {assignment : RequestAssignment} {person : AssignedPerson}
    (h : assignment.Assigned personIndex person) :
  assignment.pseudonym cipher personIndex = (some person.pseudonym, assignment)
  := by
  rw [pseudonym, h]

/-- The assignment with a new pseudonym for the person. -/
def assign (personIndex : ℕ) (person : Person) (name : PersonName)
    (assignment : RequestAssignment) : RequestAssignment :=
  { assignment.nextPseudonym.2 with
    assigned := assignment.assigned.orderedInsert (fun entry entry' => entry.1 ≤ entry'.1)
      (personIndex, ⟨assignment.nextPseudonym.1, name, person.addresses.head?.getD []⟩) }

/-- The pseudonyms after one more is assigned. -/
theorem assign_assigned {personIndex : ℕ} {assignment : RequestAssignment}
    (hlookup : assignment.assigned.lookup personIndex = none) (person : Person) (name : PersonName)
    (other : ℕ) (assigned : AssignedPerson) :
  (assignment.assign personIndex person name).Assigned other assigned ↔
    if other = personIndex then
      assigned = ⟨assignment.nextPseudonym.1, name, person.addresses.head?.getD []⟩
    else assignment.Assigned other assigned
  := by
  rw [Assigned, assign, lookup_orderedInsert hlookup]
  split_ifs
  · rw [Option.some.injEq, eq_comm]
  · rfl

/-- Who has no pseudonym is assigned the next one. -/
theorem pseudonym_of_unassigned {cipher : NameCipher} {personIndex : ℕ}
    {assignment : RequestAssignment} (hlookup : assignment.assigned.lookup personIndex = none)
    {person : Person} (hperson : cipher.people[personIndex]? = some person) {name : PersonName}
    (hname : person.names.head? = some name) :
  assignment.pseudonym cipher personIndex =
    (some assignment.nextPseudonym.1, assignment.assign personIndex person name)
  := by
  rw [pseudonym, hlookup]
  simp only [hperson, Option.bind_some, hname, Option.map_some, nextPseudonym_assigned]
  rfl

/-- Who is asked for a pseudonym has one then. -/
theorem pseudonym_spec {cipher : NameCipher} (hformed : cipher.Formed) {personIndex : ℕ}
    (hlt : personIndex < cipher.people.length) (assignment : RequestAssignment) :
  ∃ person, (assignment.pseudonym cipher personIndex).1 = some person.pseudonym
    ∧ (assignment.pseudonym cipher personIndex).2.Assigned personIndex person
    ∧ assignment.Extends (assignment.pseudonym cipher personIndex).2
  := by
  rcases hlookup : assignment.assigned.lookup personIndex with _ | person
  · have hperson := List.getElem?_eq_getElem hlt
    obtain ⟨name, hname⟩ := Option.ne_none_iff_exists'.mp
      (mt List.head?_eq_none_iff.mp (hformed.named _ (List.getElem_mem hlt)).1)
    rw [pseudonym_of_unassigned hlookup hperson hname]
    use ⟨assignment.nextPseudonym.1, name, cipher.people[personIndex].addresses.head?.getD []⟩, rfl
    constructor
    · apply (assign_assigned hlookup _ name personIndex _).mpr
      rw [if_pos rfl]
    · intro i assigned hassigned
      apply (assign_assigned hlookup _ name i assigned).mpr
      rw [if_neg]
      · exact hassigned
      · rintro rfl
        rw [Assigned, hlookup] at hassigned
        cases hassigned
  · rw [pseudonym_of_assigned hlookup]
    exact ⟨person, rfl, hlookup, Extends.refl assignment⟩

end RequestAssignment

/-! ### Findings -/

namespace NameCipher

/-- The form of a person that is known. -/
theorem Knows.personIndex_lt {cipher : NameCipher} {lookup : NameLookup} {form : Text}
    (h : cipher.Knows lookup form) :
  lookup.personIndex < cipher.people.length
  := by
  obtain ⟨name, hname, -⟩ := Option.bind_eq_some_iff.mp h.1
  obtain ⟨person, hperson, -⟩ := Option.bind_eq_some_iff.mp hname
  exact (List.getElem?_eq_some_iff.mp hperson).1

/-- The ways in which something is found at a place. -/
theorem found_eq_some {cipher : NameCipher} {before rest : Text} {length : ℕ}
    {finding : Finding} (h : cipher.found T before rest = some (length, finding)) :
  (∃ address, emailAt before rest = some (length, address) ∧
    ((∃ i, cipher.byAddress.lookup address = some i ∧ finding = .person i)
      ∨ cipher.byAddress.lookup address = none ∧ address ∈ cipher.protectedAddresses
        ∧ finding = .protectedAddress (rest.take length)
      ∨ cipher.byAddress.lookup address = none ∧ address ∉ cipher.protectedAddresses
        ∧ finding = .otherAddress))
    ∨ ∃ m, emailAt before rest = none ∧ cipher.bestNameMatch T before rest = some m
      ∧ length = m.length ∧ finding = .name m.personIndex m.kind
  := by
  rw [found] at h
  rcases hemail : emailAt before rest with _ | ⟨n, address⟩
  · rw [hemail] at h
    obtain ⟨m, hm, heq⟩ := Option.map_eq_some_iff.mp h
    cases heq
    exact Or.inr ⟨m, rfl, hm, rfl, rfl⟩
  · rw [hemail] at h
    dsimp only at h
    rcases hlookup : cipher.byAddress.lookup address with _ | i
    · rw [hlookup] at h
      dsimp only at h
      split_ifs at h with hprotected
      · cases h
        exact Or.inl ⟨address, rfl, Or.inr (Or.inl ⟨hlookup, hprotected, rfl⟩)⟩
      · cases h
        exact Or.inl ⟨address, rfl, Or.inr (Or.inr ⟨hlookup, hprotected, rfl⟩)⟩
    · rw [hlookup] at h
      cases h
      exact Or.inl ⟨address, rfl, Or.inl ⟨i, hlookup, rfl⟩⟩

/-- The people for whom something is found are known. -/
theorem found_personIndex_lt {cipher : NameCipher} (hformed : cipher.Formed)
    (hindexed : cipher.Indexed) {before rest : Text} {length : ℕ} {finding : Finding}
    (h : cipher.found T before rest = some (length, finding)) {personIndex : ℕ}
    (hperson : finding.personIndex = some personIndex) :
  personIndex < cipher.people.length
  := by
  rcases found_eq_some h with ⟨address, -, ⟨i, hlookup, rfl⟩ | ⟨-, -, rfl⟩ | ⟨-, -, rfl⟩⟩ |
    ⟨m, -, hmatch, -, rfl⟩
  · cases hperson
    obtain ⟨person, hget, -⟩ := (hformed.addressed _ _).mp hlookup
    exact (List.getElem?_eq_some_iff.mp hget).1
  · cases hperson
  · cases hperson
  · cases hperson
    obtain ⟨lookup, form, ⟨hknows, -⟩, -, rfl, -⟩ := bestNameMatch_eq_some hindexed hmatch
    exact hknows.personIndex_lt

/-- What is found is some of the text. -/
theorem found_fits {cipher : NameCipher} (hindexed : cipher.Indexed) :
  Fits (cipher.found T)
  := by
  have hbounds : ∀ {before rest : Text} {length : ℕ} {finding : Finding},
      cipher.found T before rest = some (length, finding) → 0 < length ∧ length ≤ rest.length := by
    intro before rest length finding h
    rcases found_eq_some h with ⟨address, hemail, -⟩ | ⟨m, -, hmatch, rfl, -⟩
    · obtain ⟨localPart, domain, dots, after, -, rfl, rfl, -⟩ := emailAt_eq_some.mp hemail
      constructor
      · rw [addressOf, List.length_append, List.length_cons]
        omega
      · rw [List.length_append]
        omega
    · obtain ⟨lookup, form, ⟨-, hword⟩, -, rfl, -⟩ := bestNameMatch_eq_some hindexed hmatch
      obtain ⟨hne, after, rfl, -, -⟩ := wholeWordMatchAt_iff.mp hword
      constructor
      · exact List.length_pos_of_ne_nil hne
      · rw [List.length_append]
        exact Nat.le_add_right _ _
  exact ⟨fun h => (hbounds h).1, fun h => (hbounds h).2⟩

/-- The pieces of a text. -/
def pieces (T : CharTable) (cipher : NameCipher) (text : Text) : List (Piece Char Finding) :=
  scan (cipher.found T) [] text 0

theorem scanned_pieces {cipher : NameCipher} (hindexed : cipher.Indexed) (text : Text) :
  Scanned (cipher.found T) [] text (cipher.pieces T text)
  := scanned_scan (found_fits hindexed) [] text

end NameCipher

/-! ### Encoding -/

/-- What is found is replaced by what stands for it. -/
theorem replace_spec {cipher : NameCipher} (hformed : cipher.Formed) {finding : Finding}
    (hknown : ∀ i, finding.personIndex = some i → i < cipher.people.length)
    (assignment : RequestAssignment) :
  (replace cipher finding assignment).1 = (replace cipher finding assignment).2.replacement finding
    ∧ assignment.Extends (replace cipher finding assignment).2
    ∧ (replace cipher finding assignment).2.Covers finding
  := by
  cases finding with
  | person i =>
      obtain ⟨person, hpseudonym, hassigned, hextends⟩ :=
        RequestAssignment.pseudonym_spec hformed (hknown i rfl) assignment
      refine ⟨?_, hextends, ?_⟩
      · show (Option.map Pseudonym.address (assignment.pseudonym cipher i).1).getD [] =
          (((assignment.pseudonym cipher i).2.assigned.lookup i).map fun person =>
            person.pseudonym.address).getD []
        rw [hassigned, hpseudonym]
        rfl
      · rintro _ ⟨⟩
        exact ⟨person, hassigned⟩
  | protectedAddress text => exact ⟨rfl, .refl _, nofun⟩
  | otherAddress => exact ⟨rfl, .refl _, nofun⟩
  | name i kind =>
      obtain ⟨person, hpseudonym, hassigned, hextends⟩ :=
        RequestAssignment.pseudonym_spec hformed (hknown i rfl) assignment
      refine ⟨?_, hextends, ?_⟩
      · show (Option.map (Pseudonym.replacement · kind) (assignment.pseudonym cipher i).1).getD [] =
          (((assignment.pseudonym cipher i).2.assigned.lookup i).map fun person =>
            person.pseudonym.replacement kind).getD []
        rw [hassigned, hpseudonym]
        rfl
      · rintro _ ⟨⟩
        exact ⟨person, hassigned⟩

theorem encodeFrom_skip (cipher : NameCipher) (before text rest : Text)
    (assignment : RequestAssignment) :
  encodeFrom T cipher before (text ++ rest) text.length assignment =
    encodeFrom T cipher (text.reverse ++ before) rest 0 assignment
  := by
  induction text generalizing before with
  | nil => rfl
  | cons c text ih =>
      rw [List.cons_append, List.length_cons, encodeFrom, ih]
      simp

/-- The outcome of encoding is that of replacing the spans, now and later in the request. -/
structure Encoded (assignment assignment' : RequestAssignment) (pieces : List (Piece Char Finding))
    (output : Text) : Prop where
  extends_ : assignment.Extends assignment'
  covers : ∀ text finding, .span text finding ∈ pieces → assignment'.Covers finding
  output : output = Piece.render assignment'.replacement pieces

/-- The pieces are replaced as before when more people have pseudonyms. -/
theorem Encoded.render_eq {assignment assignment' assignment'' : RequestAssignment}
    {pieces : List (Piece Char Finding)} {output : Text}
    (h : Encoded assignment assignment' pieces output) (hextends : assignment'.Extends assignment'') :
  output = Piece.render assignment''.replacement pieces
  := by
  obtain ⟨-, hcovers, rfl⟩ := h
  induction pieces with
  | nil => rfl
  | cons piece pieces ih =>
      have hrest := ih fun text finding hmem => hcovers text finding (List.mem_cons_of_mem _ hmem)
      cases piece with
      | symbol c => rw [Piece.render_symbol, Piece.render_symbol, hrest]
      | span text finding =>
          rw [Piece.render_span, Piece.render_span, hrest,
            (hcovers text finding List.mem_cons_self).replacement_eq hextends]

/-- A text is encoded piece by piece. -/
theorem encodeFrom_encoded {cipher : NameCipher} (hformed : cipher.Formed)
    (hindexed : cipher.Indexed) {before rest : Text} {pieces : List (Piece Char Finding)}
    (h : Scanned (cipher.found T) before rest pieces) (assignment : RequestAssignment) :
  Encoded assignment (encodeFrom T cipher before rest 0 assignment).2 pieces
    (encodeFrom T cipher before rest 0 assignment).1
  := by
  induction h generalizing assignment with
  | nil =>
      rw [encodeFrom]
      exact ⟨.refl _, nofun, rfl⟩
  | symbol hfound hrest ih =>
      rw [encodeFrom, hfound]
      obtain ⟨hextends, hcovers, houtput⟩ := ih assignment
      refine ⟨hextends, ?_, ?_⟩
      · intro text finding hmem
        rcases List.mem_cons.mp hmem with heq | hmem
        · cases heq
        · exact hcovers text finding hmem
      · exact congrArg (List.cons _) houtput
  | @span before text rest finding pieces hne hfound hrest ih =>
      rcases text with _ | ⟨c, text⟩
      · exact absurd rfl hne
      · obtain ⟨hreplaced, hmore, hcovered⟩ := replace_spec hformed
          (fun i => NameCipher.found_personIndex_lt hformed hindexed hfound) assignment
        rw [List.cons_append] at hfound ⊢
        rw [encodeFrom, hfound]
        dsimp only
        rw [List.length_cons, Nat.add_sub_cancel, encodeFrom_skip,
          show text.reverse ++ c :: before = (c :: text).reverse ++ before by simp]
        generalize replace cipher finding assignment = replaced at hreplaced hmore hcovered ⊢
        obtain ⟨hextends, hcovers, houtput⟩ := ih replaced.2
        refine ⟨hmore.trans hextends, ?_, ?_⟩
        · intro text' finding' hmem
          rcases List.mem_cons.mp hmem with heq | hmem
          · cases heq
            exact hcovered.mono hextends
          · exact hcovers text' finding' hmem
        · rw [Piece.render_span, hreplaced, houtput, hcovered.replacement_eq hextends]

/-- A whole text is encoded piece by piece. -/
theorem encodeText_encoded {cipher : NameCipher} (hformed : cipher.Formed)
    (hindexed : cipher.Indexed) (text : Text) (assignment : RequestAssignment) :
  Encoded assignment (encodeText T cipher text assignment).2 (cipher.pieces T text)
    (encodeText T cipher text assignment).1
  := encodeFrom_encoded hformed hindexed (NameCipher.scanned_pieces hindexed text) assignment

end Desktop
