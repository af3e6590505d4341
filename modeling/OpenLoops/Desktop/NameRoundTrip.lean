import Mathlib.Data.List.Chain
import OpenLoops.Desktop.NameDecoding

/-!
# Round trip of the names

A request is encoded and decoded again: people are called differently, and a text that calls them
by their first forms is put back, unless what it has looks like a pseudonym.
-/

namespace Desktop

variable {T : CharTable} {cipher : NameCipher} {assignment : RequestAssignment} {text : Text}

/-! ### Forms of an assignment -/

/-- What stands for the people in an answer. -/
abbrev RequestAssignment.forms (assignment : RequestAssignment) : List DecodeForm :=
  assignment.assigned.flatMap fun entry => entry.2.decodeForms

theorem RequestAssignment.Assigned.mem {i : ℕ} {person : AssignedPerson}
    (h : assignment.Assigned i person) :
  (i, person) ∈ assignment.assigned
  := by
  obtain ⟨entries, entries', heq, -⟩ := List.lookup_eq_some_iff.mp h
  rw [heq]
  exact List.mem_append_right _ List.mem_cons_self

theorem Setting.mem_forms (h : Setting T cipher assignment text) {form : DecodeForm} :
  form ∈ assignment.forms ↔
    ∃ i person, assignment.Assigned i person ∧ form ∈ person.decodeForms
  := by
  rw [RequestAssignment.forms, List.mem_flatMap]
  constructor
  · rintro ⟨entry, hentry, hform⟩
    exact ⟨entry.1, entry.2, h.sound.listed entry hentry, hform⟩
  · rintro ⟨i, person, hassigned, hform⟩
    exact ⟨(i, person), hassigned.mem, hform⟩

/-- Where nothing was replaced no pseudonym stands. -/
theorem Setting.find_at_symbol (h : Setting T cipher assignment text)
    {others rest : List (Piece Char Finding)} {c : Char}
    (hpieces : cipher.pieces T text = others ++ .symbol c :: rest) :
  (assignment.forms.mergeSort DecodeForm.comesFirst).find? (·.matchesAt T
    (assignment.render others).reverse (c :: assignment.render rest)) = none
  := by
  apply List.find?_eq_none.mpr
  intro form hform hmatch
  obtain ⟨i, person, hassigned, hform⟩ := h.mem_forms.mp (List.mem_mergeSort.mp hform)
  have hissued := h.sound.issued i person hassigned
  rcases mem_decodeForms.mp hform with rfl | ⟨kind, real, -, -, rfl⟩
  · obtain ⟨found, after, hrender, heq, hbefore, hafter⟩ :=
      (matchesAt_address hissued _ _ _ _).mp hmatch
    rw [List.head?_reverse] at hbefore
    exact h.not_address_at_symbol hpieces hassigned hrender heq hbefore hafter
  · rw [matchesAt_replacement hissued] at hmatch
    have hnot := h.not_name_at_symbol hpieces hassigned kind
    rw [RequestAssignment.render_symbol, hmatch] at hnot
    cases hnot

/-! ### Pseudonyms of different people -/

/-- Names of the pool that stand at one place are of one pair; the longer one is the full name. -/
theorem poolReplacement_inj {given family given' family' : Text}
    (hpair : (given, family) ∈ poolPairs) (hpair' : (given', family') ∈ poolPairs)
    {kind kind' : MatchKind} {after after' : Text}
    (heq : (Pseudonym.new given (some family)).replacement kind ++ after =
      (Pseudonym.new given' (some family')).replacement kind' ++ after')
    (hafter : after.head?.any Char.isAlphanum = false)
    (hafter' : after'.head?.any Char.isAlphanum = false)
    (hlength : ((Pseudonym.new given (some family)).replacement kind).length ≤
      ((Pseudonym.new given' (some family')).replacement kind').length) :
  given = given' ∧ (kind' = kind
    ∨ kind = .given ∧ kind' = .full ∧ after = ' ' :: (family' ++ after'))
  := by
  obtain ⟨index, hindex⟩ := List.mem_iff_getElem?.mp hpair
  obtain ⟨index', hindex'⟩ := List.mem_iff_getElem?.mp hpair'
  obtain ⟨hgiven, hfamily⟩ := mem_poolWords_of_pair hindex
  obtain ⟨hgiven', hfamily'⟩ := mem_poolWords_of_pair hindex'
  have hword := (poolWords_alphanum (List.mem_append_left familyNames hgiven)).2
  have hword' := (poolWords_alphanum (List.mem_append_left familyNames hgiven')).2
  have hletters := (poolWords_alphanum (List.mem_append_right givenNames hfamily)).2
  have hletters' := (poolWords_alphanum (List.mem_append_right givenNames hfamily')).2
  have hhead := congrArg headWord heq
  cases kind with
  | full =>
      rw [show (Pseudonym.new given (some family)).replacement .full = given ++ ' ' :: family from rfl,
        List.append_assoc, headWord_append hword rfl] at hhead
      rw [show (Pseudonym.new given (some family)).replacement .full = given ++ ' ' :: family from rfl,
        List.length_append] at hlength
      cases kind' with
      | full =>
          rw [show (Pseudonym.new given' (some family')).replacement .full =
            given' ++ ' ' :: family' from rfl, List.append_assoc, headWord_append hword' rfl] at hhead
          exact ⟨hhead, Or.inl rfl⟩
      | family =>
          rw [show (Pseudonym.new given' (some family')).replacement .family = family' from rfl,
            headWord_append hletters' hafter'] at hhead
          exact absurd hhead (given_ne_family hgiven hfamily')
      | given =>
          rw [show (Pseudonym.new given' (some family')).replacement .given = given' from rfl,
            headWord_append hword' hafter'] at hhead
          rw [show (Pseudonym.new given' (some family')).replacement .given = given' from rfl, ← hhead,
            List.length_cons] at hlength
          omega
  | family =>
      rw [show (Pseudonym.new given (some family)).replacement .family = family from rfl,
        headWord_append hletters hafter] at hhead
      cases kind' with
      | full =>
          rw [show (Pseudonym.new given' (some family')).replacement .full =
            given' ++ ' ' :: family' from rfl, List.append_assoc, headWord_append hword' rfl] at hhead
          exact absurd hhead.symm (given_ne_family hgiven' hfamily)
      | family =>
          rw [show (Pseudonym.new given' (some family')).replacement .family = family' from rfl,
            headWord_append hletters' hafter'] at hhead
          exact ⟨given_eq_of_family_eq hpair hpair' hhead, Or.inl rfl⟩
      | given =>
          rw [show (Pseudonym.new given' (some family')).replacement .given = given' from rfl,
            headWord_append hword' hafter'] at hhead
          exact absurd hhead.symm (given_ne_family hgiven' hfamily)
  | given =>
      rw [show (Pseudonym.new given (some family)).replacement .given = given from rfl,
        headWord_append hword hafter] at hhead
      cases kind' with
      | full =>
          rw [show (Pseudonym.new given' (some family')).replacement .full =
            given' ++ ' ' :: family' from rfl, List.append_assoc, headWord_append hword' rfl] at hhead
          subst hhead
          refine ⟨rfl, Or.inr ⟨rfl, rfl, ?_⟩⟩
          rw [show (Pseudonym.new given (some family)).replacement .given = given from rfl,
            show (Pseudonym.new given (some family')).replacement .full = given ++ ' ' :: family' from rfl,
            List.append_assoc] at heq
          exact List.append_cancel_left heq
      | family =>
          rw [show (Pseudonym.new given' (some family')).replacement .family = family' from rfl,
            headWord_append hletters' hafter'] at hhead
          exact absurd hhead (given_ne_family hgiven hfamily')
      | given =>
          rw [show (Pseudonym.new given' (some family')).replacement .given = given' from rfl,
            headWord_append hword' hafter'] at hhead
          exact ⟨hhead, Or.inl rfl⟩

/-- The numbers of people that stand at one place are the same. -/
theorem personNumber_inj {number number' : ℕ} {after after' : Text}
    (heq : personNumber number ++ after = personNumber number' ++ after')
    (hafter : after.head?.any Char.isAlphanum = false)
    (hafter' : after'.head?.any Char.isAlphanum = false) :
  number = number'
  := by
  rw [personNumber_eq, personNumber_eq, List.append_assoc, List.append_assoc] at heq
  have hdigits : digitsOf number ++ after = digitsOf number' ++ after' :=
    (List.cons.inj (List.append_cancel_left heq)).2
  have hhead := congrArg headWord hdigits
  rw [headWord_append (fun c hc => ((digitsOf_alphanum number).2 c hc).2) hafter,
    headWord_append (fun c hc => ((digitsOf_alphanum number').2 c hc).2) hafter'] at hhead
  apply personNumber_injective
  rw [personNumber_eq, personNumber_eq, hhead]

example : personNumber 1 ++ "2".toList = personNumber 12
  := by decide +kernel

theorem person_not_mem_poolWords :
  "Person".toList ∉ poolWords
  := by decide

/-- No name of the pool stands where a number does. -/
theorem poolReplacement_ne_personNumber {given family : Text} (hpair : (given, family) ∈ poolPairs)
    {kind : MatchKind} {number : ℕ} {after after' : Text}
    (hafter : after.head?.any Char.isAlphanum = false) :
  (Pseudonym.new given (some family)).replacement kind ++ after ≠ personNumber number ++ after'
  := by
  intro heq
  obtain ⟨index, hindex⟩ := List.mem_iff_getElem?.mp hpair
  obtain ⟨hgiven, hfamily⟩ := mem_poolWords_of_pair hindex
  obtain ⟨word, tail, hreplaced, hpool, -, htail⟩ := poolReplacement_eq hgiven hfamily kind
  have hstop : (tail ++ after).head?.any Char.isAlphanum = false := by
    rcases htail with rfl | ⟨tail, rfl⟩
    · exact hafter
    · rfl
  have hhead := congrArg headWord heq
  rw [hreplaced, personNumber_eq, List.append_assoc, List.append_assoc,
    headWord_append (poolWords_alphanum hpool).2 hstop, headWord_append (by decide) rfl] at hhead
  rw [hhead] at hpool
  exact person_not_mem_poolWords hpool

/-- Pseudonyms with one address, but for capital letters, have one given name. -/
theorem given_eq_of_address_eq {pseudonym pseudonym' : Pseudonym} (h : Issued assignment pseudonym)
    (h' : Issued assignment pseudonym')
    (heq : toAsciiLowercase pseudonym.address = toAsciiLowercase pseudonym'.address) :
  pseudonym.given = pseudonym'.given
  := by
  rcases h.pool_or with ⟨given, family, -, hgiven, hfamily, -, -, rfl⟩ | ⟨number, rfl⟩
  · obtain ⟨first, last, domain, haddress, hfirst, -, -, -, hword, -⟩ :=
      eq_of_poolAddress hgiven hfamily rfl
    rcases h'.pool_or with ⟨given', family', -, hgiven', hfamily', -, -, rfl⟩ | ⟨number', rfl⟩
    · obtain ⟨first', last', domain', haddress', hfirst', -, -, -, hword', -⟩ :=
        eq_of_poolAddress hgiven' hfamily' heq
      have hhead := congrArg headWord (haddress.symm.trans haddress')
      rw [headWord_append hword rfl, headWord_append hword' rfl] at hhead
      apply poolWords_eq (List.mem_append_left familyNames hgiven)
        (List.mem_append_left familyNames hgiven')
      rw [← hfirst, ← hfirst', hhead]
    · obtain ⟨first', domain', haddress', -, -, -, hword'⟩ := eq_of_numberedAddress heq
      have hsame := haddress.symm.trans haddress'
      have hhead := congrArg headWord hsame
      rw [headWord_append hword rfl, headWord_append hword' rfl] at hhead
      rw [hhead] at hsame
      cases List.append_cancel_left hsame
  · obtain ⟨first, domain, haddress, hfirst, -, -, hword⟩ := eq_of_numberedAddress (show toAsciiLowercase (Pseudonym.new (personNumber number) none).address = _ from rfl)
    rcases h'.pool_or with ⟨given', family', -, hgiven', hfamily', -, -, rfl⟩ | ⟨number', rfl⟩
    · obtain ⟨first', last', domain', haddress', -, -, -, -, hword', -⟩ :=
        eq_of_poolAddress hgiven' hfamily' heq
      have hsame := haddress.symm.trans haddress'
      have hhead := congrArg headWord hsame
      rw [headWord_append hword rfl, headWord_append hword' rfl] at hhead
      rw [hhead] at hsame
      cases List.append_cancel_left hsame
    · obtain ⟨first', domain', haddress', hfirst', -, -, hword'⟩ := eq_of_numberedAddress heq
      have hhead := congrArg headWord (haddress.symm.trans haddress')
      rw [headWord_append hword rfl, headWord_append hword' rfl] at hhead
      rw [hhead, hfirst'] at hfirst
      rw [Pseudonym.new_given, Pseudonym.new_given, personNumber_eq, personNumber_eq,
        List.append_cancel_left hfirst]

/-- People with one full name have one given name. -/
theorem given_eq_of_full_eq {pseudonym pseudonym' : Pseudonym} (h : Issued assignment pseudonym)
    (h' : Issued assignment pseudonym') (heq : pseudonym.full = pseudonym'.full) :
  pseudonym.given = pseudonym'.given
  := by
  rcases h.pool_or with ⟨given, family, hpair, -, -, -, -, rfl⟩ | ⟨number, rfl⟩
  · rcases h'.pool_or with ⟨given', family', hpair', -, -, -, -, rfl⟩ | ⟨number', rfl⟩
    · have hsame : (Pseudonym.new given (some family)).replacement .full ++ [] =
          (Pseudonym.new given' (some family')).replacement .full ++ [] := congrArg (· ++ []) heq
      exact (poolReplacement_inj hpair hpair' hsame rfl rfl (congrArg List.length heq).le).1
    · have hsame : (Pseudonym.new given (some family)).replacement .full ++ [] =
          personNumber number' ++ [] := congrArg (· ++ []) heq
      exact absurd hsame (poolReplacement_ne_personNumber hpair rfl)
  · rcases h'.pool_or with ⟨given', family', hpair', -, -, -, -, rfl⟩ | ⟨number', rfl⟩
    · have hsame : (Pseudonym.new given' (some family')).replacement .full ++ [] =
          personNumber number ++ [] := congrArg (· ++ []) heq.symm
      exact absurd hsame (poolReplacement_ne_personNumber hpair' rfl)
    · exact heq

theorem Issued.address_email {pseudonym : Pseudonym} (h : Issued assignment pseudonym) :
  ∀ c ∈ pseudonym.address, isEmailCharacter c = true
  := by
  have hdomain : ∀ c ∈ '@' :: pseudonymDomain, isEmailCharacter c = true := by decide
  rcases h.pool_or with ⟨given, family, -, hgiven, hfamily, -, -, rfl⟩ | ⟨number, rfl⟩
  · obtain ⟨first, last, domain, haddress, -, -, -, -, hword, -, hword'⟩ :=
      eq_of_poolAddress hgiven hfamily rfl
    have hsplit : (Pseudonym.new given (some family)).address =
        toAsciiLowercase given ++ '.' :: (toAsciiLowercase family ++ '@' :: pseudonymDomain) := by
      simp [Pseudonym.new]
    have hletters : ∀ word ∈ poolWords, ∀ c ∈ toAsciiLowercase word, isEmailCharacter c = true := by
      decide
    intro c hc
    rw [hsplit] at hc
    rcases List.mem_append.mp hc with hc | hc
    · exact hletters given (List.mem_append_left familyNames hgiven) c hc
    · rcases List.mem_cons.mp hc with rfl | hc
      · rfl
      · rcases List.mem_append.mp hc with hc | hc
        · exact hletters family (List.mem_append_right givenNames hfamily) c hc
        · exact hdomain c hc
  · intro c hc
    rcases mem_numberedAddress hc with hdigit | hletter
    · apply isEmailCharacter_of_isAlphanum
      rw [Char.isAlphanum, hdigit, Bool.or_true]
    · have hall : ∀ c ∈ "person@example.invalid".toList, isEmailCharacter c = true := by
        decide
      exact hall c hletter

example : isEmailCharacter '.' = true ∧ isEmailCharacter ' ' = false
  := by decide +kernel

/-! ### Where something was replaced -/

theorem isAlphanum_of_isWordCharacter {o : Option Char} (h : o.any (isWordCharacter T) = false) :
  o.any Char.isAlphanum = false
  := by
  rcases o with _ | c
  · rfl
  · by_contra halphanum
    rw [Bool.not_eq_false] at halphanum
    rw [Option.any_some, isWordCharacter_of_isAlphanum halphanum] at h
    cases h

/-- The names of a pseudonym that stand where a name was replaced are of the same person; the best
one is of the same kind. -/
theorem Setting.same_name (h : Setting T cipher assignment text)
    {others rest : List (Piece Char Finding)} {span : Text} {i j : ℕ} {kind kind' : MatchKind}
    (hpieces : cipher.pieces T text = others ++ .span span (.name i kind) :: rest)
    {person person' : AssignedPerson} (hassigned : assignment.Assigned i person)
    (hassigned' : assignment.Assigned j person')
    (hfamily : kind' = .family → person'.pseudonym.family ≠ none) {after : Text}
    (heq : person.pseudonym.replacement kind ++ assignment.render rest =
      person'.pseudonym.replacement kind' ++ after)
    (hafter : after.head?.any (isWordCharacter T) = false)
    (hlength : (person.pseudonym.replacement kind).length ≤
      (person'.pseudonym.replacement kind').length)
    (hrank : (person.pseudonym.replacement kind).length =
      (person'.pseudonym.replacement kind').length → kind.rank ≤ kind'.rank) :
  i = j ∧ kind' = kind
  := by
  have hnext := h.not_alphanum_after_name hpieces
  have hstop := isAlphanum_of_isWordCharacter hafter
  have hsame := h.sound.distinct i j person person' hassigned hassigned'
  rcases (h.sound.issued i person hassigned).pool_or with
    ⟨given, family, hpair, -, -, -, -, hpseudonym⟩ | ⟨number, hpseudonym⟩
  · rcases (h.sound.issued j person' hassigned').pool_or with
      ⟨given', family', hpair', -, hfamily', -, hskipped, hpseudonym'⟩ | ⟨number', hpseudonym'⟩
    · rw [hpseudonym, hpseudonym'] at heq hlength
      obtain ⟨rfl, hkind⟩ := poolReplacement_inj hpair hpair' heq hnext hstop hlength
      obtain rfl : i = j := hsame (by rw [hpseudonym, hpseudonym']; rfl)
      rcases hkind with rfl | ⟨rfl, rfl, hrest⟩
      · exact ⟨rfl, rfl⟩
      · exfalso
        exact h.not_given_before_family hpieces hassigned' hpair' hfamily' hskipped hpseudonym'
          hrest hafter
    · rw [hpseudonym, hpseudonym', numberedReplacement_eq] at heq
      exact absurd heq (poolReplacement_ne_personNumber hpair hnext)
  · rcases (h.sound.issued j person' hassigned').pool_or with
      ⟨given', family', hpair', -, -, -, -, hpseudonym'⟩ | ⟨number', hpseudonym'⟩
    · rw [hpseudonym, hpseudonym', numberedReplacement_eq] at heq
      exact absurd heq.symm (poolReplacement_ne_personNumber hpair' hstop)
    · rw [hpseudonym, hpseudonym', numberedReplacement_eq, numberedReplacement_eq] at heq
      obtain rfl := personNumber_inj heq hnext hstop
      use hsame (by rw [hpseudonym, hpseudonym'])
      -- People with numbers are found by the full name, whose form comes first.
      obtain rfl : kind = .full :=
        h.restorable.inFull span i kind person (by rw [hpieces]; simp) hassigned (by
          rw [hpseudonym]
          rfl)
      have hle := hrank (by rw [hpseudonym, hpseudonym', numberedReplacement_eq,
        numberedReplacement_eq])
      cases kind' with
      | full => rfl
      | family => exact absurd (by rw [hpseudonym']; rfl) (hfamily rfl)
      | given => exact absurd hle (by decide)

/-- The pseudonym in place of a name is found there, and stands for the name. -/
theorem Setting.find_at_name (h : Setting T cipher assignment text)
    {others rest : List (Piece Char Finding)} {span : Text} {i : ℕ} {kind : MatchKind}
    (hpieces : cipher.pieces T text = others ++ .span span (.name i kind) :: rest)
    {person : AssignedPerson} (hassigned : assignment.Assigned i person) :
  person.pseudonym.replacement kind ≠ [] ∧ ∃ form,
    (assignment.forms.mergeSort DecodeForm.comesFirst).find? (·.matchesAt T
      (assignment.render others).reverse
      (person.pseudonym.replacement kind ++ assignment.render rest)) = some form
    ∧ form.pseudo.length = (person.pseudonym.replacement kind).length ∧ form.real = span
  := by
  have hissued := h.sound.issued i person hassigned
  obtain ⟨hlast, hhead⟩ := h.beside_span hpieces
  obtain ⟨hbefore, hafter⟩ := name_bounds h.indexed hpieces
  rw [← hlast] at hbefore
  rw [← hhead] at hafter
  -- The form of the name itself stands there.
  have hspan : person.realName.canonicalForm kind = some span := by
    obtain ⟨known, name, hknown, hname, hspan⟩ := h.forms.name span i kind (by rw [hpieces]; simp)
    obtain ⟨known', hknown', hname', -⟩ := h.sound.real i person hassigned
    obtain rfl : known = known' := Option.some.inj (hknown.symm.trans hknown')
    rwa [← Option.some.inj (hname.symm.trans hname')]
  have hcandidate : ⟨person.pseudonym.replacement kind, span, kind.rank + 1⟩ ∈ assignment.forms := by
    apply h.mem_forms.mpr
    refine ⟨i, person, hassigned, mem_decodeForms.mpr (Or.inr ⟨kind, span, hspan, ?_, rfl⟩)⟩
    rintro rfl hnone
    cases h.restorable.inFull span i .family person (by rw [hpieces]; simp) hassigned hnone
  have hne : person.pseudonym.replacement kind ≠ [] := by
    obtain ⟨word, tail, hreplaced, hne, -, -⟩ := hissued.replacement_parts kind
    rw [hreplaced]
    exact List.append_ne_nil_of_left_ne_nil hne tail
  use hne
  apply exists_find_mergeSort hcandidate
  · rw [matchesAt_replacement hissued, wholeWordMatchAt_iff, List.head?_reverse]
    exact ⟨hne, assignment.render rest, rfl, hbefore, hafter⟩
  · intro form hform hmatch hfirst
    obtain ⟨j, person', hassigned', hform⟩ := h.mem_forms.mp hform
    have hissued' := h.sound.issued j person' hassigned'
    rcases mem_decodeForms.mp hform with rfl | ⟨kind', real, hreal, hfamily, rfl⟩
    · exfalso
      obtain ⟨found, after, hrender, heq, -, hafter⟩ :=
        (matchesAt_address hissued' _ _ _ _).mp hmatch
      exact h.not_address_at_name hpieces hassigned hassigned' hrender heq hafter
    · rw [matchesAt_replacement hissued', wholeWordMatchAt_iff] at hmatch
      obtain ⟨-, after, heq, -, hafter⟩ := hmatch
      simp only [DecodeForm.comesFirst, Bool.or_eq_true, Bool.and_eq_true, decide_eq_true_eq]
        at hfirst
      obtain ⟨rfl, rfl⟩ := h.same_name hpieces hassigned hassigned' hfamily heq hafter (by omega)
        (by omega)
      obtain rfl : person = person' := Option.some.inj (hassigned.symm.trans hassigned')
      exact ⟨rfl, Option.some.inj (hreal.symm.trans hspan)⟩

/-- An address starts with a small letter, and names with a capital one. -/
theorem Issued.address_ne_replacement {pseudonym pseudonym' : Pseudonym}
    (h : Issued assignment pseudonym) (h' : Issued assignment pseudonym') (kind : MatchKind)
    {after after' : Text} :
  pseudonym.address ++ after ≠ pseudonym'.replacement kind ++ after'
  := by
  intro heq
  obtain ⟨word, tail, haddress, -, hne, -, hsmall, -⟩ := h.address_headWord
  obtain ⟨word', tail', hreplaced, -, hne', -, hcapital, -⟩ := h'.replacement_headWord kind
  rw [hreplaced, haddress, List.append_assoc, List.append_assoc] at heq
  rcases word with _ | ⟨c, word⟩
  · exact hne rfl
  · rcases word' with _ | ⟨c', word'⟩
    · exact hne' rfl
    · obtain rfl : c = c' := (List.cons.inj heq).1
      rw [List.head?_cons] at hcapital hsmall
      rw [hcapital] at hsmall
      cases hsmall

example : (Pseudonym.new (personNumber 7) none).address = "person7@example.invalid".toList
  := by decide +kernel

/-- The address in place of another one is found there, and stands for it. -/
theorem Setting.find_at_address (h : Setting T cipher assignment text)
    {others rest : List (Piece Char Finding)} {span : Text} {i : ℕ}
    (hpieces : cipher.pieces T text = others ++ .span span (.person i) :: rest)
    {person : AssignedPerson} (hassigned : assignment.Assigned i person) :
  person.pseudonym.address ≠ [] ∧ ∃ form,
    (assignment.forms.mergeSort DecodeForm.comesFirst).find? (·.matchesAt T
      (assignment.render others).reverse (person.pseudonym.address ++ assignment.render rest)) =
      some form
    ∧ form.pseudo.length = person.pseudonym.address.length ∧ form.real = span
  := by
  have hissued := h.sound.issued i person hassigned
  obtain ⟨hlast, hhead⟩ := h.beside_span hpieces
  obtain ⟨hbefore, hcontinuation, -⟩ := address_bounds h.indexed hpieces trivial
  rw [← hlast] at hbefore
  rw [← hhead] at hcontinuation
  have hafter : (assignment.render rest).head?.any isEmailCharacter = false := by
    rcases hrest : assignment.render rest with _ | ⟨c, after⟩
    · rfl
    · rw [hrest] at hcontinuation
      obtain ⟨rest', rfl, -⟩ := h.symbol_of_span hpieces hrest
      have hfollowed := h.restorable.followed others span (.person i) c rest' trivial hpieces
      simp only [isEmailContinuation, isEmailCharacter, Bool.or_eq_false_iff, decide_eq_false_iff_not,
        List.head?_cons, Option.any_some, List.mem_cons, List.not_mem_nil, or_false, not_or] at *
      tauto
  have hspan : person.realAddress = span := by
    obtain ⟨i', known, hi, hknown, hspan⟩ :=
      h.forms.address span (.person i) (by rw [hpieces]; simp) trivial
    cases hi
    obtain ⟨known', hknown', -, haddress⟩ := h.sound.real i person hassigned
    obtain rfl : known = known' := Option.some.inj (hknown.symm.trans hknown')
    rw [haddress, hspan]
    rfl
  have hcandidate : ⟨person.pseudonym.address, person.realAddress, 4⟩ ∈ assignment.forms :=
    h.mem_forms.mpr ⟨i, person, hassigned, mem_decodeForms.mpr (Or.inl rfl)⟩
  constructor
  · obtain ⟨word, tail, haddress, -, hne, -⟩ := hissued.address_headWord
    rw [haddress]
    exact List.append_ne_nil_of_left_ne_nil hne tail
  apply exists_find_mergeSort hcandidate
  · rw [matchesAt_address hissued, List.head?_reverse]
    exact ⟨_, _, rfl, rfl, hbefore, hafter⟩
  · intro form hform hmatch hfirst
    obtain ⟨j, person', hassigned', hform⟩ := h.mem_forms.mp hform
    have hissued' := h.sound.issued j person' hassigned'
    rcases mem_decodeForms.mp hform with rfl | ⟨kind, real, -, -, rfl⟩
    · obtain ⟨found, after, heq, hlower, -, -⟩ := (matchesAt_address hissued' _ _ _ _).mp hmatch
      have hlength : found.length = person'.pseudonym.address.length := by
        simpa [toAsciiLowercase] using congrArg List.length hlower
      have hemail := forall_of_toAsciiLowercase_eq 
        (fun c hc => isEmailCharacter_of_isAlphanum (isAlphanum_of_isAlpha c hc)) hlower
        hissued'.address_email
      simp only [DecodeForm.comesFirst, Bool.or_eq_true, Bool.and_eq_true, decide_eq_true_eq]
        at hfirst
      have hsame : found = person.pseudonym.address := by
        rcases List.append_eq_append_iff.mp heq with ⟨more, rfl, hmore⟩ | ⟨more, haddress, -⟩
        · rcases more with _ | ⟨c, more⟩
          · exact List.append_nil _
          · -- All characters of an address are part of one.
            rw [hmore, List.cons_append, List.head?_cons, Option.any_some, hemail c (by simp)]
              at hafter
            cases hafter
        · rw [haddress, List.length_append] at hfirst
          obtain rfl : more = [] := List.length_eq_zero_iff.mp (by omega)
          rw [haddress, List.append_nil]
      rw [hsame] at hlower hlength
      obtain rfl : i = j := h.sound.distinct i j person person' hassigned hassigned'
        (given_eq_of_address_eq hissued hissued' hlower)
      obtain rfl : person = person' := Option.some.inj (hassigned.symm.trans hassigned')
      exact ⟨rfl, hspan⟩
    · exfalso
      rw [matchesAt_replacement hissued', wholeWordMatchAt_iff] at hmatch
      obtain ⟨-, after, heq, -, -⟩ := hmatch
      exact hissued.address_ne_replacement hissued' kind heq

/-! ### Texts and requests -/

/-- The output of a text that can be decoded is put back. -/
theorem Setting.decodeText_render (h : Setting T cipher assignment text) :
  assignment.decodeText T (assignment.render (cipher.pieces T text)) = text
  := by
  rw [RequestAssignment.decodeText]
  apply Eq.trans (replaceDecodeForms_render _ _) (NameCipher.scanned_pieces h.indexed text).source
  · exact fun others c rest hpieces => h.find_at_symbol hpieces
  · intro others span finding rest hpieces
    have hmem : .span span finding ∈ cipher.pieces T text := by
      rw [hpieces]
      simp
    rcases finding.isAddress_or with haddress | ⟨i, kind, rfl⟩
    · obtain ⟨i, -, rfl, -⟩ := h.forms.address span finding hmem haddress
      obtain ⟨person, hassigned⟩ := h.covers span _ hmem i rfl
      rw [RequestAssignment.replacement, hassigned]
      exact h.find_at_address hpieces hassigned
    · obtain ⟨person, hassigned⟩ := h.covers span _ hmem i rfl
      rw [RequestAssignment.replacement, hassigned]
      exact h.find_at_name hpieces hassigned

/-- The people of a request have different pseudonyms, and its texts that are restorable and call
people by their first forms are put back. -/
def DecodesWhere (T : CharTable) (messages : List NameCipher.Source) (state : Json)
    (questions : Questions)
    (restorable : RequestAssignment → List (Piece Char Finding) → Prop) : Prop :=
  let cipher := NameCipher.fromMessages T messages
  let encoded := cipher.encodeRequest T state questions
  (∀ i j person person', encoded.assignment.Assigned i person →
      encoded.assignment.Assigned j person' → i ≠ j →
      person.pseudonym.given ≠ person'.pseudonym.given
      ∧ person.pseudonym.full ≠ person'.pseudonym.full
      ∧ person.pseudonym.address ≠ person'.pseudonym.address)
    ∧ List.Forall₂ (fun text output : String =>
        (∀ span finding, .span span finding ∈ cipher.pieces T text.toList →
          encoded.assignment.Covers finding)
        ∧ (FirstForms cipher (cipher.pieces T text.toList) →
          restorable encoded.assignment (cipher.pieces T text.toList) →
          encoded.assignment.decodeText T output.toList = text.toList))
      (requestTexts state questions) (requestTexts encoded.state encoded.questions)

/-- The words of a text of a request are skipped. -/
theorem mem_requestNameTokens {texts : List String} {text : String} (htext : text ∈ texts)
    {word : Text} (hword : word ∈ text.toList.splitOnP fun c => !T.isAlphanumeric c)
    (hne : word ≠ []) :
  toAsciiLowercase word ∈ requestNameTokens T texts
  := by
  apply List.mem_map_of_mem
  rw [List.mem_filter]
  use List.mem_flatMap.mpr ⟨text, htext, hword⟩
  rwa [decide_eq_true_eq]

/-- The piece may stand right before the other one. -/
def Piece.mayPrecede : Piece Char Finding → Piece Char Finding → Bool
  | .span _ (.name _ _), .span _ _ => false
  | .span _ (.name _ _), .symbol c => c ≠ '@'
  | .span _ _, .symbol c => c ≠ '.' && c ≠ '-'
  | _, _ => true

/-- Pieces are restorable when each may stand before the next one and nobody has a number. -/
theorem restorable_of_isChain {pieces : List (Piece Char Finding)}
    (hnamed : ∀ i person, assignment.Assigned i person → person.pseudonym.family ≠ none)
    (hchain : pieces.IsChain fun piece piece' => Piece.mayPrecede piece piece' = true) :
  Restorable T assignment pieces
  := by
  have hbeside : ∀ others piece piece' others', pieces = others ++ piece :: piece' :: others' →
      Piece.mayPrecede piece piece' = true := by
    rintro others piece piece' others' rfl
    exact (List.isChain_append_cons_cons.mp hchain).2.1
  constructor
  · intro others span i kind span' finding others' hpieces
    cases hbeside _ _ _ _ hpieces
  · intro others span finding c others' haddress hpieces
    have hstop := hbeside _ _ _ _ hpieces
    cases finding with
    | name i kind => exact haddress.elim
    | person i => simpa [Piece.mayPrecede] using hstop
    | protectedAddress address => simpa [Piece.mayPrecede] using hstop
    | otherAddress => simpa [Piece.mayPrecede] using hstop
  · intro others span i kind others' hpieces
    cases hbeside _ _ _ _ hpieces
  · intro span i kind person hspan hassigned hnone
    exact absurd hnone (hnamed i person hassigned)
  · intro i person hassigned hnone
    exact absurd hnone (hnamed i person hassigned)

deriving instance DecidableEq for DecodeForm

end Desktop
