import OpenLoops.Desktop.RequestEncoding

/-!
# Pseudonyms

The people of a request are given names of the pool that are no words of its texts, and numbers
when there are none left.  No two people are called the same.
-/

namespace Desktop

/-! ### The pool -/

/-- The names of the pool. -/
def poolPairs : List (Text × Text) :=
  givenNames.zip familyNames

/-- The words of the pool. -/
def poolWords : List Text :=
  givenNames ++ familyNames

theorem poolWords_nodup :
  (poolWords.map toAsciiLowercase).Nodup
  := by decide

theorem poolWords_capitalized {word : Text} (h : word ∈ poolWords) :
  ∃ first rest, word = first :: rest ∧ first.isUpper = true ∧ ∀ c ∈ word, c.isAlpha = true
  := by
  have hall : ∀ word ∈ poolWords, word.head?.any Char.isUpper = true
      ∧ ∀ c ∈ word, c.isAlpha = true := by decide
  obtain ⟨hfirst, hletters⟩ := hall word h
  rcases word with _ | ⟨first, rest⟩
  · cases hfirst
  · exact ⟨first, rest, rfl, hfirst, hletters⟩

theorem mem_poolWords_of_pair {index : ℕ} {given family : Text}
    (h : poolPairs[index]? = some (given, family)) :
  given ∈ givenNames ∧ family ∈ familyNames
  := by
  obtain ⟨hgiven, hfamily⟩ := List.getElem?_zip_eq_some.mp h
  exact ⟨List.mem_of_getElem? hgiven, List.mem_of_getElem? hfamily⟩

/-- Names of the pool with one given name, up to capital letters, are the same. -/
theorem index_eq_of_given_eq {i j : ℕ} {given given' family family' : Text}
    (h : poolPairs[i]? = some (given, family)) (h' : poolPairs[j]? = some (given', family'))
    (heq : toAsciiLowercase given = toAsciiLowercase given') :
  i = j
  := by
  have hnodup : (givenNames.map toAsciiLowercase).Nodup := by
    have hall := poolWords_nodup
    rw [poolWords, List.map_append] at hall
    exact hall.of_append_left
  have hi := (List.getElem?_zip_eq_some.mp h).1
  have hj := (List.getElem?_zip_eq_some.mp h').1
  apply (List.getElem?_inj _ hnodup).mp
  · rw [List.getElem?_map, List.getElem?_map, hi, hj, Option.map_some, Option.map_some, heq]
  · rw [List.length_map]
    exact (List.getElem?_eq_some_iff.mp hi).1

/-! ### The next pseudonym -/

/-- The pair that is found is the first one that is not skipped. -/
theorem nextFrom_eq_some {skippedTokens : List Text} {pairs : List (Text × Text)} {index next : ℕ}
    {given family : Text} (h : nextFrom skippedTokens pairs index = (some (given, family), next)) :
  ∃ place, pairs[place]? = some (given, family) ∧ next = index + place + 1
    ∧ toAsciiLowercase given ∉ skippedTokens ∧ toAsciiLowercase family ∉ skippedTokens
  := by
  induction pairs generalizing index with
  | nil => cases h
  | cons pair pairs ih =>
      obtain ⟨g, f⟩ := pair
      rw [nextFrom] at h
      split_ifs at h with hskip
      · obtain ⟨place, hplace, rfl, hgiven, hfamily⟩ := ih h
        use place + 1, hplace
        constructor
        · omega
        · exact ⟨hgiven, hfamily⟩
      · rw [not_or] at hskip
        cases h
        exact ⟨0, rfl, rfl, hskip⟩

theorem le_of_nextFrom_eq_none {skippedTokens : List Text} {pairs : List (Text × Text)}
    {index next : ℕ} (h : nextFrom skippedTokens pairs index = (none, next)) :
  index ≤ next
  := by
  induction pairs generalizing index with
  | nil =>
      cases h
      exact le_rfl
  | cons pair pairs ih =>
      obtain ⟨g, f⟩ := pair
      rw [nextFrom] at h
      split_ifs at h
      · exact (Nat.le_succ index).trans (ih h)
      · cases h

/-- The name of a person when there are no names of the pool left. -/
def personNumber (number : ℕ) : Text :=
  "Person ".toList ++ (Nat.repr number).toList

@[simp]
theorem Pseudonym.new_given (given : Text) (family : Option Text) :
  (Pseudonym.new given family).given = given
  := rfl

theorem personNumber_injective :
  Function.Injective personNumber
  := by
  intro m n h
  have hdigits := List.append_cancel_left h
  rw [Nat.toList_repr, Nat.toList_repr] at hdigits
  rw [← Nat.ofDigitChars_ten_toDigits (n := m), hdigits, Nat.ofDigitChars_ten_toDigits]

/-- The pseudonym is one that the assignment has given out. -/
inductive Issued (assignment : RequestAssignment) : Pseudonym → Prop
  | pool {index : ℕ} {given family : Text} (h : poolPairs[index]? = some (given, family))
      (hlt : index < assignment.nextPoolIndex)
      (hgiven : toAsciiLowercase given ∉ assignment.skippedTokens)
      (hfamily : toAsciiLowercase family ∉ assignment.skippedTokens) :
      Issued assignment (Pseudonym.new given (some family))
  | overflow {number : ℕ} (hle : 25 ≤ number) (hlt : number < assignment.overflowIndex) :
      Issued assignment (Pseudonym.new (personNumber number) none)

theorem Issued.mono {assignment assignment' : RequestAssignment} {pseudonym : Pseudonym}
    (h : Issued assignment pseudonym) (htokens : assignment'.skippedTokens = assignment.skippedTokens)
    (hpool : assignment.nextPoolIndex ≤ assignment'.nextPoolIndex)
    (hoverflow : assignment.overflowIndex ≤ assignment'.overflowIndex) :
  Issued assignment' pseudonym
  := by
  cases h with
  | pool h hlt hgiven hfamily =>
      rw [← htokens] at hgiven hfamily
      exact .pool h (hlt.trans_le hpool) hgiven hfamily
  | overflow hle hlt => exact .overflow hle (hlt.trans_le hoverflow)

/-- No given name of the pool is a person's number. -/
theorem given_ne_personNumber {given : Text} (h : given ∈ givenNames) (number : ℕ) :
  given ≠ personNumber number
  := by
  rintro rfl
  obtain ⟨first, rest, -, -, hletters⟩ := poolWords_capitalized (List.mem_append_left familyNames h)
  have hmem : ' ' ∈ personNumber number := by
    apply List.mem_append_left
    decide
  cases hletters ' ' hmem

/-- The next pseudonym is a new one. -/
theorem nextPseudonym_issued (assignment : RequestAssignment) (hnumber : 25 ≤ assignment.overflowIndex) :
  Issued assignment.nextPseudonym.2 assignment.nextPseudonym.1
    ∧ (∀ pseudonym, Issued assignment pseudonym → Issued assignment.nextPseudonym.2 pseudonym
      ∧ pseudonym.given ≠ assignment.nextPseudonym.1.given)
    ∧ assignment.nextPseudonym.2.skippedTokens = assignment.skippedTokens
    ∧ 25 ≤ assignment.nextPseudonym.2.overflowIndex
  := by
  rw [RequestAssignment.nextPseudonym]
  rcases hnext : nextFrom assignment.skippedTokens
      ((givenNames.zip familyNames).drop assignment.nextPoolIndex) assignment.nextPoolIndex
    with ⟨_ | ⟨given, family⟩, next⟩
  · have hle := le_of_nextFrom_eq_none hnext
    refine ⟨.overflow hnumber (Nat.lt_succ_self _), ?_, rfl, Nat.le_succ_of_le hnumber⟩
    intro pseudonym hissued
    use hissued.mono rfl hle (Nat.le_succ _)
    cases hissued with
    | pool h hlt hgiven hfamily =>
        exact given_ne_personNumber (mem_poolWords_of_pair h).1 assignment.overflowIndex
    | @overflow number hle hlt =>
        intro heq
        have hsame : personNumber number = personNumber assignment.overflowIndex := heq
        exact hlt.ne (personNumber_injective hsame)
  · obtain ⟨place, hplace, rfl, hgiven, hfamily⟩ := nextFrom_eq_some hnext
    rw [List.getElem?_drop] at hplace
    refine ⟨.pool hplace (Nat.lt_succ_self _) hgiven hfamily, ?_, rfl, hnumber⟩
    intro pseudonym hissued
    use hissued.mono rfl (by dsimp only; omega) le_rfl
    cases hissued with
    | pool h hlt hgiven' hfamily' =>
        intro heq
        have hindex := index_eq_of_given_eq h hplace (congrArg toAsciiLowercase heq)
        omega
    | @overflow number hle hlt =>
        exact (given_ne_personNumber (mem_poolWords_of_pair hplace).1 number).symm

/-! ### The pseudonyms of a request -/

/-- Everyone has a pseudonym that was given out for the person, and nobody else has it. -/
structure RequestAssignment.Sound (cipher : NameCipher) (tokens : List Text)
    (assignment : RequestAssignment) : Prop where
  skipped : assignment.skippedTokens = tokens
  listed : ∀ entry ∈ assignment.assigned, assignment.Assigned entry.1 entry.2
  number : 25 ≤ assignment.overflowIndex
  real : ∀ personIndex assigned, assignment.Assigned personIndex assigned →
    ∃ person, cipher.people[personIndex]? = some person
      ∧ person.names.head? = some assigned.realName
      ∧ assigned.realAddress = person.addresses.head?.getD []
  issued : ∀ personIndex assigned, assignment.Assigned personIndex assigned →
    Issued assignment assigned.pseudonym
  distinct : ∀ personIndex personIndex' assigned assigned',
    assignment.Assigned personIndex assigned → assignment.Assigned personIndex' assigned' →
    assigned.pseudonym.given = assigned'.pseudonym.given → personIndex = personIndex'

namespace RequestAssignment

variable {cipher : NameCipher} {tokens : List Text} {assignment : RequestAssignment}

/-- A new pseudonym does not break the assignment. -/
theorem Sound.assign (h : assignment.Sound cipher tokens) {personIndex : ℕ}
    (hlookup : assignment.assigned.lookup personIndex = none) {person : Person}
    (hperson : cipher.people[personIndex]? = some person) {name : PersonName}
    (hname : person.names.head? = some name) :
  (assignment.assign personIndex person name).Sound cipher tokens
  := by
  obtain ⟨hnew, hold, htokens, hnumber⟩ := nextPseudonym_issued assignment h.number
  have hmono : ∀ pseudonym, Issued assignment.nextPseudonym.2 pseudonym →
      Issued (assignment.assign personIndex person name) pseudonym :=
    fun pseudonym hissued => hissued.mono rfl le_rfl le_rfl
  constructor
  · exact htokens.trans h.skipped
  · rintro ⟨i, assigned⟩ hentry
    rw [assign_assigned hlookup]
    rcases (List.mem_orderedInsert _).mp hentry with heq | hentry
    · cases heq
      rw [if_pos rfl]
    · have hold := h.listed _ hentry
      rw [if_neg]
      · exact hold
      · rintro rfl
        rw [Assigned, hlookup] at hold
        cases hold
  · exact hnumber
  · intro i assigned hassigned
    rw [assign_assigned hlookup] at hassigned
    split_ifs at hassigned with heq
    · subst heq hassigned
      exact ⟨person, hperson, hname, rfl⟩
    · exact h.real i assigned hassigned
  · intro i assigned hassigned
    rw [assign_assigned hlookup] at hassigned
    split_ifs at hassigned
    · subst hassigned
      exact hmono _ hnew
    · exact hmono _ (hold _ (h.issued i assigned hassigned)).1
  · intro i j assigned assigned' hi hj hgiven
    rw [assign_assigned hlookup] at hi hj
    split_ifs at hi hj with heq heq' heq'
    · rw [heq, heq']
    · subst hi
      exact absurd hgiven.symm (hold _ (h.issued j assigned' hj)).2
    · subst hj
      exact absurd hgiven (hold _ (h.issued i assigned hi)).2
    · exact h.distinct i j assigned assigned' hi hj hgiven

theorem Sound.pseudonym (h : assignment.Sound cipher tokens) (personIndex : ℕ) :
  (assignment.pseudonym cipher personIndex).2.Sound cipher tokens
  := by
  rcases hlookup : assignment.assigned.lookup personIndex with _ | assigned
  · rcases hperson : cipher.people[personIndex]? with _ | person
    · rw [RequestAssignment.pseudonym, hlookup, hperson]
      exact h
    · rcases hname : person.names.head? with _ | name
      · rw [RequestAssignment.pseudonym, hlookup, hperson]
        simp only [Option.bind_some, hname, Option.map_none]
        exact h
      · rw [pseudonym_of_unassigned hlookup hperson hname]
        exact h.assign hlookup hperson hname
  · rw [pseudonym_of_assigned hlookup]
    exact h

theorem Sound.replace (h : assignment.Sound cipher tokens) (finding : Finding) :
  (replace cipher finding assignment).2.Sound cipher tokens
  := by
  cases finding with
  | person i => exact h.pseudonym i
  | protectedAddress text => exact h
  | otherAddress => exact h
  | name i kind => exact h.pseudonym i

variable {T : CharTable}

theorem Sound.encodeFrom (h : assignment.Sound cipher tokens) (before rest : Text) (skip : ℕ) :
  (encodeFrom T cipher before rest skip assignment).2.Sound cipher tokens
  := by
  induction rest generalizing before skip assignment with
  | nil =>
      rw [Desktop.encodeFrom]
      exact h
  | cons c rest ih =>
      cases skip with
      | succ skip => exact ih h (c :: before) skip
      | zero =>
          rcases hfound : cipher.found T before (c :: rest) with _ | ⟨length, finding⟩
          · rw [Desktop.encodeFrom, hfound]
            exact ih h (c :: before) 0
          · rw [Desktop.encodeFrom, hfound]
            exact ih (h.replace finding) (c :: before) (length - 1)

theorem Sound.mapAccum (h : assignment.Sound cipher tokens) (texts : List String) :
  (mapAccum (cipher.encodeString T) texts assignment).2.Sound cipher tokens
  := by
  induction texts generalizing assignment with
  | nil => exact h
  | cons text texts ih => exact ih (h.encodeFrom [] text.toList 0)

/-- The pseudonyms of a request are sound. -/
theorem encodeRequest_sound (T : CharTable) (cipher : NameCipher) (state : Json)
    (questions : Questions) :
  (cipher.encodeRequest T state questions).assignment.Sound cipher
    (requestNameTokens T (requestTexts state questions))
  := by
  have hstart : (startAssignment T state questions).Sound cipher
      (requestNameTokens T (requestTexts state questions)) := by
    have hnobody : ∀ i assigned, ¬ (startAssignment T state questions).Assigned i assigned :=
      fun i assigned => nofun
    constructor
    · rfl
    · exact fun entry => nofun
    · exact le_rfl
    · exact fun i assigned hassigned => absurd hassigned (hnobody i assigned)
    · exact fun i assigned hassigned => absurd hassigned (hnobody i assigned)
    · exact fun i j assigned assigned' hassigned => absurd hassigned (hnobody i assigned)
  have h := hstart.mapAccum (T := T) (requestTexts state questions)
  rwa [encodeRequest_texts] at h

end RequestAssignment

end Desktop
