import OpenLoops.Desktop.NameCoding

/-!
# Known forms of names

Every person that is known has one address and a name at least, and each name stands among its
forms in full.  All forms are found by their first characters.
-/

namespace Desktop

/-! ### People -/

/-- The full forms of a name are as they should be. -/
structure PersonName.Formed (name : PersonName) : Prop where
  canonical : name.canonicalFull ∈ name.fullForms
  parts : ∀ family, name.family = some family → name.given ++ ' ' :: family ∈ name.fullForms

/-- Every person has one address, under which the person is found, and a name. -/
structure NameCipher.Formed (cipher : NameCipher) : Prop where
  named : ∀ person ∈ cipher.people, person.names ≠ [] ∧ ∀ name ∈ person.names, name.Formed
  addressed : ∀ address index, cipher.byAddress.lookup address = some index ↔
    ∃ person, cipher.people[index]? = some person ∧ person.addresses = [address]

variable {T : CharTable}

/-- The name that is parsed stands among its forms. -/
theorem parsePersonName_formed {display : Text} {name : PersonName}
    (h : parsePersonName T display = some name) :
  name.Formed
  := by
  rw [parsePersonName] at h
  generalize cleanDisplayName display = original at h
  split_ifs at h
  dsimp only at h
  rcases hwords : nameWords T 0 (splitWhitespace (fullNameOf original).1) with _ | (_ | ⟨given, others⟩)
  · rw [hwords] at h
    cases h
  · rw [hwords] at h
    cases h
  · rw [hwords] at h
    dsimp only at h
    split_ifs at h
    obtain rfl := Option.some.inj h
    constructor
    · simp
    · intro family hfamily
      have hlast : others.getLast? = some family := hfamily
      simp [hlast]

/-- A form of a name that is sorted among the others is still there. -/
theorem formed_sorted {name : PersonName} (h : name.Formed) :
  PersonName.Formed { name with fullForms := (name.fullForms.mergeSort (· ≤ ·)).dedup }
  := by
  constructor
  · simpa using h.canonical
  · intro family hfamily
    simpa using h.parts family hfamily

theorem NameCipher.hintName_formed (name : PersonName) (given : Text) :
  (NameCipher.hintName name given).Formed
  := by
  constructor
  · apply List.mem_singleton_self
  · intro family hfamily
    have hname : name.family = some family := hfamily
    simp [NameCipher.hintName, hname]

namespace NameCipher

theorem empty_formed :
  empty.Formed
  := by
  constructor
  · exact nofun
  · simp [empty]

/-- The names of a person with a name more. -/
theorem addName_names (name : PersonName) (person : Person) :
  (addName name person).names = person.names
    ∨ (addName name person).names = person.names ++ [name]
  := by
  rw [addName]
  split_ifs
  · exact Or.inl rfl
  · exact Or.inr rfl

/-- A name more does not change the addresses. -/
@[simp]
theorem addName_addresses (name : PersonName) (person : Person) :
  (addName name person).addresses = person.addresses
  := by
  rw [addName]
  split_ifs
  · rfl
  · rfl

/-- A person with names more has a name, and formed names if these are. -/
theorem foldl_addName_formed {names : List PersonName} (hnames : ∀ name ∈ names, name.Formed)
    {person : Person} (hperson : ∀ name ∈ person.names, name.Formed) :
  (∀ name ∈ (names.foldl (fun person name => addName name person) person).names, name.Formed)
    ∧ (person.names ≠ [] ∨ names ≠ [] →
      (names.foldl (fun person name => addName name person) person).names ≠ [])
    ∧ (names.foldl (fun person name => addName name person) person).addresses = person.addresses
  := by
  induction names generalizing person with
  | nil => exact ⟨hperson, fun h => h.resolve_right (not_not.mpr rfl), rfl⟩
  | cons name names ih =>
      rw [List.foldl_cons]
      have hname := hnames name List.mem_cons_self
      have hadded : ∀ known ∈ (addName name person).names, known.Formed := by
        intro known hknown
        rcases addName_names name person with hsame | hmore
        · exact hperson known (hsame ▸ hknown)
        · rw [hmore, List.mem_append, List.mem_singleton] at hknown
          rcases hknown with hknown | rfl
          · exact hperson known hknown
          · exact hname
      obtain ⟨hformed, hne, haddresses⟩ :=
        ih (fun known hknown => hnames known (List.mem_cons_of_mem name hknown)) hadded
      use hformed
      constructor
      · intro _
        apply hne
        left
        rw [addName]
        split_ifs with hknown
        · rintro hnil
          simp [hnil] at hknown
        · simp
      · rw [haddresses, addName_addresses]

/-- Names more of a person that is known. -/
theorem Formed.modify {cipher : NameCipher} (h : cipher.Formed) {index : ℕ} {person person' : Person}
    {f : Person → Person} (hperson : cipher.people[index]? = some person) (hf : f person = person')
    (haddresses : person'.addresses = person.addresses) (hne : person'.names ≠ [])
    (hnames : ∀ name ∈ person'.names, name.Formed) :
  Formed { cipher with people := cipher.people.modify index f }
  := by
  have hget : ∀ i, (cipher.people.modify index f)[i]? =
      if index = i then some person' else cipher.people[i]? := by
    intro i
    rw [List.getElem?_modify]
    split_ifs with hi
    · subst hi
      rw [hperson, ← hf]
      rfl
    · apply id_map
  constructor
  · intro other hother
    obtain ⟨i, hi⟩ := List.mem_iff_getElem?.mp hother
    rw [hget] at hi
    split_ifs at hi
    · cases hi
      exact ⟨hne, hnames⟩
    · exact h.named other (List.mem_of_getElem? hi)
  · intro address i
    rw [h.addressed, hget]
    split_ifs with hi
    · subst hi
      simp [hperson, haddresses]
    · rfl

/-- A person more with an address that is not known. -/
theorem Formed.append {cipher : NameCipher} (h : cipher.Formed) {address : Text} {person : Person}
    (hunknown : cipher.byAddress.lookup address = none) (haddresses : person.addresses = [address])
    (hne : person.names ≠ []) (hnames : ∀ name ∈ person.names, name.Formed) :
  Formed { cipher with
    people := cipher.people ++ [person]
    byAddress := cipher.byAddress ++ [(address, cipher.people.length)] }
  := by
  constructor
  · intro other hother
    rcases List.mem_append.mp hother with hother | hother
    · exact h.named other hother
    · obtain rfl := List.mem_singleton.mp hother
      exact ⟨hne, hnames⟩
  · intro other i
    rw [List.lookup_append]
    rcases hlookup : cipher.byAddress.lookup other with _ | j
    · -- The address is not known so far.
      rw [Option.none_or]
      constructor
      · intro hnew
        simp only [List.lookup_cons, List.lookup_nil] at hnew
        split at hnew
        · rename_i heq
          cases hnew
          use person, List.getElem?_concat_length
          rw [haddresses, eq_of_beq heq]
        · cases hnew
      · rintro ⟨known, hknown, hother⟩
        rcases lt_or_ge i cipher.people.length with hlt | hge
        · rw [List.getElem?_append_left hlt] at hknown
          have hfound := (h.addressed other i).mpr ⟨known, hknown, hother⟩
          rw [hlookup] at hfound
          cases hfound
        · rw [List.getElem?_append_right hge, List.getElem?_singleton] at hknown
          split_ifs at hknown with hi
          cases hknown
          rw [haddresses] at hother
          cases hother
          rw [show i = cipher.people.length by omega]
          simp
    · obtain ⟨known, hknown, hother⟩ := (h.addressed other j).mp hlookup
      have hlt := (List.getElem?_eq_some_iff.mp hknown).1
      rw [Option.some_or]
      constructor
      · rintro ⟨rfl⟩
        use known
        rw [List.getElem?_append_left hlt]
        exact ⟨hknown, hother⟩
      · rintro ⟨known', hknown', hother'⟩
        rcases lt_or_ge i cipher.people.length with hi | hge
        · rw [List.getElem?_append_left hi] at hknown'
          rw [← hlookup]
          exact (h.addressed other i).mpr ⟨known', hknown', hother'⟩
        · rw [List.getElem?_append_right hge, List.getElem?_singleton] at hknown'
          split_ifs at hknown'
          cases hknown'
          rw [haddresses] at hother'
          cases hother'
          rw [hunknown] at hlookup
          cases hlookup

/-- A participant more does not break the cipher. -/
theorem addParticipant_formed {cipher : NameCipher} (h : cipher.Formed) (label : Text)
    (addressOverride givenHint : Option Text) :
  (addParticipant T cipher label addressOverride givenHint).Formed
  := by
  rw [addParticipant]
  obtain ⟨labelDisplay, labelAddress⟩ := participantParts label
  dsimp only
  split
  · exact h
  rename_i address haddress
  split_ifs
  · exact ⟨h.named, h.addressed⟩
  split
  · exact h
  rename_i name hname
  have hformed : name.Formed := by
    rcases Option.or_eq_some_iff.mp hname with hdisplay | ⟨-, hhint⟩
    · obtain ⟨_, -, hparsed⟩ := Option.bind_eq_some_iff.mp hdisplay
      apply parsePersonName_formed hparsed
    · obtain ⟨_, -, hparsed⟩ := Option.bind_eq_some_iff.mp hhint
      apply parsePersonName_formed hparsed
  generalize hnames : (_ :: _ : List PersonName) = names
  have hall : ∀ known ∈ names, known.Formed := by
    intro known hknown
    rw [← hnames] at hknown
    rcases List.mem_cons.mp hknown with rfl | hhint
    · exact formed_sorted hformed
    · obtain ⟨given, -, rfl⟩ := Option.map_eq_some_iff.mp (Option.mem_toList.mp hhint)
      apply hintName_formed
  have hsome : names ≠ [] := by
    rw [← hnames]
    apply List.cons_ne_nil
  rw [personAt]
  rcases hlookup : cipher.byAddress.lookup (toAsciiLowercase address) with _ | index
  · dsimp only
    have hnone : ∀ name ∈ (addAddress (toAsciiLowercase address) ⟨[], []⟩).names, name.Formed := by
      simp [addAddress]
    have hperson := foldl_addName_formed hall hnone
    have hmodify : ∀ f : Person → Person,
        (cipher.people ++ ([⟨[], []⟩] : List Person)).modify cipher.people.length f =
          cipher.people ++ [f ⟨[], []⟩] := by
      intro f
      rw [List.modify_eq_take_cons_drop (by simp)]
      simp
    rw [hmodify]
    apply h.append hlookup
    · rw [hperson.2.2]
      simp [addAddress]
    · apply hperson.2.1 (Or.inr hsome)
    · exact hperson.1
  · dsimp only
    obtain ⟨person, hperson, haddresses⟩ := (h.addressed _ _).mp hlookup
    have hsame : addAddress (toAsciiLowercase address) person = person := by
      rw [addAddress, if_pos]
      simp [haddresses]
    have hknown := h.named person (List.mem_of_getElem? hperson)
    have hmore := foldl_addName_formed hall hknown.2
    apply h.modify hperson rfl
    · rw [hsame, hmore.2.2]
    · rw [hsame]
      exact hmore.2.1 (Or.inr hsome)
    · rw [hsame]
      exact hmore.1

/-- A participant with a name and an address that is not known is known then. -/
theorem addParticipant_new {cipher : NameCipher} {label display address : Text} {name : PersonName}
    (hparts : participantParts label = (some display, some address))
    (haddress : trim address ≠ [])
    (hname : parsePersonName T display = some name)
    (hordinary : isSystemAddress (toAsciiLowercase (trim address)) = false)
    (hperson : isSystemDisplayName T (cleanDisplayName display) = false)
    (hnew : cipher.byAddress.lookup (toAsciiLowercase (trim address)) = none) :
  addParticipant T cipher label none none = { cipher with
    people := cipher.people ++ [⟨[toAsciiLowercase (trim address)],
      [{ name with fullForms := (name.fullForms.mergeSort (· ≤ ·)).dedup }]⟩]
    byAddress := cipher.byAddress ++ [(toAsciiLowercase (trim address), cipher.people.length)] }
  := by
  have hfilter : (some (trim address)).filter (· ≠ []) = some (trim address) := by
    rw [Option.filter_some, if_pos (decide_eq_true haddress)]
  rw [addParticipant, hparts]
  simp only [Option.none_or, Option.map_some, hfilter, hordinary, Option.some_or, Option.any_some,
    hperson, Option.bind_some, hname, Bool.false_eq_true, or_self, if_false, Option.bind_none,
    Option.filter_none, Option.map_none, personAt, hnew]
  rw [List.modify_eq_take_cons_drop (by simp)]
  simp [addAddress, addName]

theorem addMessage_formed {cipher : NameCipher} (h : cipher.Formed) (message : Source) :
  (addMessage T cipher message).Formed
  := by
  have hfold : ∀ (participants : List Text) (f : NameCipher → Text → NameCipher),
      (∀ c label, c.Formed → (f c label).Formed) →
      ∀ c : NameCipher, c.Formed → (participants.foldl f c).Formed := by
    intro participants f hf
    induction participants with
    | nil => exact fun c hc => hc
    | cons label participants ih => exact fun c hc => ih _ (hf c label hc)
  apply hfold
  · intro c label hc
    apply addParticipant_formed hc
  · apply hfold
    · intro c label hc
      apply addParticipant_formed hc
    · exact h

/-- The cipher of messages is formed. -/
theorem fromMessages_formed (T : CharTable) (messages : List Source) :
  (fromMessages T messages).Formed
  := by
  have hall : ∀ cipher : NameCipher, cipher.Formed →
      (messages.foldl (addMessage T) cipher).Formed := by
    induction messages with
    | nil => exact fun cipher hcipher => hcipher
    | cons message messages ih => exact fun cipher hcipher => ih _ (addMessage_formed hcipher message)
  obtain ⟨hnamed, haddressed⟩ := hall empty empty_formed
  exact ⟨hnamed, haddressed⟩

/-! ### Forms -/

/-- The form is one by which a person is known. -/
def Knows (cipher : NameCipher) (lookup : NameLookup) (form : Text) : Prop :=
  cipher.form lookup = some form ∧
    match lookup.part with
    | .full _ => form ≠ []
    | .family | .given => 2 ≤ form.length

/-- All forms can be found, and no others. -/
structure Indexed (cipher : NameCipher) : Prop where
  mem_iff : ∀ first lookup, (first, lookup) ∈ cipher.nameForms ↔
    ∃ form, cipher.Knows lookup form ∧ form.head? = some first

theorem mem_indexForm {form : Text} {lookup lookup' : NameLookup} {first : Char} :
  (first, lookup') ∈ indexForm form lookup ↔ lookup' = lookup ∧ form.head? = some first
  := by
  rw [indexForm]
  cases form with
  | nil => simp
  | cons c rest => simp [and_comm, eq_comm]

theorem mem_indexName {i j : ℕ} {name : PersonName} {first : Char} {lookup : NameLookup} :
  (first, lookup) ∈ indexName i j name ↔ lookup.personIndex = i ∧ lookup.nameIndex = j ∧
    ∃ form, form.head? = some first ∧
      match lookup.part with
      | .full index => name.fullForms[index]? = some form
      | .family => name.family = some form ∧ 2 ≤ form.length
      | .given => name.given = form ∧ 2 ≤ form.length
  := by
  obtain ⟨i', j', part⟩ := lookup
  simp only [indexName, List.mem_append, List.mem_flatMap, Prod.exists,
    List.mk_mem_zipIdx_iff_getElem?, mem_indexForm, NameLookup.mk.injEq, Option.mem_toList,
    Option.filter_eq_some_iff, decide_eq_true_eq]
  constructor
  · rintro ((⟨form, index, hform, ⟨rfl, rfl, rfl⟩, hfirst⟩ |
      ⟨form, ⟨hform, hlength⟩, ⟨rfl, rfl, rfl⟩, hfirst⟩) | hgiven)
    · exact ⟨rfl, rfl, form, hfirst, hform⟩
    · exact ⟨rfl, rfl, form, hfirst, hform, hlength⟩
    · split_ifs at hgiven with hlength
      · rw [mem_indexForm, NameLookup.mk.injEq] at hgiven
        obtain ⟨⟨rfl, rfl, rfl⟩, hfirst⟩ := hgiven
        exact ⟨rfl, rfl, name.given, hfirst, rfl, hlength⟩
      · cases hgiven
  · rintro ⟨rfl, rfl, form, hfirst, hform⟩
    cases part with
    | full index => exact Or.inl (Or.inl ⟨form, index, hform, ⟨rfl, rfl, rfl⟩, hfirst⟩)
    | family => exact Or.inl (Or.inr ⟨form, hform, ⟨rfl, rfl, rfl⟩, hfirst⟩)
    | given =>
        obtain ⟨rfl, hlength⟩ := hform
        rw [if_pos hlength, mem_indexForm]
        exact Or.inr ⟨rfl, hfirst⟩

theorem rebuildNameForms_indexed (cipher : NameCipher) :
  cipher.rebuildNameForms.Indexed
  := by
  constructor
  rintro first ⟨i, j, part⟩
  simp only [rebuildNameForms, List.mem_flatMap, Prod.exists, List.mk_mem_zipIdx_iff_getElem?,
    mem_indexName, Knows, form]
  constructor
  · rintro ⟨person, _, hperson, name, _, hname, rfl, rfl, form, hfirst, hform⟩
    use form
    simp only [hperson, Option.bind_some, hname]
    cases part with
    | full index =>
        refine ⟨⟨hform, ?_⟩, hfirst⟩
        rintro rfl
        cases hfirst
    | family => exact ⟨hform, hfirst⟩
    | given => exact ⟨⟨congrArg some hform.1, hform.2⟩, hfirst⟩
  · rintro ⟨form, ⟨hform, hcounts⟩, hfirst⟩
    obtain ⟨name, hname, hpart⟩ := Option.bind_eq_some_iff.mp hform
    obtain ⟨person, hperson, hname⟩ := Option.bind_eq_some_iff.mp hname
    refine ⟨person, i, hperson, name, j, hname, rfl, rfl, form, hfirst, ?_⟩
    cases part with
    | full index => exact hpart
    | family => exact ⟨hpart, hcounts⟩
    | given => exact ⟨Option.some.inj hpart, hcounts⟩

theorem fromMessages_indexed (T : CharTable) (messages : List Source) :
  (fromMessages T messages).Indexed
  := rebuildNameForms_indexed _

end NameCipher

end Desktop
