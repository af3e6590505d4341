import OpenLoops.Desktop.PlainWords

/-!
# Decoding what was encoded

Where nothing was replaced no pseudonym is found in the output, and where something was, its
pseudonym is found there and none that comes before it; so decoding puts back the text.
-/

namespace Desktop

variable {T : CharTable} {cipher : NameCipher} {assignment : RequestAssignment} {text : Text}

/-! ### Forms in their order -/

theorem comesFirst_trans (a b c : DecodeForm) (h : a.comesFirst b = true)
    (h' : b.comesFirst c = true) :
  a.comesFirst c = true
  := by
  simp only [DecodeForm.comesFirst, Bool.or_eq_true, Bool.and_eq_true, decide_eq_true_eq] at *
  omega

theorem comesFirst_total (a b : DecodeForm) :
  (a.comesFirst b || b.comesFirst a) = true
  := by
  simp only [DecodeForm.comesFirst, Bool.or_eq_true, Bool.and_eq_true, decide_eq_true_eq]
  omega

/-- Of the forms that match, one is found that none comes before. -/
theorem exists_find_mergeSort {forms : List DecodeForm} {p : DecodeForm → Bool}
    {Q : DecodeForm → Prop} {candidate : DecodeForm} (hmem : candidate ∈ forms)
    (hmatch : p candidate = true)
    (hbest : ∀ form ∈ forms, p form = true → form.comesFirst candidate = true → Q form) :
  ∃ form, (forms.mergeSort DecodeForm.comesFirst).find? p = some form ∧ Q form
  := by
  have hsorted := List.pairwise_mergeSort comesFirst_trans comesFirst_total forms
  have hmem' : candidate ∈ forms.mergeSort DecodeForm.comesFirst := List.mem_mergeSort.mpr hmem
  rcases hfind : (forms.mergeSort DecodeForm.comesFirst).find? p with _ | form
  · exact absurd hmatch (by simpa using List.find?_eq_none.mp hfind candidate hmem')
  · use form, rfl
    obtain ⟨hp, before, after, hsplit, hnone⟩ := List.find?_eq_some_iff_append.mp hfind
    apply hbest form _ hp
    · rw [hsplit] at hmem' hsorted
      rcases List.mem_append.mp hmem' with hbefore | hlast
      · have hnot := hnone candidate hbefore
        rw [hmatch] at hnot
        cases hnot
      · rcases List.mem_cons.mp hlast with rfl | hafter
        · have htotal := comesFirst_total candidate candidate
          rwa [Bool.or_self] at htotal
        · exact (List.pairwise_cons.mp (List.pairwise_append.mp hsorted).2.1).1 candidate hafter
    · exact List.mem_mergeSort.mp (List.mem_of_find?_eq_some hfind)

/-! ### Decoding piece by piece -/

theorem replaceDecodeForms_skip (forms : List DecodeForm) (before word rest : Text) :
  replaceDecodeForms T forms before (word ++ rest) word.length =
    replaceDecodeForms T forms (word.reverse ++ before) rest 0
  := by
  induction word generalizing before with
  | nil => rfl
  | cons c word ih =>
      rw [List.cons_append, List.length_cons, replaceDecodeForms, ih]
      simp

/-- The pieces are put back when no form is found in place of a symbol, and the form of its text
in place of each span. -/
theorem replaceDecodeForms_render {forms : List DecodeForm} {pieces : List (Piece Char Finding)}
    (hsymbol : ∀ others c rest, pieces = others ++ .symbol c :: rest →
      forms.find? (·.matchesAt T (assignment.render others).reverse
        (c :: assignment.render rest)) = none)
    (hspan : ∀ others span finding rest, pieces = others ++ .span span finding :: rest →
      assignment.replacement finding ≠ [] ∧ ∃ form,
        forms.find? (·.matchesAt T (assignment.render others).reverse
          (assignment.replacement finding ++ assignment.render rest)) = some form
        ∧ form.pseudo.length = (assignment.replacement finding).length ∧ form.real = span) :
  replaceDecodeForms T forms [] (assignment.render pieces) 0 = pieces.flatMap Piece.source
  := by
  have hall : ∀ others rest, pieces = others ++ rest →
      replaceDecodeForms T forms (assignment.render others).reverse (assignment.render rest) 0 =
        rest.flatMap Piece.source := by
    intro others rest
    induction rest generalizing others with
    | nil =>
        intro _
        exact replaceDecodeForms.eq_1 T forms _ _
    | cons piece rest ih =>
        intro hpieces
        have hnext := ih (others ++ [piece]) (by rw [hpieces, List.append_cons])
        rw [RequestAssignment.render_append] at hnext
        cases piece with
        | symbol c =>
            rw [RequestAssignment.render_symbol, replaceDecodeForms,
              hsymbol others c rest hpieces, List.flatMap_cons]
            rw [RequestAssignment.render_symbol, List.reverse_append] at hnext
            exact congrArg (List.cons c) hnext
        | span span finding =>
            obtain ⟨hne, form, hfind, hlength, rfl⟩ := hspan others span finding rest hpieces
            rw [RequestAssignment.render_span, List.flatMap_cons]
            rw [RequestAssignment.render_span, List.reverse_append] at hnext
            rcases hreplaced : assignment.replacement finding with _ | ⟨c, replaced⟩
            · exact absurd hreplaced hne
            · rw [hreplaced] at hfind hlength hnext
              rw [List.cons_append] at hfind ⊢
              rw [replaceDecodeForms, hfind]
              dsimp only
              rw [hlength, List.length_cons, Nat.add_sub_cancel, replaceDecodeForms_skip]
              have hcontext : (c :: replaced ++ assignment.render []).reverse
                    ++ (assignment.render others).reverse =
                  replaced.reverse ++ c :: (assignment.render others).reverse := by
                simp [RequestAssignment.render]
              rw [hcontext] at hnext
              rw [hnext]
              rfl
  exact hall [] pieces rfl

/-! ### What stands beside a replacement -/

/-- Beside what is replaced, the output is as the text. -/
theorem Setting.beside_span (h : Setting T cipher assignment text)
    {others rest : List (Piece Char Finding)} {span : Text} {finding : Finding}
    (hpieces : cipher.pieces T text = others ++ .span span finding :: rest) :
  (assignment.render others).getLast? = (others.flatMap Piece.source).getLast?
    ∧ (assignment.render rest).head? = (rest.flatMap Piece.source).head?
  := by
  have hapart : ∀ others span finding span' finding' rest, cipher.pieces T text ≠
      others ++ .span span finding :: .span span' finding' :: rest := by
    intro others span finding span' finding' rest heq
    rcases finding.isAddress_or with haddress | ⟨i, kind, rfl⟩
    · exact not_span_after_address h.indexed haddress heq
    · exact h.restorable.apart _ _ _ _ _ _ _ heq
  constructor
  · rcases others.eq_nil_or_concat with rfl | ⟨others, ⟨d⟩ | ⟨span', finding'⟩, rfl⟩
    · rfl
    · rw [List.concat_eq_append, RequestAssignment.render, Piece.render_append, List.flatMap_append]
      simp [Piece.source]
    · rw [List.concat_eq_append, List.append_assoc] at hpieces
      exact absurd hpieces (hapart _ _ _ _ _ _)
  · rcases rest with _ | ⟨⟨d⟩ | ⟨span', finding'⟩, rest⟩
    · rfl
    · rfl
    · exact absurd hpieces (hapart _ _ _ _ _ _)

/-- A character of the output after what is replaced is plain. -/
theorem Setting.symbol_of_span (h : Setting T cipher assignment text)
    {others rest : List (Piece Char Finding)} {span : Text} {finding : Finding}
    (hpieces : cipher.pieces T text = others ++ .span span finding :: rest) {c : Char}
    {after : Text} (hrender : assignment.render rest = c :: after) :
  ∃ rest', rest = .symbol c :: rest' ∧ after = assignment.render rest'
  := by
  rcases rest with _ | ⟨⟨d⟩ | ⟨span', finding'⟩, rest⟩
  · cases hrender
  · rw [RequestAssignment.render, Piece.render_symbol] at hrender
    obtain ⟨rfl, hrest⟩ := List.cons.inj hrender
    exact ⟨rest, rfl, hrest.symm⟩
  · exfalso
    rcases finding.isAddress_or with haddress | ⟨i, kind, rfl⟩
    · exact not_span_after_address h.indexed haddress hpieces
    · exact h.restorable.apart _ _ _ _ _ _ _ hpieces

/-! ### Forms -/

/-- What stands for a person in an answer is the address or a name of the pseudonym. -/
theorem mem_decodeForms {person : AssignedPerson} {form : DecodeForm} :
  form ∈ person.decodeForms ↔ form = ⟨person.pseudonym.address, person.realAddress, 4⟩
    ∨ ∃ kind real, person.realName.canonicalForm kind = some real
      ∧ (kind = .family → person.pseudonym.family ≠ none)
      ∧ form = ⟨person.pseudonym.replacement kind, real, kind.rank + 1⟩
  := by
  obtain ⟨pseudonym, realName, realAddress⟩ := person
  rw [AssignedPerson.decodeForms, List.mem_append, List.mem_cons, List.mem_cons, List.mem_cons]
  constructor
  · rintro ((rfl | rfl | rfl | hnil) | hfamily)
    · exact Or.inl rfl
    · exact Or.inr ⟨.full, realName.canonicalFull, rfl, nofun, rfl⟩
    · exact Or.inr ⟨.given, realName.given, rfl, nofun, rfl⟩
    · cases hnil
    · rcases hpseudo : pseudonym.family with _ | pseudo
      · simp [hpseudo] at hfamily
      · rcases hreal : realName.family with _ | real
        · simp [hreal] at hfamily
        · simp only [hpseudo, hreal, List.mem_singleton] at hfamily
          right
          refine ⟨.family, real, hreal, fun _ => Option.some_ne_none _, ?_⟩
          rw [hfamily, Pseudonym.replacement, hpseudo]
          rfl
  · rintro (rfl | ⟨kind, real, hreal, hfamily, rfl⟩)
    · exact Or.inl (Or.inl rfl)
    · cases kind with
      | full =>
          cases hreal
          exact Or.inl (Or.inr (Or.inl rfl))
      | given =>
          cases hreal
          exact Or.inl (Or.inr (Or.inr (Or.inl rfl)))
      | family =>
          right
          obtain ⟨pseudo, hpseudo⟩ := Option.ne_none_iff_exists'.mp (hfamily rfl)
          have hreal' : realName.family = some real := hreal
          have hpseudo' : pseudonym.family = some pseudo := hpseudo
          simp only [hpseudo', hreal', List.mem_singleton, Pseudonym.replacement]
          rfl

/-- A name stands where it does as a whole word. -/
theorem matchesAt_replacement {pseudonym : Pseudonym} (hissued : Issued assignment pseudonym)
    (kind : MatchKind) (real : Text) (priority : ℕ) (before rest : Text) :
  (DecodeForm.mk (pseudonym.replacement kind) real priority).matchesAt T before rest =
    wholeWordMatchAt T before rest (pseudonym.replacement kind)
  := by
  rw [DecodeForm.matchesAt, if_neg]
  intro hsign
  rcases hissued.mem_replacement hsign with halphanum | hspace
  · cases halphanum
  · cases hspace

/-- An address stands where it does as an address, but for capital letters. -/
theorem matchesAt_address {pseudonym : Pseudonym} (hissued : Issued assignment pseudonym)
    (real : Text) (priority : ℕ) (before rest : Text) :
  (DecodeForm.mk pseudonym.address real priority).matchesAt T before rest = true ↔
    ∃ found after, rest = found ++ after
      ∧ toAsciiLowercase found = toAsciiLowercase pseudonym.address
      ∧ before.head?.any isEmailCharacter = false ∧ after.head?.any isEmailCharacter = false
  := by
  have hsign : '@' ∈ pseudonym.address := by
    rcases hissued.pool_or with ⟨given, family, -, -, -, -, -, rfl⟩ | ⟨number, rfl⟩
    · simp [Pseudonym.new]
    · rw [numberedAddress_eq]
      simp
  rw [DecodeForm.matchesAt, if_pos hsign]
  simp only [exactEmailAt, Bool.and_eq_true, decide_eq_true_eq, Bool.not_eq_true']
  constructor
  · rintro ⟨⟨heq, hbefore⟩, hafter⟩
    exact ⟨_, _, (List.take_append_drop pseudonym.address.length rest).symm, heq, hbefore, hafter⟩
  · rintro ⟨found, after, rfl, heq, hbefore, hafter⟩
    have hlength : found.length = pseudonym.address.length := by
      simpa [toAsciiLowercase] using congrArg List.length heq
    rw [← hlength, List.take_left, List.drop_left]
    exact ⟨⟨heq, hbefore⟩, hafter⟩

theorem toAsciiLowercase_poolWords {word : Text} (h : word ∈ poolWords) :
  toAsciiLowercase (toAsciiLowercase word) = toAsciiLowercase word
  := by
  have hall : ∀ word ∈ poolWords,
      toAsciiLowercase (toAsciiLowercase word) = toAsciiLowercase word := by decide
  exact hall word h

/-- What is an address of a pseudonym of the pool, but for capital letters. -/
theorem eq_of_poolAddress {given family found : Text} (hgiven : given ∈ givenNames)
    (hfamily : family ∈ familyNames)
    (heq : toAsciiLowercase found = toAsciiLowercase (Pseudonym.new given (some family)).address) :
  ∃ first last domain, found = first ++ '.' :: (last ++ '@' :: domain)
    ∧ toAsciiLowercase first = toAsciiLowercase given
    ∧ toAsciiLowercase last = toAsciiLowercase family ∧ toAsciiLowercase domain = pseudonymDomain
    ∧ first ≠ [] ∧ (∀ c ∈ first, c.isAlphanum = true) ∧ last ≠ []
    ∧ ∀ c ∈ last, c.isAlphanum = true
  := by
  have hpool := List.mem_append_left familyNames hgiven
  have hpool' := List.mem_append_right givenNames hfamily
  have haddress : toAsciiLowercase (Pseudonym.new given (some family)).address =
      toAsciiLowercase given ++ '.' :: (toAsciiLowercase family ++ '@' :: pseudonymDomain) := by
    have hdomain : toAsciiLowercase pseudonymDomain = pseudonymDomain := by decide
    rw [← toAsciiLowercase_poolWords hpool, ← toAsciiLowercase_poolWords hpool', ← hdomain]
    simp [Pseudonym.new, toAsciiLowercase]
  rw [haddress] at heq
  obtain ⟨first, tail, rfl, hfirst, htail⟩ := List.map_eq_append_iff.mp heq
  obtain ⟨dot, tail, rfl, hdot, htail⟩ := List.map_eq_cons_iff.mp htail
  obtain ⟨last, tail, rfl, hlast, htail⟩ := List.map_eq_append_iff.mp htail
  obtain ⟨sign, domain, rfl, hsign, hdomain⟩ := List.map_eq_cons_iff.mp htail
  obtain rfl : dot = '.' := eq_of_toLower_eq rfl hdot
  obtain rfl : sign = '@' := eq_of_toLower_eq rfl hsign
  obtain ⟨hne, hword⟩ := poolWords_alphanum hpool
  obtain ⟨hne', hword'⟩ := poolWords_alphanum hpool'
  refine ⟨first, last, domain, rfl, hfirst, hlast, hdomain, ?_,
    forall_of_toAsciiLowercase_eq isAlphanum_of_isAlpha hfirst hword, ?_,
    forall_of_toAsciiLowercase_eq isAlphanum_of_isAlpha hlast hword'⟩
  · rintro rfl
    exact hne (List.map_eq_nil_iff.mp hfirst.symm)
  · rintro rfl
    exact hne' (List.map_eq_nil_iff.mp hlast.symm)

example : (Pseudonym.new "Priya".toList (some "Okafor".toList)).address =
    "priya.okafor@example.invalid".toList
  := by decide +kernel

/-- What is an address of a person by number, but for capital letters. -/
theorem eq_of_numberedAddress {number : ℕ} {found : Text} (heq : toAsciiLowercase found =
    toAsciiLowercase (Pseudonym.new (personNumber number) none).address) :
  ∃ first domain, found = first ++ '@' :: domain
    ∧ toAsciiLowercase first = "person".toList ++ digitsOf number
    ∧ toAsciiLowercase domain = pseudonymDomain ∧ first ≠ [] ∧ ∀ c ∈ first, c.isAlphanum = true
  := by
  have hperson : toAsciiLowercase ("person".toList ++ digitsOf number) =
      "person".toList ++ digitsOf number := by
    rw [toAsciiLowercase, List.map_append, ← toAsciiLowercase, ← toAsciiLowercase,
      toAsciiLowercase_digitsOf]
    rfl
  have haddress : toAsciiLowercase (Pseudonym.new (personNumber number) none).address =
      ("person".toList ++ digitsOf number) ++ '@' :: pseudonymDomain := by
    rw [numberedAddress_eq, toAsciiLowercase, List.map_append, ← toAsciiLowercase, hperson]
    rfl
  rw [haddress] at heq
  obtain ⟨first, tail, rfl, hfirst, htail⟩ := List.map_eq_append_iff.mp heq
  obtain ⟨sign, domain, rfl, hsign, hdomain⟩ := List.map_eq_cons_iff.mp htail
  obtain rfl : sign = '@' := eq_of_toLower_eq rfl hsign
  refine ⟨first, domain, rfl, hfirst, hdomain, ?_, ?_⟩
  · rintro rfl
    cases hfirst
  · apply forall_of_toAsciiLowercase_eq isAlphanum_of_isAlpha (hfirst.trans hperson.symm)
    intro c hc
    rcases List.mem_append.mp hc with hc | hc
    · have hall : ∀ c ∈ "person".toList, c.isAlphanum = true := by decide
      exact hall c hc
    · exact ((digitsOf_alphanum number).2 c hc).2

/-! ### Where nothing was replaced -/

theorem not_invented_digitsOf (number : ℕ) :
  ¬ Invented (digitsOf number)
  := by
  obtain ⟨hne, hall⟩ := digitsOf_alphanum number
  rw [Invented, toAsciiLowercase_digitsOf]
  rcases hdigits : digitsOf number with _ | ⟨c, digits⟩
  · exact absurd hdigits hne
  · have hdigit : c.isDigit = true := (hall c (by rw [hdigits]; exact List.mem_cons_self)).1
    rintro (hpool | hperson)
    · have hletters : ∀ word ∈ poolWords.map toAsciiLowercase,
          word.head?.any Char.isDigit = false := by decide
      have hfirst := hletters _ hpool
      rw [List.head?_cons, Option.any_some, hdigit] at hfirst
      cases hfirst
    · obtain ⟨rest, hrest⟩ := hperson
      obtain rfl : 'p' = c := (List.cons.inj hrest).1
      cases hdigit

example : Invented "Personal".toList
  := Or.inr (by decide +kernel)

/-- Nobody's number stands where nothing was replaced. -/
theorem Setting.not_number_at_symbol (h : Setting T cipher assignment text)
    {others rest : List (Piece Char Finding)} {c : Char}
    (hpieces : cipher.pieces T text = others ++ .symbol c :: rest) {i : ℕ}
    {person : AssignedPerson} (hassigned : assignment.Assigned i person) {number : ℕ}
    (hperson : person.pseudonym = Pseudonym.new (personNumber number) none) :
  wholeWordMatchAt T (assignment.render others).reverse
    (assignment.render (.symbol c :: rest)) (personNumber number) = false
  := by
  by_contra hmatch
  rw [Bool.not_eq_false, wholeWordMatchAt_iff] at hmatch
  obtain ⟨-, after, hrender, hbefore, hafter⟩ := hmatch
  rw [List.head?_reverse] at hbefore
  rw [personNumber_eq, List.append_assoc, List.cons_append] at hrender
  have hword : ∀ c ∈ "Person".toList, c.isAlphanum = true := by decide
  obtain ⟨rest', heq, hrest'⟩ :=
    symbols_of_alphanum h.indexed hpieces hrender (by decide) hword
  have hpieces' := hpieces
  rw [heq] at hpieces'
  obtain ⟨rest'', rfl, hrest''⟩ :=
    symbol_of_alphanum h.indexed hpieces' (by decide) hword hrest'.symm
  obtain ⟨hne, hdigits⟩ := digitsOf_alphanum number
  have hnext : after.head?.any Char.isAlphanum = false := by
    rcases after with _ | ⟨d, after⟩
    · rfl
    · by_contra halphanum
      rw [Bool.not_eq_false] at halphanum
      have hd : isWordCharacter T d = false := hafter
      rw [isWordCharacter_of_isAlphanum halphanum] at hd
      cases hd
  have hsplit : cipher.pieces T text =
      (others ++ ("Person".toList.map .symbol ++ [.symbol ' '])) ++ rest'' := by
    rw [hpieces']
    simp
  obtain ⟨outer, rfl, rfl⟩ := h.plain_word hsplit hrest''.symm hne
    (fun c hc => (hdigits c hc).2) hnext (not_invented_digitsOf number)
  -- So the number stands in the text.
  have hleft := (word_bounds assignment h.indexed hpieces' (by decide) hword).1
  have hright := (word_bounds assignment h.indexed hsplit hne fun c hc => (hdigits c hc).2).2
  have hsource : c :: rest.flatMap Piece.source =
      personNumber number ++ outer.flatMap Piece.source := by
    have hflat := congrArg (List.flatMap Piece.source) heq
    rw [List.flatMap_cons, List.flatMap_append, source_map_symbol, List.flatMap_cons,
      List.flatMap_append, source_map_symbol] at hflat
    rw [personNumber_eq, List.append_assoc]
    exact hflat
  have hfree := h.restorable.unnumbered i person hassigned (by rw [hperson]; rfl) others c rest hpieces
  have hfull : person.pseudonym.full = personNumber number := by
    rw [hperson]
    rfl
  have hstands : wholeWordMatchAt T (others.flatMap Piece.source).reverse
      (c :: rest.flatMap Piece.source) (personNumber number) = true := by
    rw [wholeWordMatchAt_iff, List.head?_reverse, ← hleft]
    refine ⟨List.cons_ne_nil _ _, outer.flatMap Piece.source, hsource, hbefore, ?_⟩
    rw [← hright]
    exact hafter
  rw [hfull, hstands] at hfree
  cases hfree

theorem isAlphanumeric_of_isWordCharacter {o : Option Char}
    (h : o.any (isWordCharacter T) = false) :
  o.any T.isAlphanumeric = false
  := by
  cases o with
  | none => rfl
  | some c =>
      rw [Option.any_some, isWordCharacter, Bool.or_eq_false_iff] at h
      exact h.1

theorem isAlphanum_of_isEmailCharacter {o : Option Char} (h : o.any isEmailCharacter = false) :
  o.any Char.isAlphanum = false
  := by
  cases o with
  | none => rfl
  | some c =>
      rw [Option.any_some, isEmailCharacter, Bool.or_eq_false_iff] at h
      exact h.1

/-- A name of the pool starts with a word that is skipped, and has then an end or a space. -/
theorem poolReplacement_eq {given family : Text} (hgiven : given ∈ givenNames)
    (hfamily : family ∈ familyNames) (kind : MatchKind) :
  ∃ word tail, (Pseudonym.new given (some family)).replacement kind = word ++ tail
    ∧ word ∈ poolWords ∧ (word = given ∨ word = family)
    ∧ (tail = [] ∨ ∃ tail', tail = ' ' :: tail')
  := by
  have hpool := List.mem_append_left familyNames hgiven
  have hpool' := List.mem_append_right givenNames hfamily
  cases kind with
  | full => exact ⟨given, ' ' :: family, rfl, hpool, Or.inl rfl, Or.inr ⟨family, rfl⟩⟩
  | family => exact ⟨family, [], (List.append_nil _).symm, hpool', Or.inr rfl, Or.inl rfl⟩
  | given => exact ⟨given, [], (List.append_nil _).symm, hpool, Or.inl rfl, Or.inl rfl⟩

example : (Pseudonym.new "Priya".toList (some "Okafor".toList)).replacement .full =
    "Priya Okafor".toList
  := by decide +kernel

/-- No name of a pseudonym stands where nothing was replaced. -/
theorem Setting.not_name_at_symbol (h : Setting T cipher assignment text)
    {others rest : List (Piece Char Finding)} {c : Char}
    (hpieces : cipher.pieces T text = others ++ .symbol c :: rest) {i : ℕ}
    {person : AssignedPerson} (hassigned : assignment.Assigned i person) (kind : MatchKind) :
  wholeWordMatchAt T (assignment.render others).reverse
    (assignment.render (.symbol c :: rest)) (person.pseudonym.replacement kind) = false
  := by
  rcases (h.sound.issued i person hassigned).pool_or with
    ⟨given, family, -, hgiven, hfamily, hskipped, hskipped', heq⟩ | ⟨number, heq⟩
  · rw [heq]
    by_contra hmatch
    rw [Bool.not_eq_false, wholeWordMatchAt_iff, List.head?_reverse] at hmatch
    obtain ⟨-, after, hrender, hbefore, hafter⟩ := hmatch
    obtain ⟨word, tail, hreplaced, hpool, hword, htail⟩ := poolReplacement_eq hgiven hfamily kind
    obtain ⟨hne, halphanum⟩ := poolWords_alphanum hpool
    have hnot : toAsciiLowercase word ∉ assignment.skippedTokens := by
      rcases hword with rfl | rfl
      · exact hskipped
      · exact hskipped'
    rw [hreplaced, List.append_assoc] at hrender
    have hnext := h.not_skipped_word hpieces hrender hne halphanum hnot
      (isAlphanumeric_of_isWordCharacter hbefore)
    rcases htail with rfl | ⟨tail, rfl⟩
    · rw [List.nil_append, isAlphanumeric_of_isWordCharacter hafter] at hnext
      cases hnext
    · have hspace : T.isAlphanumeric ' ' = false := isAlphanumeric_of_ascii (by decide) rfl
      rw [List.cons_append, List.head?_cons, Option.any_some, hspace] at hnext
      cases hnext
  · have hnumber := h.not_number_at_symbol hpieces hassigned heq
    rw [heq]
    cases kind with
    | full => exact hnumber
    | family => exact hnumber
    | given => exact hnumber

/-- An address with the domain of the pseudonyms is found. -/
theorem addressAt_of_domain {before first domain after : Text}
    (hbefore : before.head?.any isEmailCharacter = false) (hne : first ≠ [])
    (hword : ∀ c ∈ first, c.isAlphanum = true) (hdomain : toAsciiLowercase domain = pseudonymDomain)
    (hafter : after.head?.any isEmailCharacter = false) :
  AddressAt before first domain [] after
  := by
  have hlower : toAsciiLowercase domain = toAsciiLowercase pseudonymDomain := by
    rw [hdomain]
    decide
  constructor
  · exact hbefore
  · exact hne
  · intro c hc
    rw [isLocalCharacter, hword c hc]
    rfl
  · exact forall_of_toAsciiLowercase_eq isDomainCharacter_of_isAlpha hlower (by decide)
  · have hdot : '.' ∈ toAsciiLowercase domain := by
      rw [hdomain]
      decide
    obtain ⟨c, hc, hlower⟩ := List.mem_map.mp hdot
    rwa [← eq_of_toLower_eq rfl hlower]
  · intro hhead
    have hfirst : (toAsciiLowercase domain).head? = some '.' := by
      rw [toAsciiLowercase, List.head?_map, hhead]
      rfl
    rw [hdomain] at hfirst
    revert hfirst
    decide
  · intro c hc
    have hlast : (toAsciiLowercase domain).getLast? = some c.toLower := by
      rw [toAsciiLowercase, List.getLast?_map, hc]
      rfl
    rw [hdomain] at hlast
    have hd : c.toLower = 'd' := (Option.some.inj hlast).symm
    simp only [Bool.or_eq_false_iff, decide_eq_false_iff_not]
    constructor
    · rintro rfl
      cases hd
    · rintro rfl
      cases hd
  · simp
  · rcases after with _ | ⟨c, after⟩
    · rfl
    · by_contra hstop
      rw [Bool.not_eq_false] at hstop
      have hc : isEmailCharacter c = false := hafter
      rw [isEmailCharacter_of_isLocalCharacter (isLocalCharacter_of_isDomainCharacter hstop)] at hc
      cases hc
  · rcases after with _ | ⟨c, after⟩
    · rfl
    · by_contra hcontinues
      rw [Bool.not_eq_false] at hcontinues
      have hc : isEmailCharacter c = false := hafter
      have hmore : isEmailContinuation c = true := hcontinues
      simp only [isEmailContinuation, isEmailCharacter, Bool.or_eq_true, Bool.or_eq_false_iff,
        decide_eq_true_eq, decide_eq_false_iff_not, List.mem_cons, List.not_mem_nil, or_false,
        not_or] at hmore hc
      rcases hmore with halphanum | hsign
      · rw [hc.1] at halphanum
        cases halphanum
      · tauto

/-- No address of a pseudonym stands where nothing was replaced. -/
theorem Setting.not_address_at_symbol (h : Setting T cipher assignment text)
    {others rest : List (Piece Char Finding)} {c : Char}
    (hpieces : cipher.pieces T text = others ++ .symbol c :: rest) {i : ℕ}
    {person : AssignedPerson} (hassigned : assignment.Assigned i person) {found after : Text}
    (hrender : assignment.render (.symbol c :: rest) = found ++ after)
    (heq : toAsciiLowercase found = toAsciiLowercase person.pseudonym.address)
    (hbefore : (assignment.render others).getLast?.any isEmailCharacter = false)
    (hafter : after.head?.any isEmailCharacter = false) :
  False
  := by
  have hend := isAlphanum_of_isEmailCharacter hafter
  rcases (h.sound.issued i person hassigned).pool_or with
    ⟨given, family, -, hgiven, hfamily, hskipped, hskipped', hpseudonym⟩ | ⟨number, hpseudonym⟩
  · rw [hpseudonym] at heq
    obtain ⟨first, last, domain, rfl, -, hlast, hdomain, hne, hword, hne', hword'⟩ :=
      eq_of_poolAddress hgiven hfamily heq
    rw [List.append_assoc, List.cons_append] at hrender
    obtain ⟨rest', heq', hrest'⟩ := symbols_of_alphanum h.indexed hpieces hrender hne hword
    rw [heq'] at hpieces
    obtain ⟨rest'', rfl, hrest''⟩ := symbol_of_alphanum h.indexed hpieces hne hword hrest'.symm
    rw [← List.append_assoc] at hpieces
    rw [List.append_assoc, List.cons_append] at hrest''
    apply h.not_family_before_sign hpieces hne' hword' _ hrest''.symm hdomain hend
    rw [hlast]
    exact hskipped'
  · rw [hpseudonym] at heq
    obtain ⟨first, domain, rfl, -, hdomain, hne, hword⟩ := eq_of_numberedAddress heq
    rw [List.append_assoc, List.cons_append] at hrender
    obtain ⟨rest', heq', hrest'⟩ := symbols_of_alphanum h.indexed hpieces hrender hne hword
    have hnone := found_of_symbol h.indexed hpieces
    rw [heq'] at hpieces
    obtain ⟨rest'', rfl, hrest''⟩ := symbol_of_alphanum h.indexed hpieces hne hword hrest'.symm
    have hsplit : cipher.pieces T text =
        (others ++ (first.map .symbol ++ [.symbol '@'])) ++ rest'' := by
      rw [hpieces]
      simp
    obtain ⟨outer, rfl, rfl⟩ := h.plain_domain hsplit hrest''.symm hdomain hend
    -- The scanner would have found the address.
    have hleft := (word_bounds assignment h.indexed hpieces hne hword).1
    have hright : (assignment.render outer).head? = (outer.flatMap Piece.source).head? := by
      rcases domain.eq_nil_or_concat with rfl | ⟨domain', d, rfl⟩
      · cases hdomain
      · have hd : d.toLower = 'd' := by
          have hlast := congrArg List.getLast? hdomain
          rw [List.concat_eq_append, toAsciiLowercase, List.map_append, List.getLast?_append] at hlast
          exact Option.some.inj hlast
        have halpha : d.isAlphanum = true := by
          rw [← class_toLower isAlphanum_of_isAlpha, hd]
          rfl
        have hlast : cipher.pieces T text = (others ++ (first.map .symbol ++ [.symbol '@'])
            ++ domain'.map .symbol) ++ .symbol d :: outer := by
          rw [hsplit]
          simp
        exact head_render_of_alphanum h.indexed halpha hlast
    have hat : AddressAt (others.flatMap Piece.source).reverse first domain []
        (outer.flatMap Piece.source) := by
      apply addressAt_of_domain _ hne hword hdomain
      · rw [← hright]
        exact hafter
      · rw [List.head?_reverse, ← hleft]
        exact hbefore
    have hsource : c :: rest.flatMap Piece.source =
        addressOf first domain ++ ([] ++ outer.flatMap Piece.source) := by
      have hflat := congrArg (List.flatMap Piece.source) heq'
      rw [List.flatMap_cons, List.flatMap_append, source_map_symbol, List.flatMap_cons,
        List.flatMap_append, source_map_symbol] at hflat
      rw [addressOf, List.append_assoc]
      exact hflat
    have hemail := emailAt_eq_some.mpr ⟨first, domain, [], _, hat, hsource, rfl, rfl⟩
    rw [NameCipher.found, hemail] at hnone
    dsimp only at hnone
    rcases hlookup : cipher.byAddress.lookup (toAsciiLowercase (addressOf first domain)) with _ | j
    · rw [hlookup] at hnone
      dsimp only at hnone
      split_ifs at hnone
    · rw [hlookup] at hnone
      cases hnone

/-! ### Where a name was replaced -/

/-- The name of a pseudonym is a word of the pool, or it has a space after its first word. -/
theorem Issued.replacement_parts {pseudonym : Pseudonym} (h : Issued assignment pseudonym)
    (kind : MatchKind) :
  ∃ word tail, pseudonym.replacement kind = word ++ tail ∧ word ≠ []
    ∧ (∀ c ∈ word, c.isAlphanum = true)
    ∧ (tail = [] ∧ word ∈ poolWords ∨ ∃ tail', tail = ' ' :: tail')
  := by
  rcases h.pool_or with ⟨given, family, -, hgiven, hfamily, -, -, rfl⟩ | ⟨number, rfl⟩
  · obtain ⟨word, tail, hreplaced, hpool, -, htail⟩ := poolReplacement_eq hgiven hfamily kind
    obtain ⟨hne, hword⟩ := poolWords_alphanum hpool
    refine ⟨word, tail, hreplaced, hne, hword, ?_⟩
    rcases htail with rfl | htail
    · exact Or.inl ⟨rfl, hpool⟩
    · exact Or.inr htail
  · exact ⟨"Person".toList, ' ' :: digitsOf number, numberedReplacement_eq number kind, by decide,
      by decide,
      Or.inr ⟨digitsOf number, rfl⟩⟩

/-- Names of the pool with one family name are the same. -/
theorem given_eq_of_family_eq {given given' family family' : Text}
    (h : (given, family) ∈ poolPairs) (h' : (given', family') ∈ poolPairs) (heq : family = family') :
  given = given'
  := by
  have hall : ∀ pair ∈ poolPairs, ∀ pair' ∈ poolPairs, pair.2 = pair'.2 → pair.1 = pair'.1 := by
    decide
  exact hall _ h _ h' heq

/-- No address of a pseudonym stands where a name was replaced. -/
theorem Setting.not_address_at_name (h : Setting T cipher assignment text)
    {others rest : List (Piece Char Finding)} {span : Text} {i j : ℕ} {kind : MatchKind}
    (hpieces : cipher.pieces T text = others ++ .span span (.name i kind) :: rest)
    {person person' : AssignedPerson} (hassigned : assignment.Assigned i person)
    (hassigned' : assignment.Assigned j person') {found after : Text}
    (hrender : person.pseudonym.replacement kind ++ assignment.render rest = found ++ after)
    (heq : toAsciiLowercase found = toAsciiLowercase person'.pseudonym.address)
    (hafter : after.head?.any isEmailCharacter = false) :
  False
  := by
  have hnext := h.not_alphanum_after_name hpieces
  obtain ⟨word, tail, hreplaced, hne, hword, htail⟩ :=
    (h.sound.issued i person hassigned).replacement_parts kind
  rw [hreplaced, List.append_assoc] at hrender
  have hstop : (tail ++ assignment.render rest).head?.any Char.isAlphanum = false := by
    rcases htail with ⟨rfl, -⟩ | ⟨tail, rfl⟩
    · exact hnext
    · rfl
  rcases (h.sound.issued j person' hassigned').pool_or with
    ⟨given, family, -, hgiven, hfamily, -, hskipped, hpseudonym⟩ | ⟨number, hpseudonym⟩
  · rw [hpseudonym] at heq
    obtain ⟨first, last, domain, rfl, -, hlast, hdomain, -, hfirst, hne', hword'⟩ :=
      eq_of_poolAddress hgiven hfamily heq
    rw [List.append_assoc, List.cons_append] at hrender
    have hhead := congrArg headWord hrender
    rw [headWord_append hword hstop, headWord_append hfirst rfl] at hhead
    rw [hhead] at hrender
    have hdot := List.append_cancel_left hrender
    rcases htail with ⟨rfl, -⟩ | ⟨tail, rfl⟩
    · rw [List.append_assoc, List.cons_append] at hdot
      obtain ⟨rest', rfl, hrest'⟩ := h.symbol_of_span hpieces hdot
      rw [List.append_cons] at hpieces
      apply h.not_family_before_sign hpieces hne' hword' _ hrest'.symm hdomain
        (isAlphanum_of_isEmailCharacter hafter)
      rw [hlast]
      exact hskipped
    · cases hdot
  · rw [hpseudonym] at heq
    obtain ⟨first, domain, rfl, hfirst, -, -, hword'⟩ := eq_of_numberedAddress heq
    rw [List.append_assoc, List.cons_append] at hrender
    have hhead := congrArg headWord hrender
    rw [headWord_append hword hstop, headWord_append hword' rfl] at hhead
    rw [hhead] at hrender
    have hsign := List.append_cancel_left hrender
    rcases htail with ⟨rfl, hpool⟩ | ⟨tail, rfl⟩
    · have hall : ∀ word ∈ poolWords, ¬ "person".toList <+: toAsciiLowercase word := by
        decide
      apply hall word hpool
      rw [hhead, hfirst]
      apply List.prefix_append
    · cases hsign

/-- A given name is not found where the family name follows it. -/
theorem Setting.not_given_then_family (h : Setting T cipher assignment text)
    {others rest : List (Piece Char Finding)} {span span' : Text} {i : ℕ} :
  cipher.pieces T text ≠ others ++
    .span span (.name i .given) :: .symbol ' ' :: .span span' (.name i .family) :: rest
  := by
  intro hpieces
  obtain ⟨person, name, hperson, hname, hgiven⟩ :=
    h.forms.name span i .given (by rw [hpieces]; simp)
  obtain ⟨person', name', hperson', hname', hfamily⟩ :=
    h.forms.name span' i .family (by rw [hpieces]; simp)
  obtain rfl : person = person' := Option.some.inj (hperson.symm.trans hperson')
  obtain rfl : name = name' := Option.some.inj (hname.symm.trans hname')
  obtain rfl : name.given = span := Option.some.inj hgiven
  have hfamily' : name.family = some span' := hfamily
  -- Both together are one of the full forms, which is longer.
  have hmem := List.mem_of_head? hname
  have hfull := ((h.formed.named person (List.mem_of_getElem? hperson)).2 name hmem).parts span'
    hfamily'
  obtain ⟨index, hindex⟩ := List.mem_iff_getElem?.mp hfull
  obtain ⟨lookup, form, -, hspan, -, -, hbest⟩ := NameCipher.best_of_pieces h.indexed hpieces
  have hsource := (NameCipher.scanned_pieces (T := T) h.indexed text).source
  rw [hpieces, List.flatMap_append, List.flatMap_cons, List.flatMap_cons, List.flatMap_cons]
    at hsource
  have hbefore := (name_bounds h.indexed hpieces).1
  have hpieces' : cipher.pieces T text = (others ++
      [.span name.given (.name i .given), .symbol ' ']) ++ .span span' (.name i .family) :: rest := by
    rw [hpieces]
    simp
  have hafter := (name_bounds h.indexed hpieces').2
  apply hbest ⟨i, 0, .full index⟩ (name.given ++ ' ' :: span')
  · rw [NameCipher.KnownAt, ← hsource, List.take_left, List.drop_left]
    refine ⟨⟨?_, ?_⟩, wholeWordMatchAt_iff.mpr ⟨by simp, rest.flatMap Piece.source, ?_, ?_, hafter⟩⟩
    · rw [NameCipher.form, hperson, Option.bind_some, ← List.head?_eq_getElem?, hname]
      exact hindex
    · exact List.append_ne_nil_of_right_ne_nil _ (List.cons_ne_nil _ _)
    · simp [Piece.source]
    · rw [List.head?_reverse]
      exact hbefore
  · left
    rw [NameCipher.formMatch, NameCipher.formMatch, ← hspan]
    dsimp only
    rw [List.length_append, List.length_cons]
    omega

/-- The given name of a person is not found right before a name that becomes the family name of
the pseudonym. -/
theorem Setting.not_given_before_family (h : Setting T cipher assignment text)
    {others rest : List (Piece Char Finding)} {span : Text} {i : ℕ}
    (hpieces : cipher.pieces T text = others ++ .span span (.name i .given) :: rest)
    {person : AssignedPerson} (hassigned : assignment.Assigned i person) {given family after : Text}
    (hpair : (given, family) ∈ poolPairs) (hfamily : family ∈ familyNames)
    (hskipped : toAsciiLowercase family ∉ assignment.skippedTokens)
    (hpseudonym : person.pseudonym = Pseudonym.new given (some family))
    (hrender : assignment.render rest = ' ' :: (family ++ after))
    (hafter : after.head?.any (isWordCharacter T) = false) :
  False
  := by
  obtain ⟨hne, hword⟩ := poolWords_alphanum (List.mem_append_right givenNames hfamily)
  obtain ⟨rest', rfl, hrest'⟩ := h.symbol_of_span hpieces hrender
  have hpieces' : cipher.pieces T text =
      (others ++ [.span span (.name i .given), .symbol ' ']) ++ rest' := by
    rw [hpieces]
    simp
  have hstop : after.head?.any Char.isAlphanum = false := by
    rcases after with _ | ⟨c, after⟩
    · rfl
    · by_contra halphanum
      rw [Bool.not_eq_false] at halphanum
      have hc : isWordCharacter T c = false := hafter
      rw [isWordCharacter_of_isAlphanum halphanum] at hc
      cases hc
  rcases rest' with _ | ⟨⟨c⟩ | ⟨span', finding⟩, rest'⟩
  · exact hne (List.append_eq_nil_iff.mp hrest').1
  · -- The family name of the pseudonym would be a word of the text.
    have hbefore : (assignment.render
        (others ++ [.span span (.name i .given), .symbol ' '])).getLast?.any T.isAlphanumeric =
          false := by
      rw [RequestAssignment.render_append, RequestAssignment.render_span,
        RequestAssignment.render_symbol, List.getLast?_append, List.getLast?_append]
      show T.isAlphanumeric ' ' = false
      exact isAlphanumeric_of_ascii (by decide) rfl
    have hnext := h.not_skipped_word hpieces' hrest'.symm hne hword hskipped hbefore
    rw [isAlphanumeric_of_isWordCharacter hafter] at hnext
    cases hnext
  · have hmem : .span span' finding ∈ cipher.pieces T text := by
      rw [hpieces']
      simp
    rw [RequestAssignment.render_span] at hrest'
    rcases finding.isAddress_or with haddress | ⟨j, kind, rfl⟩
    · -- Addresses start with small letters.
      obtain ⟨j, _, rfl, -⟩ := h.forms.address span' finding hmem haddress
      obtain ⟨other, hother⟩ := h.covers span' _ hmem j rfl
      obtain ⟨word, tail, haddress', -, hne', -, hsmall, -⟩ :=
        (h.sound.issued j other hother).address_headWord
      rw [RequestAssignment.replacement, hother, Option.map_some, Option.getD_some, haddress',
        List.append_assoc] at hrest'
      obtain ⟨first, letters, rfl, hcapital, -⟩ :=
        poolWords_capitalized (List.mem_append_right givenNames hfamily)
      rcases word with _ | ⟨c, word⟩
      · exact hne' rfl
      · obtain rfl : first = c := (List.cons.inj hrest').1
        have hlower : first.isUpper = false := hsmall
        rw [hcapital] at hlower
        cases hlower
    · obtain ⟨other, hother⟩ := h.covers span' _ hmem j rfl
      rw [RequestAssignment.replacement, hother, Option.map_some, Option.getD_some] at hrest'
      have hnext := h.not_alphanum_after_name hpieces'
      have hhead := congrArg headWord hrest'
      rw [headWord_append hword hstop] at hhead
      rcases (h.sound.issued j other hother).pool_or with
        ⟨given', family', hpair', hgiven', hfamily', -, -, hpseudonym'⟩ | ⟨number, hpseudonym'⟩
      · rw [hpseudonym'] at hhead
        have hword' := (poolWords_alphanum (List.mem_append_left familyNames hgiven')).2
        have hword'' := (poolWords_alphanum (List.mem_append_right givenNames hfamily')).2
        cases kind with
        | full =>
            rw [show (Pseudonym.new given' (some family')).replacement .full =
              given' ++ ' ' :: family' from rfl, List.append_assoc, headWord_append hword' rfl] at hhead
            exact given_ne_family hgiven' hfamily hhead.symm
        | given =>
            rw [show (Pseudonym.new given' (some family')).replacement .given = given' from rfl,
              headWord_append hword' hnext] at hhead
            exact given_ne_family hgiven' hfamily hhead.symm
        | family =>
            rw [show (Pseudonym.new given' (some family')).replacement .family = family' from rfl,
              headWord_append hword'' hnext] at hhead
            obtain rfl : given = given' := given_eq_of_family_eq hpair hpair' hhead
            obtain rfl : i = j := h.sound.distinct i j person other hassigned hother (by
              rw [hpseudonym, hpseudonym']
              rfl)
            exact h.not_given_then_family hpieces
      · rw [hpseudonym'] at hhead
        rw [numberedReplacement_eq, List.append_assoc, headWord_append (by decide) rfl] at hhead
        have hnot : "Person".toList ∉ familyNames := by decide
        rw [hhead] at hfamily
        exact hnot hfamily

end Desktop
