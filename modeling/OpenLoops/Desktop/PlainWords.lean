import OpenLoops.Desktop.InventedWords

/-!
# Plain words of an encoded text

A word of the output that starts with a plain character is plain, and then it is a word of the
text and no word of the pool.  So no pseudonym stands in the output where nothing was replaced.
-/

namespace Desktop

variable {T : CharTable} {cipher : NameCipher} {assignment : RequestAssignment} {text : Text}

/-- What stands in place of the pieces. -/
abbrev RequestAssignment.render (assignment : RequestAssignment)
    (pieces : List (Piece Char Finding)) : Text :=
  Piece.render assignment.replacement pieces

namespace RequestAssignment

theorem render_symbol (c : Char) (pieces : List (Piece Char Finding)) :
  assignment.render (.symbol c :: pieces) = c :: assignment.render pieces
  := rfl

theorem render_span (span : Text) (finding : Finding) (pieces : List (Piece Char Finding)) :
  assignment.render (.span span finding :: pieces) =
    assignment.replacement finding ++ assignment.render pieces
  := rfl

theorem render_append (pieces pieces' : List (Piece Char Finding)) :
  assignment.render (pieces ++ pieces') = assignment.render pieces ++ assignment.render pieces'
  := Piece.render_append _ pieces pieces'

end RequestAssignment

/-! ### Plain words -/

/-- Letters and digits after a plain one are plain. -/
theorem symbols_of_alphanum (hindexed : cipher.Indexed) {others rest : List (Piece Char Finding)}
    {c : Char} (hpieces : cipher.pieces T text = others ++ .symbol c :: rest) {word after : Text}
    (hrender : assignment.render (.symbol c :: rest) = word ++ after) (hne : word ≠ [])
    (hword : ∀ c ∈ word, c.isAlphanum = true) :
  ∃ rest', .symbol c :: rest = word.map .symbol ++ rest' ∧ after = assignment.render rest'
  := by
  induction word generalizing others c rest with
  | nil => exact absurd rfl hne
  | cons c' word ih =>
      rw [List.cons_append, RequestAssignment.render, Piece.render_symbol] at hrender
      obtain ⟨rfl, hrest⟩ := List.cons.inj hrender
      have hc := hword c List.mem_cons_self
      rcases word with _ | ⟨c', word⟩
      · exact ⟨rest, rfl, hrest.symm⟩
      · rcases rest with _ | ⟨⟨d⟩ | ⟨span, finding⟩, rest⟩
        · cases hrest
        · have hpieces' := hpieces
          rw [List.append_cons] at hpieces'
          obtain ⟨rest', heq, hafter⟩ := ih hpieces' hrest (List.cons_ne_nil _ _)
            fun c hc => hword c (List.mem_cons_of_mem _ hc)
          exact ⟨rest', by rw [heq]; rfl, hafter⟩
        · exact absurd hpieces (not_span_after_alphanum hindexed hc)

/-- What is before a plain letter or digit ends in the output as in the text. -/
theorem getLast_render_of_alphanum (hindexed : cipher.Indexed)
    {others rest : List (Piece Char Finding)} {c : Char} (hc : c.isAlphanum = true)
    (hpieces : cipher.pieces T text = others ++ .symbol c :: rest) :
  (assignment.render others).getLast? = (others.flatMap Piece.source).getLast?
  := by
  rcases others.eq_nil_or_concat with rfl | ⟨others, ⟨d⟩ | ⟨span, finding⟩, rfl⟩
  · rfl
  · rw [List.concat_eq_append, RequestAssignment.render, Piece.render_append, List.flatMap_append]
    simp [Piece.source]
  · rw [List.concat_eq_append, List.append_assoc] at hpieces
    exact absurd hpieces (not_alphanum_after_span hindexed hc)

/-- What is after a plain letter or digit starts in the output as in the text. -/
theorem head_render_of_alphanum (hindexed : cipher.Indexed)
    {others rest : List (Piece Char Finding)} {c : Char} (hc : c.isAlphanum = true)
    (hpieces : cipher.pieces T text = others ++ .symbol c :: rest) :
  (assignment.render rest).head? = (rest.flatMap Piece.source).head?
  := by
  rcases rest with _ | ⟨⟨d⟩ | ⟨span, finding⟩, rest⟩
  · rfl
  · rfl
  · exact absurd hpieces (not_span_after_alphanum hindexed hc)

/-- The ends of a plain word: the output around it is as the text there. -/
theorem word_bounds (assignment : RequestAssignment) (hindexed : cipher.Indexed) {others rest : List (Piece Char Finding)}
    {word : Text} (hpieces : cipher.pieces T text = others ++ (word.map .symbol ++ rest))
    (hne : word ≠ []) (hword : ∀ c ∈ word, c.isAlphanum = true) :
  (assignment.render others).getLast? = (others.flatMap Piece.source).getLast?
    ∧ (assignment.render rest).head? = (rest.flatMap Piece.source).head?
  := by
  constructor
  · rcases word with _ | ⟨c, word⟩
    · exact absurd rfl hne
    · exact getLast_render_of_alphanum hindexed (hword c List.mem_cons_self) hpieces
  · rcases word.eq_nil_or_concat with rfl | ⟨word, c, rfl⟩
    · exact absurd rfl hne
    · have hlast : cipher.pieces T text = (others ++ word.map .symbol) ++ .symbol c :: rest := by
        rw [hpieces]
        simp
      exact head_render_of_alphanum hindexed (hword c (by simp)) hlast

theorem source_map_symbol (word : Text) :
  (word.map Piece.symbol : List (Piece Char Finding)).flatMap Piece.source = word
  := by
  induction word with
  | nil => rfl
  | cons c word ih => rw [List.map_cons, List.flatMap_cons, ih]; rfl

/-- A plain word between other characters is one of the words of the request. -/
theorem Setting.token_mem (h : Setting T cipher assignment text)
    {others rest : List (Piece Char Finding)} {word : Text}
    (hpieces : cipher.pieces T text = others ++ (word.map .symbol ++ rest)) (hne : word ≠ [])
    (hword : ∀ c ∈ word, c.isAlphanum = true)
    (hbefore : (assignment.render others).getLast?.any T.isAlphanumeric = false)
    (hafter : (assignment.render rest).head?.any T.isAlphanumeric = false) :
  toAsciiLowercase word ∈ assignment.skippedTokens
  := by
  obtain ⟨hlast, hhead⟩ := word_bounds assignment h.indexed hpieces hne hword
  rw [hlast] at hbefore
  rw [hhead] at hafter
  have hnot : ∀ o : Option Char, o.any T.isAlphanumeric = false →
      o.all (fun c => !T.isAlphanumeric c) = true := by
    intro o ho
    cases o with
    | none => rfl
    | some c =>
        rw [Option.any_some] at ho
        rw [Option.all_some, ho]
        rfl
  apply h.tokens word _ hne
  have hsource := (NameCipher.scanned_pieces (T := T) h.indexed text).source
  rw [hpieces, List.flatMap_append, List.flatMap_append, source_map_symbol, ← List.append_assoc]
    at hsource
  rw [← hsource]
  apply mem_splitOnP _ (hnot _ hbefore) (hnot _ hafter)
  intro c hc
  rw [T.isAlphanumeric_ascii (toNat_lt_of_isAlphanum (hword c hc)), hword c hc]
  rfl

/-- No letter or digit of the output stands right after a name. -/
theorem Setting.not_alphanum_after_name (h : Setting T cipher assignment text)
    {others rest : List (Piece Char Finding)} {span : Text} {i : ℕ} {kind : MatchKind}
    (hpieces : cipher.pieces T text = others ++ .span span (.name i kind) :: rest) :
  (assignment.render rest).head?.any Char.isAlphanum = false
  := by
  have hafter := (name_bounds h.indexed hpieces).2
  rcases rest with _ | ⟨⟨d⟩ | ⟨span', finding'⟩, rest⟩
  · rfl
  · by_contra halphanum
    rw [Bool.not_eq_false] at halphanum
    have hword : isWordCharacter T d = false := hafter
    rw [isWordCharacter_of_isAlphanum halphanum] at hword
    cases hword
  · exact absurd hpieces (h.restorable.apart _ _ _ _ _ _ _)

/-- What stands in place of something starts with an invented word. -/
theorem Setting.invented_of_span (h : Setting T cipher assignment text)
    {others rest : List (Piece Char Finding)} {span : Text} {finding : Finding}
    (hpieces : cipher.pieces T text = others ++ .span span finding :: rest) :
  Invented (headWord (assignment.render (.span span finding :: rest)))
  := by
  have hmem : .span span finding ∈ cipher.pieces T text := by
    rw [hpieces]
    simp
  rw [RequestAssignment.render, Piece.render_span]
  rcases finding.isAddress_or with haddress | ⟨i, kind, rfl⟩
  · obtain ⟨i, person, rfl, -⟩ := h.forms.address span finding hmem haddress
    obtain ⟨assigned, hassigned⟩ := h.covers span _ hmem i rfl
    obtain ⟨word, _, haddress, hinvented, -, hword, -, c, tail, rfl, hc⟩ :=
      (h.sound.issued i assigned hassigned).address_headWord
    rw [RequestAssignment.replacement, hassigned, Option.map_some, Option.getD_some, haddress,
      List.append_assoc, headWord_append hword]
    · exact hinvented
    · exact hc
  · obtain ⟨assigned, hassigned⟩ := h.covers span _ hmem i rfl
    obtain ⟨word, tail, hreplaced, hinvented, -, hword, -, htail⟩ :=
      (h.sound.issued i assigned hassigned).replacement_headWord kind
    rw [RequestAssignment.replacement, hassigned, Option.map_some, Option.getD_some, hreplaced,
      List.append_assoc, headWord_append hword]
    · exact hinvented
    · rcases htail with rfl | ⟨tail, rfl⟩
      · exact h.not_alphanum_after_name hpieces
      · rfl

/-- Words that are not invented are plain. -/
theorem Setting.plain_word (h : Setting T cipher assignment text)
    {others rest : List (Piece Char Finding)}
    (hpieces : cipher.pieces T text = others ++ rest) {word after : Text}
    (hrender : assignment.render rest = word ++ after) (hne : word ≠ [])
    (hword : ∀ c ∈ word, c.isAlphanum = true) (hafter : after.head?.any Char.isAlphanum = false)
    (hreal : ¬ Invented word) :
  ∃ rest', rest = word.map .symbol ++ rest' ∧ after = assignment.render rest'
  := by
  rcases rest with _ | ⟨⟨c⟩ | ⟨span, finding⟩, rest⟩
  · have hnil := congrArg List.length hrender
    rw [List.length_append] at hnil
    have hpos := List.length_pos_of_ne_nil hne
    simp at hnil
    omega
  · exact symbols_of_alphanum h.indexed hpieces hrender hne hword
  · have hinvented := h.invented_of_span hpieces
    rw [hrender, headWord_append hword hafter] at hinvented
    exact absurd hinvented hreal

/-- A plain character after a letter or digit. -/
theorem symbol_of_alphanum (hindexed : cipher.Indexed) {others rest : List (Piece Char Finding)}
    {word : Text} (hpieces : cipher.pieces T text = others ++ (word.map .symbol ++ rest))
    (hne : word ≠ []) (hword : ∀ c ∈ word, c.isAlphanum = true) {c : Char} {after : Text}
    (hrender : assignment.render rest = c :: after) :
  ∃ rest', rest = .symbol c :: rest' ∧ after = assignment.render rest'
  := by
  rcases rest with _ | ⟨⟨d⟩ | ⟨span, finding⟩, rest⟩
  · cases hrender
  · rw [RequestAssignment.render, Piece.render_symbol] at hrender
    obtain ⟨rfl, hrest⟩ := List.cons.inj hrender
    exact ⟨rest, rfl, hrest.symm⟩
  · rcases word.eq_nil_or_concat with rfl | ⟨word, d, rfl⟩
    · exact absurd rfl hne
    · have hlast : cipher.pieces T text =
          (others ++ word.map .symbol) ++ .symbol d :: .span span finding :: rest := by
        rw [hpieces]
        simp
      exact absurd hlast (not_span_after_alphanum hindexed (hword d (by simp)))

/-- The domain of the pseudonyms is plain after the sign. -/
theorem Setting.plain_domain (h : Setting T cipher assignment text)
    {others rest : List (Piece Char Finding)}
    (hpieces : cipher.pieces T text = others ++ rest) {domain after : Text}
    (hrender : assignment.render rest = domain ++ after)
    (hdomain : toAsciiLowercase domain = pseudonymDomain)
    (hafter : after.head?.any Char.isAlphanum = false) :
  ∃ rest', rest = domain.map .symbol ++ rest' ∧ after = assignment.render rest'
  := by
  have hsplit : toAsciiLowercase domain = "example".toList ++ '.' :: "invalid".toList := by
    rw [hdomain]
    rfl
  obtain ⟨first, tail, rfl, hfirst, htail⟩ := List.map_eq_append_iff.mp hsplit
  obtain ⟨dot, last, rfl, hdot, hlast⟩ := List.map_eq_cons_iff.mp htail
  obtain rfl : dot = '.' := eq_of_toLower_eq rfl hdot
  have hword : ∀ c ∈ first, c.isAlphanum = true :=
    forall_of_toAsciiLowercase_eq isAlphanum_of_isAlpha
      (show toAsciiLowercase first = toAsciiLowercase "example".toList from hfirst) (by decide)
  have hword' : ∀ c ∈ last, c.isAlphanum = true :=
    forall_of_toAsciiLowercase_eq isAlphanum_of_isAlpha
      (show toAsciiLowercase last = toAsciiLowercase "invalid".toList from hlast) (by decide)
  have hreal : ¬ Invented first := by
    rw [Invented, toAsciiLowercase, hfirst]
    decide
  have hreal' : ¬ Invented last := by
    rw [Invented, toAsciiLowercase, hlast]
    decide
  have hne : first ≠ [] := by
    rintro rfl
    cases hfirst
  have hne' : last ≠ [] := by
    rintro rfl
    cases hlast
  rw [List.append_assoc, List.cons_append] at hrender
  obtain ⟨rest', rfl, hrest'⟩ := h.plain_word hpieces hrender hne hword rfl hreal
  obtain ⟨rest'', rfl, hrest''⟩ := symbol_of_alphanum h.indexed hpieces hne hword hrest'.symm
  have hpieces' : cipher.pieces T text = (others ++ (first.map .symbol ++ [.symbol '.'])) ++ rest'' := by
    rw [hpieces]
    simp
  obtain ⟨outer, rfl, houter⟩ := h.plain_word hpieces' hrest''.symm hne' hword' hafter hreal'
  exact ⟨outer, by simp, houter⟩

/-! ### No pseudonym in plain text -/

theorem isAlphanumeric_of_ascii {c : Char} (h : c.toNat < 128) (hc : c.isAlphanum = false) :
  T.isAlphanumeric c = false
  := by
  rw [T.isAlphanumeric_ascii h, hc]

/-- A word that the request has does not stand where it is skipped. -/
theorem Setting.not_skipped_word (h : Setting T cipher assignment text)
    {others rest : List (Piece Char Finding)} {c : Char}
    (hpieces : cipher.pieces T text = others ++ .symbol c :: rest) {word after : Text}
    (hrender : assignment.render (.symbol c :: rest) = word ++ after) (hne : word ≠ [])
    (hword : ∀ c ∈ word, c.isAlphanum = true)
    (hskipped : toAsciiLowercase word ∉ assignment.skippedTokens)
    (hbefore : (assignment.render others).getLast?.any T.isAlphanumeric = false) :
  after.head?.any T.isAlphanumeric = true
  := by
  by_contra hafter
  rw [Bool.not_eq_true] at hafter
  obtain ⟨rest', heq, rfl⟩ := symbols_of_alphanum h.indexed hpieces hrender hne hword
  rw [heq] at hpieces
  exact hskipped (h.token_mem hpieces hne hword hbefore hafter)

/-- The end of the address of a pseudonym does not stand after a plain dot. -/
theorem Setting.not_family_before_sign (h : Setting T cipher assignment text)
    {others rest : List (Piece Char Finding)}
    (hpieces : cipher.pieces T text = others ++ .symbol '.' :: rest)
    {last domain after : Text} (hne : last ≠ []) (hlast : ∀ c ∈ last, c.isAlphanum = true)
    (hskipped : toAsciiLowercase last ∉ assignment.skippedTokens)
    (hrender : assignment.render rest = last ++ '@' :: (domain ++ after))
    (hdomain : toAsciiLowercase domain = pseudonymDomain)
    (hafter : after.head?.any Char.isAlphanum = false) :
  False
  := by
  have hpieces' := hpieces
  rw [List.append_cons] at hpieces'
  rcases rest with _ | ⟨⟨c⟩ | ⟨span, finding⟩, rest⟩
  · have hnil := congrArg List.length hrender
    simp [RequestAssignment.render] at hnil
  · -- A plain word, between a dot and the sign.
    have hbefore : (assignment.render (others ++ [.symbol '.'])).getLast?.any T.isAlphanumeric =
        false := by
      rw [RequestAssignment.render_append, RequestAssignment.render_symbol, List.getLast?_append]
      show T.isAlphanumeric '.' = false
      exact isAlphanumeric_of_ascii (by decide) rfl
    have hsign := h.not_skipped_word hpieces' hrender hne hlast hskipped hbefore
    have hnot : T.isAlphanumeric '@' = false := isAlphanumeric_of_ascii (by decide) rfl
    rw [List.head?_cons, Option.any_some, hnot] at hsign
    cases hsign
  · rcases finding.isAddress_or with haddress | ⟨i, kind, rfl⟩
    · -- No address is found right after a dot.
      have hbefore := (address_bounds h.indexed hpieces' haddress).1
      rw [List.flatMap_append, List.getLast?_append] at hbefore
      cases hbefore
    · have hmem : .span span (.name i kind) ∈ cipher.pieces T text := by
        rw [hpieces]
        simp
      obtain ⟨assigned, hassigned⟩ := h.covers span _ hmem i rfl
      obtain ⟨word, tail, hreplaced, -, -, hword, -, htail⟩ :=
        (h.sound.issued i assigned hassigned).replacement_headWord kind
      rw [RequestAssignment.render_span, RequestAssignment.replacement, hassigned,
        Option.map_some, Option.getD_some, hreplaced, List.append_assoc] at hrender
      have hhead := congrArg headWord hrender
      rw [headWord_append hlast rfl] at hhead
      rcases htail with rfl | ⟨tail, rfl⟩
      · -- The name is the whole word, and the sign stands right after it.
        rw [List.nil_append] at hrender hhead
        have hnext := h.not_alphanum_after_name hpieces'
        rw [headWord_append hword hnext] at hhead
        rw [hhead] at hrender
        have hsign := List.append_cancel_left hrender
        rcases rest with _ | ⟨⟨d⟩ | ⟨span', finding'⟩, rest⟩
        · cases hsign
        · rw [RequestAssignment.render_symbol] at hsign
          obtain ⟨rfl, hrest⟩ := List.cons.inj hsign
          have hpieces'' : cipher.pieces T text = (others ++ [.symbol '.'] ++
              [.span span (.name i kind), .symbol '@']) ++ rest := by
            rw [hpieces']
            simp
          obtain ⟨rest', rfl, -⟩ := h.plain_domain hpieces'' hrest hdomain hafter
          apply h.restorable.unsigned _ _ _ _ _ hpieces'
          rw [List.flatMap_append, source_map_symbol, toAsciiLowercase, List.map_append,
            ← toAsciiLowercase, hdomain]
          apply List.prefix_append
        · exact absurd hpieces' (h.restorable.apart _ _ _ _ _ _ _)
      · rw [List.cons_append, headWord_append hword rfl] at hhead
        rw [hhead] at hrender
        have hspace := List.append_cancel_left hrender
        cases hspace

end Desktop
