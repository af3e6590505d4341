import OpenLoops.Desktop.NameEncoding

/-!
# Encoding of requests

The texts of a request are encoded one after the other, with one assignment of pseudonyms.
-/

namespace Desktop

/-! ### Texts of a request -/

section Texts

variable {σ : Type} (f : TextMap σ)

theorem mapAccum_cons {α β : Type} (g : α → σ → β × σ) (a : α) (l : List α) (s : σ) :
  mapAccum g (a :: l) s =
    ((g a s).1 :: (mapAccum g l (g a s).2).1, (mapAccum g l (g a s).2).2)
  := rfl

theorem mapAccum_append {α β : Type} (g : α → σ → β × σ) (l l' : List α) (s : σ) :
  mapAccum g (l ++ l') s = ((mapAccum g l s).1 ++ (mapAccum g l' (mapAccum g l s).2).1,
    (mapAccum g l' (mapAccum g l s).2).2)
  := by
  induction l generalizing s with
  | nil => rfl
  | cons a l ih =>
      rw [List.cons_append, mapAccum_cons, ih]
      rfl

mutual

/-- The texts of a document are changed one after the other. -/
theorem mapAccum_collectStateTexts : ∀ (d : Json) (s : σ),
  mapAccum f (collectStateTexts d) s =
    (collectStateTexts (mapValueStrings f d s).1, (mapValueStrings f d s).2)
  | .string text, s => by
      rw [collectStateTexts, mapValueStrings, mapAccum]
      rfl
  | .array elements, s => by
      rw [collectStateTexts, mapValueStrings, mapAccum_collectElementTexts elements s]
      rfl
  | .object members, s => by
      rw [collectStateTexts, mapValueStrings, mapAccum_collectMemberTexts members s]
      rfl
  | .null, s => rfl
  | .bool _, s => rfl
  | .number _, s => rfl

/-- `mapAccum_collectStateTexts` for the elements of an array. -/
theorem mapAccum_collectElementTexts : ∀ (elements : List Json) (s : σ),
  mapAccum f (collectElementTexts elements) s =
    (collectElementTexts (mapElementStrings f elements s).1, (mapElementStrings f elements s).2)
  | [], s => rfl
  | d :: elements, s => by
      rw [collectElementTexts, mapElementStrings, mapAccum_append,
        mapAccum_collectStateTexts d s, mapAccum_collectElementTexts elements]
      rfl

/-- `mapAccum_collectStateTexts` for the members of an object. -/
theorem mapAccum_collectMemberTexts : ∀ (members : List (String × Json)) (s : σ),
  mapAccum f (collectMemberTexts members) s =
    (collectMemberTexts (mapMemberStrings f members s).1, (mapMemberStrings f members s).2)
  | [], s => rfl
  | (name, d) :: members, s => by
      rw [collectMemberTexts, mapMemberStrings, mapAccum_append,
        mapAccum_collectStateTexts d s, mapAccum_collectMemberTexts members]
      rfl

end

theorem mapAccum_descriptions (question : Question) (s : σ) :
  mapAccum f question.descriptions s =
    ((question.mapDescriptions f s).1.descriptions, (question.mapDescriptions f s).2)
  := by
  cases question with
  | noul instructions => rfl
  | score instructions levels => rfl
  | choice instructions options =>
      rw [Question.descriptions]
      have hoptions : ∀ s : σ, mapAccum f (options.map Prod.snd) s =
          ((mapAccum (fun (option : String × String) s =>
            ((option.1, (f option.2 s).1), (f option.2 s).2)) options s).1.map Prod.snd,
            (mapAccum (fun (option : String × String) s =>
              ((option.1, (f option.2 s).1), (f option.2 s).2)) options s).2) := by
        induction options with
        | nil => exact fun s => rfl
        | cons option options ih =>
            intro s
            rw [List.map_cons, mapAccum_cons, mapAccum_cons, ih]
            rfl
      rw [hoptions]
      rfl

theorem mapAccum_questions (questions : Questions) (s : σ) :
  mapAccum f (questions.flatMap fun item => item.2.descriptions) s =
    ((questions.mapChoiceDescriptions f s).1.flatMap fun item => item.2.descriptions,
      (questions.mapChoiceDescriptions f s).2)
  := by
  rw [Questions.mapChoiceDescriptions]
  induction questions generalizing s with
  | nil => rfl
  | cons item questions ih =>
      rw [List.flatMap_cons, mapAccum_append, mapAccum_descriptions, ih, mapAccum_cons]
      rfl

end Texts

variable {T : CharTable}

/-- The assignment with which a request starts. -/
def startAssignment (T : CharTable) (state : Json) (questions : Questions) : RequestAssignment :=
  ⟨[], requestNameTokens T (requestTexts state questions), 0, 25⟩

/-- The texts of a request are encoded one after the other. -/
theorem encodeRequest_texts (cipher : NameCipher) (state : Json) (questions : Questions) :
  mapAccum (cipher.encodeString T) (requestTexts state questions)
      (startAssignment T state questions) =
    (requestTexts (cipher.encodeRequest T state questions).state
      (cipher.encodeRequest T state questions).questions,
      (cipher.encodeRequest T state questions).assignment)
  := by
  rw [requestTexts, mapAccum_append, mapAccum_collectStateTexts, mapAccum_questions]
  rfl

/-- The output is that of the text with these pseudonyms. -/
structure EncodedAs (T : CharTable) (cipher : NameCipher) (assignment : RequestAssignment)
    (text output : String) : Prop where
  covers : ∀ span finding, .span span finding ∈ cipher.pieces T text.toList →
    assignment.Covers finding
  output : output.toList = Piece.render assignment.replacement (cipher.pieces T text.toList)

theorem Encoded.encodedAs {cipher : NameCipher} {assignment assignment' : RequestAssignment}
    {text : String} {output : Text}
    (h : Encoded assignment assignment' (cipher.pieces T text.toList) output)
    {assignment'' : RequestAssignment} (hextends : assignment'.Extends assignment'') :
  EncodedAs T cipher assignment'' text (String.ofList output)
  := by
  constructor
  · exact fun span finding hmem => (h.covers span finding hmem).mono hextends
  · rw [String.toList_ofList]
    exact h.render_eq hextends

/-- All texts are encoded with the pseudonyms that there are in the end. -/
theorem mapAccum_encodeString {cipher : NameCipher} (hformed : cipher.Formed)
    (hindexed : cipher.Indexed) (texts : List String) (assignment : RequestAssignment) :
  assignment.Extends (mapAccum (cipher.encodeString T) texts assignment).2
    ∧ List.Forall₂ (EncodedAs T cipher (mapAccum (cipher.encodeString T) texts assignment).2) texts
      (mapAccum (cipher.encodeString T) texts assignment).1
  := by
  induction texts generalizing assignment with
  | nil => exact ⟨.refl _, .nil⟩
  | cons text texts ih =>
      have hfirst := encodeText_encoded (T := T) hformed hindexed text.toList assignment
      obtain ⟨hextends, hrest⟩ := ih (encodeText T cipher text.toList assignment).2
      use hfirst.extends_.trans hextends
      exact .cons (hfirst.encodedAs hextends) hrest

/-- The texts of a request are encoded with its pseudonyms. -/
theorem encodeRequest_encodedAs (T : CharTable) {cipher : NameCipher} (hformed : cipher.Formed)
    (hindexed : cipher.Indexed) (state : Json) (questions : Questions) :
  List.Forall₂ (EncodedAs T cipher (cipher.encodeRequest T state questions).assignment)
    (requestTexts state questions)
    (requestTexts (cipher.encodeRequest T state questions).state
      (cipher.encodeRequest T state questions).questions)
  := by
  have h := (mapAccum_encodeString (T := T) hformed hindexed (requestTexts state questions)
    (startAssignment T state questions)).2
  rwa [encodeRequest_texts] at h

/-- An output is that of one of the texts. -/
theorem exists_text_of_mem {cipher : NameCipher} {assignment : RequestAssignment}
    {texts outputs : List String} (h : List.Forall₂ (EncodedAs T cipher assignment) texts outputs)
    {output : String} (hmem : output ∈ outputs) :
  ∃ text ∈ texts, EncodedAs T cipher assignment text output
  := by
  induction h with
  | nil => cases hmem
  | cons hencoded hrest ih =>
      rcases List.mem_cons.mp hmem with rfl | hmem
      · exact ⟨_, List.mem_cons_self, hencoded⟩
      · obtain ⟨text, htext, htexts⟩ := ih hmem
        exact ⟨text, List.mem_cons_of_mem _ htext, htexts⟩

end Desktop
