import OpenLoops.Inference.WalkerRuns

/-!
# Hidden markup

Comments, declarations, attributes and the content of dropped elements are hidden: hypertexts that
differ in nothing else are walked in step, and have the same blocks.  No block that is emitted is
empty or has a forbidden scalar, a carriage return or a tab.
-/

namespace Inference

/-! ### Hypertexts that look the same -/

/-- What stands in a tag after its name: it starts with white space, or with the slash of a tag that
closes itself, and its quotes are balanced. -/
structure IsAttributePart (part : List Char) : Prop where
  balanced : IsAttributes part
  starts : part.head?.all endsTagName = true

/-- A name that a tag may have. -/
structure IsTagName (name : List Char) : Prop where
  starts : name.head?.any isTagNameStart = true
  chars : ∀ c ∈ name, isTagNameChar c = true

/-- The element with a written name. -/
def elementName (name : List Char) : String :=
  String.ofList (toAsciiLowercase name)

/-- The content of a comment. -/
def IsComment (content : List Char) : Prop :=
  ¬ ['-', '-', '>'] <:+: content

/-- The character after a `<` starts a tag, a comment or a declaration. -/
def startsConstruct (c : Char) : Bool :=
  c = '!' || c = '?' || c = '/' || isTagNameStart c

/-- The hypertexts differ at most in what is hidden: comments, declarations, instructions and end
tags without a name, attributes, and the content of dropped elements. -/
inductive SameVisible : List Char → List Char → Prop
  | refl (text : List Char) : SameVisible text text
  | text {c : Char} {text text' : List Char} (hc : c ≠ '<') (h : SameVisible text text') :
      SameVisible (c :: text) (c :: text')
  | literal {text text' : List Char} (hc : text.head?.any startsConstruct = false)
      (h : SameVisible text text') : SameVisible ('<' :: text) ('<' :: text')
  | comment {content content' text text' : List Char} (hcontent : IsComment content)
      (hcontent' : IsComment content') (h : SameVisible text text') :
      SameVisible ('<' :: '!' :: '-' :: '-' :: (content ++ '-' :: '-' :: '>' :: text))
        ('<' :: '!' :: '-' :: '-' :: (content' ++ '-' :: '-' :: '>' :: text'))
  | lastComment {content content' : List Char} (hcontent : IsComment content)
      (hcontent' : IsComment content') :
      SameVisible ('<' :: '!' :: '-' :: '-' :: content) ('<' :: '!' :: '-' :: '-' :: content')
  | declaration {part part' text text' : List Char} (hpart : IsAttributes part)
      (hpart' : IsAttributes part') (hc : ¬ ['-', '-'] <+: part) (hc' : ¬ ['-', '-'] <+: part')
      (h : SameVisible text text') :
      SameVisible ('<' :: '!' :: (part ++ '>' :: text)) ('<' :: '!' :: (part' ++ '>' :: text'))
  | instruction {part part' text text' : List Char} (hpart : IsAttributes part)
      (hpart' : IsAttributes part') (h : SameVisible text text') :
      SameVisible ('<' :: '?' :: (part ++ '>' :: text)) ('<' :: '?' :: (part' ++ '>' :: text'))
  | namelessEndTag {part part' text text' : List Char} (hpart : IsAttributes part)
      (hpart' : IsAttributes part') (hc : part.head?.any isTagNameStart = false)
      (hc' : part'.head?.any isTagNameStart = false) (h : SameVisible text text') :
      SameVisible ('<' :: '/' :: (part ++ '>' :: text)) ('<' :: '/' :: (part' ++ '>' :: text'))
  | endTag {name part part' text text' : List Char} (hname : IsTagName name)
      (hpart : IsAttributePart part) (hpart' : IsAttributePart part')
      (h : SameVisible text text') :
      SameVisible ('<' :: '/' :: (name ++ (part ++ '>' :: text)))
        ('<' :: '/' :: (name ++ (part' ++ '>' :: text')))
  | startTag {name part part' text text' : List Char} (hname : IsTagName name)
      (hdropped : isDropped (elementName name) = false)
      (hpart : IsAttributePart part) (hpart' : IsAttributePart part')
      (h : SameVisible text text') :
      SameVisible ('<' :: (name ++ (part ++ '>' :: text)))
        ('<' :: (name ++ (part' ++ '>' :: text')))
  | dropped {name endName part part' content content' endPart endPart' text text' : List Char}
      (hname : IsTagName name) (hendName : elementName endName = elementName name)
      (hdropped : isDropped (elementName name) = true)
      (hpart : IsAttributePart part) (hpart' : IsAttributePart part')
      (hcontent : ¬ HasEndTag name content) (hcontent' : ¬ HasEndTag name content')
      (hendPart : IsAttributePart endPart) (hendPart' : IsAttributePart endPart')
      (h : SameVisible text text') :
      SameVisible
        ('<' :: (name ++ (part ++ '>' :: (content ++ '<' :: '/' :: (endName
          ++ (endPart ++ '>' :: text))))))
        ('<' :: (name ++ (part' ++ '>' :: (content' ++ '<' :: '/' :: (endName
          ++ (endPart' ++ '>' :: text'))))))
  | lastDropped {name part part' content content' : List Char}
      (hname : IsTagName name) (hdropped : isDropped (elementName name) = true)
      (hpart : IsAttributePart part) (hpart' : IsAttributePart part')
      (hcontent : ¬ HasEndTag name content) (hcontent' : ¬ HasEndTag name content') :
      SameVisible ('<' :: (name ++ (part ++ '>' :: content)))
        ('<' :: (name ++ (part' ++ '>' :: content')))

/-- The characters of a text come before hypertexts that look the same. -/
theorem SameVisible.append {run text text' : List Char} (hrun : ∀ c ∈ run, c ≠ '<')
    (h : SameVisible text text') :
  SameVisible (run ++ text) (run ++ text')
  := by
  induction run with
  | nil => exact h
  | cons c run ih =>
      apply SameVisible.text (hrun c List.mem_cons_self)
      apply ih
      exact fun d hd => hrun d (List.mem_cons_of_mem c hd)

/-- Hypertexts that look the same have the same text before the first construct. -/
theorem SameVisible.exists_run {text text' : List Char} (h : SameVisible text text') :
  ∃ run rest rest', text = run ++ rest ∧ text' = run ++ rest' ∧ (∀ c ∈ run, c ≠ '<')
    ∧ StopsText rest ∧ StopsText rest' ∧ SameVisible rest rest'
  := by
  have hconstruct : ∀ rest rest' : List Char, SameVisible ('<' :: rest) ('<' :: rest') →
      ∃ run others others', '<' :: rest = run ++ others ∧ '<' :: rest' = run ++ others'
        ∧ (∀ c ∈ run, c ≠ '<') ∧ StopsText others ∧ StopsText others'
        ∧ SameVisible others others' := by
    intro rest rest' hsame
    refine ⟨[], '<' :: rest, '<' :: rest', rfl, rfl, nofun, ?_, ?_, hsame⟩
    · rintro c ⟨⟩
      rfl
    · rintro c ⟨⟩
      rfl
  induction h with
  | refl text =>
      have hstop : StopsText (text.dropWhile (· ≠ '<')) := by
        intro c hc
        have hhead := List.head?_dropWhile_not (· ≠ '<') text
        rw [hc] at hhead
        simpa using hhead
      refine ⟨text.takeWhile (· ≠ '<'), text.dropWhile (· ≠ '<'), text.dropWhile (· ≠ '<'), ?_, ?_,
        ?_, hstop, hstop, .refl _⟩
      · exact List.takeWhile_append_dropWhile.symm
      · exact List.takeWhile_append_dropWhile.symm
      · intro c hc
        simpa using List.mem_takeWhile_imp hc
  | @text c _ _ hc h ih =>
      obtain ⟨run, rest, rest', rfl, rfl, hrun, hrest⟩ := ih
      exact ⟨c :: run, rest, rest', rfl, rfl, List.forall_mem_cons.mpr ⟨hc, hrun⟩, hrest⟩
  | literal hc h => exact hconstruct _ _ (.literal hc h)
  | comment hcontent hcontent' h => exact hconstruct _ _ (.comment hcontent hcontent' h)
  | lastComment hcontent hcontent' => exact hconstruct _ _ (.lastComment hcontent hcontent')
  | declaration hpart hpart' hc hc' h => exact hconstruct _ _ (.declaration hpart hpart' hc hc' h)
  | instruction hpart hpart' h => exact hconstruct _ _ (.instruction hpart hpart' h)
  | namelessEndTag hpart hpart' hc hc' h =>
      exact hconstruct _ _ (.namelessEndTag hpart hpart' hc hc' h)
  | endTag hname hpart hpart' h => exact hconstruct _ _ (.endTag hname hpart hpart' h)
  | startTag hname hdropped hpart hpart' h =>
      exact hconstruct _ _ (.startTag hname hdropped hpart hpart' h)
  | dropped hname hendName hdropped hpart hpart' hcontent hcontent' hendPart hendPart' h =>
      exact hconstruct _ _ (.dropped hname hendName hdropped hpart hpart' hcontent hcontent' hendPart
        hendPart' h)
  | lastDropped hname hdropped hpart hpart' hcontent hcontent' =>
      exact hconstruct _ _ (.lastDropped hname hdropped hpart hpart' hcontent hcontent')

/-! ### Tags that look the same -/

section

variable {name part : List Char}

theorem not_isTagNameChar_of_endsTagName {c : Char} (h : endsTagName c = true) :
  isTagNameChar c = false
  := by
  rw [endsTagName, Bool.or_eq_true, Bool.or_eq_true, decide_eq_true_iff, decide_eq_true_iff] at h
  rcases h with (hspace | rfl) | rfl
  · rw [← Bool.not_eq_true, isTagNameChar, Bool.or_eq_true, Bool.or_eq_true, decide_eq_true_iff,
      decide_eq_true_iff]
    rintro ((halphanum | rfl) | rfl)
    · rw [isWhitespace_of_isAlphanum halphanum] at hspace
      cases hspace
    · cases hspace
    · cases hspace
  · rfl
  · rfl

/-- A tag is told by its name, and ends where its attributes do. -/
theorem tag_append (hname : IsTagName name) (hpart : IsAttributePart part) (text : List Char) :
  tagName (name ++ (part ++ '>' :: text)) = elementName name
    ∧ tagRest (name ++ (part ++ '>' :: text)) = text
  := by
  have hstop : (part ++ '>' :: text).head?.any isTagNameChar = false := by
    cases part with
    | nil => rfl
    | cons c part => exact not_isTagNameChar_of_endsTagName hpart.starts
  rw [tagName, tagRest, takeWhile_append_eq hname.chars hstop,
    dropWhile_append_eq hname.chars hstop, hpart.balanced.skipToTagEnd_eq]
  exact ⟨rfl, rfl⟩

theorem handleEndTag_append (hname : IsTagName name) (hpart : IsAttributePart part)
    (text : List Char) (walker : Walker) (openNames : List String) :
  handleEndTag (name ++ (part ++ '>' :: text)) walker openNames
    = (text, walker.closeMatching openNames (elementName name),
      openNames.drop (closeCount openNames (elementName name)))
  := by
  obtain ⟨htag, hrest⟩ := tag_append hname hpart text
  rw [handleEndTag, if_pos, htag, hrest]
  cases name with
  | nil => cases hname.starts
  | cons c name => exact hname.starts

theorem handleStartTag_append (hname : IsTagName name) (hdropped : isDropped (elementName name) = false)
    (hpart : IsAttributePart part) (text : List Char) (walker : Walker) (openNames : List String) :
  handleStartTag (name ++ (part ++ '>' :: text)) walker openNames
    = (text, openElement (elementName name) walker openNames)
  := by
  obtain ⟨htag, hrest⟩ := tag_append hname hpart text
  rw [handleStartTag, htag, hrest, hdropped]
  rfl

/-- The name of a dropped element is written with other signs than that of a construct. -/
theorem notMem_elementName (hname : IsTagName name) :
  '<' ∉ toAsciiLowercase (elementName name).toList
  := by
  rw [elementName, String.toList_ofList, toAsciiLowercase_toAsciiLowercase, toAsciiLowercase,
    List.mem_map]
  rintro ⟨c, hc, heq⟩
  have hchar := hname.chars c hc
  rw [eq_of_toLower_eq rfl heq] at hchar
  cases hchar

theorem hasEndTag_elementName {content : List Char} :
  HasEndTag (elementName name).toList content ↔ HasEndTag name content
  := by
  rw [HasEndTag, HasEndTag, elementName, String.toList_ofList, toAsciiLowercase_toAsciiLowercase]

/-- The content of a dropped element is dropped with its tags. -/
theorem handleStartTag_dropped {endName content endPart : List Char} (hname : IsTagName name)
    (hendName : elementName endName = elementName name)
    (hdropped : isDropped (elementName name) = true) (hpart : IsAttributePart part)
    (hcontent : ¬ HasEndTag name content) (hendPart : IsAttributePart endPart) (text : List Char)
    (walker : Walker) (openNames : List String) :
  handleStartTag (name ++ (part ++ '>' :: (content ++ '<' :: '/' :: (endName
      ++ (endPart ++ '>' :: text))))) walker openNames
    = (text, openElement (elementName name) walker openNames)
  := by
  obtain ⟨htag, hrest⟩ :=
    tag_append hname hpart (content ++ '<' :: '/' :: (endName ++ (endPart ++ '>' :: text)))
  have hwritten : toAsciiLowercase endName = toAsciiLowercase (elementName name).toList := by
    rw [← hendName, elementName, String.toList_ofList, toAsciiLowercase_toAsciiLowercase]
  rw [handleStartTag, htag, hrest, hdropped, if_pos rfl, findCaseInsensitiveClose_append
    (mt hasEndTag_elementName.mp hcontent) (notMem_elementName hname) hwritten hendPart.balanced
    hendPart.starts]
  rfl

theorem handleStartTag_lastDropped {content : List Char} (hname : IsTagName name)
    (hdropped : isDropped (elementName name) = true) (hpart : IsAttributePart part)
    (hcontent : ¬ HasEndTag name content) (walker : Walker) (openNames : List String) :
  handleStartTag (name ++ (part ++ '>' :: content)) walker openNames
    = ([], openElement (elementName name) walker openNames)
  := by
  obtain ⟨htag, hrest⟩ := tag_append hname hpart content
  rw [handleStartTag, htag, hrest, hdropped, if_pos rfl,
    findCaseInsensitiveClose_getD (mt hasEndTag_elementName.mp hcontent)]

end

/-! ### Walking in step -/

namespace Scanner

/-- The state before another rest of the hypertext. -/
def before (s : Scanner) (rest : List Char) : Scanner :=
  { s with rest }

/-- Both steps fail alike, or lead to states that are the same but for what is left, which looks the
same. -/
def StepsAlike (result result' : Except ScalarError Scanner) : Prop :=
  (∃ e, result = .error e ∧ result' = .error e)
    ∨ ∃ next text text', result = .ok (before next text) ∧ result' = .ok (before next text')
      ∧ SameVisible text text'

variable {text text' : List Char} (s : Scanner)

theorem stepsAlike_ok {next next' : Scanner} (hnext : next' = next.before next'.rest)
    (h : SameVisible next.rest next'.rest) :
  StepsAlike (.ok next) (.ok next')
  := by
  right
  exact ⟨next, next.rest, next'.rest, rfl, congrArg Except.ok hnext, h⟩

theorem stepsAlike_handleTag {rest rest' : List Char}
    {handled handled' : Walker → List String → List Char × Walker × List String}
    {after : Walker → List String → Walker × List String}
    (hhandled : ∀ walker openNames, handled walker openNames = (text, after walker openNames))
    (hhandled' : ∀ walker openNames, handled' walker openNames = (text', after walker openNames))
    (h : SameVisible text text') :
  StepsAlike ((s.before rest).handleTag handled) ((s.before rest').handleTag handled')
  := by
  have hflush : ∀ rest, (s.before rest).flushRun = s.flushRun := fun rest => rfl
  rw [handleTag, handleTag, hflush, hflush]
  cases s.flushRun with
  | error e => exact Or.inl ⟨e, rfl, rfl⟩
  | ok walker =>
      apply stepsAlike_ok
      · simp only [hhandled, hhandled', before]
      · simp only [hhandled, hhandled', before]
        exact h

/-- A step at a character of the text. -/
theorem stepsAlike_text {c : Char} (hc : c ≠ '<') (h : SameVisible text text') :
  StepsAlike (s.before (c :: text)).step (s.before (c :: text')).step
  := by
  obtain ⟨run, rest, rest', rfl, rfl, hrun, hstop, hstop', hrest⟩ := h.exists_run
  have hpush : StepsAlike (.ok ((s.before (c :: (run ++ rest))).pushChar c (run ++ rest)))
      (.ok ((s.before (c :: (run ++ rest'))).pushChar c (run ++ rest'))) :=
    stepsAlike_ok rfl (hrest.append hrun)
  rw [step, step]
  dsimp only [before]
  rw [if_neg hc, if_neg hc]
  by_cases hampersand : c = '&'
  · rw [if_pos hampersand, if_pos hampersand, decodeEntity_append hstop, decodeEntity_append hstop']
    cases hdecoded : decodeEntity run with
    | none => exact hpush
    | some decoded =>
        obtain ⟨d, after⟩ := decoded
        have hafter := decodeEntity_suffix hdecoded
        apply stepsAlike_ok rfl
        exact hrest.append fun c hc => hrun c (hafter.mem hc)
  · rw [if_neg hampersand, if_neg hampersand]
    exact hpush

theorem stepMarkup_literal (hc : text.head?.any startsConstruct = false) :
  s.stepMarkup text = .ok (s.pushChar '<' text)
  := by
  cases text with
  | nil => rfl
  | cons c text =>
      have hsign : startsConstruct c = false := hc
      rw [startsConstruct] at hsign
      simp only [Bool.or_eq_false_iff, decide_eq_false_iff_not] at hsign
      obtain ⟨⟨⟨hdeclaration, hinstruction⟩, hend⟩, hstart⟩ := hsign
      rw [stepMarkup, if_neg hdeclaration, if_neg hinstruction, if_neg hend, hstart,
        if_neg Bool.false_ne_true]

theorem stepMarkup_startTag {name : List Char} (hname : IsTagName name) (rest : List Char) :
  s.stepMarkup (name ++ rest) = s.handleTag (handleStartTag (name ++ rest))
  := by
  cases name with
  | nil => cases hname.starts
  | cons c name =>
      have hstart : isTagNameStart c = true := hname.starts
      have hne : ∀ d, isTagNameStart d = false → c ≠ d := by
        rintro d hd rfl
        rw [hstart] at hd
        cases hd
      rw [List.cons_append, stepMarkup, if_neg (hne '!' rfl), if_neg (hne '?' rfl),
        if_neg (hne '/' rfl), if_pos hstart]

theorem step_declaration (rest : List Char) :
  (s.before ('<' :: '!' :: rest)).step = .ok (s.before (skipMarkupDeclaration rest))
  := rfl

theorem step_instruction (rest : List Char) :
  (s.before ('<' :: '?' :: rest)).step = .ok (s.before (skipToTagEnd none rest))
  := rfl

theorem skipMarkupDeclaration_comment {content : List Char} (h : IsComment content)
    (text : List Char) :
  skipMarkupDeclaration ('-' :: '-' :: (content ++ '-' :: '-' :: '>' :: text)) = text
  := by
  rw [skipMarkupDeclaration, if_pos ⟨_, rfl⟩, List.drop_succ_cons, List.drop_succ_cons,
    List.drop_zero, findSubsequence_comment h, Option.getD_some]

theorem skipMarkupDeclaration_lastComment {content : List Char} (h : IsComment content) :
  skipMarkupDeclaration ('-' :: '-' :: content) = []
  := by
  rw [skipMarkupDeclaration, if_pos ⟨_, rfl⟩, List.drop_succ_cons, List.drop_succ_cons,
    List.drop_zero, findSubsequence_eq_none h, Option.getD_none]

theorem skipMarkupDeclaration_part {part : List Char} (hpart : IsAttributes part)
    (hc : ¬ ['-', '-'] <+: part) (text : List Char) :
  skipMarkupDeclaration (part ++ '>' :: text) = text
  := by
  rw [skipMarkupDeclaration, if_neg, hpart.skipToTagEnd_eq]
  intro hstart
  rcases part with _ | ⟨c, _ | ⟨d, part⟩⟩
  · simp at hstart
  · simp at hstart
  · apply hc
    obtain ⟨others, heq⟩ := hstart
    cases heq
    exact ⟨part, rfl⟩

theorem handleEndTag_nameless {part : List Char} (hpart : IsAttributes part)
    (hc : part.head?.any isTagNameStart = false) (text : List Char) (walker : Walker)
    (openNames : List String) :
  handleEndTag (part ++ '>' :: text) walker openNames = (text, walker, openNames)
  := by
  have hnone : (part ++ '>' :: text).head?.any isTagNameStart = false := by
    cases part with
    | nil => rfl
    | cons c part => exact hc
  rw [handleEndTag, hnone, if_neg Bool.false_ne_true, hpart.skipToTagEnd_eq]

/-- Hypertexts that look the same are scanned in step. -/
theorem stepsAlike_step (h : SameVisible text text') :
  StepsAlike (s.before text).step (s.before text').step
  := by
  cases h with
  | refl =>
      cases (s.before text).step with
      | error e => exact Or.inl ⟨e, rfl, rfl⟩
      | ok next => exact stepsAlike_ok rfl (.refl _)
  | text hc h => apply stepsAlike_text s hc h
  | @literal rest rest' hc h =>
      have hc' : rest'.head?.any startsConstruct = false := by
        have hhead : rest.head? = rest'.head? := by cases h <;> rfl
        rw [← hhead]
        exact hc
      change StepsAlike ((s.before ('<' :: rest)).stepMarkup rest)
        ((s.before ('<' :: rest')).stepMarkup rest')
      rw [stepMarkup_literal _ hc, stepMarkup_literal _ hc']
      exact stepsAlike_ok rfl h
  | comment hcontent hcontent' h =>
      rw [step_declaration, step_declaration, skipMarkupDeclaration_comment hcontent,
        skipMarkupDeclaration_comment hcontent']
      exact stepsAlike_ok rfl h
  | lastComment hcontent hcontent' =>
      rw [step_declaration, step_declaration, skipMarkupDeclaration_lastComment hcontent,
        skipMarkupDeclaration_lastComment hcontent']
      exact stepsAlike_ok rfl (.refl [])
  | declaration hpart hpart' hc hc' h =>
      rw [step_declaration, step_declaration, skipMarkupDeclaration_part hpart hc,
        skipMarkupDeclaration_part hpart' hc']
      exact stepsAlike_ok rfl h
  | instruction hpart hpart' h =>
      rw [step_instruction, step_instruction, hpart.skipToTagEnd_eq, hpart'.skipToTagEnd_eq]
      exact stepsAlike_ok rfl h
  | namelessEndTag hpart hpart' hc hc' h =>
      exact stepsAlike_handleTag s (handleEndTag_nameless hpart hc _)
        (handleEndTag_nameless hpart' hc' _) h
  | endTag hname hpart hpart' h =>
      exact stepsAlike_handleTag s (handleEndTag_append hname hpart _)
        (handleEndTag_append hname hpart' _) h
  | @startTag name part part' rest rest' hname hdropped hpart hpart' h =>
      change StepsAlike ((s.before _).stepMarkup _) ((s.before _).stepMarkup _)
      rw [stepMarkup_startTag _ hname, stepMarkup_startTag _ hname]
      exact stepsAlike_handleTag s (handleStartTag_append hname hdropped hpart _)
        (handleStartTag_append hname hdropped hpart' _) h
  | dropped hname hendName hdropped hpart hpart' hcontent hcontent' hendPart hendPart' h =>
      change StepsAlike ((s.before _).stepMarkup _) ((s.before _).stepMarkup _)
      rw [stepMarkup_startTag _ hname, stepMarkup_startTag _ hname]
      exact stepsAlike_handleTag s
        (handleStartTag_dropped hname hendName hdropped hpart hcontent hendPart _)
        (handleStartTag_dropped hname hendName hdropped hpart' hcontent' hendPart' _) h
  | lastDropped hname hdropped hpart hpart' hcontent hcontent' =>
      change StepsAlike ((s.before _).stepMarkup _) ((s.before _).stepMarkup _)
      rw [stepMarkup_startTag _ hname, stepMarkup_startTag _ hname]
      exact stepsAlike_handleTag s (handleStartTag_lastDropped hname hdropped hpart hcontent)
        (handleStartTag_lastDropped hname hdropped hpart' hcontent') (.refl [])

/-- Hypertexts that look the same are walked to the same end. -/
theorem walk_sameVisible (h : SameVisible text text') :
  (s.before text).walk = (s.before text').walk
  := by
  induction hlength : text.length using Nat.strong_induction_on generalizing s text text' with
  | h n ih =>
      subst hlength
      rcases eq_or_ne text [] with rfl | hne
      · cases h
        rfl
      · have hne' : text' ≠ [] := by
          rintro rfl
          cases h
          exact hne rfl
        rw [walk_of_ne_nil (s := s.before text) hne, walk_of_ne_nil (s := s.before text') hne']
        rcases stepsAlike_step s h with ⟨e, heq, heq'⟩ | ⟨next, rest, rest', heq, heq', hrest⟩
        · rw [heq, heq']
        · rw [heq, heq']
          apply ih rest.length _ next hrest rfl
          exact length_step_lt (s := s.before text) hne heq

end Scanner

/-- Hypertexts that look the same have the same blocks. -/
theorem canonicalizeHtml_sameVisible {input input' : List Char} (h : SameVisible input input')
    (hinput : ∀ c ∈ input, isForbiddenScalar c = false)
    (hinput' : ∀ c ∈ input', isForbiddenScalar c = false) :
  canonicalizeHtml input = canonicalizeHtml input'
  := by
  have haccepted : ∀ text : List Char, (∀ c ∈ text, isForbiddenScalar c = false) →
      rejectForbiddenScalars text = .ok () := by
    intro text htext
    rw [rejectForbiddenScalars, if_neg]
    rw [Bool.not_eq_true, List.any_eq_false]
    intro c hc
    rw [htext c hc]
    exact Bool.false_ne_true
  have hwalk := Scanner.walk_sameVisible { rest := [] } h
  rw [canonicalizeHtml, canonicalizeHtml, haccepted input hinput, haccepted input' hinput']
  change (Scanner.walk _).bind _ = (Scanner.walk _).bind _
  rw [show Scanner.walk { rest := input } = Scanner.walk { rest := input' } from hwalk]

/-- Nothing hidden reaches the blocks: hypertexts that look the same have the same blocks, and each
block that is emitted has something, and plain characters only. -/
theorem canonicalizeHtml_hidesMarkup :
  (∀ input input', SameVisible input input' → (∀ c ∈ input, isForbiddenScalar c = false) →
      (∀ c ∈ input', isForbiddenScalar c = false) →
      canonicalizeHtml input = canonicalizeHtml input')
    ∧ ∀ input out, canonicalizeHtml input = .ok out →
      ∀ block ∈ out.bodyBlocks ++ out.quoteBlocks ++ out.linkLabels,
        block ≠ [] ∧ ∀ c ∈ block, isForbiddenScalar c = false ∧ c ≠ '\r' ∧ c ≠ '\t'
  := by
  constructor
  · intro input input' h hinput hinput'
    exact canonicalizeHtml_sameVisible h hinput hinput'
  · intro input out h block hblock
    obtain ⟨hne, hplain⟩ := isBlock_of_canonicalizeHtml h block hblock
    exact ⟨hne, hplain⟩

/-- A sign that ends a tag is quoted in an attribute, or within a comment or dropped content. -/
example :
  canonicalizeHtml "<p title='>'>Safe<!-- > --><style>p > a</style></p>".toList
    = canonicalizeHtml "<p>Safe<!----><style></style></p>".toList
  := by decide +kernel

end Inference
