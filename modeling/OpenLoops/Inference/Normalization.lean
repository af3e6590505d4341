import OpenLoops.Inference.Compositions

/-!
# Normalization

A text is normalized segment by segment: marks without a starter, syllables of jamo, and starters
with the marks after them.  The marks after a composed syllable are not sorted: normalizing twice is
normalizing once exactly when they are in the order of their classes.
-/

namespace Inference

variable {c : Char}

/-! ### Segments -/

/-- A scalar is composed with the jamo that follow, and not with what stands after them. -/
structure Syllable (c : Char) (jamo after : List Char) (syllable : Char) : Prop where
  nonempty : jamo ≠ []
  composed : jamo.foldlM composeHangul c = some syllable
  stops : ∀ d, after.head? = some d → composeHangul syllable d = none

/-- A starter that is not composed to a syllable, with all marks after it. -/
structure MarkRun (c : Char) (marks after : List Char) : Prop where
  starter : isMark c = false
  allMarks : ∀ m ∈ marks, isMark m = true
  stops : after.head?.any isMark = false
  separate : ∀ d, (marks ++ after).head? = some d → composeHangul c d = none

/-- What follows a scalar in its syllable continues it. -/
theorem continues_of_foldlM {jamo : List Char} {syllable : Char}
    (h : jamo.foldlM composeHangul c = some syllable) :
  ∀ d ∈ jamo, continuesSyllable d = true
  := by
  induction jamo generalizing c with
  | nil => exact fun d hd => absurd hd List.not_mem_nil
  | cons d jamo ih =>
      rw [List.foldlM_cons] at h
      obtain ⟨next, hnext, h⟩ := Option.bind_eq_some_iff.mp h
      intro d' hd'
      rcases List.mem_cons.mp hd' with rfl | hd'
      · apply (ranges_of_composeHangul hnext).2.1
      · apply ih h d' hd'

/-- A composed syllable is no mark, continues no syllable and is composed with no mark. -/
theorem Syllable.result {jamo after : List Char} {syllable : Char}
    (h : Syllable c jamo after syllable) :
  isMark syllable = false ∧ continuesSyllable syllable = false ∧ ∀ m, compose syllable m = none
  := by
  have hcomposed := h.composed
  rw [← List.dropLast_append_getLast h.nonempty, List.foldlM_append] at hcomposed
  obtain ⟨next, -, hnext⟩ := Option.bind_eq_some_iff.mp hcomposed
  rw [List.foldlM_cons] at hnext
  obtain ⟨last, hlast, heq⟩ := Option.bind_eq_some_iff.mp hnext
  cases heq
  apply of_composeHangul hlast

/-- The scalar of a syllable starts one. -/
theorem Syllable.starts {jamo after : List Char} {syllable : Char}
    (h : Syllable c jamo after syllable) :
  startsSyllable c = true
  := by
  obtain ⟨d, rest, rfl⟩ := List.exists_cons_of_ne_nil h.nonempty
  have hcomposed := h.composed
  rw [List.foldlM_cons] at hcomposed
  obtain ⟨next, hnext, -⟩ := Option.bind_eq_some_iff.mp hcomposed
  apply (ranges_of_composeHangul hnext).1

/-- The scalar of a syllable is no mark. -/
theorem Syllable.starter {jamo after : List Char} {syllable : Char}
    (h : Syllable c jamo after syllable) :
  isMark c = false
  := by
  rw [← Bool.not_eq_true]
  intro hmark
  have hstarts := h.starts
  rw [(not_syllable_of_isMark hmark).1] at hstarts
  cases hstarts

/-- A scalar is composed as far as that goes. -/
theorem exists_composeSyllable (c : Char) (text : List Char) :
  ∃ jamo after syllable, text = jamo ++ after
    ∧ composeSyllable c text = (syllable, jamo.length)
    ∧ jamo.foldlM composeHangul c = some syllable
    ∧ ∀ d, after.head? = some d → composeHangul syllable d = none
  := by
  induction text generalizing c with
  | nil => exact ⟨[], [], c, rfl, rfl, rfl, nofun⟩
  | cons d text ih =>
      rw [composeSyllable]
      cases hnext : composeHangul c d with
      | none =>
          refine ⟨[], d :: text, c, rfl, rfl, rfl, ?_⟩
          rintro _ ⟨⟩
          exact hnext
      | some next =>
          obtain ⟨jamo, after, syllable, rfl, hcompose, hfold, hstops⟩ := ih next
          refine ⟨d :: jamo, after, syllable, rfl, ?_, ?_, hstops⟩
          · dsimp only
            rw [hcompose, List.length_cons]
          · rw [List.foldlM_cons, hnext]
            exact hfold

/-- A composition that stops is the one that is found. -/
theorem composeSyllable_eq {jamo after : List Char} {syllable : Char}
    (h : jamo.foldlM composeHangul c = some syllable)
    (hstops : ∀ d, after.head? = some d → composeHangul syllable d = none) :
  composeSyllable c (jamo ++ after) = (syllable, jamo.length)
  := by
  induction jamo generalizing c with
  | nil =>
      cases h
      cases after with
      | nil => rfl
      | cons d after => rw [List.nil_append, composeSyllable, hstops d rfl, List.length_nil]
  | cons d jamo ih =>
      rw [List.foldlM_cons] at h
      obtain ⟨next, hnext, h⟩ := Option.bind_eq_some_iff.mp h
      rw [List.cons_append, composeSyllable, hnext]
      dsimp only
      rw [ih h, List.length_cons]

/-! ### Normalized segments -/

theorem nfc_mark (hc : isMark c = true) (text : List Char) :
  nfc (c :: text) = c :: nfc text
  := by rw [nfc, if_pos hc]

theorem nfc_syllable {jamo after : List Char} {syllable : Char}
    (h : Syllable c jamo after syllable) :
  nfc (c :: (jamo ++ after)) = syllable :: nfc after
  := by
  rw [nfc, h.starter, if_neg Bool.false_ne_true, composeSyllable_eq h.composed h.stops]
  dsimp only
  rw [if_pos (List.length_pos_iff.mpr h.nonempty), List.drop_left]

theorem nfc_markRun {marks after : List Char} (h : MarkRun c marks after) :
  nfc (c :: (marks ++ after))
    = (composeMarks c (sortMarks marks)).1 :: (composeMarks c (sortMarks marks)).2 ++ nfc after
  := by
  have hnone := @composeSyllable_eq c [] (marks ++ after) c rfl h.separate
  rw [List.nil_append] at hnone
  rw [nfc, h.starter, if_neg Bool.false_ne_true, hnone]
  dsimp only
  rw [List.length_nil, if_neg (lt_irrefl 0), takeWhile_append_eq h.allMarks h.stops,
    dropWhile_append_eq h.allMarks h.stops]

/-- A text is empty, or its first segment is a mark, a syllable or a starter with its marks. -/
theorem text_induction {P : List Char → Prop} (hnil : P [])
    (hmark : ∀ c text, isMark c = true → P text → P (c :: text))
    (hsyllable : ∀ c jamo after syllable, Syllable c jamo after syllable → P after →
      P (c :: (jamo ++ after)))
    (hrun : ∀ c marks after, MarkRun c marks after → P after → P (c :: (marks ++ after)))
    (text : List Char) :
  P text
  := by
  induction hlength : text.length using Nat.strong_induction_on generalizing text with
  | h n ih =>
      subst hlength
      cases text with
      | nil => exact hnil
      | cons c text =>
          by_cases hc : isMark c = true
          · apply hmark c text hc
            apply ih text.length (Nat.lt_succ_self _) text rfl
          · obtain ⟨jamo, after, syllable, rfl, -, hcomposed, hstops⟩ :=
              exists_composeSyllable c text
            rcases eq_or_ne jamo [] with rfl | hne
            · cases hcomposed
              have hsplit := List.takeWhile_append_dropWhile (p := isMark) (l := [] ++ after)
              rw [← hsplit]
              apply hrun
              · constructor
                · rwa [← Bool.not_eq_true]
                · intro m hm
                  apply List.mem_takeWhile_imp hm
                · have hstop := List.head?_dropWhile_not isMark ([] ++ after)
                  cases hhead : (([] ++ after).dropWhile isMark).head? with
                  | none => rfl
                  | some d =>
                      rw [hhead] at hstop
                      exact hstop
                · rw [hsplit]
                  exact hstops
              · apply ih _ _ _ rfl
                exact Nat.lt_succ_of_le (List.dropWhile_sublist _).length_le
            · apply hsyllable c jamo after syllable ⟨hne, hcomposed, hstops⟩
              apply ih _ _ after rfl
              rw [List.length_cons, List.length_append]
              omega

/-! ### Normalized texts -/

/-- What a run of marks is composed to: either nothing is composed, or the first mark that is
composed with the starter, and no other. -/
theorem composeMarks_cases (c : Char) (marks : List Char) :
  ((∀ m ∈ marks, compose c m = none) ∧ composeMarks c marks = (c, marks))
    ∨ ∃ before m after composed, marks = before ++ m :: after
      ∧ (∀ m' ∈ before, compose c m' = none) ∧ compose c m = some composed
      ∧ composeMarks c marks = (composed, before ++ after)
  := by
  induction marks with
  | nil => exact Or.inl ⟨fun m hm => absurd hm List.not_mem_nil, rfl⟩
  | cons m marks ih =>
      rw [composeMarks]
      cases hm : compose c m with
      | some composed =>
          right
          refine ⟨[], m, marks, composed, rfl, fun m' hm' => absurd hm' List.not_mem_nil, hm, ?_⟩
          dsimp only
          -- what is composed is composed no further
          have hnone : ∀ rest : List Char, composeMarks composed rest = (composed, rest) := by
            intro rest
            induction rest with
            | nil => rfl
            | cons m' rest ih' => rw [composeMarks, compose_compose hm m', ih']
          rw [hnone, List.nil_append]
      | none =>
          dsimp only
          rcases ih with ⟨hnone, heq⟩ | ⟨before, m', after, composed, rfl, hbefore, hm', heq⟩
          · left
            rw [heq]
            refine ⟨?_, rfl⟩
            intro m' hm'
            rcases List.mem_cons.mp hm' with rfl | hm'
            · exact hm
            · apply hnone m' hm'
          · right
            rw [heq]
            refine ⟨m :: before, m', after, composed, rfl, ?_, hm', rfl⟩
            intro m'' hm''
            rcases List.mem_cons.mp hm'' with rfl | hm''
            · exact hm
            · apply hbefore m'' hm''

/-- Marks in the order of their classes. -/
abbrev InClassOrder (marks : List Char) : Prop :=
  marks.Pairwise fun m m' => combiningClass m ≤ combiningClass m'

theorem inClassOrder_sortMarks (marks : List Char) :
  InClassOrder (sortMarks marks)
  := by
  have : Std.Total fun m m' => combiningClass m ≤ combiningClass m' :=
    ⟨fun m m' => Nat.le_total (combiningClass m) (combiningClass m')⟩
  have : IsTrans Char fun m m' => combiningClass m ≤ combiningClass m' :=
    ⟨fun _ _ _ h h' => Nat.le_trans h h'⟩
  apply List.pairwise_insertionSort

theorem length_sortMarks (marks : List Char) :
  (sortMarks marks).length = marks.length
  := List.length_insertionSort _ marks

/-- Sorting leaves marks as they are exactly when they are in order. -/
theorem sortMarks_eq_self_iff {marks : List Char} :
  sortMarks marks = marks ↔ InClassOrder marks
  := by
  constructor
  · intro h
    rw [← h]
    apply inClassOrder_sortMarks
  · apply List.Pairwise.insertionSort_eq

/-- A normalized text starts with a mark exactly when the text does. -/
theorem any_head?_nfc (text : List Char) :
  (nfc text).head?.any isMark = text.head?.any isMark
  := by
  induction text using text_induction with
  | hnil => rw [nfc]
  | hmark c text hc ih => rw [nfc_mark hc, List.head?_cons, List.head?_cons]
  | hsyllable c jamo after syllable h ih =>
      rw [nfc_syllable h, List.head?_cons, List.head?_cons, Option.any_some, Option.any_some,
        h.starter, h.result.1]
  | hrun c marks after h ih =>
      rw [nfc_markRun h, List.cons_append, List.head?_cons, List.head?_cons, Option.any_some,
        Option.any_some, h.starter]
      rcases composeMarks_cases c (sortMarks marks) with ⟨-, heq⟩ | ⟨_, _, _, _, -, -, hm, heq⟩
      · rw [heq]
        exact h.starter
      · rw [heq]
        exact (of_compose hm).2.1

/-- A jamo that a normalized text starts with, the text starts with. -/
theorem head?_of_head?_nfc {text : List Char} {d : Char} (hd : (nfc text).head? = some d)
    (hjamo : continuesSyllable d = true) :
  text.head? = some d
  := by
  induction text using text_induction with
  | hnil =>
      rw [nfc] at hd
      cases hd
  | hmark c text hc ih =>
      rw [nfc_mark hc] at hd
      exact hd
  | hsyllable c jamo after syllable h ih =>
      rw [nfc_syllable h] at hd
      cases hd
      rw [h.result.2.1] at hjamo
      cases hjamo
  | hrun c marks after h ih =>
      rw [nfc_markRun h] at hd
      rcases composeMarks_cases c (sortMarks marks) with ⟨-, heq⟩ | ⟨_, _, _, _, -, -, hm, heq⟩
      · rw [heq] at hd
        exact hd
      · rw [heq] at hd
        cases hd
        rw [(of_compose hm).2.2.2] at hjamo
        cases hjamo

/-- What a scalar is not composed with before a text, it is not before the normalized one. -/
theorem composeHangul_head?_nfc {text : List Char}
    (h : ∀ d, text.head? = some d → composeHangul c d = none) :
  ∀ d, (nfc text).head? = some d → composeHangul c d = none
  := by
  intro d hd
  by_cases hjamo : continuesSyllable d = true
  · apply h d (head?_of_head?_nfc hd hjamo)
  · apply composeHangul_eq_none_of_next
    rwa [← Bool.not_eq_true]

/-- Marks stay before a normalized text. -/
theorem nfc_marks_append {marks : List Char} (h : ∀ m ∈ marks, isMark m = true)
    (text : List Char) :
  nfc (marks ++ text) = marks ++ nfc text
  := by
  induction marks with
  | nil => rfl
  | cons m marks ih =>
      rw [List.cons_append, nfc_mark (h m List.mem_cons_self),
        ih fun m' hm' => h m' (List.mem_cons_of_mem m hm'), List.cons_append]

/-- Marks of which none is composed are kept. -/
theorem composeMarks_of_none {marks : List Char} (h : ∀ m ∈ marks, compose c m = none) :
  composeMarks c marks = (c, marks)
  := by
  rcases composeMarks_cases c marks with ⟨-, heq⟩ | ⟨before, m, after, composed, rfl, -, hm, -⟩
  · exact heq
  · rw [h m (List.mem_append_right _ List.mem_cons_self)] at hm
    cases hm

/-- A run is composed to a run of which nothing is composed, in the order of the classes. -/
theorem MarkRun.normalized {marks after remaining : List Char} {composed : Char}
    (h : MarkRun c marks after) (heq : composeMarks c (sortMarks marks) = (composed, remaining)) :
  MarkRun composed remaining (nfc after) ∧ (∀ m ∈ remaining, compose composed m = none)
    ∧ InClassOrder remaining
  := by
  have hsorted := inClassOrder_sortMarks marks
  have hmarks : ∀ m ∈ sortMarks marks, isMark m = true := by
    intro m hm
    apply h.allMarks m ((List.mem_insertionSort _).mp hm)
  have hstops : (nfc after).head?.any isMark = false := by
    rw [any_head?_nfc]
    exact h.stops
  rcases composeMarks_cases c (sortMarks marks) with
    ⟨hnone, heq'⟩ | ⟨before, m, others, composed', hsplit, -, hm, heq'⟩
  · rw [heq] at heq'
    cases heq'
    refine ⟨⟨h.starter, hmarks, hstops, ?_⟩, hnone, hsorted⟩
    cases hremaining : sortMarks marks with
    | nil =>
        have hnil : marks = [] := by
          rw [← List.length_eq_zero_iff, ← length_sortMarks, hremaining, List.length_nil]
        apply composeHangul_head?_nfc
        have hseparate := h.separate
        rwa [hnil] at hseparate
    | cons m rest =>
        rintro _ ⟨⟩
        apply composeHangul_eq_none_of_next
        apply (not_syllable_of_isMark (hmarks m _)).2
        rw [hremaining]
        apply List.mem_cons_self
  · rw [heq] at heq'
    cases heq'
    have hsub : (before ++ others).Sublist (sortMarks marks) := by
      rw [hsplit]
      apply List.Sublist.append_left
      apply List.sublist_cons_self
    obtain ⟨-, hmark, hstarts, -⟩ := of_compose hm
    refine ⟨⟨hmark, fun m' hm' => hmarks m' (hsub.mem hm'), hstops, ?_⟩, ?_, hsorted.sublist hsub⟩
    · intro d hd
      apply composeHangul_eq_none_of_base hstarts
    · intro m' hm'
      apply compose_compose hm

/-! ### Normalizing twice -/

/-- The marks after jamo that compose to a syllable are in the order of their classes. -/
def SyllablesOrdered (text : List Char) : Prop :=
  ∀ c jamo marks, c :: (jamo ++ marks) <:+: text → jamo ≠ [] →
    (jamo.foldlM composeHangul c).isSome = true → (∀ m ∈ marks, isMark m = true) →
      InClassOrder marks

/-- The marks after a syllable that starts with the scalar are in the order of their classes. -/
def HeadOrdered (c : Char) (text : List Char) : Prop :=
  ∀ jamo marks, jamo ++ marks <+: text → jamo ≠ [] →
    (jamo.foldlM composeHangul c).isSome = true → (∀ m ∈ marks, isMark m = true) →
      InClassOrder marks

theorem syllablesOrdered_cons {text : List Char} :
  SyllablesOrdered (c :: text) ↔ HeadOrdered c text ∧ SyllablesOrdered text
  := by
  constructor
  · intro h
    constructor
    · intro jamo marks hprefix
      apply h c jamo marks
      apply List.IsPrefix.isInfix
      exact List.cons_prefix_cons.mpr ⟨rfl, hprefix⟩
    · intro c' jamo marks hinfix
      apply h c' jamo marks
      exact List.infix_cons_iff.mpr (Or.inr hinfix)
  · rintro ⟨hhead, hrest⟩ c' jamo marks hinfix
    rcases List.infix_cons_iff.mp hinfix with hprefix | hinfix
    · obtain ⟨heq, htail⟩ := List.cons_prefix_cons.mp hprefix
      subst heq
      apply hhead jamo marks htail
    · apply hrest c' jamo marks hinfix

/-- Nothing is asked after a scalar that is not composed to a syllable. -/
theorem headOrdered_of_none {text : List Char}
    (h : ∀ d, text.head? = some d → composeHangul c d = none) :
  HeadOrdered c text
  := by
  intro jamo marks hprefix hne hsome
  obtain ⟨d, rest, rfl⟩ := List.exists_cons_of_ne_nil hne
  obtain ⟨others, rfl⟩ := hprefix
  rw [List.foldlM_cons, h d rfl] at hsome
  cases hsome

/-- Nothing is asked of scalars that start no syllable. -/
theorem syllablesOrdered_append {others text : List Char}
    (h : ∀ d ∈ others, startsSyllable d = false) :
  SyllablesOrdered (others ++ text) ↔ SyllablesOrdered text
  := by
  induction others with
  | nil => rfl
  | cons d others ih =>
      rw [List.cons_append, syllablesOrdered_cons,
        ih fun d' hd' => h d' (List.mem_cons_of_mem d hd')]
      apply and_iff_right
      apply headOrdered_of_none
      intro d' hd'
      apply composeHangul_eq_none_of_base (h d List.mem_cons_self)

/-- Of a syllable the marks that follow are asked to be in order. -/
theorem Syllable.headOrdered_iff {jamo after : List Char} {syllable : Char}
    (h : Syllable c jamo after syllable) :
  HeadOrdered c (jamo ++ after) ↔ InClassOrder (after.takeWhile isMark)
  := by
  have hcontinues := continues_of_foldlM h.composed
  constructor
  · intro hhead
    apply hhead jamo (after.takeWhile isMark)
    · rw [List.prefix_append_right_inj]
      apply List.takeWhile_prefix
    · exact h.nonempty
    · rw [h.composed]
      rfl
    · intro m hm
      apply List.mem_takeWhile_imp hm
  · intro hordered jamo' marks hprefix hne hsome hmarks
    have hfirst : jamo' <+: jamo ++ after := (List.prefix_append jamo' marks).trans hprefix
    rcases List.prefix_or_prefix_of_prefix hfirst (List.prefix_append jamo after) with
      ⟨rest, hrest⟩ | ⟨rest, hrest⟩
    · subst hrest
      rw [List.append_assoc, List.prefix_append_right_inj] at hprefix
      cases rest with
      | nil =>
          -- the marks follow the whole syllable
          rw [List.nil_append] at hprefix
          obtain ⟨others, rfl⟩ := hprefix
          rw [List.takeWhile_append_of_pos hmarks] at hordered
          apply List.Pairwise.sublist (List.sublist_append_left _ _) hordered
      | cons d rest =>
          -- a jamo follows, and no mark
          cases marks with
          | nil => exact List.Pairwise.nil
          | cons m marks =>
              rw [List.cons_append, List.cons_prefix_cons] at hprefix
              obtain ⟨rfl, -⟩ := hprefix
              have hjamo := hcontinues m (List.mem_append_right _ List.mem_cons_self)
              rw [(not_syllable_of_isMark (hmarks m List.mem_cons_self)).2] at hjamo
              cases hjamo
    · -- nothing after the syllable is composed with it
      subst hrest
      rw [List.foldlM_append, h.composed] at hsome
      cases rest with
      | nil =>
          rw [List.append_nil, List.prefix_append_right_inj] at hprefix
          obtain ⟨others, rfl⟩ := hprefix
          rw [List.takeWhile_append_of_pos hmarks] at hordered
          apply List.Pairwise.sublist (List.sublist_append_left _ _) hordered
      | cons d rest =>
          rw [List.append_assoc, List.prefix_append_right_inj] at hprefix
          obtain ⟨others, rfl⟩ := hprefix
          have hnone := h.stops d rfl
          rw [Option.bind_eq_bind, Option.bind_some, List.foldlM_cons, hnone] at hsome
          cases hsome

/-- Normalizing a text twice is normalizing it once exactly when the marks after jamo that compose
to a syllable are in the order of their classes. -/
theorem nfc_nfc_iff (text : List Char) :
  nfc (nfc text) = nfc text ↔ SyllablesOrdered text
  := by
  induction text using text_induction with
  | hnil =>
      apply iff_of_true
      · rw [nfc, nfc]
      · intro c jamo marks hinfix
        exact absurd (List.infix_nil.mp hinfix) (List.cons_ne_nil _ _)
  | hmark c text hc ih =>
      have hhead : HeadOrdered c text := by
        apply headOrdered_of_none
        intro d hd
        apply composeHangul_eq_none_of_base (not_syllable_of_isMark hc).1
      rw [nfc_mark hc, nfc_mark hc, List.cons_inj_right, ih, syllablesOrdered_cons,
        and_iff_right hhead]
  | hsyllable c jamo after syllable h ih =>
      have hjamo : ∀ d ∈ jamo, startsSyllable d = false := by
        intro d hd
        apply (not_starts_of_continuesSyllable (continues_of_foldlM h.composed d hd)).1
      rw [nfc_syllable h, syllablesOrdered_cons, h.headOrdered_iff, syllablesOrdered_append hjamo,
        ← ih]
      obtain ⟨hresult, -, hcompose⟩ := h.result
      -- the marks after the syllable are sorted when it is normalized again
      set marks := after.takeWhile isMark with hmarks
      set rest := after.dropWhile isMark with hrest
      have hsplit : after = marks ++ rest := List.takeWhile_append_dropWhile.symm
      have hall : ∀ m ∈ marks, isMark m = true := fun m hm => List.mem_takeWhile_imp hm
      have hafter := nfc_marks_append hall rest
      rw [← hsplit] at hafter
      have hrun : MarkRun syllable marks (nfc rest) := by
        refine ⟨hresult, hall, ?_, ?_⟩
        · rw [any_head?_nfc]
          have hstop := List.head?_dropWhile_not isMark after
          rw [← hrest] at hstop
          cases hhead : rest.head? with
          | none => rfl
          | some d =>
              rw [hhead] at hstop
              exact hstop
        · rw [← hafter]
          apply composeHangul_head?_nfc h.stops
      rw [hafter, nfc_markRun hrun, composeMarks_of_none fun m hm => hcompose m,
        nfc_marks_append hall, List.cons_append, List.cons_inj_right, List.append_cancel_left_eq,
        ← sortMarks_eq_self_iff]
      constructor
      · intro heq
        apply List.append_inj heq (length_sortMarks marks)
      · rintro ⟨hsorted, heq⟩
        rw [hsorted, heq]
  | hrun c marks after h ih =>
      obtain ⟨composed, remaining, heq⟩ :
          ∃ composed remaining, composeMarks c (sortMarks marks) = (composed, remaining) :=
        ⟨_, _, rfl⟩
      obtain ⟨hrun, hnone, hordered⟩ := h.normalized heq
      have hmarks : ∀ m ∈ marks, startsSyllable m = false := by
        intro m hm
        apply (not_syllable_of_isMark (h.allMarks m hm)).1
      rw [nfc_markRun h, heq, List.cons_append, nfc_markRun hrun,
        sortMarks_eq_self_iff.mpr hordered, composeMarks_of_none hnone, List.cons_append,
        List.cons_inj_right, List.append_cancel_left_eq, ih, syllablesOrdered_cons,
        and_iff_right (headOrdered_of_none h.separate), syllablesOrdered_append hmarks]

/-- A syllable with a dot below after an acute accent: the marks are sorted the second time. -/
theorem hangulMarks_not_idempotent :
  nfc (nfc "\u1100\u1161\u0301\u0323".toList) ≠ nfc "\u1100\u1161\u0301\u0323".toList
  := by decide +kernel

end Inference
