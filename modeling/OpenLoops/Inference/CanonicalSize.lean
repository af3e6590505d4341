import OpenLoops.Inference.Normalization
import OpenLoops.Library.Paragraphs

/-!
# Sizes of canonical texts

The canonical text of a text is no longer than the text.  White space separates what is composed, so
the size of a canonical text is the sum of the sizes of its rows, and it does not grow when rows, or
white space around the text, are left out.
-/

namespace Inference

open Lines (dropCr joinRows unlines)

variable {c : Char}

/-! ### Separators -/

/-- The scalar is composed with nothing. -/
structure IsSeparator (c : Char) : Prop where
  starter : isMark c = false
  startsNone : startsSyllable c = false
  continuesNone : continuesSyllable c = false
  composesNone : ∀ m, compose c m = none

theorem isWhitespace_of_mem_compositions :
  ∀ entry ∈ compositions, isWhitespace entry.1 = false
  := by decide +kernel

theorem isSeparator_of_isWhitespace (h : isWhitespace c = true) :
  IsSeparator c
  := by
  have hrange : c.toNat < 0x300 ∨ c.toNat = 0x1680 ∨ (0x2000 ≤ c.toNat ∧ c.toNat ≤ 0x3000) := by
    rw [isWhitespace] at h
    simp only [Bool.or_eq_true, Bool.and_eq_true, decide_eq_true_eq] at h
    omega
  refine ⟨?_, ?_, ?_, ?_⟩
  · rw [← Bool.not_eq_true]
    intro hmark
    have := toNat_of_isMark hmark
    omega
  · rw [← Bool.not_eq_true, startsSyllable_iff]
    omega
  · rw [← Bool.not_eq_true, continuesSyllable_iff]
    omega
  · intro m
    rw [Option.eq_none_iff_forall_not_mem]
    intro result hresult
    rw [isWhitespace_of_mem_compositions _ (mem_of_compose hresult)] at h
    cases h

theorem isSeparator_of_not_letter (hlow : c.toNat < 0x300)
    (hbase : ∀ entry ∈ compositions, entry.1 ≠ c) :
  IsSeparator c
  := by
  refine ⟨?_, ?_, ?_, ?_⟩
  · rw [← Bool.not_eq_true]
    intro hmark
    have := toNat_of_isMark hmark
    omega
  · rw [← Bool.not_eq_true, startsSyllable_iff]
    omega
  · rw [← Bool.not_eq_true, continuesSyllable_iff]
    omega
  · intro m
    rw [Option.eq_none_iff_forall_not_mem]
    intro result hresult
    exact hbase _ (mem_of_compose hresult) rfl

/-- Nothing is composed across the start of a text that is no mark and continues no syllable. -/
theorem nfc_append {before after : List Char} (hmark : after.head?.any isMark = false)
    (hjamo : ∀ d, after.head? = some d → continuesSyllable d = false) :
  nfc (before ++ after) = nfc before ++ nfc after
  := by
  have hnone : ∀ c d, after.head? = some d → composeHangul c d = none :=
    fun c d hd => composeHangul_eq_none_of_next (hjamo d hd)
  induction before using text_induction with
  | hnil => rw [List.nil_append, nfc, List.nil_append]
  | hmark c text hc ih => rw [List.cons_append, nfc_mark hc, nfc_mark hc, ih, List.cons_append]
  | hsyllable c jamo rest syllable h ih =>
      have hstops : Syllable c jamo (rest ++ after) syllable := by
        refine ⟨h.nonempty, h.composed, ?_⟩
        intro d hd
        rw [List.head?_append, Option.or_eq_some_iff] at hd
        rcases hd with hd | ⟨-, hd⟩
        · apply h.stops d hd
        · apply hnone _ d hd
      rw [List.cons_append, List.append_assoc, nfc_syllable hstops, nfc_syllable h, ih,
        List.cons_append]
  | hrun c marks rest h ih =>
      have hstops : MarkRun c marks (rest ++ after) := by
        refine ⟨h.starter, h.allMarks, ?_, ?_⟩
        · rw [List.head?_append]
          cases hhead : rest.head? with
          | none => exact hmark
          | some d =>
              have := h.stops
              rwa [hhead] at this
        · intro d hd
          rw [← List.append_assoc, List.head?_append, Option.or_eq_some_iff] at hd
          rcases hd with hd | ⟨-, hd⟩
          · apply h.separate d hd
          · apply hnone _ d hd
      rw [List.cons_append, List.append_assoc, nfc_markRun hstops, nfc_markRun h, ih,
        List.append_assoc]

/-- A separator before a text counts, though it may have the marks of the text sorted. -/
theorem length_nfc_cons (h : IsSeparator c) (text : List Char) :
  (nfc (c :: text)).length = (nfc text).length + 1
  := by
  have hmarks : ∀ m ∈ text.takeWhile isMark, isMark m = true := fun m hm => List.mem_takeWhile_imp hm
  have hrun : MarkRun c (text.takeWhile isMark) (text.dropWhile isMark) := by
    refine ⟨h.starter, hmarks, ?_, fun d _ => composeHangul_eq_none_of_base h.startsNone⟩
    have hstop := List.head?_dropWhile_not isMark text
    cases hhead : (text.dropWhile isMark).head? with
    | none => rfl
    | some d =>
        rw [hhead] at hstop
        exact hstop
  have hsplit := @List.takeWhile_append_dropWhile _ isMark text
  have hcons := nfc_markRun hrun
  have htext := nfc_marks_append hmarks (text.dropWhile isMark)
  rw [hsplit] at hcons htext
  rw [hcons, htext, composeMarks_of_none fun m _ => h.composesNone m, List.cons_append,
    List.length_cons, List.length_append, List.length_append, length_sortMarks]

theorem length_nfc_append_cons (h : IsSeparator c) (before after : List Char) :
  (nfc (before ++ c :: after)).length = (nfc before).length + 1 + (nfc after).length
  := by
  rw [nfc_append, List.length_append, length_nfc_cons h]
  · omega
  · exact h.starter
  · rintro d ⟨⟩
    exact h.continuesNone

/-- A normalized text is no longer than the text. -/
theorem length_nfc_le (text : List Char) :
  (nfc text).length ≤ text.length
  := by
  induction text using text_induction with
  | hnil => rw [nfc]
  | hmark c text hc ih =>
      rw [nfc_mark hc, List.length_cons, List.length_cons]
      omega
  | hsyllable c jamo after syllable h ih =>
      rw [nfc_syllable h, List.length_cons, List.length_cons, List.length_append]
      omega
  | hrun c marks after h ih =>
      have hsort := length_sortMarks marks
      rw [nfc_markRun h, List.cons_append, List.length_cons, List.length_cons, List.length_append,
        List.length_append]
      rcases composeMarks_cases c (sortMarks marks) with
        ⟨-, heq⟩ | ⟨before, m, others, composed, hsplit, -, -, heq⟩
      · rw [heq, hsort]
        omega
      · rw [heq]
        rw [hsplit, List.length_append, List.length_cons] at hsort
        rw [List.length_append]
        omega

/-- A composed syllable starts a syllable. -/
theorem Syllable.result_starts {jamo after : List Char} {syllable : Char}
    (h : Syllable c jamo after syllable) :
  startsSyllable syllable = true
  := by
  have hcomposed := h.composed
  rw [← List.dropLast_append_getLast h.nonempty, List.foldlM_append] at hcomposed
  obtain ⟨next, -, hnext⟩ := Option.bind_eq_some_iff.mp hcomposed
  rw [List.foldlM_cons] at hnext
  obtain ⟨last, hlast, heq⟩ := Option.bind_eq_some_iff.mp hnext
  cases heq
  rw [startsSyllable_iff]
  exact Or.inr (ranges_of_composeHangul hlast).2.2

/-- A separator that nothing is composed to is there as often in the normalized text. -/
theorem count_nfc {d : Char} (h : IsSeparator d) (hresult : ∀ entry ∈ compositions, entry.2.2 ≠ d)
    (text : List Char) :
  (nfc text).count d = text.count d
  := by
  have hmarks : ∀ marks : List Char, (∀ m ∈ marks, isMark m = true) → marks.count d = 0 := by
    intro marks hmarks
    rw [List.count_eq_zero]
    intro hmem
    have hmark := hmarks d hmem
    rw [h.starter] at hmark
    cases hmark
  induction text using text_induction with
  | hnil => rw [nfc]
  | hmark c text hc ih => rw [nfc_mark hc, List.count_cons, List.count_cons, ih]
  | hsyllable c jamo after syllable hseg ih =>
      have hc : c ≠ d := by
        rintro rfl
        exact absurd hseg.starts (by rw [h.startsNone]; exact Bool.false_ne_true)
      have hsyllable : syllable ≠ d := by
        rintro rfl
        exact absurd hseg.result_starts (by rw [h.startsNone]; exact Bool.false_ne_true)
      have hjamo : jamo.count d = 0 := by
        rw [List.count_eq_zero]
        intro hmem
        have hcontinues := continues_of_foldlM hseg.composed d hmem
        rw [h.continuesNone] at hcontinues
        cases hcontinues
      rw [nfc_syllable hseg, List.count_cons_of_ne hsyllable, List.count_cons_of_ne hc,
        List.count_append, hjamo, ih, Nat.zero_add]
  | hrun c marks after hseg ih =>
      have hperm : (sortMarks marks).Perm marks := List.perm_insertionSort _ marks
      have hsorted : ∀ m ∈ sortMarks marks, isMark m = true :=
        fun m hm => hseg.allMarks m (hperm.mem_iff.mp hm)
      rw [nfc_markRun hseg, List.cons_append, List.count_cons, List.count_cons, List.count_append,
        List.count_append, hmarks marks hseg.allMarks, ih]
      rcases composeMarks_cases c (sortMarks marks) with
        ⟨-, heq⟩ | ⟨before, m, others, composed, hsplit, -, hm, heq⟩
      · rw [heq, hmarks _ hsorted]
      · have hothers : ∀ m' ∈ before ++ others, isMark m' = true := by
          intro m' hm'
          apply hsorted
          rw [hsplit]
          rcases List.mem_append.mp hm' with hm' | hm'
          · apply List.mem_append_left _ hm'
          · apply List.mem_append_right _ (List.mem_cons_of_mem _ hm')
        have hcomposed : composed ≠ d := hresult _ (mem_of_compose hm)
        have hc : c ≠ d := by
          rintro rfl
          rw [h.composesNone m] at hm
          cases hm
        rw [heq, hmarks _ hothers, if_neg (by simpa using hcomposed), if_neg (by simpa using hc)]

/-! ### Line endings -/

theorem normalizeLineEndings_append {before after : List Char}
    (h : before.getLast? = some '\r' → after.head? ≠ some '\n') :
  normalizeLineEndings (before ++ after)
    = normalizeLineEndings before ++ normalizeLineEndings after
  := by
  induction before using normalizeLineEndings.induct with
  | case1 => rfl
  | case2 rest ih =>
      rw [List.cons_append, List.cons_append, normalizeLineEndings, normalizeLineEndings, ih,
        List.cons_append]
      intro hlast
      apply h
      rw [List.getLast?_cons_cons, List.getLast?_cons, hlast]
      rfl
  | case3 c rest hnext ih =>
      have hhead : c = '\r' → rest.head? ≠ some '\n' := by
        rintro rfl hhead
        obtain ⟨others, rfl⟩ := List.head?_eq_some_iff.mp hhead
        exact hnext others rfl rfl
      have hhead' : c = '\r' → (rest ++ after).head? ≠ some '\n' := by
        intro hc
        rcases eq_or_ne rest [] with rfl | hne
        · apply h
          rw [hc]
          rfl
        · rw [List.head?_append_of_ne_nil _ hne]
          apply hhead hc
      rw [List.cons_append, normalizeLineEndings_cons hhead', normalizeLineEndings_cons hhead, ih,
        List.cons_append]
      intro hlast
      apply h
      rw [List.getLast?_cons, hlast]
      rfl

theorem normalizeLineEndings_feed (text : List Char) :
  normalizeLineEndings ('\n' :: text) = '\n' :: normalizeLineEndings text
  := normalizeLineEndings_cons fun h => absurd h (by decide)

/-- A carriage return in front of a line feed is left out. -/
theorem normalizeLineEndings_concat (row : List Char) :
  normalizeLineEndings (row ++ ['\n']) = normalizeLineEndings (dropCr row) ++ ['\n']
  := by
  rcases Lines.dropCr_cases row with ⟨hlast, hdrop⟩ | hrow
  · rw [normalizeLineEndings_append fun h => absurd h hlast, hdrop]
    rfl
  · have heq : row ++ ['\n'] = dropCr row ++ ['\r', '\n'] := by
      conv => lhs; rw [hrow]
      rw [List.append_assoc, List.singleton_append]
    rw [heq, normalizeLineEndings_append]
    · rfl
    · simp

/-! ### Canonical texts -/

/-- The text without carriage returns, composed. -/
def canonicalText (text : List Char) : List Char :=
  nfc (normalizeLineEndings text)

/-- The number of scalars of a text, composed. -/
def canonicalSize (text : List Char) : ℕ :=
  (canonicalText text).length

theorem canonicalSize_eq (text : List Char) :
  canonicalSize text = (nfc (normalizeLineEndings text)).length
  := rfl

theorem length_normalizeLineEndings_le (text : List Char) :
  (normalizeLineEndings text).length ≤ text.length
  := by
  induction text using normalizeLineEndings.induct with
  | case1 => rfl
  | case2 rest ih =>
      rw [normalizeLineEndings]
      simp only [List.length_cons]
      omega
  | case3 c rest hnext ih =>
      rw [normalizeLineEndings.eq_3 _ _ hnext]
      simp only [List.length_cons]
      omega

theorem canonicalSize_le (text : List Char) :
  canonicalSize text ≤ text.length
  := (length_nfc_le _).trans (length_normalizeLineEndings_le text)

theorem canonicalSize_nil :
  canonicalSize [] = 0
  := by
  rw [canonicalSize_eq, normalizeLineEndings, nfc]
  rfl

/-- White space before a text makes the canonical text no shorter. -/
theorem canonicalSize_le_cons (h : isWhitespace c = true) (text : List Char) :
  canonicalSize text ≤ canonicalSize (c :: text)
  := by
  by_cases hend : c = '\r' ∧ text.head? = some '\n'
  · obtain ⟨rfl, hhead⟩ := hend
    obtain ⟨rest, rfl⟩ := List.head?_eq_some_iff.mp hhead
    rw [canonicalSize_eq, canonicalSize_eq, normalizeLineEndings_feed,
      normalizeLineEndings]
  · rw [not_and] at hend
    have hspace : IsSeparator (if c = '\r' then '\n' else c) := by
      apply isSeparator_of_isWhitespace
      split_ifs
      · rfl
      · exact h
    rw [canonicalSize_eq, canonicalSize_eq, normalizeLineEndings_cons hend,
      length_nfc_cons hspace]
    omega

/-- A separator that is no end of a line, and that nothing is composed to, is there as often in the
canonical text. -/
theorem count_canonicalText {d : Char} (h : IsSeparator d)
    (hresult : ∀ entry ∈ compositions, entry.2.2 ≠ d) (hreturn : d ≠ '\r') (hfeed : d ≠ '\n')
    (text : List Char) :
  (canonicalText text).count d = text.count d
  := by
  rw [canonicalText, count_nfc h hresult]
  induction text using normalizeLineEndings.induct with
  | case1 => rfl
  | case2 rest ih =>
      rw [normalizeLineEndings, List.count_cons_of_ne hfeed.symm, List.count_cons_of_ne hreturn.symm,
        List.count_cons_of_ne hfeed.symm, ih]
  | case3 c rest hnext ih =>
      rw [normalizeLineEndings.eq_3 _ _ hnext]
      split_ifs with hc
      · rw [hc, List.count_cons_of_ne hfeed.symm, List.count_cons_of_ne hreturn.symm, ih]
      · rw [List.count_cons, List.count_cons, ih]

theorem isSeparator_feed :
  IsSeparator '\n'
  := isSeparator_of_isWhitespace (by decide)

/-- The canonical text of a row, a line feed and a text. -/
theorem canonicalSize_row_append (row text : List Char) :
  canonicalSize (row ++ '\n' :: text) = canonicalSize (dropCr row) + 1 + canonicalSize text
  := by
  have hnormalize : normalizeLineEndings (row ++ '\n' :: text)
      = normalizeLineEndings (dropCr row) ++ '\n' :: normalizeLineEndings text := by
    rw [List.append_cons, normalizeLineEndings_append, normalizeLineEndings_concat,
      List.append_assoc, List.singleton_append]
    rw [List.getLast?_concat]
    exact fun h => absurd h (by decide)
  rw [canonicalSize_eq, hnormalize, length_nfc_append_cons isSeparator_feed]
  rfl

/-- White space after a text makes the canonical text no shorter. -/
theorem canonicalSize_le_concat (h : isWhitespace c = true) (text : List Char) :
  canonicalSize text ≤ canonicalSize (text ++ [c])
  := by
  by_cases hend : text.getLast? = some '\r' ∧ c = '\n'
  · obtain ⟨hlast, rfl⟩ := hend
    obtain ⟨row, rfl⟩ := List.getLast?_eq_some_iff.mp hlast
    have hreturn : canonicalSize (row ++ ['\r']) = canonicalSize row + 1 := by
      rw [canonicalSize_eq, normalizeLineEndings_append (by simp)]
      exact (length_nfc_append_cons isSeparator_feed _ []).trans (by rw [nfc]; rfl)
    rw [hreturn, canonicalSize_row_append, Lines.dropCr_concat]
    omega
  · have hspace : IsSeparator (if c = '\r' then '\n' else c) := by
      apply isSeparator_of_isWhitespace
      split_ifs
      · rfl
      · exact h
    have hone : normalizeLineEndings [c] = [if c = '\r' then '\n' else c] :=
      normalizeLineEndings_cons (by simp)
    rw [canonicalSize_eq, canonicalSize_eq, normalizeLineEndings_append,
      hone, length_nfc_append_cons hspace]
    · omega
    · intro hlast hhead
      exact hend ⟨hlast, Option.some.inj hhead⟩

/-- White space around a text makes the canonical text no shorter. -/
theorem canonicalSize_le_append {before after : List Char}
    (hbefore : ∀ c ∈ before, isWhitespace c = true) (hafter : ∀ c ∈ after, isWhitespace c = true)
    (text : List Char) :
  canonicalSize text ≤ canonicalSize (before ++ (text ++ after))
  := by
  have hright : canonicalSize text ≤ canonicalSize (text ++ after) := by
    induction after using List.reverseRecOn with
    | nil => rw [List.append_nil]
    | append_singleton after c ih =>
        rw [List.forall_mem_append, List.forall_mem_singleton] at hafter
        rw [← List.append_assoc]
        exact (ih hafter.1).trans (canonicalSize_le_concat hafter.2 _)
  induction before with
  | nil => exact hright
  | cons c before ih =>
      rw [List.forall_mem_cons] at hbefore
      exact (ih hbefore.2).trans (canonicalSize_le_cons hbefore.1 _)

theorem canonicalSize_trim_le (text : List Char) :
  canonicalSize (trim text) ≤ canonicalSize text
  := by
  obtain ⟨before, after, hsplit, hbefore, hafter, -, -⟩ := trim_split text
  calc canonicalSize (trim text)
      ≤ canonicalSize (before ++ (trim text ++ after)) := canonicalSize_le_append hbefore hafter _
    _ = canonicalSize text := by rw [← hsplit]

theorem canonicalSize_dropCr_le (row : List Char) :
  canonicalSize (dropCr row) ≤ canonicalSize row
  := by
  rcases Lines.dropCr_cases row with ⟨-, hdrop⟩ | hrow
  · rw [hdrop]
  · conv => rhs; rw [hrow]
    apply canonicalSize_le_concat (by decide)

/-! ### Rows -/

theorem canonicalSize_unlines_cons (row : List Char) (rows : List (List Char)) :
  canonicalSize (unlines (row :: rows)) = canonicalSize (dropCr row) + 1 + canonicalSize (unlines rows)
  := by rw [Lines.unlines_cons, canonicalSize_row_append]

/-- With fewer rows the canonical text is no longer. -/
theorem canonicalSize_unlines_le {rows others : List (List Char)} (h : rows.Sublist others) :
  canonicalSize (unlines rows) ≤ canonicalSize (unlines others)
  := by
  induction h with
  | slnil => rfl
  | cons row h ih =>
      rw [canonicalSize_unlines_cons]
      omega
  | cons_cons row h ih =>
      rw [canonicalSize_unlines_cons, canonicalSize_unlines_cons]
      omega

theorem canonicalSize_unlines_map_dropCr_le (rows : List (List Char)) :
  canonicalSize (unlines (rows.map dropCr)) ≤ canonicalSize (unlines rows)
  := by
  induction rows with
  | nil => rfl
  | cons row rows ih =>
      have hdrop := canonicalSize_dropCr_le (dropCr row)
      rw [List.map_cons, canonicalSize_unlines_cons, canonicalSize_unlines_cons]
      omega

/-- The line feed after the last row counts, but for a carriage return in front of it. -/
theorem canonicalSize_unlines_eq {rows : List (List Char)} (h : rows ≠ []) :
  canonicalSize (unlines rows) = canonicalSize (dropCr (joinRows rows)) + 1
  := by rw [Lines.unlines_eq_joinRows h, canonicalSize_row_append, canonicalSize_nil]

theorem canonicalSize_trim_joinRows_lt {rows : List (List Char)} (h : rows ≠ []) :
  canonicalSize (trim (joinRows rows)) < canonicalSize (unlines rows)
  := by
  have htrim : trim (dropCr (joinRows rows)) = trim (joinRows rows) := by
    rcases Lines.dropCr_cases (joinRows rows) with ⟨-, hdrop⟩ | hjoin
    · rw [hdrop]
    · conv => rhs; rw [hjoin]
      exact (@trim_append [] ['\r'] nofun (by decide) _).symm
  rw [canonicalSize_unlines_eq h, ← htrim]
  exact Nat.lt_succ_of_le (canonicalSize_trim_le _)

/-- The rows of a part make a text no longer than the part. -/
theorem canonicalSize_le_of_hasRows {part : List Char} {stretch : List (List Char)}
    (h : Lines.HasRows part stretch) :
  canonicalSize (joinRows stretch) ≤ canonicalSize part
  := by
  obtain ⟨before, after, rfl, hbefore, hafter⟩ := h.exists_split
  apply canonicalSize_le_append
  · exact Lines.whitespace_of_feeds hbefore
  · exact Lines.whitespace_of_feeds hafter

/-- A row makes a text no longer than the text with the row. -/
theorem canonicalSize_le_of_mem {rows : List (List Char)} {row : List Char} (h : row ∈ rows) :
  canonicalSize row ≤ canonicalSize (joinRows rows)
  := by
  induction rows with
  | nil => cases h
  | cons first others ih =>
      rcases eq_or_ne others [] with rfl | hne
      · rw [List.mem_singleton.mp h, joinRows, List.intercalate_singleton]
      · rw [Lines.joinRows_cons hne, canonicalSize_row_append]
        rcases List.mem_cons.mp h with rfl | h
        · have hrow : canonicalSize row ≤ canonicalSize (row ++ ['\n']) :=
            canonicalSize_le_concat (by decide) row
          rw [canonicalSize_row_append, canonicalSize_nil] at hrow
          omega
        · have := ih h
          omega

end Inference
