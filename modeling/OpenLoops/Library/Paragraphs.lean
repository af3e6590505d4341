import OpenLoops.Library.Fallible
import OpenLoops.Library.Lines

/-!
# Paragraphs

Blank lines part a text to paragraphs.  The parts between two line feeds are the stretches of rows
that are not empty, with line feeds around them that trimming takes away.
-/

namespace Lines

/-! ### Parts -/

/-- The parts between the line feeds that follow each other, after the part there is so far. -/
def splitBlankFrom : List Char → List Char → List (List Char)
  | part, [] => [part]
  | part, '\n' :: '\n' :: text => part :: splitBlankFrom [] text
  | part, c :: text => splitBlankFrom (part ++ [c]) text

/-- The parts of a text between blank lines. -/
def splitBlank (text : List Char) : List (List Char) :=
  splitBlankFrom [] text

/-- The stretches of rows between empty ones. -/
def runs (rows : List (List Char)) : List (List (List Char)) :=
  rows.splitOnP (· = [])

/-- The part of a text is the rows, and line feeds around them. -/
structure HasRows (part : List Char) (stretch : List (List Char)) : Prop where
  exists_split : ∃ before after, part = before ++ (joinRows stretch ++ after)
    ∧ (∀ c ∈ before, c = '\n') ∧ ∀ c ∈ after, c = '\n'

/-- The rows with one more, which counts when it is not empty. -/
def addRow (stretch : List (List Char)) (row : List Char) : List (List Char) :=
  if row = [] then stretch else stretch ++ [row]

section

variable {stretch : List (List Char)} {row : List Char}

theorem hasRows_addRow {before : List Char} (h : ∀ c ∈ before, c = '\n') :
  HasRows (before ++ (unlines stretch ++ row)) (addRow stretch row)
  := by
  rw [addRow]
  split_ifs with hrow
  · rw [hrow, List.append_nil]
    rcases eq_or_ne stretch [] with rfl | hne
    · exact ⟨before, [], rfl, h, nofun⟩
    · refine ⟨before, ['\n'], ?_, h, ?_⟩
      · rw [unlines_eq_joinRows hne]
      · simp
  · refine ⟨before, [], ?_, h, nofun⟩
    have hjoin := @unlines_eq_joinRows (stretch ++ [row]) (by simp)
    have hconcat : unlines (stretch ++ [row]) = unlines stretch ++ row ++ ['\n'] := by
      rw [unlines_append, List.append_assoc]
      simp [unlines]
    rw [hconcat] at hjoin
    rw [List.append_nil, ← List.append_cancel_right hjoin]

theorem runs_of_nonempty (h : [] ∉ stretch) :
  runs stretch = [stretch]
  := by
  apply List.splitOnP_eq_singleton
  intro row hrow
  rw [decide_eq_false_iff_not]
  rintro rfl
  exact h hrow

theorem runs_append_nil (above below : List (List Char)) :
  runs (above ++ [] :: below) = runs above ++ runs below
  := List.splitOnP_append_cons _ _ (decide_eq_true rfl)

theorem nil_not_mem_addRow (h : [] ∉ stretch) :
  [] ∉ addRow stretch row
  := by
  rw [addRow]
  split_ifs with hrow
  · exact h
  · rw [List.mem_append, List.mem_singleton]
    rintro (hmem | hmem)
    · exact h hmem
    · exact hrow hmem.symm

theorem filter_runs_addRow (h : [] ∉ stretch) :
  (runs (stretch ++ [row])).filter (· ≠ []) = [addRow stretch row].filter (· ≠ [])
  := by
  rcases eq_or_ne row [] with rfl | hne
  · rw [runs_append_nil, runs_of_nonempty h, addRow, if_pos rfl, List.filter_append]
    exact List.append_nil _
  · rw [addRow, if_neg hne, runs_of_nonempty]
    have hadd := @nil_not_mem_addRow stretch row h
    rwa [addRow, if_neg hne] at hadd

end

/-- The parts that are found after a part so far are the stretches of the rows that it has, and of
the rows of the text. -/
theorem exists_runs_splitBlankFrom (part text : List Char) {before row : List Char}
    {stretch : List (List Char)} (hpart : part = before ++ (unlines stretch ++ row))
    (hbefore : ∀ c ∈ before, c = '\n') (hstretch : [] ∉ stretch) (hrow : '\n' ∉ row)
    (hfresh : row = [] → text.head? = some '\n' → before = [] ∧ stretch = []) :
  ∃ stretches, List.Forall₂ HasRows (splitBlankFrom part text) stretches
    ∧ stretches.filter (· ≠ []) = (runs (stretch ++ rows (row ++ text))).filter (· ≠ [])
  := by
  induction part, text using splitBlankFrom.induct generalizing before row stretch with
  | case1 part =>
      refine ⟨[addRow stretch row], ?_, ?_⟩
      · rw [splitBlankFrom, hpart]
        exact List.Forall₂.cons (hasRows_addRow hbefore) List.Forall₂.nil
      · rw [List.append_nil, rows_row hrow, filter_runs_addRow hstretch]
  | case2 part text ih =>
      obtain ⟨stretches, hparts, heq⟩ := @ih [] [] [] rfl nofun List.not_mem_nil List.not_mem_nil
        fun _ _ => ⟨rfl, rfl⟩
      refine ⟨addRow stretch row :: stretches, ?_, ?_⟩
      · rw [splitBlankFrom, hpart]
        exact List.Forall₂.cons (hasRows_addRow hbefore) hparts
      · have hrows : rows (row ++ '\n' :: '\n' :: text) = row :: [] :: rows text := by
          rw [rows_cons hrow]
          exact congrArg _ (@rows_cons [] List.not_mem_nil text)
        rw [hrows, List.append_cons, runs_append_nil, List.filter_append,
          filter_runs_addRow hstretch, ← List.singleton_append, List.filter_append, heq]
        rfl
  | case3 part c text hnext ih =>
      rw [splitBlankFrom.eq_3 _ _ _ hnext]
      by_cases hc : c = '\n'
      · subst hc
        have hhead : text.head? ≠ some '\n' := by
          intro hhead
          obtain ⟨rest, rfl⟩ := List.head?_eq_some_iff.mp hhead
          exact hnext rest rfl rfl
        rw [rows_cons hrow]
        rcases eq_or_ne row [] with rfl | hne
        · obtain ⟨rfl, rfl⟩ := hfresh rfl rfl
          subst hpart
          obtain ⟨stretches, hparts, heq⟩ := @ih ['\n'] [] [] rfl (by simp) List.not_mem_nil
            List.not_mem_nil fun _ h => absurd h hhead
          refine ⟨stretches, hparts, heq.trans ?_⟩
          have hruns := runs_append_nil [] (rows text)
          rw [List.nil_append] at hruns
          rw [List.nil_append, List.nil_append, List.nil_append, hruns]
          rfl
        · have hadd := @nil_not_mem_addRow stretch row hstretch
          rw [addRow, if_neg hne] at hadd
          have hpart' : part ++ ['\n'] = before ++ (unlines (stretch ++ [row]) ++ []) := by
            rw [hpart, unlines_append]
            simp [unlines]
          obtain ⟨stretches, hparts, heq⟩ := @ih before [] (stretch ++ [row]) hpart' hbefore hadd
            List.not_mem_nil fun _ h => absurd h hhead
          refine ⟨stretches, hparts, heq.trans ?_⟩
          rw [List.nil_append, List.append_assoc, List.singleton_append]
      · have hpart' : part ++ [c] = before ++ (unlines stretch ++ (row ++ [c])) := by
          rw [hpart]
          simp
        have hrow' : '\n' ∉ row ++ [c] := by
          rw [List.mem_append, List.mem_singleton]
          rintro (hmem | hmem)
          · exact hrow hmem
          · exact hc hmem.symm
        obtain ⟨stretches, hparts, heq⟩ := @ih before (row ++ [c]) stretch hpart' hbefore hstretch
          hrow' fun h => absurd h (by simp)
        refine ⟨stretches, hparts, heq.trans ?_⟩
        rw [List.append_assoc, List.singleton_append]

/-- The parts of a text are the stretches of its rows, and line feeds. -/
theorem exists_runs_splitBlank (text : List Char) :
  ∃ stretches, List.Forall₂ HasRows (splitBlank text) stretches
    ∧ stretches.filter (· ≠ []) = (runs (rows text)).filter (· ≠ [])
  := @exists_runs_splitBlankFrom [] text [] [] [] rfl nofun List.not_mem_nil List.not_mem_nil
    fun _ _ => ⟨rfl, rfl⟩

/-- A part of a text is a stretch of its rows, or line feeds. -/
theorem exists_of_mem_splitBlank {text part : List Char} (h : part ∈ splitBlank text) :
  ∃ stretch, HasRows part stretch ∧ (stretch = [] ∨ stretch ∈ runs (rows text))
  := by
  obtain ⟨stretches, hparts, heq⟩ := exists_runs_splitBlank text
  obtain ⟨stretch, hmem, hhas⟩ := hparts.flip.exists_mem_left h
  refine ⟨stretch, hhas, ?_⟩
  rcases eq_or_ne stretch [] with hnil | hne
  · exact Or.inl hnil
  · right
    have hfilter : stretch ∈ stretches.filter (· ≠ []) :=
      List.mem_filter.mpr ⟨hmem, decide_eq_true hne⟩
    rw [heq] at hfilter
    exact List.mem_of_mem_filter hfilter

/-- Each stretch of the rows of a text is in one of its parts. -/
theorem exists_mem_splitBlank {text : List Char} {stretch : List (List Char)}
    (h : stretch ∈ runs (rows text)) (hne : stretch ≠ []) :
  ∃ part ∈ splitBlank text, HasRows part stretch
  := by
  obtain ⟨stretches, hparts, heq⟩ := exists_runs_splitBlank text
  have hfilter : stretch ∈ (runs (rows text)).filter (· ≠ []) :=
    List.mem_filter.mpr ⟨h, decide_eq_true hne⟩
  rw [← heq] at hfilter
  obtain ⟨part, hmem, hhas⟩ := hparts.exists_mem_left (List.mem_of_mem_filter hfilter)
  exact ⟨part, hmem, hhas⟩

/-! ### Stretches -/

/-- Between empty rows stand rows that are not empty. -/
theorem of_mem_runs {rs run : List (List Char)} (h : run ∈ runs rs) :
  run <:+: rs ∧ [] ∉ run
  := by
  induction rs using separated_induction ([] : List Char) with
  | hlast rs hnot =>
      rw [runs_of_nonempty hnot, List.mem_singleton] at h
      rw [h]
      exact ⟨List.infix_rfl, hnot⟩
  | hcons above rs hnot ih =>
      rw [runs_append_nil, runs_of_nonempty hnot, List.singleton_append, List.mem_cons] at h
      rcases h with rfl | h
      · exact ⟨(List.prefix_append _ _).isInfix, hnot⟩
      · obtain ⟨hwithin, hnonempty⟩ := ih h
        refine ⟨hwithin.trans ?_, hnonempty⟩
        rw [List.append_cons]
        exact (List.suffix_append _ rs).isInfix

/-- Rows that follow each other and are not empty are of one stretch. -/
theorem exists_mem_runs {rs stretch : List (List Char)} (h : stretch <:+: rs) (hne : stretch ≠ [])
    (hnonempty : [] ∉ stretch) :
  ∃ run ∈ runs rs, run ≠ [] ∧ stretch <:+: run
  := by
  obtain ⟨above, below, rfl⟩ := h
  induction above using separated_induction ([] : List Char) with
  | hlast above hnot =>
      have hstart : [] ∉ above ++ stretch := by
        rw [List.mem_append]
        exact fun hmem => hmem.elim hnot hnonempty
      have hstart_ne : above ++ stretch ≠ [] := by simp [hne]
      by_cases hbelow : [] ∈ below
      · obtain ⟨others, rest, rfl, hothers⟩ := List.eq_append_cons_of_mem hbelow
        refine ⟨above ++ stretch ++ others, ?_, by simp [hne], ⟨above, others, rfl⟩⟩
        rw [← List.append_assoc, runs_append_nil, runs_of_nonempty, List.singleton_append]
        · apply List.mem_cons_self
        · rw [List.mem_append]
          exact fun hmem => hmem.elim hstart hothers
      · refine ⟨above ++ stretch ++ below, ?_, by simp [hne], ⟨above, below, rfl⟩⟩
        rw [runs_of_nonempty, List.mem_singleton]
        rw [List.mem_append]
        exact fun hmem => hmem.elim hstart hbelow
  | hcons first above hnot ih =>
      obtain ⟨run, hrun, hrun_ne, hwithin⟩ := ih
      refine ⟨run, ?_, hrun_ne, hwithin⟩
      rw [List.append_assoc, List.append_assoc, List.cons_append, runs_append_nil,
        ← List.append_assoc]
      apply List.mem_append_right _ hrun

/-- Rows of a text that follow each other and are not empty stand in one of its parts. -/
theorem exists_part_of_infix {text : List Char} {stretch : List (List Char)}
    (h : stretch <:+: rows text) (hne : stretch ≠ []) (hnonempty : [] ∉ stretch) :
  ∃ part ∈ splitBlank text, ∃ run, HasRows part run ∧ stretch <:+: run
  := by
  obtain ⟨run, hrun, hrun_ne, hwithin⟩ := exists_mem_runs h hne hnonempty
  obtain ⟨part, hpart, hhas⟩ := exists_mem_splitBlank hrun hrun_ne
  exact ⟨part, hpart, run, hhas, hwithin⟩

/-- The rows of a part of a text follow each other in the text, and are not empty. -/
theorem exists_infix_of_part {text part : List Char} (h : part ∈ splitBlank text) :
  ∃ stretch, HasRows part stretch ∧ stretch <:+: rows text ∧ [] ∉ stretch
  := by
  obtain ⟨stretch, hhas, hnil | hrun⟩ := exists_of_mem_splitBlank h
  · rw [hnil] at hhas
    exact ⟨[], hhas, List.nil_infix, List.not_mem_nil⟩
  · exact ⟨stretch, hhas, of_mem_runs hrun⟩

/-! ### Paragraphs -/

/-- The paragraphs of a text: its parts without white space around them, when something is left. -/
def paragraphs (text : List Char) : List (List Char) :=
  ((splitBlank text).map trim).filter (· ≠ [])

/-- The paragraphs as one text. -/
def joinParagraphs (paragraphs : List (List Char)) : List Char :=
  ['\n', '\n'].intercalate paragraphs

theorem joinParagraphs_cons {paragraph : List Char} {others : List (List Char)} (h : others ≠ []) :
  joinParagraphs (paragraph :: others) = paragraph ++ '\n' :: '\n' :: joinParagraphs others
  := by
  obtain ⟨next, rest, rfl⟩ := List.exists_cons_of_ne_nil h
  rw [joinParagraphs, List.intercalate_cons_cons]
  simp [joinParagraphs]

theorem splitBlankFrom_ne_nil (part text : List Char) :
  splitBlankFrom part text ≠ []
  := by
  induction part, text using splitBlankFrom.induct with
  | case1 part => exact List.cons_ne_nil _ _
  | case2 part text ih => exact List.cons_ne_nil _ _
  | case3 part c text hnext ih => rwa [splitBlankFrom.eq_3 _ _ _ hnext]

theorem nil_not_mem_paragraphs (text : List Char) :
  [] ∉ paragraphs text
  := by
  intro hmem
  exact of_decide_eq_true (List.mem_filter.mp hmem).2 rfl

/-- The parts of a text are the text with blank lines between them. -/
theorem joinParagraphs_splitBlankFrom (part text : List Char) :
  joinParagraphs (splitBlankFrom part text) = part ++ text
  := by
  induction part, text using splitBlankFrom.induct with
  | case1 part => rw [splitBlankFrom, joinParagraphs, List.intercalate_singleton, List.append_nil]
  | case2 part text ih =>
      rw [splitBlankFrom, joinParagraphs_cons (splitBlankFrom_ne_nil _ _), ih, List.nil_append]
  | case3 part c text hnext ih => rw [splitBlankFrom.eq_3 _ _ _ hnext, ih, ← List.append_cons]

theorem joinParagraphs_splitBlank (text : List Char) :
  joinParagraphs (splitBlank text) = text
  := joinParagraphs_splitBlankFrom [] text

/-- Trimming takes white space only. -/
theorem filter_trim {p : Char → Bool} (hp : ∀ c, isWhitespace c = true → p c = false)
    (text : List Char) :
  (trim text).filter p = text.filter p
  := by
  obtain ⟨before, after, hsplit, hbefore, hafter, -, -⟩ := trim_split text
  have hnone : ∀ spaces : List Char, (∀ c ∈ spaces, isWhitespace c = true) →
      spaces.filter p = [] := by
    intro spaces hspaces
    rw [List.filter_eq_nil_iff]
    intro c hc
    rw [hp c (hspaces c hc)]
    exact Bool.false_ne_true
  conv => rhs; rw [hsplit]
  rw [List.filter_append, List.filter_append, hnone before hbefore, hnone after hafter,
    List.nil_append, List.append_nil]

/-- Between joined paragraphs stand line feeds only. -/
theorem filter_joinParagraphs {p : Char → Bool} (hp : p '\n' = false)
    (paragraphs : List (List Char)) :
  (joinParagraphs paragraphs).filter p = paragraphs.flatten.filter p
  := by
  have hfeed : p '\n' ≠ true := by
    rw [hp]
    exact Bool.false_ne_true
  induction paragraphs with
  | nil => rfl
  | cons paragraph others ih =>
      rcases eq_or_ne others [] with rfl | hne
      · rw [joinParagraphs, List.intercalate_singleton, List.flatten_singleton]
      · rw [joinParagraphs_cons hne, List.filter_append, List.filter_cons_of_neg hfeed,
          List.filter_cons_of_neg hfeed, ih, List.flatten_cons, List.filter_append]

/-- Between the parts stand line feeds only. -/
theorem filter_splitBlankFrom {p : Char → Bool} (hp : p '\n' = false) (part text : List Char) :
  ((splitBlankFrom part text).flatten).filter p = (part ++ text).filter p
  := by
  induction part, text using splitBlankFrom.induct with
  | case1 part => rw [splitBlankFrom, List.flatten_singleton, List.append_nil]
  | case2 part text ih =>
      have hfeed : p '\n' ≠ true := by rw [hp]; exact Bool.false_ne_true
      rw [splitBlankFrom, List.flatten_cons, List.filter_append, ih, List.nil_append,
        List.filter_append, List.filter_cons_of_neg hfeed, List.filter_cons_of_neg hfeed]
  | case3 part c text hnext ih =>
      rw [splitBlankFrom.eq_3 _ _ _ hnext, ih, ← List.append_cons]

/-- The paragraphs of a text have its characters, without white space. -/
theorem filter_paragraphs {p : Char → Bool} (hp : ∀ c, isWhitespace c = true → p c = false)
    (text : List Char) :
  ((paragraphs text).flatten).filter p = text.filter p
  := by
  have hflatten : ∀ parts : List (List Char), ((parts.map trim).filter (· ≠ [])).flatten.filter p
      = parts.flatten.filter p := by
    intro parts
    induction parts with
    | nil => rfl
    | cons part parts ih =>
        rw [List.map_cons, List.flatten_cons, List.filter_append, ← ih, ← filter_trim hp part]
        by_cases htrim : trim part = []
        · rw [List.filter_cons_of_neg (by simp [htrim]), htrim]
          rfl
        · rw [List.filter_cons_of_pos (by simp [htrim]), List.flatten_cons, List.filter_append]
  rw [paragraphs, hflatten, splitBlank, filter_splitBlankFrom (hp _ (by decide)), List.nil_append]

theorem whitespace_of_feeds {feeds : List Char} (h : ∀ c ∈ feeds, c = '\n') :
  ∀ c ∈ feeds, isWhitespace c = true
  := by
  intro c hc
  rw [h c hc]
  rfl

/-- Trimmed, a part is its rows. -/
theorem HasRows.trim_eq {part : List Char} {stretch : List (List Char)} (h : HasRows part stretch) :
  trim part = trim (joinRows stretch)
  := by
  obtain ⟨before, after, rfl, hbefore, hafter⟩ := h.exists_split
  exact trim_append (whitespace_of_feeds hbefore) (whitespace_of_feeds hafter) _

/-- Rows that follow each other and are not empty are no empty row at the end. -/
theorem infix_of_infix_concat {stretch rs : List (List Char)} (h : stretch <:+: rs ++ [[]])
    (hnonempty : [] ∉ stretch) :
  stretch <:+: rs
  := by
  rcases List.infix_concat_iff.mp h with hsuffix | hwithin
  · rcases List.eq_nil_or_concat stretch with rfl | ⟨others, last, rfl⟩
    · exact List.nil_infix
    · rw [List.concat_eq_append] at hsuffix hnonempty
      obtain ⟨front, heq⟩ := hsuffix
      rw [← List.append_assoc] at heq
      have hlast := (List.append_inj' heq rfl).2
      rw [hlast] at hnonempty
      exact absurd (List.mem_append_right _ (List.mem_singleton_self _)) hnonempty
  · exact hwithin

/-- A part of a text stands between line feeds. -/
theorem exists_split_of_mem_splitBlank {text part : List Char} (h : part ∈ splitBlank text) :
  ∃ before after, text = before ++ (part ++ after) ∧ (∀ c, before.getLast? = some c → c = '\n')
    ∧ ∀ c, after.head? = some c → c = '\n'
  := by
  have hsplit : ∀ parts : List (List Char), part ∈ parts →
      ∃ before after, joinParagraphs parts = before ++ (part ++ after)
        ∧ (∀ c, before.getLast? = some c → c = '\n') ∧ ∀ c, after.head? = some c → c = '\n' := by
    intro parts hmem
    induction parts with
    | nil => cases hmem
    | cons first others ih =>
        rcases eq_or_ne others [] with rfl | hne
        · rw [List.mem_singleton] at hmem
          rw [hmem, joinParagraphs, List.intercalate_singleton]
          exact ⟨[], [], by rw [List.append_nil, List.nil_append], nofun, nofun⟩
        · rw [joinParagraphs_cons hne]
          rcases List.mem_cons.mp hmem with rfl | hmem
          · refine ⟨[], '\n' :: '\n' :: joinParagraphs others, rfl, nofun, ?_⟩
            rintro c ⟨⟩
            rfl
          · obtain ⟨before, after, hjoin, hbefore, hafter⟩ := ih hmem
            refine ⟨first ++ '\n' :: '\n' :: before, after, by simp [hjoin], ?_, hafter⟩
            intro c hc
            rw [List.getLast?_append, List.getLast?_cons_cons, List.getLast?_cons, Option.some_or,
              Option.some_inj] at hc
            rw [← hc]
            cases hlast : before.getLast? with
            | none => rfl
            | some d => exact hbefore d hlast
  obtain ⟨before, after, hjoin, hends⟩ := hsplit _ h
  rw [joinParagraphs_splitBlank] at hjoin
  exact ⟨before, after, hjoin, hends⟩

theorem mem_of_mem_trim {text : List Char} {c : Char} (h : c ∈ trim text) :
  c ∈ text
  := by
  obtain ⟨before, after, hsplit, -, -, -, -⟩ := trim_split text
  rw [hsplit]
  exact List.mem_append_right _ (List.mem_append_left _ h)

theorem mem_of_mem_paragraphs {text paragraph : List Char} (h : paragraph ∈ paragraphs text)
    {c : Char} (hc : c ∈ paragraph) :
  c ∈ text
  := by
  obtain ⟨part, hpart, rfl⟩ := List.mem_map.mp (List.mem_of_mem_filter h)
  obtain ⟨before, after, rfl, -, -⟩ := exists_split_of_mem_splitBlank hpart
  exact List.mem_append_right _ (List.mem_append_left _ (mem_of_mem_trim hc))

/-- What stands right before a row, and has no line feed, is white space. -/
theorem whitespace_of_suffix {before spaces above first : List Char}
    (hbefore : ∀ c, before.getLast? = some c → c = '\n')
    (hspaces : ∀ c ∈ spaces, isWhitespace c = true)
    (habove : ∀ c, above.getLast? = some c → c = '\n')
    (hsuffix : first <:+ before ++ (spaces ++ above)) (hfirst : '\n' ∉ first) :
  ∀ c ∈ first, isWhitespace c = true
  := by
  -- a suffix without line feeds of a text that ends with one is empty
  have hnil : ∀ text : List Char, (∀ c, text.getLast? = some c → c = '\n') →
      ∀ start, start <:+ text → '\n' ∉ start → start = [] := by
    intro text htext start hstart hnot
    rcases List.eq_nil_or_concat start with hstart_nil | ⟨start, c, rfl⟩
    · exact hstart_nil
    · rw [List.concat_eq_append] at hstart hnot
      obtain ⟨others, rfl⟩ := hstart
      have hc := htext c (by rw [← List.append_assoc, List.getLast?_concat])
      rw [hc] at hnot
      exact absurd (List.mem_append_right _ (List.mem_singleton_self _)) hnot
  rcases List.eq_nil_or_concat above with rfl | ⟨above, last, rfl⟩
  · rw [List.append_nil] at hsuffix
    obtain ⟨others, heq⟩ := hsuffix
    rcases List.append_eq_append_iff.mp heq with ⟨between, hbetween, rfl⟩ | ⟨between, -, rfl⟩
    · have hbetween_nil : between = [] := by
        apply hnil before hbefore between ⟨others, hbetween.symm⟩
        exact fun hmem => hfirst (List.mem_append_left _ hmem)
      rw [hbetween_nil]
      exact hspaces
    · exact fun c hc => hspaces c (List.mem_append_right _ hc)
  · rw [List.concat_eq_append] at habove hsuffix
    have hfirst_nil : first = [] := by
      apply hnil _ ?_ first hsuffix hfirst
      intro c hc
      apply habove
      rw [← List.append_assoc, ← List.append_assoc, List.getLast?_concat] at hc
      rwa [List.getLast?_concat]
    rw [hfirst_nil]
    nofun

/-- What stands right after a row, and has no line feed, is white space. -/
theorem whitespace_of_prefix {below spaces after last : List Char}
    (hbelow : ∀ c, below.head? = some c → c = '\n')
    (hspaces : ∀ c ∈ spaces, isWhitespace c = true)
    (hafter : ∀ c, after.head? = some c → c = '\n')
    (hstart : last <+: below ++ (spaces ++ after)) (hlast : '\n' ∉ last) :
  ∀ c ∈ last, isWhitespace c = true
  := by
  have hreverse := @whitespace_of_suffix after.reverse spaces.reverse below.reverse last.reverse
  rw [List.getLast?_reverse, List.getLast?_reverse, List.mem_reverse] at hreverse
  intro c hc
  apply hreverse hafter ?_ hbelow ?_ hlast c (List.mem_reverse.mpr hc)
  · exact fun d hd => hspaces d (List.mem_reverse.mp hd)
  · rw [← List.reverse_prefix, List.reverse_reverse]
    simpa using hstart

/-- A row of a paragraph is a row of the text, without white space around it. -/
theorem exists_row_of_mem_paragraphs {text paragraph row : List Char}
    (hparagraph : paragraph ∈ paragraphs text) (hrow : row ∈ rows paragraph) :
  ∃ first last, first ++ (row ++ last) ∈ rows text ∧ (∀ c ∈ first, isWhitespace c = true)
    ∧ ∀ c ∈ last, isWhitespace c = true
  := by
  obtain ⟨part, hpart, rfl⟩ := List.mem_map.mp (List.mem_of_mem_filter hparagraph)
  obtain ⟨before, after, rfl, hbefore, hafter⟩ := exists_split_of_mem_splitBlank hpart
  obtain ⟨front, back, hsplit, hfront, hback, -, -⟩ := trim_split part
  obtain ⟨above, below, htrim, habove, hbelow⟩ := exists_split_of_mem_rows hrow
  have heq : before ++ (part ++ after)
      = (before ++ (front ++ above)) ++ (row ++ (below ++ (back ++ after))) := by
    conv => lhs; rw [hsplit, htrim]
    simp only [List.append_assoc]
  obtain ⟨first, last, hmem, hfirst, hsuffix, hlast, hstart⟩ :=
    @exists_mem_rows (before ++ (front ++ above)) row (below ++ (back ++ after))
      (not_mem_of_mem_rows hrow)
  rw [heq]
  refine ⟨first, last, hmem, ?_, ?_⟩
  · apply whitespace_of_suffix hbefore hfront habove hsuffix hfirst
  · apply whitespace_of_prefix hbelow hback hafter hstart hlast

end Lines
