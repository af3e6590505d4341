import OpenLoops.Library.Text

/-!
# Lines

Line feeds part a text to rows.  The lines of a text are its rows without the carriage returns in
front of line feeds, and a last row counts when it is not empty.
-/

namespace Lines

/-! ### Rows -/

/-- The rows of a text. -/
def rows (text : List Char) : List (List Char) :=
  text.splitOn '\n'

/-- The text with the rows. -/
def joinRows (rows : List (List Char)) : List Char :=
  ['\n'].intercalate rows

/-- The text with the rows, each of which has a line feed after it. -/
def unlines (rows : List (List Char)) : List Char :=
  rows.flatMap (· ++ ['\n'])

/-- The row without the carriage return at its end. -/
def dropCr (row : List Char) : List Char :=
  if row.getLast? = some '\r' then row.dropLast else row

/-- The text with line feeds for carriage returns with line feeds. -/
def replaceCrLf : List Char → List Char
  | [] => []
  | '\r' :: '\n' :: rest => '\n' :: replaceCrLf rest
  | c :: rest => c :: replaceCrLf rest

/-- The lines of a text. -/
def lines (text : List Char) : List (List Char) :=
  let last := (rows text).getLastD []
  (rows text).dropLast.map dropCr ++ if last = [] then [] else [last]

/-- A list has no separator, or it is a list without one, a separator and a list. -/
theorem separated_induction {α : Type*} [DecidableEq α] (separator : α) {P : List α → Prop}
    (hlast : ∀ part, separator ∉ part → P part)
    (hcons : ∀ part list, separator ∉ part → P list → P (part ++ separator :: list))
    (list : List α) :
  P list
  := by
  induction hlength : list.length using Nat.strong_induction_on generalizing list with
  | h n ih =>
      subst hlength
      by_cases hmem : separator ∈ list
      · obtain ⟨part, rest, rfl, hnot⟩ := List.eq_append_cons_of_mem hmem
        apply hcons part rest hnot
        apply ih rest.length _ rest rfl
        rw [List.length_append, List.length_cons]
        omega
      · apply hlast list hmem

theorem notMem_of_mem_splitOn {α : Type*} [DecidableEq α] {separator : α} {list part : List α}
    (h : part ∈ list.splitOn separator) :
  separator ∉ part
  := by
  induction list using separated_induction separator with
  | hlast part' hnot =>
      rw [List.splitOn_eq_singleton hnot, List.mem_singleton] at h
      rwa [h]
  | hcons part' list hnot ih =>
      rw [List.splitOn_append_cons_self_of_not_mem hnot] at h
      rcases List.mem_cons.mp h with rfl | h
      · exact hnot
      · apply ih h

theorem rows_row {row : List Char} (h : '\n' ∉ row) :
  rows row = [row]
  := List.splitOn_eq_singleton h

theorem rows_cons {row : List Char} (h : '\n' ∉ row) (text : List Char) :
  rows (row ++ '\n' :: text) = row :: rows text
  := List.splitOn_append_cons_self_of_not_mem h text

theorem rows_ne_nil (text : List Char) :
  rows text ≠ []
  := List.splitOn_ne_nil _ _

theorem not_mem_of_mem_rows {text row : List Char} (h : row ∈ rows text) :
  '\n' ∉ row
  := notMem_of_mem_splitOn h

theorem joinRows_rows (text : List Char) :
  joinRows (rows text) = text
  := List.intercalate_splitOn _

theorem joinRows_cons {row : List Char} {others : List (List Char)} (h : others ≠ []) :
  joinRows (row :: others) = row ++ '\n' :: joinRows others
  := by
  obtain ⟨next, rest, rfl⟩ := List.exists_cons_of_ne_nil h
  rw [joinRows, List.intercalate_cons_cons]
  simp [joinRows]

theorem unlines_cons (row : List Char) (others : List (List Char)) :
  unlines (row :: others) = row ++ '\n' :: unlines others
  := by simp [unlines]

theorem unlines_append (above below : List (List Char)) :
  unlines (above ++ below) = unlines above ++ unlines below
  := List.flatMap_append

/-- With a line feed after it, a text has a line feed after each of its rows. -/
theorem unlines_eq_joinRows {rows : List (List Char)} (h : rows ≠ []) :
  unlines rows = joinRows rows ++ ['\n']
  := by
  induction rows with
  | nil => exact absurd rfl h
  | cons row others ih =>
      rcases eq_or_ne others [] with rfl | hne
      · simp [unlines, joinRows]
      · rw [unlines_cons, ih hne, joinRows_cons hne, List.append_assoc, List.cons_append]

theorem rows_unlines {ls : List (List Char)} (h : ∀ row ∈ ls, '\n' ∉ row) :
  rows (unlines ls) = ls ++ [[]]
  := by
  induction ls with
  | nil => rfl
  | cons row ls ih =>
      rw [unlines_cons, rows_cons (h row List.mem_cons_self),
        ih fun row' hrow' => h row' (List.mem_cons_of_mem _ hrow'), List.cons_append]

/-! ### Lines -/

theorem dropCr_concat (row : List Char) :
  dropCr (row ++ ['\r']) = row
  := by rw [dropCr, List.getLast?_concat, if_pos rfl, List.dropLast_concat]

theorem dropCr_of_getLast? {row : List Char} (h : row.getLast? ≠ some '\r') :
  dropCr row = row
  := if_neg h

/-- A row ends with a carriage return or is kept. -/
theorem dropCr_cases (row : List Char) :
  (row.getLast? ≠ some '\r' ∧ dropCr row = row) ∨ row = dropCr row ++ ['\r']
  := by
  by_cases h : row.getLast? = some '\r'
  · right
    obtain ⟨before, rfl⟩ := List.getLast?_eq_some_iff.mp h
    rw [dropCr_concat]
  · exact Or.inl ⟨h, dropCr_of_getLast? h⟩

theorem dropCr_sublist (row : List Char) :
  (dropCr row).Sublist row
  := by
  rw [dropCr]
  split_ifs
  · apply List.dropLast_sublist
  · apply List.Sublist.refl

theorem lines_row {row : List Char} (h : '\n' ∉ row) :
  lines row = if row = [] then [] else [row]
  := by
  rw [lines, rows_row h]
  rfl

theorem lines_cons {row : List Char} (h : '\n' ∉ row) (text : List Char) :
  lines (row ++ '\n' :: text) = dropCr row :: lines text
  := by
  obtain ⟨next, others, hrows⟩ := List.exists_cons_of_ne_nil (rows_ne_nil text)
  rw [lines, lines, rows_cons h, hrows]
  rfl

theorem not_mem_of_mem_lines {text line : List Char} (h : line ∈ lines text) :
  '\n' ∉ line
  := by
  induction text using separated_induction '\n' with
  | hlast row hnot =>
      rw [lines_row hnot] at h
      split_ifs at h with hnil
      · cases h
      · rwa [List.mem_singleton.mp h]
  | hcons row text hnot ih =>
      rw [lines_cons hnot] at h
      rcases List.mem_cons.mp h with rfl | h
      · exact fun hmem => hnot ((dropCr_sublist row).mem hmem)
      · apply ih h

/-- A line is a row, but for the carriage return in front of its line feed. -/
theorem exists_of_mem_lines {text line : List Char} (h : line ∈ lines text) :
  ∃ row ∈ rows text, line = row ∨ line = dropCr row
  := by
  induction text using separated_induction '\n' with
  | hlast row hnot =>
      rw [lines_row hnot] at h
      split_ifs at h with hnil
      · cases h
      · rw [rows_row hnot]
        exact ⟨row, List.mem_singleton_self row, Or.inl (List.mem_singleton.mp h)⟩
  | hcons row text hnot ih =>
      rw [lines_cons hnot] at h
      rw [rows_cons hnot]
      rcases List.mem_cons.mp h with rfl | h
      · exact ⟨row, List.mem_cons_self, Or.inr rfl⟩
      · obtain ⟨row', hrow', hline⟩ := ih h
        exact ⟨row', List.mem_cons_of_mem _ hrow', hline⟩

/-- A row stands between line feeds. -/
theorem exists_split_of_mem_rows {text row : List Char} (h : row ∈ rows text) :
  ∃ before after, text = before ++ (row ++ after) ∧ (∀ c, before.getLast? = some c → c = '\n')
    ∧ ∀ c, after.head? = some c → c = '\n'
  := by
  induction text using separated_induction '\n' with
  | hlast row' hnot =>
      rw [rows_row hnot, List.mem_singleton] at h
      exact ⟨[], [], by rw [h, List.append_nil, List.nil_append], nofun, nofun⟩
  | hcons row' text hnot ih =>
      rw [rows_cons hnot] at h
      rcases List.mem_cons.mp h with rfl | h
      · refine ⟨[], '\n' :: text, rfl, nofun, ?_⟩
        rintro c ⟨⟩
        rfl
      · obtain ⟨before, after, rfl, hbefore, hafter⟩ := ih h
        refine ⟨row' ++ '\n' :: before, after, by simp, ?_, hafter⟩
        intro c hc
        rw [List.getLast?_append, List.getLast?_cons, Option.some_or, Option.some_inj] at hc
        rw [← hc]
        cases hlast : before.getLast? with
        | none => rfl
        | some d => exact hbefore d hlast

theorem mem_of_mem_rows {text row : List Char} (h : row ∈ rows text) {c : Char} (hc : c ∈ row) :
  c ∈ text
  := by
  obtain ⟨before, after, rfl, -, -⟩ := exists_split_of_mem_rows h
  exact List.mem_append_right _ (List.mem_append_left _ hc)

theorem mem_of_mem_lines {text line : List Char} (h : line ∈ lines text) {c : Char} (hc : c ∈ line) :
  c ∈ text
  := by
  obtain ⟨row, hrow, rfl | rfl⟩ := exists_of_mem_lines h
  · apply mem_of_mem_rows hrow hc
  · apply mem_of_mem_rows hrow ((dropCr_sublist row).mem hc)

theorem mem_unlines {ls : List (List Char)} {c : Char} (h : c ∈ unlines ls) :
  c = '\n' ∨ ∃ line ∈ ls, c ∈ line
  := by
  obtain ⟨line, hline, hc⟩ := List.mem_flatMap.mp h
  rw [List.mem_append, List.mem_singleton] at hc
  rcases hc with hc | rfl
  · exact Or.inr ⟨line, hline, hc⟩
  · exact Or.inl rfl

/-- A text without line feeds stands in a row, with what is around it as far as the line feeds. -/
theorem exists_mem_rows {before word after : List Char} (h : '\n' ∉ word) :
  ∃ first last, first ++ (word ++ last) ∈ rows (before ++ (word ++ after)) ∧ '\n' ∉ first
    ∧ first <:+ before ∧ '\n' ∉ last ∧ last <+: after
  := by
  induction before using separated_induction '\n' with
  | hlast row hnot =>
      by_cases hafter : '\n' ∈ after
      · obtain ⟨last, rest, rfl, hlast⟩ := List.eq_append_cons_of_mem hafter
        have hrow : '\n' ∉ row ++ (word ++ last) := by
          rw [List.mem_append, List.mem_append]
          exact fun hmem => hmem.elim hnot fun hmem => hmem.elim h hlast
        refine ⟨row, last, ?_, hnot, List.suffix_refl _, hlast, List.prefix_append _ _⟩
        have heq : row ++ (word ++ (last ++ '\n' :: rest))
            = (row ++ (word ++ last)) ++ '\n' :: rest := by simp only [List.append_assoc]
        rw [heq, rows_cons hrow]
        apply List.mem_cons_self
      · have hrow : '\n' ∉ row ++ (word ++ after) := by
          rw [List.mem_append, List.mem_append]
          exact fun hmem => hmem.elim hnot fun hmem => hmem.elim h hafter
        refine ⟨row, after, ?_, hnot, List.suffix_refl _, hafter, List.prefix_refl _⟩
        rw [rows_row hrow]
        apply List.mem_singleton_self
  | hcons row text hnot ih =>
      obtain ⟨first, last, hmem, hfirst, hsuffix, hlast, hstart⟩ := ih
      refine ⟨first, last, ?_, hfirst, ?_, hlast, hstart⟩
      · rw [List.append_assoc, List.cons_append, rows_cons hnot]
        apply List.mem_cons_of_mem _ hmem
      · rw [List.append_cons]
        exact hsuffix.trans (List.suffix_append _ _)

/-! ### Carriage returns -/

theorem replaceCrLf_cons {c : Char} {text : List Char} (h : c = '\r' → text.head? ≠ some '\n') :
  replaceCrLf (c :: text) = c :: replaceCrLf text
  := by
  rw [replaceCrLf]
  rintro rest rfl rfl
  exact h rfl rfl

theorem replaceCrLf_row {row : List Char} (h : '\n' ∉ row) :
  replaceCrLf row = row
  := by
  induction row with
  | nil => rfl
  | cons c row ih =>
      rw [List.mem_cons, not_or] at h
      rw [replaceCrLf_cons fun _ => ?_, ih h.2]
      intro hhead
      exact h.2 (List.mem_of_mem_head? hhead)

theorem replaceCrLf_append {row : List Char} (h : '\n' ∉ row) (text : List Char) :
  replaceCrLf (row ++ '\n' :: text) = dropCr row ++ '\n' :: replaceCrLf text
  := by
  induction row with
  | nil =>
      rw [List.nil_append, replaceCrLf_cons fun heq => absurd heq (by decide)]
      rfl
  | cons c row ih =>
      rw [List.mem_cons, not_or] at h
      rcases eq_or_ne row [] with rfl | hne
      · by_cases hc : c = '\r'
        · subst hc
          rfl
        · have hlast : [c].getLast? ≠ some '\r' := by simpa using hc
          rw [List.cons_append, replaceCrLf_cons fun heq => absurd heq hc, ih h.2,
            dropCr_of_getLast? hlast]
          rfl
      · obtain ⟨d, rest, rfl⟩ := List.exists_cons_of_ne_nil hne
        have hd : d ≠ '\n' := fun heq => h.2 (heq ▸ List.mem_cons_self)
        have hhead : (d :: rest ++ '\n' :: text).head? ≠ some '\n' := by simpa using hd
        rw [List.cons_append, replaceCrLf_cons fun _ => hhead, ih h.2]
        rw [dropCr, dropCr, List.getLast?_cons_cons]
        split_ifs <;> rfl

theorem replaceCrLf_sublist (text : List Char) :
  (replaceCrLf text).Sublist text
  := by
  induction text using replaceCrLf.induct with
  | case1 => exact List.Sublist.refl _
  | case2 rest ih =>
      rw [replaceCrLf]
      exact (ih.cons_cons _).cons _
  | case3 c rest hnext ih =>
      rw [replaceCrLf.eq_3 _ _ hnext]
      exact ih.cons_cons c

/-- Carriage returns are lost only. -/
theorem filter_replaceCrLf {p : Char → Bool} (hp : p '\r' = false) (text : List Char) :
  (replaceCrLf text).filter p = text.filter p
  := by
  have hreturn : p '\r' ≠ true := by
    rw [hp]
    exact Bool.false_ne_true
  induction text using replaceCrLf.induct with
  | case1 => rfl
  | case2 rest ih =>
      rw [replaceCrLf, List.filter_cons_of_neg hreturn, List.filter_cons, List.filter_cons, ih]
  | case3 c rest hnext ih =>
      rw [replaceCrLf.eq_3 _ _ hnext, List.filter_cons, List.filter_cons, ih]

/-- The rows of a text without the carriage returns are its lines, and an empty row at the end may
follow. -/
theorem rows_replaceCrLf (text : List Char) :
  rows (replaceCrLf text) = lines text ∨ rows (replaceCrLf text) = lines text ++ [[]]
  := by
  induction text using separated_induction '\n' with
  | hlast row hnot =>
      rw [replaceCrLf_row hnot, rows_row hnot, lines_row hnot]
      split_ifs with hnil
      · right
        rw [hnil, List.nil_append]
      · exact Or.inl rfl
  | hcons row text hnot ih =>
      have hnot' : '\n' ∉ dropCr row := fun hmem => hnot ((dropCr_sublist row).mem hmem)
      rw [replaceCrLf_append hnot, rows_cons hnot', lines_cons hnot, List.cons_append,
        List.cons_inj_right, List.cons_inj_right]
      exact ih

theorem replaceCrLf_unlines {ls : List (List Char)} (h : ∀ row ∈ ls, '\n' ∉ row) :
  replaceCrLf (unlines ls) = unlines (ls.map dropCr)
  := by
  induction ls with
  | nil => rfl
  | cons row ls ih =>
      rw [unlines_cons, replaceCrLf_append (h row List.mem_cons_self),
        ih fun row' hrow' => h row' (List.mem_cons_of_mem _ hrow'), List.map_cons, unlines_cons]

end Lines
