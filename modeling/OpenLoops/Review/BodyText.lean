import OpenLoops.Inference.ReplyHistory

/-!
# Texts of bodies

The lines of a plain text go to the body or to the quote: those from a marker of reply history on,
and quoted lines, go to the quote.  The body is divided to paragraphs, of which the last ones are one
block when there are too many, and a long paragraph of the quote is divided to pieces between its
lines.
-/

namespace Review

open Inference (hasSubjectAndSentLines historyPacker isUnderscoreSeparator originalMessage
  replyHistoryChunkMaxChars startsWithAsciiCi trimStart)
open Lines (joinParagraphs joinRows lines paragraphs replaceCrLf rows unlines)
open Packing (IsPacked Packer)

/-! ### Blocks of the body -/

/-- The greatest number of blocks of the body of one message. -/
def maxBodyBlocksPerMessage : ℕ := 40

def paragraphBodyBlocks (sourceBlocks : List (List Char)) : List (List Char) :=
  let all := sourceBlocks.flatMap fun source => paragraphs (replaceCrLf source)
  if maxBodyBlocksPerMessage < all.length then
    all.take (maxBodyBlocksPerMessage - 1) ++ [joinParagraphs (all.drop (maxBodyBlocksPerMessage - 1))]
  else all

def plainBodyBlocks (body : List Char) : List (List Char) :=
  paragraphBodyBlocks [body]

/-! ### Lines of a plain text -/

/-- The line says who wrote what follows. -/
def introducesQuote (trimmed : List Char) : Bool :=
  ("On ".toList.isPrefixOf trimmed && "wrote:".toList.isSuffixOf trimmed)
    || trimmed = originalMessage

/-- The line starts the header of a message, of which the subject and the date follow. -/
def startsHeader (line : List Char) (later : List (List Char)) : Bool :=
  startsWithAsciiCi (trimStart line) "From:".toList && hasSubjectAndSentLines (later.take 5)

/-- The line is a rule, and a sender follows. -/
def startsRule (line : List Char) (later : List (List Char)) : Bool :=
  isUnderscoreSeparator (trim line)
    && (later.take 2).any fun next => startsWithAsciiCi (trimStart next) "From:".toList

/-- The texts that lines were added to, and where the history of the reply started. -/
structure PlainBody where
  body : List Char
  quote : List Char
  history : Bool
  historyStart : Option ℕ

/-- Where a condition holds the history starts, if it did not start before. -/
def PlainBody.mark (s : PlainBody) (idx : ℕ) (condition : Bool) : PlainBody :=
  if !s.history && condition then { s with history := true, historyStart := some idx } else s

/-- The line is quoted. -/
def isQuoted (line : List Char) : Bool :=
  (trimStart line).head? = some '>'

/-- One more line, with the lines after it. -/
def PlainBody.read (s : PlainBody) (idx : ℕ) (line : List Char) (later : List (List Char)) :
    PlainBody :=
  let s := s.mark idx (introducesQuote (trim line))
  let s := s.mark idx (startsHeader line later)
  let s := s.mark idx (startsRule line later)
  if s.history || isQuoted line then { s with quote := s.quote ++ line ++ ['\n'] }
  else { s with body := s.body ++ line ++ ['\n'] }

def PlainBody.readLines (s : PlainBody) (idx : ℕ) : List (List Char) → PlainBody
  | [] => s
  | line :: later => (s.read idx line later).readLines (idx + 1) later

/-- The body and the quote of a plain text. -/
def plainBody (text : List Char) : List Char × List Char :=
  let s := PlainBody.readLines ⟨[], [], false, none⟩ 0 (lines text)
  if s.historyStart = some 0 then (text, []) else (s.body, s.quote)

/-! ### Pieces of a quote -/

/-- How the lines of a long paragraph are packed. -/
def linePacker : Packer where
  separator := ['\n']
  limit := replyHistoryChunkMaxChars
  room _ := true

def splitOversizedParagraphByLines (paragraph : List Char) : List (List Char) :=
  if paragraph.length ≤ replyHistoryChunkMaxChars then [paragraph]
  else Packing.pack linePacker (lines paragraph)

/-! ### Where the history starts -/

/-- The line starts the history of a reply. -/
def startsHistory (line : List Char) (later : List (List Char)) : Bool :=
  introducesQuote (trim line) || startsHeader line later || startsRule line later

/-- The lines before the history, and the ones from there on. -/
def splitHistory : List (List Char) → List (List Char) × List (List Char)
  | [] => ([], [])
  | line :: later =>
      if startsHistory line later then ([], line :: later)
      else
        let (before, history) := splitHistory later
        (line :: before, history)

theorem splitHistory_append (ls : List (List Char)) :
  (splitHistory ls).1 ++ (splitHistory ls).2 = ls
  := by
  induction ls with
  | nil => rfl
  | cons line later ih =>
      rw [splitHistory]
      split_ifs
      · rfl
      · dsimp only
        rw [List.cons_append, ih]

/-- The history is empty or starts with the first line that starts one. -/
theorem splitHistory_spec (ls : List (List Char)) :
  (∀ above line below, (splitHistory ls).1 = above ++ line :: below →
      startsHistory line (below ++ (splitHistory ls).2) = false)
    ∧ ∀ line later, (splitHistory ls).2 = line :: later → startsHistory line later = true
  := by
  induction ls with
  | nil =>
      refine ⟨?_, nofun⟩
      intro above line below h
      exact absurd h.symm (by simp [splitHistory])
  | cons line later ih =>
      have happend := splitHistory_append later
      rw [splitHistory]
      split_ifs with hstart
      · refine ⟨?_, ?_⟩
        · intro above line' below h
          exact absurd h.symm (by simp)
        · rintro _ _ ⟨⟩
          exact hstart
      · dsimp only
        refine ⟨?_, ih.2⟩
        intro above line' below h
        cases above with
        | nil =>
            obtain ⟨rfl, rfl⟩ := List.cons.inj h
            rw [happend, ← Bool.not_eq_true]
            exact hstart
        | cons first above =>
            apply ih.1 above line' below (List.cons.inj h).2

theorem PlainBody.mark_mark (s : PlainBody) (idx : ℕ) (condition condition' : Bool) :
  (s.mark idx condition).mark idx condition' = s.mark idx (condition || condition')
  := by
  cases hhistory : s.history <;> cases condition <;> cases condition' <;> simp [mark, hhistory]

theorem PlainBody.mark_of_history {s : PlainBody} (h : s.history = true) (idx : ℕ)
    (condition : Bool) :
  s.mark idx condition = s
  := by rw [mark, if_neg (by simp [h])]

theorem PlainBody.read_eq (s : PlainBody) (idx : ℕ) (line : List Char) (later : List (List Char)) :
  s.read idx line later =
    let s := s.mark idx (startsHistory line later)
    if s.history || isQuoted line then { s with quote := s.quote ++ line ++ ['\n'] }
    else { s with body := s.body ++ line ++ ['\n'] }
  := by
  rw [read]
  dsimp only
  rw [mark_mark, mark_mark, startsHistory, Bool.or_assoc]

/-- Where the history started, all lines go to the quote. -/
theorem PlainBody.readLines_of_history {s : PlainBody} (h : s.history = true) (idx : ℕ)
    (ls : List (List Char)) :
  s.readLines idx ls = { s with quote := s.quote ++ unlines ls }
  := by
  induction ls generalizing s idx with
  | nil =>
      rw [readLines, unlines, List.flatMap_nil, List.append_nil]
  | cons line later ih =>
      have hread : s.read idx line later = { s with quote := s.quote ++ line ++ ['\n'] } := by
        rw [read_eq, mark_of_history h]
        dsimp only
        rw [h, Bool.true_or, if_pos rfl]
      rw [readLines, hread, @ih { s with quote := s.quote ++ line ++ ['\n'] } h,
        Lines.unlines_cons]
      simp

/-- Before the history starts, lines that are not quoted go to the body. -/
theorem PlainBody.readLines_of_not_history {s : PlainBody} (h : s.history = false) (idx : ℕ)
    (ls : List (List Char)) :
  (s.readLines idx ls).body = s.body ++ unlines ((splitHistory ls).1.filter (!isQuoted ·))
    ∧ (s.readLines idx ls).quote
      = s.quote ++ unlines ((splitHistory ls).1.filter isQuoted ++ (splitHistory ls).2)
    ∧ (s.readLines idx ls).historyStart
      = if (splitHistory ls).2 = [] then s.historyStart else some (idx + (splitHistory ls).1.length)
  := by
  induction ls generalizing s idx with
  | nil =>
      rw [readLines, splitHistory]
      simp [unlines]
  | cons line later ih =>
      rw [readLines, read_eq, splitHistory]
      by_cases hstart : startsHistory line later = true
      · have hmark : s.mark idx true = { s with history := true, historyStart := some idx } := by
          rw [mark, h]
          rfl
        rw [hstart, if_pos rfl, hmark]
        dsimp only
        rw [Bool.true_or, if_pos rfl, readLines_of_history rfl]
        simp [unlines]
      · have hmark : s.mark idx (startsHistory line later) = s := by
          rw [mark, if_neg (by simp [hstart])]
        have hgoes : (s.history || isQuoted line) = isQuoted line := by rw [h, Bool.false_or]
        rw [hmark, if_neg hstart]
        dsimp only
        rw [hgoes]
        by_cases hquoted : isQuoted line = true
        · rw [if_pos hquoted]
          obtain ⟨hbody, hquote, hplace⟩ :=
            @ih { s with quote := s.quote ++ line ++ ['\n'] } h (idx + 1)
          refine ⟨?_, ?_, ?_⟩
          · rw [hbody, List.filter_cons_of_neg (by simp [hquoted])]
          · rw [hquote, List.filter_cons_of_pos hquoted, List.cons_append, Lines.unlines_cons]
            simp
          · rw [hplace, List.length_cons, Nat.add_assoc, Nat.add_comm 1]
        · rw [if_neg hquoted]
          obtain ⟨hbody, hquote, hplace⟩ :=
            @ih { s with body := s.body ++ line ++ ['\n'] } h (idx + 1)
          refine ⟨?_, ?_, ?_⟩
          · rw [hbody, List.filter_cons_of_pos (by simp [hquoted]), Lines.unlines_cons]
            simp
          · rw [hquote, List.filter_cons_of_neg hquoted]
          · rw [hplace, List.length_cons, Nat.add_assoc, Nat.add_comm 1]

/-- The first line starts the history. -/
def StartsWithHistory (ls : List (List Char)) : Prop :=
  ∃ first later, ls = first :: later ∧ startsHistory first later = true

theorem startsWithHistory_iff {ls : List (List Char)} :
  StartsWithHistory ls ↔ (splitHistory ls).1 = [] ∧ (splitHistory ls).2 ≠ []
  := by
  cases ls with
  | nil =>
      constructor
      · rintro ⟨first, later, h, -⟩
        cases h
      · exact fun h => absurd rfl h.2
  | cons line later =>
      rw [splitHistory]
      split_ifs with hstart
      · exact iff_of_true ⟨line, later, rfl, hstart⟩ ⟨rfl, List.cons_ne_nil _ _⟩
      · apply iff_of_false
        · rintro ⟨_, _, ⟨⟩, hstart'⟩
          exact hstart hstart'
        · rintro ⟨hnil, -⟩
          cases hnil

/-- A text whose first line starts the history is all body. -/
theorem plainBody_of_startsWithHistory {text : List Char} (h : StartsWithHistory (lines text)) :
  plainBody text = (text, [])
  := by
  obtain ⟨hbefore, hhistory⟩ := startsWithHistory_iff.mp h
  have hplace := (@PlainBody.readLines_of_not_history ⟨[], [], false, none⟩ rfl 0 (lines text)).2.2
  rw [if_neg hhistory, hbefore] at hplace
  exact if_pos hplace

/-- Otherwise lines before the history that are not quoted are the body. -/
theorem plainBody_of_not_startsWithHistory {text : List Char}
    (h : ¬ StartsWithHistory (lines text)) :
  plainBody text
    = (unlines ((splitHistory (lines text)).1.filter (!isQuoted ·)),
      unlines ((splitHistory (lines text)).1.filter isQuoted ++ (splitHistory (lines text)).2))
  := by
  obtain ⟨hbody, hquote, hplace⟩ :=
    @PlainBody.readLines_of_not_history ⟨[], [], false, none⟩ rfl 0 (lines text)
  rw [startsWithHistory_iff] at h
  rw [plainBody, if_neg, hbody, hquote, List.nil_append, List.nil_append]
  rw [hplace]
  split_ifs with hhistory
  · nofun
  · rw [Nat.zero_add, Option.some_inj, List.length_eq_zero_iff]
    exact fun hnil => h ⟨hnil, hhistory⟩

/-! ### What is kept -/

/-- All paragraphs of the sources of a body. -/
def sourceParagraphs (sourceBlocks : List (List Char)) : List (List Char) :=
  sourceBlocks.flatMap fun source => paragraphs (replaceCrLf source)

theorem nil_not_mem_sourceParagraphs (sourceBlocks : List (List Char)) :
  [] ∉ sourceParagraphs sourceBlocks
  := by
  intro hmem
  obtain ⟨source, -, hmem⟩ := List.mem_flatMap.mp hmem
  exact Lines.nil_not_mem_paragraphs _ hmem

theorem filter_sourceParagraphs {p : Char → Bool} (hp : ∀ c, isWhitespace c = true → p c = false)
    (sourceBlocks : List (List Char)) :
  (sourceParagraphs sourceBlocks).flatten.filter p = sourceBlocks.flatten.filter p
  := by
  induction sourceBlocks with
  | nil => rfl
  | cons source others ih =>
      rw [sourceParagraphs] at ih
      rw [sourceParagraphs, List.flatMap_cons, List.flatten_append, List.filter_append, ih,
        Lines.filter_paragraphs hp, Lines.filter_replaceCrLf (hp _ (by decide)), List.flatten_cons,
        List.filter_append]

/-- The blocks of a body are its paragraphs, the last ones together when there are too many. -/
theorem exists_groups_paragraphBodyBlocks (sourceBlocks : List (List Char)) :
  ∃ groups : List (List (List Char)), paragraphBodyBlocks sourceBlocks = groups.map joinParagraphs
    ∧ groups.flatten = sourceParagraphs sourceBlocks ∧ groups.length ≤ 40 ∧ [] ∉ groups
  := by
  have hsingle : ∀ all : List (List Char), (all.map ([·])).map joinParagraphs = all := by
    intro all
    rw [List.map_map]
    apply List.map_id''
    intro paragraph
    exact @List.intercalate_singleton _ ['\n', '\n'] paragraph
  have hflatten : ∀ all : List (List Char), (all.map ([·])).flatten = all := by
    intro all
    rw [← List.flatMap_def]
    exact List.flatMap_singleton' all
  have hne : ∀ all : List (List Char), [] ∉ all.map ([·]) := by
    intro all hmem
    obtain ⟨paragraph, -, hnil⟩ := List.mem_map.mp hmem
    cases hnil
  rw [paragraphBodyBlocks, ← sourceParagraphs]
  split_ifs with hmany
  · rw [maxBodyBlocksPerMessage] at *
    refine ⟨((sourceParagraphs sourceBlocks).take 39).map ([·])
      ++ [(sourceParagraphs sourceBlocks).drop 39], ?_, ?_, ?_, ?_⟩
    · rw [List.map_append, hsingle]
      rfl
    · rw [List.flatten_append, hflatten, List.flatten_singleton, List.take_append_drop]
    · rw [List.length_append, List.length_map, List.length_singleton]
      have := List.length_take_le 39 (sourceParagraphs sourceBlocks)
      omega
    · rw [List.mem_append, List.mem_singleton]
      rintro (hmem | hmem)
      · exact hne _ hmem
      · have hlength := congrArg List.length hmem
        rw [List.length_drop, List.length_nil] at hlength
        omega
  · refine ⟨(sourceParagraphs sourceBlocks).map ([·]), (hsingle _).symm, hflatten _, ?_, hne _⟩
    rw [List.length_map]
    exact Nat.le_of_not_lt hmany

/-- The pieces of a paragraph are the paragraph, or its lines in groups: each is within the limit or a
single longer line. -/
theorem splitOversizedParagraphByLines_spec (paragraph : List Char) :
  (∀ piece ∈ splitOversizedParagraphByLines paragraph, piece.length ≤ 4096
      ∨ (piece ∈ lines paragraph ∧ 4096 < piece.length))
    ∧ ((paragraph.length ≤ 4096 ∧ splitOversizedParagraphByLines paragraph = [paragraph])
      ∨ ∃ groups : List (List (List Char)),
        splitOversizedParagraphByLines paragraph = groups.map joinRows
        ∧ groups.flatten.Sublist (lines paragraph)
        ∧ groups.flatten.filter (· ≠ []) = (lines paragraph).filter (· ≠ []))
  := by
  rw [splitOversizedParagraphByLines]
  split_ifs with hshort
  · refine ⟨?_, Or.inl ⟨hshort, rfl⟩⟩
    intro piece hpiece
    rw [List.mem_singleton.mp hpiece]
    exact Or.inl hshort
  · obtain ⟨groups, hpacked, heq⟩ := @Packing.exists_isPacked_pack linePacker (lines paragraph) rfl
    obtain ⟨taken, rest, hsplit, hsublist, hfilter, hrest⟩ := hpacked.taken
    have hnil : rest = [] := hrest.resolve_right Bool.noConfusion
    rw [hnil, List.append_nil] at hsplit
    rw [← hsplit] at hsublist hfilter
    refine ⟨?_, Or.inr ⟨groups, heq, hsublist, hfilter⟩⟩
    rw [heq]
    intro piece hpiece
    obtain ⟨group, hgroup, rfl⟩ := List.mem_map.mp hpiece
    rcases (hpacked.pieces group hgroup).2.sized with hle | ⟨item, rfl, hlt⟩
    · exact Or.inl hle
    · right
      rw [List.intercalate_singleton]
      exact ⟨hsublist.mem (List.mem_flatten.mpr ⟨_, hgroup, List.mem_singleton_self item⟩), hlt⟩

/-- The pieces of a paragraph are of its characters, but for line feeds. -/
theorem mem_of_mem_splitOversizedParagraphByLines {paragraph piece : List Char}
    (h : piece ∈ splitOversizedParagraphByLines paragraph) {c : Char} (hc : c ∈ piece) :
  c = '\n' ∨ c ∈ paragraph
  := by
  rcases (splitOversizedParagraphByLines_spec paragraph).2 with ⟨-, heq⟩ | ⟨groups, heq, hsub, -⟩
  · rw [heq, List.mem_singleton] at h
    rw [← h]
    exact Or.inr hc
  · rw [heq] at h
    obtain ⟨group, hgroup, rfl⟩ := List.mem_map.mp h
    rcases Packing.mem_intercalate hc with hfeed | ⟨line, hline, hc⟩
    · exact Or.inl (List.mem_singleton.mp hfeed)
    · right
      have hline' : line ∈ groups.flatten := List.mem_flatten.mpr ⟨group, hgroup, hline⟩
      apply Lines.mem_of_mem_lines (hsub.mem hline') hc

/-- The lines of a text, the paragraphs of a body and the lines of a long paragraph are all kept, in
order: the lines in the body or in the quote, the paragraphs in forty blocks at most, and the lines
of a paragraph in pieces within the limit, or longer than it as single lines. -/
theorem bodyText_kept :
  (∀ text, (StartsWithHistory (lines text) ∧ plainBody text = (text, []))
      ∨ (¬ StartsWithHistory (lines text) ∧ ∃ before history, lines text = before ++ history
        ∧ (∀ above line below, before = above ++ line :: below →
          startsHistory line (below ++ history) = false)
        ∧ (∀ line later, history = line :: later → startsHistory line later = true)
        ∧ plainBody text = (unlines (before.filter (!isQuoted ·)),
          unlines (before.filter isQuoted ++ history))))
    ∧ (∀ sourceBlocks,
      (∃ groups : List (List (List Char)),
        paragraphBodyBlocks sourceBlocks = groups.map joinParagraphs
        ∧ groups.flatten = sourceParagraphs sourceBlocks)
      ∧ (sourceParagraphs sourceBlocks).flatten.filter (!isWhitespace ·)
        = sourceBlocks.flatten.filter (!isWhitespace ·)
      ∧ (paragraphBodyBlocks sourceBlocks).length ≤ 40
      ∧ ∀ block ∈ paragraphBodyBlocks sourceBlocks, block ≠ [])
    ∧ ∀ paragraph,
      (∀ piece ∈ splitOversizedParagraphByLines paragraph, piece.length ≤ 4096
        ∨ (piece ∈ lines paragraph ∧ 4096 < piece.length))
      ∧ ((paragraph.length ≤ 4096 ∧ splitOversizedParagraphByLines paragraph = [paragraph])
        ∨ ∃ groups : List (List (List Char)),
          splitOversizedParagraphByLines paragraph = groups.map joinRows
          ∧ groups.flatten.Sublist (lines paragraph)
          ∧ groups.flatten.filter (· ≠ []) = (lines paragraph).filter (· ≠ []))
  := by
  refine ⟨?_, ?_, ?_⟩
  · intro text
    by_cases hstart : StartsWithHistory (lines text)
    · exact Or.inl ⟨hstart, plainBody_of_startsWithHistory hstart⟩
    · right
      obtain ⟨hbefore, hhistory⟩ := splitHistory_spec (lines text)
      exact ⟨hstart, _, _, (splitHistory_append (lines text)).symm, hbefore, hhistory,
        plainBody_of_not_startsWithHistory hstart⟩
  · intro sourceBlocks
    obtain ⟨groups, hblocks, hflatten, hlength, hne⟩ :=
      exists_groups_paragraphBodyBlocks sourceBlocks
    refine ⟨⟨groups, hblocks, hflatten⟩, filter_sourceParagraphs (by simp) _, ?_, ?_⟩
    · rw [hblocks, List.length_map]
      exact hlength
    · rw [hblocks]
      rintro block hblock rfl
      obtain ⟨group, hgroup, hnil⟩ := List.mem_map.mp hblock
      cases group with
      | nil => exact hne hgroup
      | cons paragraph others =>
          have hparagraph : paragraph ∈ sourceParagraphs sourceBlocks := by
            rw [← hflatten]
            exact List.mem_flatten.mpr ⟨_, hgroup, List.mem_cons_self⟩
          have hparagraph_ne : paragraph ≠ [] := by
            rintro rfl
            exact nil_not_mem_sourceParagraphs _ hparagraph
          rcases eq_or_ne others [] with rfl | hothers
          · exact hparagraph_ne (List.intercalate_singleton.symm.trans hnil)
          · rw [Lines.joinParagraphs_cons hothers, List.append_eq_nil_iff] at hnil
            exact hparagraph_ne hnil.1
  · exact splitOversizedParagraphByLines_spec

end Review
