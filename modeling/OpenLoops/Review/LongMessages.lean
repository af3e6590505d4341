import OpenLoops.Review.Preparing

/-!
# Long messages

The paragraphs of a message fit in blocks, and so does what is made of them, but for the last block
of a body with too many paragraphs: the paragraphs that are folded there may be too long together,
and then the message is refused.
-/

namespace Review

open Graph (ConnectionError MailItem)
open Inference (CanonicalBlock canonicalSize canonicalSize_le canonicalText
  chunkReplyHistory compositions isForbiddenScalar)
open Lines (HasRows dropCr joinParagraphs joinRows lines paragraphs replaceCrLf rows splitBlank
  unlines)

/-! ### Paragraphs that fit -/

/-- Each part of the text between blank lines fits in a block. -/
def PartsFit (text : List Char) : Prop :=
  ∀ part ∈ splitBlank (replaceCrLf text), Fits part

variable {text : List Char}

/-- A text of which each part fits has no forbidden scalar. -/
theorem PartsFit.not_forbidden (h : PartsFit text) :
  ∀ c ∈ text, isForbiddenScalar c = false
  := by
  intro c hc
  rw [← Bool.not_eq_true]
  intro hforbidden
  have hmem : c ∈ text.filter isForbiddenScalar := List.mem_filter.mpr ⟨hc, hforbidden⟩
  have hparts := @Lines.filter_splitBlankFrom isForbiddenScalar (by decide) [] (replaceCrLf text)
  rw [← Lines.filter_replaceCrLf (by decide), ← List.nil_append (replaceCrLf text), ← hparts,
    List.mem_filter, List.mem_flatten] at hmem
  obtain ⟨⟨part, hpart, hc⟩, -⟩ := hmem
  rw [(fits_iff.mp (h part hpart)).1 c hc] at hforbidden
  cases hforbidden

/-- A text is free of forbidden scalars when its characters are of a text that is, but for line
feeds. -/
theorem not_forbidden_of_mem (h : PartsFit text) {other : List Char}
    (hmem : ∀ c ∈ other, c = '\n' ∨ c ∈ text) :
  ∀ c ∈ other, isForbiddenScalar c = false
  := by
  intro c hc
  rcases hmem c hc with rfl | hc
  · decide
  · apply h.not_forbidden c hc

theorem fits_of_length_le {part : List Char} (h : ∀ c ∈ part, isForbiddenScalar c = false)
    (hle : part.length ≤ 8192) :
  Fits part
  := fits_iff.mpr ⟨h, (canonicalSize_le part).trans hle⟩

theorem fits_trim {part : List Char} (h : Fits part) :
  Fits (trim part)
  := by
  rw [fits_iff] at h ⊢
  exact ⟨fun c hc => h.1 c (Lines.mem_of_mem_trim hc), (Inference.canonicalSize_trim_le part).trans h.2⟩

/-- The paragraphs of a text whose parts fit do. -/
theorem PartsFit.fits_paragraph (h : PartsFit text) :
  ∀ paragraph ∈ sourceParagraphs [text], Fits paragraph
  := by
  intro paragraph hparagraph
  rw [sourceParagraphs, List.flatMap_singleton] at hparagraph
  obtain ⟨part, hpart, rfl⟩ := List.mem_map.mp (List.mem_of_mem_filter hparagraph)
  exact fits_trim (h part hpart)

/-- Rows that follow each other in a part make a text no longer than the part. -/
theorem canonicalSize_unlines_le_of_part {part : List Char} {run stretch : List (List Char)}
    (hhas : HasRows part run) (hstretch : stretch.Sublist run) (hne : run ≠ []) :
  canonicalSize (unlines stretch) ≤ canonicalSize part + 1
  := by
  have hunlines := Inference.canonicalSize_unlines_le hstretch
  have hdrop := Inference.canonicalSize_dropCr_le (joinRows run)
  have hpart := Inference.canonicalSize_le_of_hasRows hhas
  rw [Inference.canonicalSize_unlines_eq hne] at hunlines
  omega

/-- Lines that follow each other in a text and are not empty are of one part. -/
theorem exists_part_of_lines {stretch : List (List Char)} (h : stretch <:+: lines text)
    (hne : stretch ≠ []) (hnonempty : [] ∉ stretch) :
  ∃ part ∈ splitBlank (replaceCrLf text), ∃ run, HasRows part run ∧ stretch <:+: run
  := by
  apply Lines.exists_part_of_infix ?_ hne hnonempty
  rcases Lines.rows_replaceCrLf text with hrows | hrows
  · rwa [hrows]
  · rw [hrows]
    exact h.trans (List.prefix_append _ _).isInfix

/-- What is left of lines that follow each other fits: the paragraphs of the lines that are kept, when
empty lines are. -/
theorem PartsFit.fits_kept (h : PartsFit text) {before : List (List Char)}
    (hbefore : before <:+: lines text) {keep : List Char → Bool} (hkeep : keep [] = true) :
  ∀ paragraph ∈ sourceParagraphs [unlines (before.filter keep)], Fits paragraph
  := by
  intro paragraph hparagraph
  have hrows : ∀ line ∈ before.filter keep, '\n' ∉ line := fun line hline =>
    Lines.not_mem_of_mem_lines (hbefore.mem (List.mem_of_mem_filter hline))
  rw [sourceParagraphs, List.flatMap_singleton, Lines.replaceCrLf_unlines hrows] at hparagraph
  rw [fits_iff]
  constructor
  · apply not_forbidden_of_mem h
    intro c hc
    rcases Lines.mem_unlines (Lines.mem_of_mem_paragraphs hparagraph hc) with hfeed | ⟨line, hline, hc⟩
    · exact Or.inl hfeed
    · right
      obtain ⟨row, hrow, rfl⟩ := List.mem_map.mp hline
      apply Lines.mem_of_mem_lines (hbefore.mem (List.mem_of_mem_filter hrow))
      apply (Lines.dropCr_sublist row).mem hc
  · have hrows' : ∀ line ∈ (before.filter keep).map dropCr, '\n' ∉ line := by
      intro line hline hmem
      obtain ⟨row, hrow, rfl⟩ := List.mem_map.mp hline
      exact hrows row hrow ((Lines.dropCr_sublist row).mem hmem)
    obtain ⟨hparagraph, hparagraph_ne⟩ := List.mem_filter.mp hparagraph
    obtain ⟨part, hpart, rfl⟩ := List.mem_map.mp hparagraph
    obtain ⟨stretch, hhas, hwithin, hnonempty⟩ := Lines.exists_infix_of_part hpart
    rw [Lines.rows_unlines hrows'] at hwithin
    rw [hhas.trim_eq] at hparagraph_ne ⊢
    have hstretch : stretch ≠ [] := by
      rintro rfl
      exact of_decide_eq_true hparagraph_ne rfl
    -- the rows are of the lines that are kept, which follow each other but for the others
    obtain ⟨kept, hkept, rfl⟩ :=
      List.infix_map_iff.mp (Lines.infix_of_infix_concat hwithin hnonempty)
    obtain ⟨others, hothers, rfl⟩ := List.infix_filter_iff.mp hkept
    have hothers_nonempty : [] ∉ others := by
      intro hmem
      exact hnonempty (List.mem_map.mpr ⟨[], List.mem_filter.mpr ⟨hmem, hkeep⟩, rfl⟩)
    have hothers_ne : others ≠ [] := by
      rintro rfl
      exact hstretch rfl
    obtain ⟨part', hpart', run, hhas', hrun⟩ :=
      exists_part_of_lines (hothers.trans hbefore) hothers_ne hothers_nonempty
    have hrun_ne : run ≠ [] := by
      rintro rfl
      exact hothers_ne (List.infix_nil.mp hrun)
    have hpart_size := (fits_iff.mp (h part' hpart')).2
    have hkept_size := canonicalSize_unlines_le_of_part hhas'
      (List.filter_sublist.trans hrun.sublist : (others.filter keep).Sublist run) hrun_ne
    have hdrop := Inference.canonicalSize_unlines_map_dropCr_le (others.filter keep)
    have htrim := Inference.canonicalSize_trim_joinRows_lt hstretch
    omega

/-- A line of a text fits, without white space around it. -/
theorem PartsFit.canonicalSize_line_le (h : PartsFit text) {line : List Char}
    (hline : line ∈ lines text) :
  canonicalSize line ≤ 8192
  := by
  rcases eq_or_ne line [] with rfl | hne
  · rw [Inference.canonicalSize_nil]
    decide
  · obtain ⟨above, below, hsplit⟩ := List.append_of_mem hline
    have hwithin : [line] <:+: lines text := ⟨above, below, by rw [hsplit]; simp⟩
    obtain ⟨part, hpart, run, hhas, hrun⟩ :=
      exists_part_of_lines hwithin (List.cons_ne_nil _ _) (by simpa using hne.symm)
    have hmem : line ∈ run := hrun.mem (List.mem_singleton_self line)
    calc canonicalSize line ≤ canonicalSize (joinRows run) := Inference.canonicalSize_le_of_mem hmem
      _ ≤ canonicalSize part := Inference.canonicalSize_le_of_hasRows hhas
      _ ≤ 8192 := (fits_iff.mp (h part hpart)).2

/-- The chunks of lines of the text fit. -/
theorem PartsFit.fits_chunk (h : PartsFit text) {quoted : List (List Char)}
    (hquoted : ∀ line ∈ quoted, line ∈ lines text) :
  ∀ chunk ∈ chunkReplyHistory
      ((paragraphs (unlines quoted)).flatMap splitOversizedParagraphByLines), Fits chunk
  := by
  obtain ⟨groups, hpacked, heq⟩ := Inference.exists_chunkReplyHistory
    ((paragraphs (unlines quoted)).flatMap splitOversizedParagraphByLines)
  obtain ⟨taken, rest, hsplit, hsublist, -, -⟩ := hpacked.taken
  have hpiece : ∀ group ∈ groups, ∀ item ∈ group, ∃ paragraph ∈ paragraphs (unlines quoted),
      item ∈ splitOversizedParagraphByLines paragraph := by
    intro group hgroup item hitem
    have hmem : item ∈ taken := hsublist.mem (List.mem_flatten.mpr ⟨group, hgroup, hitem⟩)
    have hmem' := List.mem_append_left rest hmem
    rw [← hsplit] at hmem'
    exact List.mem_flatMap.mp hmem'
  rw [heq]
  intro chunk hchunk
  obtain ⟨group, hgroup, rfl⟩ := List.mem_map.mp hchunk
  rw [fits_iff]
  constructor
  · apply not_forbidden_of_mem h
    intro c hc
    rcases Packing.mem_intercalate hc with hfeed | ⟨item, hitem, hc⟩
    · left
      simpa using hfeed
    · obtain ⟨paragraph, hparagraph, hitem⟩ := hpiece group hgroup item hitem
      rcases mem_of_mem_splitOversizedParagraphByLines hitem hc with hfeed | hc
      · exact Or.inl hfeed
      · rcases Lines.mem_unlines (Lines.mem_of_mem_paragraphs hparagraph hc) with
          hfeed | ⟨line, hline, hc⟩
        · exact Or.inl hfeed
        · exact Or.inr (Lines.mem_of_mem_lines (hquoted line hline) hc)
  · rcases (hpacked.pieces group hgroup).2.sized with hle | ⟨item, rfl, hlt⟩
    · exact (canonicalSize_le _).trans (hle.trans (by decide))
    · -- a chunk beyond the limit is a single line
      rw [joinParagraphs, List.intercalate_singleton]
      obtain ⟨paragraph, hparagraph, hitem⟩ := hpiece _ hgroup item (List.mem_singleton_self item)
      rcases (splitOversizedParagraphByLines_spec paragraph).1 item hitem with hle | ⟨hline, -⟩
      · exact absurd hlt (Nat.not_lt.mpr hle)
      · obtain ⟨row, hrow, hitem_eq⟩ := Lines.exists_of_mem_lines hline
        obtain ⟨first, last, hmem, hfirst, hlast⟩ :=
          Lines.exists_row_of_mem_paragraphs hparagraph hrow
        have hrow_size := Inference.canonicalSize_le_append hfirst hlast row
        have hitem_size : canonicalSize item ≤ canonicalSize row := by
          rcases hitem_eq with rfl | rfl
          · rfl
          · apply Inference.canonicalSize_dropCr_le
        have hwhole : canonicalSize (first ++ (row ++ last)) ≤ 8192 := by
          rw [Lines.rows_unlines fun line hline =>
            Lines.not_mem_of_mem_lines (hquoted line hline)] at hmem
          rcases List.mem_append.mp hmem with hmem | hnil
          · exact h.canonicalSize_line_le (hquoted _ hmem)
          · rw [List.mem_singleton.mp hnil, Inference.canonicalSize_nil]
            decide
        omega

/-! ### Texts before the history -/

instance : DecidablePred StartsWithHistory :=
  fun _ => decidable_of_iff _ startsWithHistory_iff.symm

/-- The text before the history of the reply; a text that starts with the history is all of it. -/
def textBeforeHistory (text : List Char) : List Char :=
  if StartsWithHistory (lines text) then text else unlines (splitHistory (lines text)).1

/-- The text before the history, without quoted lines. -/
def ownText (text : List Char) : List Char :=
  if StartsWithHistory (lines text) then text
  else unlines ((splitHistory (lines text)).1.filter (!isQuoted ·))

/-- The paragraphs before the history of the reply. -/
def paragraphsBeforeHistory (text : List Char) : List (List Char) :=
  sourceParagraphs [textBeforeHistory text]

/-- The paragraphs before the history, without quoted lines. -/
def ownParagraphs (text : List Char) : List (List Char) :=
  sourceParagraphs [ownText text]

/-- There are forty paragraphs at most, or those from the fortieth on fit in one block. -/
def TailFits (text : List Char) : Prop :=
  (ownParagraphs text).length ≤ 40
    ∨ canonicalSize (joinParagraphs ((ownParagraphs text).drop 39)) ≤ 8192

/-- No line before the history is quoted. -/
def NoQuotedLine (text : List Char) : Prop :=
  StartsWithHistory (lines text) ∨ ∀ line ∈ (splitHistory (lines text)).1, isQuoted line = false

/-- The body of a plain text is the text before the history, and the quote is of its lines. -/
theorem exists_plainBody_eq (text : List Char) :
  ∃ quoted, (∀ line ∈ quoted, line ∈ lines text) ∧ plainBody text = (ownText text, unlines quoted)
  := by
  rw [ownText]
  split_ifs with hstart
  · exact ⟨[], nofun, plainBody_of_startsWithHistory hstart⟩
  · refine ⟨_, ?_, plainBody_of_not_startsWithHistory hstart⟩
    intro line hline
    rw [← splitHistory_append (lines text)]
    rcases List.mem_append.mp hline with hline | hline
    · apply List.mem_append_left _ (List.mem_of_mem_filter hline)
    · apply List.mem_append_right _ hline

theorem PartsFit.fits_ownParagraph (h : PartsFit text) :
  ∀ paragraph ∈ ownParagraphs text, Fits paragraph
  := by
  rw [ownParagraphs, ownText]
  split_ifs with hstart
  · exact h.fits_paragraph
  · apply h.fits_kept ?_ rfl
    exact ⟨[], (splitHistory (lines text)).2, splitHistory_append (lines text)⟩

/-- The blocks of the body fit exactly when the last of them does. -/
theorem PartsFit.fits_blocks_iff (h : PartsFit text) :
  (∀ block ∈ plainBodyBlocks (ownText text), Fits block) ↔ TailFits text
  := by
  have hall := h.fits_ownParagraph
  rw [TailFits, plainBodyBlocks, paragraphBodyBlocks, ← sourceParagraphs, ← ownParagraphs]
  split_ifs with hmany
  · have hfolded : ∀ c ∈ joinParagraphs ((ownParagraphs text).drop 39),
        isForbiddenScalar c = false := by
      intro c hc
      rcases Packing.mem_intercalate hc with hfeed | ⟨paragraph, hparagraph, hc⟩
      · have hc_eq : c = '\n' := by simpa using hfeed
        rw [hc_eq]
        decide
      · exact (fits_iff.mp (hall paragraph (List.mem_of_mem_drop hparagraph))).1 c hc
    have htake : ∀ block ∈ (ownParagraphs text).take 39, Fits block :=
      fun block hblock => hall block (List.mem_of_mem_take hblock)
    rw [maxBodyBlocksPerMessage] at hmany
    rw [or_iff_right (Nat.not_le.mpr hmany), List.forall_mem_append, List.forall_mem_singleton,
      fits_iff]
    exact (and_iff_right htake).trans (and_iff_right hfolded)
  · exact iff_of_true hall (Or.inl (Nat.le_of_not_lt hmany))

/-! ### Messages that are read -/

theorem length_paragraphBodyBlocks_le (sourceBlocks : List (List Char)) :
  (paragraphBodyBlocks sourceBlocks).length ≤ 40
  := by
  obtain ⟨groups, hblocks, -, hlength, -⟩ := exists_groups_paragraphBodyBlocks sourceBlocks
  rw [hblocks, List.length_map]
  exact hlength

/-- A plain text is read exactly when the last block of its body fits; there are never too many
blocks. -/
theorem PartsFit.readPlain_iff (h : PartsFit text) :
  ((∃ body, readPlain text = .ok body) ↔ TailFits text)
    ∧ ∀ body, readPlain text = .ok body →
      body.bodyBlocks.map (·.scalars) = (plainBodyBlocks (ownText text)).map canonicalText
      ∧ body.bodyBlocks.length ≤ 40 ∧ body.quoteBlocks.length ≤ 8
  := by
  obtain ⟨quoted, hquoted, hbody⟩ := exists_plainBody_eq text
  obtain ⟨groups, hpacked, hchunks⟩ := Inference.exists_chunkReplyHistory
    ((paragraphs (unlines quoted)).flatMap splitOversizedParagraphByLines)
  have hquote := exists_mapM_block_iff.mpr (h.fits_chunk hquoted)
  constructor
  · rw [← h.fits_blocks_iff, ← exists_mapM_block_iff]
    constructor
    · rintro ⟨body, hread⟩
      rw [readPlain, hbody] at hread
      obtain ⟨blocks, hblocks, -⟩ := Except.bind_eq_ok.mp hread
      exact ⟨blocks, hblocks⟩
    · rintro ⟨blocks, hblocks⟩
      obtain ⟨quoteBlocks, hquoteBlocks⟩ := hquote
      refine ⟨⟨blocks, quoteBlocks, []⟩, ?_⟩
      rw [readPlain, hbody]
      exact Except.bind_eq_ok.mpr ⟨blocks, hblocks,
        Except.bind_eq_ok.mpr ⟨quoteBlocks, hquoteBlocks, rfl⟩⟩
  · intro body hread
    rw [readPlain, hbody] at hread
    obtain ⟨blocks, hblocks, hread⟩ := Except.bind_eq_ok.mp hread
    obtain ⟨quoteBlocks, hquoteBlocks, ⟨⟩⟩ := Except.bind_eq_ok.mp hread
    refine ⟨scalars_of_mapM_block hblocks, ?_, ?_⟩
    · have hlength := congrArg List.length (scalars_of_mapM_block hblocks)
      rw [List.length_map, List.length_map] at hlength
      rw [hlength]
      apply length_paragraphBodyBlocks_le
    · have hlength := congrArg List.length (scalars_of_mapM_block hquoteBlocks)
      rw [List.length_map, List.length_map, hchunks, List.length_map] at hlength
      rw [hlength]
      apply Inference.length_le_of_isPacked hpacked

section

variable (toLowercase : List Char → List Char) (walk : List Char → Option WalkedText)
  (dates : DateReader)

/-- A message with a plain text of paragraphs that fit, a date that is read, and a subject and
participants that fit. -/
structure IsPlainMail (item : MailItem) : Prop where
  plain : item.bodyIsHtml = false
  date : ∃ timestamp, dates.parseRfc3339 item.received = some timestamp
  subject : Fits item.subject.toList
  sender : item.sender ≠ "" → Fits item.sender.toList
  receivers : ∀ address ∈ item.to, Fits address.toList
  copies : ∀ address ∈ item.cc, Fits address.toList
  body : PartsFit item.body.toList

variable {dates}

/-- A plain message is read exactly when the last block of its body fits, and then has the blocks of
the body. -/
theorem IsPlainMail.readMail_iff {item : MailItem} (h : IsPlainMail dates item)
    (hlabel : ∀ date timestamp, dates.parseRfc3339 date = some timestamp →
      ∃ label, dates.dateLabel timestamp = some label) :
  ((∃ text, readMail walk dates item = .ok text) ↔ TailFits item.body.toList)
    ∧ ∀ text, readMail walk dates item = .ok text →
      text.message.bodyBlocks.map (·.scalars)
        = (plainBodyBlocks (ownText item.body.toList)).map canonicalText
  := by
  obtain ⟨hiff, hblocks⟩ := h.body.readPlain_iff
  obtain ⟨timestamp, htimestamp⟩ := h.date
  obtain ⟨label, hdateLabel⟩ := hlabel _ _ htimestamp
  obtain ⟨subject, hsubject⟩ := h.subject
  have hsender : ∃ sender, readSender item = .ok sender := by
    rw [readSender]
    split_ifs with hnone
    · exact ⟨none, rfl⟩
    · obtain ⟨b, hb⟩ := h.sender hnone
      exact ⟨some b, by rw [hb]; rfl⟩
  obtain ⟨sender, hsender⟩ := hsender
  have hall : ∀ addresses : List String, (∀ address ∈ addresses, Fits address.toList) →
      ∃ blocks, addresses.mapM (fun address => block address.toList) = .ok blocks := by
    intro addresses haddresses
    obtain ⟨blocks, hmap⟩ := (@exists_mapM_block_iff (addresses.map String.toList)).mpr (by
      intro text htext
      obtain ⟨address, haddress, rfl⟩ := List.mem_map.mp htext
      exact haddresses address haddress)
    rw [List.mapM_map] at hmap
    exact ⟨blocks, hmap⟩
  obtain ⟨receivers, hreceivers⟩ := hall _ h.receivers
  obtain ⟨copies, hcopies⟩ := hall _ h.copies
  have hread : ∀ body, readPlain item.body.toList = .ok body →
      ∃ text, readMail walk dates item = .ok text
        ∧ text.message.bodyBlocks = body.bodyBlocks := by
    intro body hbody
    obtain ⟨-, hlength, hlength'⟩ := hblocks body hbody
    refine ⟨⟨⟨subject, body.bodyBlocks, body.quoteBlocks, sender, receivers, copies, [],
      body.linkLabels⟩, timestamp, label, mailEventTime dates item⟩, ?_, rfl⟩
    have hroom : ¬ 64 < 1 + body.bodyBlocks.length + body.quoteBlocks.length := by omega
    simp only [readMail, h.plain, if_neg Bool.false_ne_true]
    refine Except.bind_eq_ok.mpr ⟨body, hbody, ?_⟩
    rw [if_neg hroom]
    refine Except.bind_eq_ok.mpr ⟨timestamp, Option.okOr_eq_ok.mpr htimestamp, ?_⟩
    refine Except.bind_eq_ok.mpr ⟨subject, hsubject, ?_⟩
    refine Except.bind_eq_ok.mpr ⟨sender, hsender, ?_⟩
    refine Except.bind_eq_ok.mpr ⟨receivers, hreceivers, ?_⟩
    refine Except.bind_eq_ok.mpr ⟨copies, hcopies, ?_⟩
    exact Except.bind_eq_ok.mpr ⟨label, Option.okOr_eq_ok.mpr hdateLabel, rfl⟩
  have hback : ∀ text, readMail walk dates item = .ok text →
      ∃ body, readPlain item.body.toList = .ok body := by
    intro text htext
    simp only [readMail, h.plain, if_neg Bool.false_ne_true] at htext
    obtain ⟨body, hbody, -⟩ := Except.bind_eq_ok.mp htext
    exact ⟨body, hbody⟩
  constructor
  · rw [← hiff]
    constructor
    · rintro ⟨text, htext⟩
      apply hback text htext
    · rintro ⟨body, hbody⟩
      obtain ⟨text, htext, -⟩ := hread body hbody
      exact ⟨text, htext⟩
  · intro text htext
    obtain ⟨body, hbody⟩ := hback text htext
    obtain ⟨text', htext', heq⟩ := hread body hbody
    rw [htext] at htext'
    cases htext'
    rw [heq]
    apply (hblocks body hbody).1

/-! ### Quoted lines -/

/-- The texts of blocks are the canonical texts of groups of paragraphs. -/
def ContainsParagraphs (blocks : List CanonicalBlock) (paragraphs : List (List Char)) : Prop :=
  ∃ groups : List (List (List Char)), [] ∉ groups ∧ groups.flatten = paragraphs
    ∧ blocks.map (·.scalars) = groups.map fun group => canonicalText (joinParagraphs group)

/-- A quotation mark is as often in the canonical text. -/
theorem count_quote_canonicalText (text : List Char) :
  (canonicalText text).count '>' = text.count '>'
  := Inference.count_canonicalText (Inference.isSeparator_of_not_letter (by decide) (by decide +kernel))
    (by decide +kernel) (by decide) (by decide) text

theorem count_eq_of_filter_eq {text other : List Char} {c : Char}
    (h : text.filter (· == c) = other.filter (· == c)) :
  text.count c = other.count c
  := by rw [List.count_eq_length_filter, List.count_eq_length_filter, h]

theorem count_of_containsParagraphs {blocks : List CanonicalBlock} {paragraphs : List (List Char)}
    (h : ContainsParagraphs blocks paragraphs) :
  ((blocks.map (·.scalars)).flatten).count '>' = paragraphs.flatten.count '>'
  := by
  obtain ⟨groups, -, rfl, heq⟩ := h
  rw [heq]
  clear heq
  induction groups with
  | nil => rfl
  | cons group groups ih =>
      have hjoin : (joinParagraphs group).count '>' = group.flatten.count '>' :=
        count_eq_of_filter_eq (Lines.filter_joinParagraphs rfl group)
      rw [List.map_cons, List.flatten_cons, List.count_append, ih, count_quote_canonicalText, hjoin,
        List.flatten_cons, List.flatten_append, List.count_append]

/-- The paragraphs of a text have its quotation marks. -/
theorem count_quote_sourceParagraphs (text : List Char) :
  ((sourceParagraphs [text]).flatten).count '>' = text.count '>'
  := by
  apply count_eq_of_filter_eq
  rw [filter_sourceParagraphs, List.flatten_singleton]
  intro c hc
  rw [beq_eq_false_iff_ne]
  rintro rfl
  cases hc

theorem count_unlines_filter (ls : List (List Char)) (keep : List Char → Bool) (c : Char) :
  (unlines ls).count c
    = (unlines (ls.filter keep)).count c + (unlines (ls.filter (!keep ·))).count c
  := by
  have hcons : ∀ line ls, (unlines (line :: ls)).count c
      = (line ++ ['\n']).count c + (unlines ls).count c := by
    intro line ls
    rw [unlines, List.flatMap_cons, List.count_append]
    rfl
  induction ls with
  | nil => rfl
  | cons line ls ih =>
      by_cases hkeep : keep line = true
      · rw [List.filter_cons_of_pos hkeep, List.filter_cons_of_neg (by simp [hkeep]), hcons, hcons,
          ih, Nat.add_assoc]
      · rw [List.filter_cons_of_neg hkeep, List.filter_cons_of_pos (by simp [hkeep]), hcons, hcons,
          ih, Nat.add_left_comm]

/-- Without quoted lines the text before the history is kept, and with one there are fewer quotation
marks. -/
theorem ownText_cases (text : List Char) :
  (NoQuotedLine text ∧ ownText text = textBeforeHistory text)
    ∨ (¬ NoQuotedLine text ∧ (ownText text).count '>' < (textBeforeHistory text).count '>')
  := by
  rw [NoQuotedLine, ownText, textBeforeHistory]
  by_cases hstart : StartsWithHistory (lines text)
  · left
    rw [if_pos hstart, if_pos hstart]
    exact ⟨Or.inl hstart, rfl⟩
  · rw [if_neg hstart, if_neg hstart, or_iff_right hstart]
    by_cases hquoted : ∀ line ∈ (splitHistory (lines text)).1, isQuoted line = false
    · refine Or.inl ⟨hquoted, ?_⟩
      rw [List.filter_eq_self.mpr]
      intro line hline
      rw [hquoted line hline]
      rfl
    · refine Or.inr ⟨hquoted, ?_⟩
      push Not at hquoted
      obtain ⟨line, hline, hmark⟩ := hquoted
      rw [ne_eq, Bool.not_eq_false] at hmark
      have hsplit := count_unlines_filter (splitHistory (lines text)).1 isQuoted '>'
      have hhead : (Inference.trimStart line).head? = some '>' := of_decide_eq_true hmark
      have hmem : '>' ∈ line :=
        (List.dropWhile_sublist isWhitespace).mem (List.mem_of_mem_head? hhead)
      have hpos : 0 < (unlines ((splitHistory (lines text)).1.filter isQuoted)).count '>' := by
        rw [List.count_pos_iff]
        apply List.mem_flatMap.mpr
        exact ⟨line, List.mem_filter.mpr ⟨hline, hmark⟩, List.mem_append_left _ hmem⟩
      omega

/-! ### Messages with many paragraphs -/

/-- A plain message is prepared exactly when the last block of its body fits, and then has the blocks
of the body. -/
theorem IsPlainMail.prepare_iff {item : MailItem} (h : IsPlainMail dates item)
    (hlabel : ∀ date timestamp, dates.parseRfc3339 date = some timestamp →
      ∃ label, dates.dateLabel timestamp = some label) (source : String) (index : ℕ) :
  ((∃ message, prepare toLowercase (readMail walk dates) item source index = .ok message)
      ↔ TailFits item.body.toList)
    ∧ ∀ message, prepare toLowercase (readMail walk dates) item source index = .ok message →
      message.input.message.bodyBlocks.map (·.scalars)
        = (plainBodyBlocks (ownText item.body.toList)).map canonicalText
  := by
  obtain ⟨hiff, hblocks⟩ := h.readMail_iff walk hlabel
  rw [← hiff]
  refine ⟨?_, ?_⟩
  · constructor
    · rintro ⟨message, hmessage⟩
      obtain ⟨text, htext, -⟩ := Except.map_eq_ok.mp hmessage
      exact ⟨text, htext⟩
    · rintro ⟨text, htext⟩
      exact ⟨_, Except.map_eq_ok.mpr ⟨text, htext, rfl⟩⟩
  · intro message hmessage
    obtain ⟨text, htext, rfl⟩ := Except.map_eq_ok.mp hmessage
    apply hblocks text htext

/-- The blocks of a plain text are its paragraphs, without quoted lines. -/
theorem containsParagraphs_of_scalars_eq {blocks : List CanonicalBlock}
    (h : blocks.map (·.scalars) = (plainBodyBlocks (ownText text)).map canonicalText) :
  ContainsParagraphs blocks (ownParagraphs text)
  := by
  obtain ⟨groups, hgroups, hflatten, -, hne⟩ := exists_groups_paragraphBodyBlocks [ownText text]
  refine ⟨groups, hne, hflatten, ?_⟩
  rw [h, plainBodyBlocks, hgroups, List.map_map]
  rfl

/-- A plain message is prepared exactly when it has forty paragraphs at most before the history, or
those from the fortieth on fit in one block.  Then its blocks have the text of all paragraphs before
the history exactly when no line there is quoted. -/
theorem prepare_keepsParagraphs_iff (item : MailItem) (source : String) (index : ℕ)
    (h : IsPlainMail dates item)
    (hlabel : ∀ date timestamp, dates.parseRfc3339 date = some timestamp →
      ∃ label, dates.dateLabel timestamp = some label) :
  ((∃ message, prepare toLowercase (readMail walk dates) item source index = .ok message)
      ↔ TailFits item.body.toList)
    ∧ ((∃ message, prepare toLowercase (readMail walk dates) item source index = .ok message
        ∧ ContainsParagraphs message.input.message.bodyBlocks
          (paragraphsBeforeHistory item.body.toList))
      ↔ TailFits item.body.toList ∧ NoQuotedLine item.body.toList)
  := by
  obtain ⟨hiff, hblocks⟩ := h.prepare_iff toLowercase walk hlabel source index
  refine ⟨hiff, ?_⟩
  constructor
  · rintro ⟨message, hmessage, hcontains⟩
    refine ⟨hiff.mp ⟨message, hmessage⟩, ?_⟩
    rcases ownText_cases item.body.toList with ⟨hquoted, -⟩ | ⟨-, hlt⟩
    · exact hquoted
    · -- a quoted line is in no block of the body
      have hown := containsParagraphs_of_scalars_eq (hblocks message hmessage)
      have hcount := count_of_containsParagraphs hown
      rw [count_of_containsParagraphs hcontains, paragraphsBeforeHistory, ownParagraphs,
        count_quote_sourceParagraphs, count_quote_sourceParagraphs] at hcount
      omega
  · rintro ⟨htail, hquoted⟩
    obtain ⟨message, hmessage⟩ := hiff.mpr htail
    refine ⟨message, hmessage, ?_⟩
    rcases ownText_cases item.body.toList with ⟨-, heq⟩ | ⟨hnot, -⟩
    · rw [paragraphsBeforeHistory, ← heq]
      apply containsParagraphs_of_scalars_eq (hblocks message hmessage)
    · exact absurd hquoted hnot

end

/-! ### Sample messages -/

/-- Times that are read as zero. -/
def zeroDates : DateReader where
  parseRfc3339 _ := some 0
  dateLabel _ := some "Jan 01, 1970 00:00 +00:00"

/-- A message from someone with a plain text. -/
def plainMail (body : String) : MailItem where
  provider := .google
  subject := "Notes"
  body
  bodyIsHtml := false
  sender := "Ann"
  received := "1970-01-01T00:00:00Z"
  id := "1"
  conversation := "c"
  account := "a"
  ownAddresses := []
  ownDisplayName := none
  ownGivenName := none
  senderAddress := "ann@example.com"
  «to» := []
  cc := []
  sent := false
  team := false
  webLink := ""
  event := none

theorem isPlainMail_plainMail {body : String} (h : PartsFit body.toList) :
  IsPlainMail zeroDates (plainMail body)
  := by
  refine ⟨rfl, ⟨0, rfl⟩, ?_, fun _ => ?_, nofun, nofun, h⟩
  · exact @fits_of_length_le "Notes".toList (by decide) (by decide)
  · exact @fits_of_length_le "Ann".toList (by decide) (by decide)

/-- A short message is prepared. -/
theorem prepare_short :
  ∃ message, prepare id (readMail (fun _ => none) zeroDates) (plainMail "Hello.\n\nBye.") "Mail" 0
    = .ok message
  := by
  have hparts : PartsFit "Hello.\n\nBye.".toList := by
    have hsplit : splitBlank (replaceCrLf "Hello.\n\nBye.".toList)
        = ["Hello.".toList, "Bye.".toList] := by decide
    intro part hpart
    rw [hsplit] at hpart
    rcases List.mem_pair.mp hpart with rfl | rfl
    · apply fits_of_length_le (by decide) (by decide)
    · apply fits_of_length_le (by decide) (by decide)
  apply (prepare_keepsParagraphs_iff id (fun _ => none) (plainMail "Hello.\n\nBye.") "Mail" 0
    (isPlainMail_plainMail hparts) fun _ _ _ => ⟨_, rfl⟩).1.mpr
  left
  decide

/-- A text with a number of paragraphs, each of which is a period. -/
def periods : ℕ → List Char
  | 0 => []
  | n + 1 => '.' :: '\n' :: '\n' :: periods n

theorem splitBlank_periods (n : ℕ) :
  splitBlank (replaceCrLf (periods n)) = List.replicate n ['.'] ++ [[]]
  := by
  have hreplace : replaceCrLf (periods n) = periods n := by
    induction n with
    | zero => rfl
    | succ n ih =>
        rw [periods, replaceCrLf, replaceCrLf, replaceCrLf, ih] <;> simp
  rw [hreplace]
  clear hreplace
  induction n with
  | zero => rfl
  | succ n ih =>
      rw [splitBlank] at ih
      rw [List.replicate_succ, List.cons_append, ← ih, periods, splitBlank,
        Lines.splitBlankFrom.eq_3 _ _ _ (by simp), Lines.splitBlankFrom.eq_2]
      rfl

theorem partsFit_periods (n : ℕ) :
  PartsFit (periods n)
  := by
  intro part hpart
  rw [splitBlank_periods] at hpart
  rcases List.mem_append.mp hpart with hpart | hpart
  · rw [List.eq_of_mem_replicate hpart]
    apply fits_of_length_le (by decide) (by decide)
  · rw [List.mem_singleton.mp hpart]
    apply fits_of_length_le (by decide) (by decide)

theorem lines_periods (n : ℕ) :
  unlines (lines (periods n)) = periods n
    ∧ ∀ line ∈ lines (periods n), line = ['.'] ∨ line = []
  := by
  induction n with
  | zero => exact ⟨rfl, nofun⟩
  | succ n ih =>
      have hlines : lines (periods (n + 1)) = ['.'] :: [] :: lines (periods n) := by
        have hfirst := @Lines.lines_cons ['.'] (by decide) ('\n' :: periods n)
        have hsecond := @Lines.lines_cons [] (by decide) (periods n)
        rw [List.nil_append] at hsecond
        rw [hsecond] at hfirst
        exact hfirst
      rw [hlines, Lines.unlines_cons, Lines.unlines_cons, ih.1]
      refine ⟨rfl, ?_⟩
      rintro line (- | ⟨-, - | ⟨-, hline⟩⟩)
      · exact Or.inl rfl
      · exact Or.inr rfl
      · apply ih.2 line hline

/-- Lines of which none starts the history are all before it. -/
theorem splitHistory_eq_self {ls : List (List Char)}
    (h : ∀ line ∈ ls, ∀ later, startsHistory line later = false) :
  splitHistory ls = (ls, [])
  := by
  induction ls with
  | nil => rfl
  | cons line later ih =>
      rw [List.forall_mem_cons] at h
      rw [splitHistory, if_neg (by rw [h.1 later]; exact Bool.false_ne_true), ih h.2]

theorem ownParagraphs_periods (n : ℕ) :
  ownParagraphs (periods n) = List.replicate n ['.']
  := by
  obtain ⟨hunlines, hlines⟩ := lines_periods n
  have hstarts : ∀ line ∈ lines (periods n), ∀ later, startsHistory line later = false := by
    intro line hline later
    rcases hlines line hline with rfl | rfl <;> rfl
  have hfilter : (lines (periods n)).filter (!isQuoted ·) = lines (periods n) := by
    rw [List.filter_eq_self]
    intro line hline
    rcases hlines line hline with rfl | rfl <;> rfl
  have hown : ownText (periods n) = periods n := by
    rw [ownText, splitHistory_eq_self hstarts, hfilter, hunlines, ite_self]
  rw [ownParagraphs, hown, sourceParagraphs, List.flatMap_singleton, paragraphs, splitBlank_periods,
    List.map_append, List.filter_append, List.map_replicate, List.filter_eq_self.mpr]
  · exact List.append_nil _
  · intro line hline
    rw [List.eq_of_mem_replicate hline]
    rfl

/-- A message with 8300 paragraphs of one character is refused. -/
theorem prepare_periods :
  IsPlainMail zeroDates (plainMail (String.ofList (periods 8300)))
    ∧ ¬ ∃ message, prepare id (readMail (fun _ => none) zeroDates)
      (plainMail (String.ofList (periods 8300))) "Mail" 0 = .ok message
  := by
  have hmail : IsPlainMail zeroDates (plainMail (String.ofList (periods 8300))) := by
    apply isPlainMail_plainMail
    rw [String.toList_ofList]
    apply partsFit_periods
  refine ⟨hmail, ?_⟩
  rw [(hmail.prepare_iff id (fun _ => none) (fun _ _ _ => ⟨_, rfl⟩) "Mail" 0).1]
  have hbody : (plainMail (String.ofList (periods 8300))).body.toList = periods 8300 :=
    String.toList_ofList
  have hcount : ∀ m, (joinParagraphs (List.replicate m ['.'])).count '.' = m := by
    intro m
    have hjoin : (joinParagraphs (List.replicate m ['.'])).count '.'
        = (List.replicate m ['.']).flatten.count '.' :=
      count_eq_of_filter_eq (Lines.filter_joinParagraphs rfl _)
    rw [hjoin, List.count_flatten, List.map_replicate, List.sum_replicate]
    exact Nat.mul_one m
  have hsize : ∀ t : List Char, t.count '.' ≤ canonicalSize t := by
    intro t
    rw [← Inference.count_canonicalText
      (Inference.isSeparator_of_not_letter (by decide) (by decide +kernel)) (by decide +kernel)
      (by decide) (by decide) t]
    apply List.count_le_length
  rw [hbody, TailFits, ownParagraphs_periods, List.length_replicate, List.drop_replicate]
  have htail := hsize (joinParagraphs (List.replicate (8300 - 39) ['.']))
  rw [hcount] at htail
  omega

end Review
