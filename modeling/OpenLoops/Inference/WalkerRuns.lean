import Mathlib.Logic.Relation
import OpenLoops.Inference.CanonicalSize
import OpenLoops.Inference.Walker

/-!
# Runs of the walker

A step of the scan is a sequence of operations of the walker: text is pushed, and elements are opened
and closed.  What each operation keeps holds in every state of a walk: the text has plain characters
only, the names of the open elements are those of the frames, the depth is the number of frames of
quotes, and a block goes to the quotes exactly when that number is positive.
-/

namespace Inference

open Lines (splitBlank joinParagraphs)

/-! ### Plain characters -/

/-- The character is not forbidden, and neither a carriage return nor a tab. -/
def IsPlain (c : Char) : Prop :=
  isForbiddenScalar c = false ∧ c ≠ '\r' ∧ c ≠ '\t'

instance (c : Char) : Decidable (IsPlain c) :=
  inferInstanceAs (Decidable (_ ∧ _ ∧ _))

theorem isPlain_of_mem_compositions :
  ∀ entry ∈ compositions, IsPlain entry.2.2 ∧ entry.2.2 ≠ '\n'
  := by decide +kernel

theorem isPlain_of_startsSyllable {c : Char} (h : startsSyllable c = true) :
  IsPlain c ∧ c ≠ '\n'
  := by
  have hrange := startsSyllable_iff.mp h
  have hand : c.toNat &&& 0xFFFE ≤ c.toNat := Nat.and_le_left
  refine ⟨⟨?_, ?_, ?_⟩, ?_⟩
  · rw [isForbiddenScalar]
    simp only [Bool.or_eq_false_iff, Bool.and_eq_false_iff, decide_eq_false_iff_not]
    omega
  · rintro rfl
    exact absurd h (by decide)
  · rintro rfl
    exact absurd h (by decide)
  · rintro rfl
    exact absurd h (by decide)

/-- What is composed is of the text, a syllable, or a letter with a mark. -/
theorem mem_nfc {text : List Char} {d : Char} (h : d ∈ nfc text) :
  d ∈ text ∨ startsSyllable d = true ∨ ∃ entry ∈ compositions, entry.2.2 = d
  := by
  induction text using text_induction with
  | hnil =>
      rw [nfc] at h
      cases h
  | hmark c text hc ih =>
      rw [nfc_mark hc] at h
      rcases List.mem_cons.mp h with rfl | hd
      · exact Or.inl List.mem_cons_self
      · exact (ih hd).imp_left (List.mem_cons_of_mem c)
  | hsyllable c jamo after syllable hseg ih =>
      rw [nfc_syllable hseg] at h
      rcases List.mem_cons.mp h with rfl | hd
      · exact Or.inr (Or.inl hseg.result_starts)
      · exact (ih hd).imp_left fun hmem => List.mem_cons_of_mem c (List.mem_append_right jamo hmem)
  | hrun c marks after hseg ih =>
      have hperm : (sortMarks marks).Perm marks := List.perm_insertionSort _ marks
      have hmark : ∀ m ∈ sortMarks marks, m ∈ c :: (marks ++ after) :=
        fun m hm => List.mem_cons_of_mem c (List.mem_append_left after (hperm.mem_iff.mp hm))
      rw [nfc_markRun hseg, List.cons_append, List.mem_cons, List.mem_append] at h
      have hrest : d ∈ nfc after →
          d ∈ c :: (marks ++ after) ∨ startsSyllable d = true
            ∨ ∃ entry ∈ compositions, entry.2.2 = d :=
        fun hd => (ih hd).imp_left fun hmem => List.mem_cons_of_mem c (List.mem_append_right marks hmem)
      rcases composeMarks_cases c (sortMarks marks) with
        ⟨-, heq⟩ | ⟨before, m, others, composed, hsplit, -, hm, heq⟩
      · rw [heq] at h
        rcases h with rfl | hd | hd
        · exact Or.inl List.mem_cons_self
        · exact Or.inl (hmark d hd)
        · exact hrest hd
      · rw [heq] at h
        rcases h with rfl | hd | hd
        · exact Or.inr (Or.inr ⟨_, mem_of_compose hm, rfl⟩)
        · left
          apply hmark
          rw [hsplit]
          rcases List.mem_append.mp hd with hd | hd
          · exact List.mem_append_left _ hd
          · exact List.mem_append_right _ (List.mem_cons_of_mem m hd)
        · exact hrest hd

/-- What a composed text starts with. -/
theorem head?_nfc {text : List Char} {d : Char} (h : (nfc text).head? = some d) :
  text.head? = some d ∨ startsSyllable d = true ∨ ∃ entry ∈ compositions, entry.2.2 = d
  := by
  induction text using text_induction with
  | hnil =>
      rw [nfc] at h
      cases h
  | hmark c text hc ih =>
      rw [nfc_mark hc] at h
      exact Or.inl h
  | hsyllable c jamo after syllable hseg ih =>
      rw [nfc_syllable hseg] at h
      cases h
      exact Or.inr (Or.inl hseg.result_starts)
  | hrun c marks after hseg ih =>
      rw [nfc_markRun hseg] at h
      rcases composeMarks_cases c (sortMarks marks) with
        ⟨-, heq⟩ | ⟨before, m, others, composed, hsplit, -, hm, heq⟩
      · rw [heq] at h
        exact Or.inl h
      · rw [heq] at h
        cases h
        exact Or.inr (Or.inr ⟨_, mem_of_compose hm, rfl⟩)

theorem nfc_ne_nil {text : List Char} (h : text ≠ []) :
  nfc text ≠ []
  := by
  induction text using text_induction with
  | hnil => exact absurd rfl h
  | hmark c text hc ih =>
      rw [nfc_mark hc]
      exact List.cons_ne_nil _ _
  | hsyllable c jamo after syllable hseg ih =>
      rw [nfc_syllable hseg]
      exact List.cons_ne_nil _ _
  | hrun c marks after hseg ih =>
      rw [nfc_markRun hseg]
      exact List.cons_ne_nil _ _

/-! ### Emitted blocks -/

/-- A block as the walker emits it. -/
structure IsBlock (block : List Char) : Prop where
  ne_nil : block ≠ []
  plain : ∀ c ∈ block, IsPlain c

/-- The finalized text of plain characters, when something is left of it. -/
theorem isBlock_nfc_finalize {text : List Char} (htext : ∀ c ∈ text, IsPlain c)
    (hne : finalize text ≠ []) :
  IsBlock (nfc (finalize text)) ∧ (nfc (finalize text)).head? ≠ some '\n'
  := by
  have hfold : text.map foldSpace = text := by
    apply (List.map_congr_left _).trans (List.map_id text)
    intro c hc
    obtain ⟨hforbidden, -, htab⟩ := htext c hc
    rw [foldSpace, if_neg]
    · rfl
    · rintro (rfl | rfl)
      · exact htab rfl
      · exact absurd hforbidden (by decide)
  obtain ⟨before, after, hsplit, -, -, hhead, hlast⟩ :=
    trimMatches_split isBlank (text.map foldSpace)
  have hfinalize := finalize_eq text
  set core := trimMatches isBlank (text.map foldSpace)
  have hmem : ∀ c ∈ finalize text, IsPlain c := by
    intro c hc
    apply htext
    rw [← hfold, hsplit]
    apply List.mem_append_right
    apply List.mem_append_left
    rw [hfinalize] at hc
    exact (tidy_sublist core).mem hc
  have hblank : ∀ c, (finalize text).head? = some c → isBlank c = false := by
    rw [hfinalize, (ends_tidy hhead hlast).1]
    exact hhead
  refine ⟨⟨?_, ?_⟩, ?_⟩
  · exact nfc_ne_nil hne
  · intro c hc
    rcases mem_nfc hc with hc | hc | ⟨entry, hentry, rfl⟩
    · exact hmem c hc
    · exact (isPlain_of_startsSyllable hc).1
    · exact (isPlain_of_mem_compositions entry hentry).1
  · intro hfeed
    rcases head?_nfc hfeed with hc | hc | ⟨entry, hentry, heq⟩
    · exact absurd (hblank _ hc) (by decide)
    · exact (isPlain_of_startsSyllable hc).2 rfl
    · exact (isPlain_of_mem_compositions entry hentry).2 heq

theorem isPlain_joinParagraphs {paragraphs : List (List Char)}
    (h : ∀ paragraph ∈ paragraphs, ∀ c ∈ paragraph, IsPlain c) :
  ∀ c ∈ joinParagraphs paragraphs, IsPlain c
  := by
  intro c hc
  rcases Packing.mem_intercalate hc with hfeed | ⟨paragraph, hparagraph, hc⟩
  · rw [List.mem_cons, List.mem_singleton, or_self] at hfeed
    rw [hfeed]
    decide
  · exact h paragraph hparagraph c hc

theorem isPlain_of_mem_splitBlank {block paragraph : List Char} (h : ∀ c ∈ block, IsPlain c)
    (hparagraph : paragraph ∈ splitBlank block) :
  ∀ c ∈ paragraph, IsPlain c
  := by
  obtain ⟨before, after, rfl, -, -⟩ := Lines.exists_split_of_mem_splitBlank hparagraph
  exact fun c hc => h c (List.mem_append_right _ (List.mem_append_left _ hc))

/-- The first paragraphs of a block that starts with no line feed are a block. -/
theorem isBlock_take {block : List Char} (h : IsBlock block) (hhead : block.head? ≠ some '\n')
    {count : ℕ} (hne : (splitBlank block).take count ≠ []) :
  IsBlock (joinParagraphs ((splitBlank block).take count))
  := by
  constructor
  · obtain ⟨first, others, hsplit⟩ := List.exists_cons_of_ne_nil
      (show splitBlank block ≠ [] from Lines.splitBlankFrom_ne_nil [] block)
    have hjoin := Lines.joinParagraphs_splitBlank block
    rw [hsplit] at hjoin hne ⊢
    have hfirst : first ≠ [] := by
      rintro rfl
      rcases eq_or_ne others [] with rfl | hothers
      · exact h.ne_nil hjoin.symm
      · rw [Lines.joinParagraphs_cons hothers] at hjoin
        apply hhead
        rw [← hjoin]
        rfl
    cases count with
    | zero => exact absurd rfl hne
    | succ count =>
        rw [List.take_succ_cons]
        rcases eq_or_ne (others.take count) [] with hnil | htake
        · rw [hnil, joinParagraphs, List.intercalate_singleton]
          exact hfirst
        · rw [Lines.joinParagraphs_cons htake]
          exact List.append_ne_nil_of_left_ne_nil hfirst _
  · apply isPlain_joinParagraphs
    intro paragraph hparagraph
    exact isPlain_of_mem_splitBlank h.plain (List.mem_of_mem_take hparagraph)

/-- The chunks of reply history are blocks. -/
theorem isBlock_chunkReplyHistory {paragraphs : List (List Char)}
    (h : ∀ paragraph ∈ paragraphs, ∀ c ∈ paragraph, IsPlain c) :
  ∀ chunk ∈ chunkReplyHistory paragraphs, IsBlock chunk
  := by
  obtain ⟨groups, hpacked, heq⟩ := exists_chunkReplyHistory paragraphs
  obtain ⟨taken, rest, rfl, hsublist, -, -⟩ := hpacked.taken
  rw [heq]
  intro chunk hchunk
  obtain ⟨group, hgroup, rfl⟩ := List.mem_map.mp hchunk
  obtain ⟨hne, hpiece⟩ := hpacked.pieces group hgroup
  refine ⟨fun hnil => hne (hpiece.intercalate_eq_nil_iff.mp hnil), ?_⟩
  apply isPlain_joinParagraphs
  intro paragraph hparagraph
  apply h
  apply List.mem_append_left
  exact hsublist.mem (List.mem_flatten.mpr ⟨group, hgroup, hparagraph⟩)

/-- Each block that is kept of a body is a block of it, or the first paragraphs of one. -/
theorem of_mem_keptBlocks {body : List (List Char)} {matchGroup matchWithin index : ℕ}
    {kept : List Char}
    (h : kept ∈ keptBlocks matchGroup matchWithin (body.map splitBlank) index) :
  kept ∈ body ∨ ∃ block ∈ body, (splitBlank block).take matchWithin ≠ []
    ∧ kept = joinParagraphs ((splitBlank block).take matchWithin)
  := by
  induction body generalizing index with
  | nil => cases h
  | cons block body ih =>
      rw [List.map_cons, keptBlocks] at h
      dsimp only at h
      rcases List.mem_append.mp h with hmem | hmem
      · split_ifs at hmem with hindex hnil
        · cases hmem
        · rw [List.mem_singleton] at hmem
          exact Or.inr ⟨block, List.mem_cons_self, hnil, hmem⟩
        · rw [List.mem_singleton, Lines.joinParagraphs_splitBlank] at hmem
          rw [hmem]
          exact Or.inl List.mem_cons_self
      · rcases ih hmem with hkept | ⟨other, hother, hrest⟩
        · exact Or.inl (List.mem_cons_of_mem block hkept)
        · exact Or.inr ⟨other, List.mem_cons_of_mem block hother, hrest⟩

/-- Reply history is moved as blocks. -/
theorem isBlock_splitReplyHistory {body quotes : List (List Char)}
    (hbody : ∀ block ∈ body, IsBlock block ∧ block.head? ≠ some '\n')
    (hquotes : ∀ block ∈ quotes, IsBlock block) :
  (∀ block ∈ (splitReplyHistory body quotes).1, IsBlock block)
    ∧ ∀ block ∈ (splitReplyHistory body quotes).2, IsBlock block
  := by
  have hsame : (∀ block ∈ body, IsBlock block) ∧ ∀ block ∈ quotes, IsBlock block :=
    ⟨fun block hblock => (hbody block hblock).1, hquotes⟩
  rw [splitReplyHistory]
  dsimp only
  split
  · exact hsame
  · rename_i found hfound
    split_ifs
    · exact hsame
    · constructor
      · intro kept hkept
        rcases of_mem_keptBlocks hkept with hmem | ⟨block, hblock, hne, rfl⟩
        · exact (hbody kept hmem).1
        · exact isBlock_take (hbody block hblock).1 (hbody block hblock).2 hne
      · intro block hblock
        rcases List.mem_append.mp hblock with hmem | hmem
        · exact hquotes block hmem
        · apply isBlock_chunkReplyHistory _ block hmem
          intro paragraph hparagraph
          have hgroup := List.mem_of_mem_drop hparagraph
          rw [List.getD_eq_getElem?_getD] at hgroup
          cases hfound' : (body.map splitBlank)[(position (body.map splitBlank)
              (lookBack (body.map splitBlank) found)).1]? with
          | none =>
              rw [hfound'] at hgroup
              cases hgroup
          | some group =>
              rw [hfound'] at hgroup
              obtain ⟨entry, hentry, rfl⟩ := List.mem_map.mp (List.mem_of_getElem? hfound')
              exact isPlain_of_mem_splitBlank (hbody entry hentry).1.plain hgroup

/-! ### Operations of the walker -/

theorem notMem_normalizeLineEndings (text : List Char) :
  '\r' ∉ normalizeLineEndings text
  := by
  induction text using normalizeLineEndings.induct with
  | case1 => exact List.not_mem_nil
  | case2 rest ih =>
      rw [normalizeLineEndings, List.mem_cons, not_or]
      exact ⟨by decide, ih⟩
  | case3 c rest hnext ih =>
      rw [normalizeLineEndings, List.mem_cons, not_or]
      · refine ⟨?_, ih⟩
        split_ifs with hc
        · decide
        · exact Ne.symm hc
      · exact hnext

namespace Walker

/-- An operation of the walker: plain text is pushed, or an element is opened or closed. -/
inductive Operates : Walker → Walker → Prop
  | push (walker : Walker) {chunk : List Char} (h : ∀ c ∈ chunk, IsPlain c) :
      Operates walker (walker.push chunk)
  | open (walker : Walker) (category : Category) : Operates walker (walker.open category)
  | closeTop (walker : Walker) : Operates walker walker.closeTop

/-- What the walker comes to by operations. -/
abbrev Comes : Walker → Walker → Prop :=
  Relation.ReflTransGen Operates

variable {walker walker' : Walker}

theorem Operates.emitLf (walker : Walker) :
  Operates walker walker.emitLf
  := by
  apply Operates.push
  intro c hc
  rw [List.mem_singleton.mp hc]
  decide

theorem Operates.of_appendText {chunk : List Char} (h : walker.appendText chunk = .ok walker') :
  Operates walker walker'
  := by
  rw [appendText] at h
  split_ifs at h with hforbidden
  cases h
  apply Operates.push
  intro c hc
  rw [Bool.not_eq_true, List.any_eq_false] at hforbidden
  refine ⟨?_, ?_, ?_⟩
  · rw [← Bool.not_eq_true]
    exact hforbidden c hc
  · rintro rfl
    obtain ⟨d, hd, heq⟩ := List.mem_map.mp hc
    rw [foldSpace] at heq
    split_ifs at heq
    · cases heq
    · rw [heq] at hd
      exact notMem_normalizeLineEndings chunk hd
  · rintro rfl
    obtain ⟨d, hd, heq⟩ := List.mem_map.mp hc
    rw [foldSpace] at heq
    split_ifs at heq with hspace
    · cases heq
    · exact hspace (Or.inl heq)

theorem comes_iterate_closeTop (count : ℕ) (walker : Walker) :
  Comes walker (closeTop^[count] walker)
  := by
  induction count generalizing walker with
  | zero => exact .refl
  | succ count ih =>
      rw [Function.iterate_succ_apply]
      exact .head (.closeTop walker) (ih walker.closeTop)

theorem comes_applyImpliedEndTags (name : String) (walker : Walker) (openNames : List String) :
  Comes walker (applyImpliedEndTags name walker openNames).1
  := by
  induction openNames generalizing walker with
  | nil => exact .refl
  | cons top openNames ih =>
      rw [applyImpliedEndTags]
      split_ifs
      · exact .head (.closeTop walker) (ih walker.closeTop)
      · exact .refl

theorem comes_openElement (name : String) (walker : Walker) (openNames : List String) :
  Comes walker (openElement name walker openNames).1
  := by
  have himplied := comes_applyImpliedEndTags name walker openNames
  rw [openElement]
  dsimp only
  split_ifs
  · exact himplied.tail (.emitLf _)
  · exact himplied
  · split
    · exact himplied
    · exact himplied.tail (.emitLf _)
    · exact himplied.tail (.open _ _)

/-! ### Plain walkers -/

/-- The text and the blocks of the walker have plain characters only. -/
structure Clean (walker : Walker) : Prop where
  active : ∀ c ∈ walker.active, IsPlain c
  captures : ∀ capture, .anchor capture ∈ walker.stack → ∀ c ∈ capture, IsPlain c
  body : ∀ block ∈ walker.bodyBlocks, IsBlock block ∧ block.head? ≠ some '\n'
  quotes : ∀ block ∈ walker.quoteBlocks, IsBlock block
  labels : ∀ block ∈ walker.linkLabels, IsBlock block

theorem of_mem_addBlock {blocks : List (List Char)} {text block : List Char}
    (htext : ∀ c ∈ text, IsPlain c) (h : block ∈ addBlock blocks text) :
  block ∈ blocks ∨ IsBlock block ∧ block.head? ≠ some '\n'
  := by
  rw [addBlock] at h
  split_ifs at h with hnil
  · exact Or.inl h
  · rcases List.mem_append.mp h with hmem | hmem
    · exact Or.inl hmem
    · rw [List.mem_singleton.mp hmem]
      exact Or.inr (isBlock_nfc_finalize htext hnil)

theorem Clean.push (h : walker.Clean) {chunk : List Char} (hchunk : ∀ c ∈ chunk, IsPlain c) :
  (walker.push chunk).Clean
  := by
  refine { h with active := ?_, captures := ?_ }
  · intro c hc
    rcases List.mem_append.mp hc with hc | hc
    · exact h.active c hc
    · exact hchunk c hc
  · intro capture hcapture c hc
    obtain ⟨frame, hframe, heq⟩ := List.mem_map.mp hcapture
    cases frame with
    | anchor before =>
        cases heq
        rcases List.mem_append.mp hc with hc | hc
        · exact h.captures before hframe c hc
        · exact hchunk c hc
    | _ => cases heq

theorem Clean.emitLf (h : walker.Clean) :
  walker.emitLf.Clean
  := by
  apply h.push
  intro c hc
  rw [List.mem_singleton.mp hc]
  decide

theorem Clean.flushBodyIfNonempty (h : walker.Clean) :
  walker.flushBodyIfNonempty.Clean
  := by
  refine { h with active := nofun, body := ?_ }
  intro block hblock
  rcases of_mem_addBlock h.active hblock with hmem | hnew
  · exact h.body block hmem
  · exact hnew

theorem Clean.flushQuoteIfNonempty (h : walker.Clean) :
  walker.flushQuoteIfNonempty.Clean
  := by
  refine { h with active := nofun, quotes := ?_ }
  intro block hblock
  rcases of_mem_addBlock h.active hblock with hmem | hnew
  · exact h.quotes block hmem
  · exact hnew.1

theorem Clean.pushFrame (h : walker.Clean) {frame : Frame}
    (hframe : ∀ capture, frame = .anchor capture → capture = []) :
  (walker.pushFrame frame).Clean
  := by
  refine { h with captures := ?_ }
  intro capture hcapture
  rcases List.mem_cons.mp hcapture with heq | hmem
  · rw [hframe capture heq.symm]
    exact nofun
  · exact h.captures capture hmem

theorem Clean.open (h : walker.Clean) (category : Category) :
  (walker.open category).Clean
  := by
  cases category with
  | block => exact h.emitLf.pushFrame nofun
  | cell => exact h.emitLf.pushFrame nofun
  | quote =>
      have hdeeper : Clean { walker with blockquoteDepth := walker.blockquoteDepth + 1 } :=
        { h with }
      apply Clean.pushFrame
      · split_ifs
        · exact { hdeeper.flushBodyIfNonempty with }
        · exact hdeeper.emitLf
      · rintro capture ⟨⟩
  | anchor =>
      apply h.pushFrame
      rintro capture ⟨⟩
      rfl
  | other => exact h.pushFrame nofun
  | lineBreak => exact h.pushFrame nofun
  | drop => exact h.pushFrame nofun

theorem Clean.closeTop (h : walker.Clean) :
  walker.closeTop.Clean
  := by
  rw [Walker.closeTop]
  split
  · exact h
  · rename_i frame stack hstack
    have hrest : Clean { walker with stack } := by
      refine { h with captures := ?_ }
      intro capture hcapture
      apply h.captures
      rw [hstack]
      exact List.mem_cons_of_mem frame hcapture
    cases frame with
    | block => exact hrest.emitLf
    | cell => exact hrest.emitLf
    | quote wasOutermost =>
        have hshallower :
            Clean { walker with stack, blockquoteDepth := walker.blockquoteDepth - 1 } :=
          { hrest with }
        dsimp only
        split_ifs
        · exact { hshallower.flushQuoteIfNonempty with }
        · exact hshallower.emitLf
    | anchor capture =>
        refine { hrest with labels := ?_ }
        intro block hblock
        have hcapture : ∀ c ∈ capture, IsPlain c := by
          apply h.captures
          rw [hstack]
          exact List.mem_cons_self
        rcases of_mem_addBlock hcapture hblock with hmem | hnew
        · exact h.labels block hmem
        · exact hnew.1
    | other => exact hrest

theorem Comes.clean (h : walker.Comes walker') (hclean : walker.Clean) :
  walker'.Clean
  := by
  induction h with
  | refl => exact hclean
  | tail _ hoperates ih =>
      cases hoperates with
      | push hchunk => exact ih.push hchunk
      | «open» => exact ih.open _
      | closeTop => exact ih.closeTop

/-- The blocks that a plain walker ends with. -/
theorem Clean.isBlock_finish (h : walker.Clean) :
  ∀ block ∈ walker.finish.bodyBlocks ++ walker.finish.quoteBlocks ++ walker.finish.linkLabels,
    IsBlock block
  := by
  have hclosed := (comes_iterate_closeTop walker.stack.length walker).clean h
  have hflushed : Clean (if (Walker.closeTop^[walker.stack.length] walker).inQuote
      then (Walker.closeTop^[walker.stack.length] walker).flushQuoteIfNonempty
      else (Walker.closeTop^[walker.stack.length] walker).flushBodyIfNonempty) := by
    split_ifs
    · exact hclosed.flushQuoteIfNonempty
    · exact hclosed.flushBodyIfNonempty
  obtain ⟨hbody, hquotes⟩ := isBlock_splitReplyHistory hflushed.body hflushed.quotes
  intro block hblock
  rcases List.mem_append.mp hblock with hblock | hblock
  · rcases List.mem_append.mp hblock with hblock | hblock
    · exact hbody block hblock
    · exact hquotes block hblock
  · exact hflushed.labels block hblock

end Walker

namespace Scanner

variable {s next : Scanner}

theorem comes_flushRun {walker : Walker} (h : s.flushRun = .ok walker) :
  s.walker.Comes walker
  := by
  rw [flushRun] at h
  split_ifs at h
  · cases h
    exact .refl
  · exact .single (.of_appendText h)

theorem comes_handleEndTag (text : List Char) (walker : Walker) (openNames : List String) :
  walker.Comes (handleEndTag text walker openNames).2.1
  := by
  rw [handleEndTag]
  split_ifs
  · exact Walker.comes_iterate_closeTop _ walker
  · exact .refl

/-- What a tag does: the text before it is flushed, and it is handled. -/
def Handles (s next : Scanner) : Prop :=
  ∃ walker, s.flushRun = .ok walker ∧ ∃ text,
    (next.walker = (handleEndTag text walker s.openNames).2.1
        ∧ next.openNames = (handleEndTag text walker s.openNames).2.2)
      ∨ next.walker = (handleStartTag text walker s.openNames).2.1
        ∧ next.openNames = (handleStartTag text walker s.openNames).2.2

theorem flushRun_of_handleTag {handled : Walker → List String → List Char × Walker × List String}
    (h : s.handleTag handled = .ok next) :
  ∃ walker, s.flushRun = .ok walker
    ∧ next.walker = (handled walker s.openNames).2.1
    ∧ next.openNames = (handled walker s.openNames).2.2
  := by
  rw [handleTag] at h
  cases hflush : s.flushRun with
  | error e =>
      rw [hflush] at h
      cases h
  | ok walker =>
      rw [hflush] at h
      cases h
      exact ⟨walker, rfl, rfl, rfl⟩

/-- A step leaves the walker and the open elements, or a tag is handled. -/
theorem step_cases (h : s.step = .ok next) :
  (next.walker = s.walker ∧ next.openNames = s.openNames) ∨ s.Handles next
  := by
  rw [step] at h
  split at h
  · cases h
    exact Or.inl ⟨rfl, rfl⟩
  · rename_i c text hrest
    by_cases hc : c = '<'
    · rw [if_pos hc] at h
      cases text with
      | nil =>
          cases h
          exact Or.inl ⟨rfl, rfl⟩
      | cons d after =>
          rw [stepMarkup] at h
          split_ifs at h
          · cases h
            exact Or.inl ⟨rfl, rfl⟩
          · cases h
            exact Or.inl ⟨rfl, rfl⟩
          · obtain ⟨walker, hflush, hhandled⟩ := flushRun_of_handleTag h
            exact Or.inr ⟨walker, hflush, after, Or.inl hhandled⟩
          · obtain ⟨walker, hflush, hhandled⟩ := flushRun_of_handleTag h
            exact Or.inr ⟨walker, hflush, d :: after, Or.inr hhandled⟩
          · cases h
            exact Or.inl ⟨rfl, rfl⟩
    · rw [if_neg hc] at h
      split at h
      · cases h
        exact Or.inl ⟨rfl, rfl⟩
      · cases h
        exact Or.inl ⟨rfl, rfl⟩

/-- What a step does with the walker it does by operations. -/
theorem comes_step (h : s.step = .ok next) :
  s.walker.Comes next.walker
  := by
  rcases step_cases h with ⟨heq, -⟩ | ⟨walker, hflush, text, ⟨heq, -⟩ | ⟨heq, -⟩⟩
  · rw [heq]
  · rw [heq]
    exact (comes_flushRun hflush).trans (comes_handleEndTag text walker s.openNames)
  · rw [heq]
    exact (comes_flushRun hflush).trans (Walker.comes_openElement _ walker s.openNames)

theorem walk_of_ne_nil (h : s.rest ≠ []) :
  s.walk = s.step.bind walk
  := by
  rw [walk, dif_neg h]
  split
  · rename_i e hstep
    rw [hstep]
    rfl
  · rename_i next hstep
    rw [hstep]
    rfl

/-- What a walk does with the walker it does by operations. -/
theorem comes_walk {walker : Walker} (h : s.walk = .ok walker) :
  s.walker.Comes walker
  := by
  induction hlength : s.rest.length using Nat.strong_induction_on generalizing s with
  | h n ih =>
      subst hlength
      by_cases hnil : s.rest = []
      · rw [walk, dif_pos hnil] at h
        exact comes_flushRun h
      · rw [walk_of_ne_nil hnil] at h
        cases hstep : s.step with
        | error e =>
            rw [hstep] at h
            cases h
        | ok next =>
            rw [hstep] at h
            exact (comes_step hstep).trans (ih _ (length_step_lt hnil hstep) h rfl)

end Scanner

/-! ### Open elements -/

/-- The category of the elements with a frame. -/
def Frame.category : Frame → Category
  | .block => .block
  | .cell => .cell
  | .quote _ => .quote
  | .anchor _ => .anchor
  | .other => .other

theorem Frame.category_push (chunk : List Char) (frame : Frame) :
  (frame.push chunk).category = frame.category
  := by cases frame <;> rfl

namespace Walker

variable {walker walker' : Walker}

/-- The categories of the open elements, the last one first. -/
def categories (walker : Walker) : List Category :=
  walker.stack.map Frame.category

@[simp]
theorem categories_push (walker : Walker) (chunk : List Char) :
  (walker.push chunk).categories = walker.categories
  := by
  rw [categories, categories, push, List.map_map]
  apply List.map_congr_left
  intro frame _
  apply Frame.category_push

@[simp]
theorem categories_emitLf (walker : Walker) :
  walker.emitLf.categories = walker.categories
  := categories_push walker _

@[simp]
theorem categories_pushFrame (walker : Walker) (frame : Frame) :
  (walker.pushFrame frame).categories = frame.category :: walker.categories
  := rfl

/-- An element is opened with its category; elements without content are not opened. -/
theorem categories_open (walker : Walker) {category : Category} (hbreak : category ≠ .lineBreak)
    (hdrop : category ≠ .drop) :
  (walker.open category).categories = category :: walker.categories
  := by
  cases category with
  | quote =>
      rw [Walker.open]
      dsimp only
      split_ifs
      · rfl
      · rw [categories_pushFrame, categories_emitLf]
        rfl
  | lineBreak => exact absurd rfl hbreak
  | drop => exact absurd rfl hdrop
  | block => rw [Walker.open, categories_pushFrame, categories_emitLf]; rfl
  | cell => rw [Walker.open, categories_pushFrame, categories_emitLf]; rfl
  | anchor => rfl
  | other => rfl

/-- The last element is closed. -/
theorem categories_closeTop (walker : Walker) :
  walker.closeTop.categories = walker.categories.tail
  := by
  rw [closeTop]
  split
  · rename_i hnil
    rw [categories, hnil]
    rfl
  · rename_i frame stack hstack
    have hrest : walker.categories.tail = stack.map Frame.category := by
      rw [categories, hstack]
      rfl
    rw [hrest]
    cases frame with
    | block => exact categories_emitLf { walker with stack }
    | cell => exact categories_emitLf { walker with stack }
    | quote wasOutermost =>
        dsimp only
        split_ifs
        · rfl
        · exact categories_emitLf { walker with stack, blockquoteDepth := _ }
    | anchor capture => rfl
    | other => rfl

theorem categories_iterate_closeTop (count : ℕ) (walker : Walker) :
  (closeTop^[count] walker).categories = walker.categories.drop count
  := by
  induction count generalizing walker with
  | zero => rfl
  | succ count ih =>
      rw [Function.iterate_succ_apply, ih, categories_closeTop, List.drop_tail]

/-- The names of the open elements are those of the frames. -/
def InStep (walker : Walker) (openNames : List String) : Prop :=
  openNames.map categorize = walker.categories

theorem InStep.iterate_closeTop {openNames : List String} (h : walker.InStep openNames)
    (count : ℕ) :
  InStep (closeTop^[count] walker) (openNames.drop count)
  := by rw [InStep, categories_iterate_closeTop, ← h, List.map_drop]

theorem InStep.applyImpliedEndTags {openNames : List String} (name : String)
    (h : walker.InStep openNames) :
  InStep (applyImpliedEndTags name walker openNames).1 (applyImpliedEndTags name walker openNames).2
  := by
  induction openNames generalizing walker with
  | nil => exact h
  | cons top openNames ih =>
      rw [Inference.applyImpliedEndTags]
      split_ifs
      · apply ih
        exact h.iterate_closeTop 1
      · exact h

theorem InStep.openElement {openNames : List String} (name : String)
    (h : walker.InStep openNames) :
  InStep (openElement name walker openNames).1 (openElement name walker openNames).2
  := by
  have himplied := h.applyImpliedEndTags name
  rw [Inference.openElement]
  dsimp only
  split_ifs
  · rw [InStep, categories_emitLf]
    exact himplied
  · exact himplied
  · split
    · exact himplied
    · rw [InStep, categories_emitLf]
      exact himplied
    · rename_i hdrop hbreak
      rw [InStep, categories_open _ hbreak hdrop, ← himplied]
      rfl

end Walker

/-! ### Quotes -/

/-- How many of the frames are of quotes. -/
def quoteFrames (stack : List Frame) : ℕ :=
  (stack.map Frame.category).count .quote

theorem quoteFrames_quote (wasOutermost : Bool) (stack : List Frame) :
  quoteFrames (.quote wasOutermost :: stack) = quoteFrames stack + 1
  := List.count_cons_self

theorem quoteFrames_map_push (chunk : List Char) (stack : List Frame) :
  quoteFrames (stack.map (Frame.push chunk)) = quoteFrames stack
  := by
  rw [quoteFrames, quoteFrames, List.map_map]
  apply congrArg (List.count Category.quote)
  apply List.map_congr_left
  intro frame _
  apply Frame.category_push

/-- The quotes among the frames have it whether they are the outermost ones. -/
def MarksOutermost (stack : List Frame) : Prop :=
  ∀ above wasOutermost below, stack = above ++ .quote wasOutermost :: below →
    (wasOutermost = true ↔ quoteFrames below = 0)

section

variable {stack : List Frame}

theorem MarksOutermost.map_push (h : MarksOutermost stack) (chunk : List Char) :
  MarksOutermost (stack.map (Frame.push chunk))
  := by
  intro above wasOutermost below hstack
  obtain ⟨above', rest, hsplit, rfl, hrest⟩ := List.map_eq_append_iff.mp hstack
  obtain ⟨frame, below', rfl, hframe, rfl⟩ := List.map_eq_cons_iff.mp hrest
  rw [quoteFrames_map_push]
  cases frame with
  | quote outermost =>
      cases hframe
      exact h above' wasOutermost below' hsplit
  | _ => cases hframe

theorem MarksOutermost.cons {frame : Frame} (h : MarksOutermost stack)
    (hframe : ∀ wasOutermost, frame = .quote wasOutermost →
      (wasOutermost = true ↔ quoteFrames stack = 0)) :
  MarksOutermost (frame :: stack)
  := by
  intro above wasOutermost below hstack
  cases above with
  | nil =>
      cases hstack
      exact hframe wasOutermost rfl
  | cons top above =>
      obtain ⟨-, hrest⟩ := List.cons.inj hstack
      exact h above wasOutermost below hrest

theorem MarksOutermost.tail {frame : Frame} (h : MarksOutermost (frame :: stack)) :
  MarksOutermost stack
  := by
  intro above wasOutermost below hstack
  apply h (frame :: above)
  rw [hstack]
  rfl

end

namespace Walker

variable {walker walker' : Walker}

/-- The depth is the number of open quotes, and the text goes to a quote when there is one. -/
structure Attributed (walker : Walker) : Prop where
  depth_eq : walker.blockquoteDepth = quoteFrames walker.stack
  inQuote_iff : walker.inQuote = true ↔ 0 < walker.blockquoteDepth
  outermost : MarksOutermost walker.stack

/-- Text is pushed to the active block, and no block ends. -/
structure Continues (walker walker' : Walker) : Prop where
  body_eq : walker'.bodyBlocks = walker.bodyBlocks
  quotes_eq : walker'.quoteBlocks = walker.quoteBlocks
  active_grows : walker.active <+: walker'.active
  depth_iff : 0 < walker'.blockquoteDepth ↔ 0 < walker.blockquoteDepth

/-- The active block ends: it goes to the quotes when the depth is positive, and to the body when it
is not, and the next block has the other depth. -/
structure EndsBlock (walker walker' : Walker) : Prop where
  body_eq : walker'.bodyBlocks = if 0 < walker.blockquoteDepth then walker.bodyBlocks
    else addBlock walker.bodyBlocks walker.active
  quotes_eq : walker'.quoteBlocks = if 0 < walker.blockquoteDepth
    then addBlock walker.quoteBlocks walker.active else walker.quoteBlocks
  active_eq : walker'.active = []
  depth_iff : 0 < walker'.blockquoteDepth ↔ ¬ 0 < walker.blockquoteDepth

theorem Continues.refl (walker : Walker) :
  Continues walker walker
  := ⟨rfl, rfl, List.prefix_refl _, Iff.rfl⟩

theorem continues_push (walker : Walker) (chunk : List Char) :
  Continues walker (walker.push chunk)
  := ⟨rfl, rfl, List.prefix_append _ _, Iff.rfl⟩

theorem Attributed.push (h : walker.Attributed) (chunk : List Char) :
  (walker.push chunk).Attributed
  := by
  refine ⟨?_, h.inQuote_iff, h.outermost.map_push chunk⟩
  exact h.depth_eq.trans (quoteFrames_map_push chunk walker.stack).symm

/-- An element that is no quote is opened. -/
theorem Attributed.pushFrame (h : walker.Attributed) {frame : Frame}
    (hframe : frame.category ≠ .quote) :
  (walker.pushFrame frame).Attributed
  := by
  refine ⟨?_, h.inQuote_iff, ?_⟩
  · exact h.depth_eq.trans (List.count_cons_of_ne hframe).symm
  · apply h.outermost.cons
    rintro wasOutermost rfl
    exact absurd rfl hframe

/-- A quote is opened within a quote, or it is the outermost one and the block before it ends. -/
theorem Attributed.open_quote (h : walker.Attributed) :
  (walker.open .quote).Attributed
    ∧ (Continues walker (walker.open .quote) ∨ EndsBlock walker (walker.open .quote))
  := by
  rw [Walker.open]
  dsimp only
  split_ifs with hdepth
  · have hnone : quoteFrames walker.stack = 0 := by
      rw [← h.depth_eq]
      exact hdepth
    constructor
    · refine ⟨?_, ?_, ?_⟩
      · change walker.blockquoteDepth + 1 = quoteFrames (.quote _ :: walker.stack)
        rw [quoteFrames_quote, h.depth_eq]
      · exact iff_of_true rfl (Nat.succ_pos _)
      · apply h.outermost.cons
        rintro _ ⟨⟩
        exact iff_of_true (decide_eq_true hdepth) hnone
    · right
      refine ⟨?_, ?_, rfl, ?_⟩
      · rw [if_neg (by omega)]
        rfl
      · rw [if_neg (by omega)]
        rfl
      · exact iff_of_true (Nat.succ_pos _) (by omega)
  · have hsome : quoteFrames walker.stack ≠ 0 := by
      rw [← h.depth_eq]
      exact hdepth
    constructor
    · refine ⟨?_, ?_, ?_⟩
      · change walker.blockquoteDepth + 1
          = quoteFrames (.quote _ :: walker.stack.map (Frame.push ['\n']))
        rw [quoteFrames_quote, quoteFrames_map_push, h.depth_eq]
      · exact h.inQuote_iff.trans (iff_of_true (Nat.pos_of_ne_zero hdepth) (Nat.succ_pos _))
      · apply (h.outermost.map_push ['\n']).cons
        rintro _ ⟨⟩
        rw [quoteFrames_map_push]
        exact iff_of_false (by simpa using hdepth) hsome
    · left
      exact ⟨rfl, rfl, List.prefix_append _ _,
        iff_of_true (Nat.succ_pos _) (Nat.pos_of_ne_zero hdepth)⟩

theorem Attributed.open (h : walker.Attributed) (category : Category) :
  (walker.open category).Attributed
    ∧ (Continues walker (walker.open category) ∨ EndsBlock walker (walker.open category))
  := by
  have hfeed : (walker.emitLf).Attributed ∧ Continues walker walker.emitLf :=
    ⟨h.push ['\n'], continues_push walker ['\n']⟩
  cases category with
  | quote => exact h.open_quote
  | block => exact ⟨hfeed.1.pushFrame (by decide), Or.inl { hfeed.2 with }⟩
  | cell => exact ⟨hfeed.1.pushFrame (by decide), Or.inl { hfeed.2 with }⟩
  | anchor => exact ⟨h.pushFrame nofun, Or.inl { Continues.refl walker with }⟩
  | other => exact ⟨h.pushFrame nofun, Or.inl { Continues.refl walker with }⟩
  | lineBreak => exact ⟨h.pushFrame nofun, Or.inl { Continues.refl walker with }⟩
  | drop => exact ⟨h.pushFrame nofun, Or.inl { Continues.refl walker with }⟩

/-- The depth is positive when a quote is closed. -/
theorem Attributed.depth_pos (h : walker.Attributed) {wasOutermost : Bool} {stack : List Frame}
    (hstack : walker.stack = .quote wasOutermost :: stack) :
  walker.blockquoteDepth = quoteFrames stack + 1
  := by
  rw [h.depth_eq, hstack, quoteFrames_quote]

theorem Attributed.closeTop (h : walker.Attributed) :
  walker.closeTop.Attributed
    ∧ (Continues walker walker.closeTop ∨ EndsBlock walker walker.closeTop)
  := by
  rw [Walker.closeTop]
  split
  · exact ⟨h, Or.inl (.refl walker)⟩
  · rename_i frame stack hstack
    have houtermost := h.outermost
    rw [hstack] at houtermost
    -- what is left when the frame is of no quote
    have hrest : frame.category ≠ .quote → Attributed { walker with stack } := by
      intro hframe
      refine ⟨?_, h.inQuote_iff, houtermost.tail⟩
      apply h.depth_eq.trans
      rw [hstack]
      exact List.count_cons_of_ne hframe
    cases frame with
    | block =>
        exact ⟨(hrest nofun).push ['\n'], Or.inl { continues_push walker ['\n'] with }⟩
    | cell =>
        exact ⟨(hrest nofun).push ['\n'], Or.inl { continues_push walker ['\n'] with }⟩
    | quote wasOutermost =>
        have hdepth := h.depth_pos hstack
        have hmark := h.outermost [] wasOutermost stack hstack
        dsimp only
        split_ifs with houter
        · have hnone := hmark.mp houter
          constructor
          · refine ⟨?_, ?_, houtermost.tail⟩
            · change walker.blockquoteDepth - 1 = quoteFrames stack
              omega
            · apply iff_of_false Bool.false_ne_true
              change ¬ 0 < walker.blockquoteDepth - 1
              omega
          · right
            refine ⟨?_, ?_, rfl, ?_⟩
            · rw [if_pos (by omega)]
              rfl
            · rw [if_pos (by omega)]
              rfl
            · change 0 < walker.blockquoteDepth - 1 ↔ _
              omega
        · have hsome : quoteFrames stack ≠ 0 := fun hnone => houter (hmark.mpr hnone)
          constructor
          · refine ⟨?_, ?_, houtermost.tail.map_push ['\n']⟩
            · change walker.blockquoteDepth - 1 = quoteFrames (stack.map (Frame.push ['\n']))
              rw [quoteFrames_map_push]
              omega
            · apply h.inQuote_iff.trans
              change 0 < walker.blockquoteDepth ↔ 0 < walker.blockquoteDepth - 1
              omega
          · left
            refine ⟨rfl, rfl, List.prefix_append _ _, ?_⟩
            change 0 < walker.blockquoteDepth - 1 ↔ _
            omega
    | anchor capture =>
        have hlabels := hrest nofun
        exact ⟨⟨hlabels.depth_eq, hlabels.inQuote_iff, hlabels.outermost⟩,
          Or.inl { Continues.refl walker with }⟩
    | other => exact ⟨hrest nofun, Or.inl { Continues.refl walker with }⟩

/-- Each operation keeps the attribution, and goes on with the block or ends it. -/
theorem Operates.attributed (h : Operates walker walker') (hwalker : walker.Attributed) :
  walker'.Attributed ∧ (Continues walker walker' ∨ EndsBlock walker walker')
  := by
  cases h with
  | push hchunk => exact ⟨hwalker.push _, Or.inl (continues_push walker _)⟩
  | «open» => exact hwalker.open _
  | closeTop => exact hwalker.closeTop

theorem Comes.attributed (h : walker.Comes walker') (hwalker : walker.Attributed) :
  walker'.Attributed
  := by
  induction h with
  | refl => exact hwalker
  | tail _ hoperates ih => exact (hoperates.attributed ih).1

end Walker

/-! ### Runs of the scan -/

namespace Scanner

variable {s next last : Scanner}

theorem inStep_handleEndTag (text : List Char) {walker : Walker} {openNames : List String}
    (h : walker.InStep openNames) :
  (handleEndTag text walker openNames).2.1.InStep (handleEndTag text walker openNames).2.2
  := by
  rw [handleEndTag]
  split_ifs
  · exact h.iterate_closeTop _
  · exact h

theorem inStep_flushRun {walker : Walker} {openNames : List String} (h : s.flushRun = .ok walker)
    (hstep : s.walker.InStep openNames) :
  walker.InStep openNames
  := by
  rw [flushRun] at h
  split_ifs at h
  · cases h
    exact hstep
  · rw [Walker.appendText] at h
    split_ifs at h
    cases h
    exact hstep.trans (Walker.categories_push _ _).symm

/-- A step keeps the names of the open elements and the frames in step. -/
theorem inStep_step (h : s.step = .ok next) (hstep : s.walker.InStep s.openNames) :
  next.walker.InStep next.openNames
  := by
  rcases step_cases h with ⟨heq, hnames⟩ | ⟨walker, hflush, text, ⟨heq, hnames⟩ | ⟨heq, hnames⟩⟩
  · rw [heq, hnames]
    exact hstep
  · rw [heq, hnames]
    exact inStep_handleEndTag text (inStep_flushRun hflush hstep)
  · rw [heq, hnames]
    exact (inStep_flushRun hflush hstep).openElement (tagName text)

theorem length_applyImpliedEndTags_le (name : String) (walker : Walker) (openNames : List String) :
  (applyImpliedEndTags name walker openNames).2.length ≤ openNames.length
  := by
  induction openNames generalizing walker with
  | nil => exact le_refl _
  | cons top openNames ih =>
      rw [applyImpliedEndTags]
      split_ifs
      · exact (ih walker.closeTop).trans (Nat.le_succ _)
      · exact le_refl _

/-- A step opens one element at most. -/
theorem length_openNames_step (h : s.step = .ok next) :
  next.openNames.length ≤ s.openNames.length + 1
  := by
  rcases step_cases h with ⟨-, hnames⟩ | ⟨walker, -, text, ⟨-, hnames⟩ | ⟨-, hnames⟩⟩
  · rw [hnames]
    exact Nat.le_succ _
  · rw [hnames, handleEndTag]
    split_ifs
    · exact (List.drop_sublist _ _).length_le.trans (Nat.le_succ _)
    · exact Nat.le_succ _
  · have himplied := length_applyImpliedEndTags_le (tagName text) walker s.openNames
    rw [hnames, handleStartTag, openElement]
    dsimp only
    split_ifs
    · exact himplied.trans (Nat.le_succ _)
    · exact himplied.trans (Nat.le_succ _)
    · split
      · exact himplied.trans (Nat.le_succ _)
      · exact himplied.trans (Nat.le_succ _)
      · exact Nat.succ_le_succ himplied

/-- The scan comes from a state to another one in a number of steps. -/
inductive Runs : ℕ → Scanner → Scanner → Prop
  | refl (s : Scanner) : Runs 0 s s
  | step {count : ℕ} {s next last : Scanner} (hne : s.rest ≠ []) (h : s.step = .ok next)
      (hrest : Runs count next last) : Runs (count + 1) s last

/-- How a scan ends: at the end of the hypertext, or with an error. -/
def Ends (s : Scanner) (result : Except ScalarError Walker) : Prop :=
  (s.rest = [] ∧ result = s.flushRun) ∨ s.rest ≠ [] ∧ ∃ e, s.step = .error e ∧ result = .error e

/-- The scan ends, and gives what the walk gives. -/
theorem exists_runs_ends (s : Scanner) :
  ∃ count last, Runs count s last ∧ last.Ends s.walk
  := by
  induction hlength : s.rest.length using Nat.strong_induction_on generalizing s with
  | h n ih =>
      subst hlength
      by_cases hnil : s.rest = []
      · refine ⟨0, s, .refl s, Or.inl ⟨hnil, ?_⟩⟩
        rw [walk, dif_pos hnil]
      · rw [walk_of_ne_nil hnil]
        cases hstep : s.step with
        | error e => exact ⟨0, s, .refl s, Or.inr ⟨hnil, e, hstep, rfl⟩⟩
        | ok next =>
            obtain ⟨count, last, hruns, hends⟩ := ih _ (length_step_lt hnil hstep) next rfl
            exact ⟨count + 1, last, .step hnil hstep hruns, hends⟩

/-- What a run keeps. -/
theorem Runs.spec {count : ℕ} (h : Runs count s last) (hstep : s.walker.InStep s.openNames) :
  last.walker.InStep last.openNames ∧ s.walker.Comes last.walker ∧ last.rest <:+ s.rest
    ∧ count + last.rest.length ≤ s.rest.length
    ∧ last.openNames.length ≤ s.openNames.length + count
  := by
  induction h with
  | refl s => exact ⟨hstep, .refl, List.suffix_refl _, by rw [Nat.zero_add], le_refl _⟩
  | @step count s next last hne h hrest ih =>
      obtain ⟨hlast, hcomes, hsuffix, hlength, hnames⟩ := ih (inStep_step h hstep)
      have hshort := length_step_lt hne h
      have hopens := length_openNames_step h
      refine ⟨hlast, (comes_step h).trans hcomes, hsuffix.trans ?_, by omega, by omega⟩
      obtain ⟨c, text, htext⟩ := List.exists_cons_of_ne_nil hne
      rw [htext]
      exact (rest_suffix_of_step htext h).trans (List.suffix_cons c text)

end Scanner

/-- Walks are in lockstep.  In every state of a walk the open elements are those of the frames, each
step goes on in the hypertext, and the depth is no more than the number of steps; in every state of
the walker, also within a step, the depth is the number of frames of quotes, it is positive when one
is closed, and a block that ends goes to the quotes exactly when it is positive.  A walk ends. -/
theorem walk_lockstep (input : List Char) :
  (∀ count s, Scanner.Runs count { rest := input } s →
    s.openNames.length = s.walker.stack.length
      ∧ s.openNames.map categorize = s.walker.stack.map Frame.category
      ∧ s.rest <:+ input ∧ count + s.rest.length ≤ input.length
      ∧ s.walker.blockquoteDepth ≤ count
      ∧ (∀ next, s.rest ≠ [] → s.step = .ok next →
        s.walker.Comes next.walker ∧ next.rest.length < s.rest.length)
      ∧ ∀ walker, s.walker.Comes walker →
        walker.blockquoteDepth = quoteFrames walker.stack
          ∧ (∀ wasOutermost stack, walker.stack = .quote wasOutermost :: stack →
            0 < walker.blockquoteDepth)
          ∧ (walker.inQuote = true ↔ 0 < walker.blockquoteDepth)
          ∧ ∀ walker', walker.Operates walker' →
            walker.Continues walker' ∨ walker.EndsBlock walker')
    ∧ ∃ count last, Scanner.Runs count { rest := input } last
      ∧ last.Ends (Scanner.walk { rest := input })
  := by
  have hempty : Walker.Attributed {} := ⟨rfl, iff_of_false Bool.false_ne_true (lt_irrefl 0), by
    intro above wasOutermost below hstack
    exact absurd hstack.symm (List.append_ne_nil_of_right_ne_nil _ (List.cons_ne_nil _ _))⟩
  constructor
  · intro count s hruns
    obtain ⟨hstep, hcomes, hsuffix, hlength, hnames⟩ := hruns.spec rfl
    have hsame := congrArg List.length hstep
    rw [List.length_map, Walker.categories, List.length_map] at hsame
    have hattributed := hcomes.attributed hempty
    refine ⟨hsame, hstep, hsuffix, hlength, ?_, ?_, ?_⟩
    · rw [hattributed.depth_eq]
      apply List.count_le_length.trans
      rw [List.length_map, ← hsame]
      rwa [List.length_nil, Nat.zero_add] at hnames
    · intro next hne hnext
      exact ⟨Scanner.comes_step hnext, Scanner.length_step_lt hne hnext⟩
    · intro walker hwalker
      have hinner := hwalker.attributed hattributed
      refine ⟨hinner.depth_eq, ?_, hinner.inQuote_iff, ?_⟩
      · intro wasOutermost stack hstack
        rw [hinner.depth_pos hstack]
        exact Nat.succ_pos _
      · intro walker' hoperates
        exact (hoperates.attributed hinner).2
  · exact Scanner.exists_runs_ends _

/-- What an accepted hypertext emits. -/
theorem isBlock_of_canonicalizeHtml {input : List Char} {out : WalkOutput}
    (h : canonicalizeHtml input = .ok out) :
  ∀ block ∈ out.bodyBlocks ++ out.quoteBlocks ++ out.linkLabels, IsBlock block
  := by
  rw [canonicalizeHtml] at h
  obtain ⟨⟨⟩, -, h⟩ := Except.bind_eq_ok.mp h
  obtain ⟨walker, hwalk, h⟩ := Except.bind_eq_ok.mp h
  cases h
  apply Walker.Clean.isBlock_finish
  apply (Scanner.comes_walk hwalk).clean
  exact ⟨nofun, nofun, nofun, nofun, nofun⟩

end Inference
