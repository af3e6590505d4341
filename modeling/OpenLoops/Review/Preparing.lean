import OpenLoops.Inference.CanonicalSize
import OpenLoops.Review.BodyText
import OpenLoops.Review.Sources

/-!
# Reading mail

The texts of a message are made blocks, which are of limited size: the paragraphs of its body, the
chunks of what it quotes, its subject and its participants.  A message is refused when one of them is
too long or has forbidden scalars, or when there are too many.
-/

namespace Review

open Graph (ConnectionError MailItem)
open Inference (CanonicalBlock CanonicalMessage canonicalSize canonicalText canonicalizePlain
  chunkReplyHistory isForbiddenScalar maxScalarsPerBlock rejectForbiddenScalars)
open Lines (paragraphs)

/-! ### Blocks -/

/-- The text as a block, when it is not too long for one. -/
def newBlock (text : List Char) : Option CanonicalBlock :=
  if h : text.length ≤ maxScalarsPerBlock then some ⟨text, h⟩ else none

def block (text : List Char) : Except ConnectionError CanonicalBlock :=
  match canonicalizePlain text with
  | .error _ => .error .resourceUnavailable
  | .ok text =>
      if 8192 < text.length then .error .responseTooLarge
      else (newBlock text).okOr .responseTooLarge

/-- A text is a block when it has no forbidden scalar and its canonical text is short. -/
theorem block_eq_ok_iff {text : List Char} {b : CanonicalBlock} :
  block text = .ok b ↔ ((∀ c ∈ text, isForbiddenScalar c = false) ∧ canonicalSize text ≤ 8192)
    ∧ b.scalars = canonicalText text
  := by
  rw [block, canonicalizePlain, rejectForbiddenScalars]
  by_cases hany : text.any isForbiddenScalar = true
  · rw [if_pos hany]
    apply iff_of_false
    · nofun
    · rintro ⟨⟨hnone, -⟩, -⟩
      obtain ⟨c, hc, hforbidden⟩ := List.any_eq_true.mp hany
      rw [hnone c hc] at hforbidden
      cases hforbidden
  · have hnone : ∀ c ∈ text, isForbiddenScalar c = false := by
      intro c hc
      rw [← Bool.not_eq_true]
      exact fun hforbidden => hany (List.any_eq_true.mpr ⟨c, hc, hforbidden⟩)
    rw [if_neg hany]
    change (if 8192 < canonicalSize text then _ else _) = _ ↔ _
    split_ifs with hlong
    · apply iff_of_false
      · nofun
      · rintro ⟨⟨-, hle⟩, -⟩
        exact absurd hlong (Nat.not_lt.mpr hle)
    · have hle : canonicalSize text ≤ 8192 := Nat.le_of_not_lt hlong
      have hbounded : (canonicalText text).length ≤ maxScalarsPerBlock := hle.trans (by decide)
      rw [Option.okOr_eq_ok]
      change newBlock (canonicalText text) = _ ↔ _
      rw [newBlock, dif_pos hbounded, Option.some_inj, and_iff_right ⟨hnone, hle⟩]
      constructor
      · rintro rfl
        rfl
      · obtain ⟨scalars, hscalars⟩ := b
        rintro rfl
        rfl

/-- The text fits in a block. -/
def Fits (text : List Char) : Prop :=
  ∃ b, block text = .ok b

theorem fits_iff {text : List Char} :
  Fits text ↔ (∀ c ∈ text, isForbiddenScalar c = false) ∧ canonicalSize text ≤ 8192
  := by
  constructor
  · rintro ⟨b, hb⟩
    apply (block_eq_ok_iff.mp hb).1
  · intro h
    have hbounded : (canonicalText text).length ≤ maxScalarsPerBlock := h.2.trans (by decide)
    exact ⟨⟨canonicalText text, hbounded⟩, block_eq_ok_iff.mpr ⟨h, rfl⟩⟩

/-- Texts are blocks when all of them fit, and these are their canonical texts. -/
theorem exists_mapM_block_iff {texts : List (List Char)} :
  (∃ blocks, texts.mapM block = .ok blocks) ↔ ∀ text ∈ texts, Fits text
  := by
  constructor
  · rintro ⟨blocks, h⟩ text htext
    apply Except.exists_of_mapM_eq_ok h htext
  · intro h
    induction texts with
    | nil => exact ⟨[], rfl⟩
    | cons text texts ih =>
        obtain ⟨b, hb⟩ := h text List.mem_cons_self
        obtain ⟨blocks, hblocks⟩ := ih fun text' htext' => h text' (List.mem_cons_of_mem _ htext')
        refine ⟨b :: blocks, ?_⟩
        rw [List.mapM_cons, hb, hblocks]
        rfl

theorem scalars_of_mapM_block {texts : List (List Char)} {blocks : List CanonicalBlock}
    (h : texts.mapM block = .ok blocks) :
  blocks.map (·.scalars) = texts.map canonicalText
  := by
  rw [Except.mapM_eq_ok] at h
  induction h with
  | nil => rfl
  | cons hfirst hrest ih => rw [List.map_cons, List.map_cons, ih, (block_eq_ok_iff.mp hfirst).2]

/-! ### Messages -/

/-- How times are read, and written for a reader. -/
structure DateReader where
  parseRfc3339 : String → Option ℤ
  dateLabel : ℤ → Option String

/-- The texts of a page. -/
structure WalkedText where
  bodyBlocks : List (List Char)
  quoteBlocks : List (List Char)
  linkLabels : List (List Char)

/-- The blocks of the body, of what it quotes, and of its links. -/
structure BodyBlocks where
  bodyBlocks : List CanonicalBlock
  quoteBlocks : List CanonicalBlock
  linkLabels : List CanonicalBlock

def readPlain (text : List Char) : Except ConnectionError BodyBlocks := do
  let (body, quote) := plainBody text
  let bodyBlocks ← (plainBodyBlocks body).mapM block
  let quoteParagraphs := (paragraphs quote).flatMap splitOversizedParagraphByLines
  let quoteBlocks ← (chunkReplyHistory quoteParagraphs).mapM block
  return { bodyBlocks, quoteBlocks, linkLabels := [] }

section

variable (walk : List Char → Option WalkedText) (dates : DateReader)

def readHtml (text : List Char) : Except ConnectionError BodyBlocks := do
  let walked ← (walk text).okOr ConnectionError.resourceUnavailable
  let bodyBlocks ← (paragraphBodyBlocks walked.bodyBlocks).mapM block
  let quoteBlocks ← walked.quoteBlocks.mapM block
  let linkLabels ← walked.linkLabels.mapM block
  return { bodyBlocks, quoteBlocks, linkLabels }

/-- The times of the event of a message. -/
def mailEventTime (item : MailItem) : Option (ℤ × ℤ × Bool) := do
  let event ← item.event
  let start ← dates.parseRfc3339 event.start
  let stop ← dates.parseRfc3339 event.end
  return (start, stop, event.outOfDate)

/-- The sender, when there is one. -/
def readSender (item : MailItem) : Except ConnectionError (Option CanonicalBlock) :=
  if item.sender = "" then .ok none else (block item.sender.toList).map some

def readMail : MailReader := fun item => do
  let body ← if item.bodyIsHtml then readHtml walk item.body.toList else readPlain item.body.toList
  if 64 < 1 + body.bodyBlocks.length + body.quoteBlocks.length then
    throw ConnectionError.responseTooLarge
  let timestamp ← (dates.parseRfc3339 item.received).okOr ConnectionError.resourceUnavailable
  let subject ← block item.subject.toList
  let sender ← readSender item
  let receivers ← item.to.mapM fun address => block address.toList
  let cc ← item.cc.mapM fun address => block address.toList
  let dateLabel ← (dates.dateLabel timestamp).okOr ConnectionError.resourceUnavailable
  return {
    message := {
      subject
      bodyBlocks := body.bodyBlocks
      quoteBlocks := body.quoteBlocks
      sender
      «to» := receivers
      cc
      attachmentNames := []
      linkLabels := body.linkLabels }
    timestamp
    dateLabel
    event := mailEventTime dates item }

end

end Review
