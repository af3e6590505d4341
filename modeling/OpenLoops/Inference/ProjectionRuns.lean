import Mathlib.Data.List.Forall2
import OpenLoops.Inference.Projection

/-!
# What a projection leaves out

Every block that is sent stands where it stood in its message, and all blocks are sent but those
that are to be omitted and the quotes of texts that were there before.  The texts of quotes that
are left out are still sent elsewhere exactly when no text was taken from body blocks that are
omitted alone.
-/

namespace Inference

open Contracts

/-! ### The blocks of a message -/

/-- A block of a message, with the place where it stands. -/
structure Entry where
  component : EvidenceComponent
  ordinal : ℕ
  block : CanonicalBlock

/-- The block as it is sent. -/
def Entry.projected (entry : Entry) : ProjectedBlock :=
  ⟨entry.component, entry.ordinal, entry.block.scalarLen, entry.block.asString⟩

/-- What is sent of a block tells which one it is. -/
theorem Entry.projected_injective :
  Function.Injective Entry.projected
  := by
  rintro ⟨component, ordinal, ⟨scalars, _⟩⟩ ⟨component', ordinal', ⟨scalars', _⟩⟩ h
  obtain ⟨rfl, rfl, -, htext⟩ := ProjectedBlock.mk.inj h
  obtain rfl : scalars = scalars' := String.ofList_injective htext
  rfl

/-- The blocks of a component. -/
def componentEntries (component : EvidenceComponent) (items : List CanonicalBlock) : List Entry :=
  items.zipIdx.map fun item => ⟨component, item.2, item.1⟩

/-- The blocks of a message, in the order in which they are sent. -/
def entries (message : CanonicalMessage) : List Entry :=
  componentEntries .subject [message.subject] ++ componentEntries .bodyBlock message.bodyBlocks
    ++ componentEntries .quoteBlock message.quoteBlocks
    ++ (componentEntries .sender message.sender.toList
      ++ componentEntries .«to» message.«to» ++ componentEntries .cc message.cc
      ++ componentEntries .attachmentName message.attachmentNames
      ++ componentEntries .linkLabel message.linkLabels)

/-- The block is a quote. -/
def Entry.isQuote (entry : Entry) : Bool :=
  entry.component = .quoteBlock

/-- The block is a body block that is to be omitted. -/
def Entry.isOmitted (omitted : Finset ℕ) (entry : Entry) : Bool :=
  entry.component = .bodyBlock && entry.ordinal ∈ omitted

theorem mem_componentEntries {component : EvidenceComponent} {items : List CanonicalBlock}
    {entry : Entry} :
  entry ∈ componentEntries component items ↔
    entry.component = component ∧ items[entry.ordinal]? = some entry.block
  := by
  obtain ⟨component', ordinal, block⟩ := entry
  simp only [componentEntries, List.mem_map, Prod.exists, List.mk_mem_zipIdx_iff_getElem?,
    Entry.mk.injEq]
  constructor
  · rintro ⟨_, _, hitem, rfl, rfl, rfl⟩
    exact ⟨rfl, hitem⟩
  · rintro ⟨rfl, hitem⟩
    exact ⟨block, ordinal, hitem, rfl, rfl, rfl⟩

/-- The sizes of a message that can be projected. -/
structure CanonicalMessage.Sized (message : CanonicalMessage) : Prop where
  texts : 1 + message.bodyBlocks.length + message.quoteBlocks.length ≤ 64
  participants : message.sender.toList.length + message.«to».length + message.cc.length ≤ 500
  attachments : message.attachmentNames.length ≤ 256
  links : message.linkLabels.length ≤ 256

/-- Evidence that cites the place of a block resolves to it. -/
theorem resolveBlock_of_mem {message : CanonicalMessage} (hsized : message.Sized) {entry : Entry}
    (hentry : entry ∈ entries message) :
  (UInt16.ofNat entry.ordinal).toNat = entry.ordinal
    ∧ resolveBlock message entry.component (UInt16.ofNat entry.ordinal) = some entry.block
  := by
  obtain ⟨htexts, hparticipants, hattachments, hlinks⟩ := hsized
  obtain ⟨component, ordinal, block⟩ := entry
  simp only [entries, List.mem_append, mem_componentEntries] at hentry
  have hone : [message.subject].length = 1 := rfl
  have hfits : ordinal < 2 ^ 16 → (UInt16.ofNat ordinal).toNat = ordinal :=
    UInt16.toNat_ofNat_of_lt'
  rcases hentry with ((h | h) | h) | ((((h | h) | h) | h) | h)
  all_goals
    obtain ⟨rfl, hitem⟩ := h
    have hlt := (List.getElem?_eq_some_iff.mp hitem).1
    have hordinal := hfits (by omega)
    refine ⟨hordinal, ?_⟩
    simp only [resolveBlock, hordinal]
  · obtain rfl : ordinal = 0 := by simpa using hlt
    simpa using hitem
  · exact hitem
  · exact hitem
  · cases hsender : message.sender with
    | none => simp [hsender] at hitem
    | some sender =>
        rw [hsender] at hitem hlt
        obtain rfl : ordinal = 0 := by simpa using hlt
        simpa using hitem
  · exact hitem
  · exact hitem
  · exact hitem
  · exact hitem

/-! ### Loops over blocks -/

/-- A block that is pushed comes after those before. -/
theorem pushProjectedBlock_eq_ok {component : EvidenceComponent} {ordinal : ℕ}
    {block : CanonicalBlock} {pushed pushed' : Pushed}
    (h : pushProjectedBlock component ordinal block pushed = .ok pushed') :
  pushed'.blocks = pushed.blocks ++ [Entry.projected ⟨component, ordinal, block⟩]
  := by
  rw [pushProjectedBlock] at h
  split_ifs at h
  cases h
  rfl

/-- All blocks of a component are pushed. -/
theorem pushItems_eq_ok {component : EvidenceComponent} {items : List CanonicalBlock}
    {pushed pushed' : Pushed} (h : pushItems component items pushed = .ok pushed') :
  pushed'.blocks = pushed.blocks ++ (componentEntries component items).map Entry.projected
  := by
  rw [componentEntries, List.map_map]
  apply Except.foldlM_invariant (I := fun seen state =>
    state.blocks = pushed.blocks ++ seen.map _) _ _ h
  · rw [List.map_nil, List.append_nil]
  · intro seen item state state' hseen hpush
    rw [pushProjectedBlock_eq_ok hpush, hseen, List.map_append, List.append_assoc]
    rfl

/-- The body blocks that are not to be omitted are pushed. -/
theorem pushBodyBlocks_eq_ok {omitted : Finset ℕ} {items : List CanonicalBlock}
    {pushed pushed' : Pushed}
    (h : items.zipIdx.foldlM (pushBodyBlock omitted) pushed = .ok pushed') :
  pushed'.blocks = pushed.blocks
    ++ ((componentEntries .bodyBlock items).filter (!·.isOmitted omitted)).map Entry.projected
  := by
  rw [componentEntries]
  apply Except.foldlM_invariant (I := fun seen state =>
    state.blocks = pushed.blocks ++ ((seen.map _).filter _).map _) _ _ h
  · simp
  · intro seen item state state' hseen hpush
    rw [pushBodyBlock] at hpush
    rw [List.map_append, List.filter_append, List.map_append, ← List.append_assoc, ← hseen]
    split_ifs at hpush with homitted
    · cases hpush
      simp [Entry.isOmitted, homitted]
    · rw [pushProjectedBlock_eq_ok hpush]
      simp [Entry.isOmitted, homitted]

/-- Quotes are emitted of texts that are not in body blocks before, each text once; `said` are the
texts of quotes that were emitted before, and `said'` those that were emitted in the end. -/
structure QuotesEmitted (earlier said : Finset String) (quotes kept : List Entry)
    (said' : Finset String) : Prop where
  inOrder : kept.Sublist quotes
  new : ∀ entry ∈ kept, normalizedText entry.block ∉ earlier
  dropped : ∀ entry ∈ quotes, entry ∉ kept →
    normalizedText entry.block ∈ earlier ∨ normalizedText entry.block ∈ said'
  grows : said ⊆ said'
  said : ∀ text ∈ said', text ∈ said ∨ ∃ entry ∈ kept, normalizedText entry.block = text

/-- The quotes that are not there before are pushed. -/
theorem pushQuoteBlocks_eq_ok {earlier said said' : Finset String} {items : List CanonicalBlock}
    {pushed pushed' : Pushed}
    (h : items.zipIdx.foldlM (pushQuoteBlock earlier) (pushed, said) = .ok (pushed', said')) :
  ∃ kept, pushed'.blocks = pushed.blocks ++ kept.map Entry.projected
    ∧ QuotesEmitted earlier said (componentEntries .quoteBlock items) kept said'
  := by
  rw [componentEntries]
  apply Except.foldlM_invariant (I := fun seen (state : Pushed × Finset String) =>
    ∃ kept, state.1.blocks = pushed.blocks ++ kept.map Entry.projected
      ∧ QuotesEmitted earlier said (seen.map _) kept state.2) _ _ h
  · use []
    constructor
    · rw [List.map_nil, List.append_nil]
    · exact ⟨List.Sublist.slnil, nofun, nofun, Finset.Subset.refl said, fun _ => Or.inl⟩
  · rintro seen ⟨block, ordinal⟩ ⟨middle, texts⟩ ⟨last, texts'⟩ ⟨kept, hblocks, hkept⟩ hpush
    rw [pushQuoteBlock] at hpush
    dsimp only at hpush hkept hblocks ⊢
    rw [List.map_append, List.map_singleton]
    split_ifs at hpush with hthere
    · -- The text was there before.
      cases hpush
      use kept, hblocks
      constructor
      · apply hkept.inOrder.trans
        apply List.sublist_append_left
      · exact hkept.new
      · intro entry hentry hdropped
        rcases List.mem_append.mp hentry with hentry | hentry
        · exact hkept.dropped entry hentry hdropped
        · obtain rfl := List.mem_singleton.mp hentry
          exact hthere
      · exact hkept.grows
      · exact hkept.said
    · -- The quote is emitted.
      obtain ⟨next, hnext, hrest⟩ := Except.bind_eq_ok.mp hpush
      cases hrest
      rw [not_or] at hthere
      use kept ++ [⟨.quoteBlock, ordinal, block⟩]
      constructor
      · rw [pushProjectedBlock_eq_ok hnext, hblocks, List.map_append, List.append_assoc]
        rfl
      constructor
      · exact hkept.inOrder.append (List.Sublist.refl _)
      · intro entry hentry
        rcases List.mem_append.mp hentry with hentry | hentry
        · exact hkept.new entry hentry
        · obtain rfl := List.mem_singleton.mp hentry
          exact hthere.1
      · intro entry hentry hdropped
        rw [List.mem_append, not_or] at hdropped
        rcases List.mem_append.mp hentry with hentry | hentry
        · rcases hkept.dropped entry hentry hdropped.1 with hearlier | hsaid
          · exact Or.inl hearlier
          · exact Or.inr (Finset.mem_insert_of_mem hsaid)
        · exact absurd hentry hdropped.2
      · exact hkept.grows.trans (Finset.subset_insert _ _)
      · intro text htext
        rcases Finset.mem_insert.mp htext with rfl | htext
        · right
          use ⟨.quoteBlock, ordinal, block⟩
          constructor
          · apply List.mem_append_right
            apply List.mem_singleton_self
          · rfl
        · rcases hkept.said text htext with hsaid | ⟨entry, hentry, hnormal⟩
          · exact Or.inl hsaid
          · right
            use entry, List.mem_append_left _ hentry

/-! ### Messages -/

/-- The blocks after the quotes. -/
def laterEntries (message : CanonicalMessage) : List Entry :=
  componentEntries .sender message.sender.toList
    ++ componentEntries .«to» message.«to» ++ componentEntries .cc message.cc
    ++ componentEntries .attachmentName message.attachmentNames
    ++ componentEntries .linkLabel message.linkLabels

/-- The blocks that are sent with some of the quotes. -/
def keptEntries (message : CanonicalMessage) (omitted : Finset ℕ) (quotes : List Entry) :
    List Entry :=
  componentEntries .subject [message.subject]
    ++ (componentEntries .bodyBlock message.bodyBlocks).filter (!·.isOmitted omitted)
    ++ quotes ++ laterEntries message

theorem entries_eq (message : CanonicalMessage) :
  entries message = componentEntries .subject [message.subject]
    ++ componentEntries .bodyBlock message.bodyBlocks
    ++ componentEntries .quoteBlock message.quoteBlocks ++ laterEntries message
  := rfl

/-- The blocks that are sent of a message. -/
theorem projectedMessageBlocks_eq_ok {message : CanonicalMessage} {omitted : Finset ℕ}
    {earlier said said' : Finset String} {textBytes textBytes' : ℕ}
    {blocks : List ProjectedBlock}
    (h : projectedMessageBlocks message omitted earlier said textBytes =
      .ok (blocks, said', textBytes')) :
  ∃ quotes, blocks = (keptEntries message omitted quotes).map Entry.projected
    ∧ QuotesEmitted earlier said (componentEntries .quoteBlock message.quoteBlocks) quotes said'
  := by
  obtain ⟨-, -, hsizes⟩ := Except.bind_eq_ok.mp h
  obtain ⟨subject, hsubject, hsubjects⟩ := Except.bind_eq_ok.mp hsizes
  obtain ⟨body, hbody, hbodies⟩ := Except.bind_eq_ok.mp hsubjects
  obtain ⟨⟨quote, texts⟩, hquote, hquotes⟩ := Except.bind_eq_ok.mp hbodies
  obtain ⟨sender, hsender, hsenders⟩ := Except.bind_eq_ok.mp hquotes
  obtain ⟨recipients, hto, htos⟩ := Except.bind_eq_ok.mp hsenders
  obtain ⟨copies, hcc, hccs⟩ := Except.bind_eq_ok.mp htos
  obtain ⟨attachments, hattachment, hattachments⟩ := Except.bind_eq_ok.mp hccs
  obtain ⟨links, hlink, hlinks⟩ := Except.bind_eq_ok.mp hattachments
  cases hlinks
  obtain ⟨kept, hkept, hemitted⟩ := pushQuoteBlocks_eq_ok hquote
  use kept
  constructor
  · rw [pushItems_eq_ok hlink, pushItems_eq_ok hattachment, pushItems_eq_ok hcc,
      pushItems_eq_ok hto, pushItems_eq_ok hsender, hkept, pushBodyBlocks_eq_ok hbody,
      pushProjectedBlock_eq_ok hsubject]
    simp only [keptEntries, laterEntries, List.map_append, List.append_assoc, List.nil_append]
    rfl
  · exact hemitted

/-- No block that comes later is a body block or a quote. -/
theorem component_of_mem_laterEntries {message : CanonicalMessage} {entry : Entry}
    (h : entry ∈ laterEntries message) :
  entry.component ≠ .bodyBlock ∧ entry.component ≠ .quoteBlock
  := by
  simp only [laterEntries, List.mem_append, mem_componentEntries] at h
  rcases h with (((h | h) | h) | h) | h
  all_goals
    rw [h.1]
    decide

/-- A block that is neither a body block nor a quote is always sent. -/
theorem isQuote_isOmitted_of_component (omitted : Finset ℕ) {entry : Entry}
    (h : entry.component ≠ .bodyBlock ∧ entry.component ≠ .quoteBlock) :
  entry.isQuote = false ∧ entry.isOmitted omitted = false
  := by
  constructor
  · simpa [Entry.isQuote] using h.2
  · simp [Entry.isOmitted, h.1]

/-- A block that is kept is one of the quotes, or is no quote and is not to be omitted. -/
theorem keptEntries_cases {message : CanonicalMessage} {omitted : Finset ℕ} {quotes : List Entry}
    {entry : Entry} (h : entry ∈ keptEntries message omitted quotes) :
  entry ∈ quotes ∨ entry.isQuote = false ∧ entry.isOmitted omitted = false
  := by
  simp only [keptEntries, List.mem_append, List.mem_filter] at h
  rcases h with ((hsubject | ⟨hbody, hkept⟩) | hquote) | hlater
  · right
    have hcomponent := (mem_componentEntries.mp hsubject).1
    simp [Entry.isQuote, Entry.isOmitted, hcomponent]
  · right
    have hcomponent := (mem_componentEntries.mp hbody).1
    simp only [Entry.isQuote, hcomponent, Bool.not_eq_true'] at hkept ⊢
    exact ⟨by decide, hkept⟩
  · exact Or.inl hquote
  · exact Or.inr (isQuote_isOmitted_of_component omitted
      (component_of_mem_laterEntries hlater))

/-- The blocks that are no quotes do not depend on the quotes that are kept. -/
theorem filter_keptEntries {message : CanonicalMessage} {omitted : Finset ℕ}
    {quotes : List Entry}
    (hquotes : quotes.Sublist (componentEntries .quoteBlock message.quoteBlocks)) :
  (keptEntries message omitted quotes).filter (!·.isQuote) =
    (entries message).filter fun entry => !entry.isQuote && !entry.isOmitted omitted
  := by
  have hnone : ∀ {p : Entry → Bool} {items : List Entry},
      (∀ entry, entry.isQuote = true → p entry = false) →
      items.Sublist (componentEntries .quoteBlock message.quoteBlocks) → items.filter p = [] := by
    intro p items hp hitems
    apply List.filter_eq_nil_iff.mpr
    intro entry hentry
    have hcomponent := (mem_componentEntries.mp (hitems.subset hentry)).1
    simp [hp entry (by simp [Entry.isQuote, hcomponent])]
  simp only [keptEntries, entries_eq, List.filter_append]
  congr 1
  · congr 1
    · congr 1
      rw [List.filter_filter]
    · rw [hnone _ hquotes, hnone _ (List.Sublist.refl _)]
      · intro entry hquote
        simp [hquote]
      · intro entry hquote
        simp [hquote]
  · apply List.filter_congr
    intro entry hentry
    have h := isQuote_isOmitted_of_component omitted
      (component_of_mem_laterEntries hentry)
    simp [h.1, h.2]

/-- What is sent of a message, and what is not. -/
structure Faithful (omitted : Finset ℕ) (source : MessageContext) (kept : List Entry) :
    Prop where
  /-- Evidence that cites a block resolves to it. -/
  resolves : ∀ entry ∈ kept, (UInt16.ofNat entry.ordinal).toNat = entry.ordinal
    ∧ resolveBlock source.message entry.component (UInt16.ofNat entry.ordinal) = some entry.block
  inOrder : kept.Sublist (entries source.message)
  /-- All blocks are sent but quotes and those that are to be omitted. -/
  others : kept.filter (!·.isQuote) =
    (entries source.message).filter fun entry => !entry.isQuote && !entry.isOmitted omitted
  omits : ∀ entry ∈ kept, entry.isOmitted omitted = false

/-- A message without some of its quotes is sent faithfully. -/
theorem faithful_keptEntries {omitted : Finset ℕ} {source : MessageContext}
    (hsized : source.message.Sized) {quotes : List Entry}
    (hquotes : quotes.Sublist (componentEntries .quoteBlock source.message.quoteBlocks)) :
  Faithful omitted source (keptEntries source.message omitted quotes)
  := by
  have hsub : (keptEntries source.message omitted quotes).Sublist (entries source.message) := by
    rw [entries_eq, keptEntries]
    apply List.Sublist.append _ (List.Sublist.refl _)
    apply List.Sublist.append _ hquotes
    apply List.Sublist.append (List.Sublist.refl _)
    apply List.filter_sublist
  constructor
  · intro entry hentry
    exact resolveBlock_of_mem hsized (hsub.subset hentry)
  · exact hsub
  · exact filter_keptEntries hquotes
  · intro entry hentry
    rcases keptEntries_cases hentry with hquote | hkept
    · have hcomponent := (mem_componentEntries.mp (hquotes.subset hquote)).1
      simp [Entry.isOmitted, hcomponent]
    · exact hkept.2

/-! ### Conversations -/

/-- The text of the quote is that of a body block of one of the messages. -/
def RepeatsBody (messages : List MessageContext) (quote : CanonicalBlock) : Prop :=
  ∃ source ∈ messages, ∃ block ∈ source.message.bodyBlocks,
    normalizedText block = normalizedText quote

/-- What the loop over the messages has sent: `kept` are the blocks of the messages. -/
structure Projects (omittedBodyBlocks : String → Finset ℕ) (messages : List MessageContext)
    (kept : List (List Entry)) (state : ProjectionState) : Prop where
  projections : state.projections = kept.map fun blocks => blocks.map Entry.projected
  faithful : List.Forall₂ (fun source blocks =>
    Faithful (omittedBodyBlocks source.handle) source blocks) messages kept
  earlier : ∀ text, text ∈ state.earlierBodyText ↔
    ∃ source ∈ messages, ∃ block ∈ source.message.bodyBlocks, normalizedText block = text
  said : ∀ text ∈ state.emittedQuoteText, ∃ blocks ∈ kept, ∃ entry ∈ blocks,
    entry.isQuote = true ∧ normalizedText entry.block = text
  new : ∀ i source blocks, messages[i]? = some source → kept[i]? = some blocks →
    ∀ entry ∈ blocks, entry.isQuote = true → ¬ RepeatsBody (messages.take i) entry.block
  dropped : ∀ i source blocks, messages[i]? = some source → kept[i]? = some blocks →
    ∀ entry ∈ entries source.message, entry.isQuote = true → entry ∉ blocks →
      RepeatsBody (messages.take i) entry.block
        ∨ normalizedText entry.block ∈ state.emittedQuoteText

/-- An element of a list with one more is that one or one of those before. -/
theorem getElem?_append_singleton {α : Type*} {items : List α} {a b : α} {i : ℕ}
    (h : (items ++ [a])[i]? = some b) :
  i < items.length ∧ items[i]? = some b ∨ i = items.length ∧ b = a
  := by
  rcases lt_or_ge i items.length with hlt | hge
  · rw [List.getElem?_append_left hlt] at h
    exact Or.inl ⟨hlt, h⟩
  · rw [List.getElem?_append_right hge, List.getElem?_singleton] at h
    split_ifs at h with hzero
    cases h
    exact Or.inr ⟨by omega, rfl⟩

/-- A message more is projected. -/
theorem projectMessage_eq_ok {omittedBodyBlocks : String → Finset ℕ}
    {messages : List MessageContext} {kept : List (List Entry)} {source : MessageContext}
    {state state' : ProjectionState} (hstate : Projects omittedBodyBlocks messages kept state)
    (h : projectMessage omittedBodyBlocks state source = .ok state') :
  ∃ blocks, Projects omittedBodyBlocks (messages ++ [source]) (kept ++ [blocks]) state'
  := by
  rw [projectMessage] at h
  split_ifs at h with hhandle
  dsimp only at h
  split_ifs at h with hsizes
  simp only [not_or, not_lt] at hsizes
  have hsized : source.message.Sized :=
    ⟨hsizes.1, hsizes.2.1, hsizes.2.2.1, hsizes.2.2.2⟩
  obtain ⟨⟨projected, said, textBytes⟩, hblocks, hrest⟩ := Except.bind_eq_ok.mp h
  cases hrest
  obtain ⟨quotes, rfl, hquotes⟩ := projectedMessageBlocks_eq_ok hblocks
  have hlength := hstate.faithful.length_eq
  use keptEntries source.message (omittedBodyBlocks source.handle) quotes
  have hquote : ∀ entry ∈ keptEntries source.message (omittedBodyBlocks source.handle) quotes,
      entry.isQuote = true → entry ∈ quotes := by
    intro entry hentry hisQuote
    rcases keptEntries_cases hentry with hentry | ⟨hother, -⟩
    · exact hentry
    · rw [hisQuote] at hother
      cases hother
  have hkept : quotes ⊆ keptEntries source.message (omittedBodyBlocks source.handle) quotes := by
    intro entry hentry
    simp [keptEntries, hentry]
  constructor
  · rw [hstate.projections, List.map_append]
    rfl
  · apply List.rel_append hstate.faithful
    exact List.Forall₂.cons (faithful_keptEntries hsized hquotes.inOrder) List.Forall₂.nil
  · intro text
    simp only [Finset.mem_union, hstate.earlier, List.mem_toFinset, List.mem_map, List.mem_append,
      List.mem_singleton]
    constructor
    · rintro (⟨other, hother, hblock⟩ | hblock)
      · use other, Or.inl hother
      · use source, Or.inr rfl
    · rintro ⟨other, hother | rfl, hblock⟩
      · exact Or.inl ⟨other, hother, hblock⟩
      · exact Or.inr hblock
  · intro text htext
    rcases hquotes.said text htext with hsaid | ⟨entry, hentry, hnormal⟩
    · obtain ⟨blocks, hmem, hblocks⟩ := hstate.said text hsaid
      use blocks, List.mem_append_left _ hmem
    · refine ⟨_, List.mem_append_right _ (List.mem_singleton_self _), entry, hkept hentry, ?_,
        hnormal⟩
      have hcomponent := (mem_componentEntries.mp (hquotes.inOrder.subset hentry)).1
      simp [Entry.isQuote, hcomponent]
  · intro i other blocks hother hblocks entry hentry hisQuote
    rcases getElem?_append_singleton hother with ⟨hlt, hother⟩ | ⟨rfl, rfl⟩
    · rcases getElem?_append_singleton hblocks with ⟨-, hblocks⟩ | ⟨rfl, -⟩
      · rw [List.take_append_of_le_length hlt.le]
        exact hstate.new i other blocks hother hblocks entry hentry hisQuote
      · omega
    · rcases getElem?_append_singleton hblocks with ⟨hlt, -⟩ | ⟨-, rfl⟩
      · omega
      · rw [List.take_left]
        have hnew := hquotes.new entry (hquote entry hentry hisQuote)
        rw [hstate.earlier] at hnew
        exact hnew
  · intro i other blocks hother hblocks entry hentry hisQuote hdropped
    rcases getElem?_append_singleton hother with ⟨hlt, hother⟩ | ⟨rfl, rfl⟩
    · rcases getElem?_append_singleton hblocks with ⟨-, hblocks⟩ | ⟨rfl, -⟩
      · rw [List.take_append_of_le_length hlt.le]
        rcases hstate.dropped i other blocks hother hblocks entry hentry hisQuote hdropped with
          hrepeats | hsaid
        · exact Or.inl hrepeats
        · exact Or.inr (hquotes.grows hsaid)
      · omega
    · rcases getElem?_append_singleton hblocks with ⟨hlt, -⟩ | ⟨-, rfl⟩
      · omega
      · rw [List.take_left]
        have hcomponent : entry.component = .quoteBlock := by simpa [Entry.isQuote] using hisQuote
        have hplace : entry ∈ componentEntries .quoteBlock other.message.quoteBlocks := by
          simp only [entries, List.mem_append, mem_componentEntries, hcomponent] at hentry ⊢
          simpa using hentry
        rcases hquotes.dropped entry hplace (fun h => hdropped (hkept h)) with hthere | hsaid
        · left
          exact (hstate.earlier _).mp hthere
        · exact Or.inr hsaid

/-- All messages are projected. -/
theorem projectMessages_eq_ok {omittedBodyBlocks : String → Finset ℕ}
    {messages : List MessageContext} {state : ProjectionState}
    (h : projectMessages omittedBodyBlocks messages = .ok state) :
  ∃ kept, Projects omittedBodyBlocks messages kept state
  := by
  apply Except.foldlM_invariant (I := fun seen state =>
    ∃ kept, Projects omittedBodyBlocks seen kept state) _ _ h
  · use []
    constructor
    · rfl
    · exact List.Forall₂.nil
    · simp
    · simp
    · simp
    · simp
  · rintro seen source state state' ⟨kept, hstate⟩ hmessage
    obtain ⟨blocks, hblocks⟩ := projectMessage_eq_ok hstate hmessage
    use kept ++ [blocks]

/-! ### Texts that are still there -/

/-- The text stands in the block, up to white space. -/
def Occurs (text : String) (block : CanonicalBlock) : Prop :=
  text.toList <:+: (normalizedText block).toList

/-- The texts of quotes that are not sent stand in blocks that are. -/
def QuotesSaid (messages : List MessageContext) (kept : List (List Entry)) : Prop :=
  ∀ (i : ℕ) (source : MessageContext) (blocks : List Entry), messages[i]? = some source →
    kept[i]? = some blocks →
    ∀ quote ∈ entries source.message, quote.isQuote = true → quote ∉ blocks →
      ∃ others ∈ kept, ∃ entry ∈ others, Occurs (normalizedText quote.block) entry.block

/-- The text is in a request that leaves out some body blocks: it stands in a block that is neither
one of these nor a quote of an earlier body block. -/
def StaysIn (omittedBodyBlocks : String → Finset ℕ) (messages : List MessageContext)
    (text : String) : Prop :=
  ∃ (i : ℕ) (source : MessageContext), messages[i]? = some source
    ∧ ∃ entry ∈ entries source.message, entry.isOmitted (omittedBodyBlocks source.handle) = false
      ∧ (entry.isQuote = true → ¬ RepeatsBody (messages.take i) entry.block)
      ∧ Occurs text entry.block

/-- Every quote that has the text of an earlier body block has a text that stays in the request. -/
def RepeatedStays (omittedBodyBlocks : String → Finset ℕ) (messages : List MessageContext) :
    Prop :=
  ∀ (i : ℕ) (source : MessageContext), messages[i]? = some source →
    ∀ quote ∈ source.message.quoteBlocks, RepeatsBody (messages.take i) quote →
      StaysIn omittedBodyBlocks messages (normalizedText quote)

section Projects

variable {omittedBodyBlocks : String → Finset ℕ} {messages : List MessageContext}
  {kept : List (List Entry)} {state : ProjectionState}

/-- The messages are those of which blocks are sent. -/
theorem Projects.getElem? (h : Projects omittedBodyBlocks messages kept state) {i : ℕ}
    {source : MessageContext} (hsource : messages[i]? = some source) :
  ∃ blocks, kept[i]? = some blocks
    ∧ Faithful (omittedBodyBlocks source.handle) source blocks
  := by
  obtain ⟨hlt, rfl⟩ := List.getElem?_eq_some_iff.mp hsource
  have hlength := h.faithful.length_eq
  use kept[i], List.getElem?_eq_getElem (hlength ▸ hlt)
  exact h.faithful.get hlt (hlength ▸ hlt)

/-- A block that is no quote and is not to be omitted is sent. -/
theorem Faithful.mem {omitted : Finset ℕ} {source : MessageContext} {blocks : List Entry}
    (h : Faithful omitted source blocks) {entry : Entry} (hentry : entry ∈ entries source.message)
    (hquote : entry.isQuote = false) (homitted : entry.isOmitted omitted = false) :
  entry ∈ blocks
  := by
  have hmem : entry ∈ blocks.filter (!·.isQuote) := by
    rw [h.others, List.mem_filter]
    exact ⟨hentry, by simp [hquote, homitted]⟩
  exact (List.mem_filter.mp hmem).1

/-- A text that stays in the request stands in a block that is sent. -/
theorem Projects.staysIn (h : Projects omittedBodyBlocks messages kept state) {text : String}
    (hstays : StaysIn omittedBodyBlocks messages text) :
  ∃ blocks ∈ kept, ∃ entry ∈ blocks, Occurs text entry.block
  := by
  obtain ⟨i, source, hsource, entry, hentry, homitted, hnew, hoccurs⟩ := hstays
  obtain ⟨blocks, hblocks, hfaithful⟩ := h.getElem? hsource
  by_cases hsent : entry ∈ blocks
  · exact ⟨blocks, List.mem_of_getElem? hblocks, entry, hsent, hoccurs⟩
  rcases hquote : entry.isQuote with _ | _
  · exact absurd (hfaithful.mem hentry hquote homitted) hsent
  rcases h.dropped i source blocks hsource hblocks entry hentry hquote hsent with hrepeats | hsaid
  · exact absurd hrepeats (hnew hquote)
  · -- A quote with the same text is sent.
    obtain ⟨others, hothers, other, hother, -, hsame⟩ := h.said _ hsaid
    use others, hothers, other, hother
    rw [Occurs, hsame]
    exact hoccurs

/-- The texts of quotes that are not sent stand in blocks that are, exactly when those that repeat
earlier body blocks stay in the request. -/
theorem Projects.quotesSaid_iff (h : Projects omittedBodyBlocks messages kept state) :
  QuotesSaid messages kept ↔ RepeatedStays omittedBodyBlocks messages
  := by
  constructor
  · intro hsaid i source hsource quote hquote hrepeats
    obtain ⟨blocks, hblocks, -⟩ := h.getElem? hsource
    obtain ⟨ordinal, hordinal⟩ := List.mem_iff_getElem?.mp hquote
    have hentry : ⟨.quoteBlock, ordinal, quote⟩ ∈ entries source.message := by
      simp [entries, mem_componentEntries, hordinal]
    have hdropped : ⟨.quoteBlock, ordinal, quote⟩ ∉ blocks := by
      intro hsent
      exact h.new i source blocks hsource hblocks _ hsent rfl hrepeats
    obtain ⟨others, hothers, entry, hsent, hoccurs⟩ :=
      hsaid i source blocks hsource hblocks _ hentry rfl hdropped
    obtain ⟨j, hj⟩ := List.mem_iff_getElem?.mp hothers
    have hlt : j < messages.length := by
      rw [h.faithful.length_eq]
      exact (List.getElem?_eq_some_iff.mp hj).1
    obtain ⟨blocks', hblocks', hfaithful⟩ := h.getElem? (List.getElem?_eq_getElem hlt)
    obtain rfl : others = blocks' := Option.some.inj (hj.symm.trans hblocks')
    refine ⟨j, messages[j], List.getElem?_eq_getElem hlt, entry, hfaithful.inOrder.subset hsent,
      hfaithful.omits entry hsent, ?_, hoccurs⟩
    exact h.new j messages[j] others (List.getElem?_eq_getElem hlt) hj entry hsent
  · intro hstays i source blocks hsource hblocks quote hquote hisQuote hdropped
    rcases h.dropped i source blocks hsource hblocks quote hquote hisQuote hdropped with
      hrepeats | hsaid
    · apply h.staysIn
      apply hstays i source hsource quote.block _ hrepeats
      have hcomponent : quote.component = .quoteBlock := by simpa [Entry.isQuote] using hisQuote
      simp only [entries, List.mem_append, mem_componentEntries, hcomponent] at hquote
      exact List.mem_of_getElem? (by simpa using hquote)
    · obtain ⟨others, hothers, other, hother, -, hsame⟩ := h.said _ hsaid
      use others, hothers, other, hother
      rw [Occurs, hsame]

end Projects

/-! ### Requests -/

/-- The request is that of a projection, framed with its exact size: all blocks are sent where they
stood but those that are to be omitted and quotes, and the texts of quotes that are not sent stand
in blocks that are. -/
def LeavesNothingOut (jsonToString : Json → Option String) (context : SuppliedContext)
    (omittedBodyBlocks : String → Finset ℕ) (user : String) : Prop :=
  ∃ state participants data kept, projectMessages omittedBodyBlocks context.messages = .ok state
    ∧ participantProjections context = .ok participants
    ∧ jsonToString (payload context state.projections participants) = some data
    ∧ user = framed data
    ∧ state.projections = kept.map (fun blocks => blocks.map Entry.projected)
    ∧ List.Forall₂ (fun source blocks =>
      Faithful (omittedBodyBlocks source.handle) source blocks) context.messages kept
    ∧ QuotesSaid context.messages kept

/-- When nothing is left out, the texts that are repeated stay in the request. -/
theorem LeavesNothingOut.repeatedStays {jsonToString : Json → Option String}
    {context : SuppliedContext} {omittedBodyBlocks : String → Finset ℕ} {user : String}
    (h : LeavesNothingOut jsonToString context omittedBodyBlocks user) :
  RepeatedStays omittedBodyBlocks context.messages
  := by
  obtain ⟨state, _, _, kept, hmessages, -, -, -, hprojections, -, hsaid⟩ := h
  obtain ⟨kept', hprojects⟩ := projectMessages_eq_ok hmessages
  have hsame : kept = kept' := by
    apply List.map_injective_iff.mpr (List.map_injective_iff.mpr Entry.projected_injective)
    exact hprojections.symm.trans hprojects.projections
  rw [hsame] at hsaid
  exact hprojects.quotesSaid_iff.mp hsaid

/-- A request is made of a projection. -/
theorem projectionOmitting_eq_ok {instructions schema system user : String}
    {jsonToString : Json → Option String} {context : SuppliedContext}
    {omittedBodyBlocks : String → Finset ℕ}
    (h : projectionOmitting instructions schema jsonToString context omittedBodyBlocks =
      .ok (system, user)) :
  ∃ state participants data, projectMessages omittedBodyBlocks context.messages = .ok state
    ∧ participantProjections context = .ok participants
    ∧ jsonToString (payload context state.projections participants) = some data
    ∧ user = framed data
  := by
  rw [projectionOmitting] at h
  split_ifs at h
  obtain ⟨state, hstate, hstates⟩ := Except.bind_eq_ok.mp h
  obtain ⟨participants, hparticipants, hrest⟩ := Except.bind_eq_ok.mp hstates
  obtain ⟨_, -, hloops⟩ := Except.bind_eq_ok.mp hrest
  obtain ⟨data, hdata, hlast⟩ := Except.bind_eq_ok.mp hloops
  cases hlast
  exact ⟨state, participants, data, hstate, hparticipants, Option.okOr_eq_ok.mp hdata, rfl⟩

def greeting : CanonicalBlock := ⟨"Hi".toList, by decide⟩

def footer : CanonicalBlock := ⟨"Footer.".toList, by decide⟩

def thanks : CanonicalBlock := ⟨"Thanks".toList, by decide⟩

/-- The message was sent at the epoch. -/
def footerTime : Domain.ParseContext :=
  ⟨⟨0⟩, ⟨0, none⟩, 61200, .monday⟩

/-- A message with a body block. -/
def footerMessage : MessageContext :=
  ⟨"m0", ⟨greeting, [footer], [], none, [], [], [], []⟩, footerTime, false, true, false⟩

/-- A reply that quotes it. -/
def footerReply : MessageContext :=
  ⟨"m1", ⟨greeting, [thanks], [footer], none, [], [], [], []⟩, footerTime, true, false, false⟩

def footerContext : SuppliedContext :=
  ⟨⟨"user", none, none⟩, [footerMessage, footerReply], [], []⟩

/-- The body block is to be omitted. -/
def footerOmitted (handle : String) : Finset ℕ :=
  if handle = "m0" then {0} else ∅

/-- The document of the reply. -/
def footerData : String :=
  "\x7b\"user\":\x7b\"handle\":\"user\",\"display_name\":null,\"given_name\":null\x7d,"
    ++ "\"messages\":["
    ++ "\x7b\"source_handle\":\"m0\",\"from_user\":false,\"to_user\":true,\"cc_user\":false,"
    ++ "\"blocks\":[\x7b\"component\":\"subject\",\"block_ordinal\":0,\"scalar_length\":2,"
    ++ "\"text\":\"Hi\"\x7d]\x7d,"
    ++ "\x7b\"source_handle\":\"m1\",\"from_user\":true,\"to_user\":false,\"cc_user\":false,"
    ++ "\"blocks\":[\x7b\"component\":\"subject\",\"block_ordinal\":0,\"scalar_length\":2,"
    ++ "\"text\":\"Hi\"\x7d,\x7b\"component\":\"body_block\",\"block_ordinal\":0,"
    ++ "\"scalar_length\":6,\"text\":\"Thanks\"\x7d]\x7d],\"participant_handles\":[],"
    ++ "\"related_loop_handles\":[]\x7d"

theorem footer_projects :
  projectionOmitting "Extract." "Schema." (fun _ => some footerData) footerContext footerOmitted =
    .ok ("Extract.\nSchema.", framed footerData)
  := by decide +kernel

end Inference
