import OpenLoops.Review.Closure

/-!
# What a closure request shows

A request names obligations, and has the newest messages of a conversation with those that state
the obligations from elsewhere.  A message of the conversation itself is not added, even when it is
not among the newest ones.
-/

namespace Review

open Inference

/-- The handles under which the models know the messages. -/
def handlesOf (messages : List ReviewMessage) : List String :=
  messages.map (·.input.handle)

/-! ### Messages from elsewhere -/

/-- The messages that are added state an obligation, have different handles and are not in the
conversation; every obligation is stated in the conversation or by one of them. -/
structure AddsEvidence (conversation : List ReviewMessage) (loops : List OfferedLoop)
    (extras : List ReviewMessage) : Prop where
  nodup : (handlesOf extras).Nodup
  outside : ∀ message ∈ extras, message.input.handle ∉ handlesOf conversation
  states : ∀ message ∈ extras, ∃ loop ∈ loops, loop.source = message
  stated : ∀ loop ∈ loops,
    loop.source.input.handle ∈ handlesOf conversation ∨ loop.source.input.handle ∈ handlesOf extras

theorem closureExtras_addsEvidence (conversation : List ReviewMessage) (loops : List OfferedLoop) :
  AddsEvidence conversation loops (closureExtras conversation loops)
  := by
  induction loops using List.reverseRecOn with
  | nil => constructor <;> simp [closureExtras, handlesOf]
  | append_singleton loops loop ih =>
      rw [closureExtras, List.foldl_append, List.foldl_cons, List.foldl_nil, ← closureExtras]
      have hpresent : ((conversation ++ closureExtras conversation loops).any fun message =>
          message.input.handle = loop.source.input.handle) = true
          ↔ loop.source.input.handle ∈ handlesOf conversation
            ∨ loop.source.input.handle ∈ handlesOf (closureExtras conversation loops) := by
        simp [handlesOf]
      split_ifs with h
      · constructor
        · exact ih.nodup
        · exact ih.outside
        · intro message hmessage
          obtain ⟨loop', hloop', heq⟩ := ih.states message hmessage
          use loop', List.mem_append_left _ hloop'
        · intro loop' hloop'
          rcases List.mem_append.mp hloop' with hloop' | hloop'
          · apply ih.stated loop' hloop'
          · rw [List.mem_singleton.mp hloop']
            apply hpresent.mp h
      · rw [hpresent, not_or] at h
        constructor
        · rw [handlesOf, List.map_append, ← handlesOf]
          apply List.Nodup.append ih.nodup (List.nodup_singleton _)
          rw [List.disjoint_singleton]
          exact h.2
        · intro message hmessage
          rcases List.mem_append.mp hmessage with hmessage | hmessage
          · apply ih.outside message hmessage
          · rw [List.mem_singleton.mp hmessage]
            exact h.1
        · intro message hmessage
          rcases List.mem_append.mp hmessage with hmessage | hmessage
          · obtain ⟨loop', hloop', heq⟩ := ih.states message hmessage
            use loop', List.mem_append_left _ hloop'
          · use loop, by simp
            exact (List.mem_singleton.mp hmessage).symm
        · intro loop' hloop'
          rw [handlesOf, handlesOf, List.map_append, List.mem_append, ← handlesOf, ← handlesOf]
          rcases List.mem_append.mp hloop' with hloop' | hloop'
          · have := ih.stated loop' hloop'
            tauto
          · rw [List.mem_singleton.mp hloop']
            simp [handlesOf]

/-! ### Requests -/

namespace ClosureJob

variable (job : ClosureJob) (offered : List OfferedLoop)

/-- The handles of the messages that state the offers and are not in the conversation. -/
def outsideHandles : Finset String :=
  ((job.named offered).map (·.source.input.handle)).toFinset
    \ (handlesOf job.conversation).toFinset

/-- The newest messages of the conversation, as many as there is room for beside those. -/
def newest : List ReviewMessage :=
  job.conversation.drop
    (job.conversation.length - (maxRequestMessages - (job.outsideHandles offered).card))

/-- Every obligation that is stated in the conversation is so in one of its newest messages, and
these have different handles. -/
def EvidenceIsNew : Prop :=
  (∀ loop ∈ job.named offered, loop.source.input.handle ∈ handlesOf job.conversation →
      loop.source.input.handle ∈ handlesOf (job.newest offered))
    ∧ (handlesOf (job.newest offered)).Nodup

/-- The messages from elsewhere are as many as their handles. -/
theorem length_closureExtras :
  (closureExtras job.conversation (job.named offered)).length = (job.outsideHandles offered).card
  := by
  have hadds := closureExtras_addsEvidence job.conversation (job.named offered)
  have hlength : (closureExtras job.conversation (job.named offered)).length
      = (handlesOf (closureExtras job.conversation (job.named offered))).toFinset.card := by
    rw [List.toFinset_card_of_nodup hadds.nodup, handlesOf, List.length_map]
  rw [hlength]
  congr 1
  ext handle
  simp only [outsideHandles, List.mem_toFinset, Finset.mem_sdiff]
  constructor
  · intro hhandle
    obtain ⟨message, hmessage, rfl⟩ := List.mem_map.mp hhandle
    obtain ⟨loop, hloop, rfl⟩ := hadds.states message hmessage
    use List.mem_map_of_mem hloop
    apply hadds.outside _ hmessage
  · rintro ⟨hhandle, hnot⟩
    obtain ⟨loop, hloop, rfl⟩ := List.mem_map.mp hhandle
    apply (hadds.stated loop hloop).resolve_left hnot

/-- A request shows the obligations that it names: its messages are no more than there may be,
different and in the order of their times; they state each obligation, and the others are the newest
ones of the conversation. -/
structure Shows (request : ClosureRequest) : Prop where
  length_le : request.inputs.length ≤ maxRequestMessages
  nodup : (request.inputs.map (·.handle)).Nodup
  sorted : (request.inputs.map (·.timestamp)).SortedLE
  handles : request.handles = (job.named offered).map (·.handle)
  evidence : ∀ loop ∈ job.named offered,
    loop.source.input.handle ∈ request.inputs.map (·.handle)
  newest : ∃ older newest extras, job.conversation = older ++ newest
    ∧ request.inputs.Perm ((newest ++ extras).map (·.input))
    ∧ (∀ message ∈ extras, message.input.handle ∉ handlesOf job.conversation
      ∧ ∃ loop ∈ job.named offered, loop.source = message)
    ∧ (older = [] ∨ request.inputs.length = maxRequestMessages)

/-- The messages of a request are the newest ones of the conversation, and those from elsewhere. -/
theorem inputs_perm :
  (closureRequest job offered).inputs.Perm
    ((job.newest offered ++ closureExtras job.conversation (job.named offered)).map (·.input))
  := by
  rw [newest, ← length_closureExtras]
  apply KeyOrder.sort_perm

/-- A request shows the obligations that it names exactly when those that are stated in the
conversation are so in one of its newest messages. -/
theorem shows_iff (hloops : job.loops.length ≤ maxLoopHandles) :
  job.Shows offered (closureRequest job offered) ↔ job.EvidenceIsNew offered
  := by
  have hadds := closureExtras_addsEvidence job.conversation (job.named offered)
  have hperm := job.inputs_perm offered
  have hhandles : ((closureRequest job offered).inputs.map (·.handle)).Perm
      (handlesOf (job.newest offered)
        ++ handlesOf (closureExtras job.conversation (job.named offered))) := by
    have h := hperm.map (·.handle)
    rw [List.map_map, List.map_append] at h
    exact h
  have hnewest : ∀ handle ∈ handlesOf (job.newest offered), handle ∈ handlesOf job.conversation := by
    intro handle hhandle
    obtain ⟨message, hmessage, rfl⟩ := List.mem_map.mp hhandle
    apply List.mem_map_of_mem (List.mem_of_mem_drop hmessage)
  constructor
  · intro hshows
    constructor
    · intro loop hloop hconversation
      have h := hhandles.mem_iff.mp (hshows.evidence loop hloop)
      apply (List.mem_append.mp h).resolve_right
      intro hextras
      obtain ⟨message, hmessage, heq⟩ := List.mem_map.mp hextras
      apply hadds.outside message hmessage
      rw [heq]
      exact hconversation
    · have h := hhandles.nodup_iff.mp hshows.nodup
      exact (List.nodup_append.mp h).1
  · rintro ⟨hevidence, hnodup⟩
    have hcard : (job.outsideHandles offered).card ≤ maxLoopHandles := by
      calc (job.outsideHandles offered).card
        _ ≤ ((job.named offered).map (·.source.input.handle)).toFinset.card :=
          Finset.card_le_card Finset.sdiff_subset
        _ ≤ ((job.named offered).map (·.source.input.handle)).length := List.toFinset_card_le _
        _ = (job.named offered).length := List.length_map _
        _ ≤ job.loops.length := List.length_filterMap_le _ _
        _ ≤ maxLoopHandles := hloops
    have hlength : (closureRequest job offered).inputs.length
        = (job.newest offered).length + (job.outsideHandles offered).card := by
      rw [hperm.length_eq, List.length_map, List.length_append, length_closureExtras]
    constructor
    · rw [hlength, newest, List.length_drop]
      simp only [maxRequestMessages, maxLoopHandles] at hcard ⊢
      omega
    · apply hhandles.nodup_iff.mpr
      apply List.Nodup.append hnodup hadds.nodup
      intro handle hhandle hextras
      obtain ⟨message, hmessage, rfl⟩ := List.mem_map.mp hextras
      apply hadds.outside message hmessage (hnewest _ hhandle)
    · apply KeyOrder.sortedLE_map_sort
    · rfl
    · intro loop hloop
      apply hhandles.mem_iff.mpr
      apply List.mem_append.mpr
      apply (hadds.stated loop hloop).imp_left
      apply hevidence loop hloop
    · use job.conversation.take (job.conversation.length
        - (maxRequestMessages - (job.outsideHandles offered).card)), job.newest offered,
        closureExtras job.conversation (job.named offered)
      refine ⟨(List.take_append_drop _ _).symm, hperm, ?_, ?_⟩
      · intro message hmessage
        exact ⟨hadds.outside message hmessage, hadds.states message hmessage⟩
      · rw [hlength, newest, List.length_drop, List.take_eq_nil_iff]
        simp only [maxRequestMessages, maxLoopHandles] at hcard ⊢
        omega

end ClosureJob

/-- A request of a scan shows the obligations that it names exactly when those that are stated in
its conversation are so in one of the newest messages of it. -/
theorem closureRequest_shows_iff (reach : Table ConversationKey (List ℕ))
    (messages : List ReviewMessage) (offered : List OfferedLoop) (job : ClosureJob)
    (hjob : job ∈ (closureJobs reach messages).1) :
  job.Shows offered (closureRequest job offered) ↔ job.EvidenceIsNew offered
  := by
  apply job.shows_iff
  obtain ⟨row, -, rfl⟩ := List.mem_map.mp hjob
  apply List.length_take_le

/-- A message of a long conversation, which the user continues after the first one. -/
def longThreadMail (place : ℕ) : ReviewMessage where
  provider := .microsoft
  input :=
    { handle := "m" ++ toString place
      message :=
        { subject := ⟨['A'], length_shortSubject⟩
          bodyBlocks := [⟨['S', 'e', 'n', 'd', ' ', 'i', 't', '.'], length_shortBlock⟩]
          quoteBlocks := []
          sender := none
          «to» := []
          cc := []
          attachmentNames := []
          linkLabels := [] }
      timestamp := place
      fromUser := 0 < place
      recipient := .«to»
      ownAddresses := []
      userDisplayName := none
      userGivenName := none
      team := false }
  source := "Inbox"
  id := toString place
  account := "anna"
  conversation := "agenda"
  dateLabel := ""
  webLink := ""
  ownAddresses := []
  ownDisplayName := none
  ownGivenName := none
  otherAddresses := []
  event := none

/-- What the first message of the conversation asks for. -/
def longThreadItem : LoopItem where
  action := "Requested: Send it."
  actionPhrase := "Send it."
  owner := .you
  waitingParty := "Not established"
  kind := "request"
  evidence := { message := "m0", block := 0, quote := "Send it.", context := "" }
  deadline := none
  deadlineKindHint := none
  event := none
  eventTime := none
  resolution := none
  resolutionKind := none
  uncertainty := ""
  unverifiedDeadline := false
  unverifiedResolution := false
  crossThread := false
  eventPassed := none
  suggestedUpdate := none
  handoffText := none
  fromCallSummary := false
  meetingTime := none
  meetingTimeApprox := false
  mentions := []

/-- The jobs of a conversation with so many messages. -/
def longThreadJobs (count : ℕ) : List ClosureJob :=
  let messages := (List.range count).map longThreadMail
  (closureJobs (loopsByConversation id (offeredLoops [longThreadItem] messages) [longThreadItem]
    messages none) messages).1

/-- The offers of a conversation with so many messages. -/
def longThreadOffers (count : ℕ) : List OfferedLoop :=
  offeredLoops [longThreadItem] ((List.range count).map longThreadMail)

/-- With one message more than there may be in a request, the one that states the obligation is not
sent. -/
theorem longThread_hidden :
  ¬∀ job ∈ longThreadJobs 41,
    job.Shows (longThreadOffers 41) (closureRequest job (longThreadOffers 41))
  := by
  intro hshows
  have hall : ∀ job ∈ longThreadJobs 41, ∀ loop ∈ job.named (longThreadOffers 41),
      loop.source.input.handle
        ∈ (closureRequest job (longThreadOffers 41)).inputs.map (·.handle) :=
    fun job hjob => (hshows job hjob).evidence
  revert hall
  decide +kernel

/-- A conversation of three messages is sent as a whole. -/
theorem longThread_shown :
  ∃ job ∈ longThreadJobs 3, job.Shows (longThreadOffers 3) (closureRequest job (longThreadOffers 3))
  := by
  have hnew : ∀ job ∈ longThreadJobs 3, job.EvidenceIsNew (longThreadOffers 3) := by
    simp only [ClosureJob.EvidenceIsNew]
    decide +kernel
  have hpos : 0 < (longThreadJobs 3).length := by decide +kernel
  obtain ⟨job, hjob⟩ := List.exists_mem_of_length_pos hpos
  use job, hjob
  apply (closureRequest_shows_iff _ _ _ job hjob).mpr
  apply hnew job hjob

end Review
