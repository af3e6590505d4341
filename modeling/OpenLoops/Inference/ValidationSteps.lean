import OpenLoops.Inference.Validation

/-!
# The steps of a validation

What each claim has to satisfy by itself, and that the checks of it accept exactly the claims that
do.  No check expects what an earlier one did not establish: a call panics only where the calendar
of the parser is out of range.
-/

namespace Inference

open Contracts Domain

variable {context : SuppliedContext} {claim : Claim}

/-! ### Handles -/

/-- A message that is found was supplied under the handle. -/
theorem SuppliedContext.mem_of_findMessage {handle : String} {message : MessageContext}
    (h : context.findMessage handle = some message) :
  message ∈ context.messages ∧ message.handle = handle
  := by
  rw [findMessage] at h
  constructor
  · apply List.mem_of_find?_eq_some h
  · simpa using List.find?_some h

/-- A participant that is found was supplied under the handle. -/
theorem SuppliedContext.mem_of_findParticipant {handle : String} {participant : ParticipantHandle}
    (h : context.findParticipant handle = some participant) :
  participant ∈ context.participants ∧ participant.handle = handle
  := by
  rw [findParticipant] at h
  constructor
  · apply List.mem_of_find?_eq_some h
  · simpa using List.find?_some h

/-- The handles of a claim were supplied. -/
structure Known (context : SuppliedContext) (claim : Claim) : Prop where
  sources : ∀ evidence ∈ claim.evidence,
    ∃ message, context.findMessage evidence.sourceHandle = some message
  loops : ∀ related ∈ claim.relatedLoopHandles, related ∈ context.loopCandidateHandles
  waitingParty : ∀ handle, claim.waitingPartyHandle = .value handle →
    ∃ participant, context.findParticipant handle = some participant

/-- A claim passes the check of its handles exactly when they were supplied. -/
theorem checkHandles_eq_ok_iff :
  checkHandles claim context = .ok () ↔ Known context claim
  := by
  rw [checkHandles, Except.check_bind_eq_ok, Except.check_bind_eq_ok, Except.forM_eq_ok,
    Except.forM_eq_ok]
  have hsource : ∀ evidence : EvidenceRange,
      (if (context.findMessage evidence.sourceHandle).isNone then
        rejectFor (.handleMembership .unknownMessageHandle) else .ok () : Checked Unit) = .ok ()
        ↔ ∃ message, context.findMessage evidence.sourceHandle = some message := by
    intro evidence
    rw [rejectFor, Except.check_eq_ok, Option.isNone_iff_eq_none, ← ne_eq, Option.ne_none_iff_exists']
  have hloop : ∀ related : String,
      (if ¬context.hasLoopCandidate related then
        rejectFor (.handleMembership .unknownLoopCandidateHandle) else .ok () : Checked Unit)
          = .ok ()
        ↔ related ∈ context.loopCandidateHandles := by
    intro related
    rw [rejectFor, Except.check_eq_ok, not_not, SuppliedContext.hasLoopCandidate,
      decide_eq_true_iff]
  have hwaiting : ∀ handle : String,
      (if (context.findParticipant handle).isNone then
        rejectFor (.handleMembership .unknownParticipantHandle) else .ok () : Checked Unit)
          = .ok ()
        ↔ ∃ participant, context.findParticipant handle = some participant := by
    intro handle
    rw [rejectFor, Except.check_eq_ok, Option.isNone_iff_eq_none, ← ne_eq, Option.ne_none_iff_exists']
  constructor
  · rintro ⟨hsources, hloops, hparty⟩
    refine ⟨fun evidence he => (hsource evidence).mp (hsources evidence he),
      fun related hr => (hloop related).mp (hloops related hr), ?_⟩
    intro handle hvalue
    rw [hvalue] at hparty
    exact (hwaiting handle).mp hparty
  · rintro ⟨hsources, hloops, hparty⟩
    refine ⟨fun evidence he => (hsource evidence).mpr (hsources evidence he),
      fun related hr => (hloop related).mpr (hloops related hr), ?_⟩
    cases hvalue : claim.waitingPartyHandle with
    | null => rfl
    | value handle => exact (hwaiting handle).mpr (hparty handle hvalue)

/-- The check of the handles does not panic. -/
theorem checkHandles_ne_panicked :
  checkHandles claim context ≠ .error .panicked
  := by
  intro h
  rw [checkHandles] at h
  rcases Except.bind_eq_error.mp h with h | ⟨-, -, h⟩
  · obtain ⟨evidence, -, h⟩ := Except.exists_of_forM_eq_error h
    split_ifs at h
    cases h
  · rcases Except.bind_eq_error.mp h with h | ⟨-, -, h⟩
    · obtain ⟨related, -, h⟩ := Except.exists_of_forM_eq_error h
      split_ifs at h
      cases h
    · split at h
      · cases h
      · split_ifs at h
        cases h

/-! ### Evidence -/

/-- The evidence is a range within a block of a supplied message, with more than white space. -/
def Supported (context : SuppliedContext) (evidence : EvidenceRange) : Prop :=
  ∃ message block, context.findMessage evidence.sourceHandle = some message
    ∧ resolveBlock message.message evidence.component evidence.blockOrdinal = some block
    ∧ evidence.rangeStart < evidence.rangeEnd
    ∧ evidence.rangeEnd.toNat ≤ block.scalars.length
    ∧ ∃ (i : ℕ) (c : Char), evidence.rangeStart.toNat ≤ i ∧ i < evidence.rangeEnd.toNat
      ∧ block.scalars[i]? = some c ∧ isWhitespace c = false

/-- Evidence passes its check exactly when it is supported. -/
theorem checkEvidence_eq_ok_iff {evidence : EvidenceRange} :
  checkEvidence context evidence = .ok () ↔ Supported context evidence
  := by
  rw [checkEvidence, Except.bind_eq_ok]
  constructor
  · rintro ⟨message, hmessage, h⟩
    obtain ⟨block, hblock, h⟩ := Except.bind_eq_ok.mp h
    obtain ⟨extracted, hrange, h⟩ := Except.bind_eq_ok.mp h
    rw [Except.mapError_eq_ok, CanonicalBlock.rangeText] at hrange
    split_ifs at hrange with hle hlength
    cases hrange
    rw [rejectFor, Except.check_eq_ok, trim_eq_nil_iff] at h
    push Not at h
    obtain ⟨c, hc, hblank⟩ := h
    obtain ⟨i, hstart, hstop, hi⟩ := mem_drop_take_iff.mp hc
    exact ⟨message, block, Option.okOr_eq_ok.mp hmessage, Option.okOr_eq_ok.mp hblock,
      UInt32.not_le.mp hle, Nat.not_lt.mp hlength, i, c, hstart, hstop, hi,
      Bool.eq_false_iff.mpr hblank⟩
  · rintro ⟨message, block, hmessage, hblock, hlt, hlength, i, c, hstart, hstop, hi, hblank⟩
    refine ⟨message, Option.okOr_eq_ok.mpr hmessage, Except.bind_eq_ok.mpr
      ⟨block, Option.okOr_eq_ok.mpr hblock, Except.bind_eq_ok.mpr
        ⟨(block.scalars.take evidence.rangeEnd.toNat).drop evidence.rangeStart.toNat, ?_, ?_⟩⟩⟩
    · rw [Except.mapError_eq_ok, CanonicalBlock.rangeText, if_neg (UInt32.not_le.mpr hlt),
        if_neg (Nat.not_lt.mpr hlength)]
    · rw [rejectFor, Except.check_eq_ok, trim_eq_nil_iff]
      intro hall
      have hc := hall c (mem_drop_take_iff.mpr ⟨i, hstart, hstop, hi⟩)
      rw [hblank] at hc
      cases hc

/-- The check of evidence of a known message does not panic. -/
theorem checkEvidence_ne_panicked {evidence : EvidenceRange}
    (h : ∃ message, context.findMessage evidence.sourceHandle = some message) :
  checkEvidence context evidence ≠ .error .panicked
  := by
  obtain ⟨message, hmessage⟩ := h
  intro h
  rw [checkEvidence, hmessage] at h
  rcases Except.bind_eq_error.mp h with h | ⟨_, -, h⟩
  · cases h
  · rcases Except.bind_eq_error.mp h with h | ⟨block, -, h⟩
    · obtain ⟨-, ⟨⟩⟩ := Option.okOr_eq_error.mp h
    · rcases Except.bind_eq_error.mp h with h | ⟨extracted, -, h⟩
      · cases hrange : block.rangeText evidence.rangeStart evidence.rangeEnd with
        | ok text =>
            rw [hrange] at h
            cases h
        | error e =>
            rw [hrange] at h
            cases e <;> cases h
      · split_ifs at h
        cases h

/-! ### Participants and times -/

/-- The participant that is waited for has a place in a supplied message. -/
def Placed (context : SuppliedContext) (claim : Claim) : Prop :=
  ∀ handle, claim.waitingPartyHandle = .value handle →
    ∃ participant message, context.findParticipant handle = some participant
      ∧ context.findMessage participant.messageHandle = some message
      ∧ participantSlotExists message.message participant.slot = true

theorem checkParticipant_eq_ok_iff :
  checkParticipant claim context = .ok () ↔ Placed context claim
  := by
  rw [checkParticipant, Placed]
  cases claim.waitingPartyHandle with
  | null => simp
  | value handle =>
      dsimp only
      rw [Except.bind_eq_ok]
      constructor
      · rintro ⟨participant, hparticipant, h⟩ _ ⟨⟩
        obtain ⟨message, hmessage, h⟩ := Except.bind_eq_ok.mp h
        rw [rejectFor, Except.check_eq_ok, not_not] at h
        exact ⟨participant, message, Option.okOr_eq_ok.mp hparticipant,
          Option.okOr_eq_ok.mp hmessage, h⟩
      · intro h
        obtain ⟨participant, message, hparticipant, hmessage, hslot⟩ := h handle rfl
        refine ⟨participant, Option.okOr_eq_ok.mpr hparticipant, Except.bind_eq_ok.mpr
          ⟨message, Option.okOr_eq_ok.mpr hmessage, ?_⟩⟩
        rw [rejectFor, Except.check_eq_ok, not_not]
        exact hslot

/-- The check of a known participant does not panic. -/
theorem checkParticipant_ne_panicked (h : Known context claim) :
  checkParticipant claim context ≠ .error .panicked
  := by
  rw [checkParticipant]
  cases hwaiting : claim.waitingPartyHandle with
  | null => nofun
  | value handle =>
      obtain ⟨participant, hparticipant⟩ := h.waitingParty handle hwaiting
      intro h
      dsimp only at h
      rw [hparticipant] at h
      rcases Except.bind_eq_error.mp h with h | ⟨participant', -, h⟩
      · cases h
      · rcases Except.bind_eq_error.mp h with h | ⟨message, -, h⟩
        · obtain ⟨-, ⟨⟩⟩ := Option.okOr_eq_error.mp h
        · split_ifs at h
          cases h

/-- What the parser says of the time of a claim, if it has one and cites known evidence for it. -/
def Reads (context : SuppliedContext) (claim : Claim) (parsed : Parsed ParsedValue) : Prop :=
  ∃ temporal entry message, claim.temporal = .value temporal
    ∧ claim.evidence[temporal.textEvidenceIndex.toNat]? = some entry
    ∧ context.findMessage entry.sourceHandle = some message
    ∧ reparse (mapTemporalKind temporal.kind) temporal.value message.temporalContext = parsed

/-- The parser says one thing. -/
theorem Reads.unique {parsed parsed' : Parsed ParsedValue} (h : Reads context claim parsed)
    (h' : Reads context claim parsed') :
  parsed = parsed'
  := by
  obtain ⟨temporal, entry, message, htemporal, hentry, hmessage, hparsed⟩ := h
  obtain ⟨temporal', entry', message', htemporal', hentry', hmessage', hparsed'⟩ := h'
  rw [htemporal] at htemporal'
  cases htemporal'
  rw [hentry] at hentry'
  cases hentry'
  rw [hmessage] at hmessage'
  cases hmessage'
  rw [← hparsed, ← hparsed']

/-- The parser reads the time of a claim that has one. -/
def Reproduced (context : SuppliedContext) (claim : Claim) : Prop :=
  claim.temporal = .null ∨ ∃ parsed, Reads context claim (.ok parsed)

theorem checkTemporal_eq_ok_iff :
  checkTemporal claim context = .ok () ↔ Reproduced context claim
  := by
  rw [checkTemporal, Reproduced]
  cases htemporal : claim.temporal with
  | null => simp
  | value temporal =>
      dsimp only
      rw [Except.bind_eq_ok]
      constructor
      · rintro ⟨entry, hentry, h⟩
        right
        obtain ⟨message, hmessage, h⟩ := Except.bind_eq_ok.mp h
        split at h
        · rename_i parsed hparsed
          exact ⟨parsed, temporal, entry, message, htemporal, Option.okOr_eq_ok.mp hentry,
            Option.okOr_eq_ok.mp hmessage, hparsed⟩
        · cases h
        · cases h
      · rintro (⟨⟨⟩⟩ | ⟨parsed, temporal', entry, message, htemporal', hentry, hmessage, hparsed⟩)
        rw [htemporal] at htemporal'
        cases htemporal'
        refine ⟨entry, Option.okOr_eq_ok.mpr hentry, Except.bind_eq_ok.mpr
          ⟨message, Option.okOr_eq_ok.mpr hmessage, ?_⟩⟩
        rw [hparsed]

/-- The check of the time of a claim panics exactly when the calendar is out of range. -/
theorem checkTemporal_eq_panicked_iff (h : Known context claim) :
  checkTemporal claim context = .error .panicked ↔ Reads context claim (.error .panicked)
  := by
  rw [checkTemporal]
  cases htemporal : claim.temporal with
  | null =>
      apply iff_of_false
      · nofun
      · rintro ⟨temporal, -, -, htemporal', -⟩
        rw [htemporal] at htemporal'
        cases htemporal'
  | value temporal =>
      dsimp only
      constructor
      · intro h'
        rcases Except.bind_eq_error.mp h' with h' | ⟨entry, hentry, h'⟩
        · obtain ⟨-, ⟨⟩⟩ := Option.okOr_eq_error.mp h'
        · rw [Option.okOr_eq_ok] at hentry
          obtain ⟨message, hmessage⟩ := h.sources entry (List.mem_of_getElem? hentry)
          rw [hmessage] at h'
          rcases Except.bind_eq_error.mp h' with h' | ⟨message', hmessage', h'⟩
          · cases h'
          · cases hmessage'
            split at h'
            · cases h'
            · cases h'
            · rename_i hparsed
              exact ⟨temporal, entry, message, htemporal, hentry, hmessage, hparsed⟩
      · rintro ⟨temporal', entry, message, htemporal', hentry, hmessage, hparsed⟩
        rw [htemporal] at htemporal'
        cases htemporal'
        rw [hentry]
        apply Except.bind_eq_error.mpr
        refine Or.inr ⟨entry, rfl, ?_⟩
        rw [hmessage]
        apply Except.bind_eq_error.mpr
        refine Or.inr ⟨message, rfl, ?_⟩
        rw [hparsed]

/-! ### All steps of a claim -/

/-- The claim is about what was supplied. -/
structure Grounded (context : SuppliedContext) (claim : Claim) : Prop where
  known : Known context claim
  supported : ∀ evidence ∈ claim.evidence, Supported context evidence
  placed : Placed context claim

/-- A claim passes the checks of it by itself exactly when it is grounded, and the parser reads
its time. -/
theorem checkSteps4To8_eq_ok_iff :
  checkSteps4To8 claim context = .ok () ↔ Grounded context claim ∧ Reproduced context claim
  := by
  rw [checkSteps4To8, Except.check_bind_eq_ok, Except.check_bind_eq_ok, Except.check_bind_eq_ok,
    checkHandles_eq_ok_iff, Except.forM_eq_ok, checkParticipant_eq_ok_iff, checkTemporal_eq_ok_iff]
  constructor
  · rintro ⟨hknown, hsupported, hplaced, htime⟩
    exact ⟨⟨hknown, fun evidence he => checkEvidence_eq_ok_iff.mp (hsupported evidence he),
      hplaced⟩, htime⟩
  · rintro ⟨⟨hknown, hsupported, hplaced⟩, htime⟩
    exact ⟨hknown, fun evidence he => checkEvidence_eq_ok_iff.mpr (hsupported evidence he),
      hplaced, htime⟩

/-- The checks panic exactly where the claim is grounded and the calendar is out of range. -/
theorem checkSteps4To8_eq_panicked_iff :
  checkSteps4To8 claim context = .error .panicked ↔
    Grounded context claim ∧ Reads context claim (.error .panicked)
  := by
  constructor
  · intro h
    rw [checkSteps4To8] at h
    rcases Except.bind_eq_error.mp h with h | ⟨⟨⟩, hhandles, h⟩
    · exact absurd h checkHandles_ne_panicked
    · have hknown := checkHandles_eq_ok_iff.mp hhandles
      rcases Except.bind_eq_error.mp h with h | ⟨⟨⟩, hevidence, h⟩
      · obtain ⟨evidence, he, h⟩ := Except.exists_of_forM_eq_error h
        exact absurd h (checkEvidence_ne_panicked (hknown.sources evidence he))
      · rw [Except.forM_eq_ok] at hevidence
        rcases Except.bind_eq_error.mp h with h | ⟨⟨⟩, hparticipant, h⟩
        · exact absurd h (checkParticipant_ne_panicked hknown)
        · exact ⟨⟨hknown, fun evidence he => checkEvidence_eq_ok_iff.mp (hevidence evidence he),
            checkParticipant_eq_ok_iff.mp hparticipant⟩,
            (checkTemporal_eq_panicked_iff hknown).mp h⟩
  · rintro ⟨⟨hknown, hsupported, hplaced⟩, hreads⟩
    rw [checkSteps4To8]
    refine Except.bind_eq_error.mpr (Or.inr ⟨(), checkHandles_eq_ok_iff.mpr hknown, ?_⟩)
    refine Except.bind_eq_error.mpr (Or.inr ⟨(), Except.forM_eq_ok.mpr
      fun evidence he => checkEvidence_eq_ok_iff.mpr (hsupported evidence he), ?_⟩)
    refine Except.bind_eq_error.mpr (Or.inr ⟨(), checkParticipant_eq_ok_iff.mpr hplaced, ?_⟩)
    exact (checkTemporal_eq_panicked_iff hknown).mpr hreads

/-! ### Resolved instants -/

/-- A claim is for one instant. -/
def IsAt (context : SuppliedContext) (claim : Claim) (instant : UnixSeconds) : Prop :=
  Reads context claim (.ok (.instant (.unambiguous instant)))

/-- Where the calendar is in range a claim is resolved to its instant, if it is for one. -/
theorem exists_resolvedInstant (h : ¬ Reads context claim (.error .panicked)) :
  ∃ instant, resolvedInstant claim context = .ok instant
    ∧ ∀ t, instant = some t ↔ IsAt context claim t
  := by
  rw [resolvedInstant]
  cases htemporal : claim.temporal with
  | null =>
      refine ⟨none, rfl, fun t => iff_of_false nofun ?_⟩
      rintro ⟨temporal, -, -, htemporal', -⟩
      rw [htemporal] at htemporal'
      cases htemporal'
  | value temporal =>
      dsimp only
      cases hentry : claim.evidence[temporal.textEvidenceIndex.toNat]? with
      | none =>
          refine ⟨none, rfl, fun t => iff_of_false nofun ?_⟩
          rintro ⟨temporal', entry, -, htemporal', hentry', -⟩
          rw [htemporal] at htemporal'
          cases htemporal'
          rw [hentry] at hentry'
          cases hentry'
      | some entry =>
          dsimp only
          cases hmessage : context.findMessage entry.sourceHandle with
          | none =>
              refine ⟨none, rfl, fun t => iff_of_false nofun ?_⟩
              rintro ⟨temporal', entry', message, htemporal', hentry', hmessage', -⟩
              rw [htemporal] at htemporal'
              cases htemporal'
              rw [hentry] at hentry'
              cases hentry'
              rw [hmessage] at hmessage'
              cases hmessage'
          | some message =>
              dsimp only
              have hreads : Reads context claim (reparse (mapTemporalKind temporal.kind)
                  temporal.value message.temporalContext) :=
                ⟨temporal, entry, message, htemporal, hentry, hmessage, rfl⟩
              split
              · rename_i instant hparsed
                rw [hparsed] at hreads
                refine ⟨some instant, rfl, ?_⟩
                intro t
                constructor
                · rintro ⟨⟩
                  exact hreads
                · intro ht
                  cases hreads.unique ht
                  rfl
              · rename_i parsed hother hparsed
                rw [hparsed] at hreads
                refine ⟨none, rfl, fun t => iff_of_false nofun ?_⟩
                intro ht
                apply hother t
                cases hreads.unique ht
                rfl
              · rename_i rejection hparsed
                rw [hparsed] at hreads
                refine ⟨none, rfl, fun t => iff_of_false nofun ?_⟩
                intro ht
                cases hreads.unique ht
              · rename_i hparsed
                rw [hparsed] at hreads
                exact absurd hreads h

end Inference
