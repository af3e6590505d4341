import OpenLoops.Domain.Command

/-!
# The policy of the commands

What each command requires of the loop and what it makes of the facets, as a table.
`buildTransition_eq_ok` says that the commands follow the table; which commands close a
loop and which reopen it is read off it.
-/

namespace Domain

namespace CommandPayload

/-- The obligations a command is allowed from. -/
def allowedFrom : CommandPayload → List ObligationState
  | confirmMineActionable => [.candidate]
  | confirmFulfilled _ | keepOpen _ | requestEvidence _ => [.open]
  | confirmDeclined _ | confirmMoot _ | confirmTransfer _ _ | completedOutsideEmail
  | dismissClassify _ => [.candidate, .open]
  | selectDifferentEvidence _ => [.candidate, .open, .terminal]
  | reopen => [.terminal]

/-- What a command requires besides the obligation: closing as fulfilled needs evidence,
and only a possible closure is kept open. -/
def Precondition (facets : FacetTuple) : CommandPayload → Prop
  | confirmFulfilled closureEvidenceRefs => closureEvidenceRefs ≠ []
  | keepOpen _ => facets.closureReviewState = .possible
  | _ => True

/-- The facets a command makes of the facets of the loop. -/
def newFacets (facets : FacetTuple) : CommandPayload → FacetTuple
  | confirmMineActionable => { facets with obligationState := .open }
  | confirmFulfilled _ => facets.terminal .closed
  | confirmDeclined _ => facets.terminal .declined
  | confirmMoot _ => facets.terminal .moot
  | confirmTransfer delegation _ =>
      if delegation.yieldsDelegatedResolution then facets.terminal .delegated else facets
  | keepOpen _ => { facets with closureReviewState := .keptOpen }
  | requestEvidence _ => { facets with closureReviewState := .evidenceRequested }
  | selectDifferentEvidence _ => facets
  | completedOutsideEmail => facets.terminal .completedOutsideEmail
  | dismissClassify reason => facets.terminal (dismissOutcomeFor reason).1
  | reopen =>
      { facets with
        obligationState := .open
        resolution := .none
        closureReviewState := .none
        reviewFlags := facets.reviewFlags.with .needsReview }

/-- The reason a command records. -/
def reasonCode : CommandPayload → TransitionReasonCode
  | confirmMineActionable => .confirmedMineActionable
  | confirmFulfilled _ => .confirmedFulfilled
  | confirmDeclined _ => .confirmedDeclined
  | confirmMoot _ => .confirmedMoot
  | confirmTransfer delegation _ =>
      if delegation.yieldsDelegatedResolution then .confirmedTransferred
      else .delegationNoted
  | keepOpen _ => .keptOpenSuppressed
  | requestEvidence _ => .evidenceRequested
  | selectDifferentEvidence _ => .evidenceSelectedDifferent
  | completedOutsideEmail => .completedOutsideEmail
  | dismissClassify reason => (dismissOutcomeFor reason).2
  | reopen => .reopened

/-- The sources a command names. -/
def sourceRefs : CommandPayload → List OpaqueId
  | confirmFulfilled closureEvidenceRefs => closureEvidenceRefs
  | confirmDeclined evidence => evidence.sourceRefs
  | confirmMoot evidence => evidence.sourceRefs
  | confirmTransfer _ evidence => evidence.sourceRefs
  | selectDifferentEvidence evidenceRef => [evidenceRef]
  | _ => []

/-- Whether a command closes the loop. -/
def Terminalizing : CommandPayload → Prop
  | confirmFulfilled _ | confirmDeclined _ | confirmMoot _ | completedOutsideEmail
  | dismissClassify _ => True
  | confirmTransfer delegation _ => delegation = .transferred
  | confirmMineActionable | keepOpen _ | requestEvidence _ | selectDifferentEvidence _
  | reopen => False

instance (payload : CommandPayload) : Decidable payload.Terminalizing :=
  match payload with
  | confirmFulfilled _ | confirmDeclined _ | confirmMoot _ | completedOutsideEmail
  | dismissClassify _ => isTrue trivial
  | confirmTransfer delegation _ => inferInstanceAs (Decidable (delegation = _))
  | confirmMineActionable | keepOpen _ | requestEvidence _ | selectDifferentEvidence _
  | reopen => isFalse id

end CommandPayload

/-- A delegation resolves the loop exactly when it is a transfer. -/
theorem DelegationCode.yieldsDelegatedResolution_iff (delegation : DelegationCode) :
  delegation.yieldsDelegatedResolution = true ↔ delegation = .transferred
  := by
  cases delegation <;> simp [yieldsDelegatedResolution]

/-- A correction always gives a resolution. -/
theorem dismissOutcomeFor_ne_none (reason : CorrectionReasonCode) :
  (dismissOutcomeFor reason).1 ≠ .none
  := by
  cases reason <;> simp [dismissOutcomeFor]

/-- A command makes a transition exactly when the table allows it from the obligation, its
precondition holds, and the transition to the facets of the table is made. -/
theorem buildTransition_eq_ok {state : LoopState} {payload : CommandPayload}
    {context : CommandContext} {t : Transition} :
  buildTransition state payload context = .ok t ↔
    state.facets.obligationState ∈ payload.allowedFrom ∧ payload.Precondition state.facets
      ∧ finish state (payload.newFacets state.facets) payload.reasonCode payload.sourceRefs
        context = .ok t
  := by
  -- every command first checks the obligation; what remains is its precondition
  cases payload with
  | confirmMineActionable | requestEvidence | selectDifferentEvidence
  | confirmDeclined | confirmMoot | completedOutsideEmail | dismissClassify | reopen =>
      rw [← requireObligation_eq_ok]
      simp only [CommandPayload.Precondition, true_and]
      apply Except.check_bind_eq_ok
  | confirmFulfilled closureEvidenceRefs =>
      rw [buildTransition, buildConfirmFulfilled, Except.check_bind_eq_ok,
        requireObligation_eq_ok]
      cases closureEvidenceRefs with
      | nil => simp [CommandPayload.Precondition]
      | cons _ _ => simp [CommandPayload.Precondition, CommandPayload.allowedFrom,
          finishTerminal, CommandPayload.newFacets, CommandPayload.reasonCode,
          CommandPayload.sourceRefs]
  | confirmTransfer delegation evidence =>
      rw [buildTransition, buildConfirmTransfer, Except.check_bind_eq_ok,
        requireObligation_eq_ok]
      simp only [CommandPayload.Precondition, true_and, CommandPayload.newFacets,
        CommandPayload.reasonCode]
      cases delegation.yieldsDelegatedResolution with
      | true => exact Iff.rfl
      | false => exact Iff.rfl
  | keepOpen hypothesisIdentity =>
      rw [buildTransition, buildKeepOpen, Except.check_bind_eq_ok, requireObligation_eq_ok]
      by_cases hp : state.facets.closureReviewState = .possible
      · simp [hp, CommandPayload.Precondition, CommandPayload.allowedFrom,
          CommandPayload.newFacets, CommandPayload.reasonCode, CommandPayload.sourceRefs]
      · simp [hp, CommandPayload.Precondition]

/-- The transition a command makes: the user's, of this loop, from its facets to those of
the table, which are legal, at the next version. -/
theorem buildTransition_spec {state : LoopState} {payload : CommandPayload}
    {context : CommandContext} {t : Transition}
    (h : buildTransition state payload context = .ok t) :
  t.loopId = state.loopId ∧ t.actor = .user ∧ t.priorFacets = state.facets
    ∧ t.newFacets = payload.newFacets state.facets ∧ t.newFacets.Legal
    ∧ state.loopVersion.next = some t.loopVersion
    ∧ state.facets.obligationState ∈ payload.allowedFrom
  := by
  obtain ⟨hallowed, -, hfinish⟩ := buildTransition_eq_ok.mp h
  obtain ⟨version, hversion, hlegal, -, rfl⟩ := finish_eq_ok.mp hfinish
  exact ⟨rfl, rfl, rfl, rfl, hlegal, hversion, hallowed⟩

/-- The system's note: of this loop, terminal before and after with the same resolution,
to legal facets at the next version. -/
theorem applyTerminalReviewNote_spec {state : LoopState} {causingSourceRef : OpaqueId}
    {context : CommandContext} {t : Transition}
    (h : applyTerminalReviewNote state causingSourceRef context = .ok t) :
  t.loopId = state.loopId ∧ t.priorFacets = state.facets ∧ t.newFacets.Legal
    ∧ state.loopVersion.next = some t.loopVersion
    ∧ state.facets.obligationState = .terminal ∧ t.newFacets.obligationState = .terminal
    ∧ t.newFacets.resolution = state.facets.resolution
  := by
  obtain ⟨hterminal, h⟩ := Except.check_bind_eq_ok.mp h
  obtain ⟨version, hversion, h⟩ := Except.bind_eq_ok.mp h
  obtain ⟨-, hlegal, -, rfl⟩ := Transition.new_eq_ok.mp (Except.mapError_eq_ok.mp h)
  have hterminal : state.facets.obligationState = .terminal :=
    List.mem_singleton.mp (requireObligation_eq_ok.mp hterminal)
  exact ⟨rfl, rfl, hlegal, Option.okOr_eq_ok.mp hversion, hterminal, hterminal, rfl⟩

/-! ### Closing and reopening -/

/-- An open loop is made terminal only by a terminalizing command. -/
theorem CommandPayload.terminalizing_of_newFacets {payload : CommandPayload}
    {facets : FacetTuple} (hbefore : facets.obligationState ≠ .terminal)
    (hafter : (payload.newFacets facets).obligationState = .terminal) :
  payload.Terminalizing
  := by
  cases payload with
  | confirmFulfilled | confirmDeclined | confirmMoot | completedOutsideEmail
  | dismissClassify => trivial
  | confirmTransfer delegation evidence =>
      apply (DelegationCode.yieldsDelegatedResolution_iff delegation).mp
      by_contra hd
      rw [newFacets, if_neg hd] at hafter
      apply hbefore hafter
  | confirmMineActionable | reopen => cases hafter
  | keepOpen | requestEvidence | selectDifferentEvidence => exact absurd hafter hbefore

/-- A terminal loop is opened only by reopening it. -/
theorem CommandPayload.eq_reopen_of_newFacets {payload : CommandPayload}
    {facets : FacetTuple} (hallowed : facets.obligationState ∈ payload.allowedFrom)
    (hbefore : facets.obligationState = .terminal)
    (hafter : (payload.newFacets facets).obligationState ≠ .terminal) :
  payload = .reopen
  := by
  rw [hbefore] at hallowed
  cases payload with
  | reopen => rfl
  | selectDifferentEvidence => exact absurd hbefore hafter
  | confirmMineActionable | confirmFulfilled | confirmDeclined | confirmMoot
  | confirmTransfer | keepOpen | requestEvidence | completedOutsideEmail
  | dismissClassify => simp [allowedFrom] at hallowed

/-- Every terminalizing command is allowed from an open loop. -/
theorem CommandPayload.Terminalizing.open_mem_allowedFrom {payload : CommandPayload}
    (h : payload.Terminalizing) :
  .open ∈ payload.allowedFrom
  := by
  cases payload with
  | confirmFulfilled | confirmDeclined | confirmMoot | confirmTransfer
  | completedOutsideEmail | dismissClassify => simp [allowedFrom]
  | confirmMineActionable | keepOpen | requestEvidence | selectDifferentEvidence
  | reopen => cases h

/-- A terminalizing command closes the loop with a resolution. -/
theorem CommandPayload.Terminalizing.newFacets_eq {payload : CommandPayload}
    (h : payload.Terminalizing) (facets : FacetTuple) :
  ∃ r, r ≠ .none ∧ payload.newFacets facets = facets.terminal r
  := by
  cases payload with
  | confirmFulfilled =>
      use .closed
      exact ⟨by decide, rfl⟩
  | confirmDeclined =>
      use .declined
      exact ⟨by decide, rfl⟩
  | confirmMoot =>
      use .moot
      exact ⟨by decide, rfl⟩
  | confirmTransfer delegation evidence =>
      use .delegated
      exact ⟨by decide, if_pos ((DelegationCode.yieldsDelegatedResolution_iff _).mpr h)⟩
  | completedOutsideEmail =>
      use .completedOutsideEmail
      exact ⟨by decide, rfl⟩
  | dismissClassify reason =>
      use (dismissOutcomeFor reason).1
      exact ⟨dismissOutcomeFor_ne_none reason, rfl⟩
  | confirmMineActionable | keepOpen | requestEvidence | selectDifferentEvidence
  | reopen => cases h

end Domain
