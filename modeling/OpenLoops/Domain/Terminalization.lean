import OpenLoops.Domain.TwoLoop

/-!
# Closing an open loop

Every command that closes a loop resets its closure review and keeps its deadline, while
only an open loop may age.  So an open loop is closed exactly when its deadline is neither
approaching nor overdue.
-/

namespace Domain

/-- The facets of a closed loop are legal exactly when it has a resolution and does not
age. -/
theorem FacetTuple.terminal_legal_iff (facets : FacetTuple) (resolution : Resolution) :
  (facets.terminal resolution).Legal ↔
    resolution ≠ .none ∧ facets.deadlineState.isAging = false
  := by
  rw [legal_iff]
  simp [terminal]

/-- A terminalizing command makes its transition exactly when the loop does not age, given
that it is open and below the greatest version and that the evidence is admissible. -/
theorem exists_buildTransition_iff {state : LoopState} {payload : CommandPayload}
    (context : CommandContext) (hopen : state.facets.obligationState = .open)
    (hversion : state.loopVersion.get < Version.max.get) (hpayload : payload.Terminalizing)
    (hpre : payload.Precondition state.facets) (hrefs : SourceRefsOk payload.sourceRefs) :
  (∃ t, buildTransition state payload context = .ok t) ↔
    state.facets.deadlineState.isAging = false
  := by
  obtain ⟨resolution, hresolution, hfacets⟩ := hpayload.newFacets_eq state.facets
  have hallowed : state.facets.obligationState ∈ payload.allowedFrom := by
    rw [hopen]
    apply hpayload.open_mem_allowedFrom
  have hlegal := FacetTuple.terminal_legal_iff state.facets resolution
  constructor
  · rintro ⟨t, h⟩
    obtain ⟨-, -, -, hnew, hlegal', -⟩ := buildTransition_spec h
    rw [hnew, hfacets] at hlegal'
    apply (hlegal.mp hlegal').2
  · intro haging
    obtain ⟨t, ht⟩ := exists_finish_iff.mpr
      ⟨hversion, hlegal.mpr ⟨hresolution, haging⟩, hrefs⟩
    use t
    apply buildTransition_eq_ok.mpr
    rw [hfacets]
    exact ⟨hallowed, hpre, ht⟩

/-- A request with an unseen key at the current version is applied exactly when its
transition is made. -/
theorem applyCommand_applied_iff {ledger : Ledger} {state : LoopState}
    {request : CommandRequest} {context : CommandContext} {t : Transition}
    (hkey : ledger.get? request.key = none)
    (hexpected : request.expectedLoopVersion = state.loopVersion) :
  (applyCommand ledger state request context).2 = .applied t ↔
    buildTransition state request.payload context = .ok t
  := by
  rw [applyCommand, hkey]
  cases buildTransition state request.payload context with
  | ok u => simp [hexpected]
  | error rejection => simp [hexpected]

/-- An open loop below the greatest version is closed, by any terminalizing command under
a fresh key at its version with admissible evidence, and as the losing side of an
otherwise admissible merge, exactly when its deadline is neither approaching nor
overdue. -/
theorem closes_iff_not_aging (state : LoopState)
    (hopen : state.facets.obligationState = .open)
    (hversion : state.loopVersion.get < Version.max.get) :
  (∀ (ledger : Ledger) (request : CommandRequest) (context : CommandContext),
    ledger.get? request.key = none → request.expectedLoopVersion = state.loopVersion →
    request.payload.Terminalizing → request.payload.Precondition state.facets →
    SourceRefsOk request.payload.sourceRefs →
    ((∃ t, (applyCommand ledger state request context).2 = .applied t
        ∧ t.newFacets.Legal ∧ t.newFacets.obligationState = .terminal)
      ↔ state.facets.deadlineState.isAging = false))
  ∧ ∀ (survivor : LoopState) (transferableEvidence : List OpaqueId)
      (survivorTransitionId loserTransitionId : OpaqueId) (context : CommandContext),
    survivor.facets.Legal → survivor.loopVersion.get < Version.max.get →
    transferableEvidence ≠ [] → SourceRefsOk transferableEvidence →
    ((∃ survivorTransition loserTransition,
        applyDuplicateMerge survivor survivor.loopVersion state state.loopVersion
          transferableEvidence survivorTransitionId loserTransitionId context
          = .ok (survivorTransition, loserTransition)
        ∧ loserTransition.newFacets.Legal
        ∧ loserTransition.newFacets.obligationState = .terminal)
      ↔ state.facets.deadlineState.isAging = false)
  := by
  constructor
  · intro ledger request context hkey hexpected hpayload hpre hrefs
    rw [← exists_buildTransition_iff context hopen hversion hpayload hpre hrefs]
    constructor
    · rintro ⟨t, happlied, -⟩
      use t, (applyCommand_applied_iff hkey hexpected).mp happlied
    · rintro ⟨t, hbuild⟩
      obtain ⟨-, -, -, hnew, hnewLegal, -⟩ := buildTransition_spec hbuild
      obtain ⟨resolution, -, hfacets⟩ := hpayload.newFacets_eq state.facets
      use t, (applyCommand_applied_iff hkey hexpected).mpr hbuild, hnewLegal
      rw [hnew, hfacets]
      rfl
  · intro survivor transferableEvidence survivorTransitionId loserTransitionId context
      hsurvivor hsurvivorVersion hevidence hrefs
    have hdismissed := FacetTuple.terminal_legal_iff state.facets .dismissed
    constructor
    · rintro ⟨survivorTransition, loserTransition, h, -⟩
      obtain ⟨hadmissible, -⟩ := applyDuplicateMerge_spec h
      apply (hdismissed.mp hadmissible.loserLegal).2
    · intro haging
      have hloser := hdismissed.mpr ⟨by decide, haging⟩
      have hnotTerminal : state.facets.obligationState ≠ .terminal := by
        rw [hopen]
        decide
      obtain ⟨survivorTransition, loserTransition, h⟩ :=
        exists_applyDuplicateMerge_iff.mpr
          ⟨rfl, rfl, hnotTerminal, hevidence, hrefs, hsurvivorVersion, hversion, hsurvivor,
            hloser⟩
      obtain ⟨-, -, hnew⟩ := applyDuplicateMerge_spec h
      use survivorTransition, loserTransition, h
      rw [hnew]
      exact ⟨hloser, rfl⟩

/-- An open loop whose deadline has passed. -/
def overdueLoop : LoopState :=
  { openLoop with facets := { openFacets with deadlineState := .overdue } }

/-- The confirmation that a loop at its first version was fulfilled. -/
def confirmFulfilledRequest : CommandRequest :=
  ⟨⟨Vector.replicate 16 0⟩, .first, .confirmFulfilled [idOf 4]⟩

/-- The open loop is closed by a confirmation and as the loser of a merge. -/
theorem openLoop_closes :
  (∃ t, (applyCommand .new openLoop confirmFulfilledRequest someContext).2 = .applied t
      ∧ t.newFacets.Legal ∧ t.newFacets.obligationState = .terminal)
    ∧ ∃ survivorTransition loserTransition,
      applyDuplicateMerge { openLoop with loopId := idOf 9 } .first openLoop .first
        [idOf 4] (idOf 5) (idOf 6) someContext = .ok (survivorTransition, loserTransition)
      ∧ loserTransition.newFacets.Legal
      ∧ loserTransition.newFacets.obligationState = .terminal
  := by
  obtain ⟨hcommand, hmerge⟩ :=
    closes_iff_not_aging openLoop rfl (by decide)
  constructor
  · apply (hcommand .new confirmFulfilledRequest someContext rfl rfl trivial
      (List.cons_ne_nil _ _) (by decide)).mpr
    rfl
  · apply (hmerge { openLoop with loopId := idOf 9 } [idOf 4] (idOf 5) (idOf 6) someContext
      (by decide) (by decide) (by decide) (by decide)).mpr
    rfl

/-- The overdue loop is legal, open and at a version below the greatest, and yet the
confirmation that it was fulfilled, under a fresh key at its version and with admissible
evidence, is rejected, and so is the merge that would dismiss it. -/
theorem overdueLoop_not_closed :
  overdueLoop.facets.Legal ∧ overdueLoop.facets.obligationState = .open
    ∧ overdueLoop.loopVersion.get < Version.max.get
    ∧ Ledger.new.get? confirmFulfilledRequest.key = none
    ∧ confirmFulfilledRequest.expectedLoopVersion = overdueLoop.loopVersion
    ∧ confirmFulfilledRequest.payload.Terminalizing
    ∧ confirmFulfilledRequest.payload.Precondition overdueLoop.facets
    ∧ SourceRefsOk confirmFulfilledRequest.payload.sourceRefs
    ∧ (applyCommand .new overdueLoop confirmFulfilledRequest someContext).2
      = .rejected (.invalidTransition (.illegalNewFacets .deadlineAgingRequiresOpen))
    ∧ applyDuplicateMerge openLoop .first { overdueLoop with loopId := idOf 9 } .first
      [idOf 4] (idOf 5) (idOf 6) someContext
      = .error (.invalidTransition (.illegalNewFacets .deadlineAgingRequiresOpen))
  := by
  refine ⟨by decide, rfl, by decide, rfl, rfl, trivial, ?_, by decide, ?_, ?_⟩
  · exact List.cons_ne_nil _ _
  · decide
  · decide

end Domain
