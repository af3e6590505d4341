import OpenLoops.Domain.Terminalization

/-!
# Keeping a loop open

Keeping a loop open puts its closure review to `keptOpen` whatever hypothesis the command
names, and requesting evidence does not look at the hypotheses either.  So the review
follows the hypotheses exactly when the hypothesis named is the only one to suppress.

A command that names message evidence should be frozen while the source of the loop's
evidence is not available.  No command looks at the source state, so such a command is
frozen exactly when it is not carried out for another reason.
-/

namespace Domain

/-- The answer to a command agrees with the hypotheses of the loop: a hypothesis that is kept
open is current and the closure review is projected with the hypothesis suppressed, and
evidence is requested for the kind of a current hypothesis only. -/
def ApplyOutcome.FollowsHypotheses (outcome : ApplyOutcome) (payload : CommandPayload)
    (hypotheses : ClosureHypotheses) : Prop :=
  match payload with
  | .keepOpen h => ∀ t, outcome = .applied t →
      h ∈ hypotheses.current
        ∧ t.newFacets.closureReviewState = (hypotheses.suppress h).projection
  | .requestEvidence kind => ∀ t, outcome = .applied t → ∃ h ∈ hypotheses.current, h.kind = kind
  | _ => True

/-- The hypothesis a command keeps open is the only one that is not suppressed, while no
evidence request is pending; and the kind it requests evidence for is that of a current
hypothesis. -/
def CommandPayload.NamesHypothesis (hypotheses : ClosureHypotheses) : CommandPayload → Prop
  | keepOpen h => (∀ g ∈ hypotheses.current, g ∉ hypotheses.suppressed → g = h)
      ∧ hypotheses.evidenceRequestPending = false
  | requestEvidence kind => ∃ h ∈ hypotheses.current, h.kind = kind
  | _ => True

/-- A request on an open loop that keeps it open or requests evidence is carried out: its key
is unseen, it is made at the current version, which is not the last one, and the loop has no
resolution and the closure review the command requires. -/
structure CarriedOut (ledger : Ledger) (state : LoopState) (request : CommandRequest) :
    Prop where
  unseen : ledger.get? request.key = none
  current : request.expectedLoopVersion = state.loopVersion
  next : state.loopVersion.get < Version.max.get
  unresolved : state.facets.resolution = .none
  precondition : request.payload.Precondition state.facets

/-- An open loop is legal in any closure review exactly when it has no resolution. -/
theorem FacetTuple.withReview_legal_iff {facets : FacetTuple}
    (hopen : facets.obligationState = .open) (review : ClosureReviewState) :
  { facets with closureReviewState := review : FacetTuple }.Legal ↔ facets.resolution = .none
  := by
  rw [legal_iff]
  simp [hopen]

/-- The transition of a request is applied exactly when the key is unseen, the version is the
current one and the transition is made. -/
theorem applyCommand_eq_applied {ledger : Ledger} {state : LoopState}
    {request : CommandRequest} {context : CommandContext} {t : Transition} :
  (applyCommand ledger state request context).2 = .applied t ↔
    ledger.get? request.key = none ∧ request.expectedLoopVersion = state.loopVersion
      ∧ buildTransition state request.payload context = .ok t
  := by
  constructor
  · intro h
    have hstep := applyCommand_step ledger state request context
    generalize applyCommand ledger state request context = answer at *
    cases hstep with
    | applied hkey hversion hbuild =>
        cases h
        exact ⟨hkey, hversion, hbuild⟩
    | replayed | keyCollision | refreshConflict | rejected => cases h
  · rintro ⟨hkey, hversion, hbuild⟩
    apply (applyCommand_applied_iff hkey hversion).mpr hbuild

/-- A request on an open loop that puts the loop in closure review is applied exactly when it
is carried out. -/
theorem exists_applied_iff_carriedOut {ledger : Ledger} {state : LoopState}
    {request : CommandRequest} {context : CommandContext}
    (hopen : state.facets.obligationState = .open)
    (hallowed : .open ∈ request.payload.allowedFrom) {review : ClosureReviewState}
    (hnew : request.payload.newFacets state.facets
      = { state.facets with closureReviewState := review })
    (hrefs : request.payload.sourceRefs = []) :
  (∃ t, (applyCommand ledger state request context).2 = .applied t) ↔
    CarriedOut ledger state request
  := by
  have hlegal := FacetTuple.withReview_legal_iff hopen review
  constructor
  · rintro ⟨t, h⟩
    obtain ⟨hkey, hversion, hbuild⟩ := applyCommand_eq_applied.mp h
    obtain ⟨-, hprecondition, hfinish⟩ := buildTransition_eq_ok.mp hbuild
    obtain ⟨hnext, hnewLegal, -⟩ := exists_finish_iff.mp ⟨t, hfinish⟩
    rw [hnew] at hnewLegal
    exact ⟨hkey, hversion, hnext, hlegal.mp hnewLegal, hprecondition⟩
  · rintro ⟨hkey, hversion, hnext, hunresolved, hprecondition⟩
    have hnewLegal : (request.payload.newFacets state.facets).Legal := by
      rw [hnew]
      apply hlegal.mpr hunresolved
    have hrefsOk : SourceRefsOk request.payload.sourceRefs := by
      rw [hrefs]
      exact SourceRefsOk.nil
    obtain ⟨t, hfinish⟩ := exists_finish_iff.mpr ⟨hnext, hnewLegal, hrefsOk⟩
    use t
    apply applyCommand_eq_applied.mpr
    use hkey, hversion
    apply buildTransition_eq_ok.mpr
    rw [hopen]
    exact ⟨hallowed, hprecondition, hfinish⟩

/-- Of hypotheses that make a closure possible, suppressing `h` leaves the loop kept open with
`h` a current hypothesis exactly when `h` is the only one that is not suppressed and no
evidence request is pending. -/
theorem ClosureHypotheses.suppress_keptOpen_iff {hypotheses : ClosureHypotheses}
    (hpossible : hypotheses.projection = .possible) (h : HypothesisIdentity) :
  (h ∈ hypotheses.current ∧ .keptOpen = (hypotheses.suppress h).projection) ↔
    (∀ g ∈ hypotheses.current, g ∉ hypotheses.suppressed → g = h)
      ∧ hypotheses.evidenceRequestPending = false
  := by
  obtain ⟨p, hp, hpu⟩ := projection_eq_possible.mp hpossible
  rw [eq_comm (a := ClosureReviewState.keptOpen), projection_eq_keptOpen]
  simp only [suppress, List.mem_cons, not_or, not_exists, not_and, not_not]
  constructor
  · rintro ⟨-, hnone, hpending, -⟩
    refine ⟨?_, hpending⟩
    intro g hg hgu
    by_contra hne
    apply hgu (hnone g hg hne)
  · rintro ⟨honly, hpending⟩
    have hph := honly p hp hpu
    subst hph
    refine ⟨hp, ?_, hpending, p, hp, Or.inl rfl⟩
    intro g hg hne
    by_contra hgu
    apply hne (honly g hg hgu)

/-- The transition of a request that keeps a loop open leaves it kept open. -/
theorem closureReviewState_of_keepOpen {ledger : Ledger} {state : LoopState}
    {request : CommandRequest} {context : CommandContext} {h : HypothesisIdentity}
    {t : Transition} (hpayload : request.payload = .keepOpen h)
    (happlied : (applyCommand ledger state request context).2 = .applied t) :
  t.newFacets.closureReviewState = .keptOpen
  := by
  obtain ⟨-, -, hbuild⟩ := applyCommand_eq_applied.mp happlied
  obtain ⟨-, -, -, hnew, -⟩ := buildTransition_spec hbuild
  rw [hnew, hpayload]
  rfl

/-- On an open loop whose closure review is projected from the hypotheses, keeping it open and
requesting evidence follow the hypotheses exactly when, where the command is carried out, it
names the hypotheses as it should. -/
theorem followsHypotheses_iff (ledger : Ledger) (state : LoopState)
    (request : CommandRequest) (context : CommandContext) (hypotheses : ClosureHypotheses)
    (hopen : state.facets.obligationState = .open)
    (hprojection : hypotheses.projection = state.facets.closureReviewState) :
  (applyCommand ledger state request context).2.FollowsHypotheses request.payload hypotheses ↔
    (CarriedOut ledger state request → request.payload.NamesHypothesis hypotheses)
  := by
  cases hpayload : request.payload with
  | keepOpen h =>
      have happlied : (∃ t, (applyCommand ledger state request context).2 = .applied t) ↔
          CarriedOut ledger state request := by
        apply exists_applied_iff_carriedOut hopen
        · simp [hpayload, CommandPayload.allowedFrom]
        · rw [hpayload]
          rfl
        · rw [hpayload]
          rfl
      have hpossible : CarriedOut ledger state request → hypotheses.projection = .possible := by
        intro hcarried
        have hprecondition := hcarried.precondition
        rw [hpayload] at hprecondition
        exact hprojection.trans hprecondition
      constructor
      · intro hfollows hcarried
        obtain ⟨t, ht⟩ := happlied.mpr hcarried
        have hagree := hfollows t ht
        rw [closureReviewState_of_keepOpen hpayload ht] at hagree
        apply (hypotheses.suppress_keptOpen_iff (hpossible hcarried) h).mp hagree
      · intro hnames t ht
        have hcarried := happlied.mp ⟨t, ht⟩
        rw [closureReviewState_of_keepOpen hpayload ht]
        apply (hypotheses.suppress_keptOpen_iff (hpossible hcarried) h).mpr (hnames hcarried)
  | requestEvidence kind =>
      have happlied : (∃ t, (applyCommand ledger state request context).2 = .applied t) ↔
          CarriedOut ledger state request := by
        apply exists_applied_iff_carriedOut hopen
        · simp [hpayload, CommandPayload.allowedFrom]
        · rw [hpayload]
          rfl
        · rw [hpayload]
          rfl
      rw [← happlied]
      constructor
      · rintro hfollows ⟨t, ht⟩
        apply hfollows t ht
      · intro hnames t ht
        apply hnames ⟨t, ht⟩
  | confirmMineActionable | confirmFulfilled | confirmDeclined | confirmMoot | confirmTransfer
  | selectDifferentEvidence | completedOutsideEmail | dismissClassify | reopen =>
      exact iff_of_true trivial fun _ => trivial

/-! ### Two hypotheses at once -/

/-- An open loop that may be closed. -/
def reviewedLoop : LoopState :=
  { openLoop with facets := { openFacets with closureReviewState := .possible } }

/-- A hypothesis on the open loop, of a kind and from one source. -/
def hypothesisOf (kind : HypothesisKind) : HypothesisIdentity where
  targetLoop := openLoop.loopId
  kind
  sourceRefs := [⟨idOf 4, .first⟩]
  policyVersion := .first

/-- The request to keep the loop open in spite of a hypothesis. -/
def keepOpenRequest (kind : HypothesisKind) : CommandRequest :=
  ⟨⟨Vector.replicate 16 0⟩, .first, .keepOpen (hypothesisOf kind)⟩

/-- The only hypothesis is suppressed, and the review follows. -/
theorem keepOpen_only_follows :
  (applyCommand .new reviewedLoop (keepOpenRequest .closure) someContext).2.FollowsHypotheses
    (keepOpenRequest .closure).payload ⟨[hypothesisOf .closure], [], false⟩
  := by
  apply (followsHypotheses_iff .new reviewedLoop (keepOpenRequest .closure) someContext
    ⟨[hypothesisOf .closure], [], false⟩ rfl rfl).mpr
  intro _
  constructor
  · intro g hg _
    apply List.mem_singleton.mp hg
  · rfl

/-- Of two hypotheses one is suppressed, and the loop is kept open although the other one is
current and not suppressed, so that a closure is still possible. -/
theorem keepOpen_one_of_two_not_follows :
  reviewedLoop.facets.Legal ∧ reviewedLoop.facets.obligationState = .open
    ∧ (ClosureHypotheses.mk [hypothesisOf .closure, hypothesisOf .moot] [] false).projection
      = reviewedLoop.facets.closureReviewState
    ∧ (∃ t, (applyCommand .new reviewedLoop (keepOpenRequest .closure) someContext).2
      = .applied t ∧ t.newFacets.closureReviewState = .keptOpen)
    ∧ (ClosureHypotheses.mk [hypothesisOf .closure, hypothesisOf .moot] [] false
      |>.suppress (hypothesisOf .closure)).projection = .possible
    ∧ ¬ (applyCommand .new reviewedLoop (keepOpenRequest .closure) someContext).2.FollowsHypotheses
      (keepOpenRequest .closure).payload
      ⟨[hypothesisOf .closure, hypothesisOf .moot], [], false⟩
  := by
  have happlied : ∃ t, (applyCommand .new reviewedLoop (keepOpenRequest .closure) someContext).2
      = .applied t ∧ t.newFacets.closureReviewState = .keptOpen := ⟨_, rfl, rfl⟩
  refine ⟨by decide, rfl, rfl, happlied, rfl, ?_⟩
  intro hfollows
  obtain ⟨t, ht, hkept⟩ := happlied
  obtain ⟨-, hagree⟩ := hfollows t ht
  rw [hkept] at hagree
  cases hagree

/-! ### Unavailable evidence -/

/-- Whether a command promotes, closes or notes a delegation of the loop on the strength of
message evidence. -/
def CommandPayload.EvidenceDependent : CommandPayload → Prop
  | confirmFulfilled _ => True
  | confirmDeclined evidence => evidence.sourceRefs ≠ []
  | confirmMoot evidence => evidence.sourceRefs ≠ []
  | confirmTransfer _ evidence => evidence.sourceRefs ≠ []
  | confirmMineActionable | keepOpen _ | requestEvidence _ | selectDifferentEvidence _
  | completedOutsideEmail | dismissClassify _ | reopen => False

/-- The answer to a command is frozen when the evidence of the loop is not available: a
command that depends on evidence is not applied. -/
def ApplyOutcome.Frozen (outcome : ApplyOutcome) (state : LoopState)
    (payload : CommandPayload) : Prop :=
  state.facets.sourceState ≠ .available → payload.EvidenceDependent →
    ∀ t, outcome ≠ .applied t

/-- A request passes every check there is: its key is unseen, it is made at the current
version, which is not the last one, from an obligation the command is allowed from and with
its precondition, the facets it makes are legal and the sources it names may be named. -/
structure PassesChecks (ledger : Ledger) (state : LoopState) (request : CommandRequest) :
    Prop where
  unseen : ledger.get? request.key = none
  current : request.expectedLoopVersion = state.loopVersion
  next : state.loopVersion.get < Version.max.get
  allowed : state.facets.obligationState ∈ request.payload.allowedFrom
  precondition : request.payload.Precondition state.facets
  legal : (request.payload.newFacets state.facets).Legal
  sources : SourceRefsOk request.payload.sourceRefs

/-- A request is applied exactly when it passes the checks. -/
theorem exists_applied_iff_passesChecks {ledger : Ledger} {state : LoopState}
    {request : CommandRequest} {context : CommandContext} :
  (∃ t, (applyCommand ledger state request context).2 = .applied t) ↔
    PassesChecks ledger state request
  := by
  constructor
  · rintro ⟨t, h⟩
    obtain ⟨hkey, hversion, hbuild⟩ := applyCommand_eq_applied.mp h
    obtain ⟨hallowed, hprecondition, hfinish⟩ := buildTransition_eq_ok.mp hbuild
    obtain ⟨hnext, hlegal, hsources⟩ := exists_finish_iff.mp ⟨t, hfinish⟩
    exact ⟨hkey, hversion, hnext, hallowed, hprecondition, hlegal, hsources⟩
  · intro h
    obtain ⟨t, hfinish⟩ := exists_finish_iff.mpr ⟨h.next, h.legal, h.sources⟩
    use t
    apply applyCommand_eq_applied.mpr
    use h.unseen, h.current
    apply buildTransition_eq_ok.mpr
    exact ⟨h.allowed, h.precondition, hfinish⟩

/-- The source state does not enter the checks. -/
theorem passesChecks_withSource_iff (ledger : Ledger) (state : LoopState)
    (request : CommandRequest) (sourceState : SourceState) :
  PassesChecks ledger { state with facets := { state.facets with sourceState } } request ↔
    PassesChecks ledger state request
  := by
  have hprecondition : request.payload.Precondition { state.facets with sourceState }
      ↔ request.payload.Precondition state.facets := by
    cases request.payload <;> rfl
  have hlegal : (request.payload.newFacets { state.facets with sourceState }).Legal
      ↔ (request.payload.newFacets state.facets).Legal := by
    cases request.payload with
    | confirmTransfer delegation evidence =>
        simp only [CommandPayload.newFacets]
        split <;> rfl
    | _ => rfl
  constructor
  · intro h
    exact ⟨h.unseen, h.current, h.next, h.allowed, hprecondition.mp h.precondition,
      hlegal.mp h.legal, h.sources⟩
  · intro h
    exact ⟨h.unseen, h.current, h.next, h.allowed, hprecondition.mpr h.precondition,
      hlegal.mpr h.legal, h.sources⟩

/-- The answer to a request is frozen exactly when a request that depends on evidence that is
not available fails one of the checks, none of which is about the evidence. -/
theorem applyCommand_frozen_iff (ledger : Ledger) (state : LoopState)
    (request : CommandRequest) (context : CommandContext) :
  (applyCommand ledger state request context).2.Frozen state request.payload ↔
    (state.facets.sourceState ≠ .available → request.payload.EvidenceDependent →
      ¬ PassesChecks ledger state request)
  := by
  have happlied : (∃ t, (applyCommand ledger state request context).2 = .applied t) ↔
      PassesChecks ledger state request := exists_applied_iff_passesChecks
  rw [ApplyOutcome.Frozen, ← happlied, not_exists]

/-- An open loop whose evidence cannot be reached. -/
def unavailableLoop : LoopState :=
  { openLoop with facets := { openFacets with sourceState := .unavailable } }

/-- The confirmation that a loop was fulfilled, by a message, is applied although the evidence
of the loop is unavailable, and the loop is closed. -/
theorem unavailableLoop_not_frozen :
  unavailableLoop.facets.Legal ∧ unavailableLoop.facets.sourceState ≠ .available
    ∧ confirmFulfilledRequest.payload.EvidenceDependent
    ∧ (∃ t, (applyCommand .new unavailableLoop confirmFulfilledRequest someContext).2
      = .applied t ∧ t.newFacets.obligationState = .terminal)
    ∧ ¬ (applyCommand .new unavailableLoop confirmFulfilledRequest someContext).2.Frozen
      unavailableLoop confirmFulfilledRequest.payload
  := by
  have hsource : unavailableLoop.facets.sourceState ≠ .available := by decide
  have happlied : ∃ t, (applyCommand .new unavailableLoop confirmFulfilledRequest
      someContext).2 = .applied t ∧ t.newFacets.obligationState = .terminal := ⟨_, rfl, rfl⟩
  refine ⟨by decide, hsource, trivial, happlied, ?_⟩
  intro hfrozen
  obtain ⟨t, ht, -⟩ := happlied
  apply hfrozen hsource trivial t ht

end Domain
