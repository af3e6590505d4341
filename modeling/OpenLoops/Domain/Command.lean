import OpenLoops.Domain.Hypothesis
import OpenLoops.Domain.Transition
import Mathlib.Data.List.AList

/-!
# User commands

The catalog of typed user commands on one loop, the ledger of the commands applied, and
`applyCommand`, which looks up the key before it compares the versions and records only
the commands it applies.
-/

namespace Domain

/-- Why the user corrects a detection. -/
inductive CorrectionReasonCode where
  | notMine
  | falseDetection
  | duplicate
  | delegated
  | shared
  | assisted
  | retained
  | moot
  | noLongerRelevant
  | wrongDeadline
  | wrongClient
  | other
deriving DecidableEq, Repr

inductive DeclineEvidence where
  | explicit (sourceRef : OpaqueId)
  | manual
deriving DecidableEq, Repr

inductive MootEvidence where
  | withdrawal (sourceRef : OpaqueId)
  | supersession (sourceRef : OpaqueId)
  | noLongerRelevant (sourceRef : OpaqueId)
  | manual
deriving DecidableEq, Repr

inductive TransferEvidence where
  | explicit (sourceRef : OpaqueId)
  | manual
deriving DecidableEq, Repr

/-- The sources a decline names. -/
def DeclineEvidence.sourceRefs : DeclineEvidence → List OpaqueId
  | .explicit sourceRef => [sourceRef]
  | .manual => []

/-- The sources a moot loop names. -/
def MootEvidence.sourceRefs : MootEvidence → List OpaqueId
  | .withdrawal sourceRef | .supersession sourceRef | .noLongerRelevant sourceRef =>
      [sourceRef]
  | .manual => []

/-- The sources a transfer names. -/
def TransferEvidence.sourceRefs : TransferEvidence → List OpaqueId
  | .explicit sourceRef => [sourceRef]
  | .manual => []

/-- The typed payload of a command on one loop. -/
inductive CommandPayload where
  | confirmMineActionable
  | confirmFulfilled (closureEvidenceRefs : List OpaqueId)
  | confirmDeclined (evidence : DeclineEvidence)
  | confirmMoot (evidence : MootEvidence)
  | confirmTransfer (delegation : DelegationCode) (evidence : TransferEvidence)
  | keepOpen (hypothesisIdentity : HypothesisIdentity)
  | requestEvidence (kind : HypothesisKind)
  | selectDifferentEvidence (evidenceRef : OpaqueId)
  | completedOutsideEmail
  | dismissClassify (reason : CorrectionReasonCode)
  | reopen
deriving DecidableEq, Repr

/-- A snapshot of the loop a command applies to. -/
structure LoopState where
  loopId : OpaqueId
  facets : FacetTuple
  loopVersion : Version
deriving DecidableEq, Repr

/-- What is needed besides the payload to make a transition. -/
structure CommandContext where
  transitionId : OpaqueId
  userActionId : OpaqueId
  occurredAt : UnixSeconds
  policyVersion : Version
deriving DecidableEq, Repr

/-- The precondition a command fails. -/
inductive CommandRejection where
  | notAllowedFromCurrentObligationState
  | closureEvidenceRequired
  | noCurrentPossibleHypothesisToKeepOpen
  | versionOverflow
  | invalidTransition (error : TransitionError)
deriving DecidableEq, Repr

/-- The idempotency key of one user command. -/
structure CommandKey where
  bytes : Vector UInt8 16
deriving DecidableEq, Repr

/-- One request of the user. -/
structure CommandRequest where
  key : CommandKey
  /-- The version the caller takes to be current. -/
  expectedLoopVersion : Version
  payload : CommandPayload
deriving DecidableEq, Repr

/-- How a request is answered. -/
inductive ApplyOutcome where
  | replayed (transition : Transition)
  | keyCollision
  | refreshConflict
  | applied (transition : Transition)
  | rejected (rejection : CommandRejection)
deriving DecidableEq, Repr

/-! ### The ledger -/

/-- The commands applied: for each key the payload and the transition it made. -/
structure Ledger where
  entries : AList (fun _ : CommandKey => CommandPayload × Transition)

namespace Ledger

/-- The empty ledger. -/
def new : Ledger :=
  ⟨∅⟩

/-- The command recorded under a key. -/
def get? (ledger : Ledger) (key : CommandKey) : Option (CommandPayload × Transition) :=
  ledger.entries.lookup key

/-- Record a command under a key. -/
def insert (ledger : Ledger) (key : CommandKey) (entry : CommandPayload × Transition) :
    Ledger :=
  ⟨ledger.entries.insert key entry⟩

@[simp]
theorem get?_new (key : CommandKey) :
  new.get? key = none
  := AList.lookup_empty key

@[simp]
theorem get?_insert (ledger : Ledger) (key : CommandKey)
    (entry : CommandPayload × Transition) :
  (ledger.insert key entry).get? key = some entry
  := AList.lookup_insert ledger.entries

/-- Recording a command leaves the other keys as they were. -/
theorem get?_insert_ne {ledger : Ledger} {key key' : CommandKey}
    {entry : CommandPayload × Transition} (h : key' ≠ key) :
  (ledger.insert key entry).get? key' = ledger.get? key'
  := AList.lookup_insert_ne h

end Ledger

/-! ### Making transitions -/

/-- Check that the obligation is among the allowed ones. -/
def requireObligation (current : ObligationState) (allowed : List ObligationState) :
    Except CommandRejection Unit :=
  if current ∈ allowed then .ok () else .error .notAllowedFromCurrentObligationState

/-- The check passes exactly for the allowed obligations. -/
theorem requireObligation_eq_ok {current : ObligationState} {allowed : List ObligationState} :
  requireObligation current allowed = .ok () ↔ current ∈ allowed
  := by
  rw [requireObligation]
  split
  · simp [*]
  · simp [*]

/-- The user's transition of the loop to new facets, at the next version. -/
def finish (state : LoopState) (newFacets : FacetTuple) (reasonCode : TransitionReasonCode)
    (sourceRefs : List OpaqueId) (context : CommandContext) :
    Except CommandRejection Transition := do
  let nextVersion ← state.loopVersion.next.okOr .versionOverflow
  (Transition.new context.transitionId state.loopId (some context.userActionId)
    state.facets newFacets reasonCode .user sourceRefs context.occurredAt nextVersion
    context.policyVersion).mapError .invalidTransition

/-- The user's transition is made exactly when there is a next version, the new facets are
legal and the sources may be named. -/
theorem finish_eq_ok {state : LoopState} {newFacets : FacetTuple}
    {reasonCode : TransitionReasonCode} {sourceRefs : List OpaqueId}
    {context : CommandContext} {t : Transition} :
  finish state newFacets reasonCode sourceRefs context = .ok t ↔
    ∃ version, state.loopVersion.next = some version ∧ newFacets.Legal
      ∧ ∃ h : SourceRefsOk sourceRefs, t =
        { transitionId := context.transitionId
          loopId := state.loopId
          userActionId := some context.userActionId
          priorFacets := state.facets
          newFacets
          reasonCode
          actor := .user
          sourceRefIds := h.list
          occurredAt := context.occurredAt
          loopVersion := version
          policyVersion := context.policyVersion }
  := by
  rw [finish, Except.bind_eq_ok]
  constructor
  · rintro ⟨version, hversion, h⟩
    obtain ⟨-, hlegal, hok, rfl⟩ := Transition.new_eq_ok.mp (Except.mapError_eq_ok.mp h)
    use version, Option.okOr_eq_ok.mp hversion, hlegal, hok
  · rintro ⟨version, hversion, hlegal, hok, rfl⟩
    use version, Option.okOr_eq_ok.mpr hversion
    apply Except.mapError_eq_ok.mpr
    apply Transition.new_eq_ok.mpr
    exact ⟨rfl, hlegal, hok, rfl⟩

/-- There is a transition for the user to make exactly below the greatest version, with
legal facets and with sources that may be named. -/
theorem exists_finish_iff {state : LoopState} {newFacets : FacetTuple}
    {reasonCode : TransitionReasonCode} {sourceRefs : List OpaqueId}
    {context : CommandContext} :
  (∃ t, finish state newFacets reasonCode sourceRefs context = .ok t) ↔
    state.loopVersion.get < Version.max.get ∧ newFacets.Legal ∧ SourceRefsOk sourceRefs
  := by
  constructor
  · rintro ⟨t, h⟩
    obtain ⟨version, hversion, hlegal, hok, -⟩ := finish_eq_ok.mp h
    exact ⟨Version.next_isSome.mp (Option.isSome_of_eq_some hversion), hlegal, hok⟩
  · rintro ⟨hlt, hlegal, hok⟩
    obtain ⟨version, hversion, -⟩ := Version.exists_next hlt
    exact ⟨_, finish_eq_ok.mpr ⟨version, hversion, hlegal, hok, rfl⟩⟩

/-- The facets of the loop closed with a resolution: the closure review ends, the rest
stays. -/
def FacetTuple.terminal (facets : FacetTuple) (resolution : Resolution) : FacetTuple :=
  { facets with
    obligationState := .terminal
    resolution
    closureReviewState := .none }

/-- The user's transition that closes the loop with a resolution. -/
def finishTerminal (state : LoopState) (resolution : Resolution)
    (reasonCode : TransitionReasonCode) (sourceRefs : List OpaqueId)
    (context : CommandContext) : Except CommandRejection Transition :=
  finish state (state.facets.terminal resolution) reasonCode sourceRefs context

def buildConfirmMineActionable (state : LoopState) (context : CommandContext) :
    Except CommandRejection Transition := do
  requireObligation state.facets.obligationState [.candidate]
  let newFacets := { state.facets with obligationState := .open }
  finish state newFacets .confirmedMineActionable [] context

def buildConfirmFulfilled (state : LoopState) (closureEvidenceRefs : List OpaqueId)
    (context : CommandContext) : Except CommandRejection Transition := do
  requireObligation state.facets.obligationState [.open]
  if closureEvidenceRefs.isEmpty then
    .error .closureEvidenceRequired
  else
    finishTerminal state .closed .confirmedFulfilled closureEvidenceRefs context

def buildConfirmDeclined (state : LoopState) (evidence : DeclineEvidence)
    (context : CommandContext) : Except CommandRejection Transition := do
  requireObligation state.facets.obligationState [.candidate, .open]
  finishTerminal state .declined .confirmedDeclined evidence.sourceRefs context

def buildConfirmMoot (state : LoopState) (evidence : MootEvidence)
    (context : CommandContext) : Except CommandRejection Transition := do
  requireObligation state.facets.obligationState [.candidate, .open]
  finishTerminal state .moot .confirmedMoot evidence.sourceRefs context

/-- Only a full transfer closes the loop; any other delegation is noted and the loop keeps
its facets. -/
def buildConfirmTransfer (state : LoopState) (delegation : DelegationCode)
    (evidence : TransferEvidence) (context : CommandContext) :
    Except CommandRejection Transition := do
  requireObligation state.facets.obligationState [.candidate, .open]
  if delegation.yieldsDelegatedResolution then
    finishTerminal state .delegated .confirmedTransferred evidence.sourceRefs context
  else
    finish state state.facets .delegationNoted evidence.sourceRefs context

def buildKeepOpen (state : LoopState) (context : CommandContext) :
    Except CommandRejection Transition := do
  requireObligation state.facets.obligationState [.open]
  if state.facets.closureReviewState ≠ .possible then
    .error .noCurrentPossibleHypothesisToKeepOpen
  else
    let newFacets := { state.facets with closureReviewState := .keptOpen }
    finish state newFacets .keptOpenSuppressed [] context

def buildRequestEvidence (state : LoopState) (context : CommandContext) :
    Except CommandRejection Transition := do
  requireObligation state.facets.obligationState [.open]
  let newFacets := { state.facets with closureReviewState := .evidenceRequested }
  finish state newFacets .evidenceRequested [] context

def buildSelectDifferentEvidence (state : LoopState) (evidenceRef : OpaqueId)
    (context : CommandContext) : Except CommandRejection Transition := do
  requireObligation state.facets.obligationState [.candidate, .open, .terminal]
  finish state state.facets .evidenceSelectedDifferent [evidenceRef] context

def buildCompletedOutsideEmail (state : LoopState) (context : CommandContext) :
    Except CommandRejection Transition := do
  requireObligation state.facets.obligationState [.candidate, .open]
  finishTerminal state .completedOutsideEmail .completedOutsideEmail [] context

/-- The resolution and the reason code a correction leads to. -/
def dismissOutcomeFor : CorrectionReasonCode → Resolution × TransitionReasonCode
  | .delegated => (.delegated, .confirmedTransferred)
  | .moot => (.moot, .confirmedMoot)
  | .notMine | .falseDetection | .duplicate | .shared | .assisted | .retained
  | .noLongerRelevant | .wrongDeadline | .wrongClient | .other =>
      (.dismissed, .dismissedClassified)

def buildDismissClassify (state : LoopState) (reason : CorrectionReasonCode)
    (context : CommandContext) : Except CommandRejection Transition := do
  requireObligation state.facets.obligationState [.candidate, .open]
  let (resolution, reasonCode) := dismissOutcomeFor reason
  finishTerminal state resolution reasonCode [] context

def buildReopen (state : LoopState) (context : CommandContext) :
    Except CommandRejection Transition := do
  requireObligation state.facets.obligationState [.terminal]
  let newFacets :=
    { state.facets with
      obligationState := .open
      resolution := .none
      closureReviewState := .none
      reviewFlags := state.facets.reviewFlags.with .needsReview }
  finish state newFacets .reopened [] context

/-- The transition a payload makes. -/
def buildTransition (state : LoopState) (payload : CommandPayload)
    (context : CommandContext) : Except CommandRejection Transition :=
  match payload with
  | .confirmMineActionable => buildConfirmMineActionable state context
  | .confirmFulfilled closureEvidenceRefs =>
      buildConfirmFulfilled state closureEvidenceRefs context
  | .confirmDeclined evidence => buildConfirmDeclined state evidence context
  | .confirmMoot evidence => buildConfirmMoot state evidence context
  | .confirmTransfer delegation evidence =>
      buildConfirmTransfer state delegation evidence context
  | .keepOpen _ => buildKeepOpen state context
  | .requestEvidence _ => buildRequestEvidence state context
  | .selectDifferentEvidence evidenceRef =>
      buildSelectDifferentEvidence state evidenceRef context
  | .completedOutsideEmail => buildCompletedOutsideEmail state context
  | .dismissClassify reason => buildDismissClassify state reason context
  | .reopen => buildReopen state context

/-! ### Applying commands -/

/-- Answer a request: look up its key, then compare the versions, then make the
transition and record it. -/
def applyCommand (ledger : Ledger) (state : LoopState) (request : CommandRequest)
    (context : CommandContext) : Ledger × ApplyOutcome :=
  match ledger.get? request.key with
  | some (recordedPayload, recordedTransition) =>
      if recordedPayload = request.payload then (ledger, .replayed recordedTransition)
      else (ledger, .keyCollision)
  | none =>
      if request.expectedLoopVersion ≠ state.loopVersion then (ledger, .refreshConflict)
      else
        match buildTransition state request.payload context with
        | .ok transition =>
            (ledger.insert request.key (request.payload, transition), .applied transition)
        | .error rejection => (ledger, .rejected rejection)

/-- The system's transition that flags a terminal loop for review because of later
evidence. -/
def applyTerminalReviewNote (state : LoopState) (causingSourceRef : OpaqueId)
    (context : CommandContext) : Except CommandRejection Transition := do
  requireObligation state.facets.obligationState [.terminal]
  let newFacets :=
    { state.facets with reviewFlags := state.facets.reviewFlags.with .needsReview }
  let nextVersion ← state.loopVersion.next.okOr .versionOverflow
  (Transition.new context.transitionId state.loopId none state.facets newFacets
    .terminalReviewNoteAdded .system [causingSourceRef] context.occurredAt nextVersion
    context.policyVersion).mapError .invalidTransition

/-- The answers to a request: a recorded key is replayed or collides, and nothing changes;
an unseen key conflicts, is rejected, or is applied and recorded. -/
inductive CommandStep (ledger : Ledger) (state : LoopState) (request : CommandRequest)
    (context : CommandContext) : Ledger × ApplyOutcome → Prop where
  | replayed {t : Transition} (hkey : ledger.get? request.key = some (request.payload, t)) :
      CommandStep ledger state request context (ledger, .replayed t)
  | keyCollision {p : CommandPayload} {t : Transition}
      (hkey : ledger.get? request.key = some (p, t)) (hp : p ≠ request.payload) :
      CommandStep ledger state request context (ledger, .keyCollision)
  | refreshConflict (hkey : ledger.get? request.key = none)
      (hversion : request.expectedLoopVersion ≠ state.loopVersion) :
      CommandStep ledger state request context (ledger, .refreshConflict)
  | rejected {rejection : CommandRejection} (hkey : ledger.get? request.key = none)
      (hversion : request.expectedLoopVersion = state.loopVersion)
      (hbuild : buildTransition state request.payload context = .error rejection) :
      CommandStep ledger state request context (ledger, .rejected rejection)
  | applied {t : Transition} (hkey : ledger.get? request.key = none)
      (hversion : request.expectedLoopVersion = state.loopVersion)
      (hbuild : buildTransition state request.payload context = .ok t) :
      CommandStep ledger state request context
        (ledger.insert request.key (request.payload, t), .applied t)

/-- Every request is answered in one of these ways. -/
theorem applyCommand_step (ledger : Ledger) (state : LoopState) (request : CommandRequest)
    (context : CommandContext) :
  CommandStep ledger state request context (applyCommand ledger state request context)
  := by
  rw [applyCommand]
  cases hkey : ledger.get? request.key with
  | some entry =>
      dsimp only
      split_ifs with hp
      · apply CommandStep.replayed
        rw [hkey, ← hp]
      · apply CommandStep.keyCollision hkey hp
  | none =>
      dsimp only
      split_ifs with hversion
      · apply CommandStep.refreshConflict hkey hversion
      · have hversion := not_not.mp hversion
        cases hbuild : buildTransition state request.payload context with
        | ok t => apply CommandStep.applied hkey hversion hbuild
        | error rejection => apply CommandStep.rejected hkey hversion hbuild

end Domain
