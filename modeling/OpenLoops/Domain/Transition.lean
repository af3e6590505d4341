import OpenLoops.Domain.Ids
import OpenLoops.Domain.Facets
import OpenLoops.Library.Fallible

/-!
# Transitions

A transition records one change of a loop: its complete facets before and after, the
reason, the actor and the sources.  `Transition.new` is the only constructor the program
uses; `Transition.new_eq_ok` says exactly what it requires and what it builds.
-/

namespace Domain

/-- The complete facets of a loop. -/
structure FacetTuple where
  provenance : ProvenanceSet
  obligationState : ObligationState
  reviewFlags : ReviewFlagSet
  deadlineState : DeadlineState
  closureReviewState : ClosureReviewState
  reminderState : ReminderState
  analysisState : AnalysisState
  sourceState : SourceState
  resolution : Resolution
  confidenceBucket : ConfidenceBucket
deriving DecidableEq, Repr

namespace FacetTuple

/-- The four facets that `validate` checks. -/
def legalityView (f : FacetTuple) : LoopLegalityFacets :=
  ⟨f.obligationState, f.resolution, f.closureReviewState, f.deadlineState⟩

/-- Whether the facets satisfy every legality rule. -/
def Legal (f : FacetTuple) : Prop :=
  isLegal f.legalityView = true

instance (f : FacetTuple) : Decidable f.Legal :=
  inferInstanceAs (Decidable (_ = true))

/-- Facets are legal exactly when they are validated. -/
theorem legal_iff_validate (f : FacetTuple) :
  f.Legal ↔ validate f.legalityView = .ok ()
  := isLegal_iff_validate f.legalityView

/-- `isLegal_iff` for the complete facets. -/
theorem legal_iff (f : FacetTuple) :
  f.Legal ↔
    (f.obligationState = .terminal ↔ f.resolution ≠ .none)
      ∧ (f.closureReviewState ≠ .none → f.obligationState = .open)
      ∧ (f.deadlineState.isAging = true → f.obligationState = .open)
  := isLegal_iff f.legalityView

end FacetTuple

/-- Why a transition was made. -/
inductive TransitionReasonCode where
  | establishedFromPromise
  | establishedFromRequest
  | establishedFromAcknowledgement
  | establishedFromAttribution
  | flaggedCandidateForReview
  | confirmedMineActionable
  | confirmedFulfilled
  | confirmedDeclined
  | confirmedMoot
  | confirmedTransferred
  | delegationNoted
  | keptOpenSuppressed
  | evidenceRequested
  | evidenceRemappedFrom
  | evidenceRemappedTo
  | evidenceSelectedDifferent
  | completedOutsideEmail
  | dismissedClassified
  | reopened
  | duplicateMergeSurvivorTransfer
  | duplicateMergeLoserDismissed
  | terminalReviewNoteAdded
  | deadlineRenegotiated
  | deadlineUndatedConfirmed
  | deadlinePromptDeferred
deriving DecidableEq, Repr

/-- Why a transition is rejected. -/
inductive TransitionError where
  | systemActorCannotProduceTerminalState
  | userActionRequiredForUserActor
  | userActionProhibitedForSystemActor
  | tooManySourceRefs
  | duplicateSourceRef
  | illegalNewFacets (violation : LegalityViolation)
deriving DecidableEq, Repr

/-- One committed change of a loop. -/
structure Transition where
  transitionId : OpaqueId
  loopId : OpaqueId
  userActionId : Option OpaqueId
  priorFacets : FacetTuple
  newFacets : FacetTuple
  reasonCode : TransitionReasonCode
  actor : ActorCode
  sourceRefIds : BoundedIdList
  occurredAt : UnixSeconds
  /-- The version the transition commits to. -/
  loopVersion : Version
  policyVersion : Version
deriving DecidableEq, Repr

/-! ### Source references -/

/-- The greatest number of sources a transition names. -/
def sourceRefBound : ℕ := 32

/-- Append the sources to `refs` one after the other. -/
def pushSourceRefs (refs : BoundedIdList) :
    List OpaqueId → Except TransitionError BoundedIdList
  | [] => .ok refs
  | sourceRef :: sourceRefs =>
      match refs.push sourceRef with
      | .ok refs => pushSourceRefs refs sourceRefs
      | .error .capacityExceeded => .error .tooManySourceRefs
      | .error .duplicate => .error .duplicateSourceRef

/-- The error of a source refused. -/
def TransitionError.ofSourceRef : BoundedInsertError → TransitionError
  | .capacityExceeded => .tooManySourceRefs
  | .duplicate => .duplicateSourceRef

/-- The sources are inserted one after the other. -/
theorem pushSourceRefs_eq_pushAll (refs : BoundedIdList) (sourceRefs : List OpaqueId) :
  pushSourceRefs refs sourceRefs = BoundedIdList.inserts.pushAll .ofSourceRef refs sourceRefs
  := by
  induction sourceRefs generalizing refs with
  | nil => rfl
  | cons sourceRef sourceRefs ih =>
      rw [pushSourceRefs, BoundedInsert.pushAll]
      rcases h : refs.push sourceRef with (_ | _) | pushed
      · simp [BoundedIdList.inserts, h, TransitionError.ofSourceRef]
      · simp [BoundedIdList.inserts, h, TransitionError.ofSourceRef]
      · simp only [BoundedIdList.inserts, h]
        apply ih

/-- The sources a transition may name: no more than the bound, and none twice. -/
def SourceRefsOk (sourceRefs : List OpaqueId) : Prop :=
  sourceRefs.Nodup ∧ sourceRefs.length ≤ sourceRefBound

instance (sourceRefs : List OpaqueId) : Decidable (SourceRefsOk sourceRefs) :=
  inferInstanceAs (Decidable (_ ∧ _))

/-- No sources may always be named. -/
theorem SourceRefsOk.nil :
  SourceRefsOk []
  := ⟨List.nodup_nil, Nat.zero_le _⟩

/-- A single source may always be named. -/
theorem SourceRefsOk.singleton (sourceRef : OpaqueId) :
  SourceRefsOk [sourceRef]
  := ⟨List.nodup_singleton _, Nat.le_add_left 1 31⟩

/-- The list a transition holds its sources in. -/
def SourceRefsOk.list {sourceRefs : List OpaqueId} (h : SourceRefsOk sourceRefs) :
    BoundedIdList :=
  ⟨sourceRefBound, sourceRefs, h.1, h.2⟩

/-- The sources are appended to the empty list exactly when a transition may name them. -/
theorem pushSourceRefs_empty {sourceRefs : List OpaqueId} {refs : BoundedIdList} :
  pushSourceRefs (.withCapacity sourceRefBound) sourceRefs = .ok refs ↔
    ∃ h : SourceRefsOk sourceRefs, refs = h.list
  := by
  rw [pushSourceRefs_eq_pushAll, BoundedInsert.pushAll_of_empty BoundedIdList.inserts rfl]
  constructor
  · rintro ⟨hnd, hle, hc, hv⟩
    use ⟨hnd, hle⟩
    apply BoundedIdList.ext
    · apply hc
    · apply hv
  · rintro ⟨h, rfl⟩
    exact ⟨h.1, h.2, rfl, rfl⟩

/-! ### The constructor -/

/-- A user names the action taken, and the system names none. -/
def requireUserAction (actor : ActorCode) (userActionId : Option OpaqueId) :
    Except TransitionError Unit :=
  match actor, userActionId with
  | .user, none => .error .userActionRequiredForUserActor
  | .system, some _ => .error .userActionProhibitedForSystemActor
  | .user, some _ | .system, none => .ok ()

/-- The system neither makes a loop terminal nor changes its resolution. -/
def requireUndecided (actor : ActorCode) (priorFacets newFacets : FacetTuple) :
    Except TransitionError Unit :=
  let obligationBecameTerminal : Bool :=
    priorFacets.obligationState ≠ .terminal ∧ newFacets.obligationState = .terminal
  let resolutionChanged : Bool := priorFacets.resolution ≠ newFacets.resolution
  if actor = .system ∧ (obligationBecameTerminal ∨ resolutionChanged) then
    .error .systemActorCannotProduceTerminalState
  else .ok ()

namespace Transition

/-- Build a transition, checking who acts, that the system decides nothing, the sources,
and the legality of the new facets, in this order. -/
def new (transitionId loopId : OpaqueId) (userActionId : Option OpaqueId)
    (priorFacets newFacets : FacetTuple) (reasonCode : TransitionReasonCode)
    (actor : ActorCode) (sourceRefs : List OpaqueId) (occurredAt : UnixSeconds)
    (loopVersion policyVersion : Version) : Except TransitionError Transition := do
  requireUserAction actor userActionId
  requireUndecided actor priorFacets newFacets
  let sourceRefIds ← pushSourceRefs (.withCapacity sourceRefBound) sourceRefs
  (validate newFacets.legalityView).mapError .illegalNewFacets
  return {
    transitionId, loopId, userActionId, priorFacets, newFacets, reasonCode, actor
    sourceRefIds, occurredAt, loopVersion, policyVersion }

/-- What the constructor requires of the actor: a user names the action taken; the system
names none, does not make the loop terminal and does not change its resolution. -/
def ActorOk (actor : ActorCode) (userActionId : Option OpaqueId)
    (priorFacets newFacets : FacetTuple) : Prop :=
  match actor with
  | .user => userActionId.isSome
  | .system => userActionId = none ∧ priorFacets.resolution = newFacets.resolution
      ∧ (newFacets.obligationState = .terminal → priorFacets.obligationState = .terminal)

/-- The two checks of the actor pass exactly when the actor is admissible. -/
theorem actorOk_iff {actor : ActorCode} {userActionId : Option OpaqueId}
    {priorFacets newFacets : FacetTuple} :
  ActorOk actor userActionId priorFacets newFacets ↔
    requireUserAction actor userActionId = .ok ()
      ∧ requireUndecided actor priorFacets newFacets = .ok ()
  := by
  cases actor with
  | user => cases userActionId <;> simp [ActorOk, requireUserAction, requireUndecided]
  | system =>
      cases userActionId with
      | none =>
          simp only [ActorOk, requireUserAction, requireUndecided]
          grind
      | some _ => simp [ActorOk, requireUserAction]

/-- A transition is built exactly when the actor, the new facets and the sources pass
their checks, and it records what it is given. -/
theorem new_eq_ok {transitionId loopId : OpaqueId} {userActionId : Option OpaqueId}
    {priorFacets newFacets : FacetTuple} {reasonCode : TransitionReasonCode}
    {actor : ActorCode} {sourceRefs : List OpaqueId} {occurredAt : UnixSeconds}
    {loopVersion policyVersion : Version} {t : Transition} :
  Transition.new transitionId loopId userActionId priorFacets newFacets reasonCode actor
      sourceRefs occurredAt loopVersion policyVersion = .ok t ↔
    ActorOk actor userActionId priorFacets newFacets ∧ newFacets.Legal
      ∧ ∃ h : SourceRefsOk sourceRefs, t =
        { transitionId, loopId, userActionId, priorFacets, newFacets, reasonCode, actor,
          sourceRefIds := h.list, occurredAt, loopVersion, policyVersion }
  := by
  rw [new, Except.check_bind_eq_ok, Except.check_bind_eq_ok, Except.bind_eq_ok, actorOk_iff,
    FacetTuple.legal_iff_validate]
  constructor
  · rintro ⟨huser, hundecided, refs, hrefs, h⟩
    obtain ⟨hlegal, h⟩ := Except.check_bind_eq_ok.mp h
    obtain ⟨hok, rfl⟩ := pushSourceRefs_empty.mp hrefs
    refine ⟨⟨huser, hundecided⟩, Except.mapError_eq_ok.mp hlegal, hok, ?_⟩
    cases h
    rfl
  · rintro ⟨⟨huser, hundecided⟩, hlegal, hok, rfl⟩
    use huser, hundecided, hok.list, pushSourceRefs_empty.mpr ⟨hok, rfl⟩
    apply Except.check_bind_eq_ok.mpr
    exact ⟨Except.mapError_eq_ok.mpr hlegal, rfl⟩

end Transition

end Domain
