import Mathlib.Data.UInt

/-!
# The closed facet catalogs

The enumerations of the facets of a loop, each with the values of its catalog in
contract order.  `ProvenanceSet` and `ReviewFlagSet` are sets of codes held as the bits
of one byte.

`validate` checks the obligation, resolution, closure review and deadline of a loop
against each other.  It accepts the tuples described by `isLegal_iff`: a loop has a
resolution exactly when it is terminal, and only an open loop is under closure review or
ages.
-/

namespace Domain

/-- What brought a loop about. -/
inductive OriginCode where
  | emailEvidence
  | calendarInvitation
  | userAuthoredMicrosoftArtifact
deriving DecidableEq, Repr

/-- Where a loop's evidence came from. -/
inductive ProvenanceCode where
  | requested
  | acknowledged
  | promised
  | attributed
  | inferred
  | ambiguous
deriving DecidableEq, Repr

/-- The bit of a provenance code. -/
def ProvenanceCode.bit : ProvenanceCode → UInt8
  | .requested => 0
  | .acknowledged => 1
  | .promised => 2
  | .attributed => 3
  | .inferred => 4
  | .ambiguous => 5

/-- A set of provenance codes. -/
structure ProvenanceSet where
  bits : UInt8
deriving DecidableEq, Repr

namespace ProvenanceSet

/-- The empty set. -/
def empty : ProvenanceSet := ⟨0⟩

/-- The set with `code` inserted. -/
def «with» (s : ProvenanceSet) (code : ProvenanceCode) : ProvenanceSet :=
  ⟨s.bits ||| (1 <<< code.bit)⟩

end ProvenanceSet

/-- Why a loop awaits review. -/
inductive ReviewFlagCode where
  | needsReview
  | historicalBackfill
  | identityAmbiguous
  | associationAmbiguous
  | quoteAmbiguous
  | deadlineAmbiguous
  | delegationAmbiguous
deriving DecidableEq, Repr

/-- The bit of a review flag. -/
def ReviewFlagCode.bit : ReviewFlagCode → UInt8
  | .needsReview => 0
  | .historicalBackfill => 1
  | .identityAmbiguous => 2
  | .associationAmbiguous => 3
  | .quoteAmbiguous => 4
  | .deadlineAmbiguous => 5
  | .delegationAmbiguous => 6

/-- A set of review flags. -/
structure ReviewFlagSet where
  bits : UInt8
deriving DecidableEq, Repr

namespace ReviewFlagSet

/-- The empty set. -/
def empty : ReviewFlagSet := ⟨0⟩

/-- The set with `code` inserted. -/
def «with» (s : ReviewFlagSet) (code : ReviewFlagCode) : ReviewFlagSet :=
  ⟨s.bits ||| (1 <<< code.bit)⟩

/-- Whether `code` is a member. -/
def contains (s : ReviewFlagSet) (code : ReviewFlagCode) : Bool :=
  s.bits &&& (1 <<< code.bit) ≠ 0

end ReviewFlagSet

/-- Whether a loop is established, and whether it is closed. -/
inductive ObligationState where
  | candidate
  | «open»
  | terminal
deriving DecidableEq, Repr

/-- How a loop stands to its deadline. -/
inductive DeadlineState where
  | unresolved
  | undatedConfirmed
  | scheduled
  | approaching
  | overdue
deriving DecidableEq, Repr

/-- How the review of a loop's possible closure stands. -/
inductive ClosureReviewState where
  | none
  | possible
  | keptOpen
  | evidenceRequested
deriving DecidableEq, Repr

/-- How a loop's reminder stands. -/
inductive ReminderState where
  | none
  | proposed
  | pendingWrite
  | linked
  | changed
  | completedNeedsEvidence
  | missing
  | conflict
  | ambiguousWrite
deriving DecidableEq, Repr

/-- Whether the analysis of a loop is current. -/
inductive AnalysisState where
  | current
  | queued
  | unavailable
  | quarantined
  | stale
deriving DecidableEq, Repr

/-- Whether the source of a loop's evidence resolves. -/
inductive SourceState where
  | available
  | partiallyAvailable
  | unavailable
  | changed
deriving DecidableEq, Repr

/-- How a closed loop was resolved. -/
inductive Resolution where
  | none
  | closed
  | declined
  | delegated
  | moot
  | dismissed
  | completedOutsideEmail
deriving DecidableEq, Repr

/-- Whether a resolution is any other than `none`. -/
def Resolution.isSome : Resolution → Bool
  | .none => false
  | _ => true

/-- A resolution is some resolution unless it is `none`. -/
theorem Resolution.isSome_iff (r : Resolution) :
  r.isSome = true ↔ r ≠ .none
  := by
  cases r <;> simp [Resolution.isSome]

/-- Calibrated confidence. -/
inductive ConfidenceBucket where
  | low
  | medium
  | high
deriving DecidableEq, Repr

/-- Where a deadline comes from. -/
inductive DeadlineSourceType where
  | requested
  | promised
  | inferred
  | userSupplied
deriving DecidableEq, Repr

/-- How precise a deadline is. -/
inductive DeadlinePrecision where
  | instant
  | date
  | businessDay
  | week
  | eventRelative
  | soft
  | unspecified
deriving DecidableEq, Repr

/-- How far a deadline has been interpreted. -/
inductive DeadlineInterpretation where
  | resolved
  | ambiguous
  | needsUserInput
deriving DecidableEq, Repr

/-- Whether a deadline is the operative one. -/
inductive OperativeSelection where
  | notSelected
  | selected
  | superseded
deriving DecidableEq, Repr

/-- Who made a transition. -/
inductive ActorCode where
  | system
  | user
deriving DecidableEq, Repr

/-- How responsibility was passed on. -/
inductive DelegationCode where
  | transferred
  | shared
  | assisted
  | retained
  | unclear
deriving DecidableEq, Repr

/-- Whether a delegation alone resolves the loop as delegated. -/
def DelegationCode.yieldsDelegatedResolution : DelegationCode → Bool
  | .transferred => true
  | _ => false

/-! ### Legality of combinations -/

/-- The four facets whose combination is validated. -/
structure LoopLegalityFacets where
  obligationState : ObligationState
  resolution : Resolution
  closureReviewState : ClosureReviewState
  deadlineState : DeadlineState
deriving DecidableEq, Repr

/-- The legality rule a tuple of facets violates. -/
inductive LegalityViolation where
  /-- A loop has a resolution if and only if it is terminal. -/
  | resolutionObligationMismatch
  /-- Closure review requires an open obligation. -/
  | closureReviewRequiresOpen
  /-- An approaching or overdue deadline requires an open obligation. -/
  | deadlineAgingRequiresOpen
deriving DecidableEq, Repr

/-- Whether a deadline is approaching or overdue. -/
def DeadlineState.isAging : DeadlineState → Bool
  | .approaching | .overdue => true
  | _ => false

/-- Validate a tuple of facets, reporting the first rule violated. -/
def validate (facets : LoopLegalityFacets) : Except LegalityViolation Unit :=
  let isTerminal : Bool := facets.obligationState = .terminal
  let hasResolution := facets.resolution.isSome
  if isTerminal ≠ hasResolution then .error .resolutionObligationMismatch
  else
    let isOpen : Bool := facets.obligationState = .open
    let hasClosureReview : Bool := facets.closureReviewState ≠ .none
    if hasClosureReview ∧ ¬ isOpen then .error .closureReviewRequiresOpen
    else if facets.deadlineState.isAging ∧ ¬ isOpen then .error .deadlineAgingRequiresOpen
    else .ok ()

/-- Whether a tuple of facets satisfies every rule. -/
def isLegal (facets : LoopLegalityFacets) : Bool :=
  (validate facets).isOk

/-- A tuple is legal exactly when it is validated. -/
theorem isLegal_iff_validate (facets : LoopLegalityFacets) :
  isLegal facets = true ↔ validate facets = .ok ()
  := by
  rw [isLegal]
  cases validate facets with
  | ok u => simp [Except.isOk, Except.toBool]
  | error v => simp [Except.isOk, Except.toBool]

/-- A tuple is legal exactly when it has a resolution if and only if it is terminal, and
is under closure review or ages only when it is open. -/
theorem isLegal_iff (facets : LoopLegalityFacets) :
  isLegal facets = true ↔
    (facets.obligationState = .terminal ↔ facets.resolution ≠ .none)
      ∧ (facets.closureReviewState ≠ .none → facets.obligationState = .open)
      ∧ (facets.deadlineState.isAging = true → facets.obligationState = .open)
  := by
  rw [isLegal_iff_validate, ← Resolution.isSome_iff]
  obtain ⟨o, r, c, d⟩ := facets
  simp only [validate]
  cases o <;> cases r.isSome <;> cases d.isAging <;> by_cases hc : c = .none <;> simp [hc]

end Domain
