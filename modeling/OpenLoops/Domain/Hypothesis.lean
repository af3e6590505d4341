import OpenLoops.Domain.Facets
import OpenLoops.Domain.Ids

/-!
# Closure hypotheses

The identity of a closure hypothesis: the loop it targets, its kind, the sources it was
read from with their versions, and the policy it was evaluated under.  The closure review
of a loop is projected from its current hypotheses, from those among them that were
suppressed, and from whether an evidence request is pending.
-/

namespace Domain

/-- The kind of a closure hypothesis. -/
inductive HypothesisKind where
  | closure
  | decline
  | delegation
  | moot
deriving DecidableEq, Repr

/-- A validated source together with the version it was observed at. -/
structure VersionedSourceRef where
  sourceRefId : OpaqueId
  sourceVersion : Version
deriving DecidableEq, Repr

/-- The identity of a closure hypothesis. -/
structure HypothesisIdentity where
  targetLoop : OpaqueId
  kind : HypothesisKind
  sourceRefs : List VersionedSourceRef
  policyVersion : Version
deriving DecidableEq, Repr

/-! ### The projection -/

/-- What the closure review of a loop is projected from. -/
structure ProjectionInputs where
  unsuppressedCurrentHypothesisExists : Bool
  evidenceRequestPending : Bool
  suppressedCurrentHypothesisExists : Bool
deriving DecidableEq, Repr

/-- The closure review of a loop, in the order of priority. -/
def project (inputs : ProjectionInputs) : ClosureReviewState :=
  if inputs.unsuppressedCurrentHypothesisExists then .possible
  else if inputs.evidenceRequestPending then .evidenceRequested
  else if inputs.suppressedCurrentHypothesisExists then .keptOpen
  else .none

/-- Whether a hypothesis is among the suppressed ones. -/
def isSuppressed (identity : HypothesisIdentity) (suppressed : List HypothesisIdentity) :
    Bool :=
  suppressed.any fun entry => entry = identity

/-- A hypothesis is suppressed exactly when it is listed. -/
theorem isSuppressed_iff {identity : HypothesisIdentity} {suppressed : List HypothesisIdentity} :
  isSuppressed identity suppressed = true ↔ identity ∈ suppressed
  := by
  simp [isSuppressed]

/-- The closure hypotheses of a loop. -/
structure ClosureHypotheses where
  current : List HypothesisIdentity
  suppressed : List HypothesisIdentity
  evidenceRequestPending : Bool

namespace ClosureHypotheses

/-- What the hypotheses give to the projection. -/
def projectionInputs (hypotheses : ClosureHypotheses) : ProjectionInputs where
  unsuppressedCurrentHypothesisExists :=
    hypotheses.current.any fun h => !isSuppressed h hypotheses.suppressed
  evidenceRequestPending := hypotheses.evidenceRequestPending
  suppressedCurrentHypothesisExists :=
    hypotheses.current.any fun h => isSuppressed h hypotheses.suppressed

/-- The closure review projected from the hypotheses. -/
def projection (hypotheses : ClosureHypotheses) : ClosureReviewState :=
  project hypotheses.projectionInputs

/-- The hypotheses with one more that is suppressed. -/
def suppress (hypotheses : ClosureHypotheses) (h : HypothesisIdentity) : ClosureHypotheses :=
  { hypotheses with suppressed := h :: hypotheses.suppressed }

/-- Some current hypothesis counts as unsuppressed exactly when one is not listed among the
suppressed ones. -/
theorem unsuppressed_iff {hypotheses : ClosureHypotheses} :
  hypotheses.projectionInputs.unsuppressedCurrentHypothesisExists = true ↔
    ∃ h ∈ hypotheses.current, h ∉ hypotheses.suppressed
  := by
  simp [projectionInputs, ← isSuppressed_iff]

/-- Some current hypothesis counts as suppressed exactly when one is listed among the
suppressed ones. -/
theorem suppressed_iff {hypotheses : ClosureHypotheses} :
  hypotheses.projectionInputs.suppressedCurrentHypothesisExists = true ↔
    ∃ h ∈ hypotheses.current, h ∈ hypotheses.suppressed
  := by
  simp [projectionInputs, isSuppressed_iff]

/-- A closure is possible exactly when some current hypothesis is not suppressed. -/
theorem projection_eq_possible {hypotheses : ClosureHypotheses} :
  hypotheses.projection = .possible ↔
    ∃ h ∈ hypotheses.current, h ∉ hypotheses.suppressed
  := by
  rw [projection, project, ← unsuppressed_iff]
  split_ifs with h
  · exact iff_of_true rfl h
  · exact iff_of_false (by decide) h
  · exact iff_of_false (by decide) h
  · exact iff_of_false (by decide) h

/-- The loop is kept open exactly when no current hypothesis is unsuppressed, no evidence
request is pending, and some current hypothesis is suppressed. -/
theorem projection_eq_keptOpen {hypotheses : ClosureHypotheses} :
  hypotheses.projection = .keptOpen ↔
    (¬ ∃ h ∈ hypotheses.current, h ∉ hypotheses.suppressed)
      ∧ hypotheses.evidenceRequestPending = false
      ∧ ∃ h ∈ hypotheses.current, h ∈ hypotheses.suppressed
  := by
  have hpending : hypotheses.projectionInputs.evidenceRequestPending
      = hypotheses.evidenceRequestPending := rfl
  rw [projection, project, ← unsuppressed_iff, ← suppressed_iff, hpending]
  split_ifs with h h' h''
  · simp [h]
  · simp [h']
  · simp [h, h', h'']
  · simp [h'']

end ClosureHypotheses

end Domain
