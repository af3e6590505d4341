import OpenLoops.Domain.Facets
import OpenLoops.Domain.Ids

/-!
# Aging of deadlines

The deadline of an open loop is projected from the evidence for it and the current instant.
It is approaching or overdue exactly when the evidence has a boundary and the boundary, less
the lead configured, has come.
-/

namespace Domain

/-- The instant that many seconds earlier, or the earliest there is. -/
def UnixSeconds.minusLead (t : UnixSeconds) (leadSeconds : UInt32) : UnixSeconds :=
  ⟨Int64.ofInt (max Int64.minValue.toInt (t.seconds.toInt - leadSeconds.toNat))⟩

theorem UnixSeconds.toInt_minusLead (t : UnixSeconds) (leadSeconds : UInt32) :
  (t.minusLead leadSeconds).seconds.toInt
    = max Int64.minValue.toInt (t.seconds.toInt - leadSeconds.toNat)
  := by
  have hlt := t.seconds.toInt_lt
  apply Int64.toInt_ofInt_of_le
  · apply le_max_left
  · have hmin : Int64.minValue.toInt < 2 ^ 63 := by decide
    omega

/-- What is known of the deadline of a loop. -/
inductive DeadlineAgingEvidence where
  | unresolved
  | undatedConfirmed
  | instant (instant : UnixSeconds) (leadSeconds : UInt32)
  | date (policyBoundary : UnixSeconds) (leadSeconds : UInt32)
  | businessDay (policyBoundary : UnixSeconds) (leadSeconds : UInt32)
  | week (rangeEnd : UnixSeconds) (leadSeconds : UInt32)
  | eventRelative (resolvedBoundary : Option UnixSeconds) (leadSeconds : UInt32)
  | soft
  | unspecified
deriving DecidableEq, Repr

/-- Whether the obligation of a loop is open. -/
inductive AgingObligation where
  | «open»
  | notOpen
deriving DecidableEq, Repr

/-- The state of a deadline with a boundary. -/
def classifyBoundary (boundary : UnixSeconds) (leadSeconds : UInt32) (now : UnixSeconds) :
    DeadlineState :=
  if boundary.seconds ≤ now.seconds then .overdue
  else if (boundary.minusLead leadSeconds).seconds ≤ now.seconds then .approaching
  else .scheduled

/-- The state of a deadline, unless the obligation is not open. -/
def projectAging (obligation : AgingObligation) (evidence : DeadlineAgingEvidence)
    (now : UnixSeconds) : Option DeadlineState :=
  if obligation = .notOpen then none
  else some <| match evidence with
    | .unresolved => .unresolved
    | .undatedConfirmed => .undatedConfirmed
    | .soft | .unspecified => .scheduled
    | .instant instant leadSeconds => classifyBoundary instant leadSeconds now
    | .date policyBoundary leadSeconds | .businessDay policyBoundary leadSeconds =>
        classifyBoundary policyBoundary leadSeconds now
    | .week rangeEnd leadSeconds => classifyBoundary rangeEnd leadSeconds now
    | .eventRelative none _ => .unresolved
    | .eventRelative (some boundary) leadSeconds => classifyBoundary boundary leadSeconds now

/-- The boundary the evidence ages against, with its lead. -/
def DeadlineAgingEvidence.boundary? : DeadlineAgingEvidence → Option (UnixSeconds × UInt32)
  | instant t leadSeconds | date t leadSeconds | businessDay t leadSeconds
  | week t leadSeconds | eventRelative (some t) leadSeconds => some (t, leadSeconds)
  | unresolved | undatedConfirmed | eventRelative none _ | soft | unspecified => none

/-- A deadline with a boundary ages from the lead on. -/
theorem classifyBoundary_isAging_iff (boundary : UnixSeconds) (leadSeconds : UInt32)
    (now : UnixSeconds) :
  (classifyBoundary boundary leadSeconds now).isAging = true ↔
    (boundary.minusLead leadSeconds).seconds ≤ now.seconds
  := by
  have hlead : (boundary.minusLead leadSeconds).seconds ≤ boundary.seconds := by
    rw [Int64.le_iff_toInt_le, UnixSeconds.toInt_minusLead]
    apply max_le
    · apply Int64.le_toInt
    · omega
  rw [classifyBoundary]
  split_ifs with hdue happroaching
  · exact iff_of_true rfl (Int64.le_trans hlead hdue)
  · exact iff_of_true rfl happroaching
  · exact iff_of_false nofun happroaching

/-- A deadline with a boundary is classified by it. -/
theorem projectAging_of_boundary {evidence : DeadlineAgingEvidence} {boundary : UnixSeconds}
    {leadSeconds : UInt32} (h : evidence.boundary? = some (boundary, leadSeconds))
    (now : UnixSeconds) :
  projectAging .open evidence now = some (classifyBoundary boundary leadSeconds now)
  := by
  cases evidence with
  | instant | date | businessDay | week =>
      cases h
      rfl
  | eventRelative resolvedBoundary =>
      cases resolvedBoundary <;> cases h
      rfl
  | unresolved | undatedConfirmed | soft | unspecified => cases h

/-- A deadline without a boundary does not age. -/
theorem projectAging_of_no_boundary {evidence : DeadlineAgingEvidence}
    (h : evidence.boundary? = none) (now : UnixSeconds) :
  ∃ s, projectAging .open evidence now = some s ∧ s.isAging = false
  := by
  cases evidence with
  | instant | date | businessDay | week => cases h
  | eventRelative resolvedBoundary =>
      cases resolvedBoundary <;> cases h
      exact ⟨_, rfl, rfl⟩
  | unresolved | undatedConfirmed | soft | unspecified => exact ⟨_, rfl, rfl⟩

/-- A deadline ages exactly when the obligation is open, there is a boundary, and the boundary
less its lead has come. -/
theorem projectAging_isAging_iff (obligation : AgingObligation)
    (evidence : DeadlineAgingEvidence) (now : UnixSeconds) :
  (∃ s, projectAging obligation evidence now = some s ∧ s.isAging = true) ↔
    obligation = .open ∧ ∃ boundary leadSeconds,
      evidence.boundary? = some (boundary, leadSeconds)
        ∧ (boundary.minusLead leadSeconds).seconds ≤ now.seconds
  := by
  cases obligation with
  | notOpen => simp [projectAging]
  | «open» =>
      rw [eq_self, true_and]
      cases hboundary : evidence.boundary? with
      | none =>
          obtain ⟨s, hs, haging⟩ := projectAging_of_no_boundary hboundary now
          simp [hs, haging]
      | some aged =>
          obtain ⟨boundary, leadSeconds⟩ := aged
          simp [projectAging_of_boundary hboundary now, classifyBoundary_isAging_iff]

end Domain
