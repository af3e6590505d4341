import OpenLoops.Domain.Deadline
import OpenLoops.Domain.Transition

/-!
# The loop record

`Loop.new` builds the record of a loop: it checks the facets, that an aging loop has an
operative deadline, and the three bounded lists, in this order.  The check of the deadline
only asks whether one is stored, while aging needs one with a boundary, so a loop may age
without one.
-/

namespace Domain

/-! ### Deadlines and the evidence for them -/

/-- The value of a deadline, tagged with its precision. -/
inductive DeadlineValue where
  | instant (t : UnixSeconds)
  | date (t : UnixSeconds)
  | businessDay (t : UnixSeconds)
  /-- The range from `start` to before `stop`. -/
  | week (start stop : UnixSeconds)
  /-- The instant of the event, or `none` while none is selected. -/
  | eventRelative (t : Option UnixSeconds)
  | soft
  | unspecified
deriving DecidableEq, Repr

namespace DeadlineValue

/-- The precision of a value. -/
def precision : DeadlineValue → DeadlinePrecision
  | instant _ => .instant
  | date _ => .date
  | businessDay _ => .businessDay
  | week _ _ => .week
  | eventRelative _ => .eventRelative
  | soft => .soft
  | unspecified => .unspecified

/-- Whether a value has an operational boundary. -/
def HasBoundary : DeadlineValue → Prop
  | eventRelative none | soft | unspecified => False
  | instant _ | date _ | businessDay _ | week _ _ | eventRelative (some _) => True

/-- Evidence that a deadline with this value may age by: of the same precision, and with a
boundary for an event only when the event is selected. -/
def AgesBy (value : DeadlineValue) : DeadlineAgingEvidence → Prop
  | .instant _ _ => value.precision = .instant
  | .date _ _ => value.precision = .date
  | .businessDay _ _ => value.precision = .businessDay
  | .week _ _ => value.precision = .week
  | .eventRelative resolvedBoundary _ => value = eventRelative resolvedBoundary
  | .soft => value = soft
  | .unspecified => value = unspecified
  | .unresolved | .undatedConfirmed => False

/-- A deadline is projected to be approaching or overdue only when its value has a
boundary. -/
theorem hasBoundary_of_projectAging {value : DeadlineValue}
    {evidence : DeadlineAgingEvidence} (hevidence : value.AgesBy evidence)
    {obligation : AgingObligation} {now : UnixSeconds} {s : DeadlineState}
    (h : projectAging obligation evidence now = some s) (haging : s.isAging = true) :
  value.HasBoundary
  := by
  obtain ⟨-, boundary, leadSeconds, hboundary, -⟩ :=
    (projectAging_isAging_iff obligation evidence now).mp ⟨s, h, haging⟩
  cases evidence with
  | eventRelative resolvedBoundary =>
      cases hevidence
      cases resolvedBoundary with
      | none => cases hboundary
      | some _ => trivial
  | instant | date | businessDay | week => cases value <;> trivial
  | unresolved | undatedConfirmed | soft | unspecified => cases hboundary

end DeadlineValue

/-- The text of a timezone identifier, of 1 to 128 bytes. -/
structure TimezoneId where
  text : String
  nonempty : text ≠ ""
  bounded : text.utf8ByteSize ≤ 128
deriving DecidableEq, Repr

inductive TimezoneIdError where
  | empty
  | tooLong
deriving DecidableEq, Repr

/-- Check a timezone identifier. -/
def TimezoneId.new (id : String) : Except TimezoneIdError TimezoneId :=
  if hempty : id = "" then .error .empty
  else if hlong : 128 < id.utf8ByteSize then .error .tooLong
  else .ok ⟨id, hempty, by omega⟩

inductive DeadlineEvidenceError where
  | sourceRefRequiredExceptUserSupplied
  | invalidWeekRange
deriving DecidableEq, Repr

/-- One piece of evidence for a deadline. -/
structure DeadlineEvidence where
  deadlineEvidenceId : OpaqueId
  loopId : OpaqueId
  sourceRefId : Option OpaqueId
  sourceTypeCode : DeadlineSourceType
  precisionCode : DeadlinePrecision
  interpretationCode : DeadlineInterpretation
  operativeSelectionCode : OperativeSelection
  valueOrRange : DeadlineValue
  timezoneId : TimezoneId
deriving DecidableEq, Repr

/-- Check that a week ends after it starts. -/
def requireWeekRange (value : DeadlineValue) : Except DeadlineEvidenceError Unit :=
  match value with
  | .week start stop =>
      if stop.seconds ≤ start.seconds then .error .invalidWeekRange else .ok ()
  | _ => .ok ()

/-- Build evidence for a deadline, of the precision of its value. -/
def DeadlineEvidence.new (deadlineEvidenceId loopId : OpaqueId)
    (sourceRefId : Option OpaqueId) (sourceTypeCode : DeadlineSourceType)
    (interpretationCode : DeadlineInterpretation)
    (operativeSelectionCode : OperativeSelection) (valueOrRange : DeadlineValue)
    (timezoneId : TimezoneId) : Except DeadlineEvidenceError DeadlineEvidence := do
  if sourceRefId = none ∧ sourceTypeCode ≠ .userSupplied then
    .error .sourceRefRequiredExceptUserSupplied
  else
    requireWeekRange valueOrRange
    return {
      deadlineEvidenceId, loopId, sourceRefId, sourceTypeCode
      precisionCode := valueOrRange.precision
      interpretationCode, operativeSelectionCode, valueOrRange, timezoneId }

/-- Evidence for a deadline names a source unless the user supplied it, has the precision of
its value, and its week ends after it starts. -/
theorem DeadlineEvidence.new_spec {deadlineEvidenceId loopId : OpaqueId}
    {sourceRefId : Option OpaqueId} {sourceTypeCode : DeadlineSourceType}
    {interpretationCode : DeadlineInterpretation}
    {operativeSelectionCode : OperativeSelection} {valueOrRange : DeadlineValue}
    {timezoneId : TimezoneId} {evidence : DeadlineEvidence}
    (h : DeadlineEvidence.new deadlineEvidenceId loopId sourceRefId sourceTypeCode
      interpretationCode operativeSelectionCode valueOrRange timezoneId = .ok evidence) :
  (evidence.sourceRefId = none → evidence.sourceTypeCode = .userSupplied)
    ∧ evidence.precisionCode = evidence.valueOrRange.precision
    ∧ ∀ start stop, evidence.valueOrRange = .week start stop → start.seconds < stop.seconds
  := by
  rw [DeadlineEvidence.new] at h
  split_ifs at h with hsource
  obtain ⟨hweek, h⟩ := Except.check_bind_eq_ok.mp h
  cases h
  refine ⟨?_, rfl, ?_⟩
  · intro hnone
    by_contra hne
    apply hsource ⟨hnone, hne⟩
  · rintro start stop rfl
    rw [requireWeekRange] at hweek
    split_ifs at hweek with hle
    apply Int64.not_le.mp hle

/-! ### Loops -/

/-- The role a source plays for a loop. -/
structure SourceRoleCode where
  code : UInt8
deriving DecidableEq, Repr

/-- The label of a model. -/
structure ModelLabelCode where
  code : UInt16
deriving DecidableEq, Repr

/-- Sources under the roles they play, without duplicates and within a capacity. -/
abbrev SourceRoleRefList := BoundedList (SourceRoleCode × OpaqueId)

/-- How a source is inserted under a role. -/
def sourceRoleInserts :
    BoundedInsert SourceRoleRefList (SourceRoleCode × OpaqueId) BoundedInsertError :=
  BoundedList.inserts .duplicate .capacityExceeded

/-- Why a loop record is rejected. -/
inductive LoopError where
  | illegalFacets (violation : LegalityViolation)
  | tooManySourceRefsByRole
  | duplicateSourceRefByRole
  | tooManyReminderRefs
  | duplicateReminderRef
  | tooManyTransitionRefs
  | duplicateTransitionRef
  | agingWithoutOperativeBoundary
deriving DecidableEq, Repr

namespace LoopError

/-- The error of a source refused. -/
def ofSourceRef : BoundedInsertError → LoopError
  | .capacityExceeded => tooManySourceRefsByRole
  | .duplicate => duplicateSourceRefByRole

/-- The error of a reminder refused. -/
def ofReminderRef : BoundedInsertError → LoopError
  | .capacityExceeded => tooManyReminderRefs
  | .duplicate => duplicateReminderRef

/-- The error of a transition refused. -/
def ofTransitionRef : BoundedInsertError → LoopError
  | .capacityExceeded => tooManyTransitionRefs
  | .duplicate => duplicateTransitionRef

end LoopError

/-- The fields of a loop that are stored as they are given. -/
structure LoopFields where
  loopId : OpaqueId
  accountRef : OpaqueId
  originCode : OriginCode
  provenanceCodes : ProvenanceSet
  obligationStateCode : ObligationState
  reviewFlagCodes : ReviewFlagSet
  deadlineStateCode : DeadlineState
  closureReviewStateCode : ClosureReviewState
  reminderStateCode : ReminderState
  analysisStateCode : AnalysisState
  sourceStateCode : SourceState
  resolutionCode : Resolution
  confidenceBucket : ConfidenceBucket
  operativeDeadlineRefId : Option OpaqueId
  operativeDeadlineValueOrRange : Option DeadlineValue
  policyVersion : Version
  schemaVersion : Version
  modelLabelCode : ModelLabelCode
  loopVersion : Version
  lastEvaluatedSourceRefId : Option OpaqueId
deriving DecidableEq, Repr

/-- The four facets of a loop that are checked against each other. -/
def LoopFields.legalityFacets (fields : LoopFields) : LoopLegalityFacets :=
  ⟨fields.obligationStateCode, fields.resolutionCode, fields.closureReviewStateCode,
    fields.deadlineStateCode⟩

/-- The arguments of `Loop.new`. -/
structure LoopArgs extends LoopFields where
  sourceRefIdsByRole : List (SourceRoleCode × OpaqueId)
  reminderRefIds : List OpaqueId
  transitionRefIds : List OpaqueId
deriving DecidableEq, Repr

/-- The record of a loop. -/
structure Loop extends LoopFields where
  sourceRefIdsByRole : SourceRoleRefList
  reminderRefIds : BoundedIdList
  transitionRefIds : BoundedIdList
deriving DecidableEq, Repr

/-- Check that an aging loop has an operative deadline. -/
def LoopFields.requireOperativeDeadline (fields : LoopFields) : Except LoopError Unit :=
  if fields.deadlineStateCode.isAging ∧ fields.operativeDeadlineRefId = none
      ∧ fields.operativeDeadlineValueOrRange = none then
    .error .agingWithoutOperativeBoundary
  else .ok ()

namespace Loop

def sourceRefIdsByRoleBound : ℕ := 256

def reminderRefIdsBound : ℕ := 16

def transitionRefIdsBound : ℕ := 4096

/-- Build the record of a loop. -/
def new (args : LoopArgs) : Except LoopError Loop := do
  (validate args.legalityFacets).mapError .illegalFacets
  args.requireOperativeDeadline
  let roleRefs ← sourceRoleInserts.pushAll .ofSourceRef
    (.withCapacity sourceRefIdsByRoleBound) args.sourceRefIdsByRole
  let reminders ← BoundedIdList.inserts.pushAll .ofReminderRef
    (.withCapacity reminderRefIdsBound) args.reminderRefIds
  let transitions ← BoundedIdList.inserts.pushAll .ofTransitionRef
    (.withCapacity transitionRefIdsBound) args.transitionRefIds
  return {
    toLoopFields := args.toLoopFields
    sourceRefIdsByRole := roleRefs
    reminderRefIds := reminders
    transitionRefIds := transitions }

/-- The record is built from the arguments: the fields and the three lists in their order. -/
structure Stores (l : Loop) (args : LoopArgs) : Prop where
  fields : l.toLoopFields = args.toLoopFields
  sourceRefs : l.sourceRefIdsByRole.values = args.sourceRefIdsByRole
  reminderRefs : l.reminderRefIds.values = args.reminderRefIds
  transitionRefs : l.transitionRefIds.values = args.transitionRefIds
  sourceRefsBound : l.sourceRefIdsByRole.capacity = sourceRefIdsByRoleBound
  reminderRefsBound : l.reminderRefIds.capacity = reminderRefIdsBound
  transitionRefsBound : l.transitionRefIds.capacity = transitionRefIdsBound

end Loop

/-- The facets of the arguments are legal and each list is without duplicates and within its
bound. -/
structure LoopArgs.WellFormed (args : LoopArgs) : Prop where
  legal : isLegal args.legalityFacets = true
  sourceRefs : args.sourceRefIdsByRole.Nodup
  sourceRefsBounded : args.sourceRefIdsByRole.length ≤ Loop.sourceRefIdsByRoleBound
  reminderRefs : args.reminderRefIds.Nodup
  reminderRefsBounded : args.reminderRefIds.length ≤ Loop.reminderRefIdsBound
  transitionRefs : args.transitionRefIds.Nodup
  transitionRefsBounded : args.transitionRefIds.length ≤ Loop.transitionRefIdsBound

/-- The record that stores well-formed arguments. -/
def LoopArgs.WellFormed.record {args : LoopArgs} (h : args.WellFormed) : Loop :=
  { toLoopFields := args.toLoopFields
    sourceRefIdsByRole := ⟨_, _, h.sourceRefs, h.sourceRefsBounded⟩
    reminderRefIds := ⟨_, _, h.reminderRefs, h.reminderRefsBounded⟩
    transitionRefIds := ⟨_, _, h.transitionRefs, h.transitionRefsBounded⟩ }

namespace LoopFields

/-- Whether an operative deadline is stored. -/
def HasOperativeDeadline (fields : LoopFields) : Prop :=
  fields.operativeDeadlineRefId ≠ none ∨ fields.operativeDeadlineValueOrRange ≠ none

/-- An aging loop has an operative deadline, and the value of it, if one is stored, has a
boundary. -/
def AgesAgainstBoundary (fields : LoopFields) : Prop :=
  fields.deadlineStateCode.isAging = true →
    (∀ value, fields.operativeDeadlineValueOrRange = some value → value.HasBoundary)
      ∧ fields.HasOperativeDeadline

/-- The loop ages, and the value of the operative deadline that is stored has no boundary. -/
def AgesWithoutBoundary (fields : LoopFields) : Prop :=
  fields.deadlineStateCode.isAging = true
    ∧ ∃ value, fields.operativeDeadlineValueOrRange = some value ∧ ¬ value.HasBoundary

/-- The check passes exactly when an aging loop has an operative deadline. -/
theorem requireOperativeDeadline_eq_ok {fields : LoopFields} :
  fields.requireOperativeDeadline = .ok () ↔
    (fields.deadlineStateCode.isAging = true → fields.HasOperativeDeadline)
  := by
  rw [requireOperativeDeadline, HasOperativeDeadline, Except.check_eq_ok]
  grind

/-- A loop ages against a boundary exactly when it has an operative deadline where it ages, and
does not age without a boundary. -/
theorem agesAgainstBoundary_iff {fields : LoopFields} :
  fields.AgesAgainstBoundary ↔
    (fields.deadlineStateCode.isAging = true → fields.HasOperativeDeadline)
      ∧ ¬ fields.AgesWithoutBoundary
  := by
  rw [AgesAgainstBoundary, AgesWithoutBoundary]
  grind

end LoopFields

namespace Loop

/-- A loop record is built exactly from well-formed arguments that have an operative deadline
where they age, and it stores them. -/
theorem new_eq_ok {args : LoopArgs} {l : Loop} :
  new args = .ok l ↔
    args.WellFormed
      ∧ (args.deadlineStateCode.isAging = true → args.HasOperativeDeadline) ∧ l.Stores args
  := by
  rw [new, Except.check_bind_eq_ok, Except.check_bind_eq_ok, Except.mapError_eq_ok,
    ← isLegal_iff_validate, LoopFields.requireOperativeDeadline_eq_ok, Except.bind_eq_ok]
  constructor
  · rintro ⟨hlegal, hdeadline, roleRefs, hroleRefs, h⟩
    obtain ⟨reminders, hreminders, h⟩ := Except.bind_eq_ok.mp h
    obtain ⟨transitions, htransitions, h⟩ := Except.bind_eq_ok.mp h
    cases h
    obtain ⟨hsource, hsourceLen, hsourceCap, hsourceVal⟩ :=
      (sourceRoleInserts.pushAll_of_empty rfl).mp hroleRefs
    obtain ⟨hreminder, hreminderLen, hreminderCap, hreminderVal⟩ :=
      (BoundedIdList.inserts.pushAll_of_empty rfl).mp hreminders
    obtain ⟨htransition, htransitionLen, htransitionCap, htransitionVal⟩ :=
      (BoundedIdList.inserts.pushAll_of_empty rfl).mp htransitions
    exact ⟨⟨hlegal, hsource, hsourceLen, hreminder, hreminderLen, htransition,
      htransitionLen⟩, hdeadline, ⟨rfl, hsourceVal, hreminderVal, htransitionVal, hsourceCap,
      hreminderCap, htransitionCap⟩⟩
  · rintro ⟨hargs, hdeadline, hl⟩
    use hargs.legal, hdeadline, l.sourceRefIdsByRole
    constructor
    · apply (sourceRoleInserts.pushAll_of_empty rfl).mpr
      exact ⟨hargs.sourceRefs, hargs.sourceRefsBounded, hl.sourceRefsBound, hl.sourceRefs⟩
    apply Except.bind_eq_ok.mpr
    use l.reminderRefIds
    constructor
    · apply (BoundedIdList.inserts.pushAll_of_empty rfl).mpr
      exact ⟨hargs.reminderRefs, hargs.reminderRefsBounded, hl.reminderRefsBound,
        hl.reminderRefs⟩
    apply Except.bind_eq_ok.mpr
    use l.transitionRefIds
    constructor
    · apply (BoundedIdList.inserts.pushAll_of_empty rfl).mpr
      exact ⟨hargs.transitionRefs, hargs.transitionRefsBounded, hl.transitionRefsBound,
        hl.transitionRefs⟩
    rw [← hl.fields]
    rfl

/-- A loop record is built exactly from well-formed arguments that have an operative deadline
where they age. -/
theorem exists_new_iff {args : LoopArgs} :
  (∃ l, new args = .ok l) ↔
    args.WellFormed ∧ (args.deadlineStateCode.isAging = true → args.HasOperativeDeadline)
  := by
  constructor
  · rintro ⟨l, h⟩
    obtain ⟨hargs, hdeadline, -⟩ := new_eq_ok.mp h
    exact ⟨hargs, hdeadline⟩
  · rintro ⟨hargs, hdeadline⟩
    use hargs.record
    apply new_eq_ok.mpr
    exact ⟨hargs, hdeadline, ⟨rfl, rfl, rfl, rfl, rfl, rfl, rfl⟩⟩

/-- Exactly the well-formed arguments that age against a boundary are accepted, and what is
built from them stores them. -/
def AcceptsExactly (args : LoopArgs) : Prop :=
  (∀ l, new args = .ok l → args.WellFormed ∧ args.AgesAgainstBoundary ∧ l.Stores args)
    ∧ (args.WellFormed → args.AgesAgainstBoundary → ∃ l, new args = .ok l)

/-- The arguments are accepted as they should be exactly when they are not well-formed or do
not age without a boundary. -/
theorem acceptsExactly_iff (args : LoopArgs) :
  AcceptsExactly args ↔ ¬ (args.WellFormed ∧ args.AgesWithoutBoundary)
  := by
  constructor
  · rintro ⟨hsound, -⟩ ⟨hargs, haging, value, hvalue, hno⟩
    have hdeadline : args.HasOperativeDeadline := by
      right
      rw [hvalue]
      exact Option.some_ne_none value
    obtain ⟨l, hl⟩ := exists_new_iff.mpr ⟨hargs, fun _ => hdeadline⟩
    obtain ⟨-, hages, -⟩ := hsound l hl
    apply (LoopFields.agesAgainstBoundary_iff.mp hages).2 ⟨haging, value, hvalue, hno⟩
  · intro hnot
    constructor
    · intro l hl
      obtain ⟨hargs, hdeadline, hstores⟩ := new_eq_ok.mp hl
      refine ⟨hargs, ?_, hstores⟩
      apply LoopFields.agesAgainstBoundary_iff.mpr
      exact ⟨hdeadline, fun hno => hnot ⟨hargs, hno⟩⟩
    · intro hargs hages
      apply exists_new_iff.mpr
      exact ⟨hargs, (LoopFields.agesAgainstBoundary_iff.mp hages).1⟩

end Loop

/-- The arguments for an overdue loop whose operative deadline is soft. -/
def softOverdueArgs : LoopArgs where
  loopId := ⟨Vector.replicate 16 1⟩
  accountRef := ⟨Vector.replicate 16 2⟩
  originCode := .emailEvidence
  provenanceCodes := .empty
  obligationStateCode := .open
  reviewFlagCodes := .empty
  deadlineStateCode := .overdue
  closureReviewStateCode := .none
  reminderStateCode := .none
  analysisStateCode := .current
  sourceStateCode := .available
  resolutionCode := .none
  confidenceBucket := .high
  operativeDeadlineRefId := none
  operativeDeadlineValueOrRange := some .soft
  policyVersion := .first
  schemaVersion := .first
  modelLabelCode := ⟨0⟩
  loopVersion := .first
  lastEvaluatedSourceRefId := none
  sourceRefIdsByRole := []
  reminderRefIds := []
  transitionRefIds := []

/-- The overdue loop with a soft deadline is built, although it has no boundary to age
against. -/
theorem softOverdueArgs_not_acceptsExactly :
  (∃ l, Loop.new softOverdueArgs = .ok l ∧ l.deadlineStateCode = .overdue
      ∧ l.operativeDeadlineValueOrRange = some .soft)
    ∧ ¬ Loop.AcceptsExactly softOverdueArgs
  := by
  have hnew : ∃ l, Loop.new softOverdueArgs = .ok l ∧ l.deadlineStateCode = .overdue
      ∧ l.operativeDeadlineValueOrRange = some .soft := ⟨_, rfl, rfl, rfl⟩
  use hnew
  rintro ⟨hsound, -⟩
  obtain ⟨l, hl, -⟩ := hnew
  obtain ⟨-, hages, -⟩ := hsound l hl
  apply (hages rfl).1 .soft rfl

end Domain
