import OpenLoops.Inference.Projection
import OpenLoops.Library.PairingOff

/-!
# Validation of claims

The claims in the answer of a model are checked against what was supplied to it.  Each claim is
checked by itself first, at the first step that fails it; what is left is checked for duplicates,
for evidence of several messages that is not disclosed, and for deadlines that contradict each
other.
-/

namespace Inference

open Contracts Domain

namespace SuppliedContext

variable (context : SuppliedContext)

def findMessage (handle : String) : Option MessageContext :=
  context.messages.find? (·.handle = handle)

def findParticipant (handle : String) : Option ParticipantHandle :=
  context.participants.find? (·.handle = handle)

def hasLoopCandidate (handle : String) : Bool :=
  handle ∈ context.loopCandidateHandles

end SuppliedContext

/-! ### Dispositions -/

inductive HandleMembershipFailure where
  | unknownMessageHandle
  | unknownLoopCandidateHandle
  | unknownParticipantHandle
deriving DecidableEq, Repr

inductive EvidenceBoundsFailure where
  | blockOrdinalOutOfRange
  | emptyRange
  | rangeOutOfBounds
  | whitespaceOnlyEvidence
deriving DecidableEq, Repr

inductive ParticipantSlotFailure where
  | unknownMessageHandle
  | slotDoesNotExist
deriving DecidableEq, Repr

inductive TemporalReparseFailure where
  | textEvidenceIndexOutOfRange
  | unreproducible
deriving DecidableEq, Repr

inductive ConsistencyFailure where
  | duplicateClaim
  | undisclosedCrossMessageEvidence
  | contradictoryDeadlineRelation
deriving DecidableEq, Repr

/-- Why a claim is rejected. -/
inductive ClaimRejectionReason where
  | handleMembership (failure : HandleMembershipFailure)
  | evidenceBounds (failure : EvidenceBoundsFailure)
  | participantSlot (failure : ParticipantSlotFailure)
  | temporalReparse (failure : TemporalReparseFailure)
  | consistency (failure : ConsistencyFailure)
deriving DecidableEq, Repr

inductive ClaimDisposition where
  | acceptForReview
  | reject (reason : ClaimRejectionReason)
deriving DecidableEq, Repr

structure ClaimVerdict where
  claimType : ClaimType
  disposition : ClaimDisposition
deriving DecidableEq, Repr

/-- The result of a validation: the verdicts on the claims, if there is a document. -/
inductive AnalysisResult where
  | analysisUnavailable
  | reviewed (verdicts : List ClaimVerdict)
deriving DecidableEq, Repr

/-! ### Each claim by itself -/

inductive RangeError where
  | emptyRange
  | outOfBounds
deriving DecidableEq, Repr

/-- A range of a block; the end is exclusive. -/
def CanonicalBlock.rangeText (block : CanonicalBlock) (start «end» : UInt32) :
    Except RangeError (List Char) :=
  if «end» ≤ start then .error .emptyRange
  else if block.scalars.length < «end».toNat then .error .outOfBounds
  else .ok ((block.scalars.take «end».toNat).drop start.toNat)

def participantSlotExists (message : CanonicalMessage) : ParticipantSlot → Bool
  | .sender => message.sender.isSome
  | .«to» index => index < message.«to».length
  | .cc index => index < message.cc.length

def mapTemporalKind : Contracts.TemporalKind → Domain.TemporalKind
  | .date => .date
  | .localDatetime => .localDatetime
  | .relative => .relative
  | .eventRelative => .eventRelative
  | .softWindow => .softWindow

/-- A check of a claim. -/
abbrev Checked (α : Type) : Type :=
  Except (Failure ClaimRejectionReason) α

def rejectFor {α : Type} (reason : ClaimRejectionReason) : Checked α :=
  .error (.error reason)

/-- The value that was found before; the call panics when there is none. -/
def expectFound {α : Type} (found : Option α) : Checked α :=
  found.okOr .panicked

/-- The claim names only handles that were supplied. -/
def checkHandles (claim : Claim) (context : SuppliedContext) : Checked Unit := do
  claim.evidence.forM fun evidence =>
    if (context.findMessage evidence.sourceHandle).isNone then
      rejectFor (.handleMembership .unknownMessageHandle)
    else .ok ()
  claim.relatedLoopHandles.forM fun related =>
    if ¬context.hasLoopCandidate related then
      rejectFor (.handleMembership .unknownLoopCandidateHandle)
    else .ok ()
  match claim.waitingPartyHandle with
  | .null => .ok ()
  | .value handle =>
      if (context.findParticipant handle).isNone then
        rejectFor (.handleMembership .unknownParticipantHandle)
      else .ok ()

/-- The evidence is a range of a block with more than white space. -/
def checkEvidence (context : SuppliedContext) (evidence : EvidenceRange) : Checked Unit := do
  let messageContext ← expectFound (context.findMessage evidence.sourceHandle)
  let block ← (resolveBlock messageContext.message evidence.component
    evidence.blockOrdinal).okOr (.error (.evidenceBounds .blockOrdinalOutOfRange))
  let extracted ← (block.rangeText evidence.rangeStart evidence.rangeEnd).mapError fun
    | .emptyRange => .error (.evidenceBounds .emptyRange)
    | .outOfBounds => .error (.evidenceBounds .rangeOutOfBounds)
  if trim extracted = [] then rejectFor (.evidenceBounds .whitespaceOnlyEvidence)
  else .ok ()

/-- The participant has a place in a message. -/
def checkParticipant (claim : Claim) (context : SuppliedContext) : Checked Unit :=
  match claim.waitingPartyHandle with
  | .null => .ok ()
  | .value handle => do
      let participant ← expectFound (context.findParticipant handle)
      let messageContext ← (context.findMessage participant.messageHandle).okOr
        (.error (.participantSlot .unknownMessageHandle))
      if ¬participantSlotExists messageContext.message participant.slot then
        rejectFor (.participantSlot .slotDoesNotExist)
      else .ok ()

/-- The parser reads the time of the claim. -/
def checkTemporal (claim : Claim) (context : SuppliedContext) : Checked Unit :=
  match claim.temporal with
  | .null => .ok ()
  | .value temporal => do
      let evidenceEntry ← (claim.evidence[temporal.textEvidenceIndex.toNat]?).okOr
        (.error (.temporalReparse .textEvidenceIndexOutOfRange))
      let messageContext ← expectFound (context.findMessage evidenceEntry.sourceHandle)
      match reparse (mapTemporalKind temporal.kind) temporal.value
          messageContext.temporalContext with
      | .ok _ => .ok ()
      | .error (.error _) => rejectFor (.temporalReparse .unreproducible)
      | .error .panicked => .error .panicked

/-- Steps 4 to 8 of the validation. -/
def checkSteps4To8 (claim : Claim) (context : SuppliedContext) : Checked Unit := do
  checkHandles claim context
  claim.evidence.forM (checkEvidence context)
  checkParticipant claim context
  checkTemporal claim context

/-! ### The claims together -/

/-- For each claim the reason to reject it, if there is one so far. -/
abbrev Dispositions : Type :=
  List (Option ClaimRejectionReason)

/-- The claim at the place is not rejected so far. -/
def Dispositions.IsOpen (dispositions : Dispositions) (index : ℕ) : Prop :=
  dispositions[index]? = some none

instance (dispositions : Dispositions) : DecidablePred dispositions.IsOpen :=
  fun index => inferInstanceAs (Decidable (dispositions[index]? = some none))

def Dispositions.reject (dispositions : Dispositions) (index : ℕ)
    (failure : ConsistencyFailure) : Dispositions :=
  dispositions.set index (some (.consistency failure))

/-- Reject a claim that is there before. -/
def rejectDuplicate (claims : List Claim) (dispositions : Dispositions) (later : ℕ) :
    Dispositions :=
  if dispositions.IsOpen later ∧ (List.range later).any fun earlier =>
      dispositions.IsOpen earlier ∧ claims[earlier]? = claims[later]? then
    dispositions.reject later .duplicateClaim
  else dispositions

def distinctMessageHandles (claim : Claim) : Finset String :=
  (claim.evidence.map (·.sourceHandle)).toFinset

/-- The evidence of the claim is of several messages, and the claim does not say so. -/
def undisclosesMessages (claim : Claim) : Bool :=
  1 < (distinctMessageHandles claim).card && .crossMessage ∉ claim.ambiguityCodes

/-- Reject a claim that does not disclose the messages of its evidence. -/
def rejectUndisclosed (claims : List Claim) (dispositions : Dispositions) (index : ℕ) :
    Dispositions :=
  if dispositions.IsOpen index ∧ claims[index]?.any undisclosesMessages then
    dispositions.reject index .undisclosedCrossMessageEvidence
  else dispositions

/-- The one instant that the time of a claim is, if it is one. -/
def resolvedInstant (claim : Claim) (context : SuppliedContext) : Checked (Option UnixSeconds) :=
  match claim.temporal with
  | .null => .ok none
  | .value temporal =>
      match claim.evidence[temporal.textEvidenceIndex.toNat]? with
      | none => .ok none
      | some evidenceEntry =>
          match context.findMessage evidenceEntry.sourceHandle with
          | none => .ok none
          | some messageContext =>
              match reparse (mapTemporalKind temporal.kind) temporal.value
                  messageContext.temporalContext with
              | .ok (.instant (.unambiguous instant)) => .ok (some instant)
              | .ok _ => .ok none
              | .error (.error _) => .ok none
              | .error .panicked => .error .panicked

/-- Whether two claims are for the same loops and give different instants. -/
def contradictory (first second : Claim) (context : SuppliedContext) : Checked Bool := do
  if first.relatedLoopHandles = [] || first.relatedLoopHandles ≠ second.relatedLoopHandles then
    return false
  else match ← resolvedInstant first context with
    | none => return false
    | some firstInstant => match ← resolvedInstant second context with
      | none => return false
      | some secondInstant => return firstInstant ≠ secondInstant

/-- Reject two claims that contradict each other. -/
def rejectContradictory (claims : List Claim) (context : SuppliedContext)
    (dispositions : Dispositions) (places : ℕ × ℕ) : Checked Dispositions :=
  match claims[places.1]?, claims[places.2]? with
  | some first, some second =>
      if ¬dispositions.IsOpen places.1 ∨ ¬dispositions.IsOpen places.2 then .ok dispositions
      else do
        if ← contradictory first second context then
          return (dispositions.reject places.1 .contradictoryDeadlineRelation).reject places.2
            .contradictoryDeadlineRelation
        else return dispositions
  | _, _ => .error .panicked

/-- The places of the deadline changes that are not rejected so far. -/
def deadlineChangeIndices (claims : List Claim) (dispositions : Dispositions) : List ℕ :=
  (List.range claims.length).filter fun index =>
    dispositions.IsOpen index ∧ claims[index]?.map (·.claimType) = some .deadlineChange

/-- The claims that are neither duplicates nor of undisclosed messages. -/
def rejectSingly (claims : List Claim) (dispositions : Dispositions) : Dispositions :=
  (List.range claims.length).foldl (rejectUndisclosed claims)
    ((List.range claims.length).foldl (rejectDuplicate claims) dispositions)

/-- Step 9 of the validation. -/
def applyStep9Consistency (claims : List Claim) (dispositions : Dispositions)
    (context : SuppliedContext) : Checked Dispositions :=
  let dispositions := rejectSingly claims dispositions
  (PairingOff.pairsOf (deadlineChangeIndices claims dispositions)).foldlM
    (rejectContradictory claims context) dispositions

/-! ### Validation -/

inductive RoutingDecision where
  | reviewRequired

def route : ClaimType → RoutingDecision
  | .request | .promise | .attribution | .question | .deadlineChange | .possibleClosure
  | .delegation | .modification => .reviewRequired

/-- The reason to reject a claim, if there is one. -/
def rejectionOf (claim : Claim) (context : SuppliedContext) :
    Checked (Option ClaimRejectionReason) :=
  match checkSteps4To8 claim context with
  | .ok () => .ok none
  | .error (.error reason) => .ok (some reason)
  | .error .panicked => .error .panicked

def verdictOf (claim : Claim) (rejection : Option ClaimRejectionReason) : ClaimVerdict where
  claimType := claim.claimType
  disposition := match rejection with
    | some reason => .reject reason
    | none => match route claim.claimType with
      | .reviewRequired => .acceptForReview

/-- Validate an answer of a model; `fromStr` is the document of a text, when it is one. -/
def validate (fromStr : String → Option Json) (bytes : Bytes) (context : SuppliedContext) :
    Checked AnalysisResult :=
  match parseAnalysisOutput fromStr bytes with
  | .error _ => .ok .analysisUnavailable
  | .ok output => do
      let dispositions ← output.claims.mapM (rejectionOf · context)
      let dispositions ← applyStep9Consistency output.claims dispositions context
      return .reviewed (List.zipWith verdictOf output.claims dispositions)

end Inference
