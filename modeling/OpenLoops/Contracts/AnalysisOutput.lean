import OpenLoops.Library.Json
import OpenLoops.Library.Wire

/-!
# The output of an analysis

An analysis answers with one document.  It is parsed in passes: its size, its text, its syntax,
the names of the members of its objects, its shape, and the bounds of its values.
-/

namespace Contracts

/-! ### Bounds -/

def maximumResponseBytes : ℕ := 262144

def maximumClaims : ℕ := 64

def minimumEvidencePerClaim : ℕ := 1

def maximumEvidencePerClaim : ℕ := 8

def maximumRelatedLoopHandles : ℕ := 8

def maximumAmbiguityCodes : ℕ := 8

def minimumOpaqueHandleChars : ℕ := 1

def maximumOpaqueHandleChars : ℕ := 128

def minimumTemporalValueChars : ℕ := 1

def maximumTemporalValueChars : ℕ := 256

def maximumConfidenceMicros : UInt32 := 1000000

def maximumTextEvidenceIndex : UInt8 := 7

def schemaVersion : UInt32 := 1

/-! ### Catalogs -/

/-- What a claim is about. -/
inductive ClaimType where
  | request
  | promise
  | attribution
  | question
  | deadlineChange
  | possibleClosure
  | delegation
  | modification
deriving DecidableEq, Repr

/-- The part of a message that evidence is in. -/
inductive EvidenceComponent where
  | subject
  | bodyBlock
  | quoteBlock
  | sender
  | «to»
  | cc
  | attachmentName
  | linkLabel
deriving DecidableEq, Repr

/-- How a time is given. -/
inductive TemporalKind where
  | date
  | localDatetime
  | relative
  | eventRelative
  | softWindow
deriving DecidableEq, Repr

/-- What is ambiguous about a claim. -/
inductive AmbiguityCode where
  | quoteScope
  | identity
  | delegation
  | deadline
  | relation
  | crossMessage
  | insufficientContext
  | semanticConflict
deriving DecidableEq, Repr

/-- The types of claims. -/
def ClaimType.all : List ClaimType :=
  [request, promise, attribution, question, deadlineChange, possibleClosure, delegation,
    modification]

/-- The name of a type of claim. -/
def ClaimType.name : ClaimType → String
  | request => "request"
  | promise => "promise"
  | attribution => "attribution"
  | question => "question"
  | deadlineChange => "deadline_change"
  | possibleClosure => "possible_closure"
  | delegation => "delegation"
  | modification => "modification"

/-- The components of messages. -/
def EvidenceComponent.all : List EvidenceComponent :=
  [subject, bodyBlock, quoteBlock, sender, «to», cc, attachmentName, linkLabel]

/-- The name of a component. -/
def EvidenceComponent.name : EvidenceComponent → String
  | subject => "subject"
  | bodyBlock => "body_block"
  | quoteBlock => "quote_block"
  | sender => "sender"
  | «to» => "to"
  | cc => "cc"
  | attachmentName => "attachment_name"
  | linkLabel => "link_label"

/-- The kinds of times. -/
def TemporalKind.all : List TemporalKind :=
  [date, localDatetime, relative, eventRelative, softWindow]

/-- The name of a kind of time. -/
def TemporalKind.name : TemporalKind → String
  | date => "date"
  | localDatetime => "local_datetime"
  | relative => "relative"
  | eventRelative => "event_relative"
  | softWindow => "soft_window"

/-- The ambiguities. -/
def AmbiguityCode.all : List AmbiguityCode :=
  [quoteScope, identity, delegation, deadline, relation, crossMessage, insufficientContext,
    semanticConflict]

/-- The name of an ambiguity. -/
def AmbiguityCode.name : AmbiguityCode → String
  | quoteScope => "quote_scope"
  | identity => "identity"
  | delegation => "delegation"
  | deadline => "deadline"
  | relation => "relation"
  | crossMessage => "cross_message"
  | insufficientContext => "insufficient_context"
  | semanticConflict => "semantic_conflict"

/-! ### Values -/

/-- A value that may be written as null, but not left out. -/
inductive Nullable (T : Type*) where
  | null
  | value (t : T)
deriving DecidableEq, Repr

/-- It is a value for which the condition holds. -/
def Nullable.isValueWith {T : Type*} (condition : T → Bool) : Nullable T → Bool
  | .null => false
  | .value t => condition t

/-- A range of a source that supports a claim. -/
structure EvidenceRange where
  sourceHandle : String
  component : EvidenceComponent
  blockOrdinal : UInt16
  rangeStart : UInt32
  rangeEnd : UInt32
deriving DecidableEq, Repr

/-- A time that a claim gives. -/
structure TemporalHypothesis where
  textEvidenceIndex : UInt8
  kind : TemporalKind
  value : String
deriving DecidableEq, Repr

/-- A claim of an analysis. -/
structure Claim where
  claimType : ClaimType
  evidence : List EvidenceRange
  waitingPartyHandle : Nullable String
  relatedLoopHandles : List String
  temporal : Nullable TemporalHypothesis
  confidenceMicros : UInt32
  ambiguityCodes : List AmbiguityCode
deriving DecidableEq, Repr

/-- The output of an analysis. -/
structure AnalysisOutput where
  schemaVersion : UInt32
  claims : List Claim
deriving DecidableEq, Repr

/-! ### Deserialization -/

/-- Null, or what the type of the value takes from a string or an object. -/
def Nullable.deserialize {T : Type*} (deserialize : Json → Option T) : Json → Option (Nullable T)
  | .null => some .null
  | .string s => (deserialize (.string s)).map .value
  | .object members => (deserialize (.object members)).map .value
  | .bool _ | .number _ | .array _ => none

def EvidenceRange.deserialize (d : Json) : Option EvidenceRange := do
  let members ← d.readStruct
    ["source_handle", "component", "block_ordinal", "range_start", "range_end"]
  pure {
    sourceHandle := ← Json.readMember members "source_handle" Json.readString
    component := ← Json.readMember members "component"
      (Json.readEnum EvidenceComponent.all EvidenceComponent.name)
    blockOrdinal := ← Json.readMember members "block_ordinal"
      (Json.readUnsigned UInt16.size UInt16.ofNat)
    rangeStart := ← Json.readMember members "range_start"
      (Json.readUnsigned UInt32.size UInt32.ofNat)
    rangeEnd := ← Json.readMember members "range_end"
      (Json.readUnsigned UInt32.size UInt32.ofNat)
  }

def TemporalHypothesis.deserialize (d : Json) : Option TemporalHypothesis := do
  let members ← d.readStruct ["text_evidence_index", "kind", "value"]
  pure {
    textEvidenceIndex := ← Json.readMember members "text_evidence_index"
      (Json.readUnsigned UInt8.size UInt8.ofNat)
    kind := ← Json.readMember members "kind" (Json.readEnum TemporalKind.all TemporalKind.name)
    value := ← Json.readMember members "value" Json.readString
  }

def Claim.deserialize (d : Json) : Option Claim := do
  let members ← d.readStruct ["claim_type", "evidence", "waiting_party_handle",
    "related_loop_handles", "temporal", "confidence_micros", "ambiguity_codes"]
  pure {
    claimType := ← Json.readMember members "claim_type"
      (Json.readEnum ClaimType.all ClaimType.name)
    evidence := ← Json.readMember members "evidence" (Json.readSeq EvidenceRange.deserialize)
    waitingPartyHandle := ← Json.readMember members "waiting_party_handle"
      (Nullable.deserialize Json.readString)
    relatedLoopHandles := ← Json.readMember members "related_loop_handles"
      (Json.readSeq Json.readString)
    temporal := ← Json.readMember members "temporal"
      (Nullable.deserialize TemporalHypothesis.deserialize)
    confidenceMicros := ← Json.readMember members "confidence_micros"
      (Json.readUnsigned UInt32.size UInt32.ofNat)
    ambiguityCodes := ← Json.readMember members "ambiguity_codes"
      (Json.readSeq (Json.readEnum AmbiguityCode.all AmbiguityCode.name))
  }

def AnalysisOutput.deserialize (d : Json) : Option AnalysisOutput := do
  let members ← d.readStruct ["schema_version", "claims"]
  pure {
    schemaVersion := ← Json.readMember members "schema_version"
      (Json.readUnsigned UInt32.size UInt32.ofNat)
    claims := ← Json.readMember members "claims" (Json.readSeq Claim.deserialize)
  }

/-! ### Repeated names -/

mutual

/-- No name is repeated among the members of an object, on any level. -/
def strictJson : Json → Bool
  | .null | .bool _ | .number _ | .string _ => true
  | .array elements => strictElements elements
  | .object members => strictMembers [] members

/-- `strictJson` for the elements of an array. -/
def strictElements : List Json → Bool
  | [] => true
  | d :: elements => strictJson d && strictElements elements

/-- `strictJson` for the members of an object, after those with the names seen. -/
def strictMembers (seenKeys : List String) : List (String × Json) → Bool
  | [] => true
  | (key, d) :: members =>
      !seenKeys.contains key && strictJson d && strictMembers (key :: seenKeys) members

end

/-! ### Checks of the bounds -/

/-- A character that a handle may have. -/
def isHandleCharacter (character : Char) : Bool :=
  character.isAlphanum || character == '_' || character == '-'

def isValidOpaqueHandle (handle : String) : Bool :=
  minimumOpaqueHandleChars ≤ handle.length && handle.length ≤ maximumOpaqueHandleChars
    && handle.toList.all isHandleCharacter

def isBoundedText (value : String) (minimumChars maximumChars : ℕ) : Bool :=
  minimumChars ≤ value.length && value.length ≤ maximumChars

/-- No value occurs among those before it. -/
def hasNoDuplicates {α : Type*} [BEq α] (seen : List α) : List α → Bool
  | [] => true
  | value :: values => !seen.contains value && hasNoDuplicates (value :: seen) values

def hasNoDuplicateStrings (values : List String) : Bool :=
  hasNoDuplicates [] values

def hasNoDuplicateAmbiguityCodes (values : List AmbiguityCode) : Bool :=
  hasNoDuplicates [] values

def EvidenceRange.satisfiesContractBounds (range : EvidenceRange) : Bool :=
  isValidOpaqueHandle range.sourceHandle && range.rangeEnd != 0

def TemporalHypothesis.satisfiesContractBounds (temporal : TemporalHypothesis) : Bool :=
  temporal.textEvidenceIndex ≤ maximumTextEvidenceIndex
    && isBoundedText temporal.value minimumTemporalValueChars maximumTemporalValueChars

def Claim.satisfiesContractBounds (claim : Claim) : Bool :=
  if claim.evidence.length < minimumEvidencePerClaim
      || maximumEvidencePerClaim < claim.evidence.length
      || !claim.evidence.all EvidenceRange.satisfiesContractBounds then false
  else if maximumRelatedLoopHandles < claim.relatedLoopHandles.length
      || !claim.relatedLoopHandles.all isValidOpaqueHandle
      || !hasNoDuplicateStrings claim.relatedLoopHandles then false
  else if claim.waitingPartyHandle.isValueWith (!isValidOpaqueHandle ·) then false
  else if claim.temporal.isValueWith (!·.satisfiesContractBounds) then false
  else if maximumConfidenceMicros < claim.confidenceMicros then false
  else claim.ambiguityCodes.length ≤ maximumAmbiguityCodes
    && hasNoDuplicateAmbiguityCodes claim.ambiguityCodes

def AnalysisOutput.satisfiesContractBounds (output : AnalysisOutput) : Bool :=
  output.schemaVersion == Contracts.schemaVersion && output.claims.length ≤ maximumClaims
    && output.claims.all Claim.satisfiesContractBounds

/-! ### Parsing -/

/-- Why an output is rejected. -/
inductive ParseRejection where
  | responseTooLarge
  | invalidUtf8
  | invalidJson
  | invalidSchema
deriving DecidableEq, Repr

/-- The output in an answer; `fromStr` is the document of a text, when it is one. -/
def parseAnalysisOutput (fromStr : String → Option Json) (bytes : Bytes) :
    Except ParseRejection AnalysisOutput :=
  if maximumResponseBytes < bytes.length then .error .responseTooLarge
  else match Wire.ofUtf8 bytes with
    | none => .error .invalidUtf8
    | some text => match fromStr text with
      | none => .error .invalidJson
      | some d =>
          if ¬strictJson d then .error .invalidSchema
          else match AnalysisOutput.deserialize d with
            | none => .error .invalidSchema
            | some output =>
                if output.satisfiesContractBounds then .ok output else .error .invalidSchema

/-- The document in an answer, whose names are distinct. -/
def parseStrictJson (fromStr : String → Option Json) (bytes : Bytes) : Except ParseRejection Json :=
  if maximumResponseBytes < bytes.length then .error .responseTooLarge
  else match Wire.ofUtf8 bytes with
    | none => .error .invalidUtf8
    | some text => match fromStr text with
      | none => .error .invalidJson
      | some d => if ¬strictJson d then .error .invalidSchema else .ok d

end Contracts
