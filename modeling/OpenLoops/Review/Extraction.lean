import Mathlib.Algebra.Order.Floor.Semiring
import Mathlib.Data.Rat.Floor
import OpenLoops.Library.JsonText
import OpenLoops.Review.Coverage

/-!
# Extraction by a decision model

A decision model may read the conversations in place of a chat model.  It is asked about each
paragraph by itself: whether it states an obligation, of what kind, who waits for it and when it is
due.  The claims of a conversation are put together in a document, as a chat model would give it; a
conversation with an answer in doubt goes to the chat model instead.
-/

namespace Review

open Contracts Inference

/-! ### What is offered -/

def extractClaimTypeId : String :=
  "extract.claim_type"

def extractWaitingPartyId : String :=
  "extract.waiting_party"

def extractTemporalId : String :=
  "extract.temporal"

/-- The choice that none of the offered ones applies. -/
def extractNone : String :=
  "none"

/-- The greatest number of options of a choice. -/
def maxChoiceOptions : ℕ := 255

/-- One option is always that none applies. -/
def maxExtractionOptions : ℕ :=
  maxChoiceOptions - 1

/-- A date that a paragraph may speak of; its value is written with four digits for the year and two
each for the month and the day. -/
structure TemporalCandidate where
  handle : String
  value : String
  value_length : value.length = 10

section

variable (toLowercase : List Char → List Char)

/-- The participant is the user. -/
def participantIsUser (block : CanonicalBlock) (ownAddresses : List String) : Bool :=
  (waitingPartyAddress toLowercase block.asString).any fun address =>
    ownAddresses.any fun own => eqIgnoreAsciiCase own.toList address.toList

/-- The handles of the participants of a message. -/
def messageParticipantHandles (message : ConversationMessage) : List ParticipantHandle :=
  let recipients (name : String) (blocks : List CanonicalBlock) (slot : ℕ → ParticipantSlot) :=
    blocks.zipIdx.map fun entry => {
      handle := message.handle ++ name ++ toString entry.2
      messageHandle := message.handle
      slot := slot entry.2
      isUser := participantIsUser toLowercase entry.1 message.ownAddresses : ParticipantHandle }
  (message.message.sender.toList.map fun _ => {
      handle := message.handle ++ "-sender"
      messageHandle := message.handle
      slot := .sender
      isUser := message.fromUser : ParticipantHandle })
    ++ recipients "-to-" message.message.«to» .«to» ++ recipients "-cc-" message.message.cc .cc

def governedParticipantHandles (conversation : List ConversationMessage) :
    List ParticipantHandle :=
  conversation.flatMap (messageParticipantHandles toLowercase)

/-- The participants who may wait for what a paragraph of the conversation says. -/
def extractionWaitingPartyOptions (conversation : List ConversationMessage) : List String :=
  ((governedParticipantHandles toLowercase conversation).take maxExtractionOptions).map (·.handle)

/-- The participants that are offered for a message: those of its conversation among the selected
messages. -/
def extractionWaitingPartyCatalog (selected : List ReviewMessage) (message : ReviewMessage) :
    List String :=
  extractionWaitingPartyOptions toLowercase
    ((inTime (selected.filter fun other => other.key = message.key)).map (·.input))

end

/-! ### Answers -/

/-- The claim of a paragraph, as far as the decision model gives it. -/
structure ExtractedClaimFields where
  claimType : ClaimType
  /-- The probability of the type that was chosen. -/
  confidence : ℚ
  waitingPartyHandle : Option String
  waitingPartyAmbiguous : Bool
  temporalValue : Option String
  temporalAmbiguous : Bool

/-- What is made of the answer to a paragraph. -/
inductive ClaimTypeOutcome where
  | confident (fields : ExtractedClaimFields)
  | gray
  | noClaim

structure ExtractionAnswer where
  triage : ParagraphTriage
  claim : ClaimTypeOutcome

section

variable (registry : Registry)

/-- The option that is chosen with enough weight, unless it is none of them. -/
def classifyChoice {α : Type} (id : String) (answers : Answers) (option : String → Option α) :
    Except ProviderError (Option α × Bool) :=
  match answers.lookup id with
  | some (.choice choice _ confidence) =>
      if registry.accept id ≤ confidence ∧ choice ≠ extractNone then
        match option choice with
        | some value => .ok (some value, false)
        | none => .error .invalidResponse
      else .ok (none, true)
  | _ => .error .invalidResponse

def classifyWaitingParty (answers : Answers) (options : List String) :
    Except ProviderError (Option String × Bool) :=
  classifyChoice registry extractWaitingPartyId answers fun choice =>
    options.find? (· = choice)

def classifyTemporal (answers : Answers) (candidates : List TemporalCandidate) :
    Except ProviderError (Option String × Bool) :=
  if candidates.isEmpty then .ok (none, false)
  else classifyChoice registry extractTemporalId answers fun choice =>
    (candidates.find? fun candidate => candidate.handle = choice).map (·.value)

def claimTypeFromChoice (choice : String) : Except ProviderError ClaimType :=
  if choice = "request" then .ok .request
  else if choice = "promise" then .ok .promise
  else if choice = "question" then .ok .question
  else if choice = "attribution" then .ok .attribution
  else if choice = "delegation" then .ok .delegation
  else .error .invalidResponse

def classifyClaimType (answers : Answers) (waitingParty : List String)
    (temporal : List TemporalCandidate) : Except ProviderError ClaimTypeOutcome :=
  match answers.lookup extractClaimTypeId with
  | some (.choice choice probabilities confidence) =>
      if registry.escalate extractClaimTypeId ≤ confidence
          ∧ confidence < registry.accept extractClaimTypeId then .ok .gray
      else if confidence < registry.accept extractClaimTypeId ∨ choice = extractNone then
        .ok .noClaim
      else do
        let claimType ← claimTypeFromChoice choice
        let probability ←
          match probabilities.lookup choice with
          | some probability => .ok probability
          | none => .error .invalidResponse
        let (waitingPartyHandle, waitingPartyAmbiguous) ←
          classifyWaitingParty registry answers waitingParty
        let (temporalValue, temporalAmbiguous) ← classifyTemporal registry answers temporal
        return .confident {
          claimType
          confidence := probability
          waitingPartyHandle
          waitingPartyAmbiguous :=
            waitingPartyAmbiguous && (claimType = .request || claimType = .question)
          temporalValue
          temporalAmbiguous }
  | _ => .error .invalidResponse

/-- What is made of the answers to the questions on a paragraph. -/
def extractionAnswer (answers : Answers) (waitingParty : List String)
    (temporal : List TemporalCandidate) : Except ProviderError ExtractionAnswer := do
  let claim ← classifyClaimType registry answers waitingParty temporal
  return { triage := classifyTriage registry answers, claim }

end

/-! ### Claims -/

/-- The nearest whole number, and the even one of two. -/
def roundHalfEven (q : ℚ) : ℤ :=
  let floor := ⌊q⌋
  if q - floor < 1 / 2 then floor
  else if 1 / 2 < q - floor then floor + 1
  else if floor % 2 = 0 then floor
  else floor + 1

/-- A confidence in millionths. -/
def confidenceMicros (confidence : ℚ) : ℕ :=
  (roundHalfEven (max 0 (min confidence 1) * 1000000)).toNat

/-- The names of what is ambiguous about a claim. -/
def extractionAmbiguityCodes (fields : ExtractedClaimFields) : List AmbiguityCode :=
  (if fields.waitingPartyAmbiguous then [.identity] else [])
    ++ if fields.temporalAmbiguous then [.deadline] else []

/-- The claim of a paragraph, which cites all of it. -/
def extractionClaimJson (message : ConversationMessage) (ordinal : ℕ)
    (fields : ExtractedClaimFields) : Json :=
  .object [
    ("claim_type", .string fields.claimType.name),
    ("evidence", .array [.object [
      ("source_handle", .string message.handle),
      ("component", .string "body_block"),
      ("block_ordinal", unsigned ordinal),
      ("range_start", unsigned 0),
      ("range_end",
        unsigned ((message.message.bodyBlocks[ordinal]?.map (·.scalarLen)).getD 0))]]),
    ("waiting_party_handle", (fields.waitingPartyHandle.map Json.string).getD .null),
    ("related_loop_handles", .array []),
    ("temporal", (fields.temporalValue.map fun value => .object [
      ("text_evidence_index", unsigned 0),
      ("kind", .string "date"),
      ("value", .string value)]).getD .null),
    ("confidence_micros", unsigned (confidenceMicros fields.confidence)),
    ("ambiguity_codes", .array ((extractionAmbiguityCodes fields).map fun code =>
      .string code.name))]

/-! ### Outcomes -/

/-- The answers of the pass, for the triage and for the conversations. -/
structure ExtractionOutcome where
  triage : TriageResult
  /-- The claims that cite a message, by its handle. -/
  claimsByHandle : Table String (List Json)
  /-- The messages of the conversations that go to the chat model. -/
  needsChatHandles : Finset String
  decisionExtractedConversations : ℕ
  chatEscalatedConversations : ℕ

/-- The outcomes so far: the claims, the conversations that go to the chat model, and all of them. -/
structure ExtractionCollection where
  claimsByHandle : Table String (List Json)
  needsChat : Finset ConversationKey
  allConversations : Finset ConversationKey

/-- The outcome of a paragraph that is not of a skipped conversation is added. -/
def ExtractionCollection.add (collection : ExtractionCollection) (message : ReviewMessage)
    (ordinal : ℕ) (outcome : JobOutcome ExtractionAnswer) : ExtractionCollection :=
  let collection :=
    { collection with allConversations := insert message.key collection.allConversations }
  let escalated := { collection with needsChat := insert message.key collection.needsChat }
  match outcome with
  | .completed (.ok answer) =>
      match answer.claim with
      | .gray => escalated
      | .confident fields =>
          { collection with
            claimsByHandle := collection.claimsByHandle.alter message.input.handle fun claims =>
              claims.getD [] ++ [extractionClaimJson message.input ordinal fields] }
      | .noClaim => collection
  | .completed (.error .cancelled) | .notStarted => collection
  | .completed (.error _) | .panicked => escalated

/-- The outcome at a place is added, unless its conversation is skipped. -/
def collectExtraction (selected : List ReviewMessage) (skipped : Finset ConversationKey)
    (collection : ExtractionCollection) (entry : ℕ × JobOutcome ExtractionAnswer) :
    ExtractionCollection :=
  match (triageJobs selected)[entry.1]? with
  | some (index, ordinal) =>
      match selected[index]? with
      | some message =>
          if message.key ∈ skipped then collection else collection.add message ordinal entry.2
      | none => collection
  | none => collection

def collectExtractions (selected : List ReviewMessage) (skipped : Finset ConversationKey)
    (outcomes : JobResults ExtractionAnswer) : ExtractionCollection :=
  outcomes.foldl (collectExtraction selected skipped) ⟨.empty, ∅, ∅⟩

def partitionExtractionOutcomes (selected : List ReviewMessage)
    (outcomes : JobResults ExtractionAnswer) : ExtractionOutcome :=
  let triage := collectTriageResults selected (triageJobs selected)
    (outcomes.map fun entry => (entry.1, entry.2.map (·.triage)))
  let collection := collectExtractions selected triage.skipped outcomes
  let chatEscalated := (collection.needsChat ∩ collection.allConversations).card
  { triage
    claimsByHandle := collection.claimsByHandle
    needsChatHandles := ((selected.filter fun message =>
      message.key ∈ collection.needsChat).map (·.input.handle)).toFinset
    decisionExtractedConversations := collection.allConversations.card - chatEscalated
    chatEscalatedConversations := chatEscalated }

/-- The outcome with what is made of its answer, which may be an error. -/
def JobOutcome.check {α β : Type} (f : α → Except ProviderError β) : JobOutcome α → JobOutcome β
  | .completed result => .completed (result.bind f)
  | .panicked => .panicked
  | .notStarted => .notStarted

section

variable (toLowercase : List Char → List Char) (registry : Registry)
  (candidates : ConversationMessage → ℕ → List TemporalCandidate)

/-- What a job makes of the answers to its paragraph. -/
def extractionJob (selected : List ReviewMessage) (slot : ℕ) (answers : Answers) :
    Except ProviderError ExtractionAnswer :=
  match (triageJobs selected)[slot]? with
  | some (index, ordinal) =>
      match selected[index]? with
      | some message => extractionAnswer registry answers
          (extractionWaitingPartyCatalog toLowercase selected message)
          (candidates message.input ordinal)
      | none => .error .invalidQuestion
  | none => .error .invalidQuestion

/-- The outcomes of the jobs, from the answers of the decision model. -/
def extractionOutcomes (selected : List ReviewMessage) (outcomes : JobResults Answers) :
    JobResults ExtractionAnswer :=
  outcomes.map fun entry => (entry.1,
    entry.2.check (extractionJob toLowercase registry candidates selected entry.1))

/-- The extraction from the selected messages: a pass with one request for each paragraph that is
offered, whose end is given. -/
def extractionPass (selected : List ReviewMessage) (s : Pass Answers) : ExtractionOutcome :=
  partitionExtractionOutcomes selected
    (extractionOutcomes toLowercase registry candidates selected s.results)

end

/-! ### Documents -/

/-- The greatest size of an answer. -/
def maxResponse : ℕ := 262144

/-- The text that a fence marks as JSON, when there is a fence. -/
def stripFence (text : List Char) : Option (List Char) :=
  ["\x60\x60\x60json\n", "\x60\x60\x60json\r\n", "\x60\x60\x60\n"].findSome? fun fence =>
    if fence.toList <+: text then some (text.drop fence.length) else none

/-- The document in an answer, which may be fenced. -/
def jsonDocument (bytes : Bytes) : Except ProviderError Bytes :=
  if maxResponse < bytes.length then .error .responseTooLarge
  else match Wire.ofUtf8 bytes with
    | none => .error .invalidJson
    | some text =>
        let text := trim text.toList
        match stripFence text with
        | some fenced =>
            if "\x60\x60\x60".toList <:+ fenced then
              .ok (Wire.utf8 (String.ofList (trim (fenced.take (fenced.length - 3)))))
            else .error .invalidJson
        | none => .ok (Wire.utf8 (String.ofList text))

def parseError : ParseRejection → ProviderError
  | .responseTooLarge => .responseTooLarge
  | .invalidUtf8 | .invalidJson => .invalidJson
  | .invalidSchema => .invalidSchema

/-- The items of a document; `review` is what is made of one that is well formed. -/
def claimAnalysisFromDocument (fromStr : String → Option Json)
    (review : AnalysisOutput → List ConversationMessage → Except ProviderError LoopItems)
    (bytes : Bytes) (conversation : List ConversationMessage) :
    Except ProviderError LoopItems := do
  let bytes ← jsonDocument bytes
  match parseAnalysisOutput fromStr bytes with
  | .ok output => review output conversation
  | .error rejection => .error (parseError rejection)

/-- The claims of a conversation, in the order of its messages. -/
def ExtractionOutcome.claims (extraction : ExtractionOutcome)
    (conversation : List ConversationMessage) : List Json :=
  conversation.flatMap fun message => (extraction.claimsByHandle.get? message.handle).getD []

/-- The conversation goes to the chat model. -/
def ExtractionOutcome.needsChat (extraction : ExtractionOutcome)
    (conversation : List ConversationMessage) : Bool :=
  conversation.any fun message => message.handle ∈ extraction.needsChatHandles

/-- The document of the claims. -/
def extractionDocument (claims : List Json) : Json :=
  .object [("schema_version", unsigned 1), ("claims", .array claims)]

def emptyItems : LoopItems where
  items := []
  rejected := 0
  rejectionReasons := []
  degraded := 0

section

variable (floatText : UInt64 → String) (fromStr : String → Option Json)
  (review : AnalysisOutput → List ConversationMessage → Except ProviderError LoopItems)

/-- The bytes of the document of the claims. -/
def documentBytes (claims : List Json) : Bytes :=
  Wire.utf8 (String.ofList ((extractionDocument claims).print floatText))

/-- The items of a conversation: those of its claims, unless it goes to the chat model. -/
def extractionAssembleOrEscalate
    (chat : List ConversationMessage → Except ProviderError LoopItems)
    (conversation : List ConversationMessage) (extraction : ExtractionOutcome) :
    Except ProviderError LoopItems :=
  if extraction.needsChat conversation then chat conversation
  else
    let claims := extraction.claims conversation
    if claims.isEmpty then .ok emptyItems
    else claimAnalysisFromDocument fromStr review (documentBytes floatText claims) conversation

end

/-- What is said about the extraction. -/
def extractionCoverageNote (extraction : ExtractionOutcome) : String :=
  toString extraction.decisionExtractedConversations
    ++ " conversations extracted by the decision model, "
    ++ toString extraction.chatEscalatedConversations
    ++ " sent to the chat model (gray band / errors)."

/-- The message as it is analyzed. -/
def ReviewMessage.analysisInput (message : ReviewMessage) : ConversationMessage :=
  { message.input with
    userDisplayName := message.ownDisplayName
    userGivenName := message.ownGivenName }

end Review
