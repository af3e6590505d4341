import Mathlib.Data.Finset.Insert
import Mathlib.Data.Finset.Union
import OpenLoops.Contracts.AnalysisOutput
import OpenLoops.Domain.DeadlineParse
import OpenLoops.Library.Fallible
import OpenLoops.Library.Text

/-!
# Projections of conversations

A conversation is sent to a model as a projection: the blocks of its messages, without the body
blocks that are to be omitted, and without the quotes of texts that were there before.
-/

namespace Inference

open Contracts

/-- Why a provider of a model gave no analysis. -/
inductive ProviderError where
  | invalidKey
  | unauthorized
  | inputUnavailable
  | timeout
  | network
  | rateLimited
  | quota
  | creditsInFlight
  | requestRejected (status : UInt16)
  | serverError (status : UInt16)
  | modelUnavailable
  | invalidQuestion
  | invalidResponse
  | outputTruncated
  | inputTooLarge
  | responseTooLarge
  | invalidAnalysis
  | invalidJson
  | invalidSchema
  | cancelled
deriving DecidableEq, Repr

/-! ### Messages -/

/-- The greatest number of characters of a block. -/
def maxScalarsPerBlock : ℕ := 1048576

/-- A text of limited size. -/
structure CanonicalBlock where
  scalars : List Char
  bounded : scalars.length ≤ maxScalarsPerBlock

def CanonicalBlock.scalarLen (block : CanonicalBlock) : ℕ :=
  block.scalars.length

def CanonicalBlock.asString (block : CanonicalBlock) : String :=
  String.ofList block.scalars

/-- The blocks of a message. -/
structure CanonicalMessage where
  subject : CanonicalBlock
  bodyBlocks : List CanonicalBlock
  quoteBlocks : List CanonicalBlock
  sender : Option CanonicalBlock
  «to» : List CanonicalBlock
  cc : List CanonicalBlock
  attachmentNames : List CanonicalBlock
  linkLabels : List CanonicalBlock

/-- A message of a conversation, with the handle under which it is sent. -/
structure MessageContext where
  handle : String
  message : CanonicalMessage
  temporalContext : Domain.ParseContext
  fromUser : Bool
  toUser : Bool
  ccUser : Bool

/-- A place where a message names a participant. -/
inductive ParticipantSlot where
  | sender
  | «to» (index : ℕ)
  | cc (index : ℕ)

/-- The handle of a participant. -/
structure ParticipantHandle where
  handle : String
  messageHandle : String
  slot : ParticipantSlot
  isUser : Bool

/-- The user, as far as the model is told. -/
structure UserIdentity where
  handle : String
  displayName : Option String
  givenName : Option String

/-- What is supplied to a model. -/
structure SuppliedContext where
  user : UserIdentity
  messages : List MessageContext
  participants : List ParticipantHandle
  loopCandidateHandles : List String

/-- The block of a message that evidence cites. -/
def resolveBlock (message : CanonicalMessage) (component : EvidenceComponent)
    (blockOrdinal : UInt16) : Option CanonicalBlock :=
  let ordinal := blockOrdinal.toNat
  match component with
  | .subject => if ordinal = 0 then some message.subject else none
  | .bodyBlock => message.bodyBlocks[ordinal]?
  | .quoteBlock => message.quoteBlocks[ordinal]?
  | .sender => if ordinal = 0 then message.sender else none
  | .«to» => message.«to»[ordinal]?
  | .cc => message.cc[ordinal]?
  | .attachmentName => message.attachmentNames[ordinal]?
  | .linkLabel => message.linkLabels[ordinal]?

/-! ### Blocks of a projection -/

/-- The greatest size of the texts of a projection. -/
def maxRequest : ℕ := 524288

def maxConversationMessages : ℕ := 40

/-- A block as it is sent. -/
structure ProjectedBlock where
  component : EvidenceComponent
  blockOrdinal : ℕ
  scalarLength : ℕ
  text : String
deriving DecidableEq

/-- A number that is not negative. -/
def unsigned (n : ℕ) : Json :=
  .number (.posInt (UInt64.ofNat n))

def ProjectedBlock.json (block : ProjectedBlock) : Json :=
  .object [
    ("component", .string block.component.name),
    ("block_ordinal", unsigned block.blockOrdinal),
    ("scalar_length", unsigned block.scalarLength),
    ("text", .string block.text)]

/-- The text of a block with single spaces between its words. -/
def normalizedText (block : CanonicalBlock) : String :=
  String.ofList ([' '].intercalate (splitWhitespace block.scalars))

/-- The blocks that were pushed, and the size of all texts so far. -/
structure Pushed where
  blocks : List ProjectedBlock
  textBytes : ℕ

def pushProjectedBlock (component : EvidenceComponent) (ordinal : ℕ) (block : CanonicalBlock)
    (pushed : Pushed) : Except ProviderError Pushed :=
  let text := block.asString
  let textBytes := pushed.textBytes + text.utf8ByteSize
  if maxRequest < textBytes then .error .inputTooLarge
  else .ok {
    blocks := pushed.blocks ++ [⟨component, ordinal, block.scalarLen, text⟩], textBytes }

def validateBlockSizes (message : CanonicalMessage) : Except ProviderError Unit :=
  if [[message.subject], message.bodyBlocks, message.quoteBlocks, message.sender.toList,
      message.«to», message.cc, message.attachmentNames, message.linkLabels].any
      fun items => items.any fun block => 8192 < block.scalarLen then
    .error .inputTooLarge
  else .ok ()

/-- Push one body block, unless it is to be omitted. -/
def pushBodyBlock (omitted : Finset ℕ) (pushed : Pushed) (item : CanonicalBlock × ℕ) :
    Except ProviderError Pushed :=
  if item.2 ∈ omitted then .ok pushed
  else pushProjectedBlock .bodyBlock item.2 item.1 pushed

/-- Push one quote block, unless its text was there before. -/
def pushQuoteBlock (earlierBodyText : Finset String) (state : Pushed × Finset String)
    (item : CanonicalBlock × ℕ) : Except ProviderError (Pushed × Finset String) :=
  let (pushed, emittedQuoteText) := state
  let normalized := normalizedText item.1
  if normalized ∈ earlierBodyText ∨ normalized ∈ emittedQuoteText then .ok state
  else do
    let pushed ← pushProjectedBlock .quoteBlock item.2 item.1 pushed
    return (pushed, insert normalized emittedQuoteText)

/-- Push all blocks of a component. -/
def pushItems (component : EvidenceComponent) (items : List CanonicalBlock) (pushed : Pushed) :
    Except ProviderError Pushed :=
  items.zipIdx.foldlM (fun pushed item => pushProjectedBlock component item.2 item.1 pushed)
    pushed

/-- The blocks of a message, with the texts of quotes that were emitted and the size of all texts
so far. -/
def projectedMessageBlocks (message : CanonicalMessage) (omitted : Finset ℕ)
    (earlierBodyText emittedQuoteText : Finset String) (textBytes : ℕ) :
    Except ProviderError (List ProjectedBlock × Finset String × ℕ) := do
  validateBlockSizes message
  let pushed ← pushProjectedBlock .subject 0 message.subject ⟨[], textBytes⟩
  let pushed ← message.bodyBlocks.zipIdx.foldlM (pushBodyBlock omitted) pushed
  let (pushed, emittedQuoteText) ←
    message.quoteBlocks.zipIdx.foldlM (pushQuoteBlock earlierBodyText) (pushed, emittedQuoteText)
  let pushed ← pushItems .sender message.sender.toList pushed
  let pushed ← pushItems .«to» message.«to» pushed
  let pushed ← pushItems .cc message.cc pushed
  let pushed ← pushItems .attachmentName message.attachmentNames pushed
  let pushed ← pushItems .linkLabel message.linkLabels pushed
  return (pushed.blocks, emittedQuoteText, pushed.textBytes)

/-! ### Projections -/

def validHandle (handle : String) : Bool :=
  handle ≠ "" && handle.utf8ByteSize ≤ 128
    && handle.toList.all fun c => c.isAlphanum || c = '_' || c = '-'

/-- What the loop over the messages has so far. -/
structure ProjectionState where
  projections : List (List ProjectedBlock)
  textBytes : ℕ
  sourceHandles : Finset String
  earlierBodyText : Finset String
  emittedQuoteText : Finset String

/-- Project one message more. -/
def projectMessage (omittedBodyBlocks : String → Finset ℕ) (state : ProjectionState)
    (source : MessageContext) : Except ProviderError ProjectionState := do
  if !validHandle source.handle || source.handle ∈ state.sourceHandles then
    .error .invalidAnalysis
  else
    let message := source.message
    if 64 < 1 + message.bodyBlocks.length + message.quoteBlocks.length
        ∨ 500 < message.sender.toList.length + message.«to».length + message.cc.length
        ∨ 256 < message.attachmentNames.length ∨ 256 < message.linkLabels.length then
      .error .inputTooLarge
    else
      let (blocks, emittedQuoteText, textBytes) ← projectedMessageBlocks message
        (omittedBodyBlocks source.handle) state.earlierBodyText state.emittedQuoteText
        state.textBytes
      return {
        projections := state.projections ++ [blocks]
        textBytes
        sourceHandles := insert source.handle state.sourceHandles
        earlierBodyText := state.earlierBodyText ∪ (message.bodyBlocks.map normalizedText).toFinset
        emittedQuoteText }

def projectMessages (omittedBodyBlocks : String → Finset ℕ) (messages : List MessageContext) :
    Except ProviderError ProjectionState :=
  messages.foldlM (projectMessage omittedBodyBlocks) ⟨[], 0, ∅, ∅, ∅⟩

/-- A participant as it is sent, with the handles that were seen. -/
def projectParticipant (messages : List MessageContext) (state : List Json × Finset String)
    (participant : ParticipantHandle) : Except ProviderError (List Json × Finset String) := do
  let (projections, seen) := state
  if !validHandle participant.handle || participant.handle ∈ seen then .error .invalidAnalysis
  else
    let source ← (messages.find? fun source => source.handle = participant.messageHandle).okOr
      ProviderError.invalidAnalysis
    let message := source.message
    let (component, ordinal, found) : EvidenceComponent × ℕ × Bool :=
      match participant.slot with
      | .sender => (.sender, 0, message.sender.isSome)
      | .«to» index => (.«to», index, index < message.«to».length)
      | .cc index => (.cc, index, index < message.cc.length)
    if !found then .error .invalidAnalysis
    else
      return (projections ++ [.object [
        ("handle", .string participant.handle),
        ("source_handle", .string participant.messageHandle),
        ("component", .string component.name),
        ("block_ordinal", unsigned ordinal),
        ("is_user", .bool participant.isUser)]], insert participant.handle seen)

def participantProjections (context : SuppliedContext) : Except ProviderError (List Json) := do
  if maxConversationMessages * 500 < context.participants.length then .error .inputTooLarge
  else
    let (projections, _) ←
      context.participants.foldlM (projectParticipant context.messages) ([], ∅)
    return projections

/-- The handles of loops, with those that were seen and the size of all texts so far. -/
def checkLoopHandle (state : Finset String × ℕ) (handle : String) :
    Except ProviderError (Finset String × ℕ) :=
  let (seen, textBytes) := state
  if !validHandle handle || handle ∈ seen then .error .invalidAnalysis
  else if maxRequest < textBytes + handle.utf8ByteSize then .error .inputTooLarge
  else .ok (insert handle seen, textBytes + handle.utf8ByteSize)

def optionalString : Option String → Json
  | some s => .string s
  | none => .null

def MessageContext.json (source : MessageContext) (blocks : List ProjectedBlock) : Json :=
  .object [
    ("source_handle", .string source.handle),
    ("from_user", .bool source.fromUser),
    ("to_user", .bool source.toUser),
    ("cc_user", .bool source.ccUser),
    ("blocks", .array (blocks.map ProjectedBlock.json))]

/-- The document that is sent. -/
def payload (context : SuppliedContext) (projections : List (List ProjectedBlock))
    (participants : List Json) : Json :=
  .object [
    ("user", .object [
      ("handle", .string context.user.handle),
      ("display_name", optionalString context.user.displayName),
      ("given_name", optionalString context.user.givenName)]),
    ("messages", .array (List.zipWith MessageContext.json context.messages projections)),
    ("participant_handles", .array participants),
    ("related_loop_handles", .array (context.loopCandidateHandles.map .string))]

/-- A document with its size before it. -/
def framed (data : String) : String :=
  "UNTRUSTED_JSON_UTF8_BYTES=" ++ toString data.utf8ByteSize ++ "\n" ++ data

/-- The instructions to the model, and the framed document: `jsonToString` writes it. -/
def projectionOmitting (instructions schema : String) (jsonToString : Json → Option String)
    (context : SuppliedContext) (omittedBodyBlocks : String → Finset ℕ) :
    Except ProviderError (String × String) := do
  if !validHandle context.user.handle then .error .invalidAnalysis
  else if context.messages = [] ∨ maxConversationMessages < context.messages.length then
    .error .inputTooLarge
  else
    let state ← projectMessages omittedBodyBlocks context.messages
    let participants ← participantProjections context
    let _ ← context.loopCandidateHandles.foldlM checkLoopHandle (∅, state.textBytes)
    let data ← (jsonToString (payload context state.projections participants)).okOr
      ProviderError.invalidResponse
    return (instructions ++ "\n" ++ schema, framed data)

end Inference
