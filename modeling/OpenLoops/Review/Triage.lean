import OpenLoops.Library.Table
import OpenLoops.Review.Item
import OpenLoops.Review.ParallelPass
import OpenLoops.Review.Rules

/-!
# Triage

Before the conversations are analyzed, a decision model is asked about each of their paragraphs, in
a pass of its own.  A conversation without any sign of an obligation is not analyzed, and paragraphs
that say nothing are left out of the others.
-/

namespace Review

open Inference

/-! ### Answers to paragraphs -/

/-- What the answers to a paragraph say of obligations. -/
inductive SignalBand where
  | signal
  | gray
  | negative
deriving DecidableEq

structure ParagraphTriage where
  signal : SignalBand
  boilerplate : Bool
  notification : Bool
deriving DecidableEq

def triageIds : List String :=
  ["triage.asks_recipient", "triage.commits_sender", "triage.asks_question", "triage.names_time",
    "triage.boilerplate", "triage.automated_notification"]

/-- The questions whose answers are signs of obligations. -/
def signalIds : List String :=
  triageIds.take 3

def triageProbability (answers : Answers) (id : String) : ℚ :=
  match answers.lookup id with
  | some (.noul probability) => probability
  | _ => 0

/-- The answer to the question is a yes of enough weight. -/
def accepts (registry : Registry) (answers : Answers) (id : String) : Bool :=
  registry.accept id ≤ triageProbability answers id

/-- Every question on obligations is answered by less than what would be asked about again. -/
def belowSignalEscalation (registry : Registry) (answers : Answers) : Bool :=
  signalIds.all fun id => triageProbability answers id < registry.escalate id

def signalBand (registry : Registry) (answers : Answers) : SignalBand :=
  if signalIds.any fun id => accepts registry answers id then .signal
  else if signalIds.any fun id => registry.escalate id ≤ triageProbability answers id
    && triageProbability answers id < registry.accept id then .gray
  else .negative

def classifyTriage (registry : Registry) (answers : Answers) : ParagraphTriage where
  signal := signalBand registry answers
  boilerplate := accepts registry answers "triage.boilerplate"
    && belowSignalEscalation registry answers
  notification := accepts registry answers "triage.automated_notification"

/-! ### The requests -/

/-- How many paragraphs of a message are offered. -/
def maxBodyBlocks : ℕ := 40

/-- The paragraphs that are offered: for each message, the first ones. -/
def triageJobs (messages : List ReviewMessage) : List (ℕ × ℕ) :=
  messages.zipIdx.flatMap fun entry =>
    (List.range (min entry.1.input.message.bodyBlocks.length maxBodyBlocks)).map fun ordinal =>
      (entry.2, ordinal)

/-! ### The results -/

structure TriageResult where
  skipped : Finset ConversationKey
  omittedBodyBlocks : Table String (Finset ℕ)
  boilerplateDropped : ℕ
  requestErrors : ℕ
  stopClassError : Bool
  cancelled : Bool

namespace TriageResult

/-- The result of no answers. -/
def initial : TriageResult where
  skipped := ∅
  omittedBodyBlocks := .empty
  boilerplateDropped := 0
  requestErrors := 0
  stopClassError := false
  cancelled := false

/-- The paragraph of the message with a handle is left out. -/
def Omits (result : TriageResult) (handle : String) (ordinal : ℕ) : Prop :=
  ∃ ordinals, result.omittedBodyBlocks.get? handle = some ordinals ∧ ordinal ∈ ordinals

end TriageResult

/-- What stands for the answer to a paragraph whose request failed. -/
def failedTriage : ParagraphTriage where
  signal := .signal
  boilerplate := false
  notification := false

/-- The results so far, and the paragraphs of each message. -/
structure TriageCollection where
  result : TriageResult
  classified : List (List ParagraphTriage)

/-- A paragraph of a message is added. -/
def TriageCollection.add (messages : List ReviewMessage) (collection : TriageCollection)
    (job : ℕ × ℕ) (paragraph : ParagraphTriage) : TriageCollection where
  result :=
    match messages[job.1]? with
    | some message =>
        if paragraph.boilerplate then
          { collection.result with
            omittedBodyBlocks := collection.result.omittedBodyBlocks.alter message.input.handle
              fun ordinals => insert job.2 (ordinals.getD ∅)
            boilerplateDropped := collection.result.boilerplateDropped + 1 }
        else collection.result
    | none => collection.result
  classified := collection.classified.modify job.1 (· ++ [paragraph])

/-- What an outcome adds to the results. -/
def collectOutcome (messages : List ReviewMessage) (collection : TriageCollection) (job : ℕ × ℕ) :
    JobOutcome ParagraphTriage → TriageCollection
  | .completed (.ok paragraph) => collection.add messages job paragraph
  | .completed (.error .cancelled) =>
      { collection with result := { collection.result with cancelled := true } }
  | .completed (.error error) =>
      { collection with
        result := { collection.result with
          requestErrors := collection.result.requestErrors + 1
          stopClassError := collection.result.stopClassError || isStopError error } }.add messages
        job failedTriage
  | .panicked =>
      { collection with
        result := { collection.result with
          requestErrors := collection.result.requestErrors + 1 } }.add messages job failedTriage
  | .notStarted => collection

/-- The places of the messages of each conversation. -/
def conversationPlaces (messages : List ReviewMessage) : Table ConversationKey (List ℕ) :=
  Table.group (fun entry : ReviewMessage × ℕ => entry.1.key) []
    (fun places entry => places ++ [entry.2]) messages.zipIdx

/-- The conversations that have no sign of an obligation, or notifications alone. -/
def skippedTriageConversations (messages : List ReviewMessage)
    (classified : List (List ParagraphTriage)) : Finset ConversationKey :=
  (((conversationPlaces messages).rows.filter fun row =>
    let hasSignal := row.2.any fun index =>
      (classified.getD index []).any fun answer => answer.signal ≠ .negative
    let notificationOnly := row.2.all fun index =>
      !(classified.getD index []).isEmpty
        && (classified.getD index []).all fun answer => answer.notification
    !hasSignal || notificationOnly).map Prod.fst).toFinset

/-- All outcomes, one after the other. -/
def collectOutcomes (messages : List ReviewMessage) (jobs : List (ℕ × ℕ))
    (outcomes : JobResults ParagraphTriage) : TriageCollection :=
  outcomes.foldl (fun collection entry =>
    match jobs[entry.1]? with
    | some job => collectOutcome messages collection job entry.2
    | none => collection) ⟨.initial, List.replicate messages.length []⟩

def collectTriageResults (messages : List ReviewMessage) (jobs : List (ℕ × ℕ))
    (outcomes : JobResults ParagraphTriage) : TriageResult :=
  let collection := collectOutcomes messages jobs outcomes
  if !collection.result.stopClassError && !collection.result.cancelled then
    { collection.result with
      skipped := skippedTriageConversations messages collection.classified }
  else
    { collection.result with
      omittedBodyBlocks := .empty
      boilerplateDropped := 0 }

/-! ### The pass -/

/-- The messages of the conversations that are selected. -/
def selectedMessages (messages : List ReviewMessage)
    (conversationFilter : Option (Finset ConversationKey)) : List ReviewMessage :=
  messages.filter fun message => conversationFilter.all fun keys => message.key ∈ keys

/-- The outcome with what is made of its answer. -/
def JobOutcome.map {α β : Type} (f : α → β) : JobOutcome α → JobOutcome β
  | .completed result => .completed (result.map f)
  | .panicked => .panicked
  | .notStarted => .notStarted

/-- The triage of the selected messages: a pass with one request for each paragraph that is offered,
whose end is given. -/
def triagePass (registry : Registry) (selected : List ReviewMessage) (s : Pass Answers) :
    TriageResult :=
  collectTriageResults selected (triageJobs selected)
    (s.results.map fun entry => (entry.1, entry.2.map (classifyTriage registry)))

/-- The requests of the triage, which weigh the same. -/
def triageWeights (selected : List ReviewMessage) : List ℕ :=
  List.replicate (triageJobs selected).length 1

end Review
