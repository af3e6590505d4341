import OpenLoops.Contracts.AnalysisOutput
import OpenLoops.Review.Closure
import OpenLoops.Review.ParallelPass

/-!
# Suggestions of a chat model

A chat model is asked about the conversations in which there may be something about the items that
are offered.  A claim of its answers becomes a suggestion for the items that it names; of several
suggestions for an item, the one of most confidence is kept.
-/

namespace Review

open Contracts Inference

/-! ### Claims -/

/-- Evidence of a claim, as it is found in a message. -/
structure ReviewEvidence where
  sourceHandle : String
  text : String
  quoted : Bool
  component : EvidenceComponent
  blockOrdinal : UInt16
deriving DecidableEq

structure AcceptedClaim where
  claim : Claim
  evidence : List ReviewEvidence
deriving DecidableEq

/-- The claims of an answer that are accepted. -/
structure ClaimAnalysis where
  accepted : List AcceptedClaim
deriving DecidableEq

/-! ### Suggestions -/

/-- What a claim of the type suggests. -/
def suggestedKind : ClaimType → Option SuggestedUpdateKind
  | .possibleClosure => some .closure
  | .deadlineChange => some .deadlineChange
  | .modification => some .modification
  | .request | .promise | .attribution | .question | .delegation => none

/-- The time that a suggestion carries; there is none for a new deadline without one. -/
def suggestedTime (temporal : Nullable TemporalHypothesis) :
    SuggestedUpdateKind → Option (Option String)
  | .deadlineChange =>
      match temporal with
      | .value temporal => some (some temporal.value)
      | .null => none
  | _ => some none

/-- The evidence is in the body or the subject of a message later than the one that states the
obligation. -/
def isLaterEvidence (messages : List ReviewMessage) (target : OfferedLoop)
    (evidence : ReviewEvidence) : Bool :=
  (evidence.component = .bodyBlock || evidence.component = .subject)
    && (messageOf messages evidence.sourceHandle).any fun message =>
      target.source.input.timestamp < message.input.timestamp

/-- The suggestion that a claim makes for an item. -/
def suggestedUpdateFor (accepted : AcceptedClaim) (target : OfferedLoop)
    (messages : List ReviewMessage) : Option SuggestedUpdate := do
  let kind ← suggestedKind accepted.claim.claimType
  let temporalValue ← suggestedTime accepted.claim.temporal kind
  let evidence ← accepted.evidence.find? (isLaterEvidence messages target)
  return {
    kind
    handoffText := none
    sourceUnit := "paragraph"
    evidenceText := evidence.text
    sourceMessage := evidence.sourceHandle
    sourceBlock := evidence.blockOrdinal.toNat
    temporalValue
    confidenceMicros := accepted.claim.confidenceMicros }

/-- The candidate replaces the current suggestion: it has more confidence, or the same and it alone
is a closure. -/
def outranks (candidate current : SuggestedUpdate) : Bool :=
  current.confidenceMicros < candidate.confidenceMicros
    || (candidate.confidenceMicros = current.confidenceMicros
      && candidate.kind = .closure && current.kind ≠ .closure)

/-- A suggestion of a claim is kept when it is the best one for its item. -/
def collectTarget (messages : List ReviewMessage) (scope : Option ClosureScope)
    (accepted : AcceptedClaim) (best : Table ℕ SuggestedUpdate) (target : OfferedLoop) :
    Table ℕ SuggestedUpdate :=
  match suggestedUpdateFor accepted target messages with
  | none => best
  | some update =>
      if scope.any fun scope =>
        scope.priorStart ≤ target.item && update.sourceMessage ∉ scope.newMessages then best
      else if (best.get? target.item).all fun current => outranks update current then
        best.alter target.item fun _ => update
      else best

/-- The offers that the claim names, among those of the request. -/
def claimTargets (loops : List OfferedLoop) (accepted : AcceptedClaim) : List OfferedLoop :=
  accepted.claim.relatedLoopHandles.filterMap fun handle =>
    loops.find? fun loop => loop.handle = handle

/-- The suggestions of a claim, which names offers of its own request alone. -/
def collectClaim (messages : List ReviewMessage) (scope : Option ClosureScope)
    (loops : List OfferedLoop) (best : Table ℕ SuggestedUpdate) (accepted : AcceptedClaim) :
    Table ℕ SuggestedUpdate :=
  let related := accepted.claim.relatedLoopHandles
  let targets := claimTargets loops accepted
  if related.isEmpty then best
  else if targets.length ≠ related.length then best
  else targets.foldl (collectTarget messages scope accepted) best

/-- The best suggestions, by item, with those of an answer. -/
def collectUpdates (analysis : ClaimAnalysis) (job : ClosureJob) (offered : List OfferedLoop)
    (messages : List ReviewMessage) (best : Table ℕ SuggestedUpdate)
    (scope : Option ClosureScope) : Table ℕ SuggestedUpdate :=
  analysis.accepted.foldl (collectClaim messages scope (job.named offered)) best

/-- The item at a place has the suggestion. -/
def ScanResult.suggest (result : ScanResult) (place : ℕ) (update : SuggestedUpdate) : ScanResult :=
  match result.analysis.items[place]? with
  | some item =>
      { result.withItems
          (result.analysis.items.set place { item with suggestedUpdate := some update }) with
        suggestedUpdates :=
          if item.suggestedUpdate.isNone then result.suggestedUpdates + 1
          else result.suggestedUpdates }
  | none => result

/-- The suggestion that the item at a place carries. -/
def ScanResult.suggestionAt (result : ScanResult) (place : ℕ) : Option SuggestedUpdate :=
  result.analysis.items[place]?.bind (·.suggestedUpdate)

/-- The item has the suggestion, when that is better than the one it has. -/
def applyUpdate (state : ScanResult × ℕ) (row : ℕ × SuggestedUpdate) : ScanResult × ℕ :=
  if (state.1.suggestionAt row.1).all fun current => outranks row.2 current then
    (state.1.suggest row.1 row.2, state.2 + 1)
  else state

/-- The items with the best suggestions, and how many were attached. -/
def applyUpdates (result : ScanResult) (best : Table ℕ SuggestedUpdate) : ScanResult × ℕ :=
  best.rows.foldl applyUpdate (result, 0)

/-! ### The pass -/

/-- The text of an error, as it is displayed. -/
def errorText : ProviderError → String
  | .invalidKey => "Enter a valid API key for the selected provider."
  | .unauthorized => "The provider rejected the API key or account access."
  | .inputUnavailable => "Could not read a model selection from the terminal."
  | .timeout =>
      "The provider did not answer in time. Try the model again or select a faster model."
  | .network =>
      "Could not establish or complete a secure connection to the selected provider. Check connectivity."
  | .rateLimited => "The provider returned HTTP 429 (rate limit). Wait before trying again."
  | .quota => "The provider returned HTTP 402. Check your plan or usage balance."
  | .creditsInFlight =>
      "OpenRouter deferred this request: it would exceed the available credits given the requests already in flight. The scan narrowed how many requests it keeps in flight."
  | .requestRejected status => "The provider rejected the request (HTTP " ++ toString status
      ++ "). An unsupported request parameter or model capability is the usual cause; try another model."
  | .serverError status => "The provider returned a server error (HTTP " ++ toString status
      ++ "). Try again later or choose another model."
  | .modelUnavailable => "The selected model is not in the provider's selectable model list."
  | .invalidQuestion => "The decision request was malformed."
  | .invalidResponse => "The provider returned an incomplete or unsupported response."
  | .outputTruncated =>
      "The model ran out of output room before finishing its answer (a reasoning model's thinking counts against the same limit). Try a model that thinks less, or a faster one."
  | .inputTooLarge => "The selected message projection exceeds the analysis limits."
  | .responseTooLarge => "The provider's response exceeds the allowed size."
  | .invalidAnalysis => "The model output did not pass OpenLoops validation."
  | .invalidJson => "The model returned malformed JSON or extra text instead of the requested result."
  | .invalidSchema => "The model returned JSON with missing, duplicate, or unsupported fields."
  | .cancelled => "The scan was stopped before the model answered."

/-- The outcomes so far: the result, the requests that were refused for a while, and the best
suggestions. -/
structure ClosureMerge where
  result : ScanResult
  rateLimited : ℕ
  best : Table ℕ SuggestedUpdate

/-- The first failure of the pass is told. -/
def ClosureMerge.fail (merge : ClosureMerge) (text : String) : ClosureMerge :=
  { merge with
    result := { merge.result with
      closurePassFailure := some (merge.result.closurePassFailure.getD text) } }

/-- What an outcome adds. -/
def mergeClosureOutcome (messages : List ReviewMessage) (offered : List OfferedLoop)
    (jobs : List ClosureJob) (scope : Option ClosureScope) (merge : ClosureMerge)
    (entry : ℕ × JobOutcome ClaimAnalysis) : ClosureMerge :=
  match entry.2 with
  | .completed (.ok analysis) =>
      match jobs[entry.1]? with
      | some job =>
          { merge with best := collectUpdates analysis job offered messages merge.best scope }
      | none => merge
  | .completed (.error .cancelled) =>
      { merge with result := { merge.result with cancelled := true } }
  | .completed (.error .rateLimited) | .completed (.error .creditsInFlight) =>
      { merge with rateLimited := merge.rateLimited + 1 }
  | .completed (.error error) =>
      if isStopError error then merge.fail ("Closure pass stopped: " ++ errorText error) else merge
  | .panicked => merge.fail "Closure pass failed unexpectedly."
  | .notStarted => merge

/-- All outcomes, one after the other. -/
def mergedOutcomes (messages : List ReviewMessage) (offered : List OfferedLoop)
    (jobs : List ClosureJob) (scope : Option ClosureScope) (result : ScanResult)
    (outcomes : JobResults ClaimAnalysis) : ClosureMerge :=
  outcomes.foldl (mergeClosureOutcome messages offered jobs scope) ⟨result, 0, .empty⟩

def mergeClosureOutcomes (result : ScanResult) (messages : List ReviewMessage)
    (offered : List OfferedLoop) (jobs : List ClosureJob) (outcomes : JobResults ClaimAnalysis)
    (scope : Option ClosureScope) : ScanResult :=
  let merge := mergedOutcomes messages offered jobs scope result outcomes
  let applied := (applyUpdates merge.result merge.best).1
  if 0 < merge.rateLimited then
    applied.note (toString merge.rateLimited
      ++ " update check(s) were rate-limited; they were not resent.")
  else applied

section

variable (toLowercase : List Char → List Char)

/-- The jobs of the pass, and whether there are too many. -/
def chatClosureJobs (messages : List ReviewMessage) (result : ScanResult)
    (scope : Option ClosureScope) : List ClosureJob × Bool :=
  closureJobs (loopsByConversation toLowercase (offeredLoops result.analysis.items messages)
    result.analysis.items messages scope) messages

/-- The result with the suggestions of a pass, whose end is given. -/
def scanClosures (messages : List ReviewMessage) (result : ScanResult)
    (scope : Option ClosureScope) (s : Pass ClaimAnalysis) : ScanResult :=
  if result.primaryScanTransportError then result
  else
    let (jobs, capped) := chatClosureJobs toLowercase messages result scope
    let merged := mergeClosureOutcomes result messages
      (offeredLoops result.analysis.items messages) jobs s.results scope
    let merged := if s.cancel then { merged with cancelled := true } else merged
    let merged :=
      if 0 < merged.suggestedUpdates then merged.note (toString merged.suggestedUpdates
        ++ " suggested update(s) from later messages, awaiting your review.")
      else merged
    if capped then merged.note ("Update checks were capped at "
      ++ toString maxClosureConversations ++ " conversations this scan.")
    else merged

end

end Review
