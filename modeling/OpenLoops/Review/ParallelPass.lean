import Mathlib.Data.Finset.Basic
import Mathlib.Logic.Function.Basic
import OpenLoops.Inference.Projection
import OpenLoops.Library.KeyOrder
import OpenLoops.Library.Machine

/-!
# Passes of parallel requests

A pass makes one request for each of its jobs.  Its workers take the jobs in order from a cursor,
as many at a time as the limiter allows; an error that concerns the provider stops the pass, and
the user may cancel it at any time.  A worker goes from place to place, and each of its steps is
atomic; both flags are only ever raised, so that reading one after the other is as reading both.
-/

namespace Review

open Inference

/-! ### Outcomes of jobs -/

/-- What a job that is finished tells the limiter. -/
inductive JobSignal where
  | ok
  | backoff
  | stop
deriving DecidableEq

inductive JobOutcome (α : Type) where
  | completed (result : Except ProviderError α)
  | panicked
  | notStarted

/-- The job was sent. -/
def JobOutcome.wasSent {α : Type} : JobOutcome α → Bool
  | .completed _ | .panicked => true
  | .notStarted => false

/-- The answers of a pass, by the places of their jobs. -/
abbrev JobResults (α : Type) := List (ℕ × JobOutcome α)

def isTransportError : ProviderError → Bool
  | .unauthorized | .rateLimited | .network | .serverError _ => true
  | _ => false

/-- The errors that stop a pass. -/
def isStopError (error : ProviderError) : Bool :=
  isTransportError error && error ≠ .rateLimited

def jobSignal {α : Type} : Except ProviderError α → JobSignal
  | .ok _ => .ok
  | .error .rateLimited | .error .creditsInFlight => .backoff
  | .error .cancelled => .stop
  | .error error => if isTransportError error then .stop else .ok

/-! ### The limiter -/

/-- How many workers may have a request, which never exceeds a maximum. -/
structure LimiterState where
  allowed : ℕ
  consecutiveSuccesses : ℕ
  maximum : ℕ
  one_le_allowed : 1 ≤ allowed
  allowed_le : allowed ≤ maximum

namespace LimiterState

def maxParallelRequests : ℕ := 100

/-- Successes in a row after which more workers are allowed. -/
def raiseAfterSuccesses : ℕ := 8

def new (maximum : ℕ) : LimiterState where
  allowed := max 1 (min maximum maxParallelRequests)
  consecutiveSuccesses := 0
  maximum := max 1 (min maximum maxParallelRequests)
  one_le_allowed := le_max_left _ _
  allowed_le := le_rfl

def onSuccess (limiter : LimiterState) : LimiterState :=
  if limiter.consecutiveSuccesses + 1 < raiseAfterSuccesses then
    { limiter with consecutiveSuccesses := limiter.consecutiveSuccesses + 1 }
  else
    { limiter with
      allowed := min (limiter.allowed + max (limiter.allowed / 4) 1) limiter.maximum
      consecutiveSuccesses := 0
      one_le_allowed := by
        have h := limiter.one_le_allowed
        have h' := limiter.allowed_le
        omega
      allowed_le := min_le_right _ _ }

def onBackoff (limiter : LimiterState) : LimiterState where
  allowed := max (limiter.allowed / 2) 1
  consecutiveSuccesses := 0
  maximum := limiter.maximum
  one_le_allowed := le_max_right _ _
  allowed_le := by
    have h := limiter.one_le_allowed
    have h' := limiter.allowed_le
    omega

end LimiterState

/-! ### Workers -/

/-- Where a worker is in its life. -/
inductive Place (α : Type) where
  /-- It waits for a slot. -/
  | parked
  /-- It may take a job, and is about to look at the flags. -/
  | slotted
  /-- It is about to take the next job. -/
  | drawing
  /-- It has a job, and is about to look at the flags. -/
  | claimed (index : ℕ)
  /-- It is about to note that the job was not started, and leaves. -/
  | refusing (index : ℕ)
  /-- It is about to count the request as active. -/
  | starting (index : ℕ)
  /-- The request is active, and the worker looks at the flags for the last time. -/
  | registered (index : ℕ)
  /-- The job runs. -/
  | invoking (index : ℕ)
  /-- The job is over, and the limiter is about to be told. -/
  | answered (index : ℕ) (outcome : JobOutcome α)
  /-- The request is about to be no longer active. -/
  | finishing (index : ℕ) (outcome : JobOutcome α)
  /-- The weight of the job, which was sent, is about to be counted. -/
  | counting (index : ℕ) (outcome : JobOutcome α)
  /-- The outcome is about to be noted. -/
  | pushing (index : ℕ) (outcome : JobOutcome α)
  | exited

/-- A pass with what its workers share, and what they report. -/
structure Pass (α : Type) where
  cursor : ℕ
  limiter : LimiterState
  stop : Bool
  cancel : Bool
  conversationIndex : ℕ
  /-- The workers whose requests are active. -/
  activeRequests : Finset ℕ
  processed : ℕ
  done : JobResults α
  workers : ℕ → Place α

namespace Pass

variable {α : Type}

/-- The worker goes to a place. -/
def goto (s : Pass α) (worker : ℕ) (place : Place α) : Pass α :=
  { s with workers := Function.update s.workers worker place }

/-- The workers of a pass: no more than there are jobs. -/
def workerCount (weights : List ℕ) (limiter : LimiterState) : ℕ :=
  min limiter.maximum weights.length

/-- The pass as it starts. -/
def start (weights : List ℕ) (limiter : LimiterState) (cancel : Bool)
    (conversationIndex processed : ℕ) : Pass α where
  cursor := 0
  limiter
  stop := false
  cancel
  conversationIndex
  activeRequests := ∅
  processed
  done := []
  workers := fun worker => if worker < workerCount weights limiter then .parked else .exited

/-- What the limiter makes of an outcome. -/
def signal (s : Pass α) : JobOutcome α → Pass α
  | .completed result =>
      match jobSignal result with
      | .ok => { s with limiter := s.limiter.onSuccess }
      | .backoff => { s with limiter := s.limiter.onBackoff }
      | .stop => { s with stop := true }
  | .panicked | .notStarted => s

/-- The outcome of the job is noted. -/
def note (s : Pass α) (index : ℕ) (outcome : JobOutcome α) : Pass α :=
  { s with done := s.done ++ [(index, outcome)] }

/-- The request of the worker is active. -/
def startRequest (s : Pass α) (worker : ℕ) : Pass α :=
  { s with
    conversationIndex := s.conversationIndex + 1
    activeRequests := insert worker s.activeRequests }

/-- The request of the worker is no longer active, and one that was not sent does not count. -/
def finishRequest (s : Pass α) (worker : ℕ) (sent : Bool) : Pass α :=
  { s with
    activeRequests := s.activeRequests.erase worker
    conversationIndex := if sent then s.conversationIndex else s.conversationIndex - 1 }

/-- A step of a worker, and the job that it invokes.  The answer is that of the job that it is
running: an answer of the provider, or none when the job panics. -/
def stepWorker (weights : List ℕ) (s : Pass α) (worker : ℕ)
    (answer : Option (Except ProviderError α)) : Pass α × Option ℕ :=
  match s.workers worker with
  | .parked =>
      if s.stop || s.cancel || weights.length ≤ s.cursor then (s.goto worker .exited, none)
      else if worker < s.limiter.allowed then (s.goto worker .slotted, none)
      else (s, none)
  | .slotted =>
      if s.stop || s.cancel then (s.goto worker .exited, none) else (s.goto worker .drawing, none)
  | .drawing =>
      if s.cursor < weights.length then
        ({ s with cursor := s.cursor + 1 }.goto worker (.claimed s.cursor), none)
      else ({ s with cursor := s.cursor + 1 }.goto worker .exited, none)
  | .claimed index =>
      if s.stop || s.cancel then (s.goto worker (.refusing index), none)
      else (s.goto worker (.starting index), none)
  | .refusing index => ((s.note index .notStarted).goto worker .exited, none)
  | .starting index => ((s.startRequest worker).goto worker (.registered index), none)
  | .registered index =>
      if s.stop || s.cancel then (s.goto worker (.finishing index .notStarted), none)
      else (s.goto worker (.invoking index), some index)
  | .invoking index =>
      match answer with
      | some result => (s.goto worker (.answered index (.completed result)), none)
      | none => (s.goto worker (.answered index .panicked), none)
  | .answered index outcome => ((s.signal outcome).goto worker (.finishing index outcome), none)
  | .finishing index outcome =>
      if outcome.wasSent then ((s.finishRequest worker true).goto worker (.counting index outcome), none)
      else ((s.finishRequest worker false).goto worker (.pushing index outcome), none)
  | .counting index outcome =>
      ({ s with processed := s.processed + weights.getD index 0 }.goto worker
        (.pushing index outcome), none)
  | .pushing index outcome => ((s.note index outcome).goto worker .parked, none)
  | .exited => (s, none)

/-- What happens next: a step of a worker, or the user cancels. -/
inductive Turn (α : Type) where
  | worker (worker : ℕ) (answer : Option (Except ProviderError α))
  | cancel

/-- The pass, which tells at each step the job that is invoked. -/
def machine (α : Type) (weights : List ℕ) : Machine (Pass α) (Turn α) (Option ℕ) where
  step s turn :=
    match turn with
    | .worker worker answer => s.stepWorker weights worker answer
    | .cancel => ({ s with cancel := true }, none)

/-- All workers have left. -/
def AllExited (s : Pass α) : Prop :=
  ∀ worker, s.workers worker = .exited

/-- The answers of the pass in the order of the jobs. -/
def results (s : Pass α) : JobResults α :=
  KeyOrder.sort Prod.fst s.done

end Pass

end Review
