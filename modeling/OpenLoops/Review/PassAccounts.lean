import Mathlib.Algebra.Order.BigOperators.Group.Finset
import OpenLoops.Review.ParallelPass

/-!
# The accounts of a parallel pass

Whatever the workers of a pass do, and in whichever order, every job that was taken is either with
one worker or noted once, and what the pass reports while it runs is what its workers hold.
-/

namespace Review

open Inference

variable {α : Type}

/-! ### What a worker holds at its place -/

@[simp]
theorem JobOutcome.wasSent_completed (result : Except ProviderError α) :
  (JobOutcome.completed result).wasSent = true
  := rfl

@[simp]
theorem JobOutcome.wasSent_panicked :
  (JobOutcome.panicked : JobOutcome α).wasSent = true
  := rfl

@[simp]
theorem JobOutcome.wasSent_notStarted :
  (JobOutcome.notStarted : JobOutcome α).wasSent = false
  := rfl

namespace Place

/-- The job that the worker has. -/
@[simp]
def job : Place α → Option ℕ
  | .parked | .slotted | .drawing | .exited => none
  | .claimed index | .refusing index | .starting index | .registered index | .invoking index
  | .answered index _ | .finishing index _ | .counting index _ | .pushing index _ => some index

/-- The job that the worker has sent. -/
@[simp]
def sent : Place α → Option ℕ
  | .invoking index => some index
  | .answered index outcome | .finishing index outcome | .counting index outcome
  | .pushing index outcome => if outcome.wasSent then some index else none
  | _ => none

/-- How the job of the worker went. -/
@[simp]
def outcome : Place α → Option (JobOutcome α)
  | .refusing _ => some .notStarted
  | .answered _ outcome | .finishing _ outcome | .counting _ outcome | .pushing _ outcome =>
      some outcome
  | _ => none

/-- The request of the worker is active. -/
@[simp]
def active : Place α → Bool
  | .registered _ | .invoking _ | .answered _ _ | .finishing _ _ => true
  | _ => false

/-- The requests of the worker that are counted and not sent. -/
@[simp]
def pending : Place α → ℕ
  | .registered _ => 1
  | .answered _ outcome | .finishing _ outcome => if outcome.wasSent then 0 else 1
  | _ => 0

/-- The weight of the jobs of the worker that is not counted yet. -/
@[simp]
def owed (weights : List ℕ) : Place α → ℕ
  | .invoking index => weights.getD index 0
  | .answered index outcome | .finishing index outcome =>
      if outcome.wasSent then weights.getD index 0 else 0
  | .counting index _ => weights.getD index 0
  | _ => 0

/-- Whether the worker has the job, as a number. -/
def holds (index : ℕ) (place : Place α) : ℕ :=
  if place.job = some index then 1 else 0

/-- Whether the worker has sent the job, as a number. -/
def sends (index : ℕ) (place : Place α) : ℕ :=
  if place.sent = some index then 1 else 0

/-- A worker that knows how its job went has one. -/
theorem exists_job {place : Place α} {outcome : JobOutcome α} (h : place.outcome = some outcome) :
  ∃ index, place.job = some index
  := by
  cases place <;> simp_all

/-- A worker whose job is at most known as not started has not sent it. -/
theorem sends_eq_zero {index : ℕ} {place : Place α}
    (h : place.job = some index → place.outcome = some .notStarted) :
  place.sends index = 0
  := by
  unfold sends
  cases place <;> simp_all <;> intro hsent heq <;> simp [h heq] at hsent

end Place

namespace Pass

section

variable (s : Pass α) (worker index : ℕ) (place : Place α) (outcome : JobOutcome α)

@[simp]
theorem goto_workers :
  (s.goto worker place).workers = Function.update s.workers worker place
  := rfl

@[simp]
theorem signal_workers :
  (s.signal outcome).workers = s.workers
  := by
  fun_cases signal <;> rfl

@[simp]
theorem signal_cursor :
  (s.signal outcome).cursor = s.cursor
  := by
  fun_cases signal <;> rfl

@[simp]
theorem signal_cancel :
  (s.signal outcome).cancel = s.cancel
  := by
  fun_cases signal <;> rfl

@[simp]
theorem signal_conversationIndex :
  (s.signal outcome).conversationIndex = s.conversationIndex
  := by
  fun_cases signal <;> rfl

@[simp]
theorem signal_activeRequests :
  (s.signal outcome).activeRequests = s.activeRequests
  := by
  fun_cases signal <;> rfl

@[simp]
theorem signal_processed :
  (s.signal outcome).processed = s.processed
  := by
  fun_cases signal <;> rfl

@[simp]
theorem signal_done :
  (s.signal outcome).done = s.done
  := by
  fun_cases signal <;> rfl

@[simp]
theorem signal_maximum :
  (s.signal outcome).limiter.maximum = s.limiter.maximum
  := by
  fun_cases signal
  · unfold LimiterState.onSuccess
    split <;> rfl
  all_goals rfl

/-- A pass is stopped by the outcome that says so. -/
theorem signal_stop :
  (s.signal outcome).stop
    ↔ s.stop ∨ ∃ result, outcome = .completed result ∧ jobSignal result = .stop
  := by
  fun_cases signal <;> simp_all

end

variable (weights : List ℕ)

/-- How often a job is noted. -/
def noted (s : Pass α) (index : ℕ) : ℕ :=
  s.done.countP fun entry => entry.1 = index

/-- How often a job is noted as sent. -/
def notedSent (s : Pass α) (index : ℕ) : ℕ :=
  s.done.countP fun entry => entry.1 = index && entry.2.wasSent

/-- Whether the job was handed out when the cursor is at a place, as a number. -/
def handedOut (cursor index : ℕ) : ℕ :=
  if index < cursor ∧ index < weights.length then 1 else 0

/-! ### Steps of a worker -/

/-- A step of a worker moves no other worker. -/
theorem stepWorker_workers (s : Pass α) (worker : ℕ) (answer : Option (Except ProviderError α)) :
  (s.stepWorker weights worker answer).1.workers
    = Function.update s.workers worker ((s.stepWorker weights worker answer).1.workers worker)
  := by
  fun_cases stepWorker weights s worker answer <;> simp [goto, startRequest, finishRequest, note]

/-- The next job is handed out when the cursor moves. -/
theorem handedOut_succ {cursor : ℕ} (hcursor : cursor < weights.length) (index : ℕ) :
  handedOut weights (cursor + 1) index
    = (if cursor = index then 1 else 0) + handedOut weights cursor index
  := by
  unfold handedOut
  split_ifs <;> omega

/-- No job is handed out when there is none left. -/
theorem handedOut_succ_of_length_le {cursor : ℕ} (hcursor : ¬cursor < weights.length)
    (index : ℕ) :
  handedOut weights (cursor + 1) index = handedOut weights cursor index
  := by
  unfold handedOut
  split_ifs <;> omega

/-- A job that is handed out stays with the worker until it is noted. -/
theorem stepWorker_holds (s : Pass α) (worker : ℕ) (answer : Option (Except ProviderError α))
    (index : ℕ) :
  let s' := (s.stepWorker weights worker answer).1
  (s'.workers worker).holds index + s'.noted index + handedOut weights s.cursor index
    = (s.workers worker).holds index + s.noted index + handedOut weights s'.cursor index
  := by
  fun_cases stepWorker weights s worker answer <;>
    simp [startRequest, finishRequest, note, goto, Place.holds, noted, handedOut_succ,
      handedOut_succ_of_length_le, *] <;> omega

/-- A job is sent once it is invoked, and noted so. -/
theorem stepWorker_sends (s : Pass α) (worker : ℕ) (answer : Option (Except ProviderError α))
    (index : ℕ) :
  let s' := (s.stepWorker weights worker answer).1
  (s'.workers worker).sends index + s'.notedSent index
    = (s.workers worker).sends index + s.notedSent index
      + (s.stepWorker weights worker answer).2.toList.count index
  := by
  fun_cases stepWorker weights s worker answer <;>
    simp [startRequest, finishRequest, note, goto, Place.sends, notedSent,
      List.count_singleton, *] <;> grind

/-- The counted requests of the worker are those it has sent, and the one that is pending. -/
theorem stepWorker_pending (s : Pass α) (worker : ℕ) (answer : Option (Except ProviderError α))
    (hpending : (s.workers worker).pending ≤ s.conversationIndex) :
  let s' := (s.stepWorker weights worker answer).1
  s'.conversationIndex + (s.workers worker).pending
    = s.conversationIndex + (s'.workers worker).pending
      + (s.stepWorker weights worker answer).2.toList.length
  := by
  fun_cases stepWorker weights s worker answer <;>
    simp_all [startRequest, finishRequest, note, goto]

/-- The weights of the jobs that the worker has sent are counted, or still owed. -/
theorem stepWorker_owed (s : Pass α) (worker : ℕ) (answer : Option (Except ProviderError α)) :
  let s' := (s.stepWorker weights worker answer).1
  s'.processed + (s'.workers worker).owed weights
    = s.processed + (s.workers worker).owed weights
      + ((s.stepWorker weights worker answer).2.toList.map (weights.getD · 0)).sum
  := by
  fun_cases stepWorker weights s worker answer <;>
    simp [startRequest, finishRequest, note, goto, *]

/-- The worker is among the active ones as long as its request is. -/
theorem stepWorker_active (s : Pass α) (worker : ℕ) (answer : Option (Except ProviderError α))
    (hactive : worker ∈ s.activeRequests ↔ (s.workers worker).active) :
  let s' := (s.stepWorker weights worker answer).1
  worker ∈ s'.activeRequests ↔ (s'.workers worker).active
  := by
  fun_cases stepWorker weights s worker answer <;>
    simp_all [startRequest, finishRequest, note, goto]

/-- No other worker becomes active, or stops to be. -/
theorem mem_activeRequests_of_ne (s : Pass α) {worker other : ℕ} (hne : other ≠ worker)
    (answer : Option (Except ProviderError α)) :
  other ∈ (s.stepWorker weights worker answer).1.activeRequests ↔ other ∈ s.activeRequests
  := by
  fun_cases stepWorker weights s worker answer <;>
    simp [startRequest, finishRequest, note, goto, hne]

/-! ### What a step leaves standing -/

section

variable (s : Pass α) (worker : ℕ) (answer : Option (Except ProviderError α))

/-- What is noted stays so, and what comes to be noted is what the worker held. -/
theorem stepWorker_done (entry : ℕ × JobOutcome α) :
  entry ∈ (s.stepWorker weights worker answer).1.done
    ↔ entry ∈ s.done
      ∨ (s.workers worker).job = some entry.1 ∧ (s.workers worker).outcome = some entry.2
        ∧ ((s.stepWorker weights worker answer).1.workers worker).job = none
  := by
  fun_cases stepWorker weights s worker answer <;>
    simp [startRequest, finishRequest, note, goto, Prod.ext_iff, *] <;> grind

/-- The cursor never moves back. -/
theorem le_stepWorker_cursor :
  s.cursor ≤ (s.stepWorker weights worker answer).1.cursor
  := by
  fun_cases stepWorker weights s worker answer <;>
    simp [startRequest, finishRequest, note, goto]

/-- The user alone cancels. -/
theorem stepWorker_cancel :
  (s.stepWorker weights worker answer).1.cancel = s.cancel
  := by
  fun_cases stepWorker weights s worker answer <;>
    simp [startRequest, finishRequest, note, goto]

/-- The limiter keeps its maximum. -/
theorem stepWorker_maximum :
  (s.stepWorker weights worker answer).1.limiter.maximum = s.limiter.maximum
  := by
  fun_cases stepWorker weights s worker answer <;>
    simp [startRequest, finishRequest, note, goto]

/-- A pass that is stopped stays so. -/
theorem stepWorker_stop (hstop : s.stop) :
  (s.stepWorker weights worker answer).1.stop
  := by
  fun_cases stepWorker weights s worker answer <;>
    simp [startRequest, finishRequest, note, goto, signal_stop, hstop]

/-- A pass is stopped by the outcome that the worker holds. -/
theorem stop_of_stepWorker (hstop : (s.stepWorker weights worker answer).1.stop) :
  s.stop ∨ ∃ result, jobSignal result = .stop
    ∧ (s.workers worker).outcome = some (.completed result)
  := by
  revert hstop
  fun_cases stepWorker weights s worker answer <;>
    simp +contextual [startRequest, finishRequest, note, goto, signal_stop, *]
  grind

/-- A worker that has a job, or loses it, has had it or got the next one. -/
theorem stepWorker_job (index : ℕ)
    (hjob : ((s.stepWorker weights worker answer).1.workers worker).job = some index) :
  (s.workers worker).job = some index ∨ s.cursor = index ∧ (s.workers worker).job = none
    ∧ ((s.stepWorker weights worker answer).1.workers worker).outcome = none
  := by
  revert hjob
  fun_cases stepWorker weights s worker answer <;>
    simp +contextual [startRequest, finishRequest, note, goto, *]

/-- The outcome of a job stays the same as long as the worker has it. -/
theorem stepWorker_outcome {index : ℕ} {outcome : JobOutcome α}
    (hjob : (s.workers worker).job = some index)
    (houtcome : (s.workers worker).outcome = some outcome) :
  let place := (s.stepWorker weights worker answer).1.workers worker
  place.job = none ∨ place.job = some index ∧ place.outcome = some outcome
  := by
  revert hjob houtcome
  fun_cases stepWorker weights s worker answer <;>
    simp +contextual [startRequest, finishRequest, note, goto, *]

/-- A job comes not to be started when the worker finds a flag raised. -/
theorem notStarted_of_stepWorker
    (houtcome : ((s.stepWorker weights worker answer).1.workers worker).outcome = some .notStarted) :
  (s.workers worker).outcome = some .notStarted ∨ s.stop ∨ s.cancel
  := by
  revert houtcome
  fun_cases stepWorker weights s worker answer <;>
    simp +contextual [startRequest, finishRequest, note, goto, *] <;> grind

/-- A worker leaves when it finds a flag raised or no job left. -/
theorem exited_of_stepWorker
    (hexited : (s.stepWorker weights worker answer).1.workers worker = .exited) :
  s.workers worker = .exited ∨ (s.workers worker).outcome = some .notStarted
    ∨ s.stop ∨ s.cancel ∨ weights.length ≤ s.cursor
  := by
  revert hexited
  fun_cases stepWorker weights s worker answer <;>
    simp +contextual [startRequest, finishRequest, note, goto, *] <;> grind

/-- A worker that finds a flag raised gives its job back. -/
theorem stepWorker_of_raised {index : ℕ}
    (hplace : s.workers worker = .claimed index ∨ s.workers worker = .registered index)
    (hraised : s.stop ∨ s.cancel) :
  ((s.stepWorker weights worker answer).1.workers worker).outcome = some .notStarted
    ∧ (s.stepWorker weights worker answer).1.done = s.done
  := by
  have hflags : (s.stop || s.cancel) = true := by
    simpa using hraised
  rcases hplace with hplace | hplace
  · simp [stepWorker, hplace, hflags, goto]
  · simp [stepWorker, hplace, hflags, goto]

/-- A worker that has left does nothing. -/
theorem stepWorker_of_exited (hexited : s.workers worker = .exited) :
  s.stepWorker weights worker answer = (s, none)
  := by
  simp [stepWorker, hexited]

end

/-! ### What the workers hold together -/

/-- What the first workers hold together. -/
def total (workers : ℕ) (amount : Place α → ℕ) (s : Pass α) : ℕ :=
  ∑ worker ∈ Finset.range workers, amount (s.workers worker)

/-- A step changes what the worker holds, and nothing else. -/
theorem total_stepWorker {workers worker : ℕ} (hworker : worker < workers)
    (amount : Place α → ℕ) (s : Pass α) (answer : Option (Except ProviderError α)) :
  let s' := (s.stepWorker weights worker answer).1
  total workers amount s' + amount (s.workers worker)
    = total workers amount s + amount (s'.workers worker)
  := by
  intro s'
  have hmem := Finset.mem_range.mpr hworker
  have hrest : ∑ other ∈ (Finset.range workers).erase worker, amount (s'.workers other)
      = ∑ other ∈ (Finset.range workers).erase worker, amount (s.workers other) := by
    apply Finset.sum_congr rfl
    intro other hother
    rw [stepWorker_workers, Function.update_of_ne (Finset.ne_of_mem_erase hother)]
  unfold total
  rw [← Finset.add_sum_erase _ _ hmem, ← Finset.add_sum_erase _ _ hmem, hrest]
  omega

/-- The jobs that were handed out are with one worker or noted once, the jobs that were invoked are
with the workers as sent or noted so, and what is counted is what they say.  The jobs invoked are
given, and what was counted when the pass started. -/
structure Accounted (workers conversationIndex processed : ℕ) (invoked : List ℕ) (s : Pass α) :
    Prop where
  outside : ∀ worker, workers ≤ worker → s.workers worker = .exited
  held : ∀ index, total workers (Place.holds index) s + s.noted index
    = handedOut weights s.cursor index
  sent : ∀ index, total workers (Place.sends index) s + s.notedSent index = invoked.count index
  counted : s.conversationIndex = conversationIndex + invoked.length + total workers Place.pending s
  weighed : s.processed + total workers (Place.owed weights) s
    = processed + (invoked.map (weights.getD · 0)).sum
  active : ∀ worker, worker ∈ s.activeRequests ↔ (s.workers worker).active

/-- What a worker holds is part of what the workers hold. -/
theorem le_total {workers worker : ℕ} (hworker : worker < workers) (amount : Place α → ℕ)
    (s : Pass α) :
  amount (s.workers worker) ≤ total workers amount s
  := by
  apply Finset.single_le_sum (f := fun worker => amount (s.workers worker))
  · intro other _
    apply Nat.zero_le
  · apply Finset.mem_range.mpr hworker

/-- The accounts are kept by every step of a worker. -/
theorem Accounted.stepWorker {workers conversationIndex processed : ℕ} {invoked : List ℕ}
    {s : Pass α} (haccounted : Accounted weights workers conversationIndex processed invoked s)
    (worker : ℕ) (answer : Option (Except ProviderError α)) :
  Accounted weights workers conversationIndex processed
    (invoked ++ (s.stepWorker weights worker answer).2.toList)
    (s.stepWorker weights worker answer).1
  := by
  by_cases hworker : worker < workers
  · have htotal := fun amount => total_stepWorker weights hworker amount s answer
    constructor
    · intro other hother
      rw [stepWorker_workers, Function.update_of_ne (by omega)]
      apply haccounted.outside other hother
    · intro index
      have h := stepWorker_holds weights s worker answer index
      have h' := htotal (Place.holds index)
      have hheld := haccounted.held index
      dsimp only at h h'
      omega
    · intro index
      have h := stepWorker_sends weights s worker answer index
      have h' := htotal (Place.sends index)
      have hsent := haccounted.sent index
      rw [List.count_append]
      dsimp only at h h'
      omega
    · have hle := le_total hworker Place.pending s
      have hcounted := haccounted.counted
      have h := stepWorker_pending weights s worker answer (by omega)
      have h' := htotal Place.pending
      rw [List.length_append]
      dsimp only at h h'
      omega
    · have h := stepWorker_owed weights s worker answer
      have h' := htotal (Place.owed weights)
      have hweighed := haccounted.weighed
      rw [List.map_append, List.sum_append]
      dsimp only at h h'
      omega
    · intro other
      by_cases hother : other = worker
      · subst hother
        apply stepWorker_active weights s other answer (haccounted.active other)
      · rw [mem_activeRequests_of_ne weights s hother, stepWorker_workers,
          Function.update_of_ne hother]
        apply haccounted.active other
  · rw [stepWorker_of_exited weights s worker answer (haccounted.outside worker (by omega))]
    simpa using haccounted

/-- Cancelling changes no account. -/
theorem Accounted.cancel {workers conversationIndex processed : ℕ} {invoked : List ℕ}
    {s : Pass α} (haccounted : Accounted weights workers conversationIndex processed invoked s) :
  Accounted weights workers conversationIndex processed invoked { s with cancel := true }
  where
  outside := haccounted.outside
  held := haccounted.held
  sent := haccounted.sent
  counted := haccounted.counted
  weighed := haccounted.weighed
  active := haccounted.active

/-- The accounts of a pass that starts. -/
theorem accounted_start (limiter : LimiterState) (cancel : Bool) (conversationIndex processed : ℕ) :
  Accounted weights (workerCount weights limiter) conversationIndex processed []
    (start weights limiter cancel conversationIndex processed : Pass α)
  := by
  have hzero : ∀ amount : Place α → ℕ, amount .parked = 0 → total (workerCount weights limiter)
      amount (start weights limiter cancel conversationIndex processed) = 0 := by
    intro amount hamount
    apply Finset.sum_eq_zero
    intro worker hworker
    simp only [start, Finset.mem_range.mp hworker, if_true, hamount]
  constructor
  · intro worker hworker
    simp only [start, if_neg (Nat.not_lt.mpr hworker)]
  · intro index
    rw [hzero _ rfl]
    simp [start, noted, handedOut]
  · intro index
    rw [hzero _ rfl]
    simp [start, notedSent]
  · rw [hzero _ rfl]
    simp [start]
  · rw [hzero _ rfl]
    simp [start]
  · intro worker
    simp only [start]
    split <;> simp

/-! ### Jobs with one worker -/

section

variable {weights} {workers conversationIndex processed : ℕ} {invoked : List ℕ} {s : Pass α}
  (haccounted : Accounted weights workers conversationIndex processed invoked s)
include haccounted

/-- A worker that has a job is one of the first ones. -/
theorem Accounted.lt_of_job {worker index : ℕ} (hjob : (s.workers worker).job = some index) :
  worker < workers
  := by
  by_contra hworker
  rw [haccounted.outside worker (by omega)] at hjob
  cases hjob

/-- A job is with one worker or noted once, and was handed out. -/
theorem Accounted.holds_add_noted_le (index : ℕ) :
  total workers (Place.holds index) s + s.noted index ≤ 1
  := by
  rw [haccounted.held, handedOut]
  split <;> omega

/-- No job is with two workers. -/
theorem Accounted.eq_of_job {worker other index : ℕ}
    (hjob : (s.workers worker).job = some index) (hother : (s.workers other).job = some index) :
  other = worker
  := by
  by_contra hne
  have hmem := Finset.mem_range.mpr (haccounted.lt_of_job hjob)
  have hmem' := Finset.mem_erase.mpr
    ⟨hne, Finset.mem_range.mpr (haccounted.lt_of_job hother)⟩
  have hle := haccounted.holds_add_noted_le index
  have hone := Finset.single_le_sum (f := fun worker => (s.workers worker).holds index)
    (fun _ _ => Nat.zero_le _) hmem'
  rw [total, ← Finset.add_sum_erase _ _ hmem] at hle
  simp only [Place.holds, hjob, hother, if_true] at hle hone
  omega

/-- A job that is with a worker is not noted, and was handed out. -/
theorem Accounted.not_noted {worker index : ℕ} (hjob : (s.workers worker).job = some index) :
  s.noted index = 0 ∧ index < s.cursor
  := by
  have hle := le_total (haccounted.lt_of_job hjob) (Place.holds index) s
  have hheld := haccounted.held index
  simp only [Place.holds, hjob, if_true] at hle
  unfold handedOut at hheld
  split at hheld
  · case isTrue hlt => exact ⟨by omega, hlt.1⟩
  · omega

/-- No job is invoked twice. -/
theorem Accounted.nodup :
  invoked.Nodup
  := by
  apply List.nodup_iff_count_le_one.mpr
  intro index
  have hle := haccounted.holds_add_noted_le index
  rw [← haccounted.sent]
  have hsends : total workers (Place.sends index) s ≤ total workers (Place.holds index) s := by
    apply Finset.sum_le_sum
    intro worker _
    unfold Place.sends Place.holds
    cases s.workers worker <;> simp <;> split_ifs <;> simp_all
  have hnoted : s.notedSent index ≤ s.noted index := by
    apply List.countP_mono_left
    simp +contextual
  omega

/-- No job is noted twice. -/
theorem Accounted.nodup_done :
  (s.done.map Prod.fst).Nodup
  := by
  apply List.nodup_iff_count_le_one.mpr
  intro index
  have hle := haccounted.holds_add_noted_le index
  have hcount : (s.done.map Prod.fst).count index = s.noted index := by
    rw [List.count_eq_countP, List.countP_map]
    apply List.countP_congr
    simp
  omega

end

end Pass

end Review
