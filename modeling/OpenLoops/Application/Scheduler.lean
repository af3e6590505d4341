import Mathlib.Data.Finset.Insert
import OpenLoops.Domain.Ids
import OpenLoops.Library.Fallible
import OpenLoops.Library.Machine

/-!
# Polling

A scheduler runs a job for a collection when its cadence has elapsed since the last run it
remembers, and the collection is not leased to another job.  It remembers one run for all
collections, the last one whose job returned.  So a collection keeps its cadence exactly when
no run of another collection stands in its way, and none of its own jobs panics.
-/

namespace Application

open Domain (UnixSeconds)

/-! ### The cadence -/

/-- The shortest cadence. -/
def pollCadenceMinimumSeconds : UInt32 := 60

/-- The longest cadence. -/
def pollCadenceMaximumSeconds : UInt32 := 900

/-- The cadence within the bounds that is closest to the requested one. -/
def clampPollCadenceSeconds (requested : UInt32) : UInt32 :=
  if requested < pollCadenceMinimumSeconds then pollCadenceMinimumSeconds
  else if pollCadenceMaximumSeconds < requested then pollCadenceMaximumSeconds
  else requested

/-! ### Leases -/

/-- The identity of a collection of an account. -/
structure CollectionKey where
  bytes : Vector UInt8 16
deriving DecidableEq, Repr

/-- The collections leased to a job. -/
structure SingleFlightGuard where
  inFlight : Finset CollectionKey

/-- Why a lease is refused. -/
inductive SchedulerError where
  | alreadyInFlight
deriving DecidableEq, Repr

namespace SingleFlightGuard

/-- No collection is leased at first. -/
def new : SingleFlightGuard := ⟨∅⟩

/-- Leases the collection, unless it is leased already. -/
def tryAcquire (guard : SingleFlightGuard) (key : CollectionKey) :
    Except SchedulerError SingleFlightGuard :=
  if key ∈ guard.inFlight then .error .alreadyInFlight
  else .ok ⟨insert key guard.inFlight⟩

/-- Ends the lease of the collection. -/
def release (guard : SingleFlightGuard) (key : CollectionKey) : SingleFlightGuard :=
  ⟨guard.inFlight.erase key⟩

/-- Whether the collection is leased. -/
def isInFlight (guard : SingleFlightGuard) (key : CollectionKey) : Bool :=
  key ∈ guard.inFlight

/-- A lease is refused exactly for a collection that is leased. -/
theorem tryAcquire_eq_error {guard : SingleFlightGuard} {key : CollectionKey}
    {e : SchedulerError} :
  guard.tryAcquire key = .error e ↔ guard.isInFlight key = true
  := by
  rw [tryAcquire, isInFlight, decide_eq_true_iff]
  split_ifs with h
  · simp [h]
  · simp [h]

/-- A lease is given exactly for a collection that is not leased. -/
theorem tryAcquire_eq_ok {guard guard' : SingleFlightGuard} {key : CollectionKey} :
  guard.tryAcquire key = .ok guard' ↔
    guard.isInFlight key = false ∧ guard' = ⟨insert key guard.inFlight⟩
  := by
  rw [tryAcquire, isInFlight, decide_eq_false_iff_not]
  split_ifs with h
  · simp [h]
  · simp [h, eq_comm]

/-- A lease that ends leaves the leases that were there before it. -/
theorem release_of_tryAcquire {guard guard' : SingleFlightGuard} {key : CollectionKey}
    (h : guard.tryAcquire key = .ok guard') :
  guard'.release key = guard
  := by
  obtain ⟨hfree, rfl⟩ := tryAcquire_eq_ok.mp h
  rw [isInFlight, decide_eq_false_iff_not] at hfree
  rw [release, Finset.erase_insert hfree]

end SingleFlightGuard

/-! ### The scheduler -/

/-- What came of a call. -/
inductive RunDueOutcome (T : Type*) where
  | notDue
  | alreadyInFlight
  | ran (result : T)
deriving DecidableEq, Repr

/-- A scheduler of jobs, one at a time for a collection. -/
structure JobScheduler where
  cadenceSeconds : UInt32
  lastRun : Option Int64
  singleFlight : SingleFlightGuard

/-- A call for a collection, at an instant: the job returns a result, or panics. -/
structure PollCall (T : Type*) where
  collectionKey : CollectionKey
  now : UnixSeconds
  job : Option T
deriving DecidableEq, Repr

namespace JobScheduler

variable {T : Type*}

/-- A scheduler that has run nothing. -/
def new (requestedCadenceSeconds : UInt32) : JobScheduler where
  cadenceSeconds := clampPollCadenceSeconds requestedCadenceSeconds
  lastRun := none
  singleFlight := .new

/-- Whether a run is due at the instant. -/
def isDue (scheduler : JobScheduler) (nowEpochSeconds : Int64) : Bool :=
  match scheduler.lastRun with
  | none => true
  | some last =>
      Int64.ofNat scheduler.cadenceSeconds.toNat ≤ nowEpochSeconds.saturatingSub last

/-- Runs the job when it is due and its collection is not leased; there is no outcome when the
job panics, which ends its lease all the same. -/
def runDue (scheduler : JobScheduler) (call : PollCall T) :
    JobScheduler × Option (RunDueOutcome T) :=
  let now := call.now.seconds
  if ¬scheduler.isDue now then (scheduler, some .notDue)
  else match scheduler.singleFlight.tryAcquire call.collectionKey with
    | .error _ => (scheduler, some .alreadyInFlight)
    | .ok leased =>
        let scheduler :=
          { scheduler with singleFlight := leased.release call.collectionKey }
        match call.job with
        | none => (scheduler, none)
        | some result => ({ scheduler with lastRun := some now }, some (.ran result))

/-- The calls on a scheduler. -/
def polling : Machine JobScheduler (PollCall T) (Option (RunDueOutcome T)) where
  step := runDue

/-- A call starts its job exactly when it is due and its collection is not leased; the lease
has ended after the call, and the instant is remembered when the job returns. -/
theorem runDue_cases (scheduler : JobScheduler) (call : PollCall T) :
  (scheduler.isDue call.now.seconds = false
      ∧ scheduler.runDue call = (scheduler, some .notDue))
    ∨ (scheduler.singleFlight.isInFlight call.collectionKey = true
      ∧ scheduler.runDue call = (scheduler, some .alreadyInFlight))
    ∨ (scheduler.isDue call.now.seconds = true
      ∧ scheduler.singleFlight.isInFlight call.collectionKey = false
      ∧ ((call.job = none ∧ scheduler.runDue call = (scheduler, none))
        ∨ ∃ result, call.job = some result
          ∧ scheduler.runDue call
            = ({ scheduler with lastRun := some call.now.seconds }, some (.ran result))))
  := by
  rw [runDue]
  rcases hdue : scheduler.isDue call.now.seconds with _ | _
  · left
    simp
  · right
    rcases hlease : scheduler.singleFlight.tryAcquire call.collectionKey with e | leased
    · left
      use SingleFlightGuard.tryAcquire_eq_error.mp hlease
      simp
    · right
      use rfl, (SingleFlightGuard.tryAcquire_eq_ok.mp hlease).1
      simp only [SingleFlightGuard.release_of_tryAcquire hlease]
      rcases call.job with _ | result
      · left
        simp
      · right
        use result
        simp

end JobScheduler

/-! ### Runs of calls -/

/-- What happened at a call on a scheduler. -/
abbrev PollEvent (T : Type*) :=
  Machine.Event JobScheduler (PollCall T) (Option (RunDueOutcome T))

section

variable {T : Type*}

/-- Whether the call started its job. -/
def PollEvent.starts (event : PollEvent T) : Bool :=
  match event.output with
  | none | some (.ran _) => true
  | some .notDue | some .alreadyInFlight => false

/-- Whether the job that the call started returned. -/
def PollEvent.returns (event : PollEvent T) : Bool :=
  match event.output with
  | some (.ran _) => true
  | none | some .notDue | some .alreadyInFlight => false

/-- At least the cadence has passed between two instants. -/
def Elapsed (cadenceSeconds : UInt32) (start now : UnixSeconds) : Prop :=
  cadenceSeconds.toNat ≤ now.seconds.toInt - start.seconds.toInt

instance (cadenceSeconds : UInt32) (start now : UnixSeconds) :
    Decidable (Elapsed cadenceSeconds start now) :=
  inferInstanceAs (Decidable (_ ≤ _))

/-- The start of the last of the runs of a kind. -/
def lastStart (kind : PollEvent T → Bool) (before : List (PollEvent T)) : Option UnixSeconds :=
  (before.filter kind).getLast?.map (·.input.now)

/-- The event is a run of the collection. -/
def PollEvent.runs (key : CollectionKey) (event : PollEvent T) : Bool :=
  event.starts && event.input.collectionKey == key

/-- The collection of the call has never run, or the cadence has elapsed since its last run
started. -/
def OwnDue (cadenceSeconds : UInt32) (before : List (PollEvent T)) (call : PollCall T) : Prop :=
  ∀ start ∈ lastStart (PollEvent.runs call.collectionKey) before,
    Elapsed cadenceSeconds start call.now

instance (cadenceSeconds : UInt32) (before : List (PollEvent T)) (call : PollCall T) :
    Decidable (OwnDue cadenceSeconds before call) :=
  inferInstanceAs (Decidable (∀ _ ∈ lastStart _ _, _))

/-- The call runs its job when its collection is due and not leased, and not before the cadence
has elapsed since each run of the collection. -/
structure KeepsCadence (cadenceSeconds : UInt32) (before : List (PollEvent T))
    (event : PollEvent T) : Prop where
  runs_of_due : OwnDue cadenceSeconds before event.input →
    event.before.singleFlight.isInFlight event.input.collectionKey = false →
      event.starts = true
  spaced : event.starts = true → ∀ run ∈ before,
    run.runs event.input.collectionKey = true →
      Elapsed cadenceSeconds run.input.now event.input.now

/-- When the collection of the call is due, then the cadence has elapsed since the jobs of all
other collections that returned; and when it is not due, then some job returned within the
cadence. -/
structure Undisturbed (cadenceSeconds : UInt32) (before : List (PollEvent T))
    (call : PollCall T) : Prop where
  of_due : OwnDue cadenceSeconds before call → ∀ run ∈ before,
    run.input.collectionKey ≠ call.collectionKey → run.returns = true →
      Elapsed cadenceSeconds run.input.now call.now
  of_notDue : ¬OwnDue cadenceSeconds before call →
    ∃ run ∈ before, run.returns = true ∧ ¬Elapsed cadenceSeconds run.input.now call.now

/-- A job that returned was started. -/
theorem PollEvent.starts_of_returns {event : PollEvent T} (h : event.returns = true) :
  event.starts = true
  := by
  rw [returns] at h
  rw [starts]
  rcases houtput : event.output with _ | _ | _ | result
  · rfl
  · simp [houtput] at h
  · simp [houtput] at h
  · rfl

/-- The cadence that has elapsed since an instant has elapsed since all earlier ones. -/
theorem Elapsed.of_le {cadenceSeconds : UInt32} {start earlier now : UnixSeconds}
    (h : Elapsed cadenceSeconds start now) (hle : earlier.seconds ≤ start.seconds) :
  Elapsed cadenceSeconds earlier now
  := by
  rw [Int64.le_iff_toInt_le] at hle
  rw [Elapsed] at h ⊢
  omega

/-- Under clock readings that do not decrease, the cadence has elapsed since the last run of a
kind exactly when it has since all of them. -/
theorem elapsed_lastStart_iff {cadenceSeconds : UInt32} {kind : PollEvent T → Bool}
    {before : List (PollEvent T)} {now : UnixSeconds}
    (hclock : before.Pairwise fun e e' => e.input.now.seconds ≤ e'.input.now.seconds) :
  (∀ start ∈ lastStart kind before, Elapsed cadenceSeconds start now) ↔
    ∀ run ∈ before, kind run = true → Elapsed cadenceSeconds run.input.now now
  := by
  have hmem : (∀ run ∈ before, kind run = true → Elapsed cadenceSeconds run.input.now now) ↔
      ∀ run ∈ before.filter kind, Elapsed cadenceSeconds run.input.now now := by
    simp only [List.mem_filter, and_imp]
  have hkind := hclock.filter kind
  rw [hmem, lastStart]
  rcases List.eq_nil_or_concat' (before.filter kind) with hnil | ⟨runs, last, hruns⟩
  · simp [hnil]
  · rw [hruns] at hkind ⊢
    rw [List.getLast?_concat, Option.map_some]
    constructor
    · intro hlast run hrun
      have helapsed := hlast last.input.now rfl
      rcases List.mem_append.mp hrun with hrun | hrun
      · apply helapsed.of_le
        apply (List.pairwise_append.mp hkind).2.2 run hrun last (List.mem_singleton_self last)
      · rw [List.mem_singleton.mp hrun]
        apply helapsed
    · rintro hall _ ⟨⟩
      apply hall last
      simp

/-- After the history, the scheduler remembers the last run whose job returned, and has given no
lease. -/
structure Remembers (cadenceSeconds : UInt32) (history : List (PollEvent T))
    (scheduler : JobScheduler) : Prop where
  cadence : scheduler.cadenceSeconds = cadenceSeconds
  lastRun : scheduler.lastRun = (lastStart PollEvent.returns history).map (·.seconds)
  singleFlight : scheduler.singleFlight = .new

/-- A scheduler that has run nothing remembers no run. -/
theorem remembers_new (requestedCadenceSeconds : UInt32) :
  Remembers (T := T) (clampPollCadenceSeconds requestedCadenceSeconds) []
    (.new requestedCadenceSeconds)
  := ⟨rfl, rfl, rfl⟩

/-- One more event of the kind is the last one. -/
theorem lastStart_snoc_of_kind {kind : PollEvent T → Bool} {before : List (PollEvent T)}
    {event : PollEvent T} (h : kind event = true) :
  lastStart kind (before ++ [event]) = some event.input.now
  := by
  simp [lastStart, h]

/-- One more event of another kind changes nothing. -/
theorem lastStart_snoc_of_not_kind {kind : PollEvent T → Bool} {before : List (PollEvent T)}
    {event : PollEvent T} (h : kind event = false) :
  lastStart kind (before ++ [event]) = lastStart kind before
  := by
  simp [lastStart, h]

namespace Remembers

variable {cadenceSeconds : UInt32} {before : List (PollEvent T)} {scheduler : JobScheduler}

/-- A call leaves no lease, and is remembered when its job returns. -/
theorem snoc (h : Remembers cadenceSeconds before scheduler) (call : PollCall T) :
  Remembers cadenceSeconds (before ++ [JobScheduler.polling.event scheduler call])
    (JobScheduler.polling.next scheduler call)
  := by
  have hnext : JobScheduler.polling.next scheduler call = (scheduler.runDue call).1 := rfl
  have houtput : (JobScheduler.polling.event scheduler call).output
    = (scheduler.runDue call).2 := rfl
  have hkeep : (scheduler.runDue call).1 = scheduler →
      PollEvent.returns (JobScheduler.polling.event scheduler call) = false →
        Remembers cadenceSeconds (before ++ [JobScheduler.polling.event scheduler call])
          (JobScheduler.polling.next scheduler call) := by
    intro hsame hreturns
    rw [hnext, hsame]
    use h.cadence, by rw [lastStart_snoc_of_not_kind hreturns, h.lastRun], h.singleFlight
  obtain ⟨-, hrun⟩ | ⟨-, hrun⟩ | ⟨-, -, ⟨-, hrun⟩ | ⟨result, -, hrun⟩⟩ :=
    scheduler.runDue_cases call
  · apply hkeep
    · rw [hrun]
    · rw [PollEvent.returns, houtput, hrun]
  · apply hkeep
    · rw [hrun]
    · rw [PollEvent.returns, houtput, hrun]
  · apply hkeep
    · rw [hrun]
    · rw [PollEvent.returns, houtput, hrun]
  · have hreturns : PollEvent.returns (JobScheduler.polling.event scheduler call) = true := by
      rw [PollEvent.returns, houtput, hrun]
    rw [hnext, hrun]
    use h.cadence, by rw [lastStart_snoc_of_kind hreturns]; rfl, h.singleFlight

/-- A call is due exactly when the cadence has elapsed since the last run that is
remembered. -/
theorem isDue_iff (h : Remembers cadenceSeconds before scheduler) (now : UnixSeconds)
    (hcadence : cadenceSeconds ≤ pollCadenceMaximumSeconds) :
  scheduler.isDue now.seconds = true ↔
    ∀ start ∈ lastStart PollEvent.returns before, Elapsed cadenceSeconds start now
  := by
  rw [JobScheduler.isDue, h.lastRun, h.cadence]
  rcases lastStart PollEvent.returns before with _ | start
  · simp
  · have hbound : cadenceSeconds.toNat ≤ 900 := hcadence
    have hnat : (Int64.ofNat cadenceSeconds.toNat).toInt = cadenceSeconds.toNat := by
      apply Int64.toInt_ofNat_of_lt
      omega
    simp only [Option.map_some, decide_eq_true_iff, Option.mem_some_iff, forall_eq', Elapsed]
    rw [Int64.le_saturatingSub, hnat]
    rw [hnat]
    omega

/-- A call starts its job exactly when it is due. -/
theorem starts_iff (h : Remembers cadenceSeconds before scheduler) (call : PollCall T) :
  PollEvent.starts (JobScheduler.polling.event scheduler call) = true ↔
    scheduler.isDue call.now.seconds = true
  := by
  have houtput : (JobScheduler.polling.event scheduler call).output
    = (scheduler.runDue call).2 := rfl
  have hfree : scheduler.singleFlight.isInFlight call.collectionKey = false := by
    rw [h.singleFlight]
    rfl
  rw [PollEvent.starts, houtput]
  obtain ⟨hdue, hrun⟩ | ⟨hleased, -⟩ | ⟨hdue, -, ⟨-, hrun⟩ | ⟨result, -, hrun⟩⟩ :=
    scheduler.runDue_cases call
  · simp [hdue, hrun]
  · simp [hfree] at hleased
  · simp [hdue, hrun]
  · simp [hdue, hrun]

/-- Under clock readings that do not decrease, a call keeps the cadence exactly when it is
undisturbed. -/
theorem keepsCadence_iff (h : Remembers cadenceSeconds before scheduler) (call : PollCall T)
    (hcadence : cadenceSeconds ≤ pollCadenceMaximumSeconds)
    (hclock : before.Pairwise fun e e' => e.input.now.seconds ≤ e'.input.now.seconds) :
  KeepsCadence cadenceSeconds before (JobScheduler.polling.event scheduler call) ↔
    Undisturbed cadenceSeconds before call
  := by
  have hown : OwnDue cadenceSeconds before call ↔ ∀ run ∈ before,
      run.runs call.collectionKey = true → Elapsed cadenceSeconds run.input.now call.now :=
    elapsed_lastStart_iff hclock
  have hstarts : PollEvent.starts (JobScheduler.polling.event scheduler call) = true ↔
      ∀ run ∈ before, run.returns = true → Elapsed cadenceSeconds run.input.now call.now := by
    rw [h.starts_iff, h.isDue_iff call.now hcadence, elapsed_lastStart_iff hclock]
  have hfree : scheduler.singleFlight.isInFlight call.collectionKey = false := by
    rw [h.singleFlight]
    rfl
  constructor
  · rintro ⟨hruns, hspaced⟩
    constructor
    · intro hdue run hrun _ hreturns
      apply hstarts.mp (hruns hdue hfree) run hrun hreturns
    · intro hnotDue
      by_contra hnone
      push Not at hnone
      apply hnotDue
      apply hown.mpr
      apply hspaced (hstarts.mpr hnone)
  · rintro ⟨hdue, hnotDue⟩
    constructor
    · intro howndue _
      apply hstarts.mpr
      intro run hrun hreturns
      by_cases hkey : run.input.collectionKey = call.collectionKey
      · apply hown.mp howndue run hrun
        simp [PollEvent.runs, PollEvent.starts_of_returns hreturns, hkey]
      · apply hdue howndue run hrun hkey hreturns
    · intro hstarted
      apply hown.mp
      by_contra hnot
      obtain ⟨run, hrun, hreturns, hrecent⟩ := hnotDue hnot
      apply hrecent
      apply hstarts.mp hstarted run hrun hreturns

end Remembers

/-- The cadence is within its bounds. -/
theorem clampPollCadenceSeconds_le (requested : UInt32) :
  clampPollCadenceSeconds requested ≤ pollCadenceMaximumSeconds
  := by
  rw [clampPollCadenceSeconds]
  split_ifs with hlow hhigh
  · decide
  · apply UInt32.le_refl
  · apply UInt32.not_lt.mp hhigh

/-- In every run of calls with clock readings that do not decrease, all calls keep the cadence of
their collections exactly when all of them are undisturbed. -/
theorem runDue_keepsCadence_iff (requestedCadenceSeconds : UInt32) (calls : List (PollCall T))
    (hclock : calls.Pairwise fun call call' => call.now.seconds ≤ call'.now.seconds) :
  let cadenceSeconds := clampPollCadenceSeconds requestedCadenceSeconds
  let scheduler := JobScheduler.new requestedCadenceSeconds
  let polling := JobScheduler.polling (T := T)
  (∀ before call after, calls = before ++ call :: after →
      KeepsCadence cadenceSeconds (polling.history scheduler before)
        (polling.event (polling.final scheduler before) call))
    ↔ ∀ before call after, calls = before ++ call :: after →
      Undisturbed cadenceSeconds (polling.history scheduler before) call
  := by
  intro cadenceSeconds scheduler polling
  apply forall_congr'
  intro before
  apply forall₂_congr
  intro call after
  apply imp_congr_right
  rintro rfl
  have hremembers : Remembers cadenceSeconds (polling.history scheduler before)
      (polling.final scheduler before) := by
    apply polling.run_induction (P := Remembers cadenceSeconds)
    · apply remembers_new
    · intro history scheduler call hremembers
      apply hremembers.snoc call
  apply hremembers.keepsCadence_iff call (clampPollCadenceSeconds_le requestedCadenceSeconds)
  have hbefore := (List.pairwise_append.mp hclock).1
  rw [← polling.history_map_input scheduler before] at hbefore
  apply List.pairwise_map.mp hbefore

end

/-! ### A collection that waits for another one -/

/-- A call for the collection with this number whose job returns. -/
def pollAt (collection : UInt8) (now : Int64) : PollCall Unit :=
  ⟨⟨Vector.replicate 16 collection⟩, ⟨now⟩, some ()⟩

/-- Two collections that are polled a minute apart keep their cadence. -/
theorem minuteApart_keepsCadence :
  let calls := [pollAt 1 0, pollAt 2 60]
  let polling := JobScheduler.polling (T := Unit)
  ∀ before call after, calls = before ++ call :: after →
    KeepsCadence 60 (polling.history (.new 60) before)
      (polling.event (polling.final (.new 60) before) call)
  := by
  intro calls polling
  apply (runDue_keepsCadence_iff 60 calls (by decide)).mpr
  intro before call after hcalls
  rcases before with _ | ⟨first, _ | ⟨second, before⟩⟩
  · obtain ⟨rfl, rfl⟩ := List.cons.inj hcalls
    exact ⟨by decide, fun hnot => absurd (by decide) hnot⟩
  · obtain ⟨rfl, htail⟩ := List.cons.inj hcalls
    obtain ⟨rfl, rfl⟩ := List.cons.inj htail
    exact ⟨by decide, fun hnot => absurd (by decide) hnot⟩
  · simp [calls] at hcalls

/-- A collection that has never run is not due half a minute after another one ran. -/
theorem halfMinuteApart_not_keepsCadence :
  let calls := [pollAt 1 0, pollAt 2 30]
  let polling := JobScheduler.polling (T := Unit)
  calls.Pairwise (fun call call' => call.now.seconds ≤ call'.now.seconds)
    ∧ (polling.history (.new 60) calls).map (·.output) = [some (.ran ()), some .notDue]
    ∧ ¬ ∀ before call after, calls = before ++ call :: after →
      KeepsCadence 60 (polling.history (.new 60) before)
        (polling.event (polling.final (.new 60) before) call)
  := by
  intro calls polling
  refine ⟨by decide, by decide, ?_⟩
  intro hkeeps
  have hkept := hkeeps [pollAt 1 0] (pollAt 2 30) [] rfl
  have hstarts := hkept.runs_of_due (by decide) (by decide)
  revert hstarts
  decide

end Application
