import OpenLoops.Review.PassAccounts

/-!
# Runs of parallel passes

However the workers of a pass interleave, no job is run twice and none is lost: the outcome of a job
that is known stays so, a pass stops only for an answer that is known, and a job that a worker
gives back is never run.
-/

namespace Review

open Inference

variable {α : Type}

namespace Pass

variable (weights : List ℕ)

/-! ### Outcomes -/

/-- The outcome of the job is known: it is noted, or a worker has it. -/
def Known (s : Pass α) (index : ℕ) (outcome : JobOutcome α) : Prop :=
  (index, outcome) ∈ s.done
    ∨ ∃ worker, (s.workers worker).job = some index ∧ (s.workers worker).outcome = some outcome

section

variable (s : Pass α) (worker : ℕ) (answer : Option (Except ProviderError α))

/-- A worker that is not the one that steps stays at its place. -/
theorem stepWorker_of_ne {other : ℕ} (hne : other ≠ worker) :
  (s.stepWorker weights worker answer).1.workers other = s.workers other
  := by
  rw [stepWorker_workers, Function.update_of_ne hne]

variable {s}

/-- An outcome that is known stays so. -/
theorem Known.stepWorker {index : ℕ} {outcome : JobOutcome α} (hknown : s.Known index outcome) :
  (s.stepWorker weights worker answer).1.Known index outcome
  := by
  rcases hknown with hdone | ⟨other, hjob, houtcome⟩
  · left
    apply (stepWorker_done weights s worker answer _).mpr
    left
    exact hdone
  · by_cases hother : other = worker
    · subst hother
      rcases stepWorker_outcome weights s other answer hjob houtcome with hnone | hsome
      · left
        apply (stepWorker_done weights s other answer _).mpr
        right
        exact ⟨hjob, houtcome, hnone⟩
      · right
        use other
    · right
      use other
      rw [stepWorker_of_ne weights s worker answer hother]
      exact ⟨hjob, houtcome⟩

/-- A job is known not to be started when a flag is raised, or it was known before. -/
theorem known_notStarted {index : ℕ}
    (hknown : (s.stepWorker weights worker answer).1.Known index .notStarted) :
  (∃ index, s.Known index .notStarted) ∨ s.stop ∨ s.cancel
  := by
  rcases hknown with hdone | ⟨other, hjob, houtcome⟩
  · rcases (stepWorker_done weights s worker answer _).mp hdone with hdone | ⟨hjob, houtcome, -⟩
    · left
      use index, .inl hdone
    · left
      use index, .inr ⟨worker, hjob, houtcome⟩
  · by_cases hother : other = worker
    · subst hother
      rcases notStarted_of_stepWorker weights s other answer houtcome with hbefore | hraised
      · left
        obtain ⟨index', hindex⟩ := Place.exists_job hbefore
        use index', .inr ⟨other, hindex, hbefore⟩
      · right
        exact hraised
    · left
      rw [stepWorker_of_ne weights s worker answer hother] at hjob houtcome
      use index, .inr ⟨other, hjob, houtcome⟩

end

/-- A pass is stopped by an answer that is known, jobs are left and workers leave only when a flag is
raised or there is no job any more. -/
structure Explained (workers : ℕ) (s : Pass α) : Prop where
  stop : s.stop → ∃ index result, jobSignal result = .stop ∧ s.Known index (.completed result)
  notStarted : ∀ index, s.Known index .notStarted → s.stop ∨ s.cancel
  left : ∀ worker < workers, s.workers worker = .exited →
    s.stop ∨ s.cancel ∨ weights.length ≤ s.cursor

/-- A step of a worker is explained when those before are. -/
theorem Explained.stepWorker {workers : ℕ} {s : Pass α} (hexplained : Explained weights workers s)
    (worker : ℕ) (answer : Option (Except ProviderError α)) :
  Explained weights workers (s.stepWorker weights worker answer).1
  := by
  have hflags : s.stop ∨ s.cancel →
      (s.stepWorker weights worker answer).1.stop
        ∨ (s.stepWorker weights worker answer).1.cancel := by
    rintro (hstop | hcancel)
    · left
      apply stepWorker_stop weights s worker answer hstop
    · right
      rw [stepWorker_cancel]
      exact hcancel
  have hcursor := le_stepWorker_cursor weights s worker answer
  have hnotStarted : ∀ index, s.Known index .notStarted →
      (s.stepWorker weights worker answer).1.stop
        ∨ (s.stepWorker weights worker answer).1.cancel := by
    intro index hknown
    apply hflags (hexplained.notStarted index hknown)
  have hleft : s.stop ∨ s.cancel ∨ weights.length ≤ s.cursor →
      (s.stepWorker weights worker answer).1.stop
        ∨ (s.stepWorker weights worker answer).1.cancel
        ∨ weights.length ≤ (s.stepWorker weights worker answer).1.cursor := by
    have hle : weights.length ≤ s.cursor →
        weights.length ≤ (s.stepWorker weights worker answer).1.cursor :=
      fun hle => hle.trans hcursor
    tauto
  constructor
  · intro hstop
    rcases stop_of_stepWorker weights s worker answer hstop with hbefore | ⟨result, hresult, hhas⟩
    · obtain ⟨index, result, hresult, hknown⟩ := hexplained.stop hbefore
      use index, result, hresult
      apply hknown.stepWorker
    · obtain ⟨index, hindex⟩ := Place.exists_job hhas
      use index, result, hresult
      apply Known.stepWorker
      right
      use worker
  · intro index hknown
    rcases known_notStarted weights worker answer hknown with ⟨index', hbefore⟩ | hraised
    · apply hnotStarted index' hbefore
    · apply hflags hraised
  · intro other hother hexited
    by_cases hne : other = worker
    · subst hne
      rcases exited_of_stepWorker weights s other answer hexited with hbefore | houtcome | hraised
      · apply hleft (hexplained.left other hother hbefore)
      · obtain ⟨index, hindex⟩ := Place.exists_job houtcome
        have h := hnotStarted index (.inr ⟨other, hindex, houtcome⟩)
        tauto
      · apply hleft hraised
    · rw [stepWorker_of_ne weights s worker answer hne] at hexited
      apply hleft (hexplained.left other hother hexited)

/-! ### Jobs that are given back -/

/-- The job was handed out, and is known at most as not started. -/
def Refused (s : Pass α) (index : ℕ) : Prop :=
  index < s.cursor ∧ (∀ outcome, (index, outcome) ∈ s.done → outcome = .notStarted)
    ∧ ∀ worker, (s.workers worker).job = some index → (s.workers worker).outcome = some .notStarted

/-- A job that is given back stays so. -/
theorem Refused.stepWorker {s : Pass α} {index : ℕ} (hrefused : s.Refused index) (worker : ℕ)
    (answer : Option (Except ProviderError α)) :
  (s.stepWorker weights worker answer).1.Refused index
  := by
  obtain ⟨hcursor, hdone, hworkers⟩ := hrefused
  refine ⟨hcursor.trans_le (le_stepWorker_cursor weights s worker answer), ?_, ?_⟩
  · intro outcome houtcome
    rcases (stepWorker_done weights s worker answer _).mp houtcome with hbefore | ⟨hjob, hhas, -⟩
    · apply hdone outcome hbefore
    · rw [hworkers worker hjob] at hhas
      exact (Option.some.inj hhas).symm
  · intro other hother
    by_cases hne : other = worker
    · subst hne
      rcases stepWorker_job weights s other answer index hother with hjob | ⟨hnext, -⟩
      · rcases stepWorker_outcome weights s other answer hjob (hworkers other hjob) with
          hnone | ⟨-, hsame⟩
        · rw [hnone] at hother
          cases hother
        · exact hsame
      · omega
    · rw [stepWorker_of_ne weights s worker answer hne] at hother ⊢
      apply hworkers other hother

/-- A job is given back when a worker finds a flag raised. -/
theorem Accounted.refused {workers conversationIndex processed : ℕ} {invoked : List ℕ}
    {s : Pass α} (haccounted : Accounted weights workers conversationIndex processed invoked s)
    {worker index : ℕ} (answer : Option (Except ProviderError α))
    (hplace : s.workers worker = .claimed index ∨ s.workers worker = .registered index)
    (hraised : s.stop ∨ s.cancel) :
  (s.stepWorker weights worker answer).1.Refused index
  := by
  have hjob : (s.workers worker).job = some index := by
    rcases hplace with hplace | hplace <;> rw [hplace] <;> rfl
  obtain ⟨hnoted, hcursor⟩ := haccounted.not_noted hjob
  obtain ⟨houtcome, hdone⟩ := stepWorker_of_raised weights s worker answer hplace hraised
  refine ⟨hcursor.trans_le (le_stepWorker_cursor weights s worker answer), ?_, ?_⟩
  · intro outcome hmem
    rw [hdone] at hmem
    have h := List.countP_eq_zero.mp hnoted _ hmem
    simp at h
  · intro other hother
    by_cases hne : other = worker
    · rw [hne]
      exact houtcome
    · rw [stepWorker_of_ne weights s worker answer hne] at hother
      apply absurd (haccounted.eq_of_job hjob hother) hne

/-- A job that is given back was not invoked. -/
theorem Accounted.not_mem_of_refused {workers conversationIndex processed : ℕ} {invoked : List ℕ}
    {s : Pass α} (haccounted : Accounted weights workers conversationIndex processed invoked s)
    {index : ℕ} (hrefused : s.Refused index) :
  index ∉ invoked
  := by
  obtain ⟨-, hdone, hworkers⟩ := hrefused
  apply List.count_eq_zero.mp
  rw [← haccounted.sent, Nat.add_eq_zero_iff]
  constructor
  · apply Finset.sum_eq_zero
    intro worker _
    apply Place.sends_eq_zero
    intro hjob
    apply hworkers worker hjob
  · apply List.countP_eq_zero.mpr
    rintro ⟨index', outcome⟩ hmem
    simp only [Bool.and_eq_true, decide_eq_true_eq, not_and, Bool.not_eq_true]
    rintro rfl
    rw [hdone outcome hmem]
    rfl

/-! ### Whole passes -/

/-- The jobs that were invoked, in order. -/
def invokedJobs (history : List (Machine.Event (Pass α) (Turn α) (Option ℕ))) : List ℕ :=
  history.filterMap (·.output)

/-- The worker finds a flag raised at its last looks before it would invoke the job. -/
def FindsRaised (event : Machine.Event (Pass α) (Turn α) (Option ℕ)) (index : ℕ) : Prop :=
  ∃ worker answer, event.input = .worker worker answer
    ∧ (event.before.workers worker = .claimed index
      ∨ event.before.workers worker = .registered index)
    ∧ (event.before.stop ∨ event.before.cancel)

section

variable (limiter : LimiterState) (cancel : Bool) (conversationIndex processed : ℕ)

/-- The accounts of a pass are kept, what stopped it is known, and a job that was given back stays
so. -/
theorem pass_runs (turns : List (Turn α)) :
  let first := start weights limiter cancel conversationIndex processed
  let history := (machine α weights).history first turns
  let s := (machine α weights).final first turns
  Accounted weights (workerCount weights limiter) conversationIndex processed
      (invokedJobs history) s
    ∧ Explained weights (workerCount weights limiter) s
    ∧ ∀ event ∈ history, ∀ index, FindsRaised event index → s.Refused index
  := by
  apply (machine α weights).run_induction (P := fun history s =>
    Accounted weights (workerCount weights limiter) conversationIndex processed
        (invokedJobs history) s
      ∧ Explained weights (workerCount weights limiter) s
      ∧ ∀ event ∈ history, ∀ index, FindsRaised event index → s.Refused index)
  · refine ⟨accounted_start weights limiter cancel conversationIndex processed, ?_, by simp⟩
    constructor
    · simp [start]
    · rintro index (hdone | ⟨worker, hjob, -⟩)
      · simp [start] at hdone
      · simp only [start] at hjob
        split at hjob <;> cases hjob
    · intro worker hworker hexited
      simp [start, hworker] at hexited
  · rintro history s turn ⟨haccounted, hexplained, hrefused⟩
    have hinvoked : invokedJobs (history ++ [(machine α weights).event s turn])
        = invokedJobs history ++ ((machine α weights).step s turn).2.toList := by
      simp only [invokedJobs, List.filterMap_append, List.filterMap_cons, List.filterMap_nil,
        Machine.event_output]
      cases ((machine α weights).step s turn).2 <;> rfl
    rw [hinvoked]
    simp only [List.mem_append, List.mem_singleton, or_imp, forall_and, forall_eq]
    rcases turn with ⟨worker, answer⟩ | -
    · refine ⟨haccounted.stepWorker weights worker answer,
        hexplained.stepWorker weights worker answer, ?_, ?_⟩
      · intro event hevent index hfinds
        apply Refused.stepWorker
        apply hrefused event hevent index hfinds
      · rintro index ⟨worker', answer', hinput, hplace, hraised⟩
        cases hinput
        apply haccounted.refused weights answer hplace hraised
    · refine ⟨?_, ?_, ?_, ?_⟩
      · simp only [machine, Option.toList_none, List.append_nil]
        apply haccounted.cancel
      · constructor
        · exact hexplained.stop
        · intro index _
          right
          rfl
        · intro worker _ _
          right
          left
          rfl
      · exact hrefused
      · rintro index ⟨worker, answer, hinput, -⟩
        cases hinput

/-- All workers have left when the first ones have. -/
theorem allExited_final {turns : List (Turn α)}
    (hexited : ∀ worker < workerCount weights limiter, ((machine α weights).final
      (start weights limiter cancel conversationIndex processed) turns).workers worker = .exited) :
  ((machine α weights).final (start weights limiter cancel conversationIndex processed)
    turns).AllExited
  := by
  intro worker
  by_cases hworker : worker < workerCount weights limiter
  · apply hexited worker hworker
  · apply (pass_runs weights limiter cancel conversationIndex processed turns).1.outside
    omega

/-- The limiter of a pass keeps its maximum. -/
theorem final_maximum (turns : List (Turn α)) :
  ((machine α weights).final (start weights limiter cancel conversationIndex processed)
    turns).limiter.maximum = limiter.maximum
  := by
  apply (machine α weights).run_induction (P := fun _ s => s.limiter.maximum = limiter.maximum)
  · rfl
  · rintro _ s turn hmaximum
    rw [← hmaximum]
    rcases turn with ⟨worker, answer⟩ | -
    · apply stepWorker_maximum
    · rfl

/-- A pass is cancelled by the user alone. -/
theorem final_cancel {turns : List (Turn α)} (hturns : Turn.cancel ∉ turns) :
  ((machine α weights).final (start weights limiter false conversationIndex processed)
    turns).cancel = false
  := by
  apply (machine α weights).invariant_final_of_admits (I := fun s => s.cancel = false)
    (G := fun _ turn => turn ≠ .cancel)
  · rfl
  · rintro s (⟨worker, answer⟩ | -) hcancel hturn
    · rw [← hcancel]
      apply stepWorker_cancel
    · apply absurd rfl hturn
  · apply Machine.admits_of_forall
    intro turn hturn heq
    rw [heq] at hturn
    apply hturns hturn

end

/-- The results of a pass are in the order of their jobs, each of which is there at most once. -/
theorem Accounted.sortedLT_results {workers conversationIndex processed : ℕ} {invoked : List ℕ}
    {s : Pass α} (haccounted : Accounted weights workers conversationIndex processed invoked s) :
  (s.results.map Prod.fst).SortedLT
  := by
  apply (KeyOrder.sortedLE_map_sort Prod.fst s.done).sortedLT_of_nodup
  apply ((KeyOrder.sort_perm Prod.fst s.done).map Prod.fst).nodup_iff.mpr
  apply haccounted.nodup_done

/-- An entry of the results is one that was noted. -/
theorem mem_results {s : Pass α} {entry : ℕ × JobOutcome α} :
  entry ∈ s.results ↔ entry ∈ s.done
  := (KeyOrder.sort_perm Prod.fst s.done).mem_iff

/-- An entry of the results is for a job. -/
theorem Accounted.lt_of_mem_results {workers conversationIndex processed : ℕ} {invoked : List ℕ}
    {s : Pass α} (haccounted : Accounted weights workers conversationIndex processed invoked s)
    {entry : ℕ × JobOutcome α} (hentry : entry ∈ s.results) :
  entry.1 < weights.length
  := by
  have hnoted : 0 < s.noted entry.1 := by
    apply List.countP_pos_iff.mpr
    use entry, mem_results.mp hentry
    simp
  have hheld := haccounted.held entry.1
  unfold handedOut at hheld
  split at hheld
  · case isTrue hlt => exact hlt.2
  · omega

/-- When all workers have left, they hold nothing. -/
theorem AllExited.total_eq_zero {s : Pass α} (hexited : s.AllExited) (workers : ℕ)
    {amount : Place α → ℕ} (hamount : amount .exited = 0) :
  total workers amount s = 0
  := by
  apply Finset.sum_eq_zero
  intro worker _
  rw [hexited worker, hamount]

/-- When all workers have left, what is known is noted. -/
theorem AllExited.known {s : Pass α} (hexited : s.AllExited) {index : ℕ} {outcome : JobOutcome α} :
  s.Known index outcome ↔ (index, outcome) ∈ s.results
  := by
  rw [mem_results, Known, or_iff_left]
  rintro ⟨worker, hjob, -⟩
  rw [hexited worker] at hjob
  cases hjob

/-- When all workers have left a pass that was neither stopped nor cancelled, each job has its
answer. -/
theorem results_of_not_stopped {limiter : LimiterState} {conversationIndex processed : ℕ}
    {invoked : List ℕ} {s : Pass α}
    (haccounted : Accounted weights (workerCount weights limiter) conversationIndex processed
      invoked s)
    (hexplained : Explained weights (workerCount weights limiter) s) (hexited : s.AllExited)
    (hstop : ∀ entry ∈ s.results, ∀ result, entry.2 = .completed result → jobSignal result ≠ .stop)
    (hcancel : s.cancel = false) :
  s.results.map Prod.fst = List.range weights.length ∧ ∀ entry ∈ s.results, entry.2.wasSent
  := by
  have hnotStopped : s.stop = false := by
    apply Bool.eq_false_iff.mpr
    intro h
    obtain ⟨index, result, hresult, hknown⟩ := hexplained.stop h
    apply hstop _ (hexited.known.mp hknown) result rfl hresult
  constructor
  · apply haccounted.sortedLT_results.eq_of_mem_iff (List.sortedLT_range _)
    intro index
    have hcursor : 0 < weights.length → weights.length ≤ s.cursor := by
      intro hpos
      have hworkers : 0 < workerCount weights limiter := by
        have := limiter.one_le_allowed.trans limiter.allowed_le
        unfold workerCount
        omega
      have h := hexplained.left 0 hworkers (hexited 0)
      simpa [hnotStopped, hcancel] using h
    have hheld := haccounted.held index
    rw [hexited.total_eq_zero _ rfl, handedOut, Nat.zero_add] at hheld
    have hnoted : index ∈ s.results.map Prod.fst ↔ 0 < s.noted index := by
      simp only [List.mem_map, mem_results, noted, List.countP_pos_iff, decide_eq_true_eq]
    rw [hnoted, hheld, List.mem_range]
    split <;> omega
  · rintro ⟨index, outcome⟩ hentry
    cases outcome with
    | completed _ => rfl
    | panicked => rfl
    | notStarted =>
        have h := hexplained.notStarted index (hexited.known.mpr hentry)
        simp [hnotStopped, hcancel] at h

/-- However the workers of a pass interleave, whatever the answers are and whenever the user cancels,
no job is invoked twice and the results are in the order of the jobs; when all workers have left
and the pass was neither stopped nor cancelled, each job has its answer; a job whose worker finds
a flag raised before it would invoke it is never invoked, and known at most as not started; the
limiter stays between one and its maximum; and when all workers have left, no request is active, and
the jobs invoked and their weights are counted. -/
theorem pass_counts_each_job_once (limiter : LimiterState) (cancel : Bool)
    (conversationIndex processed : ℕ) (turns : List (Turn α)) :
  let first := start weights limiter cancel conversationIndex processed
  let history := (machine α weights).history first turns
  let s := (machine α weights).final first turns
  (invokedJobs history).Nodup ∧ (s.results.map Prod.fst).SortedLT
    ∧ (s.AllExited → cancel = false → Turn.cancel ∉ turns →
        (∀ entry ∈ s.results, ∀ result, entry.2 = .completed result → jobSignal result ≠ .stop) →
        s.results.map Prod.fst = List.range weights.length
          ∧ ∀ entry ∈ s.results, entry.2.wasSent)
    ∧ (∀ event ∈ history, ∀ index, FindsRaised event index →
        index ∉ invokedJobs history ∧ ∀ entry ∈ s.results, entry.1 = index → entry.2 = .notStarted)
    ∧ 1 ≤ s.limiter.allowed ∧ s.limiter.allowed ≤ s.limiter.maximum
    ∧ s.limiter.maximum = limiter.maximum
    ∧ (s.AllExited → s.activeRequests = ∅
        ∧ s.conversationIndex = conversationIndex + (invokedJobs history).length
        ∧ s.processed = processed + ((invokedJobs history).map (weights.getD · 0)).sum)
  := by
  intro first history s
  obtain ⟨haccounted, hexplained, hrefused⟩ :=
    pass_runs weights limiter cancel conversationIndex processed turns
  refine ⟨haccounted.nodup, haccounted.sortedLT_results, ?_, ?_, s.limiter.one_le_allowed,
    s.limiter.allowed_le, ?_, ?_⟩
  · rintro hexited rfl hturns hstop
    apply results_of_not_stopped weights haccounted hexplained hexited hstop
    apply final_cancel weights limiter conversationIndex processed hturns
  · intro event hevent index hfinds
    have h := hrefused event hevent index hfinds
    use haccounted.not_mem_of_refused weights h
    rintro ⟨index', outcome⟩ hentry rfl
    apply h.2.1 outcome (mem_results.mp hentry)
  · apply final_maximum
  · intro hexited
    have hcounted := haccounted.counted
    have hweighed := haccounted.weighed
    rw [hexited.total_eq_zero _ rfl] at hcounted hweighed
    refine ⟨?_, hcounted, hweighed⟩
    apply Finset.eq_empty_of_forall_notMem
    intro worker hworker
    have h := (haccounted.active worker).mp hworker
    rw [hexited worker] at h
    cases h

end Pass

end Review
