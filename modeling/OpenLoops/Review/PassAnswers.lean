import OpenLoops.Review.PassRuns

/-!
# Passes whose answers are given

When each job has its own answer, whenever it is asked for, the outcomes of a pass are those answers,
except for the jobs that were not started.  So the results of a pass that was not stopped do not
depend on how its workers interleave.
-/

namespace Review

open Inference

variable {α : Type}

/-- Outcomes of jobs: each job has one at most, and they are in the order of the jobs. -/
structure PassOutcomes (α : Type) (jobs : ℕ) where
  entries : JobResults α
  sorted : (entries.map Prod.fst).SortedLT
  lt : ∀ entry ∈ entries, entry.1 < jobs

/-- What becomes of the answer to a job; a job without one panics. -/
def JobOutcome.ofAnswer : Option (Except ProviderError α) → JobOutcome α
  | some result => .completed result
  | none => .panicked

namespace Pass

variable (weights : List ℕ) (analyze : ℕ → Option (Except ProviderError α))

/-- A job that is answered has its own answer. -/
def AnswersAs (s : Pass α) : Turn α → Prop
  | .worker worker answer => ∀ index, s.workers worker = .invoking index → answer = analyze index
  | .cancel => True

/-- The outcomes that are known are the answers of their jobs, or the jobs were not started. -/
def Answered (s : Pass α) : Prop :=
  ∀ index outcome, s.Known index outcome →
    outcome = .notStarted ∨ outcome = .ofAnswer (analyze index)

/-- A worker comes to have an outcome when it gives its job back, or when the job is answered. -/
theorem outcome_of_stepWorker (s : Pass α) (worker : ℕ) (answer : Option (Except ProviderError α))
    {index : ℕ} {outcome : JobOutcome α}
    (hjob : ((s.stepWorker weights worker answer).1.workers worker).job = some index)
    (houtcome : ((s.stepWorker weights worker answer).1.workers worker).outcome = some outcome) :
  (s.workers worker).job = some index ∧ (s.workers worker).outcome = some outcome
    ∨ outcome = .notStarted
    ∨ s.workers worker = .invoking index ∧ outcome = .ofAnswer answer
  := by
  revert hjob houtcome
  fun_cases stepWorker weights s worker answer <;>
    simp +contextual [startRequest, finishRequest, note, goto, JobOutcome.ofAnswer, *]

/-- Answers stay so. -/
theorem Answered.stepWorker {s : Pass α} (hanswered : s.Answered analyze) {worker : ℕ}
    {answer : Option (Except ProviderError α)}
    (hanswers : s.AnswersAs analyze (.worker worker answer)) :
  (s.stepWorker weights worker answer).1.Answered analyze
  := by
  rintro index outcome (hdone | ⟨other, hjob, houtcome⟩)
  · rcases (stepWorker_done weights s worker answer _).mp hdone with hdone | ⟨hjob, houtcome, -⟩
    · apply hanswered index outcome (.inl hdone)
    · apply hanswered index outcome (.inr ⟨worker, hjob, houtcome⟩)
  · by_cases hother : other = worker
    · subst hother
      rcases outcome_of_stepWorker weights s other answer hjob houtcome with
        ⟨hjob, houtcome⟩ | hnotStarted | ⟨hplace, rfl⟩
      · apply hanswered index outcome (.inr ⟨other, hjob, houtcome⟩)
      · left
        exact hnotStarted
      · right
        rw [hanswers index hplace]
    · rw [stepWorker_of_ne weights s worker answer hother] at hjob houtcome
      apply hanswered index outcome (.inr ⟨other, hjob, houtcome⟩)

variable (limiter : LimiterState) (cancel : Bool) (conversationIndex processed : ℕ)

/-- In a run whose jobs have their own answers, the outcomes are these. -/
theorem answered_final {turns : List (Turn α)}
    (hanswers : (machine α weights).Admits (AnswersAs analyze)
      (start weights limiter cancel conversationIndex processed) turns) :
  ((machine α weights).final (start weights limiter cancel conversationIndex processed)
    turns).Answered analyze
  := by
  apply (machine α weights).invariant_final_of_admits _ _ turns hanswers
  · rintro index outcome (hdone | ⟨worker, hjob, -⟩)
    · simp [start] at hdone
    · simp only [start] at hjob
      split at hjob <;> cases hjob
  · rintro s (⟨worker, answer⟩ | -) hanswered hturn
    · apply hanswered.stepWorker weights analyze hturn
    · exact hanswered

/-- However the workers interleave, the results of a pass that was neither stopped nor cancelled are
the answers of the jobs. -/
theorem results_eq_answers {turns : List (Turn α)}
    (hanswers : (machine α weights).Admits (AnswersAs analyze)
      (start weights limiter cancel conversationIndex processed) turns)
    (hstop : ∀ index < weights.length, ∀ result, analyze index = some result →
      jobSignal result ≠ .stop)
    (hexited : ((machine α weights).final (start weights limiter cancel conversationIndex processed)
      turns).AllExited)
    (hcancel : ((machine α weights).final (start weights limiter cancel conversationIndex processed)
      turns).cancel = false) :
  ((machine α weights).final (start weights limiter cancel conversationIndex processed)
      turns).results
    = (List.range weights.length).map fun index => (index, .ofAnswer (analyze index))
  := by
  obtain ⟨haccounted, hexplained, -⟩ :=
    pass_runs weights limiter cancel conversationIndex processed turns
  have hanswered := answered_final weights analyze limiter cancel conversationIndex processed
    hanswers
  have hknown : ∀ entry ∈ ((machine α weights).final
      (start weights limiter cancel conversationIndex processed) turns).results,
      entry.2 = .notStarted ∨ entry.2 = .ofAnswer (analyze entry.1) := by
    intro entry hentry
    apply hanswered entry.1 entry.2
    apply hexited.known.mpr hentry
  have hsent := results_of_not_stopped weights haccounted hexplained hexited (by
    intro entry hentry result hresult
    rcases hknown entry hentry with hnotStarted | hanswer
    · rw [hnotStarted] at hresult
      cases hresult
    · rw [hanswer] at hresult
      apply hstop entry.1 (haccounted.lt_of_mem_results weights hentry)
      cases hanalyze : analyze entry.1 with
      | none =>
          rw [hanalyze] at hresult
          cases hresult
      | some result' =>
          rw [hanalyze] at hresult
          cases hresult
          rfl) hcancel
  rw [← hsent.1, List.map_map]
  apply (List.map_id _).symm.trans
  apply List.map_congr_left
  rintro ⟨index, outcome⟩ hentry
  rcases hknown _ hentry with hnotStarted | hanswer
  · have hwas := hsent.2 _ hentry
    rw [hnotStarted] at hwas
    cases hwas
  · exact Prod.ext rfl hanswer

end Pass

/-! ### Runs of passes -/

/-- A run of a pass: what it starts with, and what happens. -/
structure PassRun (α : Type) where
  limiter : LimiterState
  cancel : Bool
  conversationIndex : ℕ
  processed : ℕ
  turns : List (Pass.Turn α)

namespace PassRun

variable (run : PassRun α) (weights : List ℕ)

def first : Pass α :=
  Pass.start weights run.limiter run.cancel run.conversationIndex run.processed

/-- The pass where the run ends. -/
def final : Pass α :=
  (Pass.machine α weights).final (run.first weights) run.turns

/-- The jobs have the answers that are given, and all workers have left. -/
structure Completes (analyze : ℕ → Option (Except ProviderError α)) : Prop where
  answers : (Pass.machine α weights).Admits (Pass.AnswersAs analyze) (run.first weights) run.turns
  exited : (run.final weights).AllExited

/-- The outcomes of the jobs where the run ends. -/
def outcomes : PassOutcomes α weights.length where
  entries := (run.final weights).results
  sorted := (Pass.pass_runs weights run.limiter run.cancel run.conversationIndex run.processed
    run.turns).1.sortedLT_results
  lt := by
    intro entry hentry
    apply (Pass.pass_runs weights run.limiter run.cancel run.conversationIndex run.processed
      run.turns).1.lt_of_mem_results weights hentry

end PassRun

end Review
