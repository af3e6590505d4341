import OpenLoops.Graph.Hydration
import OpenLoops.Library.Workers

/-!
# Runs of loading

However the workers interleave, every row of the listing is processed once, and the source has what
became of it at its place.
-/

namespace Graph

/-! ### What a worker holds -/

namespace HydrationPlace

/-- The row that the worker has, with its place in the listing. -/
@[simp]
def row : HydrationPlace → Option (ℕ × Json)
  | .checking | .drawing | .exited => none
  | .claimed index row | .looking index row | .hydrating index row | .counting index row _
  | .sending index row _ => some (index, row)

/-- What became of the row. -/
@[simp]
def outcome : HydrationPlace → Option RowOutcome
  | .counting _ _ outcome | .sending _ _ outcome => some outcome
  | _ => none

/-- Whether the worker has the row, as a number. -/
def holds (index : ℕ) (place : HydrationPlace) : ℕ :=
  if place.row.any (·.1 = index) then 1 else 0

/-- Whether the worker has a row, as a number. -/
def occupied (place : HydrationPlace) : ℕ :=
  if place.row.isSome then 1 else 0

/-- Whether the worker has processed the row, as a number. -/
def processes (index : ℕ) (place : HydrationPlace) : ℕ :=
  if place.outcome.isSome then place.holds index else 0

/-- The messages of the worker that are counted. -/
@[simp]
def counts : HydrationPlace → ℕ
  | .sending _ _ outcome => if outcome.toOption.isSome then 1 else 0
  | _ => 0

end HydrationPlace

namespace Hydration

/-- How often an outcome of the row was received. -/
def receivedCount (s : Hydration) (index : ℕ) : ℕ :=
  s.received.countP fun result => result.1 = index

/-- How many messages were received. -/
def messageCount (s : Hydration) : ℕ :=
  s.received.countP fun result => result.2.2.toOption.isSome

/-- How often the row is among those that were processed. -/
def processedCount (processed : List (ℕ × RowOutcome)) (index : ℕ) : ℕ :=
  processed.countP fun row => row.1 = index

section

variable (plan : HydrationPlan)

/-- Whether the row was taken when the cursor is at a place, as a number. -/
def taken (next index : ℕ) : ℕ :=
  if index < next ∧ index < plan.collected.length then 1 else 0

theorem taken_succ_of_some {next : ℕ} {row : Json} (h : plan.collected[next]? = some row)
    (index : ℕ) :
  taken plan (next + 1) index = (if next = index then 1 else 0) + taken plan next index
  := by
  have hlt := (List.getElem?_eq_some_iff.mp h).1
  unfold taken
  split_ifs <;> omega

theorem taken_succ_of_none {next : ℕ} (h : plan.collected[next]? = none) (index : ℕ) :
  taken plan (next + 1) index = taken plan next index
  := by
  have hle := List.getElem?_eq_none_iff.mp h
  unfold taken
  split_ifs <;> omega

theorem min_succ_of_some {next : ℕ} {row : Json} (h : plan.collected[next]? = some row) :
  min (next + 1) plan.collected.length = min next plan.collected.length + 1
  := by
  have hlt := (List.getElem?_eq_some_iff.mp h).1
  omega

theorem min_succ_of_none {next : ℕ} (h : plan.collected[next]? = none) :
  min (next + 1) plan.collected.length = min next plan.collected.length
  := by
  have hle := List.getElem?_eq_none_iff.mp h
  omega

/-! ### Steps of a worker -/

variable (s : Hydration) (worker : ℕ) (answer : Except ConnectionError MailItem)

example (hcancel : s.cancel = true) : (s.stepWorker plan worker answer).1.cancel = true
  := by
  fun_cases stepWorker plan s worker answer <;> simpa [goto, draw, count, receive]

/-- A step of a worker moves no other worker. -/
theorem stepWorker_workers :
  (s.stepWorker plan worker answer).1.workers
    = Function.update s.workers worker ((s.stepWorker plan worker answer).1.workers worker)
  := by
  fun_cases stepWorker plan s worker answer <;> simp [goto, draw, count, receive]

variable {s}

/-- A row that is taken stays with the worker until its outcome is sent. -/
theorem stepWorker_holds (hcancel : s.cancel = false) (index : ℕ) :
  let s' := (s.stepWorker plan worker answer).1
  (s'.workers worker).holds index + s'.receivedCount index + taken plan s.next index
    = (s.workers worker).holds index + s.receivedCount index + taken plan s'.next index
  := by
  fun_cases stepWorker plan s worker answer <;>
    simp_all [goto, draw, count, receive, HydrationPlace.holds, receivedCount, List.countP_cons,
      taken_succ_of_some, taken_succ_of_none] <;>
    omega

/-- A row that is processed is noted when its outcome is known. -/
theorem stepWorker_processes (index : ℕ) :
  let s' := (s.stepWorker plan worker answer).1
  (s'.workers worker).processes index + s'.receivedCount index
    = (s.workers worker).processes index + s.receivedCount index
      + processedCount (s.stepWorker plan worker answer).2.toList index
  := by
  fun_cases stepWorker plan s worker answer <;>
    simp_all [goto, draw, count, receive, HydrationPlace.holds, HydrationPlace.processes, receivedCount, processedCount,
      List.countP_cons] <;>
    omega

/-- A message is counted before it is sent. -/
theorem stepWorker_counts :
  let s' := (s.stepWorker plan worker answer).1
  s'.loaded + (s.workers worker).counts + s.messageCount
    = s.loaded + (s'.workers worker).counts + s'.messageCount
  := by
  fun_cases stepWorker plan s worker answer <;>
    simp_all [goto, draw, count, receive, messageCount, List.countP_cons] <;> grind

/-- A worker has a row of the listing. -/
theorem stepWorker_row {index : ℕ} {row : Json}
    (h : ((s.stepWorker plan worker answer).1.workers worker).row = some (index, row)) :
  (s.workers worker).row = some (index, row) ∨ plan.collected[index]? = some row
  := by
  revert h
  fun_cases stepWorker plan s worker answer <;> simp_all [goto, draw, count, receive]
  rintro rfl rfl
  assumption

/-- A worker knows what became of its row once it is processed. -/
theorem stepWorker_outcome {index : ℕ} {row : Json} {outcome : RowOutcome}
    (hrow : ((s.stepWorker plan worker answer).1.workers worker).row = some (index, row))
    (houtcome : ((s.stepWorker plan worker answer).1.workers worker).outcome = some outcome) :
  (s.workers worker).row = some (index, row) ∧ (s.workers worker).outcome = some outcome
    ∨ (s.stepWorker plan worker answer).2 = some (index, outcome)
  := by
  revert hrow houtcome
  fun_cases stepWorker plan s worker answer <;> simp_all [goto, draw, count, receive]

/-- What is received is what the worker knows. -/
theorem stepWorker_received {index : ℕ} {sentTime : Option String} {outcome : RowOutcome}
    (h : (index, sentTime, outcome) ∈ (s.stepWorker plan worker answer).1.received) :
  (index, sentTime, outcome) ∈ s.received
    ∨ ∃ row, (s.workers worker).row = some (index, row)
      ∧ (s.workers worker).outcome = some outcome ∧ sentTime = plan.sentTime row
  := by
  revert h
  fun_cases stepWorker plan s worker answer <;> simp_all [goto, draw, count, receive]
  rintro (h | ⟨rfl, rfl, rfl⟩)
  · exact Or.inl h
  · simp

/-- The message of a row is asked for only when it is not known. -/
theorem stepWorker_asked {index : ℕ} {row : Json}
    (h : (s.stepWorker plan worker answer).1.workers worker = .hydrating index row) :
  s.workers worker = .hydrating index row ∨ plan.cached row = none
  := by
  revert h
  fun_cases stepWorker plan s worker answer <;> simp_all [goto, draw, count, receive]
  rintro rfl rfl
  assumption

/-- A row that is taken is with the worker until it is received. -/
theorem stepWorker_occupied (hcancel : s.cancel = false) :
  let s' := (s.stepWorker plan worker answer).1
  (s'.workers worker).occupied + s'.received.length + min s.next plan.collected.length
    = (s.workers worker).occupied + s.received.length + min s'.next plan.collected.length
  := by
  fun_cases stepWorker plan s worker answer <;>
    simp_all [goto, draw, count, receive, HydrationPlace.occupied, min_succ_of_some,
      min_succ_of_none] <;>
    omega

/-- A row that is processed is one that the worker has. -/
theorem stepWorker_output {processed : ℕ × RowOutcome}
    (hasked : ∀ index row, s.workers worker = .hydrating index row → plan.cached row = none)
    (h : (s.stepWorker plan worker answer).2 = some processed) :
  ∃ row, (s.workers worker).row = some (processed.1, row) ∧ match plan.cached row with
    | some message => processed.2 = .ok (message, true)
    | none => processed.2 = answer.map fun message => (message, false)
  := by
  revert h
  fun_cases stepWorker plan s worker answer <;> simp_all
  all_goals rintro rfl
  · simp_all
  · exact ⟨rfl, rfl⟩

/-- A worker leaves only when there is no row any more, and the cursor never goes back. -/
theorem stepWorker_exited (hcancel : s.cancel = false) :
  s.next ≤ (s.stepWorker plan worker answer).1.next
    ∧ ((s.stepWorker plan worker answer).1.workers worker = .exited →
      s.workers worker = .exited ∨ plan.collected.length ≤ s.next)
  := by
  fun_cases stepWorker plan s worker answer <;> simp_all [goto, draw, count, receive]

theorem stepWorker_listed :
  (s.stepWorker plan worker answer).1.listed = s.listed
    ∧ (s.stepWorker plan worker answer).1.cancel = s.cancel
  := by
  fun_cases stepWorker plan s worker answer <;> simp [goto, draw, count, receive]

end

/-! ### Accounts -/

/-- The row is known, or its message is the answer. -/
def Answers (plan : HydrationPlan) (answer : Except ConnectionError MailItem)
    (processed : ℕ × RowOutcome) : Prop :=
  ∃ row, plan.collected[processed.1]? = some row ∧ match plan.cached row with
    | some message => processed.2 = .ok (message, true)
    | none => processed.2 = answer.map fun message => (message, false)

/-- The rows that were taken are with one worker or received once, and the rows that were processed
are with the workers as such or received; the counters are as they say. -/
structure Accounted (plan : HydrationPlan) (workers listed loaded : ℕ)
    (processed : List (ℕ × RowOutcome)) (s : Hydration) : Prop where
  cancel : s.cancel = false
  outside : ∀ worker, workers ≤ worker → s.workers worker = .exited
  held : ∀ index, Workers.total workers (HydrationPlace.holds index) s.workers
    + s.receivedCount index = taken plan s.next index
  occupied : Workers.total workers HydrationPlace.occupied s.workers + s.received.length
    = min s.next plan.collected.length
  logged : ∀ index, processedCount processed index
    = Workers.total workers (HydrationPlace.processes index) s.workers + s.receivedCount index
  counted : s.loaded = loaded + Workers.total workers HydrationPlace.counts s.workers
    + s.messageCount
  listed : s.listed = listed + plan.collected.length
  rows : ∀ worker index row, (s.workers worker).row = some (index, row) →
    plan.collected[index]? = some row
  outcomes : ∀ worker index row outcome, (s.workers worker).row = some (index, row) →
    (s.workers worker).outcome = some outcome → (index, outcome) ∈ processed
  received : ∀ index sentTime outcome, (index, sentTime, outcome) ∈ s.received →
    (index, outcome) ∈ processed
      ∧ ∃ row, plan.collected[index]? = some row ∧ sentTime = plan.sentTime row
  asked : ∀ worker index row, s.workers worker = .hydrating index row → plan.cached row = none
  left : ∀ worker < workers, s.workers worker = .exited → plan.collected.length ≤ s.next

section

variable {plan : HydrationPlan} {workers listed loaded : ℕ} {processed : List (ℕ × RowOutcome)}
  {s : Hydration}

theorem accounted_start :
  Accounted plan workers listed loaded [] (start plan workers listed loaded false)
  := by
  have hzero : ∀ amount : HydrationPlace → ℕ, amount .checking = 0 →
      Workers.total workers amount (start plan workers listed loaded false).workers = 0 := by
    intro amount hamount
    apply Workers.total_eq_zero
    intro worker hworker
    simp only [start, if_pos hworker, hamount]
  have hplace : ∀ worker, (start plan workers listed loaded false).workers worker = .checking
      ∨ (start plan workers listed loaded false).workers worker = .exited := by
    intro worker
    simp only [start]
    split_ifs <;> simp
  constructor
  · rfl
  · intro worker hworker
    simp only [start, if_neg (Nat.not_lt.mpr hworker)]
  · intro index
    rw [hzero _ rfl]
    simp [start, receivedCount, taken]
  · rw [hzero _ rfl]
    simp [start]
  · intro index
    rw [hzero _ rfl]
    simp [start, receivedCount, processedCount]
  · rw [hzero _ rfl]
    simp [start, messageCount]
  · rfl
  · intro worker index row hrow
    rcases hplace worker with h | h
    · rw [h] at hrow
      cases hrow
    · rw [h] at hrow
      cases hrow
  · intro worker index row outcome hrow
    rcases hplace worker with h | h
    · rw [h] at hrow
      cases hrow
    · rw [h] at hrow
      cases hrow
  · intro index sentTime outcome hreceived
    apply absurd hreceived List.not_mem_nil
  · intro worker index row hasked
    rcases hplace worker with h | h
    · rw [h] at hasked
      cases hasked
    · rw [h] at hasked
      cases hasked
  · intro worker hworker hexited
    simp only [start, if_pos hworker] at hexited
    cases hexited

/-- The accounts are kept by every step of a worker. -/
theorem Accounted.stepWorker (h : Accounted plan workers listed loaded processed s) (worker : ℕ)
    (answer : Except ConnectionError MailItem) :
  Accounted plan workers listed loaded (processed ++ (s.stepWorker plan worker answer).2.toList)
    (s.stepWorker plan worker answer).1
  := by
  by_cases hworker : worker < workers
  · have htotal : ∀ amount : HydrationPlace → ℕ,
        Workers.total workers amount (s.stepWorker plan worker answer).1.workers
          + amount (s.workers worker)
        = Workers.total workers amount s.workers
          + amount ((s.stepWorker plan worker answer).1.workers worker) := by
      intro amount
      rw [stepWorker_workers, Workers.total_update hworker, Function.update_self]
    have hother : ∀ other, other ≠ worker →
        (s.stepWorker plan worker answer).1.workers other = s.workers other := by
      intro other hne
      rw [stepWorker_workers, Function.update_of_ne hne]
    have hstays : ∀ row ∈ processed, row ∈ processed
        ++ (s.stepWorker plan worker answer).2.toList := by
      intro row hrow
      apply List.mem_append_left _ hrow
    constructor
    · rw [(stepWorker_listed plan worker answer).2]
      apply h.cancel
    · intro other houtside
      rw [hother other (by omega)]
      apply h.outside other houtside
    · intro index
      have hstep := stepWorker_holds plan worker answer h.cancel index
      have hchange := htotal (HydrationPlace.holds index)
      have hheld := h.held index
      dsimp only at hstep
      omega
    · have hstep := stepWorker_occupied plan worker answer h.cancel
      have hchange := htotal HydrationPlace.occupied
      have hoccupied := h.occupied
      dsimp only at hstep
      omega
    · intro index
      have hstep := stepWorker_processes plan worker (s := s) answer index
      have hchange := htotal (HydrationPlace.processes index)
      have hlogged := h.logged index
      rw [processedCount, List.countP_append]
      unfold processedCount at hstep hlogged
      dsimp only at hstep
      omega
    · have hstep := stepWorker_counts plan worker (s := s) answer
      have hchange := htotal HydrationPlace.counts
      have hcounted := h.counted
      dsimp only at hstep
      omega
    · rw [(stepWorker_listed plan worker answer).1]
      apply h.listed
    · intro other index row hrow
      by_cases hne : other = worker
      · subst hne
        rcases stepWorker_row plan other answer hrow with hbefore | hrow
        · apply h.rows other index row hbefore
        · exact hrow
      · rw [hother other hne] at hrow
        apply h.rows other index row hrow
    · intro other index row outcome hrow houtcome
      by_cases hne : other = worker
      · subst hne
        rcases stepWorker_outcome plan other answer hrow houtcome with ⟨hrow, houtcome⟩ | houtput
        · apply hstays _ (h.outcomes other index row outcome hrow houtcome)
        · rw [houtput]
          simp
      · rw [hother other hne] at hrow houtcome
        apply hstays _ (h.outcomes other index row outcome hrow houtcome)
    · intro index sentTime outcome hreceived
      rcases stepWorker_received plan worker answer hreceived with
        hreceived | ⟨row, hrow, houtcome, hsent⟩
      · rcases h.received index sentTime outcome hreceived with ⟨hprocessed, hsent⟩
        exact ⟨hstays _ hprocessed, hsent⟩
      · exact ⟨hstays _ (h.outcomes worker index row outcome hrow houtcome), row,
          h.rows worker index row hrow, hsent⟩
    · intro other index row hasked
      by_cases hne : other = worker
      · subst hne
        rcases stepWorker_asked plan other answer hasked with hbefore | hunknown
        · apply h.asked other index row hbefore
        · exact hunknown
      · rw [hother other hne] at hasked
        apply h.asked other index row hasked
    · intro other hlt hexited
      have hstep := stepWorker_exited plan worker answer h.cancel
      by_cases hne : other = worker
      · subst hne
        rcases hstep.2 hexited with hbefore | hle
        · exact (h.left other hlt hbefore).trans hstep.1
        · exact hle.trans hstep.1
      · rw [hother other hne] at hexited
        exact (h.left other hlt hexited).trans hstep.1
  · have hexited := h.outside worker (by omega)
    have hstep : s.stepWorker plan worker answer = (s, none) := by
      unfold Hydration.stepWorker
      rw [hexited]
    rw [hstep]
    simpa using h

/-- A row that is processed is known, or answered in that step. -/
theorem Accounted.answers (h : Accounted plan workers listed loaded processed s) {worker : ℕ}
    {answer : Except ConnectionError MailItem} {output : ℕ × RowOutcome}
    (houtput : (s.stepWorker plan worker answer).2 = some output) :
  Answers plan answer output
  := by
  rcases stepWorker_output plan worker answer (h.asked worker) houtput with ⟨row, hrow, houtcome⟩
  use row, h.rows worker output.1 row hrow

/-- The messages that are counted are at most those that are listed. -/
theorem Accounted.loaded_le (h : Accounted plan workers listed loaded processed s)
    (hle : loaded ≤ listed) :
  s.loaded ≤ s.listed
  := by
  have hcounts : Workers.total workers HydrationPlace.counts s.workers
      ≤ Workers.total workers HydrationPlace.occupied s.workers := by
    apply Workers.total_le_total
    intro place
    cases place <;> simp only [HydrationPlace.counts, HydrationPlace.occupied,
      HydrationPlace.row] <;> split_ifs <;> simp_all
  have hmessages : s.messageCount ≤ s.received.length := List.countP_le_length
  have hoccupied := h.occupied
  have hcounted := h.counted
  have hlisted := h.listed
  omega

/-- A turn of a worker keeps the accounts. -/
theorem Accounted.next (h : Accounted plan workers listed loaded processed s) {turn : Turn}
    (hturn : turn ≠ .cancel) :
  Accounted plan workers listed loaded (processed ++ ((machine plan).step s turn).2.toList)
    ((machine plan).step s turn).1
  := by
  cases turn with
  | worker worker answer => apply h.stepWorker worker answer
  | cancel => exact absurd rfl hturn

/-! ### When all workers have left -/

theorem AllExited.total_eq_zero (hexited : s.AllExited) {amount : HydrationPlace → ℕ}
    (hamount : amount .exited = 0) :
  Workers.total workers amount s.workers = 0
  := by
  apply Workers.total_eq_zero
  intro worker _
  rw [hexited worker, hamount]

section

variable (h : Accounted plan workers listed loaded processed s) (hworkers : 0 < workers)
  (hexited : s.AllExited)
include h hworkers hexited

/-- Every row of the listing was received once. -/
theorem Accounted.receivedCount_eq (index : ℕ) :
  s.receivedCount index = if index < plan.collected.length then 1 else 0
  := by
  have hheld := h.held index
  have hleft := h.left 0 hworkers (hexited 0)
  rw [hexited.total_eq_zero (by rfl), Nat.zero_add] at hheld
  rw [hheld, taken]
  split_ifs <;> omega

/-- Every row of the listing was processed once. -/
theorem Accounted.processedCount_eq (index : ℕ) :
  processedCount processed index = if index < plan.collected.length then 1 else 0
  := by
  have hlogged := h.logged index
  rw [hexited.total_eq_zero (by rfl), Nat.zero_add,
    h.receivedCount_eq hworkers hexited] at hlogged
  exact hlogged

/-- What was received comes in the order of the listing. -/
theorem Accounted.map_results :
  s.results.map Prod.fst = List.range plan.collected.length
  := KeyOrder.map_sort_eq_range (h.receivedCount_eq hworkers hexited)

theorem Accounted.length_results :
  s.results.length = plan.collected.length
  := by
  rw [← List.length_map Prod.fst, h.map_results hworkers hexited, List.length_range]

/-- What was processed is what was received. -/
theorem Accounted.processed_perm :
  processed.Perm ((List.range plan.collected.length).zip (s.results.map (·.2.2)))
  := by
  have hzip : (List.range plan.collected.length).zip (s.results.map (·.2.2))
      = s.results.map fun result => (result.1, result.2.2) := by
    rw [← h.map_results hworkers hexited, List.zip_map']
  have hkeys := KeyOrder.map_sort_eq_range (h.processedCount_eq hworkers hexited)
  have hlength : processed.length = plan.collected.length := by
    rw [← (KeyOrder.sort_perm Prod.fst processed).length_eq, ← List.length_map Prod.fst, hkeys,
      List.length_range]
  rw [hzip]
  apply List.Perm.symm
  apply List.Subperm.perm_of_length_le
  · apply List.subperm_of_subset
    · apply List.Nodup.of_map Prod.fst
      rw [List.map_map]
      change (s.results.map Prod.fst).Nodup
      rw [h.map_results hworkers hexited]
      apply List.nodup_range
    · intro row hrow
      rcases List.mem_map.mp hrow with ⟨result, hresult, rfl⟩
      apply (h.received result.1 result.2.1 result.2.2 _).1
      apply (KeyOrder.sort_perm Prod.fst s.received).mem_iff.mp hresult
  · rw [List.length_map, h.length_results hworkers hexited, hlength]

/-- The entries of the source are those of the rows. -/
theorem Accounted.map_entry :
  (s.results.map fun result => entry plan result.2.1 result.2.2)
    = List.zipWith (fun row outcome => entry plan (plan.sentTime row) outcome) plan.collected
      (s.results.map (·.2.2))
  := by
  have hlength := h.length_results hworkers hexited
  apply List.ext_getElem
  · simp [hlength]
  · intro place hplace _
    rw [List.length_map] at hplace
    have hfst : s.results[place].1 = place := by
      have hget := List.getElem_map Prod.fst (l := s.results) (i := place) (h := by simpa)
      rw [← hget]
      simp [h.map_results hworkers hexited]
    have hmem : s.results[place] ∈ s.received :=
      (KeyOrder.sort_perm Prod.fst s.received).mem_iff.mp (List.getElem_mem hplace)
    obtain ⟨row, hrow, hsent⟩ := (h.received _ _ _ hmem).2
    simp only [List.get_eq_getElem] at hrow hsent
    rw [hfst, List.getElem?_eq_getElem (by omega)] at hrow
    rw [List.getElem_map, List.getElem_zipWith, List.getElem_map, Option.some.inj hrow, hsent]

omit hworkers in
/-- The messages that are counted are those of the rows. -/
theorem Accounted.loaded_eq :
  s.loaded = loaded + (s.results.map (·.2.2)).countP fun outcome => outcome.toOption.isSome
  := by
  have hcounted := h.counted
  have hmessages : s.messageCount
      = (s.results.map (·.2.2)).countP fun outcome => outcome.toOption.isSome := by
    rw [List.countP_map]
    apply ((KeyOrder.sort_perm Prod.fst s.received).countP_eq _).symm
  rw [hexited.total_eq_zero (by rfl), hmessages] at hcounted
  exact hcounted

end

end

/-! ### The steps that are left -/

end Hydration

namespace HydrationPlace

def isExited : HydrationPlace → Bool
  | .exited => true
  | _ => false

/-- The steps that the worker has left with the row that it has, and to leave. -/
@[simp]
def stepsLeft : HydrationPlace → ℕ
  | .checking => 2
  | .drawing => 1
  | .claimed _ _ => 7
  | .looking _ _ => 6
  | .hydrating _ _ => 5
  | .counting _ _ _ => 4
  | .sending _ _ _ => 3
  | .exited => 0

end HydrationPlace

namespace Hydration

/-- A step of a worker that has not left is one step fewer that is left. -/
theorem stepWorker_stepsLeft (plan : HydrationPlan) (s : Hydration) (worker : ℕ)
    (answer : Except ConnectionError MailItem) :
  let s' := (s.stepWorker plan worker answer).1
  (s'.workers worker).stepsLeft + 7 * (plan.collected.length - s'.next)
      + (if (s.workers worker).isExited then 0 else 1)
    ≤ (s.workers worker).stepsLeft + 7 * (plan.collected.length - s.next)
  := by
  have hdraw : ∀ row, plan.collected[s.next]? = some row → s.next < plan.collected.length := by
    intro row hrow
    apply (List.getElem?_eq_some_iff.mp hrow).1
  fun_cases stepWorker plan s worker answer <;> 
    simp_all [goto, draw, count, receive, HydrationPlace.isExited] <;>
    omega

/-- The turn is one of a worker that has not left. -/
def working (event : Machine.Event Hydration Turn (Option (ℕ × RowOutcome))) : Bool :=
  match event.input with
  | .worker worker _ => !(event.before.workers worker).isExited
  | .cancel => false

theorem length_filter_working (plan : HydrationPlan) (s : Hydration) (worker : ℕ)
    (answer : Except ConnectionError MailItem) :
  ([(machine plan).event s (.worker worker answer)].filter working).length
    = if (s.workers worker).isExited then 0 else 1
  := by
  cases hexited : (s.workers worker).isExited <;> simp [working, hexited]

/-- Whoever steps, the workers have left after a number of steps. -/
theorem length_working_le (plan : HydrationPlan) (workers listed loaded : ℕ) (cancel : Bool)
    (turns : List Turn) :
  (((machine plan).history (start plan workers listed loaded cancel) turns).filter working).length
    ≤ 2 * workers + 7 * plan.collected.length
  := by
  have hstart : Workers.total workers HydrationPlace.stepsLeft
      (start plan workers listed loaded cancel).workers ≤ 2 * workers := by
    rw [Workers.total, Nat.mul_comm]
    apply (Finset.sum_le_card_nsmul _ _ 2 _).trans
    · simp
    · intro worker hworker
      simp [start, Finset.mem_range.mp hworker]
  have hrun := (machine plan).run_induction
    (P := fun run s => (∀ worker, workers ≤ worker → s.workers worker = .exited)
      ∧ (run.filter working).length + Workers.total workers HydrationPlace.stepsLeft s.workers
          + 7 * (plan.collected.length - s.next)
        ≤ 2 * workers + 7 * plan.collected.length)
    (s := start plan workers listed loaded cancel)
  have h := hrun ?_ ?_ turns
  · omega
  · constructor
    · intro worker hworker
      simp [start, Nat.not_lt.mpr hworker]
    · simp only [List.filter_nil, List.length_nil]
      have hnext : (start plan workers listed loaded cancel).next = 0 := rfl
      omega
  · rintro run s turn ⟨houtside, hle⟩
    cases turn with
    | cancel =>
        constructor
        · apply houtside
        · simpa [working, machine, Machine.next] using hle
    | worker worker answer =>
        by_cases hworker : worker < workers
        · have hstep := stepWorker_stepsLeft plan s worker answer
          have hchange := Workers.total_update hworker HydrationPlace.stepsLeft s.workers
            ((s.stepWorker plan worker answer).1.workers worker)
          rw [← stepWorker_workers] at hchange
          constructor
          · intro other hother
            change (s.stepWorker plan worker answer).1.workers other = _
            rw [stepWorker_workers, Function.update_of_ne (by omega)]
            apply houtside other hother
          · rw [List.filter_append, List.length_append, length_filter_working]
            change _ + Workers.total workers _ (s.stepWorker plan worker answer).1.workers
              + 7 * (plan.collected.length - (s.stepWorker plan worker answer).1.next) ≤ _
            dsimp only at hstep
            omega
        · have hexited := houtside worker (by omega)
          have hstep : (machine plan).next s (.worker worker answer) = s := by
            simp only [Machine.next, machine, stepWorker, hexited]
          rw [hstep]
          constructor
          · apply houtside
          · simpa [working, hexited, HydrationPlace.isExited] using hle

/-! ### The source -/

/-- What the source has of its entries. -/
theorem foldl_addEntry (entries : List Entry) (source : SourceReview) :
  entries.foldl addEntry source = { source with
    messages := source.messages ++ entries.filterMap Entry.message?
    errors := source.errors ++ entries.filterMap Entry.error?
    messageErrors := source.messageErrors ++ entries.filterMap Entry.messageError? }
  := by
  induction entries generalizing source with
  | nil => simp
  | cons entry entries ih =>
      rw [List.foldl_cons, ih]
      cases entry <;> simp [addEntry, List.filterMap_cons]

/-- Every entry is one thing. -/
theorem length_entries (entries : List Entry) :
  (entries.filterMap Entry.message?).length + (entries.filterMap Entry.error?).length
    + (entries.filterMap Entry.messageError?).length = entries.length
  := by
  induction entries with
  | nil => rfl
  | cons entry entries ih =>
      cases entry <;> simp only [List.filterMap_cons, Entry.message?, Entry.error?,
        Entry.messageError?, List.length_cons] <;> omega

/-! ### Runs -/

/-- A run without cancelling keeps the accounts, and each of its steps counts no more messages than
there are listed and processes a row as it answers. -/
theorem accounted_run (plan : HydrationPlan) {workers listed loaded : ℕ} (hle : loaded ≤ listed)
    {turns : List Turn} (hturns : Turn.cancel ∉ turns) :
  let run := (machine plan).history (start plan workers listed loaded false) turns
  Accounted plan workers listed loaded (run.filterMap (·.output))
      ((machine plan).final (start plan workers listed loaded false) turns)
    ∧ ∀ event ∈ run, event.after.loaded ≤ event.after.listed
      ∧ ∀ worker answer, event.input = .worker worker answer → ∀ processed,
        event.output = some processed → Answers plan answer processed
  := by
  apply (machine plan).run_induction_of_admits (G := fun _ turn => turn ≠ .cancel)
    (P := fun run s => Accounted plan workers listed loaded (run.filterMap (·.output)) s
      ∧ ∀ event ∈ run, event.after.loaded ≤ event.after.listed
        ∧ ∀ worker answer, event.input = .worker worker answer → ∀ processed,
          event.output = some processed → Answers plan answer processed)
  · use accounted_start
    simp
  · rintro run s turn ⟨haccounted, hevents⟩ hturn
    have hnext := haccounted.next hturn
    constructor
    · rw [List.filterMap_append]
      convert hnext using 2
      · cases h : ((machine plan).step s turn).2 <;> simp [h]
      · rfl
    · intro event hevent
      rcases List.mem_append.mp hevent with hevent | hevent
      · apply hevents event hevent
      · rw [List.mem_singleton.mp hevent]
        constructor
        · apply hnext.loaded_le hle
        · rintro worker answer rfl processed houtput
          apply haccounted.answers houtput
  · apply (machine plan).admits_of_forall (p := fun turn => turn ≠ .cancel)
    rintro turn hturn rfl
    apply hturns hturn

/-- However the workers interleave, they leave after a number of steps, and then every row of the
listing was processed once, by a step that looked it up or asked for its message, and the source has
what became of the rows in the order of the listing. -/
theorem addHydrated_exact (plan : HydrationPlan) (source : SourceReview) {workers listed loaded : ℕ}
    (hworkers : 0 < workers) (hle : loaded ≤ listed) {turns : List Turn}
    (hturns : Turn.cancel ∉ turns) :
  let rows := plan.collected.length
  let run := (machine plan).history (start plan workers listed loaded false) turns
  let s := (machine plan).final (start plan workers listed loaded false) turns
  (run.filter working).length ≤ 2 * workers + 7 * rows
    ∧ (∀ event ∈ run, event.after.loaded ≤ event.after.listed)
    ∧ (∀ event ∈ run, ∀ worker answer, event.input = .worker worker answer → ∀ processed,
      event.output = some processed → Answers plan answer processed)
    ∧ (s.AllExited → ∃ outcomes : List RowOutcome, outcomes.length = rows
      ∧ (run.filterMap (·.output)).Perm ((List.range rows).zip outcomes)
      ∧ s.listed = listed + rows
      ∧ s.loaded = loaded + outcomes.countP (fun outcome => outcome.toOption.isSome)
      ∧ let entries := List.zipWith (fun row outcome => entry plan (plan.sentTime row) outcome)
          plan.collected outcomes
        (entries.filterMap Entry.message?).length + (entries.filterMap Entry.error?).length
            + (entries.filterMap Entry.messageError?).length = rows
          ∧ addHydrated plan source s = (.ok (), { source with
            messages := source.messages ++ entries.filterMap Entry.message?
            errors := source.errors ++ entries.filterMap Entry.error?
            messageErrors := source.messageErrors ++ entries.filterMap Entry.messageError? }))
  := by
  intro rows run s
  obtain ⟨haccounted, hevents⟩ := @accounted_run plan workers listed loaded hle turns hturns
  refine ⟨length_working_le plan workers listed loaded false turns, fun event hevent =>
    (hevents event hevent).1, fun event hevent => (hevents event hevent).2, ?_⟩
  intro hexited
  have hmap := haccounted.map_entry hworkers hexited
  use s.results.map (·.2.2)
  refine ⟨?_, haccounted.processed_perm hworkers hexited, haccounted.listed,
    haccounted.loaded_eq hexited, ?_, ?_⟩
  · rw [List.length_map]
    apply haccounted.length_results hworkers hexited
  · rw [length_entries, ← hmap, List.length_map]
    apply haccounted.length_results hworkers hexited
  · have hcancel : s.cancel = false := haccounted.cancel
    rw [addHydrated, hcancel, ← foldl_addEntry, ← hmap, List.foldl_map]
    rfl

/-- Two rows of which none is known. -/
def twoRows : HydrationPlan where
  collected := [.null, .null]
  sent := false
  team := false
  identity :=
    { provider := .google, account := "jane@example.com", displayName := none, givenName := none,
      addresses := ["jane@example.com"] }
  cache := fun _ _ => none

/-- The second row is asked for before the first one is. -/
def secondRowFirst : List Turn :=
  [0, 0, 1, 1, 1, 1, 1, 1, 1, 0, 0, 0, 0, 0, 0, 0, 1, 1].map fun worker =>
    .worker worker (.error .resourceUnavailable)

theorem secondRowFirst_exact :
  ∃ outcomes : List RowOutcome, outcomes.length = 2
    ∧ (((machine twoRows).history (start twoRows 2 0 0 false) secondRowFirst).filterMap
      (·.output)).Perm ((List.range 2).zip outcomes)
  := by
  have hexact := @addHydrated_exact twoRows ⟨.google, "", [], [], [], false, false⟩ 2 0 0
    (by decide) (by decide) secondRowFirst (by simp [secondRowFirst])
  have hexited : ((machine twoRows).final (start twoRows 2 0 0 false) secondRowFirst).AllExited := by
    intro worker
    rcases worker with _ | _ | worker
    · rfl
    · rfl
    · rfl
  obtain ⟨outcomes, hlength, hperm, -⟩ := hexact.2.2.2 hexited
  use outcomes, hlength
  exact hperm

end Hydration

end Graph
