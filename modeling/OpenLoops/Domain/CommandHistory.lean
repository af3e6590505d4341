import OpenLoops.Domain.Terminalization
import OpenLoops.Library.Machine

/-!
# The history of a ledger

`ledgerMachine` answers calls for any loops in any states with one ledger.  A key is
applied at most once and is answered alike ever after.  The ledger does not record which
loop a key was used for, so that the answer is about the loop of the call only when the record
of the key is.
-/

namespace Domain

/-- One call of `applyCommand`. -/
structure Call where
  state : LoopState
  request : CommandRequest
  context : CommandContext

/-- Answer calls one after the other with the same ledger. -/
def ledgerMachine : Machine Ledger Call ApplyOutcome where
  step ledger call := applyCommand ledger call.state call.request call.context

namespace ApplyOutcome

/-- The transition applied, if one was. -/
def applied? : ApplyOutcome → Option Transition
  | .applied t => some t
  | _ => none

/-- The outcome that applies a transition. -/
theorem eq_applied {outcome : ApplyOutcome} {t : Transition} (h : outcome.applied? = some t) :
  outcome = .applied t
  := by
  cases outcome with
  | applied u =>
      cases h
      rfl
  | replayed | keyCollision | refreshConflict | rejected => cases h

/-- The transition returned, applied now or before. -/
def returned? : ApplyOutcome → Option Transition
  | .applied t | .replayed t => some t
  | _ => none

/-- The answer to a key recorded with a payload and a transition. -/
def ofRecorded (payload recordedPayload : CommandPayload) (t : Transition) : ApplyOutcome :=
  if payload = recordedPayload then .replayed t else .keyCollision

/-- A recorded key is never applied. -/
theorem applied?_ofRecorded (payload recordedPayload : CommandPayload) (t : Transition) :
  (ofRecorded payload recordedPayload t).applied? = none
  := by
  rw [ofRecorded]
  split
  · rfl
  · rfl

end ApplyOutcome

/-- Every call is answered in one of the ways a request is. -/
theorem ledgerMachine_step (ledger : Ledger) (call : Call) :
  CommandStep ledger call.state call.request call.context
    (ledgerMachine.next ledger call, (ledgerMachine.event ledger call).output)
  := applyCommand_step ledger call.state call.request call.context

/-! ### Idempotency -/

/-- A recorded key stays recorded with its payload and transition. -/
theorem ledgerMachine_next_get? {ledger : Ledger} {call : Call} {key : CommandKey}
    {entry : CommandPayload × Transition} (h : ledger.get? key = some entry) :
  (ledgerMachine.next ledger call).get? key = some entry
  := by
  have hstep := ledgerMachine_step ledger call
  generalize ledgerMachine.next ledger call = next at *
  generalize (ledgerMachine.event ledger call).output = output at *
  cases hstep with
  | replayed | keyCollision | refreshConflict | rejected => apply h
  | applied hkey =>
      have hne : key ≠ call.request.key := by
        rintro rfl
        rw [h] at hkey
        cases hkey
      rw [Ledger.get?_insert_ne hne]
      apply h

/-- A call under a recorded key is answered from the record. -/
theorem ledgerMachine_output_of_recorded {ledger : Ledger} {call : Call}
    {recordedPayload : CommandPayload} {t : Transition}
    (h : ledger.get? call.request.key = some (recordedPayload, t)) :
  (ledgerMachine.event ledger call).output
    = .ofRecorded call.request.payload recordedPayload t
  := by
  have hstep := ledgerMachine_step ledger call
  generalize ledgerMachine.next ledger call = next at *
  generalize (ledgerMachine.event ledger call).output = output at *
  cases hstep with
  | replayed hkey =>
      rw [h] at hkey
      cases hkey
      apply (if_pos rfl).symm
  | keyCollision hkey hp =>
      rw [h] at hkey
      cases hkey
      apply (if_neg (Ne.symm hp)).symm
  | refreshConflict hkey | rejected hkey | applied hkey =>
      rw [h] at hkey
      cases hkey

/-- From a ledger with a recorded key, every call under it is answered from the record. -/
theorem ledgerMachine_history_of_recorded {ledger : Ledger} {key : CommandKey}
    {recordedPayload : CommandPayload} {t : Transition}
    (h : ledger.get? key = some (recordedPayload, t)) (calls : List Call) :
  ∀ e ∈ ledgerMachine.history ledger calls, e.input.request.key = key →
    e.output = .ofRecorded e.input.request.payload recordedPayload t
  := by
  refine ledgerMachine.forall_history
    (I := fun ledger => ledger.get? key = some (recordedPayload, t)) h ?_ ?_ calls
  · intro ledger call hledger
    apply ledgerMachine_next_get? hledger
  · rintro ledger call hledger rfl
    apply ledgerMachine_output_of_recorded hledger

/-- A call applied is recorded. -/
theorem ledgerMachine_next_of_applied {ledger : Ledger} {call : Call} {t : Transition}
    (h : (ledgerMachine.event ledger call).output = .applied t) :
  (ledgerMachine.next ledger call).get? call.request.key = some (call.request.payload, t)
  := by
  have hstep := ledgerMachine_step ledger call
  generalize ledgerMachine.next ledger call = next at *
  generalize (ledgerMachine.event ledger call).output = output at *
  cases hstep with
  | applied hkey =>
      cases h
      apply Ledger.get?_insert
  | replayed | keyCollision | refreshConflict | rejected => cases h

/-- A call that is not applied leaves the ledger as it was. -/
theorem ledgerMachine_next_of_not_applied {ledger : Ledger} {call : Call}
    (h : (ledgerMachine.event ledger call).output.applied? = none) :
  ledgerMachine.next ledger call = ledger
  := by
  have hstep := ledgerMachine_step ledger call
  generalize ledgerMachine.next ledger call = next at *
  generalize (ledgerMachine.event ledger call).output = output at *
  cases hstep with
  | applied => cases h
  | replayed | keyCollision | refreshConflict | rejected => rfl

/-- An event after another is answered from the record the other left, when the other was
applied under the same key. -/
def AnsweredAlike (e f : Machine.Event Ledger Call ApplyOutcome) : Prop :=
  ∀ t, e.output = .applied t → f.input.request.key = e.input.request.key →
    f.output = .ofRecorded f.input.request.payload e.input.request.payload t

/-- Every later event is answered from the record an earlier one left. -/
theorem ledgerMachine_history_answeredAlike (ledger : Ledger) (calls : List Call) :
  (ledgerMachine.history ledger calls).Pairwise AnsweredAlike
  := by
  induction calls generalizing ledger with
  | nil => apply List.Pairwise.nil
  | cons call calls ih =>
      apply List.Pairwise.cons
      · intro f hf t happlied hkey
        apply ledgerMachine_history_of_recorded (ledgerMachine_next_of_applied happlied) _ f hf
        apply hkey
      · apply ih

/-- Over the whole history of a ledger: a key is applied at most once; after it is applied,
the same key with an equal payload replays that transition and with another payload
collides, whatever the states and versions; and what is not applied leaves the ledger as
it was. -/
theorem ledger_idempotent (ledger : Ledger) (calls : List Call) :
  (ledgerMachine.history ledger calls).Pairwise (fun e f =>
      e.output.applied?.isSome → f.output.applied?.isSome →
      e.input.request.key ≠ f.input.request.key)
    ∧ (ledgerMachine.history ledger calls).Pairwise (fun e f => ∀ t,
      e.output = .applied t → f.input.request.key = e.input.request.key →
      (f.input.request.payload = e.input.request.payload → f.output = .replayed t)
        ∧ (f.input.request.payload ≠ e.input.request.payload → f.output = .keyCollision))
    ∧ ∀ e ∈ ledgerMachine.history ledger calls,
      (∀ t, e.output ≠ .applied t) → e.after = e.before
  := by
  have hpairwise := ledgerMachine_history_answeredAlike ledger calls
  refine ⟨?_, ?_, ?_⟩
  · apply hpairwise.imp
    intro e f h he hf hkey
    obtain ⟨t, ht⟩ := Option.isSome_iff_exists.mp he
    rw [h t (ApplyOutcome.eq_applied ht) hkey.symm, ApplyOutcome.applied?_ofRecorded] at hf
    cases hf
  · apply hpairwise.imp
    intro e f h t happlied hkey
    rw [h t happlied hkey]
    constructor
    · intro hpayload
      apply if_pos hpayload
    · intro hpayload
      apply if_neg hpayload
  · intro e he hnot
    obtain ⟨before, call, -, -, rfl⟩ := ledgerMachine.mem_history he
    apply ledgerMachine_next_of_not_applied
    apply Option.eq_none_iff_forall_ne_some.mpr
    intro t ht
    apply hnot t (ApplyOutcome.eq_applied ht)

/-! ### Replay across loops -/

/-- Whether the key of a call has no record, or a record that collides, or the record of a
transition of the loop of the call. -/
def RecordedForLoop (ledger : Ledger) (call : Call) : Prop :=
  ∀ t, ledger.get? call.request.key = some (call.request.payload, t) →
    t.loopId = call.state.loopId

/-- What a call returns is a transition of its loop exactly when the record of its key,
if it has one with an equal payload, is of that loop. -/
theorem returned_loopId_iff (ledger : Ledger) (call : Call) :
  (∀ t, (ledgerMachine.event ledger call).output.returned? = some t →
      t.loopId = call.state.loopId)
    ↔ RecordedForLoop ledger call
  := by
  have hstep := ledgerMachine_step ledger call
  generalize ledgerMachine.next ledger call = next at *
  generalize (ledgerMachine.event ledger call).output = output at *
  rw [RecordedForLoop]
  cases hstep with
  | replayed hkey => simp [hkey, ApplyOutcome.returned?]
  | keyCollision hkey hp => simp [hkey, hp, ApplyOutcome.returned?]
  | refreshConflict hkey | rejected hkey => simp [hkey, ApplyOutcome.returned?]
  | applied hkey _ hbuild =>
      simp [hkey, ApplyOutcome.returned?, (buildTransition_spec hbuild).1]

/-- In a run from the empty ledger, every transition returned is of the loop of its call
exactly when every call finds its key without a record for another loop with an equal
payload. -/
theorem noCrossLoopReplay_iff (calls : List Call) :
  (∀ e ∈ ledgerMachine.history .new calls, ∀ t, e.output.returned? = some t →
      t.loopId = e.input.state.loopId)
    ↔ ∀ e ∈ ledgerMachine.history .new calls, RecordedForLoop e.before e.input
  := by
  apply forall₂_congr
  intro e he
  obtain ⟨before, call, -, -, rfl⟩ := ledgerMachine.mem_history he
  apply returned_loopId_iff

/-- A ledger records only calls of a run: with their keys, payloads and loops. -/
def RecordsCallsOf (calls : List Call) (ledger : Ledger) : Prop :=
  ∀ key p t, ledger.get? key = some (p, t) →
    ∃ call ∈ calls, call.request.key = key ∧ call.request.payload = p
      ∧ t.loopId = call.state.loopId

/-- Answering a call of the run keeps the records those of calls of the run. -/
theorem RecordsCallsOf.next {calls : List Call} {ledger : Ledger}
    (h : RecordsCallsOf calls ledger) {call : Call} (hcall : call ∈ calls) :
  RecordsCallsOf calls (ledgerMachine.next ledger call)
  := by
  have hstep := ledgerMachine_step ledger call
  generalize ledgerMachine.next ledger call = next at *
  generalize (ledgerMachine.event ledger call).output = output at *
  cases hstep with
  | replayed | keyCollision | refreshConflict | rejected => apply h
  | applied hkey hversion hbuild =>
      intro key p t hget
      by_cases hne : key = call.request.key
      · rw [hne, Ledger.get?_insert] at hget
        cases hget
        exact ⟨call, hcall, hne.symm, rfl, (buildTransition_spec hbuild).1⟩
      · rw [Ledger.get?_insert_ne hne] at hget
        apply h key p t hget

/-- When equal keys with equal payloads are used for one loop only, every transition
returned in a run from the empty ledger is of the loop of its call. -/
theorem noCrossLoopReplay_of_keys {calls : List Call}
    (hkeys : ∀ c ∈ calls, ∀ d ∈ calls, c.request.key = d.request.key →
      c.request.payload = d.request.payload → c.state.loopId = d.state.loopId) :
  ∀ e ∈ ledgerMachine.history .new calls, ∀ t, e.output.returned? = some t →
    t.loopId = e.input.state.loopId
  := by
  intro e he
  obtain ⟨before, call, after, hcalls, rfl⟩ := ledgerMachine.mem_history he
  apply (returned_loopId_iff _ call).mpr
  intro t hget
  have hmem : ∀ c ∈ before, c ∈ calls := by
    intro c hc
    rw [hcalls]
    apply List.mem_append_left _ hc
  have hrecords : RecordsCallsOf calls (ledgerMachine.final .new before) := by
    refine ledgerMachine.invariant_final_of_admits (G := fun _ call => call ∈ calls) ?_ ?_
      before (ledgerMachine.admits_of_forall hmem)
    · intro key p t hget
      rw [Ledger.get?_new] at hget
      cases hget
    · intro ledger call hledger hcall
      apply hledger.next hcall
  obtain ⟨c, hc, hkey, hp, hloop⟩ := hrecords _ _ _ hget
  rw [hloop]
  apply hkeys c hc call (by simp [hcalls]) hkey hp

/-- A call that completes a loop outside email, under a fixed key. -/
def completeOutside (loopId : OpaqueId) : Call :=
  ⟨{ openLoop with loopId }, ⟨⟨Vector.replicate 16 0⟩, .first, .completedOutsideEmail⟩,
    someContext⟩

/-- The same command under the same key for two loops returns the transition of the first
loop for the second. -/
theorem completeOutside_crossLoopReplay :
  ∃ e ∈ ledgerMachine.history .new [completeOutside (idOf 1), completeOutside (idOf 7)],
    ∃ t, e.output.returned? = some t ∧ t.loopId ≠ e.input.state.loopId
  := by
  refine ⟨_, List.mem_cons_of_mem _ List.mem_cons_self, _, rfl, ?_⟩
  decide

end Domain
