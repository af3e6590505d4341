import OpenLoops.Domain.CommandHistory
import OpenLoops.Domain.CommandRuns

/-!
# Reminders do not influence obligations

The reminder of a loop is carried from the facets before a transition to those after it,
and no command reads it: a command on a loop with another reminder is answered in the same
way, with transitions that differ in the reminder only.  Two runs of the same commands
that differ in reminders stay so.
-/

namespace Domain

/-! ### Replacing the reminder -/

/-- The facets with the reminder `r`. -/
def FacetTuple.withReminder (f : FacetTuple) (r : ReminderState) : FacetTuple :=
  { f with reminderState := r }

/-- The loop with the reminder `r`. -/
def LoopState.withReminder (state : LoopState) (r : ReminderState) : LoopState :=
  { state with facets := state.facets.withReminder r }

/-- The transition between the same facets with the reminder `r`. -/
def Transition.withReminder (t : Transition) (r : ReminderState) : Transition :=
  { t with
    priorFacets := t.priorFacets.withReminder r
    newFacets := t.newFacets.withReminder r }

/-- The outcome with the reminder `r` in the transition it returns. -/
def ApplyOutcome.withReminder (outcome : ApplyOutcome) (r : ReminderState) : ApplyOutcome :=
  match outcome with
  | .replayed t => .replayed (t.withReminder r)
  | .applied t => .applied (t.withReminder r)
  | .keyCollision => .keyCollision
  | .refreshConflict => .refreshConflict
  | .rejected rejection => .rejected rejection

/-- A transition between facets with another reminder is made just the same. -/
theorem Transition.new_withReminder (transitionId loopId : OpaqueId)
    (userActionId : Option OpaqueId) (priorFacets newFacets : FacetTuple)
    (reasonCode : TransitionReasonCode) (actor : ActorCode) (sourceRefs : List OpaqueId)
    (occurredAt : UnixSeconds) (loopVersion policyVersion : Version) (r : ReminderState) :
  Transition.new transitionId loopId userActionId (priorFacets.withReminder r)
      (newFacets.withReminder r) reasonCode actor sourceRefs occurredAt loopVersion
      policyVersion
    = (Transition.new transitionId loopId userActionId priorFacets newFacets reasonCode actor
      sourceRefs occurredAt loopVersion policyVersion).map (·.withReminder r)
  := by
  -- the checks read every facet but the reminder
  apply Except.bind_map_congr
  intro _
  apply Except.bind_map_congr
  intro _
  apply Except.bind_map_congr
  intro _
  apply Except.bind_map_congr
  intro _
  rfl

/-- The user's transition of a loop with another reminder is made just the same. -/
theorem finish_withReminder {state : LoopState} {newFacets newFacets' : FacetTuple}
    {reasonCode : TransitionReasonCode} {sourceRefs : List OpaqueId}
    {context : CommandContext} {r : ReminderState}
    (h : newFacets' = newFacets.withReminder r) :
  finish (state.withReminder r) newFacets' reasonCode sourceRefs context
    = (finish state newFacets reasonCode sourceRefs context).map (·.withReminder r)
  := by
  subst h
  apply Except.bind_map_congr
  intro version
  rw [← Except.map_mapError, ← Transition.new_withReminder]
  rfl

/-- Every command makes the same transition of a loop with another reminder. -/
theorem buildTransition_withReminder (state : LoopState) (payload : CommandPayload)
    (context : CommandContext) (r : ReminderState) :
  buildTransition (state.withReminder r) payload context
    = (buildTransition state payload context).map (·.withReminder r)
  := by
  cases payload with
  | confirmMineActionable | confirmDeclined | confirmMoot | requestEvidence
  | selectDifferentEvidence | completedOutsideEmail | dismissClassify | reopen =>
      exact Except.bind_map_congr fun _ => finish_withReminder rfl
  | confirmFulfilled closureEvidenceRefs =>
      apply Except.bind_map_congr
      intro _
      cases closureEvidenceRefs with
      | nil => rfl
      | cons _ _ => exact finish_withReminder rfl
  | confirmTransfer delegation evidence =>
      apply Except.bind_map_congr
      intro _
      cases delegation.yieldsDelegatedResolution with
      | true => exact finish_withReminder rfl
      | false => exact finish_withReminder rfl
  | keepOpen hypothesisIdentity =>
      apply Except.bind_map_congr
      intro _
      have hreview : (state.withReminder r).facets.closureReviewState
          = state.facets.closureReviewState := rfl
      rw [hreview]
      split
      · rfl
      · exact finish_withReminder rfl

/-- The system's note on a loop with another reminder is made just the same. -/
theorem applyTerminalReviewNote_withReminder (state : LoopState) (causingSourceRef : OpaqueId)
    (context : CommandContext) (r : ReminderState) :
  applyTerminalReviewNote (state.withReminder r) causingSourceRef context
    = (applyTerminalReviewNote state causingSourceRef context).map (·.withReminder r)
  := by
  apply Except.bind_map_congr
  intro _
  apply Except.bind_map_congr
  intro version
  rw [← Except.map_mapError, ← Transition.new_withReminder]
  rfl

/-! ### Agreement up to the reminder -/

/-- Loops that differ in their reminders only. -/
def LoopState.AgreesUpToReminder (state state' : LoopState) : Prop :=
  state.withReminder .none = state'.withReminder .none

/-- Outcomes of the same kind that differ in the reminders of their transitions only. -/
def ApplyOutcome.AgreesUpToReminder (outcome outcome' : ApplyOutcome) : Prop :=
  outcome.withReminder .none = outcome'.withReminder .none

/-- The command recorded under a key, with the reminder of its transition put to `none`. -/
def Ledger.getWithoutReminder? (ledger : Ledger) (key : CommandKey) :
    Option (CommandPayload × Transition) :=
  (ledger.get? key).map fun entry => (entry.1, entry.2.withReminder .none)

/-- Ledgers whose entries differ in the reminders of their transitions only. -/
def Ledger.AgreesUpToReminder (ledger ledger' : Ledger) : Prop :=
  ∀ key, ledger.getWithoutReminder? key = ledger'.getWithoutReminder? key

/-- Loops that agree up to the reminder are at the same version. -/
theorem LoopState.AgreesUpToReminder.loopVersion {state state' : LoopState}
    (h : state.AgreesUpToReminder state') :
  state.loopVersion = state'.loopVersion
  := by
  have hversion := congrArg LoopState.loopVersion (Eq.trans h rfl)
  exact hversion

/-- Commands on loops that agree make transitions that agree, or are rejected alike. -/
theorem LoopState.AgreesUpToReminder.buildTransition {state state' : LoopState}
    (h : state.AgreesUpToReminder state') (payload : CommandPayload)
    (context : CommandContext) :
  (Domain.buildTransition state payload context).map (·.withReminder .none)
    = (Domain.buildTransition state' payload context).map (·.withReminder .none)
  := by
  rw [← buildTransition_withReminder, ← buildTransition_withReminder, h]

/-- Transitions that agree lead from loops that agree to loops that agree. -/
theorem LoopState.AgreesUpToReminder.advance {state state' : LoopState}
    (h : state.AgreesUpToReminder state') {t t' : Transition}
    (ht : t.withReminder .none = t'.withReminder .none) :
  (state.advance t).AgreesUpToReminder (state'.advance t')
  := by
  have hfacets := congrArg Transition.newFacets ht
  have hversion := congrArg Transition.loopVersion ht
  have hloop := congrArg LoopState.loopId (Eq.trans h rfl)
  simp only [Transition.withReminder, withReminder] at hfacets hversion hloop
  simp only [AgreesUpToReminder, withReminder, LoopState.advance, hfacets, hversion, hloop]

/-- Ledgers stay in agreement when commands with agreeing transitions are recorded. -/
theorem Ledger.AgreesUpToReminder.insert {ledger ledger' : Ledger}
    (h : ledger.AgreesUpToReminder ledger') (key : CommandKey) (payload : CommandPayload)
    {t t' : Transition} (ht : t.withReminder .none = t'.withReminder .none) :
  (ledger.insert key (payload, t)).AgreesUpToReminder (ledger'.insert key (payload, t'))
  := by
  intro key'
  by_cases hkey : key' = key
  · subst hkey
    simp only [getWithoutReminder?, get?_insert, Option.map_some, ht]
  · rw [getWithoutReminder?, getWithoutReminder?, get?_insert_ne hkey, get?_insert_ne hkey]
    apply h

/-- Requests on agreeing loops and ledgers are answered by agreeing outcomes and leave
agreeing ledgers behind. -/
theorem applyCommand_agrees {ledger ledger' : Ledger} {state state' : LoopState}
    (hledger : ledger.AgreesUpToReminder ledger') (hstate : state.AgreesUpToReminder state')
    (request : CommandRequest) (context : CommandContext) :
  (applyCommand ledger state request context).2.AgreesUpToReminder
      (applyCommand ledger' state' request context).2
    ∧ (applyCommand ledger state request context).1.AgreesUpToReminder
      (applyCommand ledger' state' request context).1
  := by
  have hkey := hledger request.key
  have hbuild := hstate.buildTransition request.payload context
  rw [Ledger.getWithoutReminder?, Ledger.getWithoutReminder?] at hkey
  rw [applyCommand, applyCommand, ← hstate.loopVersion]
  cases hget : ledger.get? request.key with
  | none =>
      rw [hget] at hkey
      rw [Option.map_eq_none_iff.mp hkey.symm]
      dsimp only
      split_ifs with hversion
      · exact ⟨rfl, hledger⟩
      · cases hmade : buildTransition state request.payload context with
        | error rejection =>
            cases hmade' : buildTransition state' request.payload context with
            | error rejection' =>
                rw [hmade, hmade'] at hbuild
                cases hbuild
                exact ⟨rfl, hledger⟩
            | ok t' =>
                rw [hmade, hmade'] at hbuild
                cases hbuild
        | ok t =>
            rw [hmade] at hbuild
            obtain ⟨t', hmade', ht⟩ := Except.map_eq_ok.mp hbuild.symm
            rw [hmade']
            exact ⟨congrArg ApplyOutcome.applied ht.symm, hledger.insert _ _ ht.symm⟩
  | some entry =>
      obtain ⟨payload, t⟩ := entry
      rw [hget] at hkey
      obtain ⟨⟨payload', t'⟩, hget', hentry⟩ := Option.map_eq_some_iff.mp hkey.symm
      obtain ⟨hpayload, ht⟩ := Prod.mk.inj hentry
      rw [hget']
      dsimp only at hpayload ht ⊢
      rw [hpayload]
      split_ifs
      · exact ⟨congrArg ApplyOutcome.replayed ht.symm, hledger⟩
      · exact ⟨rfl, hledger⟩

/-! ### The reminder is carried through -/

/-- A transition whose facets both have the reminder `r`. -/
def Transition.CarriesReminder (t : Transition) (r : ReminderState) : Prop :=
  t.priorFacets.reminderState = r ∧ t.newFacets.reminderState = r

/-- A transition that is the same with the reminder `r` carries it. -/
theorem Transition.carriesReminder_of_map {ε : Type} {x : Except ε Transition} {t : Transition}
    {r : ReminderState} (hx : x = x.map (·.withReminder r)) (h : x = .ok t) :
  t.CarriesReminder r
  := by
  rw [hx] at h
  obtain ⟨u, -, rfl⟩ := Except.map_eq_ok.mp h
  exact ⟨rfl, rfl⟩

/-- The transition of a command carries the reminder of the loop. -/
theorem carriesReminder_of_buildTransition {state : LoopState} {payload : CommandPayload}
    {context : CommandContext} {t : Transition}
    (h : buildTransition state payload context = .ok t) :
  t.CarriesReminder state.facets.reminderState
  := Transition.carriesReminder_of_map
    (buildTransition_withReminder state payload context state.facets.reminderState) h

/-- The transition of a note carries the reminder of the loop. -/
theorem carriesReminder_of_applyTerminalReviewNote {state : LoopState}
    {causingSourceRef : OpaqueId} {context : CommandContext} {t : Transition}
    (h : applyTerminalReviewNote state causingSourceRef context = .ok t) :
  t.CarriesReminder state.facets.reminderState
  := Transition.carriesReminder_of_map
    (applyTerminalReviewNote_withReminder state causingSourceRef context
      state.facets.reminderState) h

/-- An applied transition carries the reminder of the loop, and a replayed one is the one
recorded. -/
theorem applyCommand_carriesReminder (ledger : Ledger) (state : LoopState)
    (request : CommandRequest) (context : CommandContext) (t : Transition) :
  ((applyCommand ledger state request context).2 = .applied t →
      t.CarriesReminder state.facets.reminderState)
    ∧ ((applyCommand ledger state request context).2 = .replayed t →
      ledger.get? request.key = some (request.payload, t))
  := by
  have hstep := applyCommand_step ledger state request context
  generalize applyCommand ledger state request context = answer at *
  cases hstep with
  | applied hkey hversion hbuild =>
      constructor
      · rintro ⟨⟩
        apply carriesReminder_of_buildTransition hbuild
      · intro h
        cases h
  | replayed hkey =>
      constructor
      · intro h
        cases h
      · rintro ⟨⟩
        apply hkey
  | keyCollision | refreshConflict | rejected =>
      constructor
      · intro h
        cases h
      · intro h
        cases h

/-! ### Runs -/

/-- Calls with the same request and context on loops that agree up to the reminder. -/
def Call.AgreesUpToReminder (call call' : Call) : Prop :=
  call.state.AgreesUpToReminder call'.state ∧ call.request = call'.request
    ∧ call.context = call'.context

/-- The output with the reminder `r` in the transition it returns. -/
def LoopOutput.withReminder (output : LoopOutput) (r : ReminderState) : LoopOutput :=
  match output with
  | .outcome answer => .outcome (answer.withReminder r)
  | .note result => .note (result.map (·.withReminder r))

/-- Outputs of the same kind that differ in the reminders of their transitions only. -/
def LoopOutput.AgreesUpToReminder (output output' : LoopOutput) : Prop :=
  output.withReminder .none = output'.withReminder .none

/-- Sessions whose ledgers and loops agree up to the reminder. -/
def Session.AgreesUpToReminder (session session' : Session) : Prop :=
  session.ledger.AgreesUpToReminder session'.ledger
    ∧ session.state.AgreesUpToReminder session'.state

/-- The transition applied has the reminder that is put into the output. -/
theorem LoopOutput.applied?_withReminder (output : LoopOutput) (r : ReminderState) :
  (output.withReminder r).applied? = output.applied?.map (·.withReminder r)
  := by
  cases output with
  | outcome answer => cases answer <;> rfl
  | note result => cases result <;> rfl

/-- Outputs that agree lead from loops that agree to loops that agree. -/
theorem LoopState.AgreesUpToReminder.elim {state state' : LoopState}
    (h : state.AgreesUpToReminder state') {output output' : LoopOutput}
    (houtput : output.AgreesUpToReminder output') :
  (output.applied?.elim state state.advance).AgreesUpToReminder
    (output'.applied?.elim state' state'.advance)
  := by
  have happlied := congrArg LoopOutput.applied? houtput
  rw [output.applied?_withReminder, output'.applied?_withReminder] at happlied
  cases ht : output.applied? with
  | none =>
      rw [ht] at happlied
      rw [Option.map_eq_none_iff.mp happlied.symm]
      apply h
  | some t =>
      rw [ht] at happlied
      obtain ⟨t', ht', hagree⟩ := Option.map_eq_some_iff.mp happlied.symm
      rw [ht']
      apply h.advance hagree.symm

/-- An input answered in sessions that agree is answered by outputs that agree, and leaves
sessions that agree behind. -/
theorem loopMachine_agrees {session session' : Session}
    (h : session.AgreesUpToReminder session') (input : LoopInput) :
  (loopMachine.event session input).output.AgreesUpToReminder
      (loopMachine.event session' input).output
    ∧ (loopMachine.next session input).AgreesUpToReminder (loopMachine.next session' input)
  := by
  obtain ⟨hledger, hstate⟩ := h
  cases input with
  | command request context =>
      obtain ⟨houtcome, hledger'⟩ := applyCommand_agrees hledger hstate request context
      have houtput : (LoopOutput.outcome
          (applyCommand session.ledger session.state request context).2).AgreesUpToReminder
          (.outcome (applyCommand session'.ledger session'.state request context).2) :=
        congrArg LoopOutput.outcome houtcome
      exact ⟨houtput, hledger', hstate.elim houtput⟩
  | reviewNote causingSourceRef context =>
      have houtput : (LoopOutput.note
          (applyTerminalReviewNote session.state causingSourceRef context)).AgreesUpToReminder
          (.note (applyTerminalReviewNote session'.state causingSourceRef context)) := by
        rw [LoopOutput.AgreesUpToReminder, LoopOutput.withReminder, LoopOutput.withReminder,
          ← applyTerminalReviewNote_withReminder, ← applyTerminalReviewNote_withReminder,
          hstate]
      exact ⟨houtput, hledger, hstate.elim houtput⟩

/-- In a run of a loop every transition applied carries the reminder the run started
with. -/
theorem loopMachine_carriesReminder (session : Session) (inputs : List LoopInput) :
  ∀ e ∈ loopMachine.history session inputs, ∀ t, e.output.applied? = some t →
    t.CarriesReminder session.state.facets.reminderState
  := by
  have hevent : ∀ (s : Session) (input : LoopInput) (t : Transition),
      (loopMachine.event s input).output.applied? = some t →
      t.CarriesReminder s.state.facets.reminderState := by
    intro s input t happlied
    cases input with
    | command request context =>
        simp only [Machine.event, loopMachine] at happlied
        cases houtcome : (applyCommand s.ledger s.state request context).2 with
        | applied u =>
            rw [houtcome] at happlied
            cases happlied
            apply (applyCommand_carriesReminder _ _ _ _ _).1 houtcome
        | replayed | keyCollision | refreshConflict | rejected =>
            rw [houtcome] at happlied
            cases happlied
    | reviewNote causingSourceRef context =>
        simp only [Machine.event, loopMachine] at happlied
        cases hnote : applyTerminalReviewNote s.state causingSourceRef context with
        | ok u =>
            rw [hnote] at happlied
            cases happlied
            apply carriesReminder_of_applyTerminalReviewNote hnote
        | error rejection =>
            rw [hnote] at happlied
            cases happlied
  refine loopMachine.forall_history
    (I := fun s => s.state.facets.reminderState = session.state.facets.reminderState) rfl ?_ ?_
    inputs
  · intro s input hs
    cases loopMachine_event s input with
    | stays happlied hstate =>
        rw [← Machine.event_after, hstate]
        apply hs
    | advances happlied hstate =>
        rw [← Machine.event_after, hstate]
        exact (hevent s input _ happlied).2.trans hs
  · intro s input hs t happlied
    rw [← hs]
    apply hevent s input t happlied

/-- Reminders do not influence obligations.  A request on loops and ledgers that agree up
to reminders has outcomes that agree up to reminders, an applied transition carries the
reminder of the loop, and a replayed one is the one recorded.  So it is for all sequences of
calls on one ledger, and for all runs of a loop. -/
theorem reminders_inert :
  (∀ (ledger ledger' : Ledger) (state state' : LoopState) (request : CommandRequest)
      (context : CommandContext),
    ledger.AgreesUpToReminder ledger' → state.AgreesUpToReminder state' →
    (applyCommand ledger state request context).2.AgreesUpToReminder
        (applyCommand ledger' state' request context).2
      ∧ ∀ t, ((applyCommand ledger state request context).2 = .applied t →
          t.CarriesReminder state.facets.reminderState)
        ∧ ((applyCommand ledger state request context).2 = .replayed t →
          ledger.get? request.key = some (request.payload, t)))
  ∧ (∀ (ledger ledger' : Ledger) (calls calls' : List Call),
    ledger.AgreesUpToReminder ledger' → List.Forall₂ Call.AgreesUpToReminder calls calls' →
    List.Forall₂ (fun e e' => e.output.AgreesUpToReminder e'.output)
      (ledgerMachine.history ledger calls) (ledgerMachine.history ledger' calls'))
  ∧ ∀ (session session' : Session) (inputs : List LoopInput),
    session.AgreesUpToReminder session' →
    List.Forall₂ (fun e e' => e.output.AgreesUpToReminder e'.output)
        (loopMachine.history session inputs) (loopMachine.history session' inputs)
      ∧ (loopMachine.final session inputs).AgreesUpToReminder
        (loopMachine.final session' inputs)
      ∧ ∀ e ∈ loopMachine.history session inputs, ∀ t, e.output.applied? = some t →
        t.CarriesReminder session.state.facets.reminderState
  := by
  refine ⟨?_, ?_, ?_⟩
  · intro ledger ledger' state state' request context hledger hstate
    use (applyCommand_agrees hledger hstate request context).1
    intro t
    apply applyCommand_carriesReminder
  · intro ledger ledger' calls calls' hledger hcalls
    refine (ledgerMachine.two_runs ledgerMachine (R := Ledger.AgreesUpToReminder) ?_ hledger
      hcalls).1
    rintro l l' call call' hl ⟨hstate, hrequest, hcontext⟩
    obtain ⟨state, request, context⟩ := call
    cases hrequest
    cases hcontext
    apply applyCommand_agrees hl hstate
  · intro session session' inputs hsession
    have hinputs : List.Forall₂ Eq inputs inputs := List.forall₂_refl inputs
    obtain ⟨hhistory, hfinal⟩ := loopMachine.two_runs loopMachine
      (R := Session.AgreesUpToReminder)
      (Q := fun e e' => e.output.AgreesUpToReminder e'.output)
      (by
        rintro s s' input _ hs rfl
        apply loopMachine_agrees hs)
      hsession hinputs
    use hhistory, hfinal
    apply loopMachine_carriesReminder

/-- The open loop with a linked reminder is fulfilled and noted just as the one without. -/
theorem linkedLoop_fulfilledThenNoted :
  List.Forall₂ (fun e e' => e.output.AgreesUpToReminder e'.output)
    (loopMachine.history ⟨.new, openLoop⟩
      [.command confirmFulfilledRequest someContext, .reviewNote (idOf 4) someContext])
    (loopMachine.history ⟨.new, openLoop.withReminder .linked⟩
      [.command confirmFulfilledRequest someContext, .reviewNote (idOf 4) someContext])
  := by
  obtain ⟨-, -, hruns⟩ := reminders_inert
  have hsession : Session.AgreesUpToReminder ⟨.new, openLoop⟩
      ⟨.new, openLoop.withReminder .linked⟩ := ⟨fun _ => rfl, rfl⟩
  exact (hruns _ _ _ hsession).1

end Domain
