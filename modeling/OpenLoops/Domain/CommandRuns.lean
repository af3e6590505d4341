import OpenLoops.Domain.Terminalization
import OpenLoops.Library.Machine

/-!
# Runs of commands

Two machines answer commands one after the other.  `loopMachine` follows one loop, which
advances by the transitions applied to it, and may have system notes in between;
`ledgerMachine` follows one ledger, which answers calls for any loops in any states.

A transition of the system between legal facets neither closes nor reopens the loop and
keeps its resolution.  In a run of a loop the system makes only the notes on a terminal
loop, which stays as it was resolved and out of closure review.
-/

namespace Domain

/-! ### A loop and its commands -/

/-- A loop together with the ledger that answers its commands. -/
structure Session where
  ledger : Ledger
  state : LoopState

/-- What may happen to a loop: a command of the user, or a note of the system. -/
inductive LoopInput where
  | command (request : CommandRequest) (context : CommandContext)
  | reviewNote (causingSourceRef : OpaqueId) (context : CommandContext)

inductive LoopOutput where
  | outcome (outcome : ApplyOutcome)
  | note (result : Except CommandRejection Transition)

/-- The transition applied to the loop, if one was. -/
def LoopOutput.applied? : LoopOutput → Option Transition
  | .outcome (.applied t) | .note (.ok t) => some t
  | _ => none

/-- The loop after a transition. -/
def LoopState.advance (state : LoopState) (t : Transition) : LoopState :=
  { state with facets := t.newFacets, loopVersion := t.loopVersion }

/-- Answer an input, and advance the loop by the transition applied. -/
def loopMachine : Machine Session LoopInput LoopOutput where
  step session input :=
    match input with
    | .command request context =>
        let answer := applyCommand session.ledger session.state request context
        let output := LoopOutput.outcome answer.2
        (⟨answer.1, output.applied?.elim session.state session.state.advance⟩, output)
    | .reviewNote causingSourceRef context =>
        let output :=
          LoopOutput.note (applyTerminalReviewNote session.state causingSourceRef context)
        ({ session with
          state := output.applied?.elim session.state session.state.advance }, output)

/-- What a transition does to the loop it is applied to, for an input. -/
structure Advances (state : LoopState) (input : LoopInput) (t : Transition) : Prop where
  loopId : t.loopId = state.loopId
  priorFacets : t.priorFacets = state.facets
  legal : t.newFacets.Legal
  loopVersion : state.loopVersion.next = some t.loopVersion
  /-- The loop is made terminal only by a terminalizing command of the user. -/
  terminal : state.facets.obligationState ≠ .terminal →
    t.newFacets.obligationState = .terminal →
    t.actor = .user ∧ ∃ request context, input = .command request context
      ∧ request.payload.Terminalizing
  /-- A terminal loop is opened only by reopening it. -/
  reopened : state.facets.obligationState = .terminal →
    t.newFacets.obligationState ≠ .terminal →
    ∃ request context, input = .command request context ∧ request.payload = .reopen

/-- The transition of a command advances the loop. -/
theorem Advances.of_buildTransition {state : LoopState} {request : CommandRequest}
    {context : CommandContext} {t : Transition}
    (h : buildTransition state request.payload context = .ok t) :
  Advances state (.command request context) t
  := by
  obtain ⟨hloop, hactor, hprior, hnew, hlegal, hversion, hallowed⟩ := buildTransition_spec h
  constructor
  · apply hloop
  · apply hprior
  · apply hlegal
  · apply hversion
  · intro hbefore hafter
    rw [hnew] at hafter
    use hactor, request, context, rfl
    apply CommandPayload.terminalizing_of_newFacets hbefore hafter
  · intro hbefore hafter
    rw [hnew] at hafter
    use request, context, rfl
    apply CommandPayload.eq_reopen_of_newFacets hallowed hbefore hafter

/-- The transition of a note advances the loop. -/
theorem Advances.of_applyTerminalReviewNote {state : LoopState} {causingSourceRef : OpaqueId}
    {context : CommandContext} {t : Transition}
    (h : applyTerminalReviewNote state causingSourceRef context = .ok t) :
  Advances state (.reviewNote causingSourceRef context) t
  := by
  obtain ⟨hloop, hprior, hlegal, hversion, hbefore, hafter, -⟩ :=
    applyTerminalReviewNote_spec h
  constructor
  · apply hloop
  · apply hprior
  · apply hlegal
  · apply hversion
  · intro hbefore'
    apply absurd hbefore hbefore'
  · intro _ hafter'
    apply absurd hafter hafter'

/-- Of an event of a loop: whatever is applied advances the loop from its state before to
its state after, and otherwise the loop stays. -/
inductive EventAdvances (e : Machine.Event Session LoopInput LoopOutput) : Prop where
  | stays (happlied : e.output.applied? = none) (hstate : e.after.state = e.before.state)
  | advances {t : Transition} (happlied : e.output.applied? = some t)
      (hstate : e.after.state = e.before.state.advance t)
      (h : Advances e.before.state e.input t)

/-- Every input advances the loop by what it applies. -/
theorem loopMachine_event (session : Session) (input : LoopInput) :
  EventAdvances (loopMachine.event session input)
  := by
  cases input with
  | command request context =>
      have hstep := applyCommand_step session.ledger session.state request context
      simp only [Machine.event, loopMachine]
      generalize applyCommand session.ledger session.state request context = answer at *
      cases hstep with
      | applied hkey hversion hbuild =>
          apply EventAdvances.advances rfl rfl
          apply Advances.of_buildTransition hbuild
      | replayed | keyCollision | refreshConflict | rejected =>
          apply EventAdvances.stays rfl rfl
  | reviewNote causingSourceRef context =>
      simp only [Machine.event, loopMachine]
      cases hnote : applyTerminalReviewNote session.state causingSourceRef context with
      | ok t =>
          apply EventAdvances.advances rfl rfl
          apply Advances.of_applyTerminalReviewNote hnote
      | error rejection => apply EventAdvances.stays rfl rfl

/-- The transitions applied in a history. -/
def appliedTransitions (history : List (Machine.Event Session LoopInput LoopOutput)) :
    List Transition :=
  history.filterMap fun e => e.output.applied?

/-- One more event adds the transition it applied. -/
theorem appliedTransitions_snoc
    (history : List (Machine.Event Session LoopInput LoopOutput))
    (e : Machine.Event Session LoopInput LoopOutput) :
  appliedTransitions (history ++ [e])
    = appliedTransitions history ++ e.output.applied?.toList
  := by
  rw [appliedTransitions, List.filterMap_append, List.filterMap_cons, List.filterMap_nil]
  cases e.output.applied? with
  | none => rfl
  | some t => rfl

/-- In every run of a loop from legal facets, the facets stay legal, the version counts
the transitions applied, each of which leads from the facets before it to those after it;
the loop becomes terminal only by a terminalizing command of the user, and leaves terminal
only by being reopened. -/
theorem loop_run_invariant (ledger : Ledger) (state : LoopState) (hlegal : state.facets.Legal)
    (inputs : List LoopInput) :
  (loopMachine.final ⟨ledger, state⟩ inputs).state.facets.Legal
    ∧ (loopMachine.final ⟨ledger, state⟩ inputs).state.loopVersion.get
      = state.loopVersion.get
        + (appliedTransitions (loopMachine.history ⟨ledger, state⟩ inputs)).length
    ∧ ∀ e ∈ loopMachine.history ⟨ledger, state⟩ inputs,
      (∀ t, e.output.applied? = some t →
        t.priorFacets = e.before.state.facets ∧ t.newFacets = e.after.state.facets)
      ∧ (e.before.state.facets.obligationState ≠ .terminal →
        e.after.state.facets.obligationState = .terminal →
        ∃ request context t, e.input = .command request context
          ∧ request.payload.Terminalizing ∧ e.output.applied? = some t ∧ t.actor = .user)
      ∧ (e.before.state.facets.obligationState = .terminal →
        e.after.state.facets.obligationState ≠ .terminal →
        ∃ request context, e.input = .command request context
          ∧ request.payload = .reopen)
  := by
  have hrun := loopMachine.run_induction (s := ⟨ledger, state⟩)
    (P := fun history session => session.state.facets.Legal
      ∧ session.state.loopVersion.get
        = state.loopVersion.get + (appliedTransitions history).length)
    ⟨hlegal, rfl⟩
    (by
      rintro history session input ⟨hlegal, hversion⟩
      rw [appliedTransitions_snoc]
      cases loopMachine_event session input with
      | stays happlied hstate =>
          rw [← Machine.event_after, hstate, happlied, Option.toList_none, List.append_nil]
          exact ⟨hlegal, hversion⟩
      | advances happlied hstate h =>
          rw [← Machine.event_after, hstate, happlied]
          use h.legal
          have hnext := Version.next_eq_some.mp h.loopVersion
          rw [LoopState.advance, hnext, Machine.event_before, hversion, List.length_append]
          rfl)
    inputs
  use hrun.1, hrun.2
  intro e he
  obtain ⟨before, input, -, -, rfl⟩ := loopMachine.mem_history he
  cases loopMachine_event (loopMachine.final ⟨ledger, state⟩ before) input with
  | stays happlied hstate =>
      rw [happlied, hstate]
      refine ⟨?_, ?_, ?_⟩
      · intro t ht
        cases ht
      · intro hbefore hafter
        apply absurd hafter hbefore
      · intro hbefore hafter
        apply absurd hbefore hafter
  | advances happlied hstate h =>
      rename_i t
      rw [happlied, hstate]
      refine ⟨?_, ?_, ?_⟩
      · rintro _ ⟨⟩
        exact ⟨h.priorFacets, rfl⟩
      · intro hbefore hafter
        obtain ⟨hactor, request, context, hinput, hpayload⟩ := h.terminal hbefore hafter
        use request, context, t, hinput, hpayload, rfl, hactor
      · intro hbefore hafter
        apply h.reopened hbefore hafter

/-- The run that confirms an open loop as fulfilled, notes later evidence and reopens
it. -/
theorem openLoop_run_invariant :
  (loopMachine.final ⟨.new, openLoop⟩
      [.command confirmFulfilledRequest someContext, .reviewNote (idOf 4) someContext,
        .command ⟨⟨Vector.replicate 16 1⟩, ⟨3, by decide, by decide⟩, .reopen⟩
          someContext]).state.facets.Legal
  := (loop_run_invariant .new openLoop (by decide) _).1

/-! ### What the system may do -/

/-- Of legal facets with the same resolution, both or neither are terminal. -/
theorem FacetTuple.Legal.terminal_iff {f g : FacetTuple} (hf : f.Legal) (hg : g.Legal)
    (h : f.resolution = g.resolution) :
  f.obligationState = .terminal ↔ g.obligationState = .terminal
  := by
  obtain ⟨hf, -⟩ := f.legal_iff.mp hf
  obtain ⟨hg, -⟩ := g.legal_iff.mp hg
  rw [hf, hg, h]

/-- Legal facets of a terminal loop are out of closure review. -/
theorem FacetTuple.Legal.closureReviewState_of_terminal {f : FacetTuple} (hf : f.Legal)
    (h : f.obligationState = .terminal) :
  f.closureReviewState = .none
  := by
  obtain ⟨-, hreview, -⟩ := f.legal_iff.mp hf
  by_contra hne
  rw [hreview hne] at h
  cases h

/-- A transition applied in a run that the system made is a note. -/
theorem eq_reviewNote_of_system {session : Session} {input : LoopInput} {t : Transition}
    (happlied : (loopMachine.event session input).output.applied? = some t)
    (hactor : t.actor = .system) :
  ∃ causingSourceRef context, input = .reviewNote causingSourceRef context
    ∧ applyTerminalReviewNote session.state causingSourceRef context = .ok t
  := by
  cases input with
  | reviewNote causingSourceRef context =>
      use causingSourceRef, context, rfl
      simp only [Machine.event, loopMachine] at happlied
      cases hnote : applyTerminalReviewNote session.state causingSourceRef context with
      | ok u =>
          rw [hnote] at happlied
          cases happlied
          rfl
      | error rejection =>
          rw [hnote] at happlied
          cases happlied
  | command request context =>
      have hstep := applyCommand_step session.ledger session.state request context
      simp only [Machine.event, loopMachine] at happlied
      generalize applyCommand session.ledger session.state request context = answer at *
      cases hstep with
      | applied hkey hversion hbuild =>
          cases happlied
          obtain ⟨-, huser, -⟩ := buildTransition_spec hbuild
          rw [huser] at hactor
          cases hactor
      | replayed | keyCollision | refreshConflict | rejected => cases happlied

/-- The system never decides a loop: a transition it makes between legal facets keeps the
resolution, and leads to a terminal loop exactly from a terminal one; and in every run of a
loop, a transition it made keeps the resolution, neither closes nor reopens the loop, and
leaves a terminal loop out of closure review. -/
theorem system_never_decides :
  (∀ (transitionId loopId : OpaqueId) (userActionId : Option OpaqueId)
      (priorFacets newFacets : FacetTuple) (reasonCode : TransitionReasonCode)
      (sourceRefs : List OpaqueId) (occurredAt : UnixSeconds)
      (loopVersion policyVersion : Version) (t : Transition),
    priorFacets.Legal → newFacets.Legal →
    Transition.new transitionId loopId userActionId priorFacets newFacets reasonCode .system
      sourceRefs occurredAt loopVersion policyVersion = .ok t →
    newFacets.resolution = priorFacets.resolution
      ∧ (newFacets.obligationState = .terminal ↔ priorFacets.obligationState = .terminal))
  ∧ ∀ (ledger : Ledger) (state : LoopState) (inputs : List LoopInput),
    ∀ e ∈ loopMachine.history ⟨ledger, state⟩ inputs, ∀ t, e.output.applied? = some t →
      t.actor = .system →
      e.after.state.facets.resolution = e.before.state.facets.resolution
        ∧ (e.after.state.facets.obligationState = .terminal
          ↔ e.before.state.facets.obligationState = .terminal)
        ∧ (e.before.state.facets.obligationState = .terminal →
          e.after.state.facets.closureReviewState = .none)
  := by
  constructor
  · intro transitionId loopId userActionId priorFacets newFacets reasonCode sourceRefs
      occurredAt loopVersion policyVersion t hprior hnew h
    obtain ⟨⟨-, hresolution, -⟩, -⟩ := Transition.new_eq_ok.mp h
    use hresolution.symm
    apply hnew.terminal_iff hprior hresolution.symm
  · intro ledger state inputs e he t happlied hactor
    obtain ⟨before, input, -, -, rfl⟩ := loopMachine.mem_history he
    obtain ⟨causingSourceRef, context, rfl, hnote⟩ := eq_reviewNote_of_system happlied hactor
    obtain ⟨-, -, hlegal, -, hbefore, hafter, hresolution⟩ := applyTerminalReviewNote_spec hnote
    cases loopMachine_event (loopMachine.final ⟨ledger, state⟩ before)
        (.reviewNote causingSourceRef context) with
    | stays hnone =>
        rw [hnone] at happlied
        cases happlied
    | advances hsome hstate =>
        cases hsome.symm.trans happlied
        rw [hstate]
        use hresolution, iff_of_true hafter hbefore
        intro _
        apply hlegal.closureReviewState_of_terminal hafter

/-- The open loop is confirmed as fulfilled, and then later evidence is noted. -/
def fulfilledThenNoted : List LoopInput :=
  [.command confirmFulfilledRequest someContext, .reviewNote (idOf 4) someContext]

/-- The facets of the loop when it was confirmed as fulfilled, and after the note. -/
def fulfilledFacets : FacetTuple :=
  openFacets.terminal .closed

def notedFacets : FacetTuple :=
  { fulfilledFacets with reviewFlags := openFacets.reviewFlags.with .needsReview }

/-- The note keeps the resolution of the fulfilled loop, and leaves it closed and out of
closure review. -/
theorem fulfilledThenNoted_stays_closed :
  (notedFacets.resolution = fulfilledFacets.resolution
      ∧ (notedFacets.obligationState = .terminal ↔ fulfilledFacets.obligationState = .terminal))
    ∧ ∃ e ∈ loopMachine.history ⟨.new, openLoop⟩ fulfilledThenNoted,
      e.before.state.facets.resolution = .closed ∧ e.after.state.facets.resolution = .closed
        ∧ e.after.state.facets.closureReviewState = .none
  := by
  obtain ⟨hnew, hrun⟩ := system_never_decides
  constructor
  · apply hnew (idOf 1) (idOf 2) none fulfilledFacets notedFacets .terminalReviewNoteAdded
      [idOf 4] someContext.occurredAt .first .first _ (by decide) (by decide) rfl
  · have hmem : loopMachine.event (loopMachine.next ⟨.new, openLoop⟩
        (.command confirmFulfilledRequest someContext)) (.reviewNote (idOf 4) someContext)
        ∈ loopMachine.history ⟨.new, openLoop⟩ fulfilledThenNoted :=
      List.mem_cons_of_mem _ List.mem_cons_self
    obtain ⟨hresolution, -, hreview⟩ := hrun .new openLoop fulfilledThenNoted _ hmem _ rfl rfl
    refine ⟨_, hmem, rfl, ?_, hreview rfl⟩
    rw [hresolution]
    rfl

end Domain
