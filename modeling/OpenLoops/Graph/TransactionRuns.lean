import OpenLoops.Graph.Transaction

/-!
# Runs of the sign-in slot

In every run of calls a transaction is consumed at most once, by a callback that carries its state
in time.  Once it is consumed, has expired or was cancelled, its state is of no use.
-/

namespace Graph

/-! ### Single calls -/

/-- No byte differs from its partner exactly when the differences come to nothing. -/
theorem foldl_xor_eq_zero {pairs : List (UInt8 × UInt8)} {diff : UInt8} :
  pairs.foldl (fun diff pair => diff ||| (pair.1 ^^^ pair.2)) diff = 0
    ↔ diff = 0 ∧ ∀ pair ∈ pairs, pair.1 = pair.2
  := by
  induction pairs generalizing diff with
  | nil => simp
  | cons pair pairs ih => simp [ih, and_assoc]

/-- Byte strings of the same length are equal exactly when no byte differs from its partner. -/
theorem forall_zip_iff {a b : Bytes} (h : a.length = b.length) :
  (∀ pair ∈ a.zip b, pair.1 = pair.2) ↔ a = b
  := by
  induction a generalizing b with
  | nil => simp [List.eq_nil_of_length_eq_zero h.symm]
  | cons x a ih =>
      rcases b with _ | ⟨y, b⟩
      · cases h
      · rw [List.zip_cons_cons, List.forall_mem_cons, ih (Nat.succ.inj h), List.cons.injEq]

/-- The comparison is equality. -/
theorem constantTimeEq_iff {a b : Bytes} :
  constantTimeEq a b = true ↔ a = b
  := by
  rw [constantTimeEq]
  split_ifs with hlength
  · constructor
    · exact nofun
    · rintro rfl
      exact absurd rfl hlength
  · rw [decide_eq_true_eq, foldl_xor_eq_zero, forall_zip_iff (not_not.mp hlength)]
    simp

/-- What a callback makes of the transaction that is pending: nothing when it carries another
state, and else the transaction is over. -/
theorem complete_some (transaction : Transaction) (outcome : CallbackOutcome) (maxAge now : ℕ) :
  complete (some transaction) outcome maxAge now =
    if outcome.state ≠ transaction.state then (some transaction, .error .stateMismatch)
    else if maxAge < now - transaction.createdAt then (none, .error .expired)
    else (none, .ok (outcome.consume transaction))
  := by
  have hstate : ¬constantTimeEq (Wire.utf8 transaction.state) (Wire.utf8 outcome.state) = true
      ↔ outcome.state ≠ transaction.state := by
    rw [constantTimeEq_iff, Wire.utf8_inj, ne_comm]
  simp only [complete, hstate]

/-- A call on the slot. -/
abbrev SlotEvent :=
  Machine.Event (Option Transaction) SlotCall SlotResult

namespace SlotEvent

/-- The call begins the transaction, with a state and a verifier that it has generated. -/
def Begins (event : SlotEvent) (transaction : Transaction) : Prop :=
  ∃ redirectPort randomState randomVerifier now,
    event.input = .begin redirectPort (some randomState) (some randomVerifier) now
      ∧ transaction = ⟨base64urlEncode randomState.toList, base64urlEncode randomVerifier.toList, now⟩
      ∧ event.before = none ∧ event.after = some transaction

/-- The transaction is pending before the call, and none is after it. -/
def Ends (event : SlotEvent) (transaction : Transaction) : Prop :=
  event.before = some transaction ∧ event.after = none

/-- The call consumes a transaction. -/
def Consumes (event : SlotEvent) (outcome : CallbackOutcome) (maxAge now : ℕ)
    (result : Except AuthorizationErrorCode CompletedTransaction) : Prop :=
  event.input = .complete outcome maxAge now ∧ event.output = .completed (.ok result)

/-- What a callback does: without a transaction nothing is consumed; one that carries another state
leaves the transaction as it is; one that comes too late ends it; and else the transaction is
consumed. -/
def Completes (event : SlotEvent) (outcome : CallbackOutcome) (maxAge now : ℕ) : Prop :=
  match event.before with
  | none => event.after = none ∧ event.output = .completed (.error .noPendingTransaction)
  | some transaction =>
      if outcome.state ≠ transaction.state then
        event.after = some transaction ∧ event.output = .completed (.error .stateMismatch)
      else if maxAge < now - transaction.createdAt then
        event.after = none ∧ event.output = .completed (.error .expired)
      else event.after = none ∧ event.output = .completed (.ok (outcome.consume transaction))

/-- What each call does. -/
structure Spec (event : SlotEvent) : Prop where
  /-- A transaction that is pending stays when another one is to begin. -/
  pending : ∀ redirectPort randomState randomVerifier now transaction,
    event.input = .begin redirectPort randomState randomVerifier now →
    event.before = some transaction →
      event.after = some transaction ∧ event.output = .begun (.error .alreadyPending)
  completes : ∀ outcome maxAge now, event.input = .complete outcome maxAge now →
    event.Completes outcome maxAge now
  cancels : event.input = .cancel → event.after = none

end SlotEvent

variable (sha256 : Bytes → Vector UInt8 32)

/-- Every call does what it should. -/
theorem slot_spec (pending : Option Transaction) (call : SlotCall) :
  SlotEvent.Spec ((slot sha256).event pending call)
  := by
  constructor
  · rintro redirectPort randomState randomVerifier now transaction ⟨⟩ ⟨⟩
    exact ⟨rfl, rfl⟩
  · rintro outcome maxAge now ⟨⟩
    rw [SlotEvent.Completes]
    rcases pending with _ | transaction
    · exact ⟨rfl, rfl⟩
    · have hevent : (slot sha256).event (some transaction) (.complete outcome maxAge now)
          = ⟨some transaction, .complete outcome maxAge now,
            .completed (complete (some transaction) outcome maxAge now).2,
            (complete (some transaction) outcome maxAge now).1⟩ := rfl
      rw [hevent, complete_some]
      dsimp only
      split_ifs
      · exact ⟨rfl, rfl⟩
      · exact ⟨rfl, rfl⟩
      · exact ⟨rfl, rfl⟩
  · rintro ⟨⟩
    rfl

/-- A call leaves what is pending, ends it, or begins a transaction where none is pending. -/
theorem slot_cases (pending : Option Transaction) (call : SlotCall) :
  let event : SlotEvent := (slot sha256).event pending call
  event.after = pending ∨ (∃ transaction, event.Ends transaction)
    ∨ ∃ transaction, event.Begins transaction
  := by
  intro event
  rcases call with ⟨redirectPort, randomState, randomVerifier, now⟩ | ⟨outcome, maxAge, now⟩ | _
  · rcases pending with _ | transaction
    · rcases randomState with _ | randomState
      · exact Or.inl rfl
      · rcases randomVerifier with _ | randomVerifier
        · exact Or.inl rfl
        · right
          right
          use ⟨base64urlEncode randomState.toList, base64urlEncode randomVerifier.toList, now⟩
          exact ⟨redirectPort, randomState, randomVerifier, now, rfl, rfl, rfl, rfl⟩
    · exact Or.inl rfl
  · rcases pending with _ | transaction
    · exact Or.inl rfl
    · have hafter : event.after = (complete (some transaction) outcome maxAge now).1 := rfl
      rw [complete_some] at hafter
      split_ifs at hafter
      · exact Or.inl hafter
      · exact Or.inr (Or.inl ⟨transaction, rfl, hafter⟩)
      · exact Or.inr (Or.inl ⟨transaction, rfl, hafter⟩)
  · rcases pending with _ | transaction
    · exact Or.inl rfl
    · exact Or.inr (Or.inl ⟨transaction, rfl, rfl⟩)

/-! ### Runs -/

/-- The transaction that a call begins, if it does. -/
def SlotEvent.begun (event : SlotEvent) : Option Transaction :=
  match event.output with
  | .begun (.ok _) => event.after
  | _ => none

/-- The transaction that a call begins is the one begun. -/
theorem begun_of_begins {pending : Option Transaction} {call : SlotCall}
    {transaction : Transaction}
    (h : SlotEvent.Begins ((slot sha256).event pending call) transaction) :
  SlotEvent.begun ((slot sha256).event pending call) = some transaction
  := by
  obtain ⟨redirectPort, randomState, randomVerifier, now, hinput, rfl, hbefore, hafter⟩ := h
  obtain rfl : call = .begin redirectPort (some randomState) (some randomVerifier) now := hinput
  obtain rfl : pending = none := hbefore
  rfl

/-- The states of the transactions that were begun. -/
def statesBegun (history : List SlotEvent) : List String :=
  (history.filterMap SlotEvent.begun).map (·.state)

/-- What holds after some calls: every transaction that was pending was begun, and what is pending
has the state of none that has ended. -/
structure SlotInvariant (history : List SlotEvent) (pending : Option Transaction) : Prop where
  origin : ∀ transaction, pending = some transaction →
    ∃ event ∈ history, event.Begins transaction ∧ event.begun = some transaction
  past : ∀ event ∈ history, ∀ transaction, event.before = some transaction →
    ∃ event' ∈ history, event'.Begins transaction ∧ event'.begun = some transaction
  fresh : ∀ transaction, pending = some transaction →
    ∀ event ∈ history, ∀ ended, event.Ends ended → ended.state ≠ transaction.state

/-- What was begun before is still begun with one more call. -/
theorem exists_begins_append {history : List SlotEvent} {event : SlotEvent}
    {transaction : Transaction}
    (h : ∃ event' ∈ history, event'.Begins transaction ∧ event'.begun = some transaction) :
  ∃ event' ∈ history ++ [event], event'.Begins transaction ∧ event'.begun = some transaction
  := by
  obtain ⟨event', hmem, hbegins⟩ := h
  exact ⟨event', List.mem_append_left _ hmem, hbegins⟩

/-- The invariant stays with one more call, as long as no state is begun twice. -/
theorem slotInvariant_step {history : List SlotEvent} {pending : Option Transaction}
    (call : SlotCall) (h : SlotInvariant history pending)
    (hdistinct : (statesBegun (history ++ [(slot sha256).event pending call])).Nodup) :
  SlotInvariant (history ++ [(slot sha256).event pending call]) ((slot sha256).next pending call)
  := by
  have hpast : ∀ event ∈ history ++ [(slot sha256).event pending call], ∀ transaction,
      event.before = some transaction → ∃ event' ∈ history,
        event'.Begins transaction ∧ event'.begun = some transaction := by
    intro event hevent transaction hbefore
    rcases List.mem_append.mp hevent with hevent | hevent
    · apply h.past event hevent transaction hbefore
    · rw [List.mem_singleton.mp hevent] at hbefore
      apply h.origin transaction hbefore
  have hpast' : ∀ event ∈ history ++ [(slot sha256).event pending call], ∀ transaction,
      event.before = some transaction → ∃ event' ∈ history ++ [(slot sha256).event pending call],
        event'.Begins transaction ∧ event'.begun = some transaction := by
    intro event hevent transaction hbefore
    apply exists_begins_append (hpast event hevent transaction hbefore)
  have hcases := slot_cases sha256 pending call
  dsimp only at hcases
  rcases hcases with hsame | ⟨ended, hends⟩ | ⟨begun, hbegins⟩
  · rw [Machine.event_after] at hsame
    rw [hsame]
    refine ⟨?_, hpast', ?_⟩
    · intro transaction hpending
      apply exists_begins_append (h.origin transaction hpending)
    · intro transaction hpending event hevent ended hends
      rcases List.mem_append.mp hevent with hevent | hevent
      · apply h.fresh transaction hpending event hevent ended hends
      · obtain ⟨-, hafter⟩ := hends
        rw [List.mem_singleton.mp hevent, Machine.event_after, hsame, hpending] at hafter
        cases hafter
  · obtain ⟨-, hafter⟩ := hends
    rw [Machine.event_after] at hafter
    rw [hafter]
    exact ⟨nofun, hpast', nofun⟩
  · have hbegun := begun_of_begins sha256 hbegins
    have hbefore : pending = none := by
      obtain ⟨-, -, -, -, -, -, hbefore, -⟩ := hbegins
      exact hbefore
    have hafter : (slot sha256).next pending call = some begun := by
      obtain ⟨-, -, -, -, -, -, -, hafter⟩ := hbegins
      exact hafter
    rw [hafter]
    refine ⟨?_, hpast', ?_⟩
    · rintro transaction ⟨⟩
      exact ⟨_, List.mem_append_right _ (List.mem_singleton_self _), hbegins, hbegun⟩
    · rintro transaction ⟨⟩ event hevent ended hends heq
      -- The transaction that has ended was begun before, with the same state.
      obtain ⟨event', hevent', -, hbegun'⟩ := hpast event hevent ended hends.1
      rw [statesBegun, List.filterMap_append, List.map_append, List.nodup_append] at hdistinct
      obtain ⟨-, -, hdisjoint⟩ := hdistinct
      have hold : ended.state ∈ (history.filterMap SlotEvent.begun).map (·.state) :=
        List.mem_map_of_mem (List.mem_filterMap.mpr ⟨event', hevent', hbegun'⟩)
      apply hdisjoint _ hold begun.state _ heq
      simp [hbegun]

/-- Before the first call nothing is pending, and nothing has ended. -/
theorem slotInvariant_nil :
  SlotInvariant [] none
  := by
  constructor
  · intro transaction hpending
    cases hpending
  · intro event hevent
    cases hevent
  · intro transaction hpending
    cases hpending

/-- The invariant holds after every run in which no state is begun twice. -/
theorem slotInvariant_run (calls : List SlotCall)
    (hdistinct : (statesBegun ((slot sha256).history none calls)).Nodup) :
  SlotInvariant ((slot sha256).history none calls) ((slot sha256).final none calls)
  := by
  have hrun := (slot sha256).run_induction
    (P := fun history pending =>
      (statesBegun history).Nodup → SlotInvariant history pending)
    (s := none) (fun _ => slotInvariant_nil) (by
      intro history pending call ih hdistinct
      apply slotInvariant_step sha256 call _ hdistinct
      apply ih
      rw [statesBegun, List.filterMap_append, List.map_append] at hdistinct
      apply hdistinct.of_append_left) calls
  apply hrun hdistinct

/-- A transaction that is pending stays so, until a call ends it. -/
theorem ends_or_stays (transaction : Transaction) (calls : List SlotCall) :
  (∃ event ∈ (slot sha256).history (some transaction) calls, SlotEvent.Ends event transaction)
    ∨ (slot sha256).final (some transaction) calls = some transaction
  := by
  apply (slot sha256).run_induction (P := fun history pending =>
    (∃ event ∈ history, SlotEvent.Ends event transaction) ∨ pending = some transaction)
  · exact Or.inr rfl
  · intro history pending call h
    rcases h with ⟨event, hevent, hends⟩ | rfl
    · exact Or.inl ⟨event, List.mem_append_left _ hevent, hends⟩
    · have hcases := slot_cases sha256 (some transaction) call
      dsimp only at hcases
      rcases hcases with hsame | ⟨ended, hends⟩ | ⟨begun, hbegins⟩
      · exact Or.inr hsame
      · obtain rfl := Option.some.inj hends.1
        exact Or.inl ⟨_, List.mem_append_right _ (List.mem_singleton_self _), hends⟩
      · obtain ⟨-, -, -, -, -, -, hbefore, -⟩ := hbegins
        cases hbefore

/-- A callback that carries the state of a transaction that has ended is rejected. -/
theorem replay_rejected {history : List SlotEvent} {pending : Option Transaction}
    (h : SlotInvariant history pending) {ended : Transaction}
    (hends : ∃ event ∈ history, SlotEvent.Ends event ended) {outcome : CallbackOutcome}
    {maxAge now : ℕ} (hstate : outcome.state = ended.state) :
  let event : SlotEvent := (slot sha256).event pending (.complete outcome maxAge now)
  event.output = .completed (.error .noPendingTransaction)
    ∨ event.output = .completed (.error .stateMismatch)
  := by
  intro event
  have hcompletes := (slot_spec sha256 pending (.complete outcome maxAge now)).completes
    outcome maxAge now rfl
  rw [SlotEvent.Completes, Machine.event_before] at hcompletes
  rcases pending with _ | transaction
  · exact Or.inl hcompletes.2
  · obtain ⟨old, hold, hends⟩ := hends
    have hne := h.fresh transaction rfl old hold ended hends
    rw [← hstate] at hne
    dsimp only at hcompletes
    rw [if_pos hne] at hcompletes
    exact Or.inr hcompletes.2

/-- What a callback consumes is pending, carries the same state and is not too old. -/
theorem consumes_pending {pending : Option Transaction} {call : SlotCall}
    {outcome : CallbackOutcome} {maxAge now : ℕ}
    {result : Except AuthorizationErrorCode CompletedTransaction}
    (h : SlotEvent.Consumes ((slot sha256).event pending call) outcome maxAge now result) :
  ∃ transaction, SlotEvent.Ends ((slot sha256).event pending call) transaction
    ∧ outcome.state = transaction.state ∧ now - transaction.createdAt ≤ maxAge
    ∧ result = outcome.consume transaction
  := by
  obtain ⟨hinput, houtput⟩ := h
  have hcompletes := (slot_spec sha256 pending call).completes outcome maxAge now hinput
  rw [SlotEvent.Completes, Machine.event_before] at hcompletes
  rcases pending with _ | transaction
  · cases hcompletes.2.symm.trans houtput
  · dsimp only at hcompletes
    split_ifs at hcompletes with hstate hage
    · cases hcompletes.2.symm.trans houtput
    · cases hcompletes.2.symm.trans houtput
    · cases hcompletes.2.symm.trans houtput
      exact ⟨transaction, ⟨rfl, hcompletes.1⟩, not_not.mp hstate, not_lt.mp hage, rfl⟩

/-- What holds where a call of a run begins. -/
theorem slotInvariant_of_split {calls : List SlotCall} {before after : List SlotEvent}
    {event : SlotEvent} (hdistinct : (statesBegun ((slot sha256).history none calls)).Nodup)
    (hsplit : (slot sha256).history none calls = before ++ event :: after) :
  ∃ pending call, event = (slot sha256).event pending call ∧ SlotInvariant before pending
  := by
  obtain ⟨js, call, ls, rfl, rfl, rfl, -⟩ := (slot sha256).history_eq_append_cons hsplit
  use (slot sha256).final none js, call, rfl
  apply slotInvariant_run
  rw [Machine.history_append, statesBegun, List.filterMap_append, List.map_append] at hdistinct
  apply hdistinct.of_append_left

/-- In a history of calls transactions are consumed at most once. -/
structure ConsumedOnce (history : List SlotEvent) : Prop where
  /-- Every call does what it should. -/
  calls : ∀ event ∈ history, event.Spec
  /-- A transaction is ended before another one is begun. -/
  onePending : ∀ before first between second after transaction transaction',
    history = before ++ first :: (between ++ second :: after) →
    first.Begins transaction → second.Begins transaction' →
      ∃ event ∈ between, event.Ends transaction
  /-- What is consumed was begun before, with the state of the callback and the verifier that is
  handed out, and is not too old. -/
  consumes : ∀ before event after outcome maxAge now result,
    history = before ++ event :: after → event.Consumes outcome maxAge now result →
      ∃ earlier ∈ before, ∃ transaction, earlier.Begins transaction ∧ event.Ends transaction
        ∧ outcome.state = transaction.state ∧ now - transaction.createdAt ≤ maxAge
        ∧ result = outcome.consume transaction
  /-- No state is consumed twice. -/
  once : ∀ before first between second after outcome maxAge now result
      outcome' maxAge' now' result',
    history = before ++ first :: (between ++ second :: after) →
    first.Consumes outcome maxAge now result → second.Consumes outcome' maxAge' now' result' →
      outcome.state ≠ outcome'.state
  /-- Once a transaction has ended, a callback that carries its state is rejected. -/
  replay : ∀ before first between second after transaction outcome maxAge now,
    history = before ++ first :: (between ++ second :: after) →
    first.Ends transaction → second.input = .complete outcome maxAge now →
    outcome.state = transaction.state →
      second.output = .completed (.error .noPendingTransaction)
        ∨ second.output = .completed (.error .stateMismatch)

/-- In every run of calls in which no state is generated twice transactions are consumed at most
once. -/
theorem transactions_consumedOnce (calls : List SlotCall)
    (hdistinct : (statesBegun ((slot sha256).history none calls)).Nodup) :
  ConsumedOnce ((slot sha256).history none calls)
  := by
  -- A callback is rejected that carries the state of a transaction that has ended.
  have hreplay : ∀ before first between second after transaction outcome maxAge now,
      (slot sha256).history none calls = before ++ first :: (between ++ second :: after) →
      SlotEvent.Ends first transaction → second.input = .complete outcome maxAge now →
      outcome.state = transaction.state →
        second.output = .completed (.error .noPendingTransaction)
          ∨ second.output = .completed (.error .stateMismatch) := by
    intro before first between second after transaction outcome maxAge now hsplit hends hinput
      hstate
    rw [← List.cons_append, ← List.append_assoc] at hsplit
    obtain ⟨pending, call, rfl, hinvariant⟩ := slotInvariant_of_split sha256 hdistinct hsplit
    obtain rfl : call = .complete outcome maxAge now := hinput
    apply replay_rejected sha256 hinvariant _ hstate
    use first, List.mem_append_right before List.mem_cons_self
  refine ⟨?_, ?_, ?_, ?_, hreplay⟩
  · apply (slot sha256).forall_history (I := fun _ => True) (Q := SlotEvent.Spec) trivial
    · exact fun _ _ _ => trivial
    · exact fun pending call _ => slot_spec sha256 pending call
  · intro before first between second after transaction transaction' hsplit hfirst hsecond
    obtain ⟨js, call, ls, rfl, rfl, rfl, htail⟩ := (slot sha256).history_eq_append_cons hsplit
    obtain ⟨ms, call', ns, rfl, rfl, rfl, -⟩ := (slot sha256).history_eq_append_cons htail.symm
    have hpending : (slot sha256).next ((slot sha256).final none js) call = some transaction := by
      obtain ⟨-, -, -, -, -, -, -, hafter⟩ := hfirst
      exact hafter
    have hnone : (slot sha256).final (some transaction) ms = none := by
      obtain ⟨-, -, -, -, -, -, hbefore, -⟩ := hsecond
      rw [← hpending]
      exact hbefore
    rw [hpending]
    apply (ends_or_stays sha256 transaction ms).resolve_right
    rw [hnone]
    exact nofun
  · intro before event after outcome maxAge now result hsplit hconsumes
    obtain ⟨pending, call, rfl, hinvariant⟩ := slotInvariant_of_split sha256 hdistinct hsplit
    obtain ⟨transaction, hends, hstate, hage, hresult⟩ := consumes_pending sha256 hconsumes
    obtain ⟨earlier, hearlier, hbegins, -⟩ := hinvariant.origin transaction hends.1
    exact ⟨earlier, hearlier, transaction, hbegins, hends, hstate, hage, hresult⟩
  · intro before first between second after outcome maxAge now result outcome' maxAge' now' result'
      hsplit hfirst hsecond hsame
    obtain ⟨pending, call, rfl, -⟩ := slotInvariant_of_split sha256 hdistinct hsplit
    obtain ⟨transaction, hends, hstate, -, -⟩ := consumes_pending sha256 hfirst
    have hrejected := hreplay before _ between second after transaction outcome' maxAge' now' hsplit
      hends hsecond.1 (hsame.symm.trans hstate)
    rw [hsecond.2] at hrejected
    rcases hrejected with hrejected | hrejected
    · cases hrejected
    · cases hrejected

/-- A callback that is answered once and then replayed. -/
def sampleCalls : List SlotCall :=
  let random := Vector.replicate 32 7
  let outcome := .success "code" (base64urlEncode random.toList)
  [.begin 8080 (some random) (some (Vector.replicate 32 9)) 5, .complete outcome 600 65,
    .complete outcome 600 66]

/-- The code is handed out with the verifier of its transaction, and only once. -/
theorem sampleCalls_consumedOnce :
  let sha256 : Bytes → Vector UInt8 32 := fun _ => Vector.replicate 32 0
  let history := (slot sha256).history none sampleCalls
  (history.map (·.output)).drop 1
      = [.completed (.ok (.ok ⟨"code", base64urlEncode (Vector.replicate 32 9).toList⟩)),
        .completed (.error .noPendingTransaction)]
    ∧ ConsumedOnce history
  := by
  intro sha256 history
  constructor
  · decide
  · have hdistinct : (statesBegun ((slot sha256).history none sampleCalls)).Nodup := by
      decide
    apply transactions_consumedOnce sha256 sampleCalls hdistinct

end Graph
