import OpenLoops.Desktop.LoopCodec
import OpenLoops.Library.Machine

/-!
# Runs of calls on the decisions

In a run of calls the saved decisions stay a map of bounded size.  A call that fails changes no
record; one that succeeds changes the record under its key, drops records that have expired and
saves what it leaves.  A reminder is begun only where there is none.
-/

namespace Desktop

open LoopState

/-! ### Single calls -/

/-- The record is of a loop that ended at least 180 days before a reading of the clock, and has no
reminder. -/
structure Expired (steps : StoreSteps) (r : Record) : Prop where
  isTerminal : r.decision.isTerminal = true
  reminder : r.reminder = .none
  age : ∃ reading : UInt64, (⟨.now, reading⟩ : Performed StoreOperation.Answer) ∈ steps
    ∧ 180 * 86400 ≤ (epochSeconds reading).toInt - r.updated.toInt

theorem Expired.mono {steps steps' : StoreSteps} {r : Record} (h : Expired steps r)
    (hsubset : ∀ step ∈ steps, step ∈ steps') :
  Expired steps' r
  := by
  obtain ⟨reading, hmem, hage⟩ := h.age
  use h.isTerminal, h.reminder, reading, hsubset _ hmem

/-- The difference to an instant after the epoch is as long as the expiry only when it does not
wrap around. -/
theorem le_sub_of_not_lt {now updated : Int64} (hnow : 0 ≤ now.toInt)
    (h : ¬now - updated < terminalExpirySeconds) :
  180 * 86400 ≤ now.toInt - updated.toInt
  := by
  rw [Int64.lt_iff_toInt_lt, Int64.toInt_sub] at h
  have hexpiry : terminalExpirySeconds.toInt = 180 * 86400 := by decide
  have hlt := now.toInt_lt
  have hle := updated.le_toInt
  have hlt' := updated.toInt_lt
  rw [hexpiry, Int.bmod] at h
  split_ifs at h
  · omega
  · omega

namespace Decisions

variable {testBuild : Bool}

/-- Only the clock is read to tell whether a record is kept, and one that is not has expired. -/
theorem keeps_runs {r : Record} {steps : StoreSteps} {kept : Bool}
    (h : (keeps r).Runs steps kept) :
  OnlyReadings steps ∧ (kept = true ∨ Expired steps r)
  := by
  rw [keeps] at h
  split_ifs at h with hkept
  · obtain ⟨rfl, rfl⟩ := Program.runs_pure.mp h
    exact ⟨nofun, Or.inl rfl⟩
  · obtain ⟨hreminder, hterminal⟩ : r.reminder = .none ∧ r.decision.isTerminal = true := by
      simpa using hkept
    obtain ⟨first, instant, rest, rfl, hnow, h⟩ := Program.runs_bind.mp h
    obtain ⟨rfl, rfl⟩ := Program.runs_pure.mp h
    obtain ⟨reading, rfl, rfl⟩ := now_runs hnow
    constructor
    · rintro step hstep
      use reading, List.mem_singleton.mp hstep
    by_cases hlt : epochSeconds reading - r.updated < terminalExpirySeconds
    · left
      apply decide_eq_true hlt
    · right
      use hterminal, hreminder, reading, List.mem_append_left _ (List.mem_singleton_self _)
      apply le_sub_of_not_lt (epochSeconds_nonneg reading) hlt

/-- Only the clock is read to drop records, and those that are dropped have expired. -/
theorem retain_runs {records retained : List Record} {steps : StoreSteps}
    (h : (retain records).Runs steps retained) :
  OnlyReadings steps ∧ retained.Sublist records
    ∧ ∀ r ∈ records, r ∉ retained → Expired steps r
  := by
  induction records generalizing retained steps with
  | nil =>
      obtain ⟨rfl, rfl⟩ := Program.runs_pure.mp h
      exact ⟨nofun, List.Sublist.refl [], by simp⟩
  | cons r records ih =>
      rw [retain] at h
      obtain ⟨first, kept, rest, rfl, hkept, h⟩ := Program.runs_bind.mp h
      obtain ⟨second, others, last, rfl, hothers, h⟩ := Program.runs_bind.mp h
      obtain ⟨rfl, rfl⟩ := Program.runs_pure.mp h
      obtain ⟨hreadings, hexpired⟩ := keeps_runs hkept
      obtain ⟨hreadings', hsub, hdropped⟩ := ih hothers
      rw [List.append_nil]
      use hreadings.append hreadings'
      have hothersExpired : ∀ other ∈ records, other ∉ others →
          Expired (first ++ second) other := by
        intro other hother hnot
        apply (hdropped other hother hnot).mono
        intro step hstep
        apply List.mem_append_right _ hstep
      split_ifs with hkeep
      · use hsub.cons_cons r
        intro other hother hnot
        rcases List.mem_cons.mp hother with rfl | hother
        · exact absurd List.mem_cons_self hnot
        · apply hothersExpired other hother (fun hmem => hnot (List.mem_cons_of_mem r hmem))
      · use hsub.cons r
        intro other hother hnot
        rcases List.mem_cons.mp hother with rfl | hother
        · apply (hexpired.resolve_left hkeep).mono
          intro step hstep
          apply List.mem_append_left _ hstep
        · apply hothersExpired other hother hnot

/-- A call that is refused does nothing but read the clock; one that cannot save changes no record
and lets no further call do so.  One that succeeds puts its record among those that it keeps, and
saves them all. -/
theorem update_runs {d d' : Decisions} {record : Record} {steps : StoreSteps}
    {result : Except String Unit} (h : (update testBuild d record).Runs steps (result, d')) :
  (result ≠ .ok () ∧ OnlyReadings steps ∧ d' = d)
    ∨ (result = .error failure ∧ d.error = none ∧ d' = { d with error := some failure }
      ∧ (d.entry = true → Attempt d.previous steps none))
    ∨ (result = .ok () ∧ d.error = none ∧ ∃ retained, retained.Sublist d.records
      ∧ (∀ r ∈ d.records, r ∉ retained → Expired steps r)
      ∧ ∃ records, KeyedRows.place Record.key cap record retained = some records
        ∧ ∃ bytes, d' = { d with records, previous := bytes }
          ∧ encode d.secret records = .ok bytes
          ∧ (d.entry = true → Attempt d.previous steps (some bytes)))
  := by
  rw [update] at h
  rcases herror : d.error with _ | error
  · rw [herror] at h
    obtain ⟨first, retained, rest, rfl, hretained, h⟩ := Program.runs_bind.mp h
    obtain ⟨hreadings, hsub, hdropped⟩ := retain_runs hretained
    rcases hplace : KeyedRows.place Record.key cap record retained with _ | records
    · rw [hplace] at h
      left
      cases h
      rw [List.append_nil]
      exact ⟨nofun, hreadings, by rw [← herror]⟩
    · rw [hplace] at h
      right
      obtain ⟨second, ⟨saved, d''⟩, last, rfl, hsaved, h⟩ := Program.runs_bind.mp h
      rcases remembering_runs hsaved with ⟨hfailed, rfl, hattempt⟩
        | ⟨rfl, bytes, rfl, hbytes, hattempt⟩
      · left
        rcases saved with e | u
        · cases h
          rw [List.append_nil]
          exact ⟨rfl, rfl, by rw [← herror], fun hentry => (hattempt hentry).readings hreadings⟩
        · exact absurd rfl hfailed
      · right
        cases h
        rw [List.append_nil]
        use rfl, rfl, retained, hsub
        constructor
        · intro r hr hnot
          apply (hdropped r hr hnot).mono
          intro step hstep
          apply List.mem_append_left _ hstep
        · exact ⟨records, hplace, bytes, by rw [← herror], hbytes,
            fun hentry => (hattempt hentry).readings hreadings⟩
  · rw [herror] at h
    left
    cases h
    exact ⟨nofun, nofun, rfl⟩

/-- A reminder is begun exactly where a loop is one's own or is watched, and has no reminder: then
its record is changed into one of an attempted reminder. -/
theorem beginReminder_runs {d d' : Decisions} {key : LoopKey} {steps : StoreSteps}
    {result : Except String Unit} (h : (beginReminder testBuild d key).Runs steps (result, d')) :
  (result ≠ .ok () ∧ steps = [] ∧ d' = d)
    ∨ (((d.get key).decision = .mine ∨ (d.get key).decision = .watching)
      ∧ (d.get key).reminder = .none
      ∧ ∃ (reading : UInt64) (rest : StoreSteps), steps = ⟨.now, reading⟩ :: rest
        ∧ (update testBuild d { d.get key with
            reminder := .attempted, updated := epochSeconds reading }).Runs rest (result, d'))
  := by
  rw [beginReminder] at h
  split_ifs at h with hrefused
  · left
    cases h
    simp
  · right
    rw [not_or, not_not, not_not] at hrefused
    use hrefused.1, hrefused.2
    obtain ⟨first, instant, rest, rfl, hnow, hupdate⟩ := Program.runs_bind.mp h
    obtain ⟨reading, rfl, rfl⟩ := now_runs hnow
    use reading, rest, rfl

end Decisions

/-! ### Runs -/

/-- A call that changes the decisions. -/
inductive DecisionsCall where
  | update (record : Record)
  | beginReminder (key : LoopKey)

/-- The key that a call is about. -/
def DecisionsCall.key : DecisionsCall → LoopKey
  | update record => record.key
  | beginReminder key => key

/-- A call, and what the system answers while it runs. -/
structure ServedCall (κ : Type) where
  call : κ
  serve : ℕ → (o : StoreOperation) → o.Answer

namespace Decisions

/-- The program of a call. -/
def perform (testBuild : Bool) (d : Decisions) :
    DecisionsCall → StoreProgram (Except String Unit × Decisions)
  | .update record => update testBuild d record
  | .beginReminder key => beginReminder testBuild d key

/-- The calls on the decisions in one window; the output of a call is its steps and its result. -/
def calls (testBuild : Bool) :
    Machine Decisions (ServedCall DecisionsCall) (StoreSteps × Except String Unit) where
  step d c :=
    let (steps, result, d) := (d.perform testBuild c.call).eval c.serve
    (d, steps, result)

/-- A call on the decisions in a window. -/
abbrev CallEvent :=
  Machine.Event Decisions (ServedCall DecisionsCall) (StoreSteps × Except String Unit)

/-- The record that a call puts under its key. -/
def CallEvent.Puts (event : CallEvent) (record : Record) : Prop :=
  match event.input.call with
  | .update r => record = r
  | .beginReminder key => ∃ reading : UInt64, record =
      { event.before.get key with reminder := .attempted, updated := epochSeconds reading }

/-- The call puts a record under its key, and of the other records it drops only such that have
expired. -/
structure CallEvent.ChangesOnlyItsKey (event : CallEvent) : Prop where
  own : ∃ record, event.Puts record
    ∧ KeyedRows.find Record.key event.after.records event.input.call.key = some record
  others : ∀ key ≠ event.input.call.key,
    KeyedRows.find Record.key event.after.records key
        = KeyedRows.find Record.key event.before.records key
      ∨ KeyedRows.find Record.key event.after.records key = none
        ∧ ∃ r, KeyedRows.find Record.key event.before.records key = some r
          ∧ Expired event.output.1 r

/-- The bytes of the secret and the records are written to the credential, if there is one, and
are remembered. -/
structure CallEvent.SavesAll (event : CallEvent) : Prop where
  decode : LoopState.decode event.after.previous = .ok (event.after.secret, event.after.records)
  written : event.before.entry = true → (⟨.setSecret event.after.previous, true⟩ :
    Performed StoreOperation.Answer) ∈ event.output.1

/-- A call that succeeds keeps the records a map, puts its record under its key and saves them
all; of the other records it drops only such that have expired. -/
theorem update_ok {d d' : Decisions} (hmap : KeyedRows.IsMap Record.key cap d.records)
    {record : Record} {steps : StoreSteps}
    (h : (update testBuild d record).Runs steps (.ok (), d')) :
  KeyedRows.IsMap Record.key cap d'.records
    ∧ KeyedRows.find Record.key d'.records record.key = some record
    ∧ (∀ key ≠ record.key,
      KeyedRows.find Record.key d'.records key = KeyedRows.find Record.key d.records key
        ∨ KeyedRows.find Record.key d'.records key = none
          ∧ ∃ r, KeyedRows.find Record.key d.records key = some r ∧ Expired steps r)
    ∧ decode d'.previous = .ok (d'.secret, d'.records)
    ∧ (d.entry = true →
      (⟨.setSecret d'.previous, true⟩ : Performed StoreOperation.Answer) ∈ steps)
  := by
  rcases update_runs h with ⟨hfailed, -⟩ | ⟨hfailed, -⟩
    | ⟨-, -, retained, hsub, hdropped, records, hplace, bytes, rfl, hencode, hattempt⟩
  · exact absurd rfl hfailed
  · cases hfailed
  have hmap' := (hmap.sublist hsub).place hplace
  use hmap'
  constructor
  · rw [KeyedRows.find_of_place hplace, if_pos rfl]
  constructor
  · intro key hkey
    rw [KeyedRows.find_of_place hplace, if_neg hkey.symm]
    apply (hmap.find_sublist hsub key).imp_right
    rintro ⟨hnone, r, hr, hnot⟩
    exact ⟨hnone, r, hr, hdropped r (KeyedRows.mem_of_find hr).1 hnot⟩
  · use decode_of_encode hmap' hencode
    intro hentry
    apply (hattempt hentry).mem_of_written

/-- A call that fails changes no record. -/
theorem perform_error {d d' : Decisions} {call : DecisionsCall} {steps : StoreSteps}
    {result : Except String Unit} (h : (d.perform testBuild call).Runs steps (result, d'))
    (hresult : result ≠ .ok ()) :
  d'.records = d.records
  := by
  have hupdate : ∀ {record steps}, (update testBuild d record).Runs steps (result, d') →
      d'.records = d.records := by
    intro record steps h
    rcases update_runs h with ⟨-, -, rfl⟩ | ⟨-, -, rfl, -⟩ | ⟨hok, -⟩
    · rfl
    · rfl
    · exact absurd hok hresult
  cases call with
  | update record => apply hupdate h
  | beginReminder key =>
      rcases beginReminder_runs h with ⟨-, -, rfl⟩ | ⟨-, -, reading, rest, -, h⟩
      · rfl
      · apply hupdate h

/-- The record under a key has the key. -/
theorem get_key (d : Decisions) (key : LoopKey) :
  (d.get key).key = key
  := by
  rw [get]
  rcases hfind : KeyedRows.find Record.key d.records key with _ | r
  · rfl
  · apply (KeyedRows.mem_of_find hfind).2

/-- A call that succeeds keeps the records a map, changes only its key and saves them all. -/
theorem perform_ok {d d' : Decisions} (hmap : KeyedRows.IsMap Record.key cap d.records)
    {c : ServedCall DecisionsCall} {steps : StoreSteps}
    (h : (d.perform testBuild c.call).Runs steps (.ok (), d')) :
  let event : CallEvent := ⟨d, c, (steps, .ok ()), d'⟩
  KeyedRows.IsMap Record.key cap d'.records ∧ event.ChangesOnlyItsKey ∧ event.SavesAll
  := by
  obtain ⟨record | key, serve⟩ := c
  · obtain ⟨hmap', hown, hothers, hdecode, hwritten⟩ := update_ok hmap h
    exact ⟨hmap', ⟨⟨record, rfl, hown⟩, hothers⟩, hdecode, hwritten⟩
  · rcases beginReminder_runs h with ⟨hfailed, -⟩ | ⟨-, -, reading, rest, rfl, hupdate⟩
    · exact absurd rfl hfailed
    obtain ⟨hmap', hown, hothers, hdecode, hwritten⟩ := update_ok hmap hupdate
    dsimp only at hown hothers
    nth_rewrite 1 [get_key] at hown
    rw [get_key] at hothers
    refine ⟨hmap', ⟨⟨_, ⟨reading, rfl⟩, hown⟩, ?_⟩, hdecode, ?_⟩
    · intro other hother
      apply (hothers other hother).imp_right
      rintro ⟨hnone, r, hr, hexpired⟩
      use hnone, r, hr
      apply hexpired.mono
      intro step hstep
      apply List.mem_cons_of_mem _ hstep
    · intro hentry
      apply List.mem_cons_of_mem _ (hwritten hentry)

/-- A reminder that is begun was begun where there was none, on a loop that is one's own or is
watched. -/
theorem beginReminder_ok {d d' : Decisions} {key : LoopKey} {steps : StoreSteps}
    (h : (beginReminder testBuild d key).Runs steps (.ok (), d')) :
  ((d.get key).decision = .mine ∨ (d.get key).decision = .watching)
    ∧ (d.get key).reminder = .none
  := by
  rcases beginReminder_runs h with ⟨hfailed, -⟩ | ⟨hdecision, hreminder, -⟩
  · exact absurd rfl hfailed
  · exact ⟨hdecision, hreminder⟩

/-! ### What holds of every run -/

variable (testBuild) in
/-- The event of a call is what its program ran. -/
theorem event_runs (d : Decisions) (c : ServedCall DecisionsCall) :
  let event := (calls testBuild).event d c
  (d.perform testBuild c.call).Runs event.output.1 (event.output.2, event.after)
  := Program.runs_eval (d.perform testBuild c.call) c.serve

variable (testBuild) in
/-- A call keeps the records a map. -/
theorem next_isMap {d : Decisions} (hmap : KeyedRows.IsMap Record.key cap d.records)
    (c : ServedCall DecisionsCall) :
  KeyedRows.IsMap Record.key cap ((calls testBuild).next d c).records
  := by
  have hruns := event_runs testBuild d c
  rcases hresult : ((calls testBuild).event d c).output.2 with e | u
  · have hfailed : ((calls testBuild).event d c).output.2 ≠ .ok () := by
      rw [hresult]
      exact nofun
    have hsame := perform_error hruns hfailed
    rw [Machine.event_after] at hsame
    rw [hsame]
    exact hmap
  · dsimp only at hruns
    rw [hresult] at hruns
    apply (perform_ok hmap hruns).1

/-- What each call does: one that fails changes no record, one that succeeds changes only its key
and saves them all, and a reminder is begun only where there is none. -/
structure CallEvent.Spec (event : CallEvent) : Prop where
  of_error : ∀ error, event.output.2 = .error error → event.after.records = event.before.records
  of_ok : event.output.2 = .ok () → event.ChangesOnlyItsKey ∧ event.SavesAll
  of_begin : ∀ key, event.input.call = .beginReminder key → event.output.2 = .ok () →
    ((event.before.get key).decision = .mine ∨ (event.before.get key).decision = .watching)
      ∧ (event.before.get key).reminder = .none

/-- The call takes the reminder of a key back. -/
def CallEvent.Resets (event : CallEvent) (key : LoopKey) : Prop :=
  ∃ record, event.input.call = .update record ∧ record.key = key ∧ record.reminder = .none
    ∧ event.output.2 = .ok ()

variable (testBuild) in
/-- Every call does what it should at a state whose records are a map. -/
theorem event_spec {d : Decisions} (hmap : KeyedRows.IsMap Record.key cap d.records)
    (c : ServedCall DecisionsCall) :
  CallEvent.Spec ((calls testBuild).event d c)
  := by
  have hruns := event_runs testBuild d c
  constructor
  · intro error herror
    apply perform_error hruns
    rw [herror]
    exact nofun
  · intro hok
    have hevent : (calls testBuild).event d c
        = ⟨d, c, (((calls testBuild).event d c).output.1, .ok ()), (calls testBuild).next d c⟩ := by
      rw [← hok]
      rfl
    dsimp only at hruns
    rw [hok] at hruns
    rw [hevent]
    apply (perform_ok hmap hruns).2
  · intro key hcall hok
    obtain ⟨call, serve⟩ := c
    obtain rfl : call = .beginReminder key := hcall
    dsimp only at hruns
    rw [hok] at hruns
    apply beginReminder_ok hruns

/-- The record that is found under a key is the record under it. -/
theorem get_of_find {d : Decisions} {key : LoopKey} {r : Record}
    (h : KeyedRows.find Record.key d.records key = some r) :
  d.get key = r
  := by
  rw [get, h]
  rfl

/-- The reminder of a key is the one of its record. -/
theorem exists_find_of_reminder {d : Decisions} {key : LoopKey}
    (h : (d.get key).reminder ≠ .none) :
  ∃ r, KeyedRows.find Record.key d.records key = some r ∧ r.reminder ≠ .none
  := by
  rw [get] at h
  rcases hfind : KeyedRows.find Record.key d.records key with _ | r
  · rw [hfind] at h
    exact absurd rfl h
  · rw [hfind] at h
    use r, rfl, h

/-- A call leaves a reminder that is there, unless it takes it back. -/
theorem event_stays {d : Decisions} (hmap : KeyedRows.IsMap Record.key cap d.records)
    {key : LoopKey} (hreminder : (d.get key).reminder ≠ .none) (c : ServedCall DecisionsCall) :
  CallEvent.Resets ((calls testBuild).event d c) key
    ∨ (((calls testBuild).next d c).get key).reminder ≠ .none
  := by
  obtain ⟨r, hr, hne⟩ := exists_find_of_reminder hreminder
  have hspec := event_spec testBuild hmap c
  rcases hresult : ((calls testBuild).event d c).output.2 with e | ⟨⟨⟩⟩
  · right
    have hsame := hspec.of_error e hresult
    rw [get, ← Machine.event_after, hsame]
    exact hreminder
  · obtain ⟨⟨⟨record, hputs, hown⟩, hothers⟩, -⟩ := hspec.of_ok hresult
    by_cases hkey : c.call.key = key
    · obtain ⟨call, serve⟩ := c
      obtain rfl : call.key = key := hkey
      have hget : ((calls testBuild).next d ⟨call, serve⟩).get call.key = record :=
        get_of_find hown
      rw [hget]
      rcases call with updated | begun
      · obtain rfl : record = updated := hputs
        by_cases hnone : record.reminder = .none
        · left
          use record, rfl, rfl, hnone, hresult
        · right
          exact hnone
      · obtain ⟨reading, rfl⟩ := hputs
        right
        exact nofun
    · right
      rcases hothers key (Ne.symm hkey) with hsame | ⟨-, r', hr', hexpired⟩
      · have hget : ((calls testBuild).next d c).get key = r := get_of_find (hsame.trans hr)
        rw [hget]
        exact hne
      · obtain rfl := Option.some.inj (hr'.symm.trans hr)
        exact absurd hexpired.reminder hne

/-- After a reminder is begun there is one. -/
theorem reminder_of_begin {d : Decisions} (hmap : KeyedRows.IsMap Record.key cap d.records)
    {c : ServedCall DecisionsCall} {key : LoopKey} (hcall : c.call = .beginReminder key)
    (hok : ((calls testBuild).event d c).output.2 = .ok ()) :
  (((calls testBuild).next d c).get key).reminder ≠ .none
  := by
  obtain ⟨call, serve⟩ := c
  obtain rfl : call = .beginReminder key := hcall
  obtain ⟨⟨⟨record, ⟨reading, rfl⟩, hown⟩, -⟩, -⟩ :=
    (event_spec testBuild hmap ⟨.beginReminder key, serve⟩).of_ok hok
  have hget : ((calls testBuild).next d ⟨.beginReminder key, serve⟩).get key = _ :=
    get_of_find hown
  rw [hget]
  exact nofun

/-- A reminder that is there stays, until a call takes it back. -/
theorem reminder_stays {d : Decisions} (hmap : KeyedRows.IsMap Record.key cap d.records)
    {key : LoopKey} (hreminder : (d.get key).reminder ≠ .none)
    (cs : List (ServedCall DecisionsCall)) :
  (∃ event ∈ (calls testBuild).history d cs, CallEvent.Resets event key)
    ∨ (((calls testBuild).final d cs).get key).reminder ≠ .none
  := by
  have hrun := (calls testBuild).run_induction
    (P := fun history d => KeyedRows.IsMap Record.key cap d.records
      ∧ ((∃ event ∈ history, CallEvent.Resets event key) ∨ (d.get key).reminder ≠ .none))
    (s := d) ⟨hmap, Or.inr hreminder⟩ (by
      rintro history t c ⟨hmap, hstays⟩
      use next_isMap testBuild hmap c
      rcases hstays with ⟨event, hevent, hresets⟩ | hreminder
      · left
        exact ⟨event, List.mem_append_left _ hevent, hresets⟩
      · apply (event_stays hmap hreminder c).imp_left
        intro hresets
        exact ⟨_, List.mem_append_right _ (List.mem_singleton_self _), hresets⟩) cs
  exact hrun.2

end Decisions

/-- From every store that is decoded, in every run of calls: the records are always a map of at
most 55 keys; every call does what it should; and between two reminders that are begun for one
loop a call takes its reminder back. -/
theorem decisions_keepMap (testBuild : Bool) (d : Decisions) {bytes : Bytes}
    (hdecode : decode bytes = .ok (d.secret, d.records))
    (cs : List (ServedCall DecisionsCall)) :
  let run := Decisions.calls testBuild
  KeyedRows.IsMap Record.key cap (run.final d cs).records
    ∧ (∀ event ∈ run.history d cs, Decisions.CallEvent.Spec event)
    ∧ ∀ before first between second after key,
      run.history d cs = before ++ first :: (between ++ second :: after) →
      first.input.call = .beginReminder key → first.output.2 = .ok () →
      second.input.call = .beginReminder key → second.output.2 = .ok () →
        ∃ event ∈ between, Decisions.CallEvent.Resets event key
  := by
  intro run
  have hmap := (decode_eq_ok.mp hdecode).1
  have hfinal : ∀ cs, KeyedRows.IsMap Record.key cap (run.final d cs).records := by
    intro cs
    apply run.run_induction (P := fun _ d => KeyedRows.IsMap Record.key cap d.records) hmap
    intro _ t c ht
    apply Decisions.next_isMap testBuild ht
  use hfinal cs
  constructor
  · apply run.forall_history (I := fun d => KeyedRows.IsMap Record.key cap d.records)
      (Q := Decisions.CallEvent.Spec) hmap
    · intro t c ht
      apply Decisions.next_isMap testBuild ht
    · intro t c ht
      apply Decisions.event_spec testBuild ht
  · intro before first between second after key hhistory hfirst hfirstOk hsecond hsecondOk
    obtain ⟨js, c, ls, rfl, rfl, rfl, htail⟩ := run.history_eq_append_cons hhistory
    obtain ⟨ms, c', ns, rfl, rfl, rfl, -⟩ := run.history_eq_append_cons htail.symm
    have hmap' := Decisions.next_isMap testBuild (hfinal js) c
    have hbegun := Decisions.reminder_of_begin (hfinal js) hfirst hfirstOk
    apply (Decisions.reminder_stays hmap' hbegun ms).resolve_right
    intro hstays
    apply hstays
    have hmap'' : KeyedRows.IsMap Record.key cap
        (run.final (run.next (run.final d js) c) ms).records := by
      rw [← run.final_snoc, ← run.final_append]
      apply hfinal
    apply ((Decisions.event_spec testBuild hmap'' c').of_begin key hsecond hsecondOk).2

/-- A store that is decoded is opened as it is. -/
theorem open_runs_of_decode {testBuild : Bool} {random secret : Vector UInt8 32}
    {bytes : Bytes} {records : List Record} (hdecode : decode bytes = .ok (secret, records)) :
  (Decisions.open testBuild (some random) true true).Runs [⟨.getSecret, .ok (some bytes)⟩]
    ⟨secret, records, true, bytes, none⟩
  := by
  apply Program.Runs.perform
  dsimp only
  rw [hdecode]
  apply Program.runs_pure.mpr
  exact ⟨rfl, rfl⟩

/-- Decisions with one loop of one's own. -/
def sampleDecisions : Decisions :=
  let secret := Vector.replicate 32 9
  let records := [⟨Vector.replicate 32 7, .mine, .none, 1⟩]
  ⟨secret, records, true, storeBytes secret records, none⟩

/-- A call on the decisions that everything is granted to. -/
def grantedCall (call : DecisionsCall) : ServedCall DecisionsCall where
  call := call
  serve
    | _, .now => (2 : UInt64)
    | _, .lock => true
    | _, .getSecret => .ok (some sampleDecisions.previous)
    | _, .setSecret _ => true
    | _, .unlock => ()

/-- A reminder is begun once for one loop, and not again. -/
theorem sampleDecisions_keepMap :
  let run := Decisions.calls false
  let cs := List.replicate 2 (grantedCall (.beginReminder (Vector.replicate 32 7)))
  (run.history sampleDecisions cs).map (·.output.2) = [.ok (), .error Decisions.reminderRefused]
    ∧ KeyedRows.IsMap Record.key cap (run.final sampleDecisions cs).records
    ∧ (∀ event ∈ run.history sampleDecisions cs, Decisions.CallEvent.Spec event)
    ∧ ∀ before first between second after key,
      run.history sampleDecisions cs = before ++ first :: (between ++ second :: after) →
      first.input.call = .beginReminder key → first.output.2 = .ok () →
      second.input.call = .beginReminder key → second.output.2 = .ok () →
        ∃ event ∈ between, Decisions.CallEvent.Resets event key
  := by
  intro run cs
  constructor
  · decide +kernel
  · have hdecode : decode sampleDecisions.previous
        = .ok (sampleDecisions.secret, sampleDecisions.records) := by
      decide
    apply decisions_keepMap false sampleDecisions hdecode cs

end Desktop
