import OpenLoops.Desktop.Windows

/-!
# Runs of windows

In every run of the windows a write is made only by the window that holds the lock, over the bytes
that it saw last: nothing that was saved is lost.
-/

namespace Desktop

/-! ### How far a save has come -/

/-- How far the save of a task has come. -/
inductive Phase where
  /-- The lock was not asked for. -/
  | outside
  /-- The lock is held. -/
  | locked
  /-- The lock is held, and the bytes that may be written over were found. -/
  | found
  /-- The lock is held, and there is nothing left to do but to give it back. -/
  | spent
  /-- The lock was refused or given back. -/
  | finished
  /-- This is not how a save goes. -/
  | astray
deriving DecidableEq

namespace Phase

/-- The lock is held. -/
def Holds : Phase → Prop
  | locked | found | spent => True
  | outside | finished | astray => False

/-- How far a save over the bytes has come after a step. -/
def after (base : Bytes) : Phase → Performed StoreOperation.Answer → Phase
  | outside, ⟨.now, _⟩ | outside, ⟨.getSecret, _⟩ => outside
  | outside, ⟨.lock, granted⟩ => if granted = true then locked else finished
  | locked, ⟨.getSecret, .ok current⟩ => if current.getD [] = base then found else spent
  | locked, ⟨.getSecret, .error _⟩ => spent
  | found, ⟨.setSecret _, _⟩ => spent
  | spent, ⟨.unlock, _⟩ => finished
  | _, _ => astray

/-- How far a save over the bytes has come. -/
def of (base : Bytes) (steps : StoreSteps) : Phase :=
  steps.foldl (after base) outside

theorem of_snoc (base : Bytes) (steps : StoreSteps) (step : Performed StoreOperation.Answer) :
  of base (steps ++ [step]) = after base (of base steps) step
  := List.foldl_concat ..

/-- A save that went astray stays so. -/
theorem foldl_astray (base : Bytes) (steps : StoreSteps) :
  steps.foldl (after base) astray = astray
  := by
  induction steps with
  | nil => rfl
  | cons step steps ih => exact ih

/-- A save that is not under way has not gone astray. -/
theorem ne_astray_of_over {phase : Phase} (h : phase = outside ∨ phase = finished) :
  phase ≠ astray
  := by
  rcases h with rfl | rfl
  · exact nofun
  · exact nofun

/-- A save that has not gone astray in the end has not done so on the way. -/
theorem ne_astray_of_append {base : Bytes} {steps rest : StoreSteps}
    (h : of base (steps ++ rest) ≠ astray) :
  of base steps ≠ astray
  := by
  intro hastray
  apply h
  rw [of, List.foldl_append, ← of, hastray, foldl_astray]

end Phase

/-- An attempt does not go astray, and the lock is not held after it. -/
theorem Attempt.phase {base : Bytes} {steps : StoreSteps} {written : Option Bytes}
    (h : Attempt base steps written) :
  Phase.of base steps = .outside ∨ Phase.of base steps = .finished
  := by
  induction h with
  | nothing => exact Or.inl rfl
  | now reading h ih => exact ih
  | refused => exact Or.inr rfl
  | unread e => exact Or.inr rfl
  | stale h =>
      right
      simp [Phase.of, Phase.after, h]
  | unwritten h bytes =>
      right
      simp [Phase.of, Phase.after, h]
  | written h bytes =>
      right
      simp [Phase.of, Phase.after, h]

namespace Phase

/-- Nothing but the lock is left to give back when there is nothing else left to do. -/
theorem eq_unlock_of_spent {base : Bytes} {steps : StoreSteps}
    (h : steps.foldl (after base) spent ≠ astray) :
  ∀ step ∈ steps, step = ⟨.unlock, ()⟩
  := by
  rcases steps with _ | ⟨⟨o, x⟩, steps⟩
  · exact nofun
  · rcases steps with _ | ⟨step, steps⟩
    · cases o with
      | unlock => simp
      | now | lock | getSecret | setSecret => exact absurd rfl h
    · have hastray : (⟨o, x⟩ :: step :: steps).foldl (after base) spent = astray := by
        rw [List.foldl_cons, List.foldl_cons]
        cases o with
        | unlock => exact foldl_astray base steps
        | now | lock | getSecret | setSecret => exact foldl_astray base steps
      exact absurd hastray h

/-- Bytes are written only after those that may be written over were found. -/
theorem found_of_setSecret {base bytes : Bytes} {phase : Phase} {written : Bool}
    (h : after base phase ⟨.setSecret bytes, written⟩ ≠ astray) :
  phase = found
  := by
  cases phase with
  | found => rfl
  | outside | locked | spent | finished | astray => exact absurd rfl h

/-- After bytes were written the clock is not read. -/
theorem readings_of_setSecret {base bytes : Bytes} {steps rest : StoreSteps} {written : Bool}
    (h : of base (steps ++ ⟨.setSecret bytes, written⟩ :: rest) ≠ astray) :
  readings (steps ++ ⟨.setSecret bytes, written⟩ :: rest) = readings steps
  := by
  have hsplit : of base (steps ++ ⟨.setSecret bytes, written⟩ :: rest) = rest.foldl (after base)
      (after base (of base steps) ⟨.setSecret bytes, written⟩) := by
    rw [of, List.foldl_append, List.foldl_cons, of]
  have hfound : of base steps = found := by
    apply found_of_setSecret
    intro hastray
    apply h
    rw [hsplit, hastray, foldl_astray]
  rw [hsplit, hfound] at h
  have hrest := eq_unlock_of_spent h
  ext reading
  simp only [readings, Set.mem_ofPred_eq, List.mem_append, List.mem_cons]
  constructor
  · rintro (hmem | hmem | hmem)
    · exact hmem
    · cases hmem
    · cases hrest _ hmem
  · exact Or.inl

end Phase

/-- Only what an attempt wrote is among its steps. -/
theorem Attempt.written_of_mem {base bytes : Bytes} {steps : StoreSteps} {written : Option Bytes}
    (h : Attempt base steps written)
    (hmem : (⟨.setSecret bytes, true⟩ : Performed StoreOperation.Answer) ∈ steps) :
  written = some bytes
  := by
  induction h with
  | nothing | refused | unread | stale => simp at hmem
  | now reading h ih =>
      apply ih
      simpa using hmem
  | unwritten h bytes' => simp at hmem
  | written h bytes' =>
      simp at hmem
      rw [hmem]

/-- An attempt that finds other bytes writes none. -/
theorem Attempt.of_stale {base : Bytes} {steps : StoreSteps} {written current : Option Bytes}
    (h : Attempt base steps written)
    (hmem : (⟨.getSecret, .ok current⟩ : Performed StoreOperation.Answer) ∈ steps)
    (hne : current.getD [] ≠ base) :
  ∀ (bytes : Bytes) (ok : Bool),
    (⟨.setSecret bytes, ok⟩ : Performed StoreOperation.Answer) ∉ steps
  := by
  intro bytes ok
  induction h with
  | nothing | refused | unread => simp
  | now reading h ih =>
      simp only [List.mem_cons, not_or]
      use nofun
      apply ih
      simpa using hmem
  | stale h => simp
  | unwritten h | written h =>
      simp at hmem
      subst hmem
      exact absurd h hne

/-! ### Phases and what the windows share -/

/-- A window whose save has come so far holds the lock exactly when it should, and the bytes that it
found are those that are stored. -/
structure Agrees (base : Bytes) (s : Shared) (i : ℕ) (phase : Phase) : Prop where
  holds : phase.Holds ↔ s.holder = some i
  found : phase = .found → s.stored = base

namespace Agrees

variable {base base' : Bytes} {s : Shared} {i j : ℕ} {phase phase' : Phase} {reading : UInt64}
  {fails : Bool} {o : StoreOperation}

/-- What a window that does not go astray may do, by how far its save has come. -/
theorem after_cases {x : o.Answer} (hne : Phase.after base phase ⟨o, x⟩ ≠ .astray) :
  phase = .outside ∧ (o = .now ∨ o = .getSecret ∨ o = .lock)
    ∨ phase = .locked ∧ o = .getSecret
    ∨ phase = .found ∧ (∃ bytes, o = .setSecret bytes)
    ∨ phase = .spent ∧ o = .unlock
  := by
  cases phase with
  | outside =>
      cases o with
      | now | getSecret | lock => simp
      | setSecret | unlock => exact absurd rfl hne
  | locked =>
      cases o with
      | getSecret => simp
      | now | lock | setSecret | unlock => exact absurd rfl hne
  | found =>
      cases o with
      | setSecret => simp
      | now | lock | getSecret | unlock => exact absurd rfl hne
  | spent =>
      cases o with
      | unlock => simp
      | now | lock | getSecret | setSecret => exact absurd rfl hne
  | finished | astray => exact absurd rfl hne

/-- A window that does not go astray is answered as it should. -/
theorem serve (h : Agrees base s i phase)
    (hne : Phase.after base phase ⟨o, (s.serve i reading fails o).2⟩ ≠ .astray) :
  Agrees base (s.serve i reading fails o).1 i
    (Phase.after base phase ⟨o, (s.serve i reading fails o).2⟩)
  := by
  obtain ⟨hholds, hfound⟩ := h
  rcases after_cases hne with ⟨rfl, rfl | rfl | rfl⟩ | ⟨rfl, rfl⟩ | ⟨rfl, bytes, rfl⟩
    | ⟨rfl, rfl⟩
  · exact ⟨hholds, nofun⟩
  · exact ⟨hholds, nofun⟩
  · by_cases hfree : s.holder = none ∧ fails = false
    · simp only [Shared.serve, if_pos hfree, Phase.after, if_true]
      exact ⟨by simp [Phase.Holds], nofun⟩
    · simp only [Shared.serve, if_neg hfree]
      exact ⟨hholds, nofun⟩
  · cases fails with
    | true => exact ⟨hholds, nofun⟩
    | false =>
        simp only [Shared.serve, Phase.after, Bool.false_eq_true, if_false]
        split_ifs with hsame
        · exact ⟨hholds, fun _ => hsame⟩
        · exact ⟨hholds, nofun⟩
  · cases fails with
    | true => exact ⟨hholds, nofun⟩
    | false => exact ⟨hholds, nofun⟩
  · have hheld : s.holder = some i := hholds.mp trivial
    simp only [Shared.serve, Shared.release, if_pos hheld]
    exact ⟨by simp [Phase.after, Phase.Holds], nofun⟩

/-- A window that gives the lock back holds it no more, and the others are left as they are. -/
theorem release_other (h : Agrees base s j phase) (hij : j ≠ i) :
  Agrees base (s.release i) j phase
  := by
  obtain ⟨hholds, hfound⟩ := h
  rw [Shared.release]
  split_ifs with hheld
  · have hnot : ¬phase.Holds := by
      rw [hholds, hheld]
      intro hj
      apply hij (Option.some.inj hj).symm
    constructor
    · simp [hnot]
    · exact hfound
  · exact ⟨hholds, hfound⟩

/-- The other windows are left as they are. -/
theorem serve_other (h : Agrees base s j phase) (hij : j ≠ i) (hi : Agrees base' s i phase')
    (hne : Phase.after base' phase' ⟨o, (s.serve i reading fails o).2⟩ ≠ .astray) :
  Agrees base (s.serve i reading fails o).1 j phase
  := by
  rcases after_cases hne with ⟨rfl, rfl | rfl | rfl⟩ | ⟨rfl, rfl⟩ | ⟨rfl, bytes, rfl⟩
    | ⟨rfl, rfl⟩
  · exact h
  · exact h
  · by_cases hfree : s.holder = none ∧ fails = false
    · obtain ⟨hholds, hfound⟩ := h
      rw [hfree.1] at hholds
      simp only [Shared.serve, if_pos hfree]
      constructor
      · simp [hholds, hij.symm]
      · exact hfound
    · simp only [Shared.serve, if_neg hfree]
      exact h
  · exact h
  · cases fails with
    | true => exact h
    | false =>
        constructor
        · exact h.holds
        · -- The window that writes holds the lock, so that no other one does.
          intro hphase
          have hj : s.holder = some j := h.holds.mp (by rw [hphase]; trivial)
          have hself : s.holder = some i := hi.holds.mp trivial
          rw [hself] at hj
          exact absurd (Option.some.inj hj).symm hij
  · apply h.release_other hij

end Agrees

instance (o : StoreOperation) : Nonempty o.Answer := by
  cases o with
  | now => exact ⟨(0 : UInt64)⟩
  | lock => exact ⟨true⟩
  | getSecret => exact ⟨.ok none⟩
  | setSecret bytes => exact ⟨true⟩
  | unlock => exact ⟨()⟩

namespace Kept

variable {μ κ ο : Type} (D : Kept μ κ ο)

/-! ### Single tasks -/

/-- The data that a task is performed on are as in every window. -/
def SoundTask : Task μ κ ο → Prop
  | .open _ => True
  | .call m _ => D.Sound m

variable {D}

/-- A task does not go astray, and what it writes stands for what it makes of the data. -/
theorem Lawful.program_runs (hD : D.Lawful) {task : Task μ κ ο} (hsound : D.SoundTask task)
    {steps : StoreSteps} {result : Except String Unit} {m' : μ}
    (h : (D.program task).Runs steps (result, m')) :
  D.Sound m'
    ∧ (Phase.of (D.base task) steps = .outside ∨ Phase.of (D.base task) steps = .finished)
    ∧ ∀ bytes : Bytes, (⟨.setSecret bytes, true⟩ : Performed StoreOperation.Answer) ∈ steps →
      D.Holds bytes m' ∧ D.Makes (readings steps) task m'
  := by
  cases task with
  | «open» how =>
      obtain ⟨first, m, rest, rfl, hopen, hrest⟩ := Program.runs_bind.mp h
      obtain ⟨rfl, hpair⟩ := Program.runs_pure.mp hrest
      cases hpair
      rw [List.append_nil]
      obtain ⟨hsound', attempt, hsteps, hattempt⟩ := hD.open_runs hopen
      have hphase : Phase.of [] first = Phase.of [] attempt := by
        rcases hsteps with rfl | ⟨loaded, rfl⟩
        · rfl
        · rfl
      have hmem : ∀ {bytes : Bytes},
          (⟨.setSecret bytes, true⟩ : Performed StoreOperation.Answer) ∈ first →
            (⟨.setSecret bytes, true⟩ : Performed StoreOperation.Answer) ∈ attempt := by
        intro bytes hbytes
        rcases hsteps with rfl | ⟨loaded, rfl⟩
        · exact hbytes
        · simpa using hbytes
      use hsound'
      rw [base, hphase]
      rcases hattempt with hattempt | ⟨hattempt, herror, hstarts⟩
      · use hattempt.phase
        intro bytes hbytes
        cases hattempt.written_of_mem (hmem hbytes)
      · use hattempt.phase
        intro bytes hbytes
        cases hattempt.written_of_mem (hmem hbytes)
        exact ⟨hD.holds hsound' herror, hstarts⟩
  | call m call =>
      obtain ⟨hsound', hends⟩ := hD.perform_runs hsound h
      use hsound'
      rcases hends with ⟨-, hreadings, -⟩ | ⟨-, -, -, hattempt⟩
        | ⟨-, herror, herror', hattempt, hchanges⟩
      · have hnothing : Attempt (D.previous m) [] none := Attempt.nothing
        have hattempt := hnothing.readings hreadings
        rw [List.append_nil] at hattempt
        use hattempt.phase
        intro bytes hbytes
        cases hattempt.written_of_mem hbytes
      · use hattempt.phase
        intro bytes hbytes
        cases hattempt.written_of_mem hbytes
      · use hattempt.phase
        intro bytes hbytes
        cases hattempt.written_of_mem hbytes
        exact ⟨hD.holds hsound' herror', herror, hD.holds hsound herror, hchanges⟩

variable {task : Task μ κ ο} {steps : StoreSteps} {o : StoreOperation}
  {next : o.Answer → StoreProgram (Except String Unit × μ)}

/-- A task in progress does not go astray. -/
theorem Lawful.ne_astray (hD : D.Lawful) (hsound : D.SoundTask task)
    (h : (D.program task).Leaves steps (.perform o next)) (x : o.Answer) :
  Phase.after (D.base task) (Phase.of (D.base task) steps) ⟨o, x⟩ ≠ .astray
  := by
  obtain ⟨rest, ⟨result, m'⟩, hrest⟩ := (next x).exists_runs
  obtain ⟨-, hphase, -⟩ := hD.program_runs hsound (h.perform x rest _ hrest)
  rw [← Phase.of_snoc]
  apply Phase.ne_astray_of_append (Phase.ne_astray_of_over hphase)

/-- What a task in progress writes stands for what it makes of the data. -/
theorem Lawful.exists_makes (hD : D.Lawful) (hsound : D.SoundTask task) {bytes : Bytes}
    {next : Bool → StoreProgram (Except String Unit × μ)}
    (h : (D.program task).Leaves steps (.perform (.setSecret bytes) next)) :
  ∃ m', D.Holds bytes m' ∧ D.Makes (readings steps) task m'
  := by
  obtain ⟨rest, ⟨result, m'⟩, hrest⟩ := (next true).exists_runs
  have hruns := h.perform true rest _ hrest
  rw [List.append_assoc] at hruns
  obtain ⟨-, hphase, hwritten⟩ := hD.program_runs hsound hruns
  obtain ⟨hholds, hmakes⟩ := hwritten bytes (by simp)
  rw [List.singleton_append] at hphase hmakes
  rw [Phase.readings_of_setSecret (Phase.ne_astray_of_over hphase)] at hmakes
  exact ⟨m', hholds, hmakes⟩

/-! ### All windows -/

variable (D)

/-- The bytes that a window may write over. -/
def windowBase : Window μ κ ο → Bytes
  | .busy task _ _ => D.base task
  | .closed | .waiting _ => []

/-- How far the save of a window has come. -/
def phase : Window μ κ ο → Phase
  | .busy task steps _ => Phase.of (D.base task) steps
  | .closed | .waiting _ => .outside

/-- A window is as its programs leave it. -/
def SoundWindow : Window μ κ ο → Prop
  | .closed => True
  | .waiting m => D.Sound m
  | .busy task steps rest => D.SoundTask task ∧ (D.program task).Leaves steps rest

/-- Every window is as its programs leave it, and holds the lock exactly when it should. -/
structure Consistent (s : Desk μ κ ο) : Prop where
  agrees : ∀ i, Agrees (D.windowBase (s.window i)) s.shared i (D.phase (s.window i))
  sound : ∀ i, D.SoundWindow (s.window i)

variable {D}

/-- A window that does not hold the lock may be anywhere outside of a save. -/
theorem agrees_of_not_holds {base : Bytes} {s : Shared} {i : ℕ} {phase : Phase}
    (hphase : ¬phase.Holds) (hholder : s.holder ≠ some i) :
  Agrees base s i phase
  := by
  constructor
  · exact iff_of_false hphase hholder
  · rintro rfl
    exact absurd trivial hphase

/-- The windows stay consistent when one of them changes as it should, and the others are left as
they are. -/
theorem Consistent.update {s : Desk μ κ ο} (h : D.Consistent s) {i : ℕ} {shared : Shared}
    {window : Window μ κ ο} (hsound : D.SoundWindow window)
    (hagrees : Agrees (D.windowBase window) shared i (D.phase window))
    (hothers : ∀ j ≠ i, Agrees (D.windowBase (s.window j)) shared j (D.phase (s.window j))) :
  D.Consistent ⟨shared, Function.update s.window i window⟩
  := by
  constructor
  · intro j
    by_cases hij : j = i
    · subst hij
      simpa using hagrees
    · simpa [hij] using hothers j hij
  · intro j
    by_cases hij : j = i
    · subst hij
      simpa using hsound
    · simpa [hij] using h.sound j

/-- A window that is outside of a save does not hold the lock. -/
theorem Consistent.holder_ne {s : Desk μ κ ο} (h : D.Consistent s) {i : ℕ}
    (hphase : ¬(D.phase (s.window i)).Holds) :
  s.shared.holder ≠ some i
  := fun hholder => hphase ((h.agrees i).holds.mpr hholder)

/-- The windows stay consistent when one that is outside of a save goes to another place outside of
one. -/
theorem Consistent.put {s : Desk μ κ ο} (h : D.Consistent s) {i : ℕ} {window : Window μ κ ο}
    (hsound : D.SoundWindow window) (hbefore : ¬(D.phase (s.window i)).Holds)
    (hafter : ¬(D.phase window).Holds) :
  D.Consistent { s with window := Function.update s.window i window }
  := by
  apply h.update hsound
  · apply agrees_of_not_holds hafter (h.holder_ne hbefore)
  · intro j _
    apply h.agrees j

/-- A task that is performed to its end leaves sound data, and does not hold the lock. -/
theorem Lawful.done_runs (hD : D.Lawful) {steps : StoreSteps} {result : Except String Unit}
    {m : μ} (h : D.SoundWindow (.busy task steps (.done (result, m)))) :
  D.Sound m ∧ ¬(Phase.of (D.base task) steps).Holds
  := by
  obtain ⟨hsound, hphase, -⟩ := hD.program_runs h.1 h.2.runs
  use hsound
  rcases hphase with hphase | hphase
  · rw [hphase]
    exact id
  · rw [hphase]
    exact id

/-- The windows stay consistent after every turn. -/
theorem Lawful.next_consistent (hD : D.Lawful) {s : Desk μ κ ο} (h : D.Consistent s)
    (turn : Turn κ ο) :
  D.Consistent (D.windows.next s turn)
  := by
  cases turn with
  | «open» i how =>
      simp only [Machine.next, windows]
      split
      · rename_i hwindow
        apply h.put
        · exact ⟨trivial, Program.Leaves.refl _⟩
        · rw [hwindow]
          exact id
        · exact id
      · exact h
  | call i call =>
      simp only [Machine.next, windows]
      split
      · rename_i m hwindow
        have hsound := h.sound i
        rw [hwindow] at hsound
        apply h.put
        · exact ⟨hsound, Program.Leaves.refl _⟩
        · rw [hwindow]
          exact id
        · exact id
      · exact h
  | step i reading fails =>
      simp only [Machine.next, windows]
      split
      · rename_i task steps o next hwindow
        obtain ⟨hsound, hleaves⟩ : D.SoundWindow (.busy task steps (.perform o next)) := by
          rw [← hwindow]
          apply h.sound i
        have hagrees := h.agrees i
        rw [hwindow] at hagrees
        have hne := hD.ne_astray hsound hleaves (s.shared.serve i reading fails o).2
        apply h.update
        · exact ⟨hsound, hleaves.perform _⟩
        · rw [phase, Phase.of_snoc]
          apply hagrees.serve hne
        · intro j hij
          apply (h.agrees j).serve_other hij hagrees hne
      · rename_i task steps result m hwindow
        have hdone := h.sound i
        rw [hwindow] at hdone
        obtain ⟨hsound, hphase⟩ := hD.done_runs hdone
        apply h.put
        · exact hsound
        · rw [hwindow]
          exact hphase
        · exact id
      · exact h
  | close i =>
      simp only [Machine.next, windows]
      apply h.update
      · trivial
      · apply agrees_of_not_holds id
        rw [Shared.release]
        split_ifs with hheld
        · exact nofun
        · exact hheld
      · intro j hij
        apply (h.agrees j).release_other hij

/-! ### What holds of every run -/

/-- A turn of a window. -/
abbrev TurnEvent (μ κ ο : Type) :=
  Machine.Event (Desk μ κ ο) (Turn κ ο) (Outcome μ)

/-- The steps and the task of a window that writes bytes in this turn. -/
def writer (event : TurnEvent μ κ ο) : Option (StoreSteps × Task μ κ ο) :=
  match event.input, event.output with
  | .step i _ _, .performed ⟨.setSecret _, true⟩ =>
      match event.before.window i with
      | .busy task steps _ => some (steps, task)
      | .closed | .waiting _ => none
  | _, _ => none

variable (D)

/-- What a call that is over has done: it succeeds exactly when it has written what it remembers; it
fails when it has found other bytes than those it saw last, writes nothing and leaves the error of a
failed save; with an error it does nothing. -/
structure Returns (m : μ) (steps : StoreSteps) (result : Except String Unit) (m' : μ) : Prop where
  of_ok : result = .ok () → D.error m' = none ∧ ∀ bytes : Bytes,
    (⟨.setSecret bytes, true⟩ : Performed StoreOperation.Answer) ∈ steps ↔ bytes = D.previous m'
  of_error : result ≠ .ok () → ∀ bytes : Bytes,
    (⟨.setSecret bytes, true⟩ : Performed StoreOperation.Answer) ∉ steps
  of_stale : ∀ current : Option Bytes, current.getD [] ≠ D.previous m →
    (⟨.getSecret, .ok current⟩ : Performed StoreOperation.Answer) ∈ steps →
      result = .error D.failure ∧ D.error m' = some D.failure ∧ ∀ (bytes : Bytes) (ok : Bool),
        (⟨.setSecret bytes, ok⟩ : Performed StoreOperation.Answer) ∉ steps
  of_frozen : D.error m ≠ none → result ≠ .ok () ∧ m' = m

/-- What every turn does: bytes are written only over those that the window saw last, and stand for
what its task makes of the data that those stand for; else the secret stays as it is. -/
structure TurnSpec (event : TurnEvent μ κ ο) : Prop where
  unwritten : writer event = none → event.after.shared.secret = event.before.shared.secret
  written : ∀ steps task, writer event = some (steps, task) →
    event.before.shared.stored = D.base task ∧ ∃ bytes m',
      event.after.shared.secret = some bytes ∧ D.Holds bytes m'
        ∧ D.Makes (readings steps) task m'
  returned : ∀ i reading fails m call steps rest result m',
    event.input = .step i reading fails →
    event.before.window i = .busy (.call m call) steps rest →
    event.output = .returned result m' → D.Returns m steps result m'

/-- The tasks write one after the other, each one over what the one before it has written. -/
def Replays : Bytes → List (StoreSteps × Task μ κ ο) → Bytes → Prop
  | stored, [], last => last = stored
  | stored, (steps, task) :: writers, last => stored = D.base task ∧ ∃ bytes m',
      D.Holds bytes m' ∧ D.Makes (readings steps) task m' ∧ Replays bytes writers last

variable {D}

/-- One more task writes over what was written last. -/
theorem Replays.snoc {stored last : Bytes} {writers : List (StoreSteps × Task μ κ ο)}
    (h : D.Replays stored writers last) {steps : StoreSteps} {task : Task μ κ ο}
    (hbase : last = D.base task) {bytes : Bytes} {m' : μ} (hholds : D.Holds bytes m')
    (hmakes : D.Makes (readings steps) task m') :
  D.Replays stored (writers ++ [(steps, task)]) bytes
  := by
  induction writers generalizing stored with
  | nil =>
      cases h
      exact ⟨hbase, bytes, m', hholds, hmakes, rfl⟩
  | cons writer writers ih =>
      obtain ⟨hfirst, bytes', m'', hholds', hmakes', hrest⟩ := h
      exact ⟨hfirst, bytes', m'', hholds', hmakes', ih hrest⟩

/-- A call that is over has done what it should. -/
theorem Lawful.returns (hD : D.Lawful) {m m' : μ} {call : κ} {result : Except String Unit}
    (h : D.SoundWindow (.busy (.call m call) steps (.done (result, m')))) :
  D.Returns m steps result m'
  := by
  have hends := (hD.perform_runs h.1 h.2.runs).2
  rcases hends with ⟨hfailed, hreadings, rfl⟩ | ⟨rfl, herror, herror', hattempt⟩
    | ⟨rfl, herror, herror', hattempt, -⟩
  · constructor
    · exact fun hok => absurd hok hfailed
    · intro _ bytes hbytes
      obtain ⟨reading, hreading⟩ := hreadings _ hbytes
      cases hreading
    · intro current _ hcurrent
      obtain ⟨reading, hreading⟩ := hreadings _ hcurrent
      cases hreading
    · exact fun _ => ⟨hfailed, rfl⟩
  · constructor
    · exact nofun
    · intro _ bytes hbytes
      cases hattempt.written_of_mem hbytes
    · intro current hstale hcurrent
      exact ⟨rfl, herror', hattempt.of_stale hcurrent hstale⟩
    · exact fun hfrozen => absurd herror hfrozen
  · constructor
    · intro _
      use herror'
      intro bytes
      constructor
      · intro hbytes
        exact (Option.some.inj (hattempt.written_of_mem hbytes)).symm
      · rintro rfl
        exact hattempt.mem_of_written
    · exact fun hfailed => absurd rfl hfailed
    · intro current hstale hcurrent
      exact absurd hattempt.mem_of_written (hattempt.of_stale hcurrent hstale _ _)
    · exact fun hfrozen => absurd herror hfrozen

/-- What is not written by a window stays as it is. -/
theorem serve_secret {s : Shared} {i : ℕ} {reading : UInt64} {fails : Bool} {o : StoreOperation}
    (h : ∀ bytes, o = .setSecret bytes → fails = true) :
  (s.serve i reading fails o).1.secret = s.secret
  := by
  cases o with
  | now | getSecret => rfl
  | lock =>
      rw [Shared.serve]
      split_ifs
      · rfl
      · rfl
  | setSecret bytes => rw [Shared.serve, if_pos (h bytes rfl)]
  | unlock =>
      rw [Shared.serve, Shared.release]
      split_ifs
      · rfl
      · rfl

/-- A turn in which the secret stays, nobody writes and no call is over does what it should. -/
theorem turnSpec_of_nothing {event : TurnEvent μ κ ο} (houtput : event.output = .nothing)
    (hsecret : event.after.shared.secret = event.before.shared.secret) :
  D.TurnSpec event
  := by
  have hwriter : writer event = none := by
    rw [writer, houtput]
    split
    · rename_i hperformed
      cases hperformed
    · rfl
  constructor
  · exact fun _ => hsecret
  · intro steps task hsome
    rw [hwriter] at hsome
    cases hsome
  · intro i reading fails m call steps rest result m' _ _ hreturned
    rw [houtput] at hreturned
    cases hreturned

/-- A step of a task in progress does what it should. -/
theorem Lawful.perform_spec (hD : D.Lawful) {s : Desk μ κ ο} (h : D.Consistent s) {i : ℕ}
    {reading : UInt64} {fails : Bool}
    (hwindow : s.window i = .busy task steps (.perform o next)) :
  D.TurnSpec (D.windows.event s (.step i reading fails))
  := by
  have hevent : D.windows.event s (.step i reading fails) = ⟨s, .step i reading fails,
      .performed ⟨o, (s.shared.serve i reading fails o).2⟩,
      ⟨(s.shared.serve i reading fails o).1, Function.update s.window i (.busy task
        (steps ++ [⟨o, (s.shared.serve i reading fails o).2⟩])
        (next (s.shared.serve i reading fails o).2))⟩⟩ := by
    simp only [Machine.event, windows, hwindow]
  rw [hevent]
  by_cases hwrites : ∃ bytes, o = .setSecret bytes ∧ fails = false
  · obtain ⟨bytes, rfl, rfl⟩ := hwrites
    obtain ⟨hsound, hleaves⟩ : D.SoundWindow (.busy task steps (.perform (.setSecret bytes) next)) := by
      rw [← hwindow]
      apply h.sound i
    have hagrees := h.agrees i
    rw [hwindow] at hagrees
    have hfound := Phase.found_of_setSecret (hD.ne_astray hsound hleaves true)
    obtain ⟨m', hholds, hmakes⟩ := hD.exists_makes hsound hleaves
    have hwriter : ∀ after : Desk μ κ ο, writer ⟨s, .step i reading false,
        .performed ⟨.setSecret bytes, true⟩, after⟩ = some (steps, task) := by
      intro after
      simp only [writer, hwindow]
    constructor
    · intro hnone
      cases (hwriter _).symm.trans hnone
    · intro steps' task' hsome
      cases (hwriter _).symm.trans hsome
      exact ⟨hagrees.found hfound, bytes, m', rfl, hholds, hmakes⟩
    · exact nofun
  · have hsecret : (s.shared.serve i reading fails o).1.secret = s.shared.secret := by
      apply serve_secret
      rintro bytes rfl
      by_contra hfails
      apply hwrites
      exact ⟨bytes, rfl, by simpa using hfails⟩
    constructor
    · exact fun _ => hsecret
    · intro steps' task' hsome
      exfalso
      apply hwrites
      cases o with
      | setSecret bytes =>
          use bytes, rfl
          cases fails with
          | false => rfl
          | true => cases hsome
      | now | lock | getSecret | unlock => cases hsome
    · exact nofun

/-- Every turn of consistent windows does what it should. -/
theorem Lawful.turn_spec (hD : D.Lawful) {s : Desk μ κ ο} (h : D.Consistent s)
    (turn : Turn κ ο) :
  D.TurnSpec (D.windows.event s turn)
  := by
  cases turn with
  | «open» i how =>
      rcases hwindow : s.window i with _ | m | ⟨task, steps, rest⟩
      all_goals
        apply turnSpec_of_nothing
        · simp only [Machine.event, windows, hwindow]
        · simp only [Machine.event, windows, hwindow]
  | call i call =>
      rcases hwindow : s.window i with _ | m | ⟨task, steps, rest⟩
      all_goals
        apply turnSpec_of_nothing
        · simp only [Machine.event, windows, hwindow]
        · simp only [Machine.event, windows, hwindow]
  | step i reading fails =>
      rcases hwindow : s.window i with _ | m | ⟨task, steps, ⟨result, m⟩ | ⟨o, next⟩⟩
      · apply turnSpec_of_nothing
        · simp only [Machine.event, windows, hwindow]
        · simp only [Machine.event, windows, hwindow]
      · apply turnSpec_of_nothing
        · simp only [Machine.event, windows, hwindow]
        · simp only [Machine.event, windows, hwindow]
      · have hdone := h.sound i
        rw [hwindow] at hdone
        have hevent : D.windows.event s (.step i reading fails) = ⟨s, .step i reading fails,
            .returned result m, { s with window := Function.update s.window i (.waiting m) }⟩ := by
          simp only [Machine.event, windows, hwindow]
        rw [hevent]
        constructor
        · exact fun _ => rfl
        · exact nofun
        · intro i' reading' fails' m' call steps' rest result' m'' hinput hbefore houtput
          cases hinput
          cases houtput
          cases hwindow.symm.trans hbefore
          apply hD.returns hdone
      · apply hD.perform_spec h hwindow
  | close i =>
      apply turnSpec_of_nothing
      · rfl
      · show (s.shared.release i).secret = s.shared.secret
        rw [Shared.release]
        split_ifs
        · rfl
        · rfl

variable (D) in
/-- In every run of the windows, from any secret: every turn does what it should, and what is
stored in the end is what the tasks that write have made of the secret one after the other. -/
def LosesNothing : Prop :=
  ∀ (secret : Option Bytes) (turns : List (Turn κ ο)),
    let start : Desk μ κ ο := ⟨⟨secret, none⟩, fun _ => .closed⟩
    (∀ event ∈ D.windows.history start turns, D.TurnSpec event)
      ∧ D.Replays (secret.getD []) ((D.windows.history start turns).filterMap writer)
        (D.windows.final start turns).shared.stored

/-- Windows with lawful programs lose nothing. -/
theorem Lawful.losesNothing (hD : D.Lawful) :
  D.LosesNothing
  := by
  intro secret turns start
  have hstart : D.Consistent start := by
    constructor
    · intro i
      apply agrees_of_not_holds id
      exact nofun
    · intro i
      trivial
  constructor
  · apply D.windows.forall_history (I := D.Consistent) (Q := D.TurnSpec) hstart
    · intro s turn hs
      apply hD.next_consistent hs
    · intro s turn hs
      apply hD.turn_spec hs
  · have hrun := D.windows.run_induction
      (P := fun history s => D.Consistent s
        ∧ D.Replays (secret.getD []) (history.filterMap writer) s.shared.stored)
      ⟨hstart, rfl⟩ (by
        rintro history s turn ⟨hs, hreplays⟩
        have hspec := hD.turn_spec hs turn
        use hD.next_consistent hs turn
        rw [List.filterMap_append, List.filterMap_cons, List.filterMap_nil]
        rcases hwriter : writer (D.windows.event s turn) with _ | ⟨steps, task⟩
        · have hsame := hspec.unwritten hwriter
          rw [Machine.event_after, Machine.event_before] at hsame
          rw [List.append_nil, Shared.stored, hsame]
          exact hreplays
        · obtain ⟨hbase, bytes, m', hafter, hholds, hmakes⟩ := hspec.written steps task hwriter
          rw [Machine.event_after] at hafter
          rw [Shared.stored, hafter]
          exact hreplays.snoc hbase hholds hmakes) turns
    exact hrun.2

end Kept

end Desktop
