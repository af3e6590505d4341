import OpenLoops.Persistence.CrashSafety

/-!
# The mark of the clock

Every advance of the anchor writes the reading of the clock it was given to the file, and every
start compares its own reading to the one it finds there.  The mark, which is the reading in the
file, is not lowered as long as no advance is given a reading below it; an advance that succeeds
with such a reading lowers the mark.
-/

namespace Persistence

/-! ### Runs of starts and advances -/

/-- A call that is given a reading of the clock, with whatever bundle and rows. -/
inductive ClockCall where
  | startupReconcile (rows : List Envelope) (nowUnixSeconds : UInt64) (access : Access)
  | advanceAfterCommit (bundle : StateRootBundle) (rowsAfterCommit : List Envelope)
      (nowUnixSeconds : UInt64) (access : Access)

inductive ClockAnswer where
  | started (result : Except StateRootError (Except FreezeCause StateRootBundle))
  | advanced (result : Except StateRootError StateRootBundle)
deriving DecidableEq

/-- Whether a call returned no error. -/
def ClockAnswer.succeeded : ClockAnswer → Bool
  | started result => result.isOk
  | advanced result => result.isOk

namespace Device

variable (device : Device)

/-- The machine that answers the calls on the file of the state root. -/
def clock : Machine (Option Bytes) ClockCall ClockAnswer where
  step target
    | .startupReconcile rows now access =>
        (target,
          .started (startupReconcile device.hmac device.dpapi access target device.account rows now))
    | .advanceAfterCommit bundle rows now access =>
        match advanceAfterCommit device.hmac device.dpapi access target device.account bundle
          rows now with
        | (result, target) => (target, .advanced result)

/-- The reading of the clock in a file. -/
def mark (target : Option Bytes) : Option UInt64 :=
  (bundleIn device.dpapi target).map (·.lastObservedUnixSeconds)

/-- The reading in the first file, if any, is not above the one in the second. -/
def MarkKept (before after : Option Bytes) : Prop :=
  ∀ m ∈ device.mark before, ∃ n ∈ device.mark after, m ≤ n

/-- A call is not given a reading below the one that it replaces. -/
def ClockKept (target : Option Bytes) : ClockCall → Prop
  | .startupReconcile _ _ _ => True
  | .advanceAfterCommit _ _ now _ => ∀ m ∈ device.mark target, m ≤ now

instance (before after : Option Bytes) : Decidable (device.MarkKept before after) :=
  haveI (m : UInt64) : Decidable (∃ n ∈ device.mark after, m ≤ n) :=
    Option.decidableExistsMem (device.mark after)
  Option.decidableForallMem (device.mark before)

instance (target : Option Bytes) : (call : ClockCall) → Decidable (device.ClockKept target call)
  | .startupReconcile _ _ _ => .isTrue trivial
  | .advanceAfterCommit _ _ now _ =>
      haveI (m : UInt64) : Decidable (m ≤ now) := UInt64.decLe m now
      Option.decidableForallMem (device.mark target)

variable {device}

/-- A mark that is not moved is kept. -/
theorem MarkKept.refl (target : Option Bytes) :
  device.MarkKept target target
  := by
  intro m hm
  use m, hm
  apply UInt64.le_refl

/-- Marks are kept from file to file. -/
theorem MarkKept.trans {first second third : Option Bytes} (h : device.MarkKept first second)
    (h' : device.MarkKept second third) :
  device.MarkKept first third
  := by
  intro m hm
  obtain ⟨n, hn, hmn⟩ := h m hm
  obtain ⟨k, hk, hnk⟩ := h' n hn
  use k, hk, UInt64.le_trans hmn hnk

/-- The mark after an advance that replaces the file is the reading it was given. -/
theorem mark_advanced {bundle next : StateRootBundle} {rows : List Envelope} {now : UInt64}
    (h : bundle.advanced device.hmac device.account rows now = .ok next) (seed : ℕ) :
  device.mark (some (device.dpapi.protect seed next.encode)) = some now
  := by
  obtain ⟨_, _, -, -, rfl⟩ := StateRootBundle.advanced_eq_ok h
  rw [mark, bundleIn_protect]
  rfl

/-- An advance fails and leaves the file as it was, or leaves the reading it was given there. -/
theorem clock_advance (target : Option Bytes) (bundle : StateRootBundle) (rows : List Envelope)
    (now : UInt64) (access : Access) :
  let event := device.clock.event target (.advanceAfterCommit bundle rows now access)
  (event.output.succeeded = false ∧ event.after = target) ∨ device.mark event.after = some now
  := by
  intro event
  have hevent : event = device.clock.event target (.advanceAfterCommit bundle rows now access) :=
    rfl
  rw [Machine.event, clock] at hevent
  cases hadvance : advanceAfterCommit device.hmac device.dpapi access target device.account bundle
      rows now with
  | mk result after =>
      simp only [hadvance] at hevent
      rw [hevent]
      rcases advanceAfterCommit_cases hadvance with ⟨-, ⟨e, rfl⟩, rfl⟩ | ⟨-, next, hnext, rfl, -⟩
      · left
        exact ⟨rfl, rfl⟩
      · right
        apply mark_advanced hnext

/-! ### What keeps the mark -/

/-- A call that is given no reading below the mark keeps the mark. -/
theorem ClockKept.markKept {target : Option Bytes} {call : ClockCall}
    (h : device.ClockKept target call) :
  device.MarkKept target (device.clock.next target call)
  := by
  cases call with
  | startupReconcile rows now access => apply MarkKept.refl
  | advanceAfterCommit bundle rows now access =>
      rcases clock_advance target bundle rows now access with ⟨-, hafter⟩ | hmark
      · rw [Machine.event_after] at hafter
        rw [hafter]
        apply MarkKept.refl
      · intro m hm
        exact ⟨now, hmark, h m hm⟩

/-- A call that succeeds keeps the mark only if it is given no reading below the mark. -/
theorem markKept_iff_clockKept {target : Option Bytes} {call : ClockCall}
    (h : (device.clock.event target call).output.succeeded = true) :
  device.MarkKept target (device.clock.next target call) ↔ device.ClockKept target call
  := by
  use fun hkept => ?_, ClockKept.markKept
  cases call with
  | startupReconcile rows now access => trivial
  | advanceAfterCommit bundle rows now access =>
      rcases clock_advance target bundle rows now access with ⟨hfailed, -⟩ | hmark
      · rw [h] at hfailed
        cases hfailed
      · intro m hm
        obtain ⟨n, hn, hmn⟩ := hkept m hm
        rw [Machine.event_after] at hmark
        rw [hmark] at hn
        cases hn
        exact hmn

/-- In a run in which no advance is given a reading below the mark, no call lowers the mark, and
it is not lower in the end than at the start; in any run, a call that succeeds lowers the mark
exactly when it is an advance that is given a reading below it. -/
theorem runs_keep_mark (device : Device) (target : Option Bytes)
    (calls : List ClockCall) :
  (device.clock.Admits device.ClockKept target calls →
      (∀ event ∈ device.clock.history target calls, device.MarkKept event.before event.after)
        ∧ device.MarkKept target (device.clock.final target calls))
    ∧ ∀ event ∈ device.clock.history target calls, event.output.succeeded = true →
      (device.MarkKept event.before event.after ↔ device.ClockKept event.before event.input)
  := by
  constructor
  · apply device.clock.run_induction_of_admits (P := fun history reached =>
      (∀ event ∈ history, device.MarkKept event.before event.after)
        ∧ device.MarkKept target reached)
    · constructor
      · intro event hevent
        cases hevent
      · apply MarkKept.refl
    · rintro history reached call ⟨hhistory, hreached⟩ hcall
      constructor
      · intro event hevent
        rcases List.mem_append.mp hevent with hevent | hevent
        · apply hhistory event hevent
        · rw [List.mem_singleton.mp hevent]
          apply ClockKept.markKept hcall
      · apply hreached.trans hcall.markKept
  · intro event hevent hsucceeded
    obtain ⟨before, call, _, -, rfl⟩ := device.clock.mem_history hevent
    apply markKept_iff_clockKept hsucceeded

/-! ### A clock that steps back -/

/-- The bundle of the sample device after it was advanced over no row. -/
def sampleObserved : StateRootBundle :=
  { sampleBundle with
    anchorGeneration := ⟨2, NonZeroU64.two_ne_zero⟩
    anchorCommitment := sampleDevice.hmac (Vector.replicate 32 5)
      (Anchor.DOMAIN ++ List.replicate 16 3 ++ Wire.be 8 2 ++ Wire.be 4 0)
    lastObservedUnixSeconds := 100 }

/-- An advance at a reading of 100, and one at the given reading with the bundle the first one
returns. -/
def twoAdvances (now : UInt64) : List ClockCall :=
  [.advanceAfterCommit sampleBundle [] 100 (Access.sound 0),
    .advanceAfterCommit sampleObserved [] now (Access.sound 0)]

example :
  (sampleDevice.clock.event (some (0 :: sampleBundle.encode))
    (.advanceAfterCommit sampleBundle [] 100 (Access.sound 0))).output
    = .advanced (.ok sampleObserved)
  := by
  decide +kernel

/-- A second advance at a reading of 50 succeeds and lowers the mark. -/
theorem steppedBack_lowers_mark :
  ¬∀ event ∈ sampleDevice.clock.history (some (0 :: sampleBundle.encode)) (twoAdvances 50),
    event.output.succeeded = true → sampleDevice.MarkKept event.before event.after
  := by
  decide +kernel

/-- A second advance at a reading of 150 does not. -/
theorem steppedOn_keeps_mark :
  (sampleDevice.mark (sampleDevice.clock.final (some (0 :: sampleBundle.encode))
      (twoAdvances 150)) = some 150)
    ∧ ∀ event ∈ sampleDevice.clock.history (some (0 :: sampleBundle.encode)) (twoAdvances 150),
      sampleDevice.MarkKept event.before event.after
  := by
  constructor
  · decide +kernel
  · have hadmits : sampleDevice.clock.Admits sampleDevice.ClockKept
        (some (0 :: sampleBundle.encode)) (twoAdvances 150) := by
      decide +kernel
    exact ((runs_keep_mark sampleDevice _ _).1 hadmits).1

end Device

end Persistence
