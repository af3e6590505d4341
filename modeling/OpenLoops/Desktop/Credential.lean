import OpenLoops.Library.Program
import OpenLoops.Library.Wire

/-!
# The saved credential

A window saves its data as the secret of one credential, which other windows may save to as
well.  It writes under a lock, and only over the bytes it has seen there last.
-/

namespace Desktop

/-- What a window asks of the system. -/
inductive StoreOperation where
  /-- The seconds since the epoch. -/
  | now
  /-- Open the lock file for itself alone. -/
  | lock
  /-- Read the secret of the credential. -/
  | getSecret
  /-- Write the secret of the credential. -/
  | setSecret (bytes : Bytes)
  /-- Close the lock file. -/
  | unlock
deriving DecidableEq

/-- Why a step failed is not told. -/
inductive StoreFailure where
  | failed
deriving DecidableEq, Repr

/-- What the system answers: a lock that is held by another window is refused, and there is
no secret before the first one is written. -/
abbrev StoreOperation.Answer : StoreOperation → Type
  | now => UInt64
  | lock => Bool
  | getSecret => Except StoreFailure (Option Bytes)
  | setSecret _ => Bool
  | unlock => Unit

/-- A program of a window. -/
abbrev StoreProgram :=
  Program StoreOperation StoreOperation.Answer

/-- The steps of a window. -/
abbrev StoreSteps :=
  List (Performed StoreOperation.Answer)

/-- The greatest size of a secret. -/
def maxCredentialBytes : ℕ := 2560

/-- The seconds of a reading of the clock, or the greatest number when they are more. -/
def epochSeconds (reading : UInt64) : Int64 :=
  if reading.toNat < 2 ^ 63 then Int64.ofNat reading.toNat else Int64.maxValue

/-- The seconds of a reading are no less than zero. -/
theorem epochSeconds_nonneg (reading : UInt64) :
  0 ≤ (epochSeconds reading).toInt
  := by
  rw [epochSeconds]
  split_ifs with h
  · rw [Int64.toInt_ofNat_of_lt h]
    omega
  · decide

/-- The current seconds. -/
def now : StoreProgram Int64 :=
  .perform .now fun reading => pure (epochSeconds reading)

/-- Write the bytes under the lock, when the previous ones are still there; there are none
where there is no secret. -/
def writeSecret (previous bytes : Bytes) : StoreProgram Bool :=
  .perform .lock fun (granted : Bool) =>
    if granted then
      .perform .getSecret fun (secret : Except StoreFailure (Option Bytes)) =>
        match secret with
        | .error _ => .perform .unlock fun _ => pure false
        | .ok current =>
            if current.getD [] ≠ previous then .perform .unlock fun _ => pure false
            else .perform (.setSecret bytes) fun (written : Bool) =>
              .perform .unlock fun _ => pure written
    else pure false

/-- Save what was encoded: to the credential when there is one, and nowhere in a test build
without one.  The bytes that were saved are returned. -/
def saveEncoded (testBuild entry : Bool) (previous : Bytes)
    (encoded : Except StoreFailure Bytes) : StoreProgram (Except StoreFailure Bytes) :=
  match encoded with
  | .error e => return .error e
  | .ok bytes =>
      if entry then do
        if ← writeSecret previous bytes then return .ok bytes else return .error .failed
      else if testBuild then return .ok bytes
      else return .error .failed

/-! ### Attempts to save -/

/-- The steps of a call that attempts to save at most once, and the bytes that it wrote: it reads
the clock, and then it attempts to write over the previous bytes. -/
inductive Attempt (previous : Bytes) : StoreSteps → Option Bytes → Prop
  | nothing : Attempt previous [] none
  | now (reading : UInt64) {steps : StoreSteps} {written : Option Bytes}
      (h : Attempt previous steps written) :
      Attempt previous (⟨.now, reading⟩ :: steps) written
  | refused : Attempt previous [⟨.lock, false⟩] none
  | unread (e : StoreFailure) :
      Attempt previous [⟨.lock, true⟩, ⟨.getSecret, .error e⟩, ⟨.unlock, ()⟩] none
  | stale {current : Option Bytes} (h : current.getD [] ≠ previous) :
      Attempt previous [⟨.lock, true⟩, ⟨.getSecret, .ok current⟩, ⟨.unlock, ()⟩] none
  | unwritten {current : Option Bytes} (h : current.getD [] = previous) (bytes : Bytes) :
      Attempt previous [⟨.lock, true⟩, ⟨.getSecret, .ok current⟩, ⟨.setSecret bytes, false⟩,
        ⟨.unlock, ()⟩] none
  | written {current : Option Bytes} (h : current.getD [] = previous) (bytes : Bytes) :
      Attempt previous [⟨.lock, true⟩, ⟨.getSecret, .ok current⟩, ⟨.setSecret bytes, true⟩,
        ⟨.unlock, ()⟩] (some bytes)

/-- The steps are readings of the clock. -/
def OnlyReadings (steps : StoreSteps) : Prop :=
  ∀ step ∈ steps, ∃ reading : UInt64, step = ⟨.now, reading⟩

theorem OnlyReadings.append {steps steps' : StoreSteps} (h : OnlyReadings steps)
    (h' : OnlyReadings steps') :
  OnlyReadings (steps ++ steps')
  := by
  intro step hstep
  rcases List.mem_append.mp hstep with hstep | hstep
  · apply h step hstep
  · apply h' step hstep

/-- The clock may be read before an attempt. -/
theorem Attempt.readings {previous : Bytes} {steps steps' : StoreSteps} {written : Option Bytes}
    (hreadings : OnlyReadings steps) (h : Attempt previous steps' written) :
  Attempt previous (steps ++ steps') written
  := by
  induction steps with
  | nil => exact h
  | cons step steps ih =>
      obtain ⟨hstep, hsteps⟩ := List.forall_mem_cons.mp hreadings
      obtain ⟨reading, rfl⟩ := hstep
      apply Attempt.now reading (ih hsteps)

/-- What was written was written by one of the steps. -/
theorem Attempt.mem_of_written {previous bytes : Bytes} {steps : StoreSteps}
    (h : Attempt previous steps (some bytes)) :
  (⟨.setSecret bytes, true⟩ : Performed StoreOperation.Answer) ∈ steps
  := by
  generalize hwritten : some bytes = written at h
  induction h with
  | nothing | refused | unread | stale | unwritten => cases hwritten
  | now reading h ih => apply List.mem_cons_of_mem _ (ih hwritten)
  | written h bytes' =>
      cases hwritten
      simp

/-- The clock is read by a single step. -/
theorem now_runs {steps : StoreSteps} {instant : Int64} (h : now.Runs steps instant) :
  ∃ reading : UInt64, steps = [⟨.now, reading⟩] ∧ instant = epochSeconds reading
  := by
  obtain ⟨reading, rest, rfl, hrest⟩ := Program.runs_perform.mp h
  obtain ⟨rfl, rfl⟩ := Program.runs_pure.mp hrest
  use reading

/-- Bytes are written only over those that were there before, under the lock. -/
theorem writeSecret_runs {previous bytes : Bytes} {steps : StoreSteps} {ok : Bool}
    (h : (writeSecret previous bytes).Runs steps ok) :
  Attempt previous steps (if ok then some bytes else none)
  := by
  obtain ⟨granted, afterLock, rfl, hlock⟩ := Program.runs_perform.mp h
  rcases granted with _ | _
  · cases hlock
    apply Attempt.refused
  · obtain ⟨secret, afterGet, rfl, hget⟩ := Program.runs_perform.mp hlock
    rcases secret with e | current
    · obtain ⟨_, _, rfl, hunlock⟩ := Program.runs_perform.mp hget
      cases hunlock
      apply Attempt.unread
    · dsimp only at hget
      split_ifs at hget with hsame
      · obtain ⟨_, _, rfl, hunlock⟩ := Program.runs_perform.mp hget
        cases hunlock
        apply Attempt.stale hsame
      · obtain ⟨written, afterSet, rfl, hset⟩ := Program.runs_perform.mp hget
        obtain ⟨_, afterUnlock, rfl, hunlock⟩ := Program.runs_perform.mp hset
        obtain ⟨rfl, rfl⟩ := Program.runs_pure.mp hunlock
        rcases ok with _ | _
        · apply Attempt.unwritten (not_not.mp hsame)
        · apply Attempt.written (not_not.mp hsame)

/-- What was saved is what was encoded; where there is a credential it is attempted to write it
over the previous bytes, and it was written when it was saved. -/
theorem saveEncoded_runs {testBuild entry : Bool} {previous : Bytes}
    {encoded saved : Except StoreFailure Bytes} {steps : StoreSteps}
    (h : (saveEncoded testBuild entry previous encoded).Runs steps saved) :
  (∀ bytes, saved = .ok bytes → encoded = .ok bytes)
    ∧ (entry = true → Attempt previous steps saved.toOption)
  := by
  rcases encoded with e | bytes
  · cases h
    exact ⟨nofun, fun _ => Attempt.nothing⟩
  · rw [saveEncoded] at h
    split_ifs at h with hentry htest
    · obtain ⟨first, ok, rest, rfl, hwrite, hrest⟩ := Program.runs_bind.mp h
      have hattempt := writeSecret_runs hwrite
      rcases ok with _ | _
      · cases hrest
        rw [List.append_nil]
        exact ⟨nofun, fun _ => hattempt⟩
      · cases hrest
        rw [List.append_nil]
        exact ⟨fun _ => id, fun _ => hattempt⟩
    · cases h
      exact ⟨fun _ => id, fun hentry' => absurd hentry' hentry⟩
    · cases h
      exact ⟨nofun, fun hentry' => absurd hentry' hentry⟩

/-- Where a value is saved as what it is encoded to, and remembers the bytes: either it is not
saved and stays as it is, or it is saved and remembers what it was encoded to. -/
theorem remembering_runs {α : Type} {a a' : α} {remember : Bytes → α} {testBuild entry : Bool}
    {previous : Bytes} {encoded : Except StoreFailure Bytes} {saved : Except StoreFailure Unit}
    {steps : StoreSteps}
    (h : (do
      match ← saveEncoded testBuild entry previous encoded with
      | .error e => return (.error e, a)
      | .ok bytes => return (.ok (), remember bytes) :
      StoreProgram (Except StoreFailure Unit × α)).Runs steps (saved, a')) :
  (saved ≠ .ok () ∧ a' = a ∧ (entry = true → Attempt previous steps none))
    ∨ (saved = .ok () ∧ ∃ bytes, a' = remember bytes ∧ encoded = .ok bytes
      ∧ (entry = true → Attempt previous steps (some bytes)))
  := by
  obtain ⟨first, written, rest, rfl, hwritten, hrest⟩ := Program.runs_bind.mp h
  obtain ⟨hencoded, hattempt⟩ := saveEncoded_runs hwritten
  rcases written with e | bytes
  · left
    obtain ⟨rfl, hpair⟩ := Program.runs_pure.mp hrest
    cases hpair
    rw [List.append_nil]
    exact ⟨nofun, rfl, hattempt⟩
  · right
    obtain ⟨rfl, hpair⟩ := Program.runs_pure.mp hrest
    cases hpair
    rw [List.append_nil]
    use rfl, bytes, rfl, hencoded bytes rfl
    exact hattempt

end Desktop
