import OpenLoops.Desktop.Credential
import OpenLoops.Library.Machine

/-!
# Windows

Any number of windows keep data in one credential.  Each one opens it, changes the data by calls
and saves them; the steps of the windows are interleaved in any way, and any step on the
credential or the lock may fail.  The lock is exclusive, and the secret is read and written as a
whole.

`Kept` is what is kept, as the programs of the windows and what their bytes mean.  When the programs
are lawful, then every write is made over the bytes that its window saw last and changes what they
stand for by a single call; a window that finds other bytes writes nothing then or later.
-/

namespace Desktop

/-! ### The credential and the lock -/

/-- What the windows share: the secret of the credential, and the window that holds the lock. -/
structure Shared where
  secret : Option Bytes
  holder : Option ℕ

namespace Shared

/-- The bytes that are stored; there are none where there is no secret. -/
def stored (s : Shared) : Bytes :=
  s.secret.getD []

/-- The window gives the lock back, if it holds it. -/
def release (s : Shared) (i : ℕ) : Shared :=
  if s.holder = some i then { s with holder := none } else s

/-- How a window is answered: the clock reads anything, and what can fail may do so. -/
def serve (s : Shared) (i : ℕ) (reading : UInt64) (fails : Bool) :
    (o : StoreOperation) → Shared × o.Answer
  | .now => (s, reading)
  | .lock =>
      if s.holder = none ∧ fails = false then ({ s with holder := some i }, true) else (s, false)
  | .getSecret => (s, if fails then .error .failed else .ok s.secret)
  | .setSecret bytes => if fails then (s, false) else ({ s with secret := some bytes }, true)
  | .unlock => (s.release i, ())

end Shared

/-! ### Data in windows -/

/-- Data that windows keep in a credential, as values of `μ`, with calls of `κ` and ways to open of
`ο`. -/
structure Kept (μ κ ο : Type) where
  «open» : ο → StoreProgram μ
  perform : μ → κ → StoreProgram (Except String Unit × μ)
  /-- The bytes that were read or written last. -/
  previous : μ → Bytes
  error : μ → Option String
  /-- The error after a save that failed. -/
  failure : String
  /-- The bytes stand for the data. -/
  Holds : Bytes → μ → Prop
  /-- The data are those of a credential that nothing was written to. -/
  Starts : μ → Prop
  /-- The call may change the data so, where it reads the clock. -/
  Changes : Set UInt64 → κ → μ → μ → Prop
  /-- What holds of the data in every window. -/
  Sound : μ → Prop

/-- What a window does: it opens the credential, or it performs a call. -/
inductive Task (μ κ ο : Type) where
  | «open» (how : ο)
  | call (m : μ) (call : κ)

/-- A window: closed, waiting for a call, or in the middle of a task with the steps it has
performed and those that are left. -/
inductive Window (μ κ ο : Type) where
  | closed
  | waiting (m : μ)
  | busy (task : Task μ κ ο) (steps : StoreSteps) (rest : StoreProgram (Except String Unit × μ))

/-- All the windows, and what they share. -/
structure Desk (μ κ ο : Type) where
  shared : Shared
  window : ℕ → Window μ κ ο

/-- What happens next, in one of the windows. -/
inductive Turn (κ ο : Type) where
  | «open» (i : ℕ) (how : ο)
  | call (i : ℕ) (call : κ)
  | step (i : ℕ) (reading : UInt64) (fails : Bool)
  | close (i : ℕ)

/-- What came of a turn. -/
inductive Outcome (μ : Type) where
  | nothing
  | performed (step : Performed StoreOperation.Answer)
  | returned (result : Except String Unit) (m : μ)

/-- The readings of the clock among the steps. -/
def readings (steps : StoreSteps) : Set UInt64 :=
  {reading | ⟨.now, reading⟩ ∈ steps}

namespace Kept

variable {μ κ ο : Type} (D : Kept μ κ ο)

/-- The program of a task. -/
def program : Task μ κ ο → StoreProgram (Except String Unit × μ)
  | .open how => do return (.ok (), ← D.open how)
  | .call m call => D.perform m call

/-- The bytes that a task may write over. -/
def base : Task μ κ ο → Bytes
  | .open _ => []
  | .call m _ => D.previous m

/-- The windows and their turns. -/
def windows : Machine (Desk μ κ ο) (Turn κ ο) (Outcome μ) where
  step s turn :=
    let put (i : ℕ) (window : Window μ κ ο) : Desk μ κ ο :=
      { s with window := Function.update s.window i window }
    match turn with
    | .open i how =>
        match s.window i with
        | .closed => (put i (.busy (.open how) [] (D.program (.open how))), .nothing)
        | _ => (s, .nothing)
    | .call i call =>
        match s.window i with
        | .waiting m => (put i (.busy (.call m call) [] (D.program (.call m call))), .nothing)
        | _ => (s, .nothing)
    | .step i reading fails =>
        match s.window i with
        | .busy task steps (.perform o next) =>
            let (shared, x) := s.shared.serve i reading fails o
            let window := Window.busy task (steps ++ [⟨o, x⟩]) (next x)
            ({ shared, window := Function.update s.window i window }, .performed ⟨o, x⟩)
        | .busy _ _ (.done (result, m)) => (put i (.waiting m), .returned result m)
        | _ => (s, .nothing)
    | .close i =>
        ({ shared := s.shared.release i, window := Function.update s.window i .closed }, .nothing)

/-! ### What the programs must do -/

/-- What a task that writes may make of the data: the first data are written where there are none,
and a call changes the data of its window, which its last bytes stand for. -/
def Makes (clock : Set UInt64) : Task μ κ ο → μ → Prop
  | .open _, m' => D.Starts m'
  | .call m call, m' => D.error m = none ∧ D.Holds (D.previous m) m ∧ D.Changes clock call m m'

/-- How a call ends: it is refused and changes nothing, or it fails to save, or it saves its
change. -/
def Ends (m : μ) (call : κ) (steps : StoreSteps) (result : Except String Unit) (m' : μ) : Prop :=
  (result ≠ .ok () ∧ OnlyReadings steps ∧ m' = m)
    ∨ (result = .error D.failure ∧ D.error m = none ∧ D.error m' = some D.failure
      ∧ Attempt (D.previous m) steps none)
    ∨ (result = .ok () ∧ D.error m = none ∧ D.error m' = none
      ∧ Attempt (D.previous m) steps (some (D.previous m'))
      ∧ D.Changes (readings steps) call m m')

/-- The programs are lawful: a window remembers bytes that stand for its data, unless it has an
error; to open it attempts at most to save first data where there are none; and a call ends as it
should. -/
structure Lawful : Prop where
  holds : ∀ {m}, D.Sound m → D.error m = none → D.Holds (D.previous m) m
  open_runs : ∀ {how m steps}, (D.open how).Runs steps m → D.Sound m
    ∧ ∃ attempt, (steps = attempt ∨ ∃ loaded, steps = ⟨.getSecret, loaded⟩ :: attempt)
      ∧ (Attempt [] attempt none
        ∨ Attempt [] attempt (some (D.previous m)) ∧ D.error m = none ∧ D.Starts m)
  perform_runs : ∀ {m call steps result m'}, D.Sound m →
    (D.perform m call).Runs steps (result, m') → D.Sound m' ∧ D.Ends m call steps result m'

end Kept

end Desktop
