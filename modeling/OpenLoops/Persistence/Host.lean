import OpenLoops.Library.Machine
import OpenLoops.Persistence.StateRoot
import OpenLoops.Persistence.Store

/-!
# Hosts

A host keeps one account in two durable places, the database and the protected file of the
state root, while its process holds the bundles it was returned and the rows it read.  The
machine `Device.host` answers the calls of the process, which may pass any of these bundles
and rows, the newest or older ones; a crash loses them and leaves what is durable as it is.
A crash in the middle of a call leaves behind what one of the answers of the call does: the
database commits all of a transaction or none, and the file is replaced as a whole.
-/

namespace Persistence

/-- What a host is run on, and the account it keeps. -/
structure Device where
  engine : SqlEngine
  hmac : Hmac
  dpapi : Dpapi
  account : AccountBindingAad

/-- The durable file and database, and what the running process holds. -/
structure Host where
  file : Option Bytes
  store : Store
  bundles : List StateRootBundle
  reads : List (List Envelope)

inductive HostCall where
  | reserveAeadBatch (bundle : ℕ) (count : UInt32) (access : Access)
  | writeTransaction (envelopes : List Envelope) (fails : Bool)
  | readAll (fails : Bool)
  | advanceAfterCommit (bundle rows : ℕ) (nowUnixSeconds : UInt64) (access : Access)
  | startupReconcile (nowUnixSeconds : UInt64) (access : Access) (readFails : Bool)
  | crash

inductive HostAnswer where
  | reserved (result : Except StateRootError (StateRootBundle × ReservationBatch))
  | wrote (result : Except StoreError Unit)
  | read (result : Except StoreError (List Envelope))
  | advanced (result : Except StateRootError StateRootBundle)
  | started (rows : List Envelope)
      (result : Except StateRootError (Except FreezeCause StateRootBundle))
  | unread (error : StoreError)
  | ignored
deriving DecidableEq

namespace Host

/-- The host after its state root was created: the database is still empty. -/
def created (bundle : StateRootBundle) (file : Option Bytes) : Host where
  file
  store := Store.open
  bundles := [bundle]
  reads := []

/-- The bundle and the rows of these numbers, when the process holds both. -/
def held (host : Host) (bundle rows : ℕ) : Option (StateRootBundle × List Envelope) := do
  let bundle ← host.bundles[bundle]?
  let rows ← host.reads[rows]?
  return (bundle, rows)

/-- What is held is among the bundles and the rows. -/
theorem held_eq_some {host : Host} {index rowsIndex : ℕ} {bundle : StateRootBundle}
    {rows : List Envelope} (h : host.held index rowsIndex = some (bundle, rows)) :
  bundle ∈ host.bundles ∧ rows ∈ host.reads
  := by
  obtain ⟨bundle', hbundle, h⟩ := Option.bind_eq_some_iff.mp h
  obtain ⟨rows', hrows, h⟩ := Option.bind_eq_some_iff.mp h
  cases h
  exact ⟨List.mem_of_getElem? hbundle, List.mem_of_getElem? hrows⟩

/-- The process holds one more bundle when it was returned one. -/
def hold {ε : Type} (host : Host) (result : Except ε StateRootBundle) : Host :=
  { host with bundles := host.bundles ++ result.toOption.toList }

end Host

namespace Device

variable (device : Device)

/-- Reserve attempts under one of the bundles. -/
def reserve (host : Host) (bundle : ℕ) (count : UInt32) (access : Access) :
    Host × HostAnswer :=
  match host.bundles[bundle]? with
  | none => (host, .ignored)
  | some bundle =>
      match reserveAeadBatch device.dpapi access host.file bundle count with
      | (result, file) => ({ host with file }.hold (result.map Prod.fst), .reserved result)

/-- Write a transaction. -/
def write (host : Host) (envelopes : List Envelope) (fails : Bool) : Host × HostAnswer :=
  match host.store.writeTransaction device.account envelopes fails with
  | .error e => (host, .wrote (.error e))
  | .ok store => ({ host with store }, .wrote (.ok ()))

/-- Read all rows, which the process holds from then on. -/
def read (host : Host) (fails : Bool) : Host × HostAnswer :=
  match host.store.readAll device.engine device.account fails with
  | .error e => (host, .read (.error e))
  | .ok rows => ({ host with reads := host.reads ++ [rows] }, .read (.ok rows))

/-- Advance the anchor of one of the bundles over some rows that were read. -/
def advance (host : Host) (bundle rows : ℕ) (now : UInt64) (access : Access) :
    Host × HostAnswer :=
  match host.held bundle rows with
  | none => (host, .ignored)
  | some (bundle, rows) =>
      match advanceAfterCommit device.hmac device.dpapi access host.file device.account bundle
        rows now with
      | (result, file) => ({ host with file }.hold result, .advanced result)

/-- Read all rows and check them against the anchor in the file; the process holds the
bundle only if it is accepted. -/
def start (host : Host) (now : UInt64) (access : Access) (readFails : Bool) :
    Host × HostAnswer :=
  match host.store.readAll device.engine device.account readFails with
  | .error e => (host, .unread e)
  | .ok rows =>
      match startupReconcile device.hmac device.dpapi access host.file device.account rows
        now with
      | .error e => (host, .started rows (.error e))
      | .ok outcome => (host.hold outcome, .started rows (.ok outcome))

/-- The machine that answers the calls of the process. -/
def host : Machine Host HostCall HostAnswer where
  step h
    | .reserveAeadBatch bundle count access => device.reserve h bundle count access
    | .writeTransaction envelopes fails => device.write h envelopes fails
    | .readAll fails => device.read h fails
    | .advanceAfterCommit bundle rows now access => device.advance h bundle rows now access
    | .startupReconcile now access readFails => device.start h now access readFails
    | .crash => ({ h with bundles := [], reads := [] }, .ignored)

end Device

end Persistence
