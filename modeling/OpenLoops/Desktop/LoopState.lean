import OpenLoops.Desktop.Credential
import OpenLoops.Graph.Session
import OpenLoops.Library.KeyedRows

/-!
# Saved decisions

The decisions on loops are saved in one credential: a secret that their keys are made with, and a
record for each key.  A call changes one record, drops those that have expired, and saves them
all; when they are not saved, the records are put back and no further call changes them.
-/

namespace Desktop

open Graph (MailProvider)
open Wire (Reader take readArray readByte readLe readRows require)

/-! ### Records -/

/-- What was decided on a loop. -/
inductive Decision where
  | review
  | mine
  | done
  | dismissed
  | watching
  | moot
deriving DecidableEq, Repr

/-- Whether a decision ends a loop. -/
def Decision.isTerminal (decision : Decision) : Bool :=
  decision = .done || decision = .dismissed || decision = .moot

/-- What became of a reminder for a loop. -/
inductive Reminder where
  | none
  | attempted
  | created (provider : MailProvider) (listId taskId : String)
  | completed (provider : MailProvider) (listId taskId : String)
deriving DecidableEq, Repr

/-- The key of a loop: a fingerprint. -/
abbrev LoopKey := Vector UInt8 32

/-- What is saved about a loop. -/
structure Record where
  key : LoopKey
  decision : Decision
  reminder : Reminder
  updated : Int64
deriving DecidableEq, Repr

/-- The decisions in a window. -/
structure Decisions where
  secret : Vector UInt8 32
  records : List Record
  /-- Whether there is a credential. -/
  entry : Bool
  /-- The bytes of the credential that were read or written last. -/
  previous : Bytes
  error : Option String
deriving DecidableEq

namespace LoopState

def magic : Bytes := Wire.ascii "OLDecisions" ++ [2]

def oldMagic : Bytes := Wire.ascii "OLDecisions" ++ [1]

def cap : ℕ := 55

def terminalExpirySeconds : Int64 := 180 * 86400

def maxReminderIdLen : ℕ := 255

def failure : String :=
  "Saved loop decisions are unavailable or changed in another window. Close the other window and reopen OpenLoops; your previous decisions have been preserved."

/-! ### Encoding -/

/-- The byte of a decision. -/
def decisionTag : Decision → UInt8
  | .review => 0
  | .mine => 1
  | .done => 2
  | .dismissed => 3
  | .watching => 4
  | .moot => 5

/-- The byte of a reminder. -/
def reminderTag : Reminder → UInt8
  | .none => 0
  | .attempted => 1
  | .created .microsoft _ _ => 2
  | .completed .microsoft _ _ => 3
  | .created .google _ _ => 4
  | .completed .google _ _ => 5

/-- The bytes of an identifier, after their number. -/
def pushId (id : String) : Except StoreFailure Bytes :=
  if maxReminderIdLen < (Wire.utf8 id).length then .error .failed
  else .ok (UInt8.ofNat (Wire.utf8 id).length :: Wire.utf8 id)

/-- The identifiers of a reminder. -/
def pushReminderIds : Reminder → Except StoreFailure Bytes
  | .created _ listId taskId | .completed _ listId taskId => do
      return (← pushId listId) ++ (← pushId taskId)
  | .none | .attempted => .ok []

/-- The bytes of a record. -/
def pushRecord (r : Record) : Except StoreFailure Bytes := do
  return r.key.toList ++ [decisionTag r.decision] ++ [reminderTag r.reminder]
    ++ Wire.le 8 r.updated.toUInt64.toNat ++ (← pushReminderIds r.reminder)

/-- The bytes of the secret and the records, when they fit. -/
def encode (secret : Vector UInt8 32) (records : List Record) : Except StoreFailure Bytes :=
  if cap < records.length then .error .failed
  else do
    let rows ← records.mapM pushRecord
    let bytes := magic ++ secret.toList ++ [UInt8.ofNat records.length] ++ rows.flatten
    if maxCredentialBytes < bytes.length then .error .failed else .ok bytes

/-! ### Decoding -/

/-- An identifier, after its length. -/
def readId : Reader StoreFailure String := do
  let len ← readByte .failed
  let id ← take .failed len.toNat
  match Wire.ofUtf8 id with
  | some id => return id
  | none => throw .failed

/-- The decision of a byte. -/
def ofDecisionTag : UInt8 → Except StoreFailure Decision
  | 0 => .ok .review
  | 1 => .ok .mine
  | 2 => .ok .done
  | 3 => .ok .dismissed
  | 4 => .ok .watching
  | 5 => .ok .moot
  | _ => .error .failed

/-- The reminder of a byte, with its identifiers. -/
def readReminder : UInt8 → Reader StoreFailure Reminder
  | 0 => return .none
  | 1 => return .attempted
  | 2 => return .created .microsoft (← readId) (← readId)
  | 3 => return .completed .microsoft (← readId) (← readId)
  | 4 => return .created .google (← readId) (← readId)
  | 5 => return .completed .google (← readId) (← readId)
  | _ => throw .failed

/-- A record whose key none of the records before it has. -/
def readRecord (records : List Record) : Reader StoreFailure Record := do
  let key ← readArray .failed 32
  let decision ← readByte .failed
  let reminder ← readByte .failed
  let updated ← readLe .failed 8
  liftM (require StoreFailure.failed (!records.any (·.key = key)))
  let decision ← liftM (ofDecisionTag decision)
  let reminder ← readReminder reminder
  return { key, decision, reminder, updated := (UInt64.ofNat updated).toInt64 }

/-- The secret and the records. -/
def readStore : Reader StoreFailure (Vector UInt8 32 × List Record) := do
  let found ← take .failed magic.length
  liftM (require StoreFailure.failed (found = magic))
  let secret ← readArray .failed 32
  let count ← readByte .failed
  liftM (require StoreFailure.failed (count.toNat ≤ cap))
  let records ← readRows readRecord count.toNat []
  return (secret, records)

/-- The secret and the records that take up all the bytes. -/
def decode (bytes : Bytes) : Except StoreFailure (Vector UInt8 32 × List Record) :=
  Wire.readAll .failed readStore bytes

end LoopState

/-! ### Calls -/

namespace Decisions

open LoopState

/-- The record under a key, or the one of a loop that nothing was decided on. -/
def get (d : Decisions) (key : LoopKey) : Record :=
  (KeyedRows.find Record.key d.records key).getD
    { key, decision := .review, reminder := .none, updated := 0 }

/-- Whether a record is kept: it has a reminder, or its loop has not ended, or not long ago. -/
def keeps (r : Record) : StoreProgram Bool :=
  if r.reminder ≠ .none || !r.decision.isTerminal then return true
  else do
    -- The difference wraps around where it overflows.
    return (← now) - r.updated < terminalExpirySeconds

/-- The records that are kept. -/
def retain : List Record → StoreProgram (List Record)
  | [] => return []
  | r :: records => do
      let kept ← keeps r
      let records ← retain records
      return if kept then r :: records else records

/-- Save the secret and the records. -/
def save (testBuild : Bool) (d : Decisions) :
    StoreProgram (Except StoreFailure Unit × Decisions) := do
  match ← saveEncoded testBuild d.entry d.previous (encode d.secret d.records) with
  | .error e => return (.error e, d)
  | .ok bytes => return (.ok (), { d with previous := bytes })

/-- The text for a record that there is no room for. -/
def limitReached : String :=
  "The saved-decision limit (55) is reached. Existing decisions are preserved."

/-- Change the record under its key, and save. -/
def update (testBuild : Bool) (d : Decisions) (record : Record) :
    StoreProgram (Except String Unit × Decisions) :=
  match d.error with
  | some error => return (.error error, d)
  | none => do
      let old := d.records
      let retained ← retain d.records
      match KeyedRows.place Record.key cap record retained with
      | none => return (.error limitReached, { d with records := old })
      | some records =>
          match ← save testBuild { d with records } with
          | (.error _, d) =>
              return (.error failure, { d with records := old, error := some failure })
          | (.ok (), d) => return (.ok (), d)

/-- The text for a loop whose reminder may not be created. -/
def reminderRefused : String :=
  "Confirm responsibility or choose Keep an eye on this before creating a reminder. An existing or uncertain reminder must be resolved first."

/-- Note that a reminder is attempted for a loop that has none. -/
def beginReminder (testBuild : Bool) (d : Decisions) (key : LoopKey) :
    StoreProgram (Except String Unit × Decisions) :=
  let record := d.get key
  if ¬(record.decision = .mine ∨ record.decision = .watching) ∨ record.reminder ≠ .none then
    return (.error reminderRefused, d)
  else do
    let updated ← now
    update testBuild d { record with reminder := .attempted, updated }

/-- Open the decisions of the credential: `random` is what the secret is filled with, and
`entryBuilds` whether the credential can be used. -/
def «open» (testBuild : Bool) (random : Option (Vector UInt8 32)) (target entryBuilds : Bool) :
    StoreProgram Decisions :=
  match random with
  | none => return ⟨Vector.replicate 32 0, [], false, [], some failure⟩
  | some secret =>
      let result : Decisions := ⟨secret, [], false, [], none⟩
      if ¬target then return result
      else if ¬entryBuilds then return { result with error := some failure }
      else .perform .getSecret fun (loaded : Except StoreFailure (Option Bytes)) =>
        let result := { result with entry := true }
        match loaded with
        | .ok (some bytes) =>
            let result := { result with previous := bytes }
            match decode bytes with
            | .ok (secret, records) => return { result with secret, records }
            | .error _ =>
                if oldMagic.isPrefixOf bytes then return result
                else return { result with error := some failure }
        | .ok none => do
            match ← save testBuild result with
            | (.error _, result) => return { result with error := some failure }
            | (.ok (), result) => return result
        | .error _ => return { result with error := some failure }

end Decisions

end Desktop
