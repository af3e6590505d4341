import OpenLoops.Library.Wire

/-!
# Protected files

A protected file holds bytes the system protects for the current user.  It is replaced as
a whole or not at all; `Access` says what the system does while the file is accessed, and
`Dpapi` is what is assumed of the protection.
-/

namespace Persistence

/-! ### Protection -/

inductive DpapiFfiError where
  | inputOutOfRange
  | protectFailed
  | unprotectFailed
deriving DecidableEq, Repr

inductive DpapiError where
  | sizeOutOfBounds
  | os (error : DpapiFfiError)
deriving DecidableEq, Repr

/-- By how much the protection of a short text may make it longer. -/
def GENEROUS_PROTECTED_BOUND : ℕ := 4096

/-- What is assumed of the protection: it is undone by unprotecting, and a protected text is
not empty and not much longer than the text.  Protecting draws randomness. -/
structure Dpapi where
  protect : (seed : ℕ) → (plaintext : Bytes) → Bytes
  unprotect : (blob : Bytes) → Option Bytes
  unprotect_protect : ∀ seed plaintext, unprotect (protect seed plaintext) = some plaintext
  length_protect : ∀ seed plaintext, 1 ≤ (protect seed plaintext).length
    ∧ (protect seed plaintext).length ≤ plaintext.length + GENEROUS_PROTECTED_BOUND

inductive ProtectedFileError where
  | rootUnavailable
  | createFailed
  | writeFailed
  | replaceFailed
  | reopenFailed
  | oversizedFile
  | unexpectedEntry
  | notYetEnforced
deriving DecidableEq, Repr

/-- What the system does during an access to a protected file: the randomness it draws,
and which of its calls fail. -/
structure Access where
  seed : ℕ
  protectFault : Option DpapiFfiError
  writeFault : Option ProtectedFileError
  reopenFault : Bool
  unprotectFault : Option DpapiFfiError
deriving DecidableEq

/-- An access during which nothing fails. -/
def Access.sound (seed : ℕ) : Access where
  seed
  protectFault := none
  writeFault := none
  reopenFault := false
  unprotectFault := none

/-- Whether the file can be read and unprotected. -/
def Access.Readable (access : Access) : Prop :=
  access.reopenFault = false ∧ access.unprotectFault = none

section

variable (dpapi : Dpapi) (access : Access)

/-- Protect a text of at most `maxLen` bytes. -/
def protectBounded (plaintext : Bytes) (maxLen : ℕ) : Except DpapiError Bytes :=
  if plaintext = [] ∨ maxLen < plaintext.length then .error .sizeOutOfBounds
  else
    match access.protectFault with
    | some e => .error (.os e)
    | none => .ok (dpapi.protect access.seed plaintext)

/-- Unprotect a blob of at most `maxLen` bytes. -/
def unprotectBounded (blob : Bytes) (maxLen : ℕ) : Except DpapiError Bytes :=
  if blob = [] ∨ maxLen < blob.length then .error .sizeOutOfBounds
  else
    match access.unprotectFault, dpapi.unprotect blob with
    | some e, _ => .error (.os e)
    | none, none => .error (.os .unprotectFailed)
    | none, some plaintext =>
        if maxLen < plaintext.length then .error .sizeOutOfBounds else .ok plaintext

/-- A protected text is the blob the system makes of it. -/
theorem protectBounded_eq_ok {plaintext blob : Bytes} {maxLen : ℕ}
    (h : protectBounded dpapi access plaintext maxLen = .ok blob) :
  blob = dpapi.protect access.seed plaintext
  := by
  rw [protectBounded] at h
  split_ifs at h
  split at h
  · cases h
  · cases h
    rfl

/-- What was protected is unprotected, unless the system fails. -/
theorem unprotectBounded_protect {plaintext : Bytes} {maxLen : ℕ}
    (hlen : plaintext.length + GENEROUS_PROTECTED_BOUND ≤ maxLen) (seed : ℕ) :
  unprotectBounded dpapi access (dpapi.protect seed plaintext) maxLen =
    match access.unprotectFault with
    | some e => .error (.os e)
    | none => .ok plaintext
  := by
  obtain ⟨hpos, hle⟩ := dpapi.length_protect seed plaintext
  have hblob : ¬(dpapi.protect seed plaintext = []
      ∨ maxLen < (dpapi.protect seed plaintext).length) := by
    rintro (h | h)
    · rw [h] at hpos
      cases hpos
    · omega
  rw [unprotectBounded, if_neg hblob, dpapi.unprotect_protect]
  cases access.unprotectFault with
  | some e => rfl
  | none => apply if_neg (by omega)

end

/-! ### Files -/

/-- Replace the file by one with the given bytes; it stays as it was on any failure. -/
def writeAtomic (access : Access) (target : Option Bytes) (bytes : Bytes) :
    Except ProtectedFileError Unit × Option Bytes :=
  match access.writeFault with
  | some e => (.error e, target)
  | none => (.ok (), some bytes)

/-- Read a file of at most `maxLen` bytes; nothing when there is none. -/
def readBounded (access : Access) (target : Option Bytes) (maxLen : ℕ) :
    Except ProtectedFileError (Option Bytes) :=
  if access.reopenFault then .error .reopenFailed
  else
    match target with
    | none => .ok none
    | some bytes => if maxLen < bytes.length then .error .oversizedFile else .ok (some bytes)

/-- A file that is short enough is read, unless the system fails. -/
theorem readBounded_some (access : Access) {bytes : Bytes} {maxLen : ℕ}
    (hlen : bytes.length ≤ maxLen) :
  readBounded access (some bytes) maxLen
    = if access.reopenFault then .error .reopenFailed else .ok (some bytes)
  := by
  rw [readBounded]
  split
  · rfl
  · apply if_neg (by omega)

end Persistence
