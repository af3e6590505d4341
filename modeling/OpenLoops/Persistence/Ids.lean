import OpenLoops.Library.Wire

/-!
# Identifiers and closed catalogs of the protected store

`RandomId` is an identifier of sixteen random bytes, never all zero; it serves as key
identifier, as account binding and as record identifier.  Random bytes come from the
draws of the system's generator, each of which may fail.
-/

namespace Persistence

/-! ### Random bytes -/

inductive RngError where
  | csprngUnavailable
deriving DecidableEq, Repr

/-- What the generator will answer: for each call a failure, or as many bytes as asked
for. -/
abbrev Draws := List (Option (ℕ → UInt8))

/-- A computation that draws random bytes. -/
abbrev Csprng (α : Type) := StateT Draws (Except RngError) α

/-- Fill an array with random bytes. -/
def fill (n : ℕ) : Csprng (Vector UInt8 n)
  | some bytes :: draws => .ok (Vector.ofFn fun i => bytes i, draws)
  | none :: _ | [] => .error .csprngUnavailable

/-- Filling an array uses up draws. -/
theorem length_lt_of_fill {n : ℕ} {draws draws' : Draws} {bytes : Vector UInt8 n}
    (h : (fill n).run draws = .ok (bytes, draws')) :
  draws'.length < draws.length
  := by
  rcases draws with _ | ⟨_ | draw, draws⟩
  · cases h
  · cases h
  · cases h
    apply Nat.lt_succ_self

/-! ### Identifiers -/

inductive RandomIdError where
  | allZero
deriving DecidableEq, Repr

/-- An identifier of sixteen random bytes, not all of them zero. -/
structure RandomId where
  bytes : Vector UInt8 16
  nonzero : bytes ≠ Vector.replicate 16 0
deriving DecidableEq

/-- Identifiers are told apart by their bytes. -/
@[ext]
theorem RandomId.ext {a b : RandomId} (h : a.bytes = b.bytes) :
  a = b
  := by
  cases a
  cases b
  cases h
  rfl

namespace RandomId

/-- Wrap random bytes, rejecting all zeros. -/
def fromRandomBytes (bytes : Vector UInt8 16) : Except RandomIdError RandomId :=
  if h : bytes = Vector.replicate 16 0 then .error .allZero else .ok ⟨bytes, h⟩

/-- Only the bytes of an identifier are accepted as that identifier. -/
theorem fromRandomBytes_eq_ok {bytes : Vector UInt8 16} {id : RandomId} :
  fromRandomBytes bytes = .ok id ↔ bytes = id.bytes
  := by
  rw [fromRandomBytes]
  constructor
  · intro h
    split_ifs at h
    cases h
    rfl
  · rintro rfl
    rw [dif_neg id.nonzero]

/-- The bytes of an identifier are accepted. -/
theorem fromRandomBytes_bytes (id : RandomId) :
  fromRandomBytes id.bytes = .ok id
  := fromRandomBytes_eq_ok.mpr rfl

/-- Draw an identifier in at most `attempts` attempts. -/
def generateWithin : (attempts : ℕ) → Csprng RandomId
  | 0 => throw .csprngUnavailable
  | attempts + 1 => do
      match fromRandomBytes (← fill 16) with
      | .ok id => return id
      | .error _ => generateWithin attempts

/-- Draw a fresh identifier, trying a second time when all bytes are zero. -/
def generate : Csprng RandomId :=
  generateWithin 2

/-- Every identifier that is drawn uses up draws. -/
theorem length_lt_of_generateWithin {attempts : ℕ} {draws draws' : Draws} {id : RandomId}
    (h : (generateWithin attempts).run draws = .ok (id, draws')) :
  draws'.length < draws.length
  := by
  induction attempts generalizing draws with
  | zero => cases h
  | succ attempts ih =>
      obtain ⟨bytes, rest, hfill, h⟩ := StateT.run_bind_eq_ok.mp h
      have hrest : rest.length < draws.length := length_lt_of_fill hfill
      split at h
      · cases h
        exact hrest
      · exact (ih h).trans hrest

end RandomId

abbrev KeyId := RandomId

abbrev AccountBindingAad := RandomId

abbrev RecordId := RandomId

/-! ### Versions and record types -/

/-- A nonzero schema version of 32 bits. -/
structure SchemaVersion where
  get : UInt32
  nonzero : get ≠ 0
deriving DecidableEq

@[ext]
theorem SchemaVersion.ext {v w : SchemaVersion} (h : v.get = w.get) :
  v = w
  := by
  cases v
  cases w
  cases h
  rfl

/-- Build a schema version from an integer, or nothing from zero. -/
def SchemaVersion.ofUInt32 (value : UInt32) : Option SchemaVersion :=
  if h : value = 0 then none else some ⟨value, h⟩

/-- A schema version is built from its integer, and from no other. -/
theorem SchemaVersion.ofUInt32_eq_some {value : UInt32} {version : SchemaVersion} :
  ofUInt32 value = some version ↔ value = version.get
  := by
  rw [ofUInt32]
  constructor
  · intro h
    split_ifs at h
    cases h
    rfl
  · rintro rfl
    rw [dif_neg version.nonzero]

/-- A schema version is built from its integer. -/
theorem SchemaVersion.ofUInt32_get (version : SchemaVersion) :
  ofUInt32 version.get = some version
  := ofUInt32_eq_some.mpr rfl

/-! ### Identifiers of one byte -/

theorem ones_ne_zeros :
  Vector.replicate 16 (1 : UInt8) ≠ Vector.replicate 16 0
  := by decide

theorem twos_ne_zeros :
  Vector.replicate 16 (2 : UInt8) ≠ Vector.replicate 16 0
  := by decide

theorem threes_ne_zeros :
  Vector.replicate 16 (3 : UInt8) ≠ Vector.replicate 16 0
  := by decide

theorem fours_ne_zeros :
  Vector.replicate 16 (4 : UInt8) ≠ Vector.replicate 16 0
  := by decide

theorem nines_ne_zeros :
  Vector.replicate 16 (9 : UInt8) ≠ Vector.replicate 16 0
  := by decide

theorem ones_ne_fours :
  (⟨Vector.replicate 16 1, ones_ne_zeros⟩ : RandomId) ≠ ⟨Vector.replicate 16 4, fours_ne_zeros⟩
  := by decide

/-- The first schema version is one. -/
theorem firstSchema_ne_zero :
  (1 : UInt32) ≠ 0
  := by decide

/-- The one ciphertext version. -/
def CIPHERTEXT_VERSION : UInt32 := 1

/-- The closed catalog of record types. -/
inductive RecordType where
  | accountBinding
  | syncCheckpoint
  | messageObservation
  | emailEvidenceRef
  | calendarInvitationRef
  | userAuthoredArtifactRef
  | loop
  | deadlineEvidence
  | transition
  | reminderLink
  | operationLedger
  | jobHealth
  | userSetting
  | clientAssociation
  | productCounter
deriving DecidableEq, Repr

/-- A number outside of the catalog. -/
structure UnknownRecordTypeCode where
  code : UInt16
deriving DecidableEq, Repr

namespace RecordType

/-- Every record type, in ascending order of codes. -/
def ALL : List RecordType :=
  [accountBinding, syncCheckpoint, messageObservation, emailEvidenceRef,
    calendarInvitationRef, userAuthoredArtifactRef, loop, deadlineEvidence, transition,
    reminderLink, operationLedger, jobHealth, userSetting, clientAssociation,
    productCounter]

/-- The number of a record type. -/
def code : RecordType → UInt16
  | accountBinding => 1
  | syncCheckpoint => 2
  | messageObservation => 3
  | emailEvidenceRef => 4
  | calendarInvitationRef => 5
  | userAuthoredArtifactRef => 6
  | loop => 7
  | deadlineEvidence => 8
  | transition => 9
  | reminderLink => 10
  | operationLedger => 11
  | jobHealth => 12
  | userSetting => 13
  | clientAssociation => 14
  | productCounter => 15

/-- The record type of a number. -/
def fromCode : UInt16 → Except UnknownRecordTypeCode RecordType
  | 1 => .ok accountBinding
  | 2 => .ok syncCheckpoint
  | 3 => .ok messageObservation
  | 4 => .ok emailEvidenceRef
  | 5 => .ok calendarInvitationRef
  | 6 => .ok userAuthoredArtifactRef
  | 7 => .ok loop
  | 8 => .ok deadlineEvidence
  | 9 => .ok transition
  | 10 => .ok reminderLink
  | 11 => .ok operationLedger
  | 12 => .ok jobHealth
  | 13 => .ok userSetting
  | 14 => .ok clientAssociation
  | 15 => .ok productCounter
  | other => .error ⟨other⟩

/-- Every record type is read back from its number, and from no other number. -/
theorem fromCode_eq_ok {code : UInt16} {recordType : RecordType} :
  fromCode code = .ok recordType ↔ code = recordType.code
  := by
  constructor
  · intro h
    unfold fromCode at h
    split at h <;> cases h <;> rfl
  · rintro rfl
    cases recordType <;> rfl

/-- The catalog is complete. -/
theorem mem_ALL (recordType : RecordType) :
  recordType ∈ ALL
  := by
  cases recordType <;> decide

/-- The catalog lists each record type once. -/
theorem nodup_ALL :
  ALL.Nodup
  := by
  decide

/-- Record types are told apart by their codes. -/
theorem code_injective :
  Function.Injective code
  := by
  intro a b h
  have ha : fromCode b.code = .ok a := fromCode_eq_ok.mpr h.symm
  rw [fromCode_eq_ok.mpr rfl] at ha
  exact (Except.ok.inj ha).symm

end RecordType

end Persistence
