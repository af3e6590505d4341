import OpenLoops.Library.Cursor
import OpenLoops.Persistence.Ids

/-!
# Sealed envelopes

A record is stored as an AES-256-GCM envelope: the ciphertext and tag of its plaintext,
bound to the additional data that names the key, the account, the record type, the record
and the schema version.  `Aead` is what is assumed of the cipher.
-/

namespace Persistence

/-- The identity bound to an envelope. -/
structure EnvelopeAad where
  keyId : KeyId
  accountBindingAad : AccountBindingAad
  recordType : RecordType
  recordId : RecordId
  schemaVersion : SchemaVersion
deriving DecidableEq

/-- Why bytes are not the encoding of an identity. -/
inductive AadDecodeError where
  | wrongLength
  | wrongDomain
  | unknownAlgorithm
  | unknownRecordType
  | zeroSchemaVersion
  | unknownCiphertextVersion
  | allZeroIdentifier
deriving DecidableEq, Repr

namespace EnvelopeAad

/-- The fixed text that starts every encoding. -/
def DOMAIN : Bytes :=
  Wire.ascii "openloops-state-v1"

/-- The code of AES-256-GCM. -/
def ALGORITHM_CODE : ℕ := 1

/-- The bytes the cipher authenticates. -/
def encode (aad : EnvelopeAad) : Bytes :=
  DOMAIN
    ++ Wire.be 2 ALGORITHM_CODE
    ++ aad.keyId.bytes.toList
    ++ aad.accountBindingAad.bytes.toList
    ++ Wire.be 2 aad.recordType.code.toNat
    ++ aad.recordId.bytes.toList
    ++ Wire.be 4 aad.schemaVersion.get.toNat
    ++ Wire.be 4 CIPHERTEXT_VERSION.toNat

/-- The encoding always takes up 78 bytes. -/
theorem length_encode (aad : EnvelopeAad) :
  aad.encode.length = 78
  := by
  simp [encode, DOMAIN, Wire.ascii]

/-- The size of an encoding. -/
def AAD_BYTES : ℕ := 78

/-- The fixed text. -/
def checkDomain (raw : Vector UInt8 18) : Except AadDecodeError Unit :=
  if raw.toList ≠ DOMAIN then .error .wrongDomain else .ok ()

/-- The one algorithm. -/
def checkAlgorithm (code : ℕ) : Except AadDecodeError Unit :=
  if code ≠ ALGORITHM_CODE then .error .unknownAlgorithm else .ok ()

/-- An identifier, which must not be all zero. -/
def checkId (raw : Vector UInt8 16) : Except AadDecodeError RandomId :=
  (RandomId.fromRandomBytes raw).mapError fun _ => .allZeroIdentifier

/-- The record type of a code. -/
def checkRecordType (code : ℕ) : Except AadDecodeError RecordType :=
  (RecordType.fromCode (UInt16.ofNat code)).mapError fun _ => .unknownRecordType

/-- A schema version, which must not be zero. -/
def checkSchemaVersion (raw : ℕ) : Except AadDecodeError SchemaVersion :=
  (SchemaVersion.ofUInt32 (UInt32.ofNat raw)).okOr .zeroSchemaVersion

/-- The one ciphertext version. -/
def checkCiphertextVersion (raw : ℕ) : Except AadDecodeError Unit :=
  if raw ≠ CIPHERTEXT_VERSION.toNat then .error .unknownCiphertextVersion else .ok ()

open Wire.Cursor in
/-- Decode the fields one after the other, checking each. -/
def decodeFields : Wire.Cursor AadDecodeError EnvelopeAad := do
  (next 18).checked checkDomain
  (nextBe 2).checked checkAlgorithm
  let keyId ← (next 16).checked checkId
  let accountBindingAad ← (next 16).checked checkId
  let recordType ← (nextBe 2).checked checkRecordType
  let recordId ← (next 16).checked checkId
  let schemaVersion ← (nextBe 4).checked checkSchemaVersion
  (nextBe 4).checked checkCiphertextVersion
  return { keyId, accountBindingAad, recordType, recordId, schemaVersion }

/-- Decode and validate an identity. -/
def decode (bytes : Bytes) : Except (Failure AadDecodeError) EnvelopeAad :=
  if bytes.length ≠ AAD_BYTES then .error (.error .wrongLength)
  else (decodeFields.runAt bytes 0).map Prod.fst

end EnvelopeAad

def MAXIMUM_PLAINTEXT_BYTES : ℕ := 1048576

def TAG_BYTES : ℕ := 16

/-- What is assumed of AES-256-GCM: encryption may fail, adds a tag of sixteen bytes, and
is undone by decryption under the same key, nonce and additional data. -/
structure Aead where
  encrypt : (key : Vector UInt8 32) → (nonce : Vector UInt8 12) → (aad msg : Bytes) →
    Option Bytes
  decrypt : (key : Vector UInt8 32) → (nonce : Vector UInt8 12) →
    (aad combined : Bytes) → Option Bytes
  length_encrypt : ∀ {key nonce aad msg combined},
    encrypt key nonce aad msg = some combined → combined.length = msg.length + TAG_BYTES
  decrypt_encrypt : ∀ {key nonce aad msg combined},
    encrypt key nonce aad msg = some combined → decrypt key nonce aad combined = some msg

/-- A key together with its identifier. -/
structure EnvelopeKey where
  id : KeyId
  bytes : Vector UInt8 32

/-- A sealed record. -/
structure Envelope where
  aad : EnvelopeAad
  nonce : Vector UInt8 12
  tag : Vector UInt8 16
  ciphertext : Bytes
deriving DecidableEq

inductive EnvelopeError where
  | plaintextTooLarge
  | ciphertextTooLarge
  | keyIdMismatch
  | authenticationFailed
deriving DecidableEq, Repr

/-- Encrypt a plaintext and bind it to `aad`. -/
def Envelope.seal (aead : Aead) (key : EnvelopeKey) (aad : EnvelopeAad) (nonce : Vector UInt8 12)
    (plaintext : Bytes) : Except EnvelopeError Envelope :=
  if aad.keyId.bytes ≠ key.id.bytes then .error .keyIdMismatch
  else if MAXIMUM_PLAINTEXT_BYTES < plaintext.length then .error .plaintextTooLarge
  else
    match h : aead.encrypt key.bytes nonce aad.encode plaintext with
    | none => .error .plaintextTooLarge
    | some combined =>
        let splitAt := combined.length - TAG_BYTES
        .ok
          { aad
            nonce
            tag := ⟨(combined.drop splitAt).toArray, by
              have hlen := aead.length_encrypt h
              simp only [List.size_toArray, List.length_drop, TAG_BYTES, splitAt] at *
              omega⟩
            ciphertext := combined.take splitAt }

/-- Authenticate and decrypt an envelope. -/
def Envelope.open (aead : Aead) (key : EnvelopeKey) (envelope : Envelope) :
    Except EnvelopeError Bytes :=
  if envelope.aad.keyId.bytes ≠ key.id.bytes then .error .keyIdMismatch
  else if MAXIMUM_PLAINTEXT_BYTES < envelope.ciphertext.length then
    .error .ciphertextTooLarge
  else
    (aead.decrypt key.bytes envelope.nonce envelope.aad.encode
      (envelope.ciphertext ++ envelope.tag.toList)).okOr .authenticationFailed

/-- A sealed plaintext carries its identity and is opened under the key it was sealed
with. -/
theorem Envelope.open_seal {aead : Aead} {key : EnvelopeKey} {aad : EnvelopeAad}
    {nonce : Vector UInt8 12} {plaintext : Bytes} {envelope : Envelope}
    (h : Envelope.seal aead key aad nonce plaintext = .ok envelope) :
  envelope.aad = aad ∧ Envelope.open aead key envelope = .ok plaintext
  := by
  rw [Envelope.seal] at h
  split_ifs at h with hid hlen
  split at h
  · cases h
  · rename_i combined hencrypt
    cases h
    use rfl
    have hcombined := aead.length_encrypt hencrypt
    have htake : (combined.take (combined.length - TAG_BYTES)).length = plaintext.length := by
      rw [List.length_take, hcombined]
      omega
    have hjoin : combined.take (combined.length - TAG_BYTES)
        ++ combined.drop (combined.length - TAG_BYTES) = combined :=
      List.take_append_drop _ combined
    rw [Envelope.open, if_neg hid, if_neg (by rw [htake]; exact hlen)]
    apply Option.okOr_eq_ok.mpr
    simp only [Vector.toList_mk, hjoin]
    apply aead.decrypt_encrypt hencrypt

end Persistence
