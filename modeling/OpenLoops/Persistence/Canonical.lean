import OpenLoops.Persistence.StateRoot

/-!
# Canonical encodings

The state root and the identity of an envelope are decoded by index from a byte string of
fixed size.  No index is out of range, every value is read back from its encoding, and
bytes that are accepted are the encoding of what they are read as.
-/

namespace Persistence

open Wire

/-! ### The identity of an envelope -/

namespace EnvelopeAad

/-- The reader that the decoder follows. -/
def readFields : Wire.Reader AadDecodeError EnvelopeAad := do
  checked (readArray .wrongLength 18) checkDomain
  checked (readBe .wrongLength 2) checkAlgorithm
  let keyId ← checked (readArray .wrongLength 16) checkId
  let accountBindingAad ← checked (readArray .wrongLength 16) checkId
  let recordType ← checked (readBe .wrongLength 2) checkRecordType
  let recordId ← checked (readArray .wrongLength 16) checkId
  let schemaVersion ← checked (readBe .wrongLength 4) checkSchemaVersion
  checked (readBe .wrongLength 4) checkCiphertextVersion
  return { keyId, accountBindingAad, recordType, recordId, schemaVersion }

/-- Only the bytes of an identifier are accepted as that identifier. -/
theorem checkId_eq_ok {raw : Vector UInt8 16} {id : RandomId} :
  checkId raw = .ok id ↔ raw = id.bytes
  := by
  rw [checkId, Except.mapError_eq_ok, RandomId.fromRandomBytes_eq_ok]

/-- Only the code of a record type is accepted as that record type. -/
theorem checkRecordType_eq_ok {code : ℕ} (hlt : code < 256 ^ 2) {recordType : RecordType} :
  checkRecordType code = .ok recordType ↔ code = recordType.code.toNat
  := by
  have hcode : (UInt16.ofNat code).toNat = code := UInt16.toNat_ofNat_of_lt' hlt
  rw [checkRecordType, Except.mapError_eq_ok, RecordType.fromCode_eq_ok, ← UInt16.toNat_inj, hcode]

/-- Only the number of a schema version is accepted as that version. -/
theorem checkSchemaVersion_eq_ok {raw : ℕ} (hlt : raw < 256 ^ 4) {version : SchemaVersion} :
  checkSchemaVersion raw = .ok version ↔ raw = version.get.toNat
  := by
  have hraw : (UInt32.ofNat raw).toNat = raw := UInt32.toNat_ofNat_of_lt' hlt
  rw [checkSchemaVersion, Option.okOr_eq_ok, SchemaVersion.ofUInt32_eq_some, ← UInt32.toNat_inj,
    hraw]

/-- The decoder follows the reader. -/
theorem decodeFields_follows :
  Cursor.FollowsFor AAD_BYTES decodeFields readFields
  := by
  have hnext := Cursor.FollowsFor.next AadDecodeError.wrongLength
  have hnextBe := Cursor.FollowsFor.nextBe AadDecodeError.wrongLength
  have h :=
    ((hnext 18).checked checkDomain).bind fun _ =>
    ((hnextBe 2).checked checkAlgorithm).bind fun _ =>
    ((hnext 16).checked checkId).bind fun keyId =>
    ((hnext 16).checked checkId).bind fun accountBindingAad =>
    ((hnextBe 2).checked checkRecordType).bind fun recordType =>
    ((hnext 16).checked checkId).bind fun recordId =>
    ((hnextBe 4).checked checkSchemaVersion).bind fun schemaVersion =>
    ((hnextBe 4).checked checkCiphertextVersion).bind fun _ =>
    Cursor.FollowsFor.pure
      (EnvelopeAad.mk keyId accountBindingAad recordType recordId schemaVersion)
  exact h

/-- The reader reads an identity back from its encoding. -/
theorem reads_fields (aad : EnvelopeAad) :
  Reads readFields aad.encode aad
  := by
  have hdomain : Reads (readArray AadDecodeError.wrongLength 18) DOMAIN ⟨DOMAIN.toArray, rfl⟩ :=
    reads_readArray AadDecodeError.wrongLength (⟨DOMAIN.toArray, rfl⟩ : Vector UInt8 18)
  have hid : ∀ id : RandomId,
      Reads (checked (readArray .wrongLength 16) checkId) id.bytes.toList id := fun id =>
    (reads_readArray AadDecodeError.wrongLength id.bytes).checked (checkId_eq_ok.mpr rfl)
  have hcode := aad.recordType.code.toNat_lt
  have hversion := aad.schemaVersion.get.toNat_lt
  simp only [encode, List.append_assoc, readFields]
  apply (hdomain.checked (b := ()) (Except.check_eq_ok.mpr (not_not.mpr rfl))).bind
  apply ((reads_readBe _ (by decide)).checked (b := ())
    (Except.check_eq_ok.mpr (not_not.mpr rfl))).bind
  apply (hid aad.keyId).bind
  apply (hid aad.accountBindingAad).bind
  apply ((reads_readBe _ hcode).checked ((checkRecordType_eq_ok hcode).mpr rfl)).bind
  apply (hid aad.recordId).bind
  apply ((reads_readBe _ hversion).checked ((checkSchemaVersion_eq_ok hversion).mpr rfl)).bind
  apply ((reads_readBe _ (by decide)).checked (b := ())
    (Except.check_eq_ok.mpr (not_not.mpr rfl))).bind_last
  apply Reads.pure

/-- Whatever the reader reads stands in front, encoded. -/
theorem readFields_eq_ok {bytes rest : Bytes} {aad : EnvelopeAad} :
  readFields.run bytes = .ok (aad, rest) ↔ bytes = aad.encode ++ rest
  := by
  constructor
  · intro h
    obtain ⟨_, _, hreadDomain, h⟩ := StateT.run_bind_eq_ok.mp h
    obtain ⟨_, _, hreadAlgorithm, h⟩ := StateT.run_bind_eq_ok.mp h
    obtain ⟨keyId, _, hreadKeyId, h⟩ := StateT.run_bind_eq_ok.mp h
    obtain ⟨account, _, hreadAccount, h⟩ := StateT.run_bind_eq_ok.mp h
    obtain ⟨recordType, _, hreadRecordType, h⟩ := StateT.run_bind_eq_ok.mp h
    obtain ⟨recordId, _, hreadRecordId, h⟩ := StateT.run_bind_eq_ok.mp h
    obtain ⟨schemaVersion, _, hreadSchemaVersion, h⟩ := StateT.run_bind_eq_ok.mp h
    obtain ⟨_, _, hreadCiphertext, h⟩ := StateT.run_bind_eq_ok.mp h
    cases h
    obtain ⟨domain, hdomain, rfl⟩ := checked_readArray_eq_ok.mp hreadDomain
    obtain ⟨algorithm, -, halgorithm, rfl⟩ := checked_readBe_eq_ok.mp hreadAlgorithm
    obtain ⟨_, hkeyId, rfl⟩ := checked_readArray_eq_ok.mp hreadKeyId
    obtain ⟨_, haccount, rfl⟩ := checked_readArray_eq_ok.mp hreadAccount
    obtain ⟨code, hcode, hrecordType, rfl⟩ := checked_readBe_eq_ok.mp hreadRecordType
    obtain ⟨_, hrecordId, rfl⟩ := checked_readArray_eq_ok.mp hreadRecordId
    obtain ⟨raw, hraw, hschemaVersion, rfl⟩ := checked_readBe_eq_ok.mp hreadSchemaVersion
    obtain ⟨ciphertext, -, hciphertext, rfl⟩ := checked_readBe_eq_ok.mp hreadCiphertext
    rw [checkId_eq_ok.mp hkeyId, checkId_eq_ok.mp haccount, checkId_eq_ok.mp hrecordId,
      (checkRecordType_eq_ok hcode).mp hrecordType, (checkSchemaVersion_eq_ok hraw).mp
      hschemaVersion, not_not.mp (Except.check_eq_ok.mp hdomain),
      not_not.mp (Except.check_eq_ok.mp halgorithm),
      not_not.mp (Except.check_eq_ok.mp hciphertext)]
    simp only [encode, List.append_assoc]
  · rintro rfl
    apply reads_fields

/-- The decoder computes what the reader does on a string of the right length. -/
theorem decode_eq {bytes : Bytes} (hlen : bytes.length = AAD_BYTES) :
  decode bytes = (readFields.run' bytes).mapError .error
  := by
  rw [decode, if_neg (not_not.mpr hlen)]
  apply decodeFields_follows.run_eq hlen

/-- An identity is decoded from its encoding, and from no other byte string. -/
theorem decode_eq_ok {bytes : Bytes} {aad : EnvelopeAad} :
  decode bytes = .ok aad ↔ bytes = aad.encode
  := by
  constructor
  · intro h
    have hlen : bytes.length = AAD_BYTES := by
      by_contra hlen
      rw [decode, if_pos hlen] at h
      cases h
    rw [decode_eq hlen, Except.mapError_eq_ok] at h
    obtain ⟨rest, h⟩ := StateT.run'_eq_ok.mp h
    apply eq_of_eq_append (readFields_eq_ok.mp h)
    rw [hlen, length_encode, AAD_BYTES]
  · rintro rfl
    rw [decode_eq aad.length_encode, Except.mapError_eq_ok, StateT.run'_eq_ok]
    use []
    rw [readFields_eq_ok, List.append_nil]

/-- The decoder never reads out of range. -/
theorem decode_ne_panicked (bytes : Bytes) :
  decode bytes ≠ .error .panicked
  := by
  intro h
  by_cases hlen : bytes.length = AAD_BYTES
  · rw [decode_eq hlen] at h
    exact Except.mapError_error_ne_panicked h
  · rw [decode, if_pos hlen] at h
    cases h

end EnvelopeAad

/-! ### The state root -/

namespace StateRootBundle

open Cursor in
/-- An identifier, taken by index, which must not be all zero. -/
def nextId : Cursor StateRootError KeyId :=
  (next 16).checked fun raw => (RandomId.fromRandomBytes raw).mapError fun _ => .invalidField

open Cursor in
/-- A number of 64 bits, taken by index. -/
def nextU64 : Cursor StateRootError UInt64 := do
  return UInt64.ofNat (← nextBe 8)

/-- A number of 64 bits, taken by index, which must not be zero. -/
def nextNonZeroU64 : Cursor StateRootError NonZeroU64 :=
  nextU64.checked fun raw => (NonZeroU64.new raw).okOr .invalidField

/-- The bytes every bundle starts with. -/
def checkMagic (raw : Vector UInt8 8) : Except StateRootError Unit :=
  if raw.toList ≠ MAGIC then .error .wrongMagic else .ok ()

/-- The one version. -/
def checkVersion (raw : ℕ) : Except StateRootError Unit :=
  if raw ≠ VERSION then .error .unknownVersion else .ok ()

open Cursor in
/-- Decode the fields one after the other by index, checking each. -/
def decodeFields : Cursor StateRootError StateRootBundle := do
  (next 8).checked checkMagic
  (nextBe 2).checked checkVersion
  let aeadKeyId ← nextId
  let aeadKeyBytes ← next 32
  let aeadUsage ← nextU64
  let contentDigestKeyBytes ← next 32
  let anchorKeyId ← nextId
  let anchorKeyBytes ← next 32
  let anchorGeneration ← nextNonZeroU64
  let anchorCommitment ← next 32
  let lastObservedUnixSeconds ← nextU64
  if distinct : aeadKeyId = anchorKeyId then Cursor.ofExcept (.error .duplicateKeyId)
  else
    return {
      aeadKeyId, aeadKeyBytes, aeadUsage, contentDigestKeyBytes, anchorKeyId, anchorKeyBytes
      anchorGeneration, anchorCommitment, lastObservedUnixSeconds, distinct }

/-- Decode a bundle by index, as `decode` does by cutting fields off. -/
def decodeAt (bytes : Bytes) : Except (Failure StateRootError) StateRootBundle :=
  if bytes.length ≠ WIRE_BYTES then .error (.error .wrongLength)
  else (decodeFields.runAt bytes 0).map Prod.fst

/-- The reader that the decoder follows. -/
def readAllFields : Reader StateRootBundle := do
  checked (readArray 8) checkMagic
  checked (readBe .wrongLength 2) checkVersion
  readFields

/-- The fields after the version follow their reader. -/
theorem decodeFields_follows :
  Cursor.FollowsFor WIRE_BYTES decodeFields readAllFields
  := by
  have hnext := Cursor.FollowsFor.next StateRootError.wrongLength
  have hid : Cursor.FollowsFor 16 nextId readId := (hnext 16).checked _
  have hu64 : Cursor.FollowsFor 8 nextU64 readU64 :=
    (Cursor.FollowsFor.nextBe StateRootError.wrongLength 8).bind fun raw =>
      Cursor.FollowsFor.pure (UInt64.ofNat raw)
  have hnonZero : Cursor.FollowsFor 8 nextNonZeroU64 readNonZeroU64 := hu64.checked _
  have hdistinct : ∀ (a b : KeyId) (bundle : a ≠ b → StateRootBundle), Cursor.FollowsFor 0
      (if h : a = b then Cursor.ofExcept (.error StateRootError.duplicateKeyId)
        else pure (bundle h))
      (if h : a = b then throw StateRootError.duplicateKeyId else pure (bundle h)) := by
    intro a b bundle
    split_ifs with h
    · exact Cursor.FollowsFor.ofExcept (.error StateRootError.duplicateKeyId)
    · apply Cursor.FollowsFor.pure
  have h :=
    ((hnext 8).checked checkMagic).bind fun _ =>
    ((Cursor.FollowsFor.nextBe StateRootError.wrongLength 2).checked checkVersion).bind fun _ =>
    hid.bind fun aeadKeyId =>
    (hnext 32).bind fun aeadKeyBytes =>
    hu64.bind fun aeadUsage =>
    (hnext 32).bind fun contentDigestKeyBytes =>
    hid.bind fun anchorKeyId =>
    (hnext 32).bind fun anchorKeyBytes =>
    hnonZero.bind fun anchorGeneration =>
    (hnext 32).bind fun anchorCommitment =>
    hu64.bind fun lastObservedUnixSeconds =>
    hdistinct aeadKeyId anchorKeyId fun distinct =>
      { aeadKeyId, aeadKeyBytes, aeadUsage, contentDigestKeyBytes, anchorKeyId, anchorKeyBytes
        anchorGeneration, anchorCommitment, lastObservedUnixSeconds, distinct }
  exact h

/-- Cutting the fields off gives what the reader reads. -/
theorem decode_eq {bytes : Bytes} (hlen : bytes.length = WIRE_BYTES) :
  decode bytes = readAllFields.run' bytes
  := by
  have hmagic : (readArray 8).run bytes = .ok (⟨(bytes.take 8).toArray, _⟩, bytes.drop 8) :=
    dif_pos (by rw [hlen]; decide)
  have hversion : (readBe StateRootError.wrongLength 2).run (bytes.drop 8)
      = .ok (ofBe ((bytes.drop 8).take 2), bytes.drop 10) := by
    have htake : (take StateRootError.wrongLength 2).run (bytes.drop 8)
        = .ok ((bytes.drop 8).take 2, (bytes.drop 8).drop 2) := by
      apply if_pos
      rw [List.length_drop, hlen]
      decide
    rw [readBe, StateT.run_bind, htake, List.drop_drop]
    rfl
  rw [decode, if_neg (not_not.mpr hlen), StateT.run'_eq readAllFields, readAllFields,
    run_checked_bind hmagic]
  by_cases htaken : bytes.take 8 = MAGIC
  · have hcheck : checkMagic ⟨(bytes.take 8).toArray, by simp [hlen, WIRE_BYTES]⟩ = .ok () :=
      if_neg (not_not.mpr htaken)
    rw [if_neg (not_not.mpr htaken), hcheck]
    show _ = Prod.fst <$> (checked (readBe .wrongLength 2) checkVersion >>= fun _ =>
      readFields).run (bytes.drop 8)
    rw [run_checked_bind hversion, checkVersion]
    split_ifs
    · rfl
    · rfl
  · have hcheck : checkMagic ⟨(bytes.take 8).toArray, by simp [hlen, WIRE_BYTES]⟩
        = .error .wrongMagic := if_pos htaken
    rw [if_pos htaken, hcheck]
    rfl

/-- Decoding by index gives what cutting the fields off gives. -/
theorem decodeAt_eq (bytes : Bytes) :
  decodeAt bytes = (decode bytes).mapError .error
  := by
  by_cases hlen : bytes.length = WIRE_BYTES
  · rw [decode_eq hlen, decodeAt, if_neg (not_not.mpr hlen)]
    apply decodeFields_follows.run_eq hlen
  · rw [decodeAt, decode, if_pos hlen, if_pos hlen]
    rfl

/-! ### What was read of a bundle -/

variable {bytes rest : Bytes}

/-- An identifier that was read stands in front. -/
theorem readId_eq_ok {id : KeyId} :
  readId.run bytes = .ok (id, rest) ↔ bytes = id.bytes.toList ++ rest
  := by
  constructor
  · intro h
    obtain ⟨raw, hcheck, rfl⟩ := checked_readArray_eq_ok.mp h
    rw [RandomId.fromRandomBytes_eq_ok.mp (Except.mapError_eq_ok.mp hcheck)]
  · rintro rfl
    apply reads_id

/-- A number that was read stands in front. -/
theorem readU64_eq_ok {value : UInt64} :
  readU64.run bytes = .ok (value, rest) ↔ bytes = be 8 value.toNat ++ rest
  := by
  constructor
  · intro h
    obtain ⟨raw, _, hraw, h⟩ := StateT.run_bind_eq_ok.mp h
    cases h
    obtain ⟨hlt, rfl⟩ := readBe_eq_ok.mp hraw
    rw [UInt64.toNat_ofNat_of_lt' hlt]
  · rintro rfl
    apply reads_u64

/-- A number other than zero that was read stands in front. -/
theorem readNonZeroU64_eq_ok {value : NonZeroU64} :
  readNonZeroU64.run bytes = .ok (value, rest) ↔ bytes = be 8 value.get.toNat ++ rest
  := by
  constructor
  · intro h
    obtain ⟨raw, hraw, hcheck⟩ := checked_eq_ok.mp h
    rw [readU64_eq_ok.mp hraw, NonZeroU64.new_eq_some.mp (Option.okOr_eq_ok.mp hcheck)]
  · rintro rfl
    apply reads_nonZeroU64

/-- Whatever is read stands in front, encoded. -/
theorem eq_of_readAllFields {bundle : StateRootBundle}
    (h : readAllFields.run bytes = .ok (bundle, rest)) :
  bytes = bundle.encode ++ rest
  := by
  obtain ⟨_, _, hreadMagic, h⟩ := StateT.run_bind_eq_ok.mp h
  obtain ⟨_, _, hreadVersion, h⟩ := StateT.run_bind_eq_ok.mp h
  obtain ⟨aeadKeyId, _, hreadAeadKeyId, h⟩ := StateT.run_bind_eq_ok.mp h
  obtain ⟨aeadKeyBytes, _, hreadAeadKeyBytes, h⟩ := StateT.run_bind_eq_ok.mp h
  obtain ⟨aeadUsage, _, hreadAeadUsage, h⟩ := StateT.run_bind_eq_ok.mp h
  obtain ⟨contentDigestKeyBytes, _, hreadDigestKey, h⟩ := StateT.run_bind_eq_ok.mp h
  obtain ⟨anchorKeyId, _, hreadAnchorKeyId, h⟩ := StateT.run_bind_eq_ok.mp h
  obtain ⟨anchorKeyBytes, _, hreadAnchorKeyBytes, h⟩ := StateT.run_bind_eq_ok.mp h
  obtain ⟨anchorGeneration, _, hreadGeneration, h⟩ := StateT.run_bind_eq_ok.mp h
  obtain ⟨anchorCommitment, _, hreadCommitment, h⟩ := StateT.run_bind_eq_ok.mp h
  obtain ⟨lastObservedUnixSeconds, _, hreadLastObserved, h⟩ := StateT.run_bind_eq_ok.mp h
  split_ifs at h with hdistinct
  · cases h
  · cases h
    obtain ⟨magic, hmagic, rfl⟩ := checked_readArray_eq_ok.mp hreadMagic
    obtain ⟨version, -, hversion, rfl⟩ := checked_readBe_eq_ok.mp hreadVersion
    rw [not_not.mp (Except.check_eq_ok.mp hmagic), not_not.mp (Except.check_eq_ok.mp hversion),
      readId_eq_ok.mp hreadAeadKeyId, readArray_eq_ok.mp hreadAeadKeyBytes,
      readU64_eq_ok.mp hreadAeadUsage, readArray_eq_ok.mp hreadDigestKey,
      readId_eq_ok.mp hreadAnchorKeyId, readArray_eq_ok.mp hreadAnchorKeyBytes,
      readNonZeroU64_eq_ok.mp hreadGeneration, readArray_eq_ok.mp hreadCommitment,
      readU64_eq_ok.mp hreadLastObserved]
    simp only [encode, List.append_assoc]

/-- A bundle is decoded from its encoding, and from no other byte string. -/
theorem decode_eq_ok {bytes : Bytes} {bundle : StateRootBundle} :
  decode bytes = .ok bundle ↔ bytes = bundle.encode
  := by
  constructor
  · intro h
    have hlen : bytes.length = WIRE_BYTES := by
      by_contra hlen
      rw [decode, if_pos hlen] at h
      cases h
    rw [decode_eq hlen] at h
    obtain ⟨rest, h⟩ := StateT.run'_eq_ok.mp h
    apply eq_of_eq_append (eq_of_readAllFields h)
    rw [hlen, length_encode]
  · rintro rfl
    apply decode_encode

/-- A bundle is decoded by index from its encoding, and from no other byte string. -/
theorem decodeAt_eq_ok {bytes : Bytes} {bundle : StateRootBundle} :
  decodeAt bytes = .ok bundle ↔ bytes = bundle.encode
  := by
  rw [decodeAt_eq, Except.mapError_eq_ok, decode_eq_ok]

/-- The decoder never reads out of range. -/
theorem decodeAt_ne_panicked (bytes : Bytes) :
  decodeAt bytes ≠ .error .panicked
  := by
  rw [decodeAt_eq]
  apply Except.mapError_error_ne_panicked

end StateRootBundle

/-! ### Both codecs -/

/-- Bundles and identities are read back from their encodings, byte strings that are accepted
are the encoding of what they are read as, and no byte string makes a decoder panic. -/
theorem codecs_canonical :
  ((∀ bundle : StateRootBundle, StateRootBundle.decodeAt bundle.encode = .ok bundle)
      ∧ (∀ (bytes : Bytes) (bundle : StateRootBundle),
          StateRootBundle.decodeAt bytes = .ok bundle → bundle.encode = bytes)
      ∧ ∀ bytes : Bytes, StateRootBundle.decodeAt bytes ≠ .error .panicked)
    ∧ (∀ aad : EnvelopeAad, EnvelopeAad.decode aad.encode = .ok aad)
      ∧ (∀ (bytes : Bytes) (aad : EnvelopeAad),
          EnvelopeAad.decode bytes = .ok aad → aad.encode = bytes)
      ∧ ∀ bytes : Bytes, EnvelopeAad.decode bytes ≠ .error .panicked
  := by
  constructor
  · constructor
    · intro bundle
      apply StateRootBundle.decodeAt_eq_ok.mpr rfl
    · constructor
      · intro bytes bundle h
        apply (StateRootBundle.decodeAt_eq_ok.mp h).symm
      · apply StateRootBundle.decodeAt_ne_panicked
  · constructor
    · intro aad
      apply EnvelopeAad.decode_eq_ok.mpr rfl
    · constructor
      · intro bytes aad h
        apply (EnvelopeAad.decode_eq_ok.mp h).symm
      · apply EnvelopeAad.decode_ne_panicked

/-- The identity of a loop. -/
def sampleAad : EnvelopeAad where
  keyId := ⟨Vector.replicate 16 1, ones_ne_zeros⟩
  accountBindingAad := ⟨Vector.replicate 16 2, twos_ne_zeros⟩
  recordType := .loop
  recordId := ⟨Vector.replicate 16 3, threes_ne_zeros⟩
  schemaVersion := ⟨5, by decide⟩

/-- A bundle whose anchor is of the second generation. -/
def sampleState : StateRootBundle where
  aeadKeyId := ⟨Vector.replicate 16 1, ones_ne_zeros⟩
  aeadKeyBytes := Vector.replicate 32 2
  aeadUsage := 7
  contentDigestKeyBytes := Vector.replicate 32 3
  anchorKeyId := ⟨Vector.replicate 16 4, fours_ne_zeros⟩
  anchorKeyBytes := Vector.replicate 32 5
  anchorGeneration := ⟨2, NonZeroU64.two_ne_zero⟩
  anchorCommitment := Vector.replicate 32 6
  lastObservedUnixSeconds := 300
  distinct := ones_ne_fours

/-- The bytes that are accepted as this bundle and as this identity, field by field, are their
encodings. -/
theorem samples_canonical :
  sampleState.encode
      = Wire.ascii "OLSTATE1" ++ [0, 1] ++ List.replicate 16 1 ++ List.replicate 32 2
        ++ [0, 0, 0, 0, 0, 0, 0, 7] ++ List.replicate 32 3 ++ List.replicate 16 4
        ++ List.replicate 32 5 ++ [0, 0, 0, 0, 0, 0, 0, 2] ++ List.replicate 32 6
        ++ [0, 0, 0, 0, 0, 0, 1, 44]
    ∧ sampleAad.encode
      = Wire.ascii "openloops-state-v1" ++ [0, 1] ++ List.replicate 16 1 ++ List.replicate 16 2
        ++ [0, 7] ++ List.replicate 16 3 ++ [0, 0, 0, 5] ++ [0, 0, 0, 1]
  := by
  constructor
  · apply codecs_canonical.1.2.1 _ sampleState
    decide +kernel
  · apply codecs_canonical.2.2.1 _ sampleAad
    decide

end Persistence
