import OpenLoops.Application.Codec
import OpenLoops.Library.Log
import OpenLoops.Persistence.Digest
import OpenLoops.Persistence.Reservation
import OpenLoops.Persistence.Store

/-!
# Sealing, committing and scanning records

The plaintexts of a batch are sealed into envelopes after their attempts are reserved,
committed in one transaction, and read back by scanning all rows.  `Logs` is the meaning
of a store under a key: for each record type the list of the plaintexts committed, which
a commit extends at its end (`Logs.commit`) and a scan returns in some order
(`Logs.scanRecords`).
-/

namespace Application

open Persistence

/-- What lies outside the program: the database engine, the cipher and the HMAC. -/
structure Platform where
  engine : SqlEngine
  aead : Aead
  hmac : Hmac

/-- What stays the same throughout a run: the account and its keys. -/
structure Installation where
  platform : Platform
  account : AccountBindingAad
  envelopeKey : EnvelopeKey
  digestKey : ContentDigestKey

inductive SealError where
  | tooManyRecords
  | reservation (error : ReservationError)
  | rng (error : RngError)
  | envelope (error : EnvelopeError)
  | store (error : StoreError)
deriving DecidableEq, Repr

inductive ScanError where
  | store (error : StoreError)
  | envelope (error : EnvelopeError)
  | codec (error : CodecError)
deriving DecidableEq, Repr

section

variable (platform : Platform) (key : EnvelopeKey) (account : AccountBindingAad)

/-- Draw random bytes while sealing. -/
def drawForSeal {α : Type} (x : Csprng α) : StateT Draws (Except SealError) α := fun draws =>
  (x draws).mapError .rng

/-- Seal one plaintext under a fresh record identifier and a fresh nonce. -/
def sealRecord (schemaVersion : SchemaVersion) (record : RecordType × Bytes) :
    StateT Draws (Except SealError) Envelope := do
  let recordId ← drawForSeal RandomId.generate
  let nonce ← drawForSeal generateNonce
  let aad : EnvelopeAad :=
    { keyId := key.id, accountBindingAad := account, recordType := record.1, recordId,
      schemaVersion }
  (Envelope.seal platform.aead key aad nonce record.2).mapError SealError.envelope

/-- Seal a batch of plaintexts, after reserving as many attempts.  The usage of the key is
advanced even when sealing fails. -/
def sealBatch (usage : KeyUsageState) (schemaVersion : SchemaVersion)
    (plaintexts : List (RecordType × Bytes)) (draws : Draws) :
    Except SealError (List Envelope) × KeyUsageState :=
  if 2 ^ 32 ≤ plaintexts.length then (.error .tooManyRecords, usage)
  else if plaintexts.length = 0 then (.ok [], usage)
  else
    match usage.reserveBatch (UInt32.ofNat plaintexts.length) with
    | .error error => (.error (.reservation error), usage)
    | .ok (usage, _) =>
        ((plaintexts.mapM (sealRecord platform key account schemaVersion)).run' draws, usage)

/-- Commit a sealed batch in one transaction. -/
def commitBatch (store : Store) (envelopes : List Envelope) (fails : Bool) :
    Except SealError Store :=
  (store.writeTransaction account envelopes fails).mapError .store

/-- Read every row of one type, authenticate, decrypt and decode it. -/
def scanRecords {α : Type} (store : Store) (recordType : RecordType)
    (decode : Bytes → Except CodecError α) (fails : Bool) : Except ScanError (List α) := do
  let all ← (store.readAll platform.engine account fails).mapError .store
  (all.filter fun e => e.aad.recordType = recordType).mapM fun envelope => do
    let plaintext ← (Envelope.open platform.aead key envelope).mapError .envelope
    (decode plaintext).mapError .codec

/-! ### The meaning of a store -/

/-- The envelope holds the plaintext, of the account and the type. -/
structure SealedAs (record : RecordType × Bytes) (envelope : Envelope) : Prop where
  recordType : envelope.aad.recordType = record.1
  account : envelope.aad.accountBindingAad = account
  opens : Envelope.open platform.aead key envelope = .ok record.2

/-- The store holds, for each record type, the plaintexts of the log. -/
def Logs (store : Store) (log : RecordType → List Bytes) : Prop :=
  ∃ contents, store.Holds account contents ∧ ∀ recordType,
    List.Forall₂ (fun envelope plaintext =>
      Envelope.open platform.aead key envelope = .ok plaintext)
      (contents recordType) (log recordType)

variable {platform key account}

/-- A record that is sealed holds its plaintext. -/
theorem sealRecord_eq_ok {schemaVersion : SchemaVersion} {record : RecordType × Bytes}
    {draws draws' : Draws} {envelope : Envelope}
    (h : (sealRecord platform key account schemaVersion record).run draws
      = .ok (envelope, draws')) :
  SealedAs platform key account record envelope
  := by
  obtain ⟨recordId, _, -, h⟩ := StateT.run_bind_eq_ok.mp h
  obtain ⟨nonce, _, -, h⟩ := StateT.run_bind_eq_ok.mp h
  obtain ⟨hseal, -⟩ := StateT.run_lift_eq_ok.mp h
  obtain ⟨haad, hopen⟩ := Envelope.open_seal (Except.mapError_eq_ok.mp hseal)
  constructor
  · rw [haad]
  · rw [haad]
  · apply hopen

/-- Every record of a sealed batch holds its plaintext. -/
theorem sealBatch_eq_ok {usage : KeyUsageState} {schemaVersion : SchemaVersion}
    {plaintexts : List (RecordType × Bytes)} {draws : Draws} {envelopes : List Envelope}
    (h : (sealBatch platform key account usage schemaVersion plaintexts draws).1
      = .ok envelopes) :
  List.Forall₂ (SealedAs platform key account) plaintexts envelopes
  := by
  rw [sealBatch] at h
  split_ifs at h with hmany hzero
  · cases h
    rw [List.eq_nil_of_length_eq_zero hzero]
    exact List.Forall₂.nil
  · split at h
    · cases h
    · obtain ⟨draws', hrun⟩ := StateT.run'_eq_ok.mp h
      apply (StateT.run_mapM_eq_ok hrun).imp
      rintro record envelope ⟨t, t', hrecord⟩
      apply sealRecord_eq_ok hrecord

/-- A new store holds the empty log. -/
theorem logs_open :
  Logs platform key account .open (fun _ => [])
  := by
  use fun _ => [], Store.holds_open account
  intro _
  apply List.Forall₂.nil

/-- A batch that is sealed and committed is added at the end of the log. -/
theorem Logs.commit {store store' : Store} {log : RecordType → List Bytes}
    {plaintexts : List (RecordType × Bytes)} {envelopes : List Envelope} {fails : Bool}
    (hlogs : Logs platform key account store log)
    (hsealed : List.Forall₂ (SealedAs platform key account) plaintexts envelopes)
    (h : commitBatch account store envelopes fails = .ok store') :
  Logs platform key account store' fun recordType =>
    log recordType ++ (plaintexts.filter (·.1 = recordType)).map (·.2)
  := by
  obtain ⟨contents, hholds, hopens⟩ := hlogs
  refine ⟨_, hholds.writeTransaction (Except.mapError_eq_ok.mp h), ?_⟩
  intro recordType
  apply List.rel_append (hopens recordType)
  clear h
  induction hsealed with
  | nil => exact List.Forall₂.nil
  | cons hrecord _ ih =>
      rename_i record envelope _ _ _
      by_cases htype : record.1 = recordType
      · have htype' : envelope.aad.recordType = recordType := by
          rw [hrecord.recordType, htype]
        simp only [List.filter_cons, htype', htype, decide_true, if_true, List.map_cons]
        exact List.Forall₂.cons hrecord.opens ih
      · have htype' : envelope.aad.recordType ≠ recordType := by
          rw [hrecord.recordType]
          apply htype
        simp only [List.filter_cons, htype', htype, decide_false, Bool.false_eq_true,
          if_false]
        apply ih

/-- Among all tables, the envelopes of one type are those of its table. -/
theorem filter_flatMap_ALL {order : RecordType → List Envelope}
    (htype : ∀ rt, ∀ e ∈ order rt, e.aad.recordType = rt) (recordType : RecordType) :
  (RecordType.ALL.flatMap order).filter (fun e => e.aad.recordType = recordType)
    = order recordType
  := by
  have hfilter : ∀ rt, (order rt).filter (fun e => e.aad.recordType = recordType)
      = if rt = recordType then order recordType else [] := by
    intro rt
    split
    · rename_i heq
      subst heq
      rw [List.filter_eq_self]
      intro e he
      simp [htype rt e he]
    · rw [List.filter_eq_nil_iff]
      intro e he
      simp [htype rt e he, *]
  rw [List.filter_flatMap]
  simp only [hfilter]
  cases recordType <;> simp [RecordType.ALL]

/-- A scan of the rows of one type that decode returns them all, in some order. -/
theorem Logs.scanRecords {α : Type} {store : Store} {log : RecordType → List Bytes}
    {recordType : RecordType} {decode : Bytes → Except CodecError α} {records : List α}
    (hlogs : Logs platform key account store log)
    (hdecode : List.Forall₂ (fun plaintext a => decode plaintext = .ok a)
      (log recordType) records) :
  ∃ scanned, scanned.Perm records
    ∧ scanRecords platform key account store recordType decode false = .ok scanned
  := by
  obtain ⟨contents, hholds, hopens⟩ := hlogs
  obtain ⟨order, hperm, hread⟩ := hholds.readAll platform.engine
  have htype : ∀ rt, ∀ e ∈ order rt, e.aad.recordType = rt :=
    fun rt e he => hholds.recordType rt e ((hperm rt).mem_iff.mp he)
  -- the rows of this type, each with the record it decodes to
  have hrows : List.Forall₂ (fun envelope a => ∃ plaintext,
      Envelope.open platform.aead key envelope = .ok plaintext ∧ decode plaintext = .ok a)
      (contents recordType) records := by
    apply Log.forall₂_comp (hopens recordType) hdecode
  obtain ⟨scanned, hscanned, hperm'⟩ :=
    List.perm_comp_forall₂ (hperm recordType) hrows
  use scanned, hperm'
  rw [Application.scanRecords, hread]
  apply Except.bind_eq_ok.mpr
  use RecordType.ALL.flatMap order, rfl
  rw [filter_flatMap_ALL htype, Except.mapM_eq_ok]
  apply hscanned.imp
  rintro envelope a ⟨plaintext, hplaintext, ha⟩
  apply Except.bind_eq_ok.mpr
  use plaintext, Except.mapError_eq_ok.mpr hplaintext, Except.mapError_eq_ok.mpr ha

/-- Whatever a scan of the rows of one type returns are the records they decode to. -/
theorem Logs.perm_of_scanRecords {α : Type} {store : Store} {log : RecordType → List Bytes}
    {recordType : RecordType} {decode : Bytes → Except CodecError α}
    {records scanned : List α} {fails : Bool}
    (hlogs : Logs platform key account store log)
    (hdecode : List.Forall₂ (fun plaintext a => decode plaintext = .ok a)
      (log recordType) records)
    (h : Application.scanRecords platform key account store recordType decode fails
      = .ok scanned) :
  scanned.Perm records
  := by
  cases fails with
  | true => cases h
  | false =>
      obtain ⟨scanned', hperm, hscan⟩ := hlogs.scanRecords hdecode
      rw [hscan] at h
      cases h
      apply hperm

end

/-! ### A platform to evaluate on -/

/-- The cipher that adds an empty tag and leaves the plaintext in the open. -/
def plainAead : Aead where
  encrypt _ _ _ msg := some (msg ++ List.replicate TAG_BYTES 0)
  decrypt _ _ _ combined :=
    if TAG_BYTES ≤ combined.length then some (combined.take (combined.length - TAG_BYTES))
    else none
  length_encrypt := by
    rintro _ _ _ msg _ ⟨⟩
    simp
  decrypt_encrypt := by
    rintro _ _ _ msg _ ⟨⟩
    simp

/-- The last thirty-two bytes of a message, which tell short frames apart. -/
def lastBytes (msg : Bytes) : Vector UInt8 32 :=
  Vector.ofFn fun i => msg.getD (msg.length - 32 + i) 0

/-- A platform whose engine keeps the order of insertion. -/
def plainPlatform : Platform where
  engine := ⟨id, fun rows => List.Perm.refl rows⟩
  aead := plainAead
  hmac _ msg := lastBytes msg

/-- An installation on the platform to evaluate on. -/
def sampleInstallation : Installation where
  platform := plainPlatform
  account := ⟨Vector.replicate 16 4, fours_ne_zeros⟩
  envelopeKey := ⟨⟨Vector.replicate 16 9, nines_ne_zeros⟩, Vector.replicate 32 1⟩
  digestKey := ⟨Vector.replicate 32 2⟩

end Application
