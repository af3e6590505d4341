import Mathlib.Data.List.Perm.Basic
import OpenLoops.Persistence.Envelope

/-!
# The envelope store

One table for each record type, whose rows hold the columns of an envelope.  A write
transaction inserts all its envelopes or none; `readAll` reads every row of an account
back.  The database engine may return the rows of a table in any order.
-/

namespace Persistence

inductive StoreError where
  | writeFailed
  | readFailed
  | malformedRow
deriving DecidableEq, Repr

/-! ### Rows -/

/-- The columns of a stored envelope. -/
structure Row where
  recordId : Bytes
  accountBindingAad : Bytes
  schemaVersion : UInt32
  ciphertextVersion : UInt32
  keyId : Bytes
  nonce : Bytes
  tag : Bytes
  ciphertext : Bytes
deriving DecidableEq

/-- The columns an envelope is stored in. -/
def Envelope.toRow (envelope : Envelope) : Row where
  recordId := envelope.aad.recordId.bytes.toList
  accountBindingAad := envelope.aad.accountBindingAad.bytes.toList
  schemaVersion := envelope.aad.schemaVersion.get
  ciphertextVersion := CIPHERTEXT_VERSION
  keyId := envelope.aad.keyId.bytes.toList
  nonce := envelope.nonce.toList
  tag := envelope.tag.toList
  ciphertext := envelope.ciphertext

/-- A column that must hold exactly `n` bytes. -/
def toArray (n : ℕ) (bytes : Bytes) : Except StoreError (Vector UInt8 n) :=
  if h : bytes.length = n then .ok ⟨bytes.toArray, h⟩ else .error .malformedRow

/-- A column that must hold an identifier. -/
def toId (bytes : Bytes) : Except StoreError RandomId := do
  let array ← toArray 16 bytes
  (RandomId.fromRandomBytes array).mapError fun _ => .malformedRow

/-- The array a column was filled with is read back. -/
theorem toArray_toList {n : ℕ} (v : Vector UInt8 n) :
  toArray n v.toList = .ok v
  := by
  rw [toArray, dif_pos Vector.length_toList]
  congr 1

/-- The identifier a column was filled with is read back. -/
theorem toId_toList (id : RandomId) :
  toId id.bytes.toList = .ok id
  := by
  apply Except.bind_eq_ok.mpr
  use id.bytes, toArray_toList id.bytes
  rw [RandomId.fromRandomBytes_bytes]
  rfl

/-- Read an envelope back from its columns, in the table of `recordType`. -/
def Row.toEnvelope (recordType : RecordType) (row : Row) : Except StoreError Envelope :=
  if row.ciphertextVersion ≠ CIPHERTEXT_VERSION then .error .malformedRow
  else do
    let keyId ← toId row.keyId
    let accountBindingAad ← toId row.accountBindingAad
    let recordId ← toId row.recordId
    let schemaVersion ← (SchemaVersion.ofUInt32 row.schemaVersion).okOr .malformedRow
    let nonce ← toArray 12 row.nonce
    let tag ← toArray 16 row.tag
    return {
      aad := { keyId, accountBindingAad, recordType, recordId, schemaVersion }
      nonce, tag, ciphertext := row.ciphertext }

/-- A stored envelope is read back. -/
theorem Envelope.toEnvelope_toRow (envelope : Envelope) :
  envelope.toRow.toEnvelope envelope.aad.recordType = .ok envelope
  := by
  have hversion : envelope.toRow.ciphertextVersion = CIPHERTEXT_VERSION := rfl
  rw [Row.toEnvelope, if_neg (not_not.mpr hversion)]
  simp only [toRow, toId_toList, toArray_toList, SchemaVersion.ofUInt32_get, Option.okOr]
  rfl

/-! ### The database -/

/-- What is assumed of the engine: it returns the rows of a table, in some order. -/
structure SqlEngine where
  scan : List Row → List Row
  scan_perm : ∀ rows, (scan rows).Perm rows

/-- The rows of each table, in the order of their insertion. -/
structure Store where
  tables : RecordType → List Row

namespace Store

/-- The store as it is created: every table is empty. -/
def «open» : Store :=
  ⟨fun _ => []⟩

/-- Insert an envelope into the table of its record type, unless a row has its record
identifier, the primary key. -/
def insert (store : Store) (envelope : Envelope) : Except StoreError Store :=
  let recordType := envelope.aad.recordType
  if envelope.toRow.recordId ∈ (store.tables recordType).map (·.recordId) then
    .error .writeFailed
  else
    .ok ⟨Function.update store.tables recordType
      (store.tables recordType ++ [envelope.toRow])⟩

/-- Insert every envelope in one transaction.  `fails` says that the engine fails before or
at the commit; then, and on any error, the store stays as it was. -/
def writeTransaction (store : Store) (accountBindingAad : AccountBindingAad)
    (envelopes : List Envelope) (fails : Bool) : Except StoreError Store :=
  if envelopes.any (fun e => e.aad.accountBindingAad.bytes ≠ accountBindingAad.bytes) then
    .error .writeFailed
  else if fails then .error .writeFailed
  else envelopes.foldlM insert store

/-- Read every envelope of an account, table by table.  `fails` says that the engine
fails to answer. -/
def readAll (engine : SqlEngine) (store : Store) (accountBindingAad : AccountBindingAad)
    (fails : Bool) : Except StoreError (List Envelope) :=
  if fails then .error .readFailed
  else do
    let tables ← RecordType.ALL.mapM fun recordType =>
      ((engine.scan (store.tables recordType)).filter fun row =>
        row.accountBindingAad = accountBindingAad.bytes.toList).mapM
          (Row.toEnvelope recordType)
    return tables.flatten

/-! ### What the tables hold -/

/-- The tables hold exactly these envelopes, each of the account and in the table of its
type. -/
structure Holds (store : Store) (accountBindingAad : AccountBindingAad)
    (contents : RecordType → List Envelope) : Prop where
  tables : ∀ recordType, store.tables recordType = (contents recordType).map Envelope.toRow
  recordType : ∀ recordType, ∀ e ∈ contents recordType, e.aad.recordType = recordType
  account : ∀ recordType, ∀ e ∈ contents recordType,
    e.aad.accountBindingAad = accountBindingAad

/-- A new store holds nothing. -/
theorem holds_open (accountBindingAad : AccountBindingAad) :
  Holds «open» accountBindingAad (fun _ => [])
  := by
  constructor
  · intro _
    rfl
  · intro _ _ h
    cases h
  · intro _ _ h
    cases h

/-- An insertion adds its envelope at the end of the table of its type. -/
theorem insert_eq_ok {store store' : Store} {envelope : Envelope}
    (h : store.insert envelope = .ok store') (recordType : RecordType) :
  store'.tables recordType = store.tables recordType
    ++ ([envelope].filter (·.aad.recordType = recordType)).map Envelope.toRow
  := by
  rw [insert] at h
  split_ifs at h
  cases h
  by_cases hrt : recordType = envelope.aad.recordType
  · subst hrt
    simp
  · simp [Function.update_of_ne hrt, Ne.symm hrt]

/-- Insertions one after the other add their envelopes at the ends of the tables. -/
theorem foldlM_insert_eq_ok {envelopes : List Envelope} {store store' : Store}
    (h : envelopes.foldlM insert store = .ok store') (recordType : RecordType) :
  store'.tables recordType = store.tables recordType
    ++ (envelopes.filter (·.aad.recordType = recordType)).map Envelope.toRow
  := by
  induction envelopes generalizing store with
  | nil =>
      cases h
      simp
  | cons envelope envelopes ih =>
      rw [List.foldlM_cons] at h
      obtain ⟨next, hnext, h⟩ := Except.bind_eq_ok.mp h
      rw [ih h, insert_eq_ok hnext recordType, List.append_assoc, ← List.map_append,
        ← List.filter_append]
      rfl

/-- A transaction that succeeds adds its envelopes, all of the account, at the ends of the
tables. -/
theorem Holds.writeTransaction {store store' : Store} {accountBindingAad : AccountBindingAad}
    {contents : RecordType → List Envelope} {envelopes : List Envelope} {fails : Bool}
    (hholds : Holds store accountBindingAad contents)
    (h : store.writeTransaction accountBindingAad envelopes fails = .ok store') :
  Holds store' accountBindingAad
    (fun recordType => contents recordType
      ++ envelopes.filter (·.aad.recordType = recordType))
  := by
  rw [Store.writeTransaction] at h
  split_ifs at h with haccount hfails
  constructor
  · intro recordType
    rw [foldlM_insert_eq_ok h, hholds.tables, List.map_append]
  · intro recordType e he
    rcases List.mem_append.mp he with he | he
    · apply hholds.recordType recordType e he
    · apply of_decide_eq_true (List.mem_filter.mp he).2
  · intro recordType e he
    rcases List.mem_append.mp he with he | he
    · apply hholds.account recordType e he
    · apply RandomId.ext
      by_contra hne
      apply haccount
      apply List.any_eq_true.mpr
      use e, (List.mem_filter.mp he).1
      simp [hne]

/-- Without a failure of the engine every envelope is read back, table by table, each
table in some order. -/
theorem Holds.readAll {store : Store} {accountBindingAad : AccountBindingAad}
    {contents : RecordType → List Envelope}
    (hholds : Holds store accountBindingAad contents) (engine : SqlEngine) :
  ∃ order : RecordType → List Envelope, (∀ rt, (order rt).Perm (contents rt))
    ∧ store.readAll engine accountBindingAad false
      = .ok (RecordType.ALL.flatMap order)
  := by
  have hscan : ∀ rt, ∃ order : List Envelope, order.Perm (contents rt)
      ∧ engine.scan (store.tables rt) = order.map Envelope.toRow := by
    intro rt
    have hscan := engine.scan_perm (store.tables rt)
    rw [hholds.tables rt] at hscan ⊢
    obtain ⟨order, heq, hperm⟩ :=
      (congrFun₂ (List.eq_map_comp_perm Envelope.toRow) _ _).mpr hscan
    exact ⟨order, hperm, heq⟩
  choose order hperm hscan using hscan
  use order, hperm
  rw [Store.readAll, if_neg Bool.false_ne_true]
  have htables : RecordType.ALL.mapM (fun rt =>
      ((engine.scan (store.tables rt)).filter fun row =>
        row.accountBindingAad = accountBindingAad.bytes.toList).mapM (Row.toEnvelope rt))
      = .ok (RecordType.ALL.map order) := by
    rw [Except.mapM_eq_ok, List.forall₂_map_right_iff, List.forall₂_same]
    intro rt _
    have hall : ∀ e ∈ order rt, e.aad.accountBindingAad = accountBindingAad :=
      fun e he => hholds.account rt e ((hperm rt).mem_iff.mp he)
    have htype : ∀ e ∈ order rt, e.aad.recordType = rt :=
      fun e he => hholds.recordType rt e ((hperm rt).mem_iff.mp he)
    rw [hscan, List.filter_eq_self.mpr, Except.mapM_eq_ok, List.forall₂_map_left_iff,
      List.forall₂_same]
    · intro e he
      rw [← htype e he]
      apply e.toEnvelope_toRow
    · intro row hrow
      obtain ⟨e, he, rfl⟩ := List.mem_map.mp hrow
      simp [Envelope.toRow, hall e he]
  rw [htables]
  rfl

end Store

end Persistence
