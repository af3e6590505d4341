import Mathlib.Data.List.Lex
import Mathlib.Data.List.Sort
import Mathlib.Data.Prod.Lex
import OpenLoops.Library.KeyOrder
import OpenLoops.Persistence.Digest
import OpenLoops.Persistence.Envelope

/-!
# The rollback anchor

The anchor commits to every row of an account: the rows are put into a canonical order,
framed together with the account and a generation, and the HMAC of the frame is kept
outside of the database.  Two row sets with the same message are the same up to order
(`message_inj`), so that rows that verify are the rows that were committed to, unless the
HMAC collides.
-/

namespace Persistence

/-! ### Generations and keys -/

/-- A nonzero number of 64 bits. -/
structure NonZeroU64 where
  get : UInt64
  nonzero : get ≠ 0
deriving DecidableEq

namespace NonZeroU64

theorem two_ne_zero :
  (2 : UInt64) ≠ 0
  := by decide

@[ext]
theorem ext {m n : NonZeroU64} (h : m.get = n.get) :
  m = n
  := by
  cases m
  cases n
  cases h
  rfl

/-- Build a nonzero number, or nothing from zero. -/
def new (value : UInt64) : Option NonZeroU64 :=
  if h : value = 0 then none else some ⟨value, h⟩

/-- A nonzero number is built from its value, and from no other. -/
theorem new_eq_some {value : UInt64} {n : NonZeroU64} :
  new value = some n ↔ value = n.get
  := by
  rw [new]
  constructor
  · intro h
    split_ifs at h
    cases h
    rfl
  · rintro rfl
    rw [dif_neg n.nonzero]

/-- A nonzero number is built from its value. -/
theorem new_get (n : NonZeroU64) :
  new n.get = some n
  := new_eq_some.mpr rfl

end NonZeroU64

/-- The key of the rollback anchor. -/
structure AnchorKey where
  bytes : Vector UInt8 32
deriving DecidableEq

/-- The anchor as it is kept: its key identifier, its generation and its commitment. -/
structure AnchorState where
  keyId : KeyId
  generation : NonZeroU64
  commitment : Vector UInt8 32
deriving DecidableEq

inductive AnchorError where
  | duplicateSortKey
  | tooManyRows
  | ciphertextTooLarge
deriving DecidableEq, Repr

inductive FreezeReason where
  | missing
  | commitmentMismatch
  | crossAccount
  | keyMismatch
  | corrupt
deriving DecidableEq, Repr

namespace Anchor

/-- The first generation of a new account binding. -/
def firstGeneration : NonZeroU64 :=
  ⟨1, by decide⟩

/-- The generation after `current`, unless the numbers are exhausted. -/
def nextGeneration (current : NonZeroU64) : Option NonZeroU64 :=
  if current.get.toNat + 1 < 2 ^ 64 then NonZeroU64.new (current.get + 1) else none

/-! ### The canonical order -/

/-- What rows are ordered by: the record type code, then the bytes of the record
identifier. -/
def sortKey (row : Envelope) : ℕ ×ₗ List ℕ :=
  toLex (row.aad.recordType.code.toNat,
    row.aad.recordId.bytes.toList.map UInt8.toNat)

/-- Whether two rows have the same record type and the same record identifier. -/
def sameSortKey (a b : Envelope) : Bool :=
  a.aad.recordType.code = b.aad.recordType.code && a.aad.recordId.bytes = b.aad.recordId.bytes

/-- Sort the rows, rejecting neighbours with the same sort key. -/
def canonicalOrder (rows : List Envelope) : Except AnchorError (List Envelope) :=
  let ordered := rows.insertionSort fun a b => sortKey a ≤ sortKey b
  if (ordered.zip ordered.tail).any (fun pair => sameSortKey pair.1 pair.2) then
    .error .duplicateSortKey
  else .ok ordered

/-- The comparison of neighbours compares their sort keys. -/
theorem sameSortKey_iff (a b : Envelope) :
  sameSortKey a b = true ↔ sortKey a = sortKey b
  := by
  rw [sameSortKey, Bool.and_eq_true, decide_eq_true_iff, decide_eq_true_iff, sortKey, sortKey,
    toLex_inj, Prod.mk.injEq, UInt16.toNat_inj]
  apply and_congr_right
  intro _
  constructor
  · intro h
    rw [h]
  · intro h
    apply Vector.toList_inj.mp
    apply List.map_injective_iff.mpr (fun x y => UInt8.toNat_inj.mp) h

/-- Rows are put into the order of their sort keys, unless two of them share one. -/
theorem canonicalOrder_eq (rows : List Envelope) :
  canonicalOrder rows =
    if (rows.map sortKey).Nodup then .ok (KeyOrder.sort sortKey rows)
    else .error .duplicateSortKey
  := by
  have hneighbours : ((KeyOrder.sort sortKey rows).zip (KeyOrder.sort sortKey rows).tail).any
      (fun pair => sameSortKey pair.1 pair.2) = true ↔ ¬ (rows.map sortKey).Nodup := by
    rw [← ((KeyOrder.sort_perm sortKey rows).map sortKey).nodup_iff,
      KeyOrder.nodup_iff_neighbours (KeyOrder.sortedLE_map_sort sortKey rows)]
    simp only [List.any_eq_true, sameSortKey_iff, ne_eq, not_forall, not_not, exists_prop]
  rw [canonicalOrder]
  by_cases hnodup : (rows.map sortKey).Nodup
  · rw [if_pos hnodup]
    apply if_neg
    rw [KeyOrder.sort] at hneighbours
    rw [hneighbours, not_not]
    apply hnodup
  · rw [if_neg hnodup]
    apply if_pos
    apply hneighbours.mpr hnodup

/-- Rows without a shared sort key, put into the order of their sort keys, are in strict
order. -/
theorem canonicalOrder_sortedLT {rows ordered : List Envelope}
    (h : canonicalOrder rows = .ok ordered) :
  (ordered.map sortKey).SortedLT
  := by
  rw [canonicalOrder_eq] at h
  split_ifs at h with hnodup
  cases h
  apply (KeyOrder.sortedLE_map_sort sortKey rows).sortedLT_of_nodup
  apply ((KeyOrder.sort_perm sortKey rows).map sortKey).nodup_iff.mpr hnodup

/-- The canonical order loses no row and adds none. -/
theorem canonicalOrder_perm {rows ordered : List Envelope}
    (h : canonicalOrder rows = .ok ordered) :
  ordered.Perm rows
  := by
  rw [canonicalOrder] at h
  split_ifs at h
  cases h
  apply List.perm_insertionSort

/-! ### The frame -/

/-- The fixed text that starts every frame. -/
def DOMAIN : Bytes :=
  Wire.ascii "openloops-state-anchor-v1"

/-- The bytes a row takes up in the frame. -/
def rowBytes (row : Envelope) : Bytes :=
  row.aad.recordId.bytes.toList
    ++ row.aad.accountBindingAad.bytes.toList
    ++ Wire.be 2 row.aad.recordType.code.toNat
    ++ Wire.be 4 row.aad.schemaVersion.get.toNat
    ++ Wire.be 4 CIPHERTEXT_VERSION.toNat
    ++ row.aad.keyId.bytes.toList
    ++ row.nonce.toList
    ++ row.tag.toList
    ++ Wire.be 4 row.ciphertext.length
    ++ row.ciphertext

/-- Frame a row, unless the length of its ciphertext does not fit. -/
def frameRow (row : Envelope) : Except AnchorError Bytes :=
  if row.ciphertext.length < 2 ^ 32 then .ok (rowBytes row) else .error .ciphertextTooLarge

/-- Frame rows that are already in their canonical order. -/
def frame (accountBindingAad : AccountBindingAad) (generation : NonZeroU64)
    (rows : List Envelope) : Except AnchorError Bytes :=
  if 2 ^ 32 ≤ rows.length then .error .tooManyRows
  else do
    let framed ← rows.mapM frameRow
    return DOMAIN
      ++ accountBindingAad.bytes.toList
      ++ Wire.be 8 generation.get.toNat
      ++ Wire.be 4 rows.length
      ++ framed.flatten

/-- A row in the frame determines the row and what follows it. -/
theorem prefixFreeOn_rowBytes :
  Wire.PrefixFreeOn {row : Envelope | row.ciphertext.length < 256 ^ 4} rowBytes
  := by
  intro a ha b hb r s h
  simp only [rowBytes, List.append_assoc] at h
  obtain ⟨hrecordId, h⟩ := List.append_inj h (by simp)
  obtain ⟨haccount, h⟩ := List.append_inj h (by simp)
  obtain ⟨htype, h⟩ := List.append_inj h (by simp)
  obtain ⟨hschema, h⟩ := List.append_inj h (by simp)
  obtain ⟨-, h⟩ := List.append_inj h (by simp)
  obtain ⟨hkeyId, h⟩ := List.append_inj h (by simp)
  obtain ⟨hnonce, h⟩ := List.append_inj h (by simp)
  obtain ⟨htag, h⟩ := List.append_inj h (by simp)
  -- the ciphertext is length-prefixed, so that what follows it is told apart
  rw [← List.append_assoc, ← List.append_assoc] at h
  obtain ⟨hciphertext, hrest⟩ := Wire.prefixFreeOn_lengthPrefixed 4 ha hb r s h
  constructor
  · obtain ⟨⟨keyId, account, recordType, recordId, schema⟩, nonce, tag, ciphertext⟩ := a
    obtain ⟨⟨keyId', account', recordType', recordId', schema'⟩, nonce', tag', ciphertext'⟩ := b
    have htype := Wire.be_inj recordType.code.toNat_lt recordType'.code.toNat_lt htype
    have hschema := Wire.be_inj schema.get.toNat_lt schema'.get.toNat_lt hschema
    congr
    · apply RandomId.ext (Vector.toList_inj.mp hkeyId)
    · apply RandomId.ext (Vector.toList_inj.mp haccount)
    · apply RecordType.code_injective (UInt16.toNat_inj.mp htype)
    · apply RandomId.ext (Vector.toList_inj.mp hrecordId)
    · apply SchemaVersion.ext (UInt32.toNat_inj.mp hschema)
    · apply Vector.toList_inj.mp hnonce
    · apply Vector.toList_inj.mp htag
  · exact hrest

/-- Framed rows all fit, and their frames follow one another. -/
theorem mapM_frameRow_eq_ok {rows : List Envelope} {framed : List Bytes}
    (h : rows.mapM frameRow = .ok framed) :
  (∀ row ∈ rows, row.ciphertext.length < 256 ^ 4) ∧ framed.flatten = rows.flatMap rowBytes
  := by
  apply Wire.mapM_encode (S := {row | row.ciphertext.length < 256 ^ 4}) _ (Except.mapM_eq_ok.mp h)
  intro row bytes hrow
  rw [frameRow] at hrow
  split_ifs at hrow with hlen
  cases hrow
  exact ⟨hlen, rfl⟩

/-- Rows in their canonical order are not rejected for a duplicate sort key. -/
theorem frame_ne_duplicateSortKey {account : AccountBindingAad} {generation : NonZeroU64}
    {rows : List Envelope} :
  frame account generation rows ≠ .error .duplicateSortKey
  := by
  intro h
  rw [frame] at h
  split_ifs at h with hcount
  · cases h
  rcases Except.bind_eq_error.mp h with h | ⟨_, -, h⟩
  · obtain ⟨row, -, hrow⟩ := Except.exists_of_mapM_eq_error h
    rw [frameRow] at hrow
    split_ifs at hrow with hlen
    cases hrow
  · cases h

/-- Equal frames of one account are frames of the same generation and rows. -/
theorem frame_inj {account : AccountBindingAad} {generation generation' : NonZeroU64}
    {rows rows' : List Envelope} {framed : Bytes}
    (h : frame account generation rows = .ok framed)
    (h' : frame account generation' rows' = .ok framed) :
  generation = generation' ∧ rows = rows'
  := by
  rw [frame] at h h'
  split_ifs at h h' with hcount hcount'
  obtain ⟨parts, hparts, h⟩ := Except.bind_eq_ok.mp h
  obtain ⟨parts', hparts', h'⟩ := Except.bind_eq_ok.mp h'
  obtain ⟨hfit, hflat⟩ := mapM_frameRow_eq_ok hparts
  obtain ⟨hfit', hflat'⟩ := mapM_frameRow_eq_ok hparts'
  have heq := (Except.ok.inj h).trans (Except.ok.inj h').symm
  rw [hflat, hflat'] at heq
  obtain ⟨hhead, hrows⟩ := List.append_inj heq (by simp)
  obtain ⟨hhead, hlength⟩ := List.append_inj' hhead (by simp)
  obtain ⟨-, hgeneration⟩ := List.append_inj' hhead (by simp)
  constructor
  · apply NonZeroU64.ext
    apply UInt64.toNat_inj.mp
    apply Wire.be_inj generation.get.toNat_lt generation'.get.toNat_lt hgeneration
  · have hlength := Wire.be_inj (by omega) (by omega) hlength
    have hfree := prefixFreeOn_rowBytes.flatMap (r := []) (s := []) hfit hfit' hlength
    rw [List.append_nil, List.append_nil] at hfree
    apply (hfree hrows).1

/-! ### The commitment -/

/-- The message the commitment to the rows is the HMAC of. -/
def message (accountBindingAad : AccountBindingAad) (generation : NonZeroU64)
    (rows : List Envelope) : Except AnchorError Bytes := do
  let ordered ← canonicalOrder rows
  frame accountBindingAad generation ordered

/-- The commitment to every row of the account. -/
def compute (hmac : Hmac) (key : AnchorKey) (accountBindingAad : AccountBindingAad)
    (generation : NonZeroU64) (rows : List Envelope) :
    Except AnchorError (Vector UInt8 32) := do
  let framed ← message accountBindingAad generation rows
  return hmac key.bytes framed

/-- Check the rows against the anchor. -/
def verify (hmac : Hmac) (key : AnchorKey) (stored : AnchorState)
    (accountBindingAad : AccountBindingAad) (rows : List Envelope) :
    Except FreezeReason Unit :=
  if rows.any (fun row => row.aad.accountBindingAad.bytes ≠ accountBindingAad.bytes) then
    .error .crossAccount
  else
    match message accountBindingAad stored.generation rows with
    | .error _ => .error .corrupt
    | .ok framed =>
        if hmac key.bytes framed = stored.commitment then .ok ()
        else .error .commitmentMismatch

/-- Equal messages of one account are messages of the same generation and, up to order, of
the same rows. -/
theorem message_inj {account : AccountBindingAad} {generation generation' : NonZeroU64}
    {rows rows' : List Envelope} {framed : Bytes}
    (h : message account generation rows = .ok framed)
    (h' : message account generation' rows' = .ok framed) :
  generation = generation' ∧ rows.Perm rows'
  := by
  obtain ⟨ordered, hordered, h⟩ := Except.bind_eq_ok.mp h
  obtain ⟨ordered', hordered', h'⟩ := Except.bind_eq_ok.mp h'
  obtain ⟨hgeneration, rfl⟩ := frame_inj h h'
  use hgeneration
  exact (canonicalOrder_perm hordered).symm.trans (canonicalOrder_perm hordered')

/-- Two lists of rows accepted for the same account and generation have the same message
exactly when one is a permutation of the other; and a list is rejected for a duplicate sort
key exactly when two of its rows share a sort key. -/
theorem message_eq_iff_perm (account : AccountBindingAad) (generation : NonZeroU64) :
  (∀ rows rows' framed framed', message account generation rows = .ok framed →
      message account generation rows' = .ok framed' →
      (framed = framed' ↔ rows.Perm rows'))
    ∧ ∀ rows, message account generation rows = .error .duplicateSortKey ↔
      ¬ (rows.map sortKey).Nodup
  := by
  constructor
  · intro rows rows' framed framed' h h'
    constructor
    · rintro rfl
      apply (message_inj h h').2
    · intro hperm
      obtain ⟨ordered, hordered, h⟩ := Except.bind_eq_ok.mp h
      obtain ⟨ordered', hordered', h'⟩ := Except.bind_eq_ok.mp h'
      have heq : ordered = ordered' := by
        apply KeyOrder.eq_of_perm _ (canonicalOrder_sortedLT hordered)
          (canonicalOrder_sortedLT hordered')
        exact (canonicalOrder_perm hordered).trans
          (hperm.trans (canonicalOrder_perm hordered').symm)
      rw [heq, h'] at h
      exact (Except.ok.inj h).symm
  · intro rows
    rw [message, canonicalOrder_eq]
    split_ifs with hnodup
    · constructor
      · intro h
        apply absurd h frame_ne_duplicateSortKey
      · intro h
        apply absurd hnodup h
    · constructor
      · intro _
        apply hnodup
      · intro _
        rfl

/-- An empty row of some account under a record type. -/
def sampleRow (recordType : RecordType) : Envelope where
  aad :=
    { keyId := ⟨Vector.replicate 16 1, ones_ne_zeros⟩
      accountBindingAad := ⟨Vector.replicate 16 2, twos_ne_zeros⟩
      recordType
      recordId := ⟨Vector.replicate 16 3, threes_ne_zeros⟩
      schemaVersion := ⟨1, firstSchema_ne_zero⟩ }
  nonce := Vector.replicate 12 0
  tag := Vector.replicate 16 0
  ciphertext := []

/-- The message of rows at the first generation of the account of the sample rows. -/
def sampleMessage (rows : List Envelope) : Except AnchorError Bytes :=
  message ⟨Vector.replicate 16 2, twos_ne_zeros⟩ firstGeneration rows

/-- Two rows have the same message in either order, and the same row twice has none. -/
theorem sampleRows_message :
  (∃ framed framed', sampleMessage [sampleRow .loop, sampleRow .transition] = .ok framed
      ∧ sampleMessage [sampleRow .transition, sampleRow .loop] = .ok framed'
      ∧ framed = framed')
    ∧ sampleMessage [sampleRow .loop, sampleRow .loop] = .error .duplicateSortKey
  := by
  obtain ⟨hperm, hduplicate⟩ :=
    message_eq_iff_perm ⟨Vector.replicate 16 2, by decide⟩ firstGeneration
  constructor
  · obtain ⟨framed, h⟩ :
        ∃ framed, sampleMessage [sampleRow .loop, sampleRow .transition] = .ok framed := by
      rw [sampleMessage, message, canonicalOrder_eq, if_pos (by decide)]
      exact ⟨_, rfl⟩
    obtain ⟨framed', h'⟩ :
        ∃ framed', sampleMessage [sampleRow .transition, sampleRow .loop] = .ok framed' := by
      rw [sampleMessage, message, canonicalOrder_eq, if_pos (by decide)]
      exact ⟨_, rfl⟩
    use framed, framed', h, h'
    apply (hperm _ _ _ _ h h').mpr
    apply List.Perm.swap
  · apply (hduplicate _).mpr
    decide

/-- The commitment is the HMAC of the message. -/
theorem compute_eq_ok {hmac : Hmac} {key : AnchorKey} {account : AccountBindingAad}
    {generation : NonZeroU64} {rows : List Envelope} {commitment : Vector UInt8 32}
    (h : compute hmac key account generation rows = .ok commitment) :
  ∃ framed, message account generation rows = .ok framed
    ∧ commitment = hmac key.bytes framed
  := by
  obtain ⟨framed, hframed, ⟨⟩⟩ := Except.bind_eq_ok.mp h
  use framed, hframed

/-- Rows verify when the commitment kept is the one that is computed from them. -/
theorem verify_eq_ok {hmac : Hmac} {key : AnchorKey} {stored : AnchorState}
    {account : AccountBindingAad} {rows : List Envelope}
    (h : verify hmac key stored account rows = .ok ()) :
  ∃ framed, message account stored.generation rows = .ok framed
    ∧ stored.commitment = hmac key.bytes framed
  := by
  rw [verify] at h
  split_ifs at h
  split at h
  · cases h
  · rename_i framed hframed
    split_ifs at h with hcommitment
    use framed, hframed, hcommitment.symm

/-- There is always a commitment to no row at all. -/
theorem compute_nil_ne_error {hmac : Hmac} {key : AnchorKey} {account : AccountBindingAad}
    {generation : NonZeroU64} {e : AnchorError} :
  compute hmac key account generation [] ≠ .error e
  := by
  intro h
  cases h

end Anchor

end Persistence
