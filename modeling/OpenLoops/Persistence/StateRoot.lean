import OpenLoops.Persistence.Anchor
import OpenLoops.Persistence.ProtectedFile
import OpenLoops.Persistence.Reservation

/-!
# The state root

The state root is a bundle of all keys of an account together with its rollback anchor,
the number of encryption attempts and the last observed time.  It is kept in a protected
file of its own, outside of the database: after the database has committed a transaction
the anchor is advanced over the committed rows, and at a start the rows are checked
against the anchor that is found in the file.
-/

namespace Persistence

/-! ### The bundle -/

/-- The greatest size of the file. -/
def MAXIMUM_BYTES : ℕ := 65536

/-- The size of an encoded bundle. -/
def WIRE_BYTES : ℕ := 194

def MAGIC : Bytes :=
  Wire.ascii "OLSTATE1"

def VERSION : ℕ := 1

/-- The keys of an account, under two different identifiers, and its anchor. -/
structure StateRootBundle where
  aeadKeyId : KeyId
  aeadKeyBytes : Vector UInt8 32
  aeadUsage : UInt64
  contentDigestKeyBytes : Vector UInt8 32
  anchorKeyId : KeyId
  anchorKeyBytes : Vector UInt8 32
  anchorGeneration : NonZeroU64
  anchorCommitment : Vector UInt8 32
  lastObservedUnixSeconds : UInt64
  distinct : aeadKeyId ≠ anchorKeyId
deriving DecidableEq

inductive StateRootError where
  | dpapi (error : DpapiError)
  | file (error : ProtectedFileError)
  | wrongLength
  | wrongMagic
  | unknownVersion
  | duplicateKeyId
  | invalidField
  | generationExhausted
  | reopenMismatch
  | reservation (error : ReservationError)
  | anchor (error : AnchorError)
deriving DecidableEq, Repr

namespace StateRootBundle

/-- Draw an identifier different from `other`, in at most `attempts` attempts. -/
def generateOther (other : RandomId) :
    (attempts : ℕ) → Csprng { id : RandomId // other ≠ id }
  | 0 => throw .csprngUnavailable
  | attempts + 1 => do
      let id ← RandomId.generate
      if h : other = id then generateOther other attempts else return ⟨id, h⟩

/-- More attempts than there are draws make no difference: `generateOther` then draws until
it succeeds or the generator fails. -/
theorem generateOther_succ (other : RandomId) {attempts : ℕ} {draws : Draws}
    (h : draws.length < attempts) :
  (generateOther other (attempts + 1)).run draws = (generateOther other attempts).run draws
  := by
  induction attempts generalizing draws with
  | zero => cases h
  | succ attempts ih =>
      rw [generateOther, StateT.run_bind]
      conv_rhs => rw [generateOther, StateT.run_bind]
      cases hgenerate : RandomId.generate.run draws with
      | error e => rfl
      | ok drawn =>
          obtain ⟨id, draws'⟩ := drawn
          have hless := RandomId.length_lt_of_generateWithin hgenerate
          show StateT.run (if h : other = id then _ else _) draws'
            = StateT.run (if h : other = id then _ else _) draws'
          split_ifs
          · apply ih
            omega
          · rfl

/-- A bundle of fresh keys, whose anchor commits to no row at all.  The draws that are left
bound the number of attempts at a second identifier. -/
def fresh (hmac : Hmac) (accountBindingAad : AccountBindingAad) : Csprng StateRootBundle := do
  let aeadKeyId ← RandomId.generate
  let aeadKeyBytes ← fill 32
  let contentDigestKeyBytes ← fill 32
  let ⟨anchorKeyId, distinct⟩ ← generateOther aeadKeyId ((← get).length + 1)
  let anchorKeyBytes ← fill 32
  let anchorGeneration := Anchor.firstGeneration
  match h : Anchor.compute hmac ⟨anchorKeyBytes⟩ accountBindingAad anchorGeneration [] with
  | .error _ => ((Anchor.compute_nil_ne_error h).elim : Csprng StateRootBundle)
  | .ok anchorCommitment =>
      return {
        aeadKeyId, aeadKeyBytes, aeadUsage := 0, contentDigestKeyBytes, anchorKeyId
        anchorKeyBytes, anchorGeneration, anchorCommitment, lastObservedUnixSeconds := 0
        distinct }

/-- The anchor of a fresh bundle is the first one, over no row. -/
theorem fresh_eq_ok {hmac : Hmac} {account : AccountBindingAad} {draws : Draws}
    {bundle : StateRootBundle} (h : (fresh hmac account).run' draws = .ok bundle) :
  bundle.anchorGeneration = Anchor.firstGeneration
    ∧ Anchor.compute hmac ⟨bundle.anchorKeyBytes⟩ account bundle.anchorGeneration []
      = .ok bundle.anchorCommitment
  := by
  obtain ⟨_, h⟩ := StateT.run'_eq_ok.mp h
  obtain ⟨aeadKeyId, _, _, h⟩ := StateT.run_bind_eq_ok.mp h
  obtain ⟨aeadKeyBytes, _, _, h⟩ := StateT.run_bind_eq_ok.mp h
  obtain ⟨contentDigestKeyBytes, _, _, h⟩ := StateT.run_bind_eq_ok.mp h
  obtain ⟨_, _, _, h⟩ := StateT.run_bind_eq_ok.mp h
  obtain ⟨⟨anchorKeyId, distinct⟩, _, _, h⟩ := StateT.run_bind_eq_ok.mp h
  obtain ⟨anchorKeyBytes, _, _, h⟩ := StateT.run_bind_eq_ok.mp h
  dsimp only at h
  split at h
  · rename_i hcompute
    exact (Anchor.compute_nil_ne_error hcompute).elim
  · rename_i hcompute
    cases h
    exact ⟨rfl, hcompute⟩

/-! ### The wire format -/

/-- The bytes of a bundle. -/
def encode (bundle : StateRootBundle) : Bytes :=
  MAGIC
    ++ Wire.be 2 VERSION
    ++ bundle.aeadKeyId.bytes.toList
    ++ bundle.aeadKeyBytes.toList
    ++ Wire.be 8 bundle.aeadUsage.toNat
    ++ bundle.contentDigestKeyBytes.toList
    ++ bundle.anchorKeyId.bytes.toList
    ++ bundle.anchorKeyBytes.toList
    ++ Wire.be 8 bundle.anchorGeneration.get.toNat
    ++ bundle.anchorCommitment.toList
    ++ Wire.be 8 bundle.lastObservedUnixSeconds.toNat

/-- A bundle always takes up 194 bytes. -/
theorem length_encode (bundle : StateRootBundle) :
  bundle.encode.length = WIRE_BYTES
  := by
  simp [encode, MAGIC, Wire.ascii, WIRE_BYTES]

/-- A cursor over the bytes of a bundle, whose number has been checked. -/
abbrev Reader (α : Type) := Wire.Reader StateRootError α

def readArray (n : ℕ) : Reader (Vector UInt8 n) :=
  Wire.readArray .wrongLength n

def readU64 : Reader UInt64 := do
  return UInt64.ofNat (← Wire.readBe .wrongLength 8)

/-- Read an identifier, which must not be all zero. -/
def readId : Reader KeyId := do
  let raw ← readArray 16
  liftM ((RandomId.fromRandomBytes raw).mapError fun _ => StateRootError.invalidField)

/-- Read a number, which must not be zero. -/
def readNonZeroU64 : Reader NonZeroU64 := do
  let raw ← readU64
  liftM ((NonZeroU64.new raw).okOr StateRootError.invalidField)

/-- Read the fields after the version. -/
def readFields : Reader StateRootBundle := do
  let aeadKeyId ← readId
  let aeadKeyBytes ← readArray 32
  let aeadUsage ← readU64
  let contentDigestKeyBytes ← readArray 32
  let anchorKeyId ← readId
  let anchorKeyBytes ← readArray 32
  let anchorGeneration ← readNonZeroU64
  let anchorCommitment ← readArray 32
  let lastObservedUnixSeconds ← readU64
  if distinct : aeadKeyId = anchorKeyId then throw .duplicateKeyId
  else
    return {
      aeadKeyId, aeadKeyBytes, aeadUsage, contentDigestKeyBytes, anchorKeyId, anchorKeyBytes
      anchorGeneration, anchorCommitment, lastObservedUnixSeconds, distinct }

/-- Read a bundle back, checking everything about it. -/
def decode (bytes : Bytes) : Except StateRootError StateRootBundle :=
  if bytes.length ≠ WIRE_BYTES then .error .wrongLength
  else if bytes.take 8 ≠ MAGIC then .error .wrongMagic
  else if Wire.ofBe ((bytes.drop 8).take 2) ≠ VERSION then .error .unknownVersion
  else readFields.run' (bytes.drop 10)

theorem reads_array {n : ℕ} (v : Vector UInt8 n) :
  Wire.Reads (readArray n) v.toList v
  := Wire.reads_readArray StateRootError.wrongLength v

theorem reads_u64 (value : UInt64) :
  Wire.Reads readU64 (Wire.be 8 value.toNat) value
  := by
  rw [readU64]
  apply (Wire.reads_readBe StateRootError.wrongLength value.toNat_lt).bind_last
  rw [UInt64.ofNat_toNat]
  apply Wire.Reads.pure

theorem reads_id (id : KeyId) :
  Wire.Reads readId id.bytes.toList id
  := by
  rw [readId]
  apply (reads_array id.bytes).bind_last
  apply Wire.Reads.lift
  apply Except.mapError_eq_ok.mpr (RandomId.fromRandomBytes_bytes id)

theorem reads_nonZeroU64 (n : NonZeroU64) :
  Wire.Reads readNonZeroU64 (Wire.be 8 n.get.toNat) n
  := by
  rw [readNonZeroU64]
  apply (reads_u64 n.get).bind_last
  apply Wire.Reads.lift
  apply Option.okOr_eq_ok.mpr n.new_get

/-- A bundle is read back from its bytes. -/
theorem decode_encode (bundle : StateRootBundle) :
  decode bundle.encode = .ok bundle
  := by
  have hfields : Wire.Reads readFields (bundle.encode.drop 10) bundle := by
    have hdrop : ∀ fields : Bytes,
        (MAGIC ++ (Wire.be 2 VERSION ++ fields)).drop 10 = fields := fun _ => rfl
    simp only [encode, List.append_assoc, hdrop, readFields]
    apply (reads_id bundle.aeadKeyId).bind
    apply (reads_array bundle.aeadKeyBytes).bind
    apply (reads_u64 bundle.aeadUsage).bind
    apply (reads_array bundle.contentDigestKeyBytes).bind
    apply (reads_id bundle.anchorKeyId).bind
    apply (reads_array bundle.anchorKeyBytes).bind
    apply (reads_nonZeroU64 bundle.anchorGeneration).bind
    apply (reads_array bundle.anchorCommitment).bind
    apply (reads_u64 bundle.lastObservedUnixSeconds).bind_last
    rw [dif_neg bundle.distinct]
    apply Wire.Reads.pure
  have hlen : ¬bundle.encode.length ≠ WIRE_BYTES := not_not.mpr bundle.length_encode
  have hmagic : ¬bundle.encode.take 8 ≠ MAGIC := by
    simp [encode, MAGIC, Wire.ascii]
  have hversion : ¬Wire.ofBe ((bundle.encode.drop 8).take 2) ≠ VERSION := by
    simp [encode, MAGIC, Wire.ascii, VERSION, Wire.be, Wire.ofBe]
  rw [decode, if_neg hlen, if_neg hmagic, if_neg hversion]
  apply StateT.run'_eq_ok.mpr
  use []
  have hrun := hfields []
  rw [List.append_nil] at hrun
  apply hrun

end StateRootBundle

/-! ### The protected file of the bundle -/

inductive FreezeCause where
  | missing
  | clockReversed
  | anchor (reason : FreezeReason)
deriving DecidableEq, Repr

section

variable (hmac : Hmac) (dpapi : Dpapi) (access : Access) (target : Option Bytes)
variable (account : AccountBindingAad)

/-- Protect a bundle and replace the file by it. -/
def protectAndWrite (bundle : StateRootBundle) :
    Except StateRootError Unit × Option Bytes :=
  match protectBounded dpapi access bundle.encode MAXIMUM_BYTES with
  | .error e => (.error (.dpapi e), target)
  | .ok blob =>
      match writeAtomic access target blob with
      | (.error e, target) => (.error (.file e), target)
      | (.ok (), target) => (.ok (), target)

/-- Read the bundle in the file; nothing when there is no file. -/
def readAndUnprotect : Except StateRootError (Option StateRootBundle) :=
  match readBounded access target MAXIMUM_BYTES with
  | .error e => .error (.file e)
  | .ok none => .ok none
  | .ok (some blob) => do
      let plaintext ← (unprotectBounded dpapi access blob MAXIMUM_BYTES).mapError .dpapi
      let bundle ← StateRootBundle.decode plaintext
      return some bundle

/-- Check the rows against the anchor in the file: the bundle is accepted, or the start is
frozen for a cause. -/
def startupReconcile (rows : List Envelope) (nowUnixSeconds : UInt64) :
    Except StateRootError (Except FreezeCause StateRootBundle) :=
  match readAndUnprotect dpapi access target with
  | .error e => .error e
  | .ok none => .ok (.error .missing)
  | .ok (some bundle) =>
      if nowUnixSeconds < bundle.lastObservedUnixSeconds then .ok (.error .clockReversed)
      else
        let stored := ⟨bundle.anchorKeyId, bundle.anchorGeneration, bundle.anchorCommitment⟩
        match Anchor.verify hmac ⟨bundle.anchorKeyBytes⟩ stored account rows with
        | .ok () => .ok (.ok bundle)
        | .error reason => .ok (.error (.anchor reason))

/-- The bundle of the next generation, which commits to the rows. -/
def StateRootBundle.advanced (bundle : StateRootBundle) (rowsAfterCommit : List Envelope)
    (nowUnixSeconds : UInt64) : Except StateRootError StateRootBundle := do
  let generation ←
    (Anchor.nextGeneration bundle.anchorGeneration).okOr StateRootError.generationExhausted
  let commitment ← (Anchor.compute hmac ⟨bundle.anchorKeyBytes⟩ account generation
    rowsAfterCommit).mapError StateRootError.anchor
  return { bundle with
    anchorGeneration := generation
    anchorCommitment := commitment
    lastObservedUnixSeconds := nowUnixSeconds }

/-- Advance the anchor over the rows that were read after a commit: replace the file by the
bundle of the next generation, then read it back and compare. -/
def advanceAfterCommit (bundle : StateRootBundle) (rowsAfterCommit : List Envelope)
    (nowUnixSeconds : UInt64) : Except StateRootError StateRootBundle × Option Bytes :=
  match bundle.advanced hmac account rowsAfterCommit nowUnixSeconds with
  | .error e => (.error e, target)
  | .ok bundle =>
      match protectAndWrite dpapi access target bundle with
      | (.error e, target) => (.error e, target)
      | (.ok (), target) =>
          match readAndUnprotect dpapi access target with
          | .error e => (.error e, target)
          | .ok none => (.error .reopenMismatch, target)
          | .ok (some reopened) =>
              if reopened.anchorGeneration ≠ bundle.anchorGeneration
                  ∨ reopened.anchorCommitment ≠ bundle.anchorCommitment then
                (.error .reopenMismatch, target)
              else (.ok reopened, target)

/-- Whether advancing the anchor replaces the file. -/
def advanceReplaces (bundle : StateRootBundle) (rowsAfterCommit : List Envelope)
    (nowUnixSeconds : UInt64) : Bool :=
  match bundle.advanced hmac account rowsAfterCommit nowUnixSeconds with
  | .error _ => false
  | .ok bundle => (protectAndWrite dpapi access target bundle).1.isOk

/-- Reserve the encryption attempts of a batch, in the file before they are used. -/
def reserveAeadBatch (bundle : StateRootBundle) (count : UInt32) :
    Except StateRootError (StateRootBundle × ReservationBatch) × Option Bytes :=
  match KeyUsageState.reserveBatch ⟨bundle.aeadKeyId, bundle.aeadUsage⟩ count with
  | .error e => (.error (.reservation e), target)
  | .ok (usage, batch) =>
      let bundle := { bundle with aeadUsage := usage.used }
      match protectAndWrite dpapi access target bundle with
      | (.error e, target) => (.error e, target)
      | (.ok (), target) => (.ok (bundle, batch), target)

/-! ### What the operations do to the file -/

variable {hmac dpapi access target account}

/-- A file is left as it was, or holds the bundle that was written. -/
theorem protectAndWrite_cases {bundle : StateRootBundle}
    {result : Except StateRootError Unit} {target' : Option Bytes}
    (h : protectAndWrite dpapi access target bundle = (result, target')) :
  (∃ e, result = .error e ∧ target' = target)
    ∨ (result = .ok () ∧ target' = some (dpapi.protect access.seed bundle.encode))
  := by
  rw [protectAndWrite] at h
  split at h
  · left
    cases h
    exact ⟨_, rfl, rfl⟩
  · rename_i blob hblob
    rw [writeAtomic] at h
    split at h
    · rename_i hwrite
      left
      split at hwrite
      · cases hwrite
        cases h
        exact ⟨_, rfl, rfl⟩
      · cases hwrite
    · rename_i hwrite
      right
      split at hwrite
      · cases hwrite
      · cases hwrite
        cases h
        rw [protectBounded_eq_ok dpapi access hblob]
        exact ⟨rfl, rfl⟩

/-- The bundle in a file is read back, unless the system fails. -/
theorem readAndUnprotect_encode (bundle : StateRootBundle) (seed : ℕ) :
  readAndUnprotect dpapi access (some (dpapi.protect seed bundle.encode)) =
    if access.reopenFault then .error (.file .reopenFailed)
    else
      match access.unprotectFault with
      | some e => .error (.dpapi (.os e))
      | none => .ok (some bundle)
  := by
  have hlen : bundle.encode.length + GENEROUS_PROTECTED_BOUND ≤ MAXIMUM_BYTES := by
    rw [bundle.length_encode]
    decide
  have hblob := (dpapi.length_protect seed bundle.encode).2
  rw [readAndUnprotect, readBounded_some access (by omega)]
  split_ifs with hreopen
  · rfl
  · dsimp only
    rw [unprotectBounded_protect dpapi access hlen]
    cases access.unprotectFault with
    | some e => rfl
    | none =>
        dsimp only [Except.mapError]
        apply Except.bind_eq_ok.mpr
        use bundle.encode, rfl
        apply Except.bind_eq_ok.mpr
        use bundle, bundle.decode_encode
        rfl

/-- The advanced bundle differs in its generation, its commitment to the rows and its
time. -/
theorem StateRootBundle.advanced_eq_ok {bundle next : StateRootBundle} {rows : List Envelope}
    {now : UInt64} (h : bundle.advanced hmac account rows now = .ok next) :
  ∃ generation framed, Anchor.nextGeneration bundle.anchorGeneration = some generation
    ∧ Anchor.message account generation rows = .ok framed
    ∧ next = { bundle with
        anchorGeneration := generation
        anchorCommitment := hmac bundle.anchorKeyBytes framed
        lastObservedUnixSeconds := now }
  := by
  obtain ⟨generation, hgeneration, h⟩ := Except.bind_eq_ok.mp h
  obtain ⟨commitment, hcommitment, ⟨⟩⟩ := Except.bind_eq_ok.mp h
  obtain ⟨framed, hframed, rfl⟩ := Anchor.compute_eq_ok (Except.mapError_eq_ok.mp hcommitment)
  use generation, framed, Option.okOr_eq_ok.mp hgeneration, hframed

/-- An advance that does not replace the file fails and leaves it as it was; one that does
leaves the advanced bundle in it, and returns no other. -/
theorem advanceAfterCommit_cases {bundle : StateRootBundle} {rows : List Envelope}
    {now : UInt64} {result : Except StateRootError StateRootBundle} {target' : Option Bytes}
    (h : advanceAfterCommit hmac dpapi access target account bundle rows now
      = (result, target')) :
  (advanceReplaces hmac dpapi access target account bundle rows now = false
      ∧ (∃ e, result = .error e) ∧ target' = target)
    ∨ (advanceReplaces hmac dpapi access target account bundle rows now = true
      ∧ ∃ next, bundle.advanced hmac account rows now = .ok next
        ∧ target' = some (dpapi.protect access.seed next.encode)
        ∧ ∀ returned, result = .ok returned → returned = next)
  := by
  rw [advanceAfterCommit] at h
  rw [advanceReplaces]
  split at h
  · cases h
    left
    exact ⟨rfl, ⟨_, rfl⟩, rfl⟩
  · rename_i next hadvanced
    cases hwrite : protectAndWrite dpapi access target next with
    | mk written target₁ =>
        rw [hwrite] at h
        rcases protectAndWrite_cases hwrite with ⟨e, rfl, rfl⟩ | ⟨rfl, rfl⟩
        · cases h
          left
          exact ⟨rfl, ⟨e, rfl⟩, rfl⟩
        · right
          dsimp only at h
          rw [readAndUnprotect_encode] at h
          split_ifs at h
          · cases h
            exact ⟨rfl, next, hadvanced, rfl, fun _ h => nomatch h⟩
          · cases hunprotect : access.unprotectFault with
            | some e =>
                rw [hunprotect] at h
                cases h
                exact ⟨rfl, next, hadvanced, rfl, fun _ h => nomatch h⟩
            | none =>
                rw [hunprotect] at h
                dsimp only at h
                rw [if_neg (by simp)] at h
                cases h
                exact ⟨rfl, next, hadvanced, rfl, fun _ h => (Except.ok.inj h).symm⟩

/-- A reservation fails and leaves the file as it was, or leaves the bundle with the new
usage in it and returns it. -/
theorem reserveAeadBatch_cases {bundle : StateRootBundle} {count : UInt32}
    {result : Except StateRootError (StateRootBundle × ReservationBatch)}
    {target' : Option Bytes}
    (h : reserveAeadBatch dpapi access target bundle count = (result, target')) :
  ((∃ e, result = .error e) ∧ target' = target)
    ∨ ∃ usage batch,
      KeyUsageState.reserveBatch ⟨bundle.aeadKeyId, bundle.aeadUsage⟩ count
        = .ok (usage, batch)
      ∧ result = .ok ({ bundle with aeadUsage := usage.used }, batch)
      ∧ target' = some (dpapi.protect access.seed
          { bundle with aeadUsage := usage.used }.encode)
  := by
  rw [reserveAeadBatch] at h
  split at h
  · cases h
    left
    exact ⟨⟨_, rfl⟩, rfl⟩
  · rename_i usage batch hbatch
    dsimp only at h
    cases hwrite : protectAndWrite dpapi access target
        { bundle with aeadUsage := usage.used } with
    | mk written target₁ =>
        rw [hwrite] at h
        rcases protectAndWrite_cases hwrite with ⟨e, rfl, rfl⟩ | ⟨rfl, rfl⟩
        · cases h
          left
          exact ⟨⟨e, rfl⟩, rfl⟩
        · cases h
          right
          exact ⟨usage, batch, hbatch, rfl, rfl⟩

/-- A bundle is written exactly when the system does not fail. -/
theorem protectAndWrite_eq_ok {bundle : StateRootBundle} {target' : Option Bytes} :
  protectAndWrite dpapi access target bundle = (.ok (), target')
    ↔ access.protectFault = none ∧ access.writeFault = none
      ∧ target' = some (dpapi.protect access.seed bundle.encode)
  := by
  have hlen : ¬(bundle.encode = [] ∨ MAXIMUM_BYTES < bundle.encode.length) := by
    rw [← List.length_eq_zero_iff, bundle.length_encode]
    decide
  rw [protectAndWrite, protectBounded, if_neg hlen]
  cases access.protectFault with
  | some e => simp
  | none =>
      dsimp only
      rw [writeAtomic]
      cases access.writeFault with
      | some e => simp
      | none => simp [eq_comm]

/-- A batch is reserved exactly when it is not refused and the system does not fail; the bundle
with the new usage is then in the file. -/
theorem reserveAeadBatch_eq_ok {bundle next : StateRootBundle} {count : UInt32}
    {batch : ReservationBatch} {target' : Option Bytes} :
  reserveAeadBatch dpapi access target bundle count = (.ok (next, batch), target')
    ↔ ∃ usage, KeyUsageState.reserveBatch ⟨bundle.aeadKeyId, bundle.aeadUsage⟩ count
        = .ok (usage, batch)
      ∧ access.protectFault = none ∧ access.writeFault = none
      ∧ next = { bundle with aeadUsage := usage.used }
      ∧ target' = some (dpapi.protect access.seed next.encode)
  := by
  rw [reserveAeadBatch]
  constructor
  · intro h
    split at h
    · cases h
    · rename_i usage _ hbatch
      dsimp only at h
      split at h
      · cases h
      · rename_i hwritten
        cases h
        obtain ⟨hprotect, hwrite, rfl⟩ := protectAndWrite_eq_ok.mp hwritten
        exact ⟨usage, hbatch, hprotect, hwrite, rfl, rfl⟩
  · rintro ⟨usage, hbatch, hprotect, hwrite, rfl, rfl⟩
    rw [hbatch]
    dsimp only
    rw [protectAndWrite_eq_ok.mpr ⟨hprotect, hwrite, rfl⟩]

/-- A start accepts no other bundle than the one it read from the file, and only with rows
that verify against its anchor. -/
theorem startupReconcile_accepted {accepted : StateRootBundle} {rows : List Envelope}
    {now : UInt64}
    (h : startupReconcile hmac dpapi access target account rows now = .ok (.ok accepted)) :
  readAndUnprotect dpapi access target = .ok (some accepted)
    ∧ Anchor.verify hmac ⟨accepted.anchorKeyBytes⟩
      ⟨accepted.anchorKeyId, accepted.anchorGeneration, accepted.anchorCommitment⟩ account rows
      = .ok ()
  := by
  rw [startupReconcile] at h
  split at h
  · cases h
  · cases h
  · rename_i bundle hread
    split_ifs at h
    · cases h
    · dsimp only at h
      split at h
      · rename_i hverify
        cases h
        exact ⟨hread, hverify⟩
      · cases h

variable (dpapi target) in
/-- The bundle that is read from a file when the system does not fail. -/
def bundleIn : Option StateRootBundle :=
  match readAndUnprotect dpapi (Access.sound 0) target with
  | .ok found => found
  | .error _ => none

/-- The bundle that was written is the one in the file. -/
theorem bundleIn_protect (bundle : StateRootBundle) (seed : ℕ) :
  bundleIn dpapi (some (dpapi.protect seed bundle.encode)) = some bundle
  := by
  rw [bundleIn, readAndUnprotect_encode]
  rfl

/-- Whatever bundle is read is the one in the file. -/
theorem eq_of_readAndUnprotect {bundle returned : StateRootBundle} {seed : ℕ}
    (h : readAndUnprotect dpapi access (some (dpapi.protect seed bundle.encode))
      = .ok (some returned)) :
  returned = bundle
  := by
  rw [readAndUnprotect_encode] at h
  split_ifs at h
  split at h
  · cases h
  · cases h
    rfl

/-- A start decides whenever the file can be read. -/
theorem startupReconcile_decides (haccess : access.Readable) (bundle : StateRootBundle)
    (seed : ℕ) (rows : List Envelope) (now : UInt64) :
  ∃ outcome, startupReconcile hmac dpapi access (some (dpapi.protect seed bundle.encode))
    account rows now = .ok outcome
  := by
  obtain ⟨hreopen, hunprotect⟩ := haccess
  rw [startupReconcile, readAndUnprotect_encode, hreopen, hunprotect, if_neg Bool.false_ne_true]
  dsimp only
  split_ifs
  · exact ⟨_, rfl⟩
  · split
    · exact ⟨_, rfl⟩
    · exact ⟨_, rfl⟩

end

end Persistence
