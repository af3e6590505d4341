import OpenLoops.Persistence.Ids

/-!
# Reservations of encryption attempts

Before a batch of records is encrypted, its attempts are reserved under the key; a
reservation is never given back.
-/

namespace Persistence

/-- A key that has reserved this many attempts must rotate. -/
def APPLICATION_ROTATION_LIMIT : ℕ := 2 ^ 30

/-- No key ever reserves more attempts than this. -/
def PER_KEY_INVOCATION_HARD_LIMIT : ℕ := 2 ^ 32

/-- The number of attempts ever reserved under a key. -/
structure KeyUsageState where
  keyId : KeyId
  used : UInt64
deriving DecidableEq

/-- The attempts reserved for one batch of records. -/
structure ReservationBatch where
  keyId : KeyId
  firstAttempt : UInt64
  count : UInt32
deriving DecidableEq

/-- The attempt reserved for record `i` of the batch; the call panics when there is no such
record, or when the number overflows. -/
def ReservationBatch.attemptIndex (batch : ReservationBatch) (i : UInt32) :
    Except (Failure Empty) UInt64 :=
  if i < batch.count ∧ batch.firstAttempt.toNat + i.toNat < 2 ^ 64 then
    .ok (batch.firstAttempt + i.toUInt64)
  else .error .panicked

inductive ReservationError where
  | zeroCount
  | hardLimitExceeded
  | rotationRequired
deriving DecidableEq, Repr

/-- The number of attempts used after reserving `count` more. -/
def checkedReserve (used : UInt64) (count : UInt32) : Except ReservationError UInt64 :=
  let newTotal := used.toNat + count.toNat
  if count = 0 then .error .zeroCount
  -- the sum does not fit in 64 bits
  else if 2 ^ 64 ≤ newTotal then .error .hardLimitExceeded
  else if PER_KEY_INVOCATION_HARD_LIMIT < newTotal then .error .hardLimitExceeded
  else .ok (UInt64.ofNat newTotal)

namespace KeyUsageState

/-- Whether the key must rotate before it reserves more. -/
def needsRotation (usage : KeyUsageState) : Bool :=
  APPLICATION_ROTATION_LIMIT ≤ usage.used.toNat

/-- Reserve the attempts of a batch, returning the new usage with it. -/
def reserveBatch (usage : KeyUsageState) (count : UInt32) :
    Except ReservationError (KeyUsageState × ReservationBatch) :=
  if usage.needsRotation then .error .rotationRequired
  else do
    let newTotal ← checkedReserve usage.used count
    return ({ usage with used := newTotal }, ⟨usage.keyId, usage.used, count⟩)

/-- A batch is reserved exactly when the key need not rotate, the batch is not empty and the
limit is not exceeded; its attempts are those that follow the attempts used. -/
theorem reserveBatch_eq_ok {usage next : KeyUsageState} {count : UInt32}
    {batch : ReservationBatch} :
  usage.reserveBatch count = .ok (next, batch)
    ↔ usage.used.toNat < APPLICATION_ROTATION_LIMIT ∧ count ≠ 0
      ∧ usage.used.toNat + count.toNat ≤ PER_KEY_INVOCATION_HARD_LIMIT
      ∧ next = { usage with used := UInt64.ofNat (usage.used.toNat + count.toNat) }
      ∧ batch = ⟨usage.keyId, usage.used, count⟩
  := by
  have hneeds : usage.needsRotation = true ↔ ¬usage.used.toNat < APPLICATION_ROTATION_LIMIT := by
    rw [needsRotation, decide_eq_true_iff, Nat.not_lt]
  have hlimit : PER_KEY_INVOCATION_HARD_LIMIT < 2 ^ 64 := by decide
  rw [reserveBatch]
  split_ifs with hrotate
  · constructor
    · intro h
      cases h
    · rintro ⟨hused, -⟩
      exact (hneeds.mp hrotate hused).elim
  · rw [hneeds, not_not] at hrotate
    rw [Except.bind_eq_ok]
    constructor
    · rintro ⟨newTotal, htotal, h⟩
      cases h
      rw [checkedReserve] at htotal
      split_ifs at htotal with hzero hsum hexceeded
      cases htotal
      exact ⟨hrotate, hzero, Nat.not_lt.mp hexceeded, rfl, rfl⟩
    · rintro ⟨-, hzero, hsum, rfl, rfl⟩
      use UInt64.ofNat (usage.used.toNat + count.toNat)
      constructor
      · rw [checkedReserve, if_neg hzero, if_neg (by omega), if_neg (by omega)]
      · rfl

/-- The attempts used after a batch was reserved are those used before and those of the batch. -/
theorem used_of_reserveBatch {usage next : KeyUsageState} {count : UInt32}
    {batch : ReservationBatch} (h : usage.reserveBatch count = .ok (next, batch)) :
  next.used.toNat = usage.used.toNat + count.toNat
  := by
  obtain ⟨-, -, hsum, rfl, -⟩ := reserveBatch_eq_ok.mp h
  have hlimit : PER_KEY_INVOCATION_HARD_LIMIT < 2 ^ 64 := by decide
  apply UInt64.toNat_ofNat_of_lt' (lt_of_le_of_lt hsum hlimit)

end KeyUsageState

/-- Draw a fresh nonce. -/
def generateNonce : Csprng (Vector UInt8 12) :=
  fill 12

end Persistence
