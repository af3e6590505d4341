import OpenLoops.Library.Wire

/-!
# Cursors

A cursor reads a byte string by index, from a position that it moves on; an index out of
range is a panic.  A cursor follows a reader when it computes, on the bytes not yet read,
what the reader does, and so never panics: either from wherever it starts, because it checks
for itself that there are bytes enough (`Follows`), or from where there are as many bytes as
it reads (`FollowsFor`).
-/

namespace Wire

section

variable {ε : Type*} {α β : Type}

/-! ### Indexing -/

/-- The bytes from position `i` up to position `j`. -/
def slice (bytes : Bytes) (i j : ℕ) : Except (Failure ε) Bytes :=
  if i ≤ j ∧ j ≤ bytes.length then .ok ((bytes.drop i).take (j - i)) else .error .panicked

/-- The array of exactly `n` bytes. -/
def exactly (n : ℕ) (bytes : Bytes) : Except (Failure ε) (Vector UInt8 n) :=
  if h : bytes.length = n then .ok ⟨bytes.toArray, h⟩ else .error .panicked

/-- The bytes at a position are there when the string is long enough. -/
theorem slice_add {bytes : Bytes} {i n : ℕ} (h : i + n ≤ bytes.length) :
  (slice bytes i (i + n) : Except (Failure ε) Bytes) = .ok ((bytes.drop i).take n)
  := by
  rw [slice, if_pos ⟨Nat.le_add_right i n, h⟩, Nat.add_sub_cancel_left]

/-- A reader reads as an array the bytes in front. -/
theorem readArray_of_le (e : ε) {n : ℕ} {bytes : Bytes} (h : n ≤ bytes.length) :
  ∃ v, (readArray e n).run bytes = .ok (v, bytes.drop n)
    ∧ (exactly n (bytes.take n) : Except (Failure ε) (Vector UInt8 n)) = .ok v
  := by
  refine ⟨_, dif_pos h, ?_⟩
  rw [exactly, dif_pos (List.length_take_of_le h)]

/-- A number is read off the array of its bytes. -/
theorem readBe_eq (e : ε) (w : ℕ) :
  readBe e w = do return ofBe (← readArray e w).toList
  := by
  funext bytes
  by_cases h : w ≤ bytes.length
  · have htake : (take e w).run bytes = .ok (bytes.take w, bytes.drop w) := if_pos h
    have harray : (readArray e w).run bytes
        = .ok (⟨(bytes.take w).toArray, by simp [h]⟩, bytes.drop w) := dif_pos h
    show (readBe e w).run bytes = StateT.run _ bytes
    rw [readBe, StateT.run_bind, StateT.run_bind, htake, harray]
    rfl
  · have htake : (take e w).run bytes = .error e := if_neg h
    have harray : (readArray e w).run bytes = .error e := dif_neg h
    show (readBe e w).run bytes = StateT.run _ bytes
    rw [readBe, StateT.run_bind, StateT.run_bind, htake, harray]
    rfl

/-! ### Cursors -/

/-- A cursor over a byte string: it has the whole string and the position it is at. -/
abbrev Cursor (ε : Type*) (α : Type) :=
  ReaderT Bytes (StateT ℕ (Except (Failure ε))) α

namespace Cursor

/-- Run a cursor from a position. -/
def runAt (c : Cursor ε α) (bytes : Bytes) (i : ℕ) : Except (Failure ε) (α × ℕ) :=
  (c.run bytes).run i

/-- A cursor that computes without reading. -/
def ofExcept (x : Except ε α) : Cursor ε α :=
  fun _ => liftM (x.mapError Failure.error)

/-- The next `n` bytes, whose number has been checked. -/
def next (n : ℕ) : Cursor ε (Vector UInt8 n) := fun bytes i => do
  let taken ← slice bytes i (i + n)
  let v ← exactly n taken
  return (v, i + n)

/-- The big-endian number in the next `w` bytes, whose number has been checked. -/
def nextBe (w : ℕ) : Cursor ε ℕ := do
  return ofBe (← next w).toList

/-- The next `n` bytes, failing with `e` when there are fewer. -/
def nextOr (e : ε) (n : ℕ) : Cursor ε Bytes := fun bytes i =>
  if bytes.length < i + n then .error (.error e)
  else do
    let taken ← slice bytes i (i + n)
    return (taken, i + n)

/-- The next `n` bytes as an array, failing with `e` when there are fewer. -/
def nextArrayOr (e : ε) (n : ℕ) : Cursor ε (Vector UInt8 n) := do
  let taken ← nextOr e n
  liftM (exactly n taken : Except (Failure ε) (Vector UInt8 n))

/-- The big-endian number in the next `w` bytes, failing with `e` when there are fewer. -/
def nextBeOr (e : ε) (w : ℕ) : Cursor ε ℕ := do
  return ofBe (← nextArrayOr e w).toList

/-- The next byte, failing with `e` when there is none. -/
def nextByteOr (e : ε) : Cursor ε UInt8 := do
  match ← nextOr e 1 with
  | byte :: _ => return byte
  | [] => liftM (.error .panicked : Except (Failure ε) UInt8)

/-- Nothing, failing with `e` when bytes remain. -/
def finish (e : ε) : Cursor ε Unit := fun bytes i =>
  if i = bytes.length then .ok ((), i) else .error (.error e)

/-- Run a cursor from the start over all the bytes, failing with `e` when bytes remain. -/
def runAll (e : ε) (c : Cursor ε α) (bytes : Bytes) : Except (Failure ε) α :=
  ((do let a ← c; finish e; return a : Cursor ε α).runAt bytes 0).map Prod.fst

/-- Read a value and check it. -/
def checked (c : Cursor ε α) (check : α → Except ε β) : Cursor ε β := do
  ofExcept (check (← c))

theorem runAt_bind (c : Cursor ε α) (f : α → Cursor ε β) (bytes : Bytes) (i : ℕ) :
  (c >>= f).runAt bytes i = (c.runAt bytes i >>= fun p => (f p.1).runAt bytes p.2)
  := rfl

/-! ### Cursors over bytes whose number has been checked -/

/-- Where there are `n` bytes, the cursor reads them all as the reader does, or fails as the
reader does. -/
def FollowsFor (n : ℕ) (c : Cursor ε α) (r : Reader ε α) : Prop :=
  ∀ (bytes : Bytes) (i : ℕ), i + n ≤ bytes.length →
    match r.run (bytes.drop i) with
    | .ok (a, rest) => rest = bytes.drop (i + n) ∧ c.runAt bytes i = .ok (a, i + n)
    | .error e => c.runAt bytes i = .error (.error e)

theorem FollowsFor.pure (a : α) :
  FollowsFor 0 (Pure.pure a : Cursor ε α) (Pure.pure a)
  := by
  intro bytes i _
  exact ⟨rfl, rfl⟩

/-- What is computed without reading follows itself. -/
theorem FollowsFor.ofExcept (x : Except ε α) :
  FollowsFor 0 (Cursor.ofExcept x) (liftM x)
  := by
  intro bytes i _
  cases x with
  | ok a => exact ⟨rfl, rfl⟩
  | error e => rfl

/-- One cursor after another follows one reader after another. -/
theorem FollowsFor.bind {n m : ℕ} {c : Cursor ε α} {r : Reader ε α} {f : α → Cursor ε β}
    {g : α → Reader ε β} (hc : FollowsFor n c r) (hf : ∀ a, FollowsFor m (f a) (g a)) :
  FollowsFor (n + m) (c >>= f) (r >>= g)
  := by
  intro bytes i hlen
  have hfirst := hc bytes i (by omega)
  rw [StateT.run_bind, runAt_bind]
  cases hr : r.run (bytes.drop i) with
  | error e =>
      rw [hr] at hfirst
      dsimp only at hfirst
      rw [hfirst]
      rfl
  | ok p =>
      obtain ⟨a, rest⟩ := p
      rw [hr] at hfirst
      obtain ⟨rfl, hrun⟩ := hfirst
      rw [hrun, ← Nat.add_assoc]
      apply hf a bytes (i + n) (by omega)

/-- The next bytes follow an array that is read. -/
theorem FollowsFor.next (e : ε) (n : ℕ) :
  FollowsFor n (Cursor.next n) (readArray e n)
  := by
  intro bytes i hlen
  have hdrop : n ≤ (bytes.drop i).length := by
    rw [List.length_drop]
    omega
  obtain ⟨v, hread, hexactly⟩ := readArray_of_le e hdrop
  rw [hread]
  constructor
  · rw [List.drop_drop]
  · rw [runAt, ReaderT.run, StateT.run, Cursor.next, slice_add hlen]
    apply Except.bind_eq_ok.mpr
    use (bytes.drop i).take n, rfl
    apply Except.bind_eq_ok.mpr
    use v, hexactly
    rfl

/-- The number in the next bytes follows a number that is read. -/
theorem FollowsFor.nextBe (e : ε) (w : ℕ) :
  FollowsFor w (Cursor.nextBe w) (readBe e w)
  := by
  rw [readBe_eq]
  have hbind := (FollowsFor.next e w).bind (fun v => FollowsFor.pure (ofBe v.toList))
  exact hbind

/-- A cursor with a check follows a reader with the check. -/
theorem FollowsFor.checked {n : ℕ} {c : Cursor ε α} {r : Reader ε α} (h : FollowsFor n c r)
    (check : α → Except ε β) :
  FollowsFor n (c.checked check) (Wire.checked r check)
  := by
  have hbind := h.bind fun a => FollowsFor.ofExcept (check a)
  exact hbind

/-- Over a string of `n` bytes the cursor computes what the reader does. -/
theorem FollowsFor.run_eq {n : ℕ} {c : Cursor ε α} {r : Reader ε α} (h : FollowsFor n c r)
    {bytes : Bytes} (hlen : bytes.length = n) :
  ((c.runAt bytes 0).map Prod.fst) = (r.run' bytes).mapError .error
  := by
  have hrun := h bytes 0 (by omega)
  rw [List.drop_zero] at hrun
  rw [StateT.run'_eq]
  cases hr : r.run bytes with
  | error e =>
      rw [hr] at hrun
      dsimp only at hrun
      rw [hrun]
      rfl
  | ok p =>
      rw [hr] at hrun
      rw [hrun.2]
      rfl

/-! ### Cursors that check the number of bytes -/

/-- From every position the cursor reads what the reader does, or fails as the reader does. -/
def Follows (c : Cursor ε α) (r : Reader ε α) : Prop :=
  ∀ (bytes : Bytes) (i : ℕ), i ≤ bytes.length →
    match r.run (bytes.drop i) with
    | .ok (a, rest) => ∃ j ≤ bytes.length, rest = bytes.drop j ∧ c.runAt bytes i = .ok (a, j)
    | .error e => c.runAt bytes i = .error (.error e)

theorem Follows.pure (a : α) :
  Follows (Pure.pure a : Cursor ε α) (Pure.pure a)
  := by
  intro bytes i hi
  exact ⟨i, hi, rfl, rfl⟩

/-- What is computed without reading follows itself. -/
theorem Follows.ofExcept (x : Except ε α) :
  Follows (Cursor.ofExcept x) (liftM x)
  := by
  intro bytes i hi
  cases x with
  | ok a => exact ⟨i, hi, rfl, rfl⟩
  | error e => rfl

/-- One cursor after another follows one reader after another. -/
theorem Follows.bind {c : Cursor ε α} {r : Reader ε α} {f : α → Cursor ε β}
    {g : α → Reader ε β} (hc : Follows c r) (hf : ∀ a, Follows (f a) (g a)) :
  Follows (c >>= f) (r >>= g)
  := by
  intro bytes i hi
  have hfirst := hc bytes i hi
  rw [StateT.run_bind, runAt_bind]
  cases hr : r.run (bytes.drop i) with
  | error e =>
      rw [hr] at hfirst
      dsimp only at hfirst
      rw [hfirst]
      rfl
  | ok p =>
      obtain ⟨a, rest⟩ := p
      rw [hr] at hfirst
      obtain ⟨j, hj, rfl, hrun⟩ := hfirst
      rw [hrun]
      apply hf a bytes j hj

/-- Where there are enough bytes, the next ones are given. -/
theorem runAt_nextOr {e : ε} {n : ℕ} {bytes : Bytes} {i : ℕ} (h : i + n ≤ bytes.length) :
  (nextOr e n).runAt bytes i = .ok ((bytes.drop i).take n, i + n)
  := by
  rw [runAt, ReaderT.run, StateT.run, nextOr, if_neg (Nat.not_lt.mpr h), slice_add h]
  rfl

/-- The next bytes, when there are enough, follow bytes that are taken. -/
theorem Follows.nextOr (e : ε) (n : ℕ) :
  Follows (Cursor.nextOr e n) (take e n)
  := by
  intro bytes i hi
  have hlength : (bytes.drop i).length = bytes.length - i := List.length_drop
  by_cases hlen : bytes.length < i + n
  · have htake : (take e n).run (bytes.drop i) = .error e := if_neg (by omega)
    rw [htake]
    apply if_pos hlen
  · have htake : (take e n).run (bytes.drop i)
        = .ok ((bytes.drop i).take n, (bytes.drop i).drop n) := if_pos (by omega)
    rw [htake]
    use i + n, by omega
    constructor
    · rw [List.drop_drop]
    · apply runAt_nextOr (by omega)

/-- The array of the next bytes follows an array that is read. -/
theorem Follows.nextArrayOr (e : ε) (n : ℕ) :
  Follows (Cursor.nextArrayOr e n) (readArray e n)
  := by
  intro bytes i hi
  have hlength : (bytes.drop i).length = bytes.length - i := List.length_drop
  rw [Cursor.nextArrayOr, runAt_bind]
  by_cases hlen : bytes.length < i + n
  · have hread : (readArray e n).run (bytes.drop i) = .error e := dif_neg (by omega)
    have hnext : (Cursor.nextOr e n).runAt bytes i = .error (.error e) := if_pos hlen
    rw [hread, hnext]
    rfl
  · have hdrop : n ≤ (bytes.drop i).length := by omega
    obtain ⟨v, hread, hexactly⟩ := readArray_of_le e hdrop
    rw [hread, runAt_nextOr (by omega)]
    use i + n, by omega
    constructor
    · rw [List.drop_drop]
    · rw [Except.bind_eq_ok]
      use ((bytes.drop i).take n, i + n), rfl
      dsimp only
      rw [hexactly]
      rfl

/-- The number in the next bytes follows a number that is read. -/
theorem Follows.nextBeOr (e : ε) (w : ℕ) :
  Follows (Cursor.nextBeOr e w) (readBe e w)
  := by
  rw [readBe_eq]
  apply (Follows.nextArrayOr e w).bind
  intro v
  apply Follows.pure

/-- The next byte follows a number of one byte that is read. -/
theorem Follows.nextByteOr (e : ε) :
  Follows (Cursor.nextByteOr e) (do return UInt8.ofNat (← readBe e 1))
  := by
  have hread : (do return UInt8.ofNat (← readBe e 1))
      = (take e 1 >>= fun taken => (Pure.pure (UInt8.ofNat (ofBe taken)) : Reader ε UInt8)) := by
    rw [readBe, bind_assoc]
    rfl
  rw [hread]
  intro bytes i hi
  have hnext := Follows.nextOr e 1 bytes i hi
  rw [Cursor.nextByteOr, runAt_bind, StateT.run_bind]
  cases htake : (take e 1).run (bytes.drop i) with
  | error e' =>
      rw [htake] at hnext
      dsimp only at hnext
      rw [hnext]
      rfl
  | ok p =>
      obtain ⟨taken, rest⟩ := p
      rw [htake] at hnext
      obtain ⟨j, hj, rfl, hrun⟩ := hnext
      obtain ⟨hlength, -⟩ := take_eq_ok.mp htake
      obtain ⟨byte, rfl⟩ := List.length_eq_one_iff.mp hlength
      rw [hrun]
      use j, hj, rfl
      have hbyte : UInt8.ofNat (ofBe [byte]) = byte := by simp [ofBe]
      rw [hbyte]
      rfl

/-- Over the whole string the cursor computes what the reader does. -/
theorem Follows.runAll_eq {c : Cursor ε α} {r : Reader ε α} (h : Follows c r) (e : ε)
    (bytes : Bytes) :
  c.runAll e bytes = (readAll e r bytes).mapError .error
  := by
  have hrun := h bytes 0 (Nat.zero_le _)
  rw [List.drop_zero] at hrun
  rw [runAll, runAt_bind, readAll]
  cases hr : r.run bytes with
  | error e' =>
      rw [hr] at hrun
      dsimp only at hrun
      rw [hrun]
      rfl
  | ok p =>
      obtain ⟨a, rest⟩ := p
      rw [hr] at hrun
      obtain ⟨j, hj, rfl, hrun⟩ := hrun
      rw [hrun]
      show ((finish e >>= fun _ => Pure.pure a : Cursor ε α).runAt bytes j).map Prod.fst
        = (if bytes.drop j = [] then Except.ok a else .error e).mapError .error
      have hend : bytes.drop j = [] ↔ j = bytes.length := by
        rw [List.drop_eq_nil_iff]
        omega
      rw [runAt_bind]
      show (((if j = bytes.length then .ok ((), j) else .error (.error e)) :
        Except (Failure ε) (Unit × ℕ)) >>= _).map Prod.fst = _
      by_cases hj : j = bytes.length
      · rw [if_pos hj, if_pos (hend.mpr hj)]
        rfl
      · rw [if_neg hj, if_neg (mt hend.mp hj)]
        rfl

end Cursor

/-! ### Canonical codecs -/

/-- Whatever the encoder writes is read back, whatever the decoder accepts is what the encoder
writes, and the decoder never panics. -/
structure Canonical (encode : α → Except ε Bytes) (decode : Bytes → Except (Failure ε) α) :
    Prop where
  read_back : ∀ a bytes, encode a = .ok bytes → decode bytes = .ok a
  only_encodings : ∀ bytes a, decode bytes = .ok a → encode a = .ok bytes
  never_panics : ∀ bytes, decode bytes ≠ .error .panicked

/-- A decoder that computes what a function without panics computes is canonical when that
function reads exactly what the encoder writes. -/
theorem Canonical.of_eq {encode : α → Except ε Bytes} {decode : Bytes → Except (Failure ε) α}
    {decode' : Bytes → Except ε α} (heq : ∀ bytes, decode bytes = (decode' bytes).mapError .error)
    (hread : ∀ {a bytes}, encode a = .ok bytes → decode' bytes = .ok a)
    (honly : ∀ {bytes a}, decode' bytes = .ok a → encode a = .ok bytes) :
  Canonical encode decode
  := by
  constructor
  · intro a bytes h
    rw [heq, hread h]
    rfl
  · intro bytes a h
    rw [heq, Except.mapError_eq_ok] at h
    apply honly h
  · intro bytes
    rw [heq]
    apply Except.mapError_error_ne_panicked

end

end Wire
