import Mathlib.Data.List.Basic
import Mathlib.Tactic.Ring
import OpenLoops.Library.Fallible

/-!
# Byte strings

Big-endian integers, readers that take values off the front of a byte string, and
prefix-free encodings.  `Reads r bytes a` says that the reader `r` takes `a` off any
string that starts with `bytes`; its rules follow the structure of the reader.  An
encoding is prefix-free when what follows an encoded value is determined by the whole;
such encodings may be put one after the other.
-/

/-- A byte string. -/
abbrev Bytes := List UInt8

namespace Wire

instance lawfulBEq_bytes : LawfulBEq (List UInt8) :=
  inferInstance

/-- The bytes of an ASCII text. -/
def ascii (text : String) : Bytes :=
  text.toList.map fun c => UInt8.ofNat c.toNat

/-- The bytes of a text. -/
def utf8 (text : String) : Bytes :=
  text.toUTF8.data.toList

/-- The text of a byte string, when it is one. -/
def ofUtf8 (bytes : Bytes) : Option String :=
  String.fromUTF8? ⟨bytes.toArray⟩

/-- A byte string is a text exactly when it is the bytes of the text. -/
theorem ofUtf8_eq_some {bytes : Bytes} {text : String} :
  ofUtf8 bytes = some text ↔ bytes = utf8 text
  := by
  rw [ofUtf8, String.fromUTF8?, utf8, String.toUTF8_eq_toByteArray]
  constructor
  · intro h
    split_ifs at h
    rw [← Option.some.inj h]
    rfl
  · rintro rfl
    apply dif_pos text.isValidUTF8

/-- Texts are told apart by their bytes. -/
theorem utf8_inj {a b : String} :
  utf8 a = utf8 b ↔ a = b
  := by
  constructor
  · intro h
    have ha : ofUtf8 (utf8 b) = some a := ofUtf8_eq_some.mpr h.symm
    rw [ofUtf8_eq_some.mpr rfl] at ha
    exact (Option.some.inj ha).symm
  · rintro rfl
    rfl

/-! ### Big-endian integers -/

/-- The `w` lowest bytes of a number, the greatest first. -/
def be : ℕ → ℕ → Bytes
  | 0, _ => []
  | w + 1, n => UInt8.ofNat (n / 256 ^ w) :: be w n

/-- The number a byte string stands for. -/
def ofBe : Bytes → ℕ
  | [] => 0
  | b :: bytes => b.toNat * 256 ^ bytes.length + ofBe bytes

@[simp]
theorem length_be (w n : ℕ) :
  (be w n).length = w
  := by
  induction w with
  | zero => rfl
  | succ w ih => rw [be, List.length_cons, ih]

/-- A byte is its own encoding. -/
theorem be_one (b : UInt8) :
  be 1 b.toNat = [b]
  := by
  simp [be]

/-- The bytes of a number stand for its remainder. -/
theorem ofBe_be (w n : ℕ) :
  ofBe (be w n) = n % 256 ^ w
  := by
  induction w with
  | zero => simp [be, ofBe, Nat.mod_one]
  | succ w ih =>
      have hbyte : (UInt8.ofNat (n / 256 ^ w)).toNat = n / 256 ^ w % 256 := UInt8.toNat_ofNat'
      rw [be, ofBe, length_be, ih, hbyte, Nat.mul_comm, Nat.add_comm, pow_succ]
      exact (Nat.mod_mul).symm

/-- A number that fits is read back. -/
theorem ofBe_be_of_lt {w n : ℕ} (h : n < 256 ^ w) :
  ofBe (be w n) = n
  := by
  rw [ofBe_be, Nat.mod_eq_of_lt h]

example : be 2 258 = [1, 2] ∧ ofBe [1, 2] = 258
  := by decide +kernel

/-- Numbers that fit are told apart by their bytes. -/
theorem be_inj {w m n : ℕ} (hm : m < 256 ^ w) (hn : n < 256 ^ w) (h : be w m = be w n) :
  m = n
  := by
  rw [← ofBe_be_of_lt hm, h, ofBe_be_of_lt hn]

/-- Only the lowest bytes of a number count. -/
theorem be_add_mul (w n k : ℕ) :
  be w (n + k * 256 ^ w) = be w n
  := by
  induction w generalizing k with
  | zero => rfl
  | succ w ih =>
      have hshift : n + k * 256 ^ (w + 1) = n + k * 256 * 256 ^ w := by ring
      have hbyte : UInt8.ofNat (n / 256 ^ w + k * 256) = UInt8.ofNat (n / 256 ^ w) := by
        apply UInt8.toNat_inj.mp
        rw [UInt8.toNat_ofNat', UInt8.toNat_ofNat', Nat.add_mul_mod_self_right]
      rw [be, be, hshift, ih, Nat.add_mul_div_right _ _ (Nat.pow_pos (by decide)), hbyte]

/-- A byte string stands for a number of as many bytes. -/
theorem ofBe_lt (bytes : Bytes) :
  ofBe bytes < 256 ^ bytes.length
  := by
  induction bytes with
  | nil => simp [ofBe]
  | cons b bytes ih =>
      have hb : b.toNat * 256 ^ bytes.length ≤ 255 * 256 ^ bytes.length :=
        Nat.mul_le_mul_right _ (Nat.le_of_lt_succ b.toNat_lt)
      rw [ofBe, List.length_cons, pow_succ]
      omega

/-- A byte string is read back from the number it stands for. -/
theorem be_ofBe (bytes : Bytes) :
  be bytes.length (ofBe bytes) = bytes
  := by
  induction bytes with
  | nil => rfl
  | cons b bytes ih =>
      have hdiv : (ofBe bytes + b.toNat * 256 ^ bytes.length) / 256 ^ bytes.length = b.toNat := by
        rw [Nat.add_mul_div_right _ _ (Nat.pow_pos (by decide)), Nat.div_eq_of_lt (ofBe_lt bytes), zero_add]
      rw [List.length_cons, ofBe, be, add_comm, be_add_mul, ih, hdiv, UInt8.ofNat_toNat]

/-! ### Readers -/

section

variable {ε : Type*} {α β : Type}

/-- A reader takes a value off the front of a byte string, or fails. -/
abbrev Reader (ε : Type*) (α : Type) :=
  StateT Bytes (Except ε) α

/-- The reader `r` takes `a` off any byte string that starts with `bytes`. -/
def Reads (r : Reader ε α) (bytes : Bytes) (a : α) : Prop :=
  ∀ rest, r.run (bytes ++ rest) = .ok (a, rest)

/-- A value that is there without reading. -/
theorem Reads.pure (a : α) :
  Reads (Pure.pure a : Reader ε α) [] a
  := by
  intro rest
  rfl

/-- A value that is computed without reading. -/
theorem Reads.lift {x : Except ε α} {a : α} (h : x = .ok a) :
  Reads (liftM x : Reader ε α) [] a
  := by
  intro rest
  apply StateT.run_lift_eq_ok.mpr
  exact ⟨h, rfl⟩

/-- One reader after another reads one encoding after another. -/
theorem Reads.bind {r : Reader ε α} {f : α → Reader ε β} {x y : Bytes} {a : α} {b : β}
    (hr : Reads r x a) (hf : Reads (f a) y b) :
  Reads (r >>= f) (x ++ y) b
  := by
  intro rest
  rw [StateT.run_bind, List.append_assoc, hr]
  apply hf

/-- A reader that reads an encoding may be followed by one that reads nothing. -/
theorem Reads.bind_last {r : Reader ε α} {f : α → Reader ε β} {x : Bytes} {a : α} {b : β}
    (hr : Reads r x a) (hf : Reads (f a) [] b) :
  Reads (r >>= f) x b
  := by
  have h := hr.bind hf
  rw [List.append_nil] at h
  apply h

/-- Read a value and check it. -/
def checked (r : Reader ε α) (check : α → Except ε β) : Reader ε β := do
  liftM (check (← r))

/-- A value that passes the check is read. -/
theorem Reads.checked {r : Reader ε α} {check : α → Except ε β} {x : Bytes} {a : α} {b : β}
    (hr : Reads r x a) (hcheck : check a = .ok b) :
  Reads (checked r check) x b
  := by
  apply hr.bind_last
  apply Reads.lift hcheck

/-- After a value is read, the check decides whether to go on. -/
theorem run_checked_bind {γ : Type} {r : Reader ε α} {check : α → Except ε β}
    {f : β → Reader ε γ} {bytes rest : Bytes} {a : α} (h : r.run bytes = .ok (a, rest)) :
  (checked r check >>= f).run bytes = check a >>= fun b => (f b).run rest
  := by
  rw [checked, bind_assoc, StateT.run_bind, h]
  show (liftM (check a) >>= f).run rest = _
  rcases check a with e | b
  · rfl
  · rfl

/-- Read a value that must take up the whole byte string, failing with `e` when bytes
remain. -/
def readAll (e : ε) (r : Reader ε α) (bytes : Bytes) : Except ε α := do
  let (a, rest) ← r.run bytes
  if rest = [] then .ok a else .error e

/-- The encoding a reader reads is read as a whole. -/
theorem Reads.readAll {r : Reader ε α} {bytes : Bytes} {a : α} (h : Reads r bytes a) (e : ε) :
  readAll e r bytes = .ok a
  := by
  have hall := h []
  rw [List.append_nil] at hall
  rw [Wire.readAll, hall]
  rfl

/-- Take `n` bytes off the front, failing with `e` when there are fewer. -/
def take (e : ε) (n : ℕ) : Reader ε Bytes := fun bytes =>
  if n ≤ bytes.length then .ok (bytes.take n, bytes.drop n) else .error e

/-- The bytes asked for are taken. -/
theorem reads_take (e : ε) {n : ℕ} {bytes : Bytes} (h : bytes.length = n) :
  Reads (take e n) bytes bytes
  := by
  subst h
  intro rest
  rw [StateT.run, take, if_pos (by simp), List.take_left, List.drop_left]

/-- Read an array of `n` bytes. -/
def readArray (e : ε) (n : ℕ) : Reader ε (Vector UInt8 n) := fun bytes =>
  if h : n ≤ bytes.length then
    .ok (⟨(bytes.take n).toArray, by simp [h]⟩, bytes.drop n)
  else .error e

/-- An array is read back. -/
theorem reads_readArray (e : ε) {n : ℕ} (v : Vector UInt8 n) :
  Reads (readArray e n) v.toList v
  := by
  intro rest
  have hlen : v.toList.length = n := Vector.length_toList
  rw [StateT.run, readArray, dif_pos (by rw [List.length_append, hlen]; omega)]
  congr 2
  · apply Vector.toArray_inj.mp
    simp only [List.take_left' hlen]
    apply Array.toArray_toList
  · apply List.drop_left' hlen

/-- Read a byte. -/
def readByte (e : ε) : Reader ε UInt8
  | [] => .error e
  | b :: bytes => .ok (b, bytes)

/-- An error, unless the condition holds. -/
def require (e : ε) (condition : Bool) : Except ε Unit :=
  if condition then .ok () else .error e

/-- Read a big-endian number of `w` bytes. -/
def readBe (e : ε) (w : ℕ) : Reader ε ℕ := do
  return ofBe (← take e w)

/-- A number that fits is read back. -/
theorem reads_readBe (e : ε) {w n : ℕ} (h : n < 256 ^ w) :
  Reads (readBe e w) (be w n) n
  := by
  apply (reads_take e (length_be w n)).bind_last
  rw [ofBe_be_of_lt h]
  apply Reads.pure

end

/-! ### What was read -/

section

variable {ε : Type*} {α : Type} {e : ε} {n w : ℕ} {bytes rest : Bytes}

/-- Bytes that were taken stand in front. -/
theorem take_eq_ok {taken : Bytes} :
  (take e n).run bytes = .ok (taken, rest) ↔ taken.length = n ∧ bytes = taken ++ rest
  := by
  constructor
  · intro h
    rw [StateT.run, take] at h
    split_ifs at h with hlen
    cases h
    rw [List.length_take, Nat.min_eq_left hlen, List.take_append_drop]
    exact ⟨rfl, rfl⟩
  · rintro ⟨hlen, rfl⟩
    apply reads_take e hlen

/-- An array that was read stands in front. -/
theorem readArray_eq_ok {v : Vector UInt8 n} :
  (readArray e n).run bytes = .ok (v, rest) ↔ bytes = v.toList ++ rest
  := by
  constructor
  · intro h
    rw [StateT.run, readArray] at h
    split_ifs at h with hlen
    cases h
    exact (List.take_append_drop n bytes).symm
  · rintro rfl
    apply reads_readArray

/-- A byte that was read stands in front. -/
theorem readByte_eq_ok {b : UInt8} :
  (readByte e).run bytes = .ok (b, rest) ↔ bytes = b :: rest
  := by
  cases bytes with
  | nil => simp [StateT.run, readByte]
  | cons first bytes => simp [StateT.run, readByte]

/-- What is required holds. -/
theorem require_eq_ok {condition : Bool} {u : Unit} :
  require e condition = .ok u ↔ condition = true
  := by
  rw [require]
  split_ifs with h
  · simp [h]
  · simp [h]

/-- The bytes of a number that was read stand in front. -/
theorem readBe_eq_ok {value : ℕ} :
  (readBe e w).run bytes = .ok (value, rest) ↔ value < 256 ^ w ∧ bytes = be w value ++ rest
  := by
  constructor
  · intro h
    obtain ⟨taken, t, htaken, h⟩ := StateT.run_bind_eq_ok.mp h
    cases h
    obtain ⟨rfl, rfl⟩ := take_eq_ok.mp htaken
    rw [be_ofBe]
    exact ⟨ofBe_lt taken, rfl⟩
  · rintro ⟨hlt, rfl⟩
    apply reads_readBe e hlt

/-- The bytes of a number, the lowest first. -/
def le (w n : ℕ) : Bytes :=
  (be w n).reverse

@[simp]
theorem length_le (w n : ℕ) :
  (le w n).length = w
  := by
  rw [le, List.length_reverse, length_be]

/-- Read a little-endian number of `w` bytes. -/
def readLe (e : ε) (w : ℕ) : Reader ε ℕ := do
  return ofBe (← take e w).reverse

/-- The bytes of a number that was read stand in front. -/
theorem readLe_eq_ok {value : ℕ} :
  (readLe e w).run bytes = .ok (value, rest) ↔ value < 256 ^ w ∧ bytes = le w value ++ rest
  := by
  rw [readLe, StateT.run_bind_eq_ok]
  constructor
  · rintro ⟨taken, t, htaken, h⟩
    cases h
    obtain ⟨rfl, rfl⟩ := take_eq_ok.mp htaken
    rw [le, ← List.length_reverse, be_ofBe, List.reverse_reverse]
    exact ⟨ofBe_lt taken.reverse, rfl⟩
  · rintro ⟨hlt, rfl⟩
    use le w value, rest, take_eq_ok.mpr ⟨length_le w value, rfl⟩
    rw [le, List.reverse_reverse, ofBe_be_of_lt hlt]
    rfl

/-- Read `n` more rows, each with the rows before it at hand. -/
def readRows (row : List α → Reader ε α) : ℕ → List α → Reader ε (List α)
  | 0, rows => pure rows
  | n + 1, rows => do
      let a ← row rows
      readRows row n (rows ++ [a])

/-- When a row is read exactly where its encoding stands in front, it is well formed and its key
is not among the rows before it, then rows are read exactly where their encodings stand in front,
they are well formed and no key occurs twice. -/
theorem readRows_eq_ok {κ : Type*} {row : List α → Reader ε α} {enc : α → Bytes}
    {key : α → κ} {Q : α → Prop}
    (hrow : ∀ {rows a bytes rest}, (row rows).run bytes = .ok (a, rest) ↔
      Q a ∧ key a ∉ rows.map key ∧ bytes = enc a ++ rest) {rows all : List α} :
  (readRows row n rows).run bytes = .ok (all, rest) ↔ ∃ new, all = rows ++ new
    ∧ new.length = n ∧ (∀ a ∈ new, Q a) ∧ (new.map key).Nodup
    ∧ (∀ a ∈ new, key a ∉ rows.map key) ∧ bytes = new.flatMap enc ++ rest
  := by
  induction n generalizing rows bytes with
  | zero =>
      constructor
      · rintro ⟨⟩
        use []
        simp
      · rintro ⟨new, rfl, hlen, -, -, -, rfl⟩
        rw [List.eq_nil_of_length_eq_zero hlen, List.append_nil]
        rfl
  | succ n ih =>
      rw [readRows, StateT.run_bind_eq_ok]
      simp only [hrow, ih]
      constructor
      · rintro ⟨a, t, ⟨hQ, hkey, rfl⟩, new, rfl, rfl, hQs, hnodup, hkeys, rfl⟩
        have hnew : ∀ b ∈ new, key b ≠ key a ∧ key b ∉ rows.map key := by
          intro b hb
          have hnot := hkeys b hb
          rw [List.map_append, List.mem_append, not_or] at hnot
          use fun h => hnot.2 (by simp [h]), hnot.1
        use a :: new
        refine ⟨by simp, rfl, List.forall_mem_cons.mpr ⟨hQ, hQs⟩, ?_,
          List.forall_mem_cons.mpr ⟨hkey, fun b hb => (hnew b hb).2⟩, by simp⟩
        rw [List.map_cons, List.nodup_cons]
        use fun hmem => ?_, hnodup
        obtain ⟨b, hb, heq⟩ := List.mem_map.mp hmem
        apply (hnew b hb).1 heq
      · rintro ⟨new, rfl, hlen, hQ, hnodup, hkeys, rfl⟩
        rcases new with _ | ⟨a, new⟩
        · cases hlen
        · rw [List.map_cons, List.nodup_cons] at hnodup
          rw [List.forall_mem_cons] at hQ hkeys
          use a, new.flatMap enc ++ rest
          use ⟨hQ.1, hkeys.1, by simp⟩, new
          refine ⟨by simp, Nat.succ.inj hlen, hQ.2, hnodup.2, ?_, rfl⟩
          intro b hb
          rw [List.map_append, List.mem_append, not_or]
          use hkeys.2 b hb
          simp only [List.map_cons, List.map_nil, List.mem_singleton]
          intro heq
          apply hnodup.1
          rw [← heq]
          apply List.mem_map_of_mem hb

/-- What was read and checked passes the check. -/
theorem checked_eq_ok {β : Type} {r : Reader ε α} {check : α → Except ε β} {b : β} :
  (checked r check).run bytes = .ok (b, rest)
    ↔ ∃ a, r.run bytes = .ok (a, rest) ∧ check a = .ok b
  := by
  rw [checked, StateT.run_bind_eq_ok]
  constructor
  · rintro ⟨a, t, hr, h⟩
    obtain ⟨hcheck, rfl⟩ := StateT.run_lift_eq_ok.mp h
    use a
  · rintro ⟨a, hr, hcheck⟩
    use a, rest, hr
    apply StateT.run_lift_eq_ok.mpr
    exact ⟨hcheck, rfl⟩

/-- An array that was read and checked stands in front. -/
theorem checked_readArray_eq_ok {β : Type} {check : Vector UInt8 n → Except ε β} {b : β} :
  (checked (readArray e n) check).run bytes = .ok (b, rest)
    ↔ ∃ v, check v = .ok b ∧ bytes = v.toList ++ rest
  := by
  simp only [checked_eq_ok, readArray_eq_ok, and_comm]

/-- The bytes of a number that was read and checked stand in front. -/
theorem checked_readBe_eq_ok {β : Type} {check : ℕ → Except ε β} {b : β} :
  (checked (readBe e w) check).run bytes = .ok (b, rest)
    ↔ ∃ value < 256 ^ w, check value = .ok b ∧ bytes = be w value ++ rest
  := by
  rw [checked_eq_ok]
  apply exists_congr
  intro value
  rw [readBe_eq_ok, and_right_comm, and_assoc]

/-- Nothing is left of a byte string that is as long as what stands in front. -/
theorem eq_of_eq_append {encoded : Bytes} (h : bytes = encoded ++ rest)
    (hlen : bytes.length = encoded.length) :
  bytes = encoded
  := by
  have hrest : rest.length = 0 := by
    rw [h, List.length_append] at hlen
    omega
  rw [h, List.eq_nil_of_length_eq_zero hrest, List.append_nil]

/-- A value that was read as a whole was read up to the end. -/
theorem readAll_eq_ok {r : Reader ε α} {a : α} :
  readAll e r bytes = .ok a ↔ r.run bytes = .ok (a, [])
  := by
  rw [readAll, Except.bind_eq_ok]
  constructor
  · rintro ⟨⟨b, t⟩, hr, h⟩
    dsimp only at h
    split_ifs at h with ht
    cases h
    rw [hr, ht]
  · intro hr
    exact ⟨_, hr, rfl⟩

end

/-! ### Prefix-free encodings -/

section

variable {α β : Type*}

/-- Among the values in `S`, an encoded value and what follows it are determined by the
whole. -/
def PrefixFreeOn (S : Set α) (enc : α → Bytes) : Prop :=
  ∀ ⦃a⦄, a ∈ S → ∀ ⦃b⦄, b ∈ S → ∀ r s, enc a ++ r = enc b ++ s → a = b ∧ r = s

/-- Length-prefixed byte strings are prefix-free as long as the length fits. -/
theorem prefixFreeOn_lengthPrefixed (w : ℕ) :
  PrefixFreeOn {bytes : Bytes | bytes.length < 256 ^ w}
    (fun bytes => be w bytes.length ++ bytes)
  := by
  intro a ha b hb r s h
  rw [List.append_assoc, List.append_assoc] at h
  obtain ⟨hlen, h⟩ := List.append_inj h (by simp)
  apply List.append_inj h
  apply be_inj ha hb hlen

/-- The encodings of equally many values one after the other determine the values, when
each encoding is prefix-free. -/
theorem PrefixFreeOn.flatMap {S : Set α} {enc : α → Bytes} (henc : PrefixFreeOn S enc)
    {as bs : List α} (has : ∀ a ∈ as, a ∈ S) (hbs : ∀ b ∈ bs, b ∈ S)
    (hlen : as.length = bs.length) {r s : Bytes}
    (h : as.flatMap enc ++ r = bs.flatMap enc ++ s) :
  as = bs ∧ r = s
  := by
  induction as generalizing bs with
  | nil =>
      rw [List.eq_nil_of_length_eq_zero hlen.symm] at h ⊢
      exact ⟨rfl, h⟩
  | cons a as ih =>
      cases bs with
      | nil => cases hlen
      | cons b bs =>
          rw [List.flatMap_cons, List.flatMap_cons, List.append_assoc, List.append_assoc] at h
          obtain ⟨rfl, htail⟩ :=
            henc (has a List.mem_cons_self) (hbs b List.mem_cons_self) _ _ h
          obtain ⟨rfl, hrs⟩ := ih
            (fun x hx => has x (List.mem_cons_of_mem _ hx))
            (fun x hx => hbs x (List.mem_cons_of_mem _ hx)) (Nat.succ.inj hlen) htail
          exact ⟨rfl, hrs⟩

/-- An encoder that rejects what is not in `S` and else encodes by `enc`, applied to
several values: each is in `S`, and their encodings follow one another. -/
theorem mapM_encode {ε : Type*} {S : Set α} {enc : α → Bytes} {encode : α → Except ε Bytes}
    (hencode : ∀ a bytes, encode a = .ok bytes → a ∈ S ∧ bytes = enc a) {as : List α}
    {parts : List Bytes} (h : List.Forall₂ (fun a bytes => encode a = .ok bytes) as parts) :
  (∀ a ∈ as, a ∈ S) ∧ parts.flatten = as.flatMap enc
  := by
  induction h with
  | nil => simp
  | cons ha _ ih =>
      obtain ⟨hmem, rfl⟩ := hencode _ _ ha
      obtain ⟨hall, hflat⟩ := ih
      constructor
      · exact List.forall_mem_cons.mpr ⟨hmem, hall⟩
      · rw [List.flatten_cons, List.flatMap_cons, hflat]

end

end Wire
