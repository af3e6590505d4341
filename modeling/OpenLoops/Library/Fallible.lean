import Mathlib.Data.List.Forall2
import Mathlib.Data.UInt
import Mathlib.Tactic.Common

/-!
# Fallible computations

Rules to take apart a computation in `Except` that succeeds: a sequence of steps succeeds
when each of them does, a change of the error changes no success, and a missing value is
an error.
-/

namespace Except

universe u

variable {ε ε' : Type*} {α β : Type u}

/-- A sequence of two steps succeeds exactly when the first one does, and the second one
does on its value. -/
theorem bind_eq_ok {x : Except ε α} {f : α → Except ε β} {b : β} :
  (x >>= f) = .ok b ↔ ∃ a, x = .ok a ∧ f a = .ok b
  := by
  cases x with
  | ok a =>
      constructor
      · intro h
        use a, rfl, h
      · rintro ⟨_, ⟨⟩, h⟩
        apply h
  | error e =>
      constructor
      · intro h
        cases h
      · rintro ⟨_, ⟨⟩, _⟩

/-- A sequence of two steps fails when the first one does, or the second one does on its
value. -/
theorem bind_eq_error {x : Except ε α} {f : α → Except ε β} {e : ε} :
  (x >>= f) = .error e ↔ x = .error e ∨ ∃ a, x = .ok a ∧ f a = .error e
  := by
  cases x with
  | ok a =>
      constructor
      · intro h
        exact Or.inr ⟨a, rfl, h⟩
      · rintro (⟨⟨⟩⟩ | ⟨_, ⟨⟩, h⟩)
        apply h
  | error e' =>
      constructor
      · rintro ⟨⟩
        exact Or.inl rfl
      · rintro (⟨⟨⟩⟩ | ⟨_, ⟨⟩, _⟩)
        rfl

/-- `bind_eq_ok` for a first step that is only a check. -/
theorem check_bind_eq_ok {β : Type} {x : Except ε Unit} {f : Unit → Except ε β} {b : β} :
  (x >>= f) = .ok b ↔ x = .ok () ∧ f () = .ok b
  := by
  rw [bind_eq_ok]
  constructor
  · rintro ⟨⟨⟩, hx, hf⟩
    exact ⟨hx, hf⟩
  · rintro ⟨hx, hf⟩
    use (), hx, hf

/-- What holds at first and is kept by each step of a loop, for the elements that it has come past,
holds after the loop when it succeeds. -/
theorem foldlM_invariant {f : β → α → Except ε β} {I : List α → β → Prop} {items : List α}
    {b b' : β} (hnil : I [] b)
    (hstep : ∀ seen a b b', I seen b → f b a = .ok b' → I (seen ++ [a]) b')
    (h : items.foldlM f b = .ok b') :
  I items b'
  := by
  induction items generalizing b I with
  | nil =>
      cases h
      exact hnil
  | cons a items ih =>
      rw [List.foldlM_cons] at h
      obtain ⟨c, hfirst, hrest⟩ := bind_eq_ok.mp h
      apply ih (I := fun seen => I (a :: seen)) _ _ hrest
      · apply hstep [] a b c hnil hfirst
      · intro seen a' c c' hseen hc
        apply hstep (a :: seen) a' c c' hseen hc

/-- A loop of checks succeeds exactly when each of them does. -/
theorem forM_eq_ok {α : Type*} {f : α → Except ε PUnit} {items : List α} :
  items.forM f = .ok ⟨⟩ ↔ ∀ a ∈ items, f a = .ok ⟨⟩
  := by
  induction items with
  | nil => simp [pure, Except.pure]
  | cons a items ih =>
      rw [List.forM, bind_eq_ok, List.forall_mem_cons, ← ih]
      constructor
      · rintro ⟨⟨⟩, hfirst, hrest⟩
        exact ⟨hfirst, hrest⟩
      · rintro ⟨hfirst, hrest⟩
        exact ⟨⟨⟩, hfirst, hrest⟩

/-- When a loop of checks fails, one of them does. -/
theorem exists_of_forM_eq_error {α : Type*} {f : α → Except ε PUnit} {items : List α} {e : ε}
    (h : items.forM f = .error e) :
  ∃ a ∈ items, f a = .error e
  := by
  induction items with
  | nil => cases h
  | cons a items ih =>
      rw [List.forM] at h
      rcases bind_eq_error.mp h with hfirst | ⟨-, -, hrest⟩
      · exact ⟨a, List.mem_cons_self, hfirst⟩
      · obtain ⟨a', ha', he⟩ := ih hrest
        exact ⟨a', List.mem_cons_of_mem a ha', he⟩

/-- A loop of steps that all succeed is the loop of their values. -/
theorem foldlM_eq_ok_foldl {f : β → α → Except ε β} {g : β → α → β} {items : List α} {b : β}
    (h : ∀ b, ∀ a ∈ items, f b a = .ok (g b a)) :
  items.foldlM f b = .ok (items.foldl g b)
  := by
  induction items generalizing b with
  | nil => rfl
  | cons a items ih =>
      rw [List.foldlM_cons, h b a List.mem_cons_self, List.foldl_cons]
      apply ih
      intro b' a' ha'
      apply h b' a' (List.mem_cons_of_mem a ha')

/-- What is computed from the value of a step is there exactly when the step succeeds. -/
theorem exists_map_eq_ok {x : Except ε α} {f : α → β} :
  (∃ b, (x >>= fun a => pure (f a)) = .ok b) ↔ ∃ a, x = .ok a
  := by
  constructor
  · rintro ⟨b, h⟩
    obtain ⟨a, hx, -⟩ := bind_eq_ok.mp h
    use a, hx
  · rintro ⟨a, rfl⟩
    use f a
    rfl

/-- A check passes exactly when there is nothing against it. -/
theorem check_eq_ok {p : Prop} [Decidable p] {e : ε} {u : Unit} :
  (if p then .error e else .ok () : Except ε Unit) = .ok u ↔ ¬p
  := by
  split_ifs with hp
  · simp [hp]
  · simp [hp]

/-- A change of the error changes no success. -/
theorem mapError_eq_ok {x : Except ε α} {f : ε → ε'} {a : α} :
  x.mapError f = .ok a ↔ x = .ok a
  := by
  cases x with
  | ok _ => simp [Except.mapError]
  | error _ => simp [Except.mapError]

/-- A change of the value changes no failure. -/
theorem map_eq_ok {x : Except ε α} {f : α → β} {b : β} :
  x.map f = .ok b ↔ ∃ a, x = .ok a ∧ f a = b
  := by
  cases x with
  | ok _ => simp [Except.map]
  | error _ => simp [Except.map]

/-- Two sequences of steps with the same first step differ by `g` when their second steps
do. -/
theorem bind_map_congr {γ : Type u} {x : Except ε α} {f : α → Except ε β}
    {f' : α → Except ε γ} {g : β → γ} (h : ∀ a, f' a = (f a).map g) :
  (x >>= f') = (x >>= f).map g
  := by
  cases x with
  | ok a => apply h
  | error e => rfl

/-- The value and the error may be changed in either order. -/
theorem map_mapError {x : Except ε α} {f : α → β} {g : ε → ε'} :
  (x.map f).mapError g = (x.mapError g).map f
  := by
  cases x with
  | ok a => rfl
  | error e => rfl

/-- The failures of a list of computations aside, a list of values is the list of their
values. -/
theorem mapM_eq_ok {f : α → Except ε β} {as : List α} {bs : List β} :
  as.mapM f = .ok bs ↔ List.Forall₂ (fun a b => f a = .ok b) as bs
  := by
  induction as generalizing bs with
  | nil =>
      rw [List.mapM_nil, List.forall₂_nil_left_iff]
      constructor
      · rintro ⟨⟩
        rfl
      · rintro rfl
        rfl
  | cons a as ih =>
      rw [List.mapM_cons, bind_eq_ok]
      constructor
      · rintro ⟨b, hb, h⟩
        obtain ⟨bs', hbs, ⟨⟩⟩ := bind_eq_ok.mp h
        exact List.Forall₂.cons hb (ih.mp hbs)
      · intro h
        cases h with
        | cons hb hbs =>
            exact ⟨_, hb, bind_eq_ok.mpr ⟨_, ih.mpr hbs, rfl⟩⟩

/-- When a list of computations succeeds, each of them does. -/
theorem exists_of_mapM_eq_ok {f : α → Except ε β} {as : List α} {bs : List β}
    (h : as.mapM f = .ok bs) {a : α} (ha : a ∈ as) :
  ∃ b, f a = .ok b
  := by
  rw [mapM_eq_ok] at h
  induction h with
  | nil => cases ha
  | cons hfirst hrest ih =>
      rcases List.mem_cons.mp ha with rfl | ha
      · exact ⟨_, hfirst⟩
      · exact ih ha

/-- When each value is computed exactly under a condition, all of them are exactly when the
condition holds of each. -/
theorem mapM_eq_ok_map {f : α → Except ε β} {P : α → Prop} {g : α → β}
    (h : ∀ {a b}, f a = .ok b ↔ P a ∧ b = g a) {as : List α} {bs : List β} :
  as.mapM f = .ok bs ↔ (∀ a ∈ as, P a) ∧ bs = as.map g
  := by
  rw [mapM_eq_ok]
  induction as generalizing bs with
  | nil => simp
  | cons a as ih =>
      rw [List.forall₂_cons_left_iff, List.forall_mem_cons, List.map_cons]
      constructor
      · rintro ⟨b, bs, hb, hbs, rfl⟩
        obtain ⟨hP, rfl⟩ := h.mp hb
        obtain ⟨hall, rfl⟩ := ih.mp hbs
        exact ⟨⟨hP, hall⟩, rfl⟩
      · rintro ⟨⟨hP, hall⟩, rfl⟩
        exact ⟨g a, as.map g, h.mpr ⟨hP, rfl⟩, ih.mpr ⟨hall, rfl⟩, rfl⟩

/-- When a list of computations fails, one of them does. -/
theorem exists_of_mapM_eq_error {f : α → Except ε β} {as : List α} {e : ε}
    (h : as.mapM f = .error e) :
  ∃ a ∈ as, f a = .error e
  := by
  induction as with
  | nil => cases h
  | cons a as ih =>
      rw [List.mapM_cons] at h
      rcases bind_eq_error.mp h with ha | ⟨b, -, h⟩
      · use a, List.mem_cons_self, ha
      · rcases bind_eq_error.mp h with has | ⟨bs, -, h⟩
        · obtain ⟨a', ha', he⟩ := ih has
          use a', List.mem_cons_of_mem a ha', he
        · cases h

end Except

namespace StateT

variable {σ : Type u} {ε : Type*} {α β : Type u}

/-- A sequence of two stateful steps succeeds exactly when the first one does, and the
second one does on its value and from its state. -/
theorem run_bind_eq_ok {x : StateT σ (Except ε) α} {f : α → StateT σ (Except ε) β}
    {s s' : σ} {b : β} :
  (x >>= f).run s = .ok (b, s') ↔ ∃ a t, x.run s = .ok (a, t) ∧ (f a).run t = .ok (b, s')
  := by
  rw [StateT.run_bind, Except.bind_eq_ok]
  constructor
  · rintro ⟨⟨a, t⟩, hx, hf⟩
    use a, t, hx, hf
  · rintro ⟨a, t, hx, hf⟩
    use (a, t), hx, hf

/-- A step without state leaves the state as it is. -/
theorem run_lift_eq_ok {x : Except ε α} {s s' : σ} {a : α} :
  (liftM x : StateT σ (Except ε) α).run s = .ok (a, s') ↔ x = .ok a ∧ s' = s
  := by
  cases x with
  | error e =>
      constructor
      · intro h
        cases h
      · rintro ⟨⟨⟩, _⟩
  | ok b =>
      constructor
      · rintro ⟨⟩
        exact ⟨rfl, rfl⟩
      · rintro ⟨⟨⟩, rfl⟩
        rfl

/-- The value of a stateful computation is the value of its run. -/
theorem run'_eq_ok {x : StateT σ (Except ε) α} {s : σ} {a : α} :
  x.run' s = .ok a ↔ ∃ s', x.run s = .ok (a, s')
  := by
  rw [StateT.run'_eq]
  cases x.run s with
  | error e =>
      constructor
      · intro h
        cases h
      · rintro ⟨_, ⟨⟩⟩
  | ok pair =>
      constructor
      · rintro ⟨⟩
        exact ⟨pair.2, rfl⟩
      · rintro ⟨_, ⟨⟩⟩
        rfl

/-- The values of a list of stateful computations are each the value of its own. -/
theorem run_mapM_eq_ok {f : α → StateT σ (Except ε) β} {as : List α} {bs : List β} {s s' : σ}
    (h : (as.mapM f).run s = .ok (bs, s')) :
  List.Forall₂ (fun a b => ∃ t t', (f a).run t = .ok (b, t')) as bs
  := by
  induction as generalizing bs s with
  | nil =>
      rw [List.mapM_nil] at h
      cases h
      exact List.Forall₂.nil
  | cons a as ih =>
      rw [List.mapM_cons] at h
      obtain ⟨b, t, hb, h⟩ := run_bind_eq_ok.mp h
      obtain ⟨bs', t', hbs, h⟩ := run_bind_eq_ok.mp h
      cases h
      exact List.Forall₂.cons ⟨s, t, hb⟩ (ih hbs)

end StateT

/-- What is computed for each element of a list is computed for the list. -/
theorem Option.exists_mapM_eq_some {α β : Type*} {f : α → Option β} {r : α → β → Prop}
    {as : List α} (h : ∀ a ∈ as, ∃ b, f a = some b ∧ r a b) :
  ∃ bs, as.mapM f = some bs ∧ List.Forall₂ r as bs
  := by
  induction as with
  | nil => exact ⟨[], rfl, List.Forall₂.nil⟩
  | cons a as ih =>
      obtain ⟨b, hb, hr⟩ := h a List.mem_cons_self
      obtain ⟨bs, hbs, hrest⟩ := ih fun a' ha' => h a' (List.mem_cons_of_mem a ha')
      refine ⟨b :: bs, ?_, List.Forall₂.cons hr hrest⟩
      rw [List.mapM_cons, hb, hbs]
      rfl

/-- What is on the right of related lists is related to something on the left. -/
theorem List.Forall₂.exists_mem_left {α β : Type*} {r : α → β → Prop} {as : List α} {bs : List β}
    (h : List.Forall₂ r as bs) {b : β} (hb : b ∈ bs) :
  ∃ a ∈ as, r a b
  := by
  induction h with
  | nil => cases hb
  | cons hfirst hrest ih =>
      rcases List.mem_cons.mp hb with rfl | hb
      · exact ⟨_, List.mem_cons_self, hfirst⟩
      · obtain ⟨a, ha, hr⟩ := ih hb
        exact ⟨a, List.mem_cons_of_mem _ ha, hr⟩

/-- Elements that are each related to something are related to a list. -/
theorem List.exists_forall₂ {α β : Type*} {r : α → β → Prop} {as : List α}
    (h : ∀ a ∈ as, ∃ b, r a b) :
  ∃ bs, List.Forall₂ r as bs
  := by
  induction as with
  | nil => exact ⟨[], List.Forall₂.nil⟩
  | cons a as ih =>
      obtain ⟨b, hb⟩ := h a List.mem_cons_self
      obtain ⟨bs, hbs⟩ := ih fun a' ha' => h a' (List.mem_cons_of_mem a ha')
      exact ⟨b :: bs, List.Forall₂.cons hb hbs⟩

/-- How a call ends early: with an error it returns, or by a panic. -/
inductive Failure (ε : Type*) where
  | error (e : ε)
  | panicked
deriving DecidableEq, Repr

/-- A computation whose failures are all errors does not panic. -/
theorem Except.mapError_error_ne_panicked {ε α : Type*} {x : Except ε α} :
  x.mapError Failure.error ≠ .error .panicked
  := by
  rcases x with e | a
  · simp [Except.mapError]
  · simp [Except.mapError]

/-- The value of a computation that is expected to succeed; on an error the call panics. -/
def Except.expect {ε ε' α : Type*} : (x : Except ε α) → Except (Failure ε') { a // x = .ok a }
  | .ok a => .ok ⟨a, rfl⟩
  | .error _ => .error .panicked

/-- The value, or the given error when there is none. -/
def Option.okOr {ε α : Type*} (o : Option α) (e : ε) : Except ε α :=
  match o with
  | some a => .ok a
  | none => .error e

/-- A value that may be missing is found exactly when it is there. -/
theorem Option.okOr_eq_ok {ε α : Type*} {o : Option α} {e : ε} {a : α} :
  o.okOr e = .ok a ↔ o = some a
  := by
  cases o with
  | none => simp [Option.okOr]
  | some _ => simp [Option.okOr]

/-- A value that may be missing is an error exactly when it is missing. -/
theorem Option.okOr_eq_error {ε α : Type*} {o : Option α} {e e' : ε} :
  o.okOr e = .error e' ↔ o = none ∧ e = e'
  := by
  cases o with
  | none => simp [Option.okOr]
  | some _ => simp [Option.okOr]

/-- The next number of 8 bits; the call panics when there is none. -/
def UInt8.succOrPanic {ε : Type*} (n : UInt8) : Except (Failure ε) UInt8 :=
  if n.toNat + 1 < 2 ^ 8 then .ok (n + 1) else .error .panicked

/-- The next number of 8 bits is one greater. -/
theorem UInt8.succOrPanic_eq_ok {ε : Type*} {n m : UInt8}
    (h : (n.succOrPanic : Except (Failure ε) UInt8) = .ok m) :
  m.toNat = n.toNat + 1
  := by
  rw [UInt8.succOrPanic] at h
  split_ifs at h with hfits
  cases h
  rw [UInt8.toNat_add, UInt8.toNat_one, Nat.mod_eq_of_lt hfits]

/-- The next number of 32 bits; the call panics when there is none. -/
def UInt32.succOrPanic {ε : Type*} (n : UInt32) : Except (Failure ε) UInt32 :=
  if n.toNat + 1 < 2 ^ 32 then .ok (n + 1) else .error .panicked

/-- The next number of 32 bits is one greater. -/
theorem UInt32.succOrPanic_eq_ok {ε : Type*} {n m : UInt32}
    (h : (n.succOrPanic : Except (Failure ε) UInt32) = .ok m) :
  m.toNat = n.toNat + 1
  := by
  rw [UInt32.succOrPanic] at h
  split_ifs at h with hfits
  cases h
  rw [UInt32.toNat_add, UInt32.toNat_one, Nat.mod_eq_of_lt hfits]

/-- The number of 64 bits, or nothing where an operation overflows. -/
def Int64.checked (n : ℤ) : Option Int64 :=
  if -2 ^ 63 ≤ n ∧ n < 2 ^ 63 then some (Int64.ofInt n) else none

/-- Where nothing overflows the number of 64 bits is the result. -/
theorem Int64.checked_eq_some {n : ℤ} {x : Int64} :
  Int64.checked n = some x ↔ x.toInt = n
  := by
  rw [Int64.checked]
  constructor
  · intro h
    split_ifs at h with hfits
    cases h
    apply Int64.toInt_ofInt_of_le hfits.1 hfits.2
  · rintro rfl
    rw [if_pos ⟨x.le_toInt, x.toInt_lt⟩, Int64.ofInt_toInt]

/-- A result that fits is there. -/
theorem Int64.exists_checked {n : ℤ} (hle : -2 ^ 63 ≤ n) (hlt : n < 2 ^ 63) :
  ∃ x, Int64.checked n = some x
  := by
  use Int64.ofInt n
  apply if_pos ⟨hle, hlt⟩

/-- The difference of two numbers, or the bound of the 64 bits it passes. -/
def Int64.saturatingSub (a b : Int64) : Int64 :=
  Int64.ofInt (max (-2 ^ 63) (min (2 ^ 63 - 1) (a.toInt - b.toInt)))

/-- A number above the lower bound is at most a saturated difference exactly when it is at most
the difference. -/
theorem Int64.le_saturatingSub {a b c : Int64} (hc : -2 ^ 63 < c.toInt) :
  c ≤ a.saturatingSub b ↔ c.toInt ≤ a.toInt - b.toInt
  := by
  have hlt := c.toInt_lt
  rw [Int64.le_iff_toInt_le, Int64.saturatingSub, Int64.toInt_ofInt_of_le]
  · omega
  · apply le_max_left
  · omega
