import OpenLoops.Domain.Ids
import OpenLoops.Library.Fallible

/-!
# Local times

A wall-clock time on a civil day is resolved to the instants at which the clocks show it,
in a zone whose offset changes at most once.  The clock shows a time at one instant, at two
when it is set back over it, or at none when it is set forward over it.
-/

namespace Domain

/-! ### The calendar -/

/-- A day, counted from the day of the epoch. -/
structure CivilDay where
  days : Int64
deriving DecidableEq, Repr

def isLeapYear (year : Int32) : Bool :=
  year % 4 = 0 && (year % 100 ≠ 0 || year % 400 = 0)

/-- The number of days of a month, or zero outside of the catalog. -/
def daysInMonth (year : Int32) (month : UInt32) : UInt32 :=
  if month ∈ [1, 3, 5, 7, 8, 10, 12] then 31
  else if month ∈ [4, 6, 9, 11] then 30
  else if month = 2 then
    if isLeapYear year then 29 else 28
  else 0

/-- Whether there is such a date. -/
def isValidCivilDate (year : Int32) (month day : UInt32) : Bool :=
  1 ≤ month && month ≤ 12 && 1 ≤ day && day ≤ daysInMonth year month

/-- The number of days from the epoch to a date; divisions round towards zero. -/
def daysFromCivil (year : Int32) (month day : UInt32) : ℤ :=
  let y : ℤ := if month ≤ 2 then year.toInt - 1 else year.toInt
  let era := (if 0 ≤ y then y else y - 399).tdiv 400
  let yearOfEra := y - era * 400
  let monthIndex : ℤ := month.toNat + if 2 < month then -3 else 9
  let dayOfYear := (153 * monthIndex + 2).tdiv 5 + day.toNat - 1
  let dayOfEra := yearOfEra * 365 + yearOfEra.tdiv 4 - yearOfEra.tdiv 100 + dayOfYear
  era * 146097 + dayOfEra - 719468

/-- The day of a date. -/
def CivilDay.ofCivil (year : Int32) (month day : UInt32) : CivilDay :=
  ⟨Int64.ofInt (daysFromCivil year month day)⟩

/-- The month and the day of a date are small. -/
theorem isValidCivilDate_le {year : Int32} {month day : UInt32}
    (h : isValidCivilDate year month day = true) :
  month.toNat ≤ 12 ∧ day.toNat ≤ 31
  := by
  simp only [isValidCivilDate, Bool.and_eq_true, decide_eq_true_iff] at h
  obtain ⟨⟨⟨-, hmonth⟩, -⟩, hday⟩ := h
  constructor
  · apply UInt32.le_iff_toNat_le.mp hmonth
  · apply (UInt32.le_iff_toNat_le.mp hday).trans
    rw [daysInMonth]
    split_ifs <;> decide

/-- A quotient that is rounded towards zero times the divisor is near the dividend. -/
theorem mul_tdiv_bounds (n : ℤ) {k : ℤ} (hk : 0 < k) :
  n - k < k * n.tdiv k ∧ k * n.tdiv k < n + k
  := by
  have hsum := Int.mul_tdiv_add_tmod n k
  have hlt := Int.tmod_lt_of_pos n hk
  have hlt' := Int.lt_tmod_of_pos n hk
  constructor
  · omega
  · omega

/-- The day count of every date is far from the bounds of 64 bits. -/
theorem daysFromCivil_bounds {year : Int32} {month day : UInt32}
    (h : isValidCivilDate year month day = true) :
  -2 ^ 41 < daysFromCivil year month day ∧ daysFromCivil year month day < 2 ^ 41
  := by
  obtain ⟨hmonth, hday⟩ := isValidCivilDate_le h
  have hyear := year.toInt_lt
  have hyear' := year.le_toInt
  have hmonthIndex : -3 ≤ (month.toNat : ℤ) + (if 2 < month then -3 else 9)
      ∧ (month.toNat : ℤ) + (if 2 < month then -3 else 9) ≤ 21 := by
    split_ifs
    · omega
    · omega
  rw [daysFromCivil]
  generalize hy : (if month ≤ 2 then year.toInt - 1 else year.toInt) = y
  generalize (month.toNat : ℤ) + (if 2 < month then -3 else 9) = monthIndex at *
  have hera := mul_tdiv_bounds (if 0 ≤ y then y else y - 399) (show (0 : ℤ) < 400 by decide)
  generalize (if 0 ≤ y then y else y - 399).tdiv 400 = era at *
  have hyearOfEra : -800 ≤ y - era * 400 ∧ y - era * 400 ≤ 800 := by
    split_ifs at hera
    · omega
    · omega
  have hera' : -2 ^ 23 < era ∧ era < 2 ^ 23 := by
    split_ifs at hy
    · omega
    · omega
  generalize y - era * 400 = yearOfEra at *
  have hfourth := mul_tdiv_bounds yearOfEra (show (0 : ℤ) < 4 by decide)
  have hhundredth := mul_tdiv_bounds yearOfEra (show (0 : ℤ) < 100 by decide)
  have hfifth := mul_tdiv_bounds (153 * monthIndex + 2) (show (0 : ℤ) < 5 by decide)
  constructor
  · omega
  · omega

/-! ### Zones -/

/-- One change of the offset of a zone. -/
structure DstTransition where
  transitionInstant : UnixSeconds
  /-- The offset before the instant. -/
  offsetBeforeSeconds : Int32
  /-- The offset from the instant on. -/
  offsetAfterSeconds : Int32
deriving DecidableEq, Repr

/-- The offsets of a zone, which change at most once. -/
structure TimezoneContext where
  baseOffsetSeconds : Int32
  transition : Option DstTransition
deriving DecidableEq, Repr

/-- The offset in force at an instant. -/
def offsetAt (instant : UnixSeconds) (timezone : TimezoneContext) : Int32 :=
  match timezone.transition with
  | none => timezone.baseOffsetSeconds
  | some transition =>
      if transition.transitionInstant.seconds ≤ instant.seconds then
        transition.offsetAfterSeconds
      else transition.offsetBeforeSeconds

/-- Why a wall-clock time is not shown at exactly one instant. -/
inductive DstAmbiguityReason where
  | repeatedWallClockHour
  | nonexistentWallClockTime
deriving DecidableEq, Repr

inductive LocalResolution where
  | unambiguous (instant : UnixSeconds)
  /-- The readings under the offset before the transition and under the one after it. -/
  | ambiguous (candidates : UnixSeconds × UnixSeconds) (reason : DstAmbiguityReason)
deriving DecidableEq, Repr

/-- Resolve a time of day, or nothing where the numbers overflow. -/
def resolveLocal (day : CivilDay) (secondsSinceMidnight : UInt32)
    (timezone : TimezoneContext) : Option LocalResolution := do
  let midnight ← Int64.checked (day.days.toInt * 86400)
  let naive ← Int64.checked (midnight.toInt + secondsSinceMidnight.toNat)
  match timezone.transition with
  | none =>
      let instant ← Int64.checked (naive.toInt - timezone.baseOffsetSeconds.toInt)
      return .unambiguous ⟨instant⟩
  | some transition =>
      let candidateBefore ← Int64.checked (naive.toInt - transition.offsetBeforeSeconds.toInt)
      let candidateAfter ← Int64.checked (naive.toInt - transition.offsetAfterSeconds.toInt)
      let validBefore : Bool := candidateBefore < transition.transitionInstant.seconds
      let validAfter : Bool := candidateAfter ≥ transition.transitionInstant.seconds
      return match validBefore, validAfter with
        | true, false => .unambiguous ⟨candidateBefore⟩
        | false, true => .unambiguous ⟨candidateAfter⟩
        | true, true => .ambiguous (⟨candidateBefore⟩, ⟨candidateAfter⟩) .repeatedWallClockHour
        | false, false =>
            .ambiguous (⟨candidateBefore⟩, ⟨candidateAfter⟩) .nonexistentWallClockTime

/-! ### Exactness -/

/-- The seconds a wall clock shows at a time of day, counted from the day of the epoch. -/
def wallClock (day : CivilDay) (secondsSinceMidnight : UInt32) : ℤ :=
  day.days.toInt * 86400 + secondsSinceMidnight.toNat

/-- The wall clock of the zone shows `n` at the instant. -/
def Shows (timezone : TimezoneContext) (n : ℤ) (instant : UnixSeconds) : Prop :=
  instant.seconds.toInt + (offsetAt instant timezone).toInt = n

/-- In a zone without a transition a time is shown at one instant. -/
theorem shows_iff_of_fixed {timezone : TimezoneContext} (h : timezone.transition = none)
    {n : ℤ} {x : Int64} (hx : x.toInt = n - timezone.baseOffsetSeconds.toInt)
    (t : UnixSeconds) :
  Shows timezone n t ↔ t = ⟨x⟩
  := by
  obtain ⟨t⟩ := t
  rw [Shows, offsetAt, h, UnixSeconds.mk.injEq, ← Int64.toInt_inj]
  dsimp only
  omega

/-- In a zone with a transition a time is shown at the reading before it, if that is before,
and at the reading after it, if that is not before. -/
theorem shows_iff_of_transition {timezone : TimezoneContext} {transition : DstTransition}
    (h : timezone.transition = some transition) {n : ℤ} {b a : Int64}
    (hb : b.toInt = n - transition.offsetBeforeSeconds.toInt)
    (ha : a.toInt = n - transition.offsetAfterSeconds.toInt) (t : UnixSeconds) :
  Shows timezone n t ↔
    (t = ⟨b⟩ ∧ b < transition.transitionInstant.seconds)
      ∨ (t = ⟨a⟩ ∧ transition.transitionInstant.seconds ≤ a)
  := by
  obtain ⟨t⟩ := t
  rw [Shows, offsetAt, h, UnixSeconds.mk.injEq, UnixSeconds.mk.injEq, ← Int64.toInt_inj,
    ← Int64.toInt_inj, Int64.lt_iff_toInt_lt, Int64.le_iff_toInt_le]
  dsimp only
  split_ifs with hle
  · rw [Int64.le_iff_toInt_le] at hle
    omega
  · rw [Int64.le_iff_toInt_le] at hle
    omega

/-- What a resolution says of the instants at which the time is shown. -/
inductive ResolvesTo (shown : UnixSeconds → Prop) : LocalResolution → Prop where
  | once {x : UnixSeconds} (h : ∀ t, shown t ↔ t = x) : ResolvesTo shown (.unambiguous x)
  | twice {b a : UnixSeconds} (hlt : b.seconds < a.seconds) (h : ∀ t, shown t ↔ t = b ∨ t = a) :
      ResolvesTo shown (.ambiguous (b, a) .repeatedWallClockHour)
  | never {candidates : UnixSeconds × UnixSeconds} (h : ∀ t, ¬ shown t) :
      ResolvesTo shown (.ambiguous candidates .nonexistentWallClockTime)

/-- A time is resolved to the instants at which it is shown. -/
theorem resolveLocal_resolvesTo {day : CivilDay} {secondsSinceMidnight : UInt32}
    {timezone : TimezoneContext} {r : LocalResolution}
    (h : resolveLocal day secondsSinceMidnight timezone = some r) :
  ResolvesTo (Shows timezone (wallClock day secondsSinceMidnight)) r
  := by
  obtain ⟨midnight, hmidnight, h⟩ := Option.bind_eq_some_iff.mp h
  obtain ⟨naive, hnaive, h⟩ := Option.bind_eq_some_iff.mp h
  rw [Int64.checked_eq_some] at hmidnight hnaive
  have hwall : naive.toInt = wallClock day secondsSinceMidnight := by
    rw [hnaive, hmidnight, wallClock]
  cases htransition : timezone.transition with
  | none =>
      rw [htransition] at h
      obtain ⟨x, hx, ⟨⟩⟩ := Option.bind_eq_some_iff.mp h
      rw [Int64.checked_eq_some, hwall] at hx
      apply ResolvesTo.once
      apply shows_iff_of_fixed htransition hx
  | some transition =>
      rw [htransition] at h
      obtain ⟨b, hb, h⟩ := Option.bind_eq_some_iff.mp h
      obtain ⟨a, ha, h⟩ := Option.bind_eq_some_iff.mp h
      rw [Int64.checked_eq_some, hwall] at hb ha
      have hshows := shows_iff_of_transition htransition hb ha
      by_cases hbefore : b < transition.transitionInstant.seconds
      · by_cases hafter : transition.transitionInstant.seconds ≤ a
        · simp only [hbefore, hafter, decide_true] at h
          cases h
          apply ResolvesTo.twice
          · apply Int64.lt_of_lt_of_le hbefore hafter
          · intro t
            rw [hshows]
            simp only [hbefore, hafter, and_true]
        · simp only [hbefore, hafter, decide_true, decide_false] at h
          cases h
          apply ResolvesTo.once
          intro t
          rw [hshows]
          simp only [hbefore, hafter, and_true, and_false, or_false]
      · by_cases hafter : transition.transitionInstant.seconds ≤ a
        · simp only [hbefore, hafter, decide_true, decide_false] at h
          cases h
          apply ResolvesTo.once
          intro t
          rw [hshows]
          simp only [hbefore, hafter, and_true, and_false, false_or]
        · simp only [hbefore, hafter, decide_false] at h
          cases h
          apply ResolvesTo.never
          intro t
          rw [hshows]
          simp only [hbefore, hafter, and_false, or_false, not_false_iff]

/-- Every time of every date is resolved. -/
theorem exists_resolveLocal {year : Int32} {month day : UInt32}
    (h : isValidCivilDate year month day = true) (secondsSinceMidnight : UInt32)
    (timezone : TimezoneContext) :
  ∃ r, resolveLocal (.ofCivil year month day) secondsSinceMidnight timezone = some r
  := by
  obtain ⟨hlower, hupper⟩ := daysFromCivil_bounds h
  have hdays : (CivilDay.ofCivil year month day).days.toInt = daysFromCivil year month day := by
    apply Int64.toInt_ofInt_of_le
    · omega
    · omega
  have hseconds := secondsSinceMidnight.toNat_lt
  -- what is subtracted from the wall clock is an offset of 32 bits
  have hread : ∀ (naive : Int64) (offset : Int32),
      naive.toInt = daysFromCivil year month day * 86400 + secondsSinceMidnight.toNat →
      ∃ x, Int64.checked (naive.toInt - offset.toInt) = some x := by
    intro naive offset hnaive
    have hoffset := offset.toInt_lt
    have hoffset' := offset.le_toInt
    apply Int64.exists_checked
    · omega
    · omega
  obtain ⟨midnight, hmidnight⟩ : ∃ x, Int64.checked
      ((CivilDay.ofCivil year month day).days.toInt * 86400) = some x := by
    rw [hdays]
    apply Int64.exists_checked
    · omega
    · omega
  have hmidnight' := Int64.checked_eq_some.mp hmidnight
  rw [hdays] at hmidnight'
  obtain ⟨naive, hnaive⟩ : ∃ x, Int64.checked
      (midnight.toInt + secondsSinceMidnight.toNat) = some x := by
    rw [hmidnight']
    apply Int64.exists_checked
    · omega
    · omega
  have hnaive' := Int64.checked_eq_some.mp hnaive
  rw [hmidnight'] at hnaive'
  rw [resolveLocal, hmidnight, Option.bind_eq_bind, Option.bind_some, hnaive, Option.bind_some]
  cases timezone.transition with
  | none =>
      obtain ⟨x, hx⟩ := hread naive timezone.baseOffsetSeconds hnaive'
      exact ⟨_, Option.bind_eq_some_iff.mpr ⟨x, hx, rfl⟩⟩
  | some transition =>
      obtain ⟨b, hb⟩ := hread naive transition.offsetBeforeSeconds hnaive'
      obtain ⟨a, ha⟩ := hread naive transition.offsetAfterSeconds hnaive'
      exact ⟨_, Option.bind_eq_some_iff.mpr ⟨b, hb, Option.bind_eq_some_iff.mpr ⟨a, ha, rfl⟩⟩⟩

/-- Two instants are on the same side of the transition, if there is one. -/
def SameSide (timezone : TimezoneContext) (x y : UnixSeconds) : Prop :=
  ∀ transition, timezone.transition = some transition →
    (transition.transitionInstant.seconds ≤ x.seconds
      ↔ transition.transitionInstant.seconds ≤ y.seconds)

/-- The same offset is in force on the same side of the transition. -/
theorem SameSide.offsetAt_eq {timezone : TimezoneContext} {x y : UnixSeconds}
    (h : SameSide timezone x y) :
  offsetAt x timezone = offsetAt y timezone
  := by
  rw [offsetAt, offsetAt]
  cases htransition : timezone.transition with
  | none => rfl
  | some transition => simp only [h transition htransition]

section

variable {shown : UnixSeconds → Prop} {r : LocalResolution} (h : ResolvesTo shown r)
include h

/-- A time is resolved to an instant exactly when it is shown at this instant only. -/
theorem ResolvesTo.eq_unambiguous_iff (x : UnixSeconds) :
  r = .unambiguous x ↔ ∀ t, shown t ↔ t = x
  := by
  cases h with
  | once hx =>
      constructor
      · rintro ⟨⟩
        apply hx
      · intro hy
        rw [(hy _).mp ((hx _).mpr rfl)]
  | twice hlt hba =>
      apply iff_of_false
      · rintro ⟨⟩
      · intro hx
        have hb := (hx _).mp ((hba _).mpr (Or.inl rfl))
        have ha := (hx _).mp ((hba _).mpr (Or.inr rfl))
        rw [hb, ha] at hlt
        apply Int64.lt_irrefl hlt
  | never hnone =>
      apply iff_of_false
      · rintro ⟨⟩
      · intro hx
        apply hnone x ((hx x).mpr rfl)

/-- A time is repeated exactly when it is shown at two instants, which are given in their
order. -/
theorem ResolvesTo.eq_repeated_iff (b a : UnixSeconds) :
  r = .ambiguous (b, a) .repeatedWallClockHour ↔
    b.seconds < a.seconds ∧ ∀ t, shown t ↔ t = b ∨ t = a
  := by
  cases h with
  | once hx =>
      apply iff_of_false
      · rintro ⟨⟩
      · rintro ⟨hlt, hba⟩
        have hb := (hx _).mp ((hba _).mpr (Or.inl rfl))
        have ha := (hx _).mp ((hba _).mpr (Or.inr rfl))
        rw [hb, ha] at hlt
        apply Int64.lt_irrefl hlt
  | @twice b' a' hlt' hba' =>
      constructor
      · rintro ⟨⟩
        exact ⟨hlt', hba'⟩
      · rintro ⟨hlt, hba⟩
        have hb := (hba b').mp ((hba' b').mpr (Or.inl rfl))
        have ha := (hba a').mp ((hba' a').mpr (Or.inr rfl))
        rw [Int64.lt_iff_toInt_lt] at hlt hlt'
        rcases hb with rfl | rfl
        · rcases ha with rfl | rfl
          · omega
          · rfl
        · rcases ha with rfl | rfl
          · omega
          · omega
  | never hnone =>
      apply iff_of_false
      · rintro ⟨⟩
      · rintro ⟨-, hba⟩
        apply hnone b ((hba b).mpr (Or.inl rfl))

/-- A time does not exist exactly when it is not shown at any instant. -/
theorem ResolvesTo.eq_nonexistent_iff :
  (∃ candidates, r = .ambiguous candidates .nonexistentWallClockTime) ↔ ∀ t, ¬ shown t
  := by
  cases h with
  | once hx =>
      apply iff_of_false
      · rintro ⟨_, ⟨⟩⟩
      · intro hnone
        apply hnone _ ((hx _).mpr rfl)
  | twice hlt hba =>
      apply iff_of_false
      · rintro ⟨_, ⟨⟩⟩
      · intro hnone
        apply hnone _ ((hba _).mpr (Or.inl rfl))
  | never hnone => exact iff_of_true ⟨_, rfl⟩ hnone

end

/-- Local times are resolved exactly.  Every time of every date is resolved; it is resolved
to the one instant, or to both instants, at which the wall clock of the zone shows it, and
does not exist when there is none; and of two times resolved to instants on the same side of
the transition, the later one is resolved to the later instant. -/
theorem resolveLocal_exact (timezone : TimezoneContext) :
  (∀ year month day secondsSinceMidnight, isValidCivilDate year month day = true →
      ∃ r, resolveLocal (.ofCivil year month day) secondsSinceMidnight timezone = some r)
    ∧ (∀ day secondsSinceMidnight r,
      resolveLocal day secondsSinceMidnight timezone = some r →
      (∀ x, r = .unambiguous x ↔
          ∀ t, Shows timezone (wallClock day secondsSinceMidnight) t ↔ t = x)
        ∧ (∀ b a, r = .ambiguous (b, a) .repeatedWallClockHour ↔
          b.seconds < a.seconds
            ∧ ∀ t, Shows timezone (wallClock day secondsSinceMidnight) t ↔ t = b ∨ t = a)
        ∧ ((∃ candidates, r = .ambiguous candidates .nonexistentWallClockTime) ↔
          ∀ t, ¬ Shows timezone (wallClock day secondsSinceMidnight) t))
    ∧ ∀ day secondsSinceMidnight day' secondsSinceMidnight' x x',
      resolveLocal day secondsSinceMidnight timezone = some (.unambiguous x) →
      resolveLocal day' secondsSinceMidnight' timezone = some (.unambiguous x') →
      SameSide timezone x x' →
      wallClock day secondsSinceMidnight < wallClock day' secondsSinceMidnight' →
      x.seconds < x'.seconds
  := by
  refine ⟨?_, ?_, ?_⟩
  · intro year month day secondsSinceMidnight h
    apply exists_resolveLocal h
  · intro day secondsSinceMidnight r h
    have hr := resolveLocal_resolvesTo h
    exact ⟨hr.eq_unambiguous_iff, hr.eq_repeated_iff, hr.eq_nonexistent_iff⟩
  · intro day secondsSinceMidnight day' secondsSinceMidnight' x x' h h' hside hlt
    have hx := ((resolveLocal_resolvesTo h).eq_unambiguous_iff x).mp rfl x
    have hx' := ((resolveLocal_resolvesTo h').eq_unambiguous_iff x').mp rfl x'
    have hshows := hx.mpr rfl
    have hshows' := hx'.mpr rfl
    rw [Shows] at hshows hshows'
    rw [hside.offsetAt_eq] at hshows
    rw [Int64.lt_iff_toInt_lt]
    omega

/-- A zone whose clocks are set back from two to one on the first of November
2026. -/
def fallBack : TimezoneContext where
  baseOffsetSeconds := -14400
  transition := some
    { transitionInstant := ⟨1793512800⟩
      offsetBeforeSeconds := -14400
      offsetAfterSeconds := -18000 }

/-- On that day half past one is shown at two instants, an hour apart, and half past three is
later than half past two. -/
theorem fallBack_resolved :
  (∃ r, resolveLocal (.ofCivil 2026 11 1) 5400 fallBack = some r)
    ∧ (∀ t, Shows fallBack (wallClock (.ofCivil 2026 11 1) 5400) t ↔
      t = ⟨1793511000⟩ ∨ t = ⟨1793514600⟩)
    ∧ (1793518200 : Int64) < 1793521800
  := by
  obtain ⟨hresolved, hexact, hlater⟩ := resolveLocal_exact fallBack
  refine ⟨?_, ?_, ?_⟩
  · apply hresolved 2026 11 1 5400
    decide
  · have hrepeated : resolveLocal (.ofCivil 2026 11 1) 5400 fallBack = some (.ambiguous
        (⟨1793511000⟩, ⟨1793514600⟩) .repeatedWallClockHour) := by
      decide
    obtain ⟨-, htwice, -⟩ := hexact _ _ _ hrepeated
    apply ((htwice _ _).mp rfl).2
  · have htwo : resolveLocal (.ofCivil 2026 11 1) 9000 fallBack
        = some (.unambiguous ⟨1793518200⟩) := by
      decide
    have hthree : resolveLocal (.ofCivil 2026 11 1) 12600 fallBack
        = some (.unambiguous ⟨1793521800⟩) := by
      decide
    apply hlater _ _ _ _ ⟨1793518200⟩ ⟨1793521800⟩ htwo hthree
    · rintro _ ⟨⟩
      decide
    · decide

end Domain
