import OpenLoops.Domain.Weekdays

/-!
# Business days

A phrase that counts business days names the day that comes as that many of them later.  The count
may be zero; the day of the message is then named, whatever day it is.
-/

namespace Domain

variable {ε : Type*}

/-- The day with a number is from Monday to Friday. -/
def IsBusinessNumber (n : ℤ) : Prop :=
  weekdayOf n ≠ 0 ∧ weekdayOf n ≠ 6
deriving Decidable

theorem isBusinessDay_iff_number (day : CivilDay) :
  isBusinessDay day = true ↔ IsBusinessNumber day.days.toInt
  := isBusinessDay_iff

/-! ### Steps -/

/-- The next business day comes next. -/
theorem next_of_nextBusinessDay {day next : CivilDay}
    (h : nextBusinessDay (ε := ε) day = .ok next) :
  Occurrences.Next IsBusinessNumber day.days.toInt next.days.toInt
  := by
  obtain ⟨first, hfirst, hseek⟩ := Except.bind_eq_ok.mp h
  rw [CivilDay.addDays_eq_ok] at hfirst
  apply (next_of_seek isBusinessDay_iff_number hfirst hseek).1

theorem addBusinessDays_one (day : CivilDay) :
  addBusinessDays (ε := ε) day 1 = nextBusinessDay day
  := by
  rw [addBusinessDays]
  cases nextBusinessDay (ε := ε) day with
  | error e => rfl
  | ok next => rfl

/-- Business days are added one after the other. -/
theorem addBusinessDays_add (day : CivilDay) (m n : ℕ) :
  addBusinessDays (ε := ε) day (m + n) = (do addBusinessDays (← addBusinessDays day m) n)
  := by
  induction m generalizing day with
  | zero =>
      rw [Nat.zero_add]
      rfl
  | succ m ih =>
      rw [Nat.succ_add, addBusinessDays, addBusinessDays, bind_assoc]
      apply congrArg
      funext next
      apply ih

/-- So many business days later comes as many of them. -/
theorem nth_of_addBusinessDays {day later : CivilDay} {count : ℕ}
    (h : addBusinessDays (ε := ε) day (count + 1) = .ok later) :
  Occurrences.Nth IsBusinessNumber day.days.toInt (count + 1) later.days.toInt
  := by
  induction count generalizing later with
  | zero =>
      rw [addBusinessDays_one] at h
      apply (next_of_nextBusinessDay h).nth
  | succ count ih =>
      rw [addBusinessDays_add] at h
      obtain ⟨mid, hmid, hlast⟩ := Except.bind_eq_ok.mp h
      rw [addBusinessDays_one] at hlast
      apply (ih hmid).succ (next_of_nextBusinessDay hlast)

/-- More business days later is later. -/
theorem addBusinessDays_lt {day earlier later : CivilDay} {m n : ℕ} (hlt : m < n)
    (hm : addBusinessDays (ε := ε) day m = .ok earlier)
    (hn : addBusinessDays (ε := ε) day n = .ok later) :
  earlier.days.toInt < later.days.toInt
  := by
  obtain ⟨k, rfl⟩ := Nat.exists_eq_add_of_lt hlt
  rw [Nat.add_assoc, addBusinessDays_add, hm] at hn
  apply (nth_of_addBusinessDays hn).1

/-! ### Phrases -/

/-- The words of a phrase that counts business days. -/
inductive BusinessPhrase : List String → ℕ → Prop where
  | next : BusinessPhrase ["next", "business", "day"] 1
  | within {token : String} {count : ℕ} (h : parseBoundedCount token = .ok count) :
      BusinessPhrase ["in", token, "business", "days"] count

/-- The phrase counts no business days. -/
def CountsNone (value : String) : Prop :=
  BusinessPhrase (relativeTokens value) 0

/-- What is read as a business day is one, and comes as the one that is counted. -/
def FallsOnBusinessDay (kind : TemporalKind) (value : String) (context : ParseContext) : Prop :=
  ∀ today day, messageLocalDay (ε := ParseRejection) context = .ok today →
    reparse kind value context = .ok (.businessDay day) →
    isBusinessDay day = true
      ∧ ∀ count, BusinessPhrase (relativeTokens value) count →
        Occurrences.Nth IsBusinessNumber today.days.toInt count day.days.toInt

theorem businessPhrase_iff {tokens : List String} {count : ℕ} :
  BusinessPhrase tokens count ↔
    tokens = ["next", "business", "day"] ∧ count = 1
      ∨ ∃ token, tokens = ["in", token, "business", "days"] ∧ parseBoundedCount token = .ok count
  := by
  constructor
  · intro h
    cases h with
    | next => exact Or.inl ⟨rfl, rfl⟩
    | within h => exact Or.inr ⟨_, rfl, h⟩
  · rintro (⟨rfl, rfl⟩ | ⟨token, rfl, h⟩)
    · apply BusinessPhrase.next
    · apply BusinessPhrase.within h

/-- A phrase has one count. -/
theorem BusinessPhrase.unique {tokens : List String} {m n : ℕ} (h : BusinessPhrase tokens m)
    (h' : BusinessPhrase tokens n) :
  m = n
  := by
  rw [businessPhrase_iff] at h h'
  rcases h with ⟨rfl, rfl⟩ | ⟨token, rfl, h⟩
  · rcases h' with ⟨-, rfl⟩ | ⟨token', htokens, -⟩
    · rfl
    · simp at htokens
  · rcases h' with ⟨htokens, -⟩ | ⟨token', htokens, h'⟩
    · simp at htokens
    · simp only [List.cons.injEq, true_and, and_true] at htokens
      rw [htokens, h'] at h
      cases h
      rfl

theorem instantAt_ne {day : CivilDay} {context : ParseContext} {day' : CivilDay} :
  instantAt day context ≠ .ok (.businessDay day')
  := by
  intro h
  obtain ⟨_, -, ⟨⟩⟩ := Except.bind_eq_ok.mp h

/-- A business day is read of such a phrase only. -/
theorem parseRelativeTokens_eq_businessDay {today day : CivilDay} {context : ParseContext}
    {tokens : List String} :
  parseRelativeTokens today context tokens = .ok (.businessDay day) ↔
    ∃ count, BusinessPhrase tokens count
      ∧ addBusinessDays (ε := ParseRejection) today count = .ok day
  := by
  constructor
  · intro h
    rw [parseRelativeTokens.eq_def] at h
    split at h
    · cases h
    · exact absurd h instantAt_ne
    · exact absurd h instantAt_ne
    · exact absurd h instantAt_ne
    · obtain ⟨_, -, ⟨⟩⟩ := Except.bind_eq_ok.mp h
    · obtain ⟨_, -, h⟩ := Except.bind_eq_ok.mp h
      exact absurd h instantAt_ne
    · obtain ⟨_, -, h⟩ := Except.bind_eq_ok.mp h
      exact absurd h instantAt_ne
    · obtain ⟨_, -, ⟨⟩⟩ := Except.bind_eq_ok.mp h
    · obtain ⟨_, -, ⟨⟩⟩ := Except.bind_eq_ok.mp h
    · obtain ⟨_, -, ⟨⟩⟩ := Except.bind_eq_ok.mp h
    · obtain ⟨next, hnext, ⟨⟩⟩ := Except.bind_eq_ok.mp h
      exact ⟨1, .next, by rw [addBusinessDays_one, hnext]⟩
    · cases h
    · cases h
    · cases h
    · split at h
      · cases h
      · obtain ⟨_, -, h⟩ := Except.bind_eq_ok.mp h
        exact absurd h instantAt_ne
    · split at h
      · cases h
      · obtain ⟨_, -, h⟩ := Except.bind_eq_ok.mp h
        exact absurd h instantAt_ne
    · split at h
      · cases h
      · obtain ⟨_, -, ⟨⟩⟩ := Except.bind_eq_ok.mp h
    · obtain ⟨count, hcount, h⟩ := Except.bind_eq_ok.mp h
      obtain ⟨later, hlater, ⟨⟩⟩ := Except.bind_eq_ok.mp h
      exact ⟨count, .within hcount, hlater⟩
    · obtain ⟨_, -, h⟩ := Except.bind_eq_ok.mp h
      obtain ⟨_, -, ⟨⟩⟩ := Except.bind_eq_ok.mp h
    · cases h
  · rintro ⟨count, hphrase, hday⟩
    cases hphrase with
    | next =>
        rw [addBusinessDays_one] at hday
        rw [parseRelativeTokens, hday]
        rfl
    | within hcount =>
        rw [parseRelativeTokens, hcount]
        apply Except.bind_eq_ok.mpr
        exact ⟨count, rfl, by rw [hday]; rfl⟩

/-- A business day is read of a relative expression only. -/
theorem reparse_eq_businessDay {kind : TemporalKind} {value : String} {context : ParseContext}
    {today day : CivilDay} (htoday : messageLocalDay (ε := ParseRejection) context = .ok today) :
  reparse kind value context = .ok (.businessDay day) ↔
    kind = .relative ∧ ∃ count, BusinessPhrase (relativeTokens value) count
      ∧ addBusinessDays (ε := ParseRejection) today count = .ok day
  := by
  cases kind with
  | relative =>
      rw [reparse_relative_of_day htoday, parseRelativeTokens_eq_businessDay]
      simp only [true_and]
  | eventRelative => exact iff_of_false (by rintro ⟨⟩) (by rintro ⟨⟨⟩, -⟩)
  | softWindow =>
      apply iff_of_false _ (by rintro ⟨⟨⟩, -⟩)
      intro h
      rw [reparse, parseSoft] at h
      split at h
      all_goals cases h
  | date =>
      apply iff_of_false _ (by rintro ⟨⟨⟩, -⟩)
      intro h
      obtain ⟨_, -, ⟨⟩⟩ := Except.bind_eq_ok.mp h
  | localDatetime =>
      apply iff_of_false _ (by rintro ⟨⟨⟩, -⟩)
      intro h
      rw [reparse, parseExplicitDatetime] at h
      split_ifs at h
      · cases h
      · cases h
      · obtain ⟨_, -, h⟩ := Except.bind_eq_ok.mp h
        obtain ⟨_, -, h⟩ := Except.bind_eq_ok.mp h
        exact absurd h instantAt_ne

/-! ### Exactness -/

/-- A business day is read as it should be unless none are counted. -/
theorem fallsOnBusinessDay_iff (kind : TemporalKind) (value : String) (context : ParseContext) :
  FallsOnBusinessDay kind value context
    ↔ ¬ (kind = .relative ∧ CountsNone value ∧ context.InRange)
  := by
  constructor
  · rintro h ⟨rfl, hnone, hrange⟩
    obtain ⟨today, htoday, -⟩ := hrange.exists_messageLocalDay (ε := ParseRejection)
    -- the day of the message is named
    have hparse : reparse .relative value context = .ok (.businessDay today) := by
      rw [reparse_eq_businessDay htoday]
      exact ⟨rfl, 0, hnone, rfl⟩
    obtain ⟨-, hcount⟩ := h today today htoday hparse
    apply (hcount 0 hnone).ne_zero rfl
  · intro h today day htoday hparse
    obtain ⟨rfl, count, hphrase, hday⟩ := (reparse_eq_businessDay htoday).mp hparse
    cases count with
    | zero => exact absurd ⟨rfl, hphrase, (inRange_of_messageLocalDay htoday).1⟩ h
    | succ count =>
        have hnth := nth_of_addBusinessDays hday
        constructor
        · rw [isBusinessDay_iff_number]
          apply hnth.2.1
        · intro count' hphrase'
          rw [← hphrase.unique hphrase']
          apply hnth

/-- When none are counted the day of the message is named. -/
theorem isBusinessDay_of_reparse {value : String} {context : ParseContext} {today day : CivilDay}
    (htoday : messageLocalDay (ε := ParseRejection) context = .ok today)
    (h : reparse .relative value context = .ok (.businessDay day)) :
  isBusinessDay day = true ↔ ¬ CountsNone value ∨ isBusinessDay today = true
  := by
  obtain ⟨-, count, hphrase, hday⟩ := (reparse_eq_businessDay htoday).mp h
  cases count with
  | zero =>
      cases hday
      constructor
      · exact Or.inr
      · rintro (hnone | hday)
        · exact absurd hphrase hnone
        · exact hday
  | succ count =>
      apply iff_of_true
      · rw [isBusinessDay_iff_number]
        apply (nth_of_addBusinessDays hday).2.1
      · left
        intro hnone
        cases hphrase.unique hnone

/-- Business days are counted exactly unless none are counted.  What is read as a business day is
one, and comes as the one that is counted, exactly when the count is not zero; in a count of zero
the day of the message is named, whatever day it is.  More business days later is later, and
business days are added one after the other. -/
theorem businessDays_exact (kind : TemporalKind) (value : String) (context : ParseContext) :
  (FallsOnBusinessDay kind value context
      ↔ ¬ (kind = .relative ∧ CountsNone value ∧ context.InRange))
    ∧ (∀ today day, messageLocalDay (ε := ParseRejection) context = .ok today →
      reparse .relative value context = .ok (.businessDay day) →
      (isBusinessDay day = true ↔ ¬ CountsNone value ∨ isBusinessDay today = true))
    ∧ (∀ (day earlier later : CivilDay) (m n : ℕ), m < n →
      addBusinessDays (ε := ParseRejection) day m = .ok earlier →
      addBusinessDays (ε := ParseRejection) day n = .ok later →
      earlier.days.toInt < later.days.toInt)
    ∧ ∀ (day : CivilDay) (m n : ℕ), addBusinessDays (ε := ParseRejection) day (m + n)
      = (do addBusinessDays (← addBusinessDays day m) n)
  := by
  refine ⟨fallsOnBusinessDay_iff kind value context, ?_, ?_, addBusinessDays_add⟩
  · intro today day htoday h
    apply isBusinessDay_of_reparse htoday h
  · intro day earlier later m n hlt hm hn
    apply addBusinessDays_lt hlt hm hn

/-- Three business days from a Monday on are counted exactly. -/
theorem mondayMorning_counts :
  FallsOnBusinessDay .relative "in 3 business days" mondayMorning
  := by
  obtain ⟨hfalls, -, -, -⟩ := businessDays_exact .relative "in 3 business days" mondayMorning
  rw [hfalls]
  rintro ⟨-, hnone, -⟩
  have hthree : BusinessPhrase (relativeTokens "in 3 business days") 3 := by
    rw [show relativeTokens "in 3 business days" = ["in", "3", "business", "days"] by
      decide]
    apply BusinessPhrase.within
    decide
  cases hthree.unique hnone

/-- A message of Saturday, the eighth of August 2026. -/
def saturdayMorning : ParseContext where
  messageTimestamp := ⟨1786197600⟩
  timezone := ⟨-18000, none⟩
  eodSecondsSinceMidnight := 61200
  weekStart := .monday

/-- Zero business days from a Saturday on is that Saturday. -/
theorem saturdayMorning_counts :
  reparse .relative "in 0 business days" saturdayMorning = .ok (.businessDay (.ofCivil 2026 8 8))
    ∧ isBusinessDay (.ofCivil 2026 8 8) = false
    ∧ ¬ FallsOnBusinessDay .relative "in 0 business days" saturdayMorning
  := by
  have hday : messageLocalDay (ε := ParseRejection) saturdayMorning = .ok (.ofCivil 2026 8 8) := by
    decide +kernel
  have hparse : reparse .relative "in 0 business days" saturdayMorning
      = .ok (.businessDay (.ofCivil 2026 8 8)) := by
    decide +kernel
  have hweekend : isBusinessDay (.ofCivil 2026 8 8) = false := by
    decide
  refine ⟨hparse, hweekend, ?_⟩
  intro h
  rw [(h _ _ hday hparse).1] at hweekend
  cases hweekend

end Domain
