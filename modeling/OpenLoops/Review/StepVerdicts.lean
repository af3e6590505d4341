import OpenLoops.Review.ClosureWalk

/-!
# What a verdict rests on

A verdict does not depend on the order of the units.  It is reached from the outcomes that the units
bring, which are taken as a set, and the places and the weights of the answers are only recorded.
-/

namespace Review

namespace ClosureWalk

/-! ### Outcomes -/

/-- An effect without the place and the weight of the answer that it comes from. -/
inductive Outcome where
  | close (kind : ResolutionKind)
  | suggest (kind : SuggestedUpdateKind)
  | askedAgain
  | amended
  | newDate (source : DateSource)

def Effect.outcome : Effect → Outcome
  | .close kind _ => .close kind
  | .suggest kind _ _ _ => .suggest kind
  | .askedAgain _ => .askedAgain
  | .amended _ _ => .amended
  | .newDate source _ _ _ => .newDate source

inductive VerdictOutcome where
  | noResponse
  | escalate
  | apply (outcomes : List Outcome)

def StepVerdict.outcome : StepVerdict → VerdictOutcome
  | .noResponse => .noResponse
  | .escalate => .escalate
  | .apply effects => .apply (effects.map Effect.outcome)

theorem isTerminal_eq_of_outcome {e e' : Effect} (h : e.outcome = e'.outcome) :
  e.isTerminal = e'.isTerminal
  := by
  cases e <;> cases e' <;> first | rfl | cases h

/-- The rank of the effects with the outcome. -/
def Outcome.rank : Outcome → ℕ
  | .close _ => 0
  | .suggest _ => 0
  | .askedAgain => 1
  | .amended => 2
  | .newDate _ => 3

theorem rank_outcome (e : Effect) :
  e.outcome.rank = e.rank
  := by
  cases e <;> rfl

/-- Two effects that end an obligation have the same outcome if they end it alike. -/
theorem sameOutcome_iff {e e' : Effect} (he : e.isTerminal = true) :
  e.sameOutcome e' = true ↔ e.outcome = e'.outcome
  := by
  cases e <;> cases e' <;> simp [Effect.sameOutcome, Effect.outcome] <;> cases he

/-! ### What the units bring -/

section

variable (registry : Registry) (role : AuthorRole)

/-- An answer that matters for the role is gray.  Whether the action is still owed matters only if the
terms have changed. -/
def GrayMatters (unit : UnitAnswers) : Prop :=
  ∃ id ∈ role.branchIds, (id = wpStillOwed → unit.bandOf registry wpChangesTerms = .accept)
    ∧ unit.bandOf registry id = .gray

/-- The bands of the answers to the questions that are put for the role. -/
def bands (unit : UnitAnswers) : List Band :=
  (gate :: role.branchIds).map (unit.bandOf registry)

variable (units : List UnitAnswers)

/-- A unit that bears on the obligation has the effect. -/
def Brought (effect : Effect) : Prop :=
  ∃ unit ∈ units, unit.bandOf registry gate = .accept
    ∧ ∃ effects, unitEffects registry role unit = some effects ∧ effect ∈ effects

/-- Two of the effects that end the obligation end it in different ways. -/
def Conflict : Prop :=
  ∃ e e', Brought registry role units e ∧ Brought registry role units e'
    ∧ e.isTerminal = true ∧ e'.isTerminal = true ∧ e.sameOutcome e' = false

/-- It is not clear what the units say. -/
def Unclear : Prop :=
  ((∀ unit ∈ units, unit.bandOf registry gate ≠ .accept)
      ∧ ∃ unit ∈ units, unit.bandOf registry gate = .gray)
    ∨ (∃ unit ∈ units, unit.bandOf registry gate = .accept ∧ GrayMatters registry role unit)
    ∨ Conflict registry role units

end

variable {registry : Registry} {role : AuthorRole} {units units' : List UnitAnswers}

/-- The questions that are checked are those that matter, but for whether the action is still owed. -/
theorem mem_branchIds_iff {id : String} :
  id ∈ role.branchIds ↔ id ∈ checked role ∨ role = .waitingParty ∧ id = wpStillOwed
  := by
  cases role
  · simp only [AuthorRole.branchIds, waitingPartyIds, checked, List.mem_cons, List.not_mem_nil,
      or_false, true_and]
    tauto
  · simp [AuthorRole.branchIds, checked]
  · simp [AuthorRole.branchIds, checked]

theorem stillOwed_notMem_checked :
  wpStillOwed ∉ checked role
  := by
  cases role <;> decide

theorem grayMatters_iff {unit : UnitAnswers} :
  GrayMatters registry role unit ↔
    (∃ id ∈ checked role, unit.bandOf registry id = .gray)
      ∨ role = .waitingParty ∧ unit.bandOf registry wpChangesTerms = .accept
        ∧ unit.bandOf registry wpStillOwed = .gray
  := by
  constructor
  · rintro ⟨id, hid, hterms, hgray⟩
    rcases mem_branchIds_iff.mp hid with hchecked | ⟨hrole, rfl⟩
    · exact Or.inl ⟨id, hchecked, hgray⟩
    · exact Or.inr ⟨hrole, hterms rfl, hgray⟩
  · rintro (⟨id, hchecked, hgray⟩ | ⟨hrole, hterms, hgray⟩)
    · refine ⟨id, mem_branchIds_iff.mpr (Or.inl hchecked), ?_, hgray⟩
      rintro rfl
      exact absurd hchecked stillOwed_notMem_checked
    · exact ⟨wpStillOwed, mem_branchIds_iff.mpr (Or.inr ⟨hrole, rfl⟩), fun _ => hterms, hgray⟩

theorem changedTermsEffects_eq_none_iff {unit : UnitAnswers} :
  changedTermsEffects registry unit = none ↔
    unit.bandOf registry wpChangesTerms = .accept ∧ unit.bandOf registry wpStillOwed = .gray
  := by
  by_cases hterms : unit.bandOf registry wpChangesTerms = .accept
  · cases howed : unit.bandOf registry wpStillOwed <;> simp [changedTermsEffects, hterms, howed]
  · simp [changedTermsEffects, hterms]

theorem unitEffects_eq_none_iff {unit : UnitAnswers} :
  unitEffects registry role unit = none ↔ GrayMatters registry role unit
  := by
  rw [grayMatters_iff]
  by_cases hgray : ∃ id ∈ checked role, unit.bandOf registry id = .gray
  · have hany : ((checked role).any fun id => unit.bandOf registry id = .gray) = true := by
      simpa using hgray
    simp [unitEffects, hany, hgray]
  · have hany : ((checked role).any fun id => unit.bandOf registry id = .gray) = false := by
      simpa using hgray
    simp only [unitEffects.eq_def, hany, hgray, false_or, Bool.false_eq_true, if_false]
    cases role
    · simp [waitingPartyEffects, changedTermsEffects_eq_none_iff]
    · simp
    · simp

/-! ### The effects of a unit -/

/-- The role of the author allows the effect: only the waiting party closes an obligation, and a new
date comes from the author. -/
def Allowed (role : AuthorRole) : Effect → Prop
  | .close _ _ => role = .waitingParty
  | .newDate source _ _ _ => source = .waitingParty ↔ role = .waitingParty
  | _ => True

theorem eq_of_mem_effectIf {unit : UnitAnswers} {id : String} {e effect : Effect}
    (h : e ∈ effectIf registry unit id effect) :
  e = effect
  := by
  rw [effectIf] at h
  split_ifs at h
  · exact List.mem_singleton.mp h
  · cases h

theorem notMem_changedTermsEffects {unit : UnitAnswers} {effects : List Effect} {source : DateSource}
    {ordinal : ℕ} {kind : UnitKind} {probability : ℚ}
    (heffects : changedTermsEffects registry unit = some effects) :
  Effect.newDate source ordinal kind probability ∉ effects
  := by
  rw [changedTermsEffects.eq_def] at heffects
  split at heffects
  · split at heffects <;> cases heffects <;> simp
  · cases heffects
    simp

theorem allowed_of_mem_waitingPartyEffects {unit : UnitAnswers} {effects : List Effect} {e : Effect}
    (heffects : waitingPartyEffects registry unit = some effects) (he : e ∈ effects) :
  Allowed .waitingParty e
  := by
  cases e with
  | newDate source ordinal kind probability =>
      obtain ⟨changed, hchanged, rfl⟩ := Option.map_eq_some_iff.mp heffects
      simp only [List.mem_append] at he
      rcases he with (((he | he) | he) | he) | he
      · cases eq_of_mem_effectIf he
      · cases eq_of_mem_effectIf he
      · exact absurd he (notMem_changedTermsEffects hchanged)
      · cases eq_of_mem_effectIf he
      · cases eq_of_mem_effectIf he
        simp [Allowed]
  | close kind ordinal => rfl
  | _ => trivial

theorem allowed_of_mem_unitEffects {unit : UnitAnswers} {effects : List Effect} {e : Effect}
    (heffects : unitEffects registry role unit = some effects) (he : e ∈ effects) :
  Allowed role e
  := by
  rw [unitEffects.eq_def] at heffects
  split_ifs at heffects
  cases role with
  | waitingParty => exact allowed_of_mem_waitingPartyEffects heffects he
  | user =>
      cases heffects
      simp only [userEffects, List.mem_append, List.mem_flatMap] at he
      rcases he with ⟨entry, hentry, he⟩ | he
      · cases eq_of_mem_effectIf he
        trivial
      · cases eq_of_mem_effectIf he
        simp [Allowed]
  | thirdParty =>
      cases heffects
      cases eq_of_mem_effectIf he
      trivial

/-- An effect that does not end the obligation has one outcome, by its rank. -/
theorem outcome_eq_of_rank {e e' : Effect} (he : Allowed role e) (he' : Allowed role e')
    (hopen : e.isTerminal = false) (hrank : e.rank = e'.rank) :
  e.outcome = e'.outcome
  := by
  cases e <;> cases hopen <;> cases e' <;> cases hrank
  · rfl
  · rfl
  · rename_i source _ _ _ source' _ _ _
    have hsource : source = .waitingParty ↔ source' = .waitingParty := he.trans he'.symm
    cases source <;> cases source' <;> simp_all [Effect.outcome]

theorem map_outcome_effectIf {unit : UnitAnswers} {id : String} {effect : Effect} :
  (effectIf registry unit id effect).map Effect.outcome
    = if unit.bandOf registry id = .accept then [effect.outcome] else []
  := by
  rw [effectIf]
  split_ifs <;> rfl

theorem map_outcome_changedTermsEffects {unit unit' : UnitAnswers}
    (hterms : unit.bandOf registry wpChangesTerms = unit'.bandOf registry wpChangesTerms)
    (howed : unit.bandOf registry wpStillOwed = unit'.bandOf registry wpStillOwed) :
  (changedTermsEffects registry unit).map (·.map Effect.outcome)
    = (changedTermsEffects registry unit').map (·.map Effect.outcome)
  := by
  rw [changedTermsEffects.eq_def, changedTermsEffects.eq_def, hterms, howed]
  split_ifs
  · cases unit'.bandOf registry wpStillOwed <;> rfl
  · rfl

/-- The outcomes of a unit depend on the bands of its answers. -/
theorem unitEffects_outcome_congr {unit unit' : UnitAnswers}
    (h : bands registry role unit = bands registry role unit') :
  (unitEffects registry role unit).map (·.map Effect.outcome)
    = (unitEffects registry role unit').map (·.map Effect.outcome)
  := by
  have hbands : ∀ id ∈ role.branchIds, unit.bandOf registry id = unit'.bandOf registry id :=
    fun id hid => List.map_inj_left.mp h id (List.mem_cons_of_mem _ hid)
  have hany : ((checked role).any fun id => unit.bandOf registry id = .gray)
      = (checked role).any fun id => unit'.bandOf registry id = .gray := by
    apply Bool.eq_iff_iff.mpr
    simp only [List.any_eq_true, decide_eq_true_eq]
    apply exists_congr
    intro id
    apply and_congr_right
    intro hid
    rw [hbands id (mem_branchIds_iff.mpr (Or.inl hid))]
  rw [unitEffects.eq_def, unitEffects.eq_def, hany]
  split_ifs with hgray
  · rfl
  · cases role with
    | waitingParty =>
        simp only [AuthorRole.branchIds, waitingPartyIds, List.forall_mem_cons] at hbands
        obtain ⟨hreceived, hneeded, hasks, hterms, howed, hdue, -⟩ := hbands
        have hchanged := map_outcome_changedTermsEffects hterms howed
        simp only [waitingPartyEffects, Option.map_map]
        cases hunit : changedTermsEffects registry unit with
        | none =>
            rw [hunit] at hchanged
            rw [Option.map_eq_none_iff.mp hchanged.symm]
            rfl
        | some changed =>
            rw [hunit] at hchanged
            obtain ⟨changed', hunit', heq⟩ := Option.map_eq_some_iff.mp hchanged.symm
            rw [hunit']
            simp only [Option.map_some, Function.comp_apply, List.map_append, map_outcome_effectIf,
              hreceived, hneeded, hasks, hdue, heq, Effect.outcome]
    | user =>
        simp only [AuthorRole.branchIds, userIds, List.forall_mem_cons] at hbands
        obtain ⟨hdelivers, hpromises, hdeclines, hhands, -⟩ := hbands
        simp only [userEffects, Option.map_some, List.map_append, List.flatMap_cons,
          List.flatMap_nil, map_outcome_effectIf, hdelivers, hpromises, hdeclines, hhands,
          Effect.outcome]
    | thirdParty =>
        have hdone := hbands thirdPartyDone List.mem_cons_self
        simp only [thirdPartyEffects, Option.map_some, map_outcome_effectIf, hdone, Effect.outcome]

/-! ### Collecting -/

/-- The effects are collected: all that end the obligation, and the first of each other rank. -/
structure Collected.Holds (effects : List Effect) (collected : Collected) : Prop where
  terminal : collected.terminal = effects.filter Effect.isTerminal
  sound : ∀ e ∈ collected.other, e ∈ effects ∧ e.isTerminal = false
  ranks : collected.other.Pairwise fun e e' => e.rank ≠ e'.rank
  covers : ∀ e ∈ effects, e.isTerminal = false → ∃ kept ∈ collected.other, kept.rank = e.rank

theorem Collected.Holds.add {effects : List Effect} {collected : Collected}
    (h : collected.Holds effects) (e : Effect) :
  (collected.add e).Holds (effects ++ [e])
  := by
  have hsound : ∀ e' ∈ collected.other, e' ∈ effects ++ [e] ∧ e'.isTerminal = false :=
    fun e' he' => ⟨List.mem_append_left _ (h.sound e' he').1, (h.sound e' he').2⟩
  have hcovers : ∀ e' ∈ effects, e'.isTerminal = false →
      ∃ kept ∈ (collected.add e).other, kept.rank = e'.rank := by
    intro e' he' hopen
    obtain ⟨kept, hkept, hrank⟩ := h.covers e' he' hopen
    refine ⟨kept, ?_, hrank⟩
    rw [Collected.add]
    split_ifs
    · exact hkept
    · exact hkept
    · exact List.mem_append_left _ hkept
  by_cases hterminal : e.isTerminal = true
  · have hadd : collected.add e = { collected with terminal := collected.terminal ++ [e] } := by
      rw [Collected.add, if_pos hterminal]
    constructor
    · rw [hadd, List.filter_append, h.terminal]
      simp [hterminal]
    · rw [hadd]
      exact hsound
    · rw [hadd]
      exact h.ranks
    · intro e' he' hopen
      rcases List.mem_append.mp he' with he' | he'
      · exact hcovers e' he' hopen
      · rw [List.mem_singleton.mp he', hterminal] at hopen
        cases hopen
  · have hopen : e.isTerminal = false := Bool.not_eq_true _ ▸ hterminal
    by_cases hkept : ∃ kept ∈ collected.other, kept.rank = e.rank
    · have hadd : collected.add e = collected := by
        simp [Collected.add, hopen, hkept]
      rw [hadd] at hcovers ⊢
      constructor
      · rw [List.filter_append, h.terminal]
        simp [hopen]
      · exact hsound
      · exact h.ranks
      · intro e' he' hopen'
        rcases List.mem_append.mp he' with he' | he'
        · exact hcovers e' he' hopen'
        · rwa [List.mem_singleton.mp he']
    · have hadd : collected.add e = { collected with other := collected.other ++ [e] } := by
        simp [Collected.add, hopen, hkept]
      rw [hadd] at hcovers ⊢
      constructor
      · rw [List.filter_append, h.terminal]
        simp [hopen]
      · intro e' he'
        rcases List.mem_append.mp he' with he' | he'
        · exact hsound e' he'
        · rw [List.mem_singleton.mp he']
          exact ⟨by simp, hopen⟩
      · rw [List.pairwise_append]
        refine ⟨h.ranks, List.pairwise_singleton _ _, ?_⟩
        intro kept hmem e' he' hrank
        rw [List.mem_singleton.mp he'] at hrank
        exact hkept ⟨kept, hmem, hrank⟩
      · intro e' he' hopen'
        rcases List.mem_append.mp he' with he' | he'
        · exact hcovers e' he' hopen'
        · rw [List.mem_singleton.mp he']
          exact ⟨e, by simp, rfl⟩

theorem Collected.Holds.foldl {effects : List Effect} {collected : Collected}
    (h : collected.Holds effects) (more : List Effect) :
  (more.foldl Collected.add collected).Holds (effects ++ more)
  := by
  induction more generalizing effects collected with
  | nil => rwa [List.append_nil]
  | cons e more ih =>
      have hrest := ih (h.add e)
      rwa [List.append_assoc] at hrest

/-- The effects of the units, one after another. -/
def allEffects (registry : Registry) (role : AuthorRole) (units : List UnitAnswers) : List Effect :=
  units.flatMap fun unit => (unitEffects registry role unit).getD []

theorem Collected.Holds.collect {effects : List Effect} {collected collected' : Collected}
    (h : collected.Holds effects)
    (hcollect : collect registry role collected units = some collected') :
  collected'.Holds (effects ++ allEffects registry role units)
  := by
  induction units generalizing effects collected with
  | nil =>
      cases hcollect
      rwa [allEffects, List.flatMap_nil, List.append_nil]
  | cons unit units ih =>
      rw [ClosureWalk.collect.eq_def] at hcollect
      cases hunit : unitEffects registry role unit with
      | none => simp [hunit] at hcollect
      | some more =>
          simp only [hunit] at hcollect
          have hrest := ih (h.foldl more) hcollect
          rw [List.append_assoc] at hrest
          rwa [allEffects, List.flatMap_cons, hunit]

theorem collect_eq_none_iff {collected : Collected} :
  collect registry role collected units = none ↔
    ∃ unit ∈ units, unitEffects registry role unit = none
  := by
  induction units generalizing collected with
  | nil => simp [collect]
  | cons unit units ih =>
      rw [ClosureWalk.collect.eq_def]
      cases hunit : unitEffects registry role unit with
      | none => simp [hunit]
      | some effects => simp [hunit, ih]

theorem mem_allEffects_iff {e : Effect} :
  e ∈ allEffects registry role (responding registry units) ↔ Brought registry role units e
  := by
  simp only [allEffects, responding, List.mem_flatMap, List.mem_filter, decide_eq_true_eq]
  constructor
  · rintro ⟨unit, ⟨hunit, hgate⟩, he⟩
    cases heffects : unitEffects registry role unit with
    | none => simp [heffects] at he
    | some effects =>
        rw [heffects] at he
        exact ⟨unit, hunit, hgate, effects, heffects, he⟩
  · rintro ⟨unit, hunit, hgate, effects, heffects, he⟩
    refine ⟨unit, ⟨hunit, hgate⟩, ?_⟩
    rwa [heffects]

/-! ### Verdicts -/

/-- What a verdict says of the units. -/
inductive Explains (registry : Registry) (role : AuthorRole) (units : List UnitAnswers) :
    StepVerdict → Prop
  | escalate (h : Unclear registry role units) : Explains registry role units .escalate
  | ending (hclear : ¬Unclear registry role units) (e : Effect) (hterminal : e.isTerminal = true)
      (hbrought : Brought registry role units e) : Explains registry role units (.apply [e])
  | changing (hclear : ¬Unclear registry role units) (effects : List Effect) (hne : effects ≠ [])
      (hranks : effects.Pairwise fun e e' => e.rank < e'.rank)
      (hsound : ∀ e ∈ effects, Brought registry role units e ∧ e.isTerminal = false)
      (hcovers : ∀ e, Brought registry role units e →
        e.isTerminal = false ∧ ∃ kept ∈ effects, kept.rank = e.rank) :
      Explains registry role units (.apply effects)
  | noResponse (hclear : ¬Unclear registry role units)
      (hnone : ∀ e, ¬Brought registry role units e) : Explains registry role units .noResponse

theorem conflict_iff {first : Effect} {rest : List Effect} {collected : Collected}
    (hholds : collected.Holds (allEffects registry role (responding registry units)))
    (hterminal : collected.terminal = first :: rest) :
  (collected.terminal.any fun effect => !effect.sameOutcome first) = true ↔
    Conflict registry role units
  := by
  have hmem : ∀ e, e ∈ collected.terminal ↔ Brought registry role units e ∧ e.isTerminal = true := by
    intro e
    rw [hholds.terminal, List.mem_filter, mem_allEffects_iff]
  have hfirst := (hmem first).mp (by simp [hterminal])
  simp only [List.any_eq_true, Bool.not_eq_true']
  constructor
  · rintro ⟨e, he, hdiffer⟩
    exact ⟨e, first, ((hmem e).mp he).1, hfirst.1, ((hmem e).mp he).2, hfirst.2, hdiffer⟩
  · rintro ⟨e, e', he, he', hend, hend', hdiffer⟩
    -- If both ended it as the first one does, they would end it alike.
    by_contra hnone
    push Not at hnone
    have hsame : ∀ e, Brought registry role units e → e.isTerminal = true →
        e.outcome = first.outcome := by
      intro e he hend
      apply (sameOutcome_iff hend).mp
      rw [← Bool.not_eq_false]
      exact hnone e ((hmem e).mpr ⟨he, hend⟩)
    have hsame' := (sameOutcome_iff hend).mpr ((hsame e he hend).trans (hsame e' he' hend').symm)
    rw [hdiffer] at hsame'
    cases hsame'

theorem pairwise_rank_sorted {effects : List Effect}
    (h : effects.Pairwise fun e e' => e.rank ≠ e'.rank) :
  (effects.insertionSort fun a b => a.rank ≤ b.rank).Pairwise fun e e' => e.rank < e'.rank
  := by
  have hsorted : (effects.insertionSort fun a b => a.rank ≤ b.rank).Pairwise
      fun e e' => e.rank ≤ e'.rank := by
    have htotal : Std.Total fun a b : Effect => a.rank ≤ b.rank := ⟨fun a b => le_total _ _⟩
    have htrans : IsTrans Effect fun a b => a.rank ≤ b.rank := ⟨fun _ _ _ => le_trans⟩
    exact List.pairwise_insertionSort _ _
  have hdistinct : (effects.insertionSort fun a b => a.rank ≤ b.rank).Pairwise
      fun e e' => e.rank ≠ e'.rank :=
    (List.perm_insertionSort _ effects).pairwise_iff (fun h => h.symm) |>.mpr h
  exact (hsorted.and hdistinct).imp fun h => lt_of_le_of_ne h.1 h.2

theorem mem_responding_iff {unit : UnitAnswers} :
  unit ∈ responding registry units ↔ unit ∈ units ∧ unit.bandOf registry gate = .accept
  := by
  simp [responding]

/-- No unit bears on the obligation. -/
theorem explains_of_not_responding (hnone : responding registry units = []) :
  Explains registry role units (stepVerdict registry role units)
  := by
  have hreject : ∀ unit ∈ units, unit.bandOf registry gate ≠ .accept := by
    intro unit hunit hgate
    have hmem := mem_responding_iff.mpr ⟨hunit, hgate⟩
    rw [hnone] at hmem
    cases hmem
  by_cases hgray : ∃ unit ∈ units, unit.bandOf registry gate = .gray
  · have hverdict : stepVerdict registry role units = .escalate := by
      simp [stepVerdict, hnone, hgray]
    rw [hverdict]
    exact .escalate (Or.inl ⟨hreject, hgray⟩)
  · have hverdict : stepVerdict registry role units = .noResponse := by
      simp [stepVerdict, hnone, hgray]
    have hbrought : ∀ e, ¬Brought registry role units e := by
      rintro e ⟨unit, hunit, hgate, -⟩
      exact hreject unit hunit hgate
    rw [hverdict]
    apply Explains.noResponse _ hbrought
    rintro (⟨-, hgray'⟩ | ⟨unit, hunit, hgate, -⟩ | ⟨e, e', he, -⟩)
    · exact hgray hgray'
    · exact hreject unit hunit hgate
    · exact hbrought e he

section

variable {collected : Collected} (hsome : responding registry units ≠ [])
  (hcollect : collect registry role { terminal := [], other := [] } (responding registry units)
    = some collected)
  (hholds : collected.Holds (allEffects registry role (responding registry units)))

include hsome hcollect in
/-- If no answer that matters is gray, only a conflict leaves the units unclear. -/
theorem not_unclear_of_collect (hconflict : ¬Conflict registry role units) :
  ¬Unclear registry role units
  := by
  rintro (⟨hreject, -⟩ | ⟨unit, hunit, hgate, hgray⟩ | hconflict')
  · obtain ⟨unit, hunit⟩ := List.exists_mem_of_ne_nil _ hsome
    rw [mem_responding_iff] at hunit
    exact hreject unit hunit.1 hunit.2
  · have hnone : collect registry role { terminal := [], other := [] } (responding registry units)
        = none := by
      apply collect_eq_none_iff.mpr
      exact ⟨unit, mem_responding_iff.mpr ⟨hunit, hgate⟩, unitEffects_eq_none_iff.mpr hgray⟩
    rw [hcollect] at hnone
    cases hnone
  · exact hconflict hconflict'

include hsome hcollect hholds

theorem explains_of_terminal {first : Effect} {rest : List Effect}
    (hterminal : collected.terminal = first :: rest) :
  Explains registry role units (stepVerdict registry role units)
  := by
  have hconflict := conflict_iff hholds hterminal
  by_cases hdiffer : (collected.terminal.any fun effect => !effect.sameOutcome first) = true
  · have hverdict : stepVerdict registry role units = .escalate := by
      rw [hterminal] at hdiffer
      simp only [stepVerdict, hsome, hcollect, hterminal, hdiffer, if_true, if_false]
    rw [hverdict]
    exact .escalate (Or.inr (Or.inr (hconflict.mp hdiffer)))
  · have hverdict : stepVerdict registry role units = .apply [first] := by
      rw [hterminal] at hdiffer
      simp only [stepVerdict, hsome, hcollect, hterminal, hdiffer, if_false]
      rfl
    have hfirst : first ∈ (allEffects registry role (responding registry units)).filter
        Effect.isTerminal := by
      rw [← hholds.terminal, hterminal]
      exact List.mem_cons_self
    rw [List.mem_filter, mem_allEffects_iff] at hfirst
    have hclear := not_unclear_of_collect hsome hcollect fun h => hdiffer (hconflict.mpr h)
    rw [hverdict]
    exact .ending hclear first hfirst.2 hfirst.1

theorem explains_of_not_terminal (hterminal : collected.terminal = []) :
  Explains registry role units (stepVerdict registry role units)
  := by
  have hopen : ∀ e, Brought registry role units e → e.isTerminal = false := by
    intro e he
    rw [hholds.terminal, List.filter_eq_nil_iff] at hterminal
    exact Bool.not_eq_true _ ▸ hterminal e (mem_allEffects_iff.mpr he)
  have hclear : ¬Unclear registry role units := by
    apply not_unclear_of_collect hsome hcollect
    rintro ⟨e, e', he, he', hend, -⟩
    rw [hopen e he] at hend
    cases hend
  by_cases hother : collected.other = []
  · have hverdict : stepVerdict registry role units = .noResponse := by
      simp [stepVerdict, hsome, hcollect, hterminal, hother]
    rw [hverdict]
    apply Explains.noResponse hclear
    intro e he
    obtain ⟨kept, hkept, -⟩ := hholds.covers e (mem_allEffects_iff.mpr he) (hopen e he)
    rw [hother] at hkept
    cases hkept
  · have hverdict : stepVerdict registry role units =
        .apply (collected.other.insertionSort fun a b => a.rank ≤ b.rank) := by
      simp [stepVerdict, hsome, hcollect, hterminal, hother]
    rw [hverdict]
    apply Explains.changing hclear
    · intro hnil
      apply hother
      rw [← List.length_eq_zero_iff] at hnil ⊢
      rwa [List.length_insertionSort] at hnil
    · exact pairwise_rank_sorted hholds.ranks
    · intro e he
      have hsound := hholds.sound e ((List.mem_insertionSort _).mp he)
      exact ⟨mem_allEffects_iff.mp hsound.1, hsound.2⟩
    · intro e he
      obtain ⟨kept, hkept, hrank⟩ := hholds.covers e (mem_allEffects_iff.mpr he) (hopen e he)
      exact ⟨hopen e he, kept, (List.mem_insertionSort _).mpr hkept, hrank⟩

end

theorem stepVerdict_explained (registry : Registry) (role : AuthorRole) (units : List UnitAnswers) :
  Explains registry role units (stepVerdict registry role units)
  := by
  by_cases hsome : responding registry units = []
  · exact explains_of_not_responding hsome
  · cases hcollect : collect registry role { terminal := [], other := [] }
        (responding registry units) with
    | none =>
        have hverdict : stepVerdict registry role units = .escalate := by
          simp [stepVerdict, hsome, hcollect]
        obtain ⟨unit, hunit, heffects⟩ := collect_eq_none_iff.mp hcollect
        rw [mem_responding_iff] at hunit
        rw [hverdict]
        exact .escalate (Or.inr (Or.inl ⟨unit, hunit.1, hunit.2, unitEffects_eq_none_iff.mp heffects⟩))
    | some collected =>
        have hempty : Collected.Holds [] { terminal := [], other := [] } :=
          { terminal := rfl, sound := by simp, ranks := .nil, covers := by simp }
        have hholds := hempty.collect hcollect
        rw [List.nil_append] at hholds
        cases hterminal : collected.terminal with
        | cons first rest => exact explains_of_terminal hsome hcollect hholds hterminal
        | nil => exact explains_of_not_terminal hsome hcollect hholds hterminal

/-! ### The order of the units -/

/-- Each of the units is answered as one of the others. -/
def Alike (registry : Registry) (role : AuthorRole) (units units' : List UnitAnswers) : Prop :=
  ∀ unit ∈ units, ∃ unit' ∈ units', bands registry role unit = bands registry role unit'

theorem bandOf_congr {unit unit' : UnitAnswers} {id : String}
    (h : bands registry role unit = bands registry role unit') (hid : id ∈ gate :: role.branchIds) :
  unit.bandOf registry id = unit'.bandOf registry id
  :=
  List.map_inj_left.mp h id hid

theorem grayMatters_congr {unit unit' : UnitAnswers}
    (h : bands registry role unit = bands registry role unit') (hgray : GrayMatters registry role unit) :
  GrayMatters registry role unit'
  := by
  obtain ⟨id, hid, hterms, hgray⟩ := hgray
  refine ⟨id, hid, ?_, ?_⟩
  · rintro rfl
    have hwaiting : wpChangesTerms ∈ gate :: role.branchIds := by
      rcases mem_branchIds_iff.mp hid with hchecked | ⟨rfl, -⟩
      · exact absurd hchecked stillOwed_notMem_checked
      · decide
    rw [← bandOf_congr h hwaiting]
    exact hterms rfl
  · rw [← bandOf_congr h (List.mem_cons_of_mem _ hid)]
    exact hgray

theorem Alike.brought (h : Alike registry role units units') {e : Effect}
    (he : Brought registry role units e) :
  ∃ e', Brought registry role units' e' ∧ e'.outcome = e.outcome
  := by
  obtain ⟨unit, hunit, hgate, effects, heffects, he⟩ := he
  obtain ⟨unit', hunit', hbands⟩ := h unit hunit
  have houtcomes := unitEffects_outcome_congr hbands
  rw [heffects] at houtcomes
  obtain ⟨effects', heffects', heq⟩ := Option.map_eq_some_iff.mp houtcomes.symm
  have hmem : e.outcome ∈ effects'.map Effect.outcome := by
    rw [heq]
    exact List.mem_map_of_mem he
  obtain ⟨e', he', houtcome⟩ := List.mem_map.mp hmem
  rw [bandOf_congr hbands List.mem_cons_self] at hgate
  exact ⟨e', ⟨unit', hunit', hgate, effects', heffects', he'⟩, houtcome⟩

theorem Alike.unclear (h : Alike registry role units units') (h' : Alike registry role units' units)
    (hunclear : Unclear registry role units) :
  Unclear registry role units'
  := by
  rcases hunclear with ⟨hreject, unit, hunit, hgray⟩ | ⟨unit, hunit, hgate, hgray⟩
    | ⟨e, e', he, he', hend, hend', hdiffer⟩
  · apply Or.inl
    constructor
    · intro unit' hunit'
      obtain ⟨unit, hunit, hbands⟩ := h' unit' hunit'
      rw [bandOf_congr hbands List.mem_cons_self]
      exact hreject unit hunit
    · obtain ⟨unit', hunit', hbands⟩ := h unit hunit
      rw [bandOf_congr hbands List.mem_cons_self] at hgray
      exact ⟨unit', hunit', hgray⟩
  · obtain ⟨unit', hunit', hbands⟩ := h unit hunit
    rw [bandOf_congr hbands List.mem_cons_self] at hgate
    exact Or.inr (Or.inl ⟨unit', hunit', hgate, grayMatters_congr hbands hgray⟩)
  · obtain ⟨f, hf, hfe⟩ := h.brought he
    obtain ⟨f', hf', hfe'⟩ := h.brought he'
    have hterminal : f.isTerminal = true := (isTerminal_eq_of_outcome hfe).trans hend
    apply Or.inr
    apply Or.inr
    refine ⟨f, f', hf, hf', hterminal, (isTerminal_eq_of_outcome hfe').trans hend', ?_⟩
    rw [← Bool.not_eq_true, sameOutcome_iff hterminal, hfe, hfe', ← sameOutcome_iff hend]
    simp [hdiffer]

theorem Brought.allowed {e : Effect} (h : Brought registry role units e) :
  Allowed role e
  := by
  obtain ⟨unit, -, -, effects, heffects, he⟩ := h
  exact allowed_of_mem_unitEffects heffects he

section

variable {v : StepVerdict} (h : Explains registry role units v)

include h

theorem Explains.eq_escalate_iff :
  v = .escalate ↔ Unclear registry role units
  := by
  cases h <;> simp_all

theorem Explains.outcome_of_terminal (hclear : ¬Unclear registry role units) {e : Effect}
    (he : Brought registry role units e) (hterminal : e.isTerminal = true) :
  v.outcome = .apply [e.outcome]
  := by
  cases h with
  | escalate hunclear => exact absurd hunclear hclear
  | ending _ e' hterminal' he' =>
      have hsame : e'.sameOutcome e = true := by
        by_contra hdiffer
        apply hclear
        exact Or.inr (Or.inr ⟨e', e, he', he, hterminal', hterminal, Bool.not_eq_true _ ▸ hdiffer⟩)
      rw [StepVerdict.outcome, List.map_singleton, (sameOutcome_iff hterminal').mp hsame]
  | changing _ effects _ _ _ hcovers =>
      rw [(hcovers e he).1] at hterminal
      cases hterminal
  | noResponse _ hnone => exact absurd he (hnone e)

/-- If no unit ends the obligation, the verdict has one outcome of each kind that is brought. -/
theorem Explains.outcome_of_open (hclear : ¬Unclear registry role units)
    (hopen : ∀ e, Brought registry role units e → e.isTerminal = false) :
  ∃ outcomes : List Outcome,
    v.outcome = (if outcomes = [] then .noResponse else .apply outcomes)
      ∧ (outcomes.Pairwise fun o o' => o.rank < o'.rank)
      ∧ ∀ o, o ∈ outcomes ↔ ∃ e, Brought registry role units e ∧ e.outcome = o
  := by
  cases h with
  | escalate hunclear => exact absurd hunclear hclear
  | ending _ e hterminal he =>
      rw [hopen e he] at hterminal
      cases hterminal
  | changing _ effects hne hranks hsound hcovers =>
      refine ⟨effects.map Effect.outcome, ?_, ?_, ?_⟩
      · rw [if_neg (List.map_eq_nil_iff.not.mpr hne), StepVerdict.outcome]
      · apply List.pairwise_map.mpr
        exact hranks.imp fun hlt => by simpa only [rank_outcome] using hlt
      · intro o
        rw [List.mem_map]
        constructor
        · rintro ⟨e, he, rfl⟩
          exact ⟨e, (hsound e he).1, rfl⟩
        · rintro ⟨e, he, rfl⟩
          obtain ⟨hopen', kept, hkept, hrank⟩ := hcovers e he
          refine ⟨kept, hkept, ?_⟩
          exact outcome_eq_of_rank (hsound kept hkept).1.allowed he.allowed (hsound kept hkept).2 hrank
  | noResponse _ hnone =>
      refine ⟨[], rfl, .nil, ?_⟩
      simp [hnone]

end

/-- Units that are answered alike have one verdict. -/
theorem outcome_eq_of_alike (h : Alike registry role units units')
    (h' : Alike registry role units' units) :
  (stepVerdict registry role units').outcome = (stepVerdict registry role units).outcome
  := by
  have hexplained := stepVerdict_explained registry role units
  have hexplained' := stepVerdict_explained registry role units'
  by_cases hunclear : Unclear registry role units
  · rw [hexplained.eq_escalate_iff.mpr hunclear, hexplained'.eq_escalate_iff.mpr (h.unclear h' hunclear)]
  have hclear' : ¬Unclear registry role units' := fun hunclear' => hunclear (h'.unclear h hunclear')
  by_cases hend : ∃ e, Brought registry role units e ∧ e.isTerminal = true
  · obtain ⟨e, he, hterminal⟩ := hend
    obtain ⟨e', he', houtcome⟩ := h.brought he
    have hterminal' := (isTerminal_eq_of_outcome houtcome).trans hterminal
    rw [hexplained.outcome_of_terminal hunclear he hterminal,
      hexplained'.outcome_of_terminal hclear' he' hterminal', houtcome]
  · have hopen : ∀ e, Brought registry role units e → e.isTerminal = false := by
      intro e he
      rw [← Bool.not_eq_true]
      exact fun hterminal => hend ⟨e, he, hterminal⟩
    have hopen' : ∀ e, Brought registry role units' e → e.isTerminal = false := by
      intro e he
      obtain ⟨e', he', houtcome⟩ := h'.brought he
      rw [← isTerminal_eq_of_outcome houtcome]
      exact hopen e' he'
    obtain ⟨outcomes, hverdict, hranks, hmem⟩ := hexplained.outcome_of_open hunclear hopen
    obtain ⟨outcomes', hverdict', hranks', hmem'⟩ := hexplained'.outcome_of_open hclear' hopen'
    have hsame : outcomes' = outcomes := by
      have hanti : Std.Antisymm fun o o' : Outcome => o.rank < o'.rank :=
        ⟨fun o o' hlt hlt' => absurd hlt (lt_asymm hlt')⟩
      have hirrefl : Std.Irrefl fun o o' : Outcome => o.rank < o'.rank := ⟨fun o => lt_irrefl _⟩
      apply hranks'.eq_of_mem_iff hranks
      intro o
      rw [hmem, hmem']
      constructor
      · rintro ⟨e, he, rfl⟩
        exact h'.brought he
      · rintro ⟨e, he, rfl⟩
        exact h.brought he
    rw [hverdict, hverdict', hsame]

/-- The verdict on a message: it depends neither on the order of its units nor on the places and the
weights of the answers; it applies one effect that ends the obligation, or effects of different kinds
that do not; it escalates exactly when it is not clear what the units say; and an obligation is closed
only by the waiting party. -/
theorem stepVerdict_spec (registry : Registry) (role : AuthorRole) (units : List UnitAnswers) :
  (∀ units', units.Perm units' →
      (stepVerdict registry role units').outcome = (stepVerdict registry role units).outcome)
    ∧ (∀ units', units.map (bands registry role) = units'.map (bands registry role) →
      (stepVerdict registry role units').outcome = (stepVerdict registry role units).outcome)
    ∧ (∀ effects, stepVerdict registry role units = .apply effects →
      (∃ e, effects = [e] ∧ e.isTerminal = true)
        ∨ (effects ≠ [] ∧ (∀ e ∈ effects, e.isTerminal = false)
          ∧ effects.Pairwise fun e e' => e.rank < e'.rank))
    ∧ (stepVerdict registry role units = .escalate ↔ Unclear registry role units)
    ∧ ∀ effects kind ordinal, stepVerdict registry role units = .apply effects →
      .close kind ordinal ∈ effects → role = .waitingParty
  := by
  have hexplained := stepVerdict_explained registry role units
  refine ⟨?_, ?_, ?_, hexplained.eq_escalate_iff, ?_⟩
  · intro units' hperm
    apply outcome_eq_of_alike
    · exact fun unit hunit => ⟨unit, hperm.mem_iff.mp hunit, rfl⟩
    · exact fun unit hunit => ⟨unit, hperm.mem_iff.mpr hunit, rfl⟩
  · intro units' hbands
    apply outcome_eq_of_alike
    · intro unit hunit
      have hmem := List.mem_map_of_mem (f := bands registry role) hunit
      rw [hbands] at hmem
      obtain ⟨unit', hunit', heq⟩ := List.mem_map.mp hmem
      exact ⟨unit', hunit', heq.symm⟩
    · intro unit hunit
      have hmem := List.mem_map_of_mem (f := bands registry role) hunit
      rw [← hbands] at hmem
      obtain ⟨unit', hunit', heq⟩ := List.mem_map.mp hmem
      exact ⟨unit', hunit', heq.symm⟩
  · intro effects hverdict
    rw [hverdict] at hexplained
    cases hexplained with
    | ending _ e hterminal _ => exact Or.inl ⟨e, rfl, hterminal⟩
    | changing _ _ hne hranks hsound _ => exact Or.inr ⟨hne, fun e he => (hsound e he).2, hranks⟩
  · intro effects kind ordinal hverdict hmem
    rw [hverdict] at hexplained
    cases hexplained with
    | ending _ e _ hbrought =>
        rw [← List.mem_singleton.mp hmem] at hbrought
        exact hbrought.allowed
    | changing _ _ _ _ hsound _ => exact (hsound _ hmem).1.allowed

end ClosureWalk

end Review
