import OpenLoops.Inference.ValidationSteps

/-!
# Consistency of claims

The claims that pass the checks by themselves stand when they are no duplicates and disclose the
messages of their evidence.  Of the deadline changes among them for one list of loops, the check of
their instants strikes out pairs.
-/

namespace Inference

open Contracts Domain PairingOff

/-! ### Standing claims -/

/-- The claim at the place passes the checks of it by itself, is not there before, and discloses
the messages of its evidence. -/
structure Stands (context : SuppliedContext) (claims : List Claim) (index : ℕ)
    (claim : Claim) : Prop where
  at_index : claims[index]? = some claim
  passes : checkSteps4To8 claim context = .ok ()
  first : ∀ earlier < index, claims[earlier]? ≠ some claim
  discloses : undisclosesMessages claim = false

/-- The one instant of a claim, if its time is one. -/
def instantOf (context : SuppliedContext) (claim : Claim) : Option UnixSeconds :=
  match resolvedInstant claim context with
  | .ok instant => instant
  | .error _ => none

/-- A claim for one instant has it. -/
theorem instantOf_eq_some_iff {context : SuppliedContext} {claim : Claim}
    (h : checkSteps4To8 claim context = .ok ()) {t : UnixSeconds} :
  instantOf context claim = some t ↔ IsAt context claim t
  := by
  have hrange : ¬ Reads context claim (.error .panicked) := by
    intro hreads
    obtain ⟨hgrounded, -⟩ := checkSteps4To8_eq_ok_iff.mp h
    rw [checkSteps4To8_eq_panicked_iff.mpr ⟨hgrounded, hreads⟩] at h
    cases h
  obtain ⟨instant, hinstant, hiff⟩ := exists_resolvedInstant hrange
  rw [instantOf, hinstant]
  apply hiff

/-- A claim that changes the deadline of the loops to one instant. -/
def changes (context : SuppliedContext) (loops : List String) (claim : Claim) : Bool :=
  claim.claimType = .deadlineChange && claim.relatedLoopHandles = loops
    && (instantOf context claim).isSome

instance (context : SuppliedContext) (claims : List Claim) (index : ℕ) (claim : Claim) :
    Decidable (Stands context claims index claim) :=
  decidable_of_iff (claims[index]? = some claim ∧ checkSteps4To8 claim context = .ok ()
    ∧ (∀ earlier < index, claims[earlier]? ≠ some claim) ∧ undisclosesMessages claim = false)
    ⟨fun ⟨h₁, h₂, h₃, h₄⟩ => ⟨h₁, h₂, h₃, h₄⟩, fun ⟨h₁, h₂, h₃, h₄⟩ => ⟨h₁, h₂, h₃, h₄⟩⟩

/-- The places of the standing claims that change the deadline of the loops. -/
def changesOf (context : SuppliedContext) (claims : List Claim) (loops : List String) : List ℕ :=
  (List.range claims.length).filter fun index =>
    claims[index]?.any fun claim =>
      Stands context claims index claim && changes context loops claim

/-- The instant of the claim at a place. -/
def instantAt (context : SuppliedContext) (claims : List Claim) (index : ℕ) :
    Option UnixSeconds :=
  claims[index]?.bind (instantOf context)

theorem mem_changesOf {context : SuppliedContext} {claims : List Claim} {loops : List String}
    {index : ℕ} :
  index ∈ changesOf context claims loops ↔
    ∃ claim, Stands context claims index claim ∧ changes context loops claim = true
  := by
  rw [changesOf, List.mem_filter, List.mem_range]
  constructor
  · rintro ⟨-, h⟩
    cases hclaim : claims[index]? with
    | none =>
        rw [hclaim] at h
        cases h
    | some claim =>
        rw [hclaim, Option.any_some, Bool.and_eq_true, decide_eq_true_iff] at h
        exact ⟨claim, h⟩
  · rintro ⟨claim, hstands, hchanges⟩
    refine ⟨(List.getElem?_eq_some_iff.mp hstands.at_index).1, ?_⟩
    rw [hstands.at_index, Option.any_some, Bool.and_eq_true, decide_eq_true_iff]
    exact ⟨hstands, hchanges⟩

/-! ### Duplicates and undisclosed messages -/

namespace Dispositions

variable {dispositions : Dispositions}

/-- Only the claim that is rejected is not open afterwards. -/
theorem isOpen_reject_iff {index i : ℕ} {failure : ConsistencyFailure} :
  (dispositions.reject index failure).IsOpen i ↔ dispositions.IsOpen i ∧ i ≠ index
  := by
  rw [IsOpen, IsOpen, reject, List.getElem?_set]
  by_cases h : index = i
  · subst h
    simp
  · simp [h, Ne.symm h]

theorem length_reject {index : ℕ} {failure : ConsistencyFailure} :
  (dispositions.reject index failure).length = dispositions.length
  := List.length_set

end Dispositions

section

variable {claims : List Claim} {dispositions : Dispositions}

/-- What is open after the check for duplicates of the first claims. -/
theorem isOpen_rejectDuplicates_iff (n i : ℕ) :
  ((List.range n).foldl (rejectDuplicate claims) dispositions).IsOpen i ↔
    dispositions.IsOpen i
      ∧ (i < n → ∀ earlier < i, dispositions.IsOpen earlier → claims[earlier]? ≠ claims[i]?)
  := by
  induction n generalizing i with
  | zero => simp
  | succ n ih =>
      rw [List.range_succ, List.foldl_append, List.foldl_cons, List.foldl_nil]
      generalize (List.range n).foldl (rejectDuplicate claims) dispositions = after at *
      -- the first claim that equals another is open as long as any is
      have hfirst : (∃ earlier < n, after.IsOpen earlier ∧ claims[earlier]? = claims[n]?)
          ↔ ∃ earlier < n, dispositions.IsOpen earlier ∧ claims[earlier]? = claims[n]? := by
        classical
        constructor
        · rintro ⟨earlier, hlt, hopen, hsame⟩
          exact ⟨earlier, hlt, ((ih earlier).mp hopen).1, hsame⟩
        · intro h
          obtain ⟨hlt, hopen, hsame⟩ := Nat.find_spec h
          refine ⟨Nat.find h, hlt, (ih _).mpr ⟨hopen, ?_⟩, hsame⟩
          intro _ earlier hearlier hopen' hsame'
          exact Nat.find_min h hearlier ⟨hearlier.trans hlt, hopen', hsame'.trans hsame⟩
      have hcondition : (after.IsOpen n ∧ (List.range n).any (fun earlier =>
            after.IsOpen earlier ∧ claims[earlier]? = claims[n]?) = true)
          ↔ dispositions.IsOpen n
            ∧ ∃ earlier < n, dispositions.IsOpen earlier ∧ claims[earlier]? = claims[n]? := by
        rw [List.any_eq_true, ← hfirst, ih n]
        simp
      rw [rejectDuplicate]
      split_ifs with hduplicate
      · obtain ⟨hopen, earlier, hlt, hopen', hsame⟩ := hcondition.mp hduplicate
        rw [Dispositions.isOpen_reject_iff, ih]
        constructor
        · rintro ⟨⟨hi, hall⟩, hne⟩
          exact ⟨hi, fun hlt' => hall (by omega)⟩
        · rintro ⟨hi, hall⟩
          refine ⟨⟨hi, fun hlt' => hall (by omega)⟩, ?_⟩
          rintro rfl
          exact hall (Nat.lt_succ_self i) earlier hlt hopen' hsame
      · rw [ih]
        constructor
        · rintro ⟨hi, hall⟩
          refine ⟨hi, ?_⟩
          intro hlt earlier hearlier hopen' hsame
          by_cases hin : i = n
          · subst hin
            exact hduplicate (hcondition.mpr ⟨hi, earlier, hearlier, hopen', hsame⟩)
          · exact hall (by omega) earlier hearlier hopen' hsame
        · rintro ⟨hi, hall⟩
          exact ⟨hi, fun hlt => hall (by omega)⟩

/-- What is open after the check of the messages of the first claims. -/
theorem isOpen_rejectUndisclosed_iff (n i : ℕ) :
  ((List.range n).foldl (rejectUndisclosed claims) dispositions).IsOpen i ↔
    dispositions.IsOpen i ∧ (i < n → claims[i]?.any undisclosesMessages = false)
  := by
  induction n generalizing i with
  | zero => simp
  | succ n ih =>
      rw [List.range_succ, List.foldl_append, List.foldl_cons, List.foldl_nil]
      generalize (List.range n).foldl (rejectUndisclosed claims) dispositions = after at *
      rw [rejectUndisclosed]
      split_ifs with h
      · rw [Dispositions.isOpen_reject_iff, ih]
        constructor
        · rintro ⟨⟨hi, hall⟩, hne⟩
          exact ⟨hi, fun hlt => hall (by omega)⟩
        · rintro ⟨hi, hall⟩
          refine ⟨⟨hi, fun hlt => hall (by omega)⟩, ?_⟩
          rintro rfl
          rw [hall (Nat.lt_succ_self i)] at h
          exact Bool.false_ne_true h.2
      · rw [ih]
        constructor
        · rintro ⟨hi, hall⟩
          refine ⟨hi, ?_⟩
          intro hlt
          by_cases hin : i = n
          · subst hin
            rw [not_and, (ih i).trans (and_iff_left fun hlt => absurd hlt (lt_irrefl i))] at h
            exact Bool.eq_false_iff.mpr (h hi)
          · exact hall (by omega)
        · rintro ⟨hi, hall⟩
          exact ⟨hi, fun hlt => hall (by omega)⟩

theorem length_rejectSingly :
  (rejectSingly claims dispositions).length = dispositions.length
  := by
  have hduplicate : ∀ (indices : List ℕ) (d : Dispositions),
      (indices.foldl (rejectDuplicate claims) d).length = d.length := by
    intro indices
    induction indices with
    | nil => simp
    | cons index indices ih =>
        intro d
        rw [List.foldl_cons, ih, rejectDuplicate]
        split_ifs
        · apply Dispositions.length_reject
        · rfl
  have hundisclosed : ∀ (indices : List ℕ) (d : Dispositions),
      (indices.foldl (rejectUndisclosed claims) d).length = d.length := by
    intro indices
    induction indices with
    | nil => simp
    | cons index indices ih =>
        intro d
        rw [List.foldl_cons, ih, rejectUndisclosed]
        split_ifs
        · apply Dispositions.length_reject
        · rfl
  rw [rejectSingly, hundisclosed, hduplicate]

/-- The dispositions of the claims that were checked by themselves. -/
def CheckedSingly (context : SuppliedContext) (claims : List Claim)
    (dispositions : Dispositions) : Prop :=
  ∀ i, dispositions.IsOpen i ↔
    ∃ claim, claims[i]? = some claim ∧ checkSteps4To8 claim context = .ok ()

/-- The claims that are open after these checks are the ones that stand. -/
theorem isOpen_rejectSingly_iff {context : SuppliedContext}
    (h : CheckedSingly context claims dispositions) (i : ℕ) :
  (rejectSingly claims dispositions).IsOpen i ↔ ∃ claim, Stands context claims i claim
  := by
  rw [rejectSingly, isOpen_rejectUndisclosed_iff, isOpen_rejectDuplicates_iff]
  constructor
  · rintro ⟨⟨hopen, hfirst⟩, hdiscloses⟩
    obtain ⟨claim, hclaim, hpasses⟩ := (h i).mp hopen
    have hlt := (List.getElem?_eq_some_iff.mp hclaim).1
    refine ⟨claim, hclaim, hpasses, ?_, ?_⟩
    · intro earlier hearlier hsame
      exact hfirst hlt earlier hearlier ((h earlier).mpr ⟨claim, hsame, hpasses⟩)
        (hsame.trans hclaim.symm)
    · have := hdiscloses hlt
      rwa [hclaim, Option.any_some] at this
  · rintro ⟨claim, hclaim, hpasses, hfirst, hdiscloses⟩
    refine ⟨⟨(h i).mpr ⟨claim, hclaim, hpasses⟩, ?_⟩, ?_⟩
    · intro _ earlier hearlier _ hsame
      exact hfirst earlier hearlier (hsame.trans hclaim)
    · intro _
      rw [hclaim, Option.any_some]
      exact hdiscloses

end

/-! ### Contradictions -/

section

variable {context : SuppliedContext} {claims : List Claim}

/-- A claim that passes the checks is resolved to its instant. -/
theorem resolvedInstant_eq {claim : Claim} (h : checkSteps4To8 claim context = .ok ()) :
  resolvedInstant claim context = .ok (instantOf context claim)
  := by
  have hrange : ¬ Reads context claim (.error .panicked) := by
    intro hreads
    obtain ⟨hgrounded, -⟩ := checkSteps4To8_eq_ok_iff.mp h
    rw [checkSteps4To8_eq_panicked_iff.mpr ⟨hgrounded, hreads⟩] at h
    cases h
  obtain ⟨instant, hinstant, -⟩ := exists_resolvedInstant hrange
  rw [instantOf, hinstant]

/-- Two claims are for the same loops and for different instants. -/
def Opposed (context : SuppliedContext) (first second : Claim) : Prop :=
  first.relatedLoopHandles ≠ [] ∧ first.relatedLoopHandles = second.relatedLoopHandles
    ∧ ∃ t t', instantOf context first = some t ∧ instantOf context second = some t' ∧ t ≠ t'

/-- Two claims that pass the checks are compared exactly. -/
theorem exists_contradictory {first second : Claim}
    (hfirst : checkSteps4To8 first context = .ok ())
    (hsecond : checkSteps4To8 second context = .ok ()) :
  ∃ b, contradictory first second context = .ok b ∧ (b = true ↔ Opposed context first second)
  := by
  rw [contradictory, Opposed]
  split_ifs with hloops
  · refine ⟨false, rfl, iff_of_false Bool.false_ne_true ?_⟩
    rintro ⟨hne, hsame, -⟩
    rw [Bool.or_eq_true, decide_eq_true_iff, decide_eq_true_iff] at hloops
    rcases hloops with hloops | hloops
    · exact hne hloops
    · exact hloops hsame
  · have hloops' : first.relatedLoopHandles ≠ []
        ∧ first.relatedLoopHandles = second.relatedLoopHandles := by
      simpa using hloops
    rw [resolvedInstant_eq hfirst]
    cases hinstant : instantOf context first with
    | none =>
        refine ⟨false, rfl, iff_of_false Bool.false_ne_true ?_⟩
        rintro ⟨-, -, t, -, ⟨⟩, -⟩
    | some t =>
        rw [resolvedInstant_eq hsecond]
        cases hinstant' : instantOf context second with
        | none =>
            refine ⟨false, rfl, iff_of_false Bool.false_ne_true ?_⟩
            rintro ⟨-, -, -, t', -, ⟨⟩, -⟩
        | some t' =>
            refine ⟨t ≠ t', rfl, ?_⟩
            rw [decide_eq_true_iff]
            constructor
            · intro hne
              exact ⟨hloops'.1, hloops'.2, t, t', rfl, rfl, hne⟩
            · rintro ⟨-, -, u, u', ⟨⟩, ⟨⟩, hne⟩
              exact hne

/-- The claims at two places are opposed. -/
def OpposedAt (context : SuppliedContext) (claims : List Claim) (i j : ℕ) : Prop :=
  ∃ first second, claims[i]? = some first ∧ claims[j]? = some second ∧ Opposed context first second

open Classical in
/-- Strike out the claims at two places, when both are open and they are opposed. -/
noncomputable def strikePair (context : SuppliedContext) (claims : List Claim)
    (dispositions : Dispositions) (places : ℕ × ℕ) : Dispositions :=
  if dispositions.IsOpen places.1 ∧ dispositions.IsOpen places.2
      ∧ OpposedAt context claims places.1 places.2 then
    (dispositions.reject places.1 .contradictoryDeadlineRelation).reject places.2
      .contradictoryDeadlineRelation
  else dispositions

theorem strikes :
  Strikes (OpposedAt context claims) Dispositions.IsOpen (strikePair context claims)
  := by
  constructor
  · intro s x y hx hy hopposed z
    rw [strikePair, if_pos ⟨hx, hy, hopposed⟩, Dispositions.isOpen_reject_iff,
      Dispositions.isOpen_reject_iff, and_assoc]
  · intro s x y h
    rw [strikePair, if_neg h]

theorem length_foldl_strikePair (pairs : List (ℕ × ℕ)) (dispositions : Dispositions) :
  (pairs.foldl (strikePair context claims) dispositions).length = dispositions.length
  := by
  induction pairs generalizing dispositions with
  | nil => rfl
  | cons pair pairs ih =>
      rw [List.foldl_cons, ih, strikePair]
      split_ifs
      · rw [Dispositions.length_reject, Dispositions.length_reject]
      · rfl

/-- At two claims that pass the checks a step strikes out the pair. -/
theorem rejectContradictory_eq_ok {places : ℕ × ℕ} {first second : Claim}
    (hfirst : claims[places.1]? = some first) (hsecond : claims[places.2]? = some second)
    (hpasses : checkSteps4To8 first context = .ok ())
    (hpasses' : checkSteps4To8 second context = .ok ()) (dispositions : Dispositions) :
  rejectContradictory claims context dispositions places
    = .ok (strikePair context claims dispositions places)
  := by
  have hopposed : OpposedAt context claims places.1 places.2 ↔ Opposed context first second := by
    constructor
    · rintro ⟨first', second', hfirst', hsecond', h⟩
      rw [hfirst] at hfirst'
      rw [hsecond] at hsecond'
      cases hfirst'
      cases hsecond'
      exact h
    · intro h
      exact ⟨first, second, hfirst, hsecond, h⟩
  rw [rejectContradictory, hfirst, hsecond, strikePair]
  dsimp only
  split_ifs with hclosed hstrike hstrike
  · exact absurd hstrike fun h => hclosed.elim (fun h' => h' h.1) fun h' => h' h.2.1
  · rfl
  · obtain ⟨b, hb, hiff⟩ := exists_contradictory hpasses hpasses'
    rw [hb, hiff.mpr (hopposed.mp hstrike.2.2)]
    rfl
  · obtain ⟨b, hb, hiff⟩ := exists_contradictory hpasses hpasses'
    have hfalse : b = false := by
      rw [← Bool.not_eq_true]
      intro htrue
      rw [not_or, not_not, not_not] at hclosed
      exact hstrike ⟨hclosed.1, hclosed.2, hopposed.mpr (hiff.mp htrue)⟩
    rw [hb, hfalse]
    rfl

/-- What the check of the instants leaves of the standing claims. -/
structure Eliminated (context : SuppliedContext) (claims : List Claim)
    (dispositions : Dispositions) : Prop where
  length_eq : dispositions.length = claims.length
  stands : ∀ i, dispositions.IsOpen i → ∃ claim, Stands context claims i claim
  others : ∀ i claim, Stands context claims i claim →
    (∀ loops, loops ≠ [] → changes context loops claim = false) → dispositions.IsOpen i
  pairs : ∀ loops, loops ≠ [] →
    ((changesOf context claims loops).filter fun i => dispositions.IsOpen i).map
        (instantAt context claims)
      = leftover ((changesOf context claims loops).map (instantAt context claims))

theorem mem_deadlineChangeIndices {dispositions : Dispositions}
    (h : CheckedSingly context claims dispositions) {i : ℕ} :
  i ∈ deadlineChangeIndices claims (rejectSingly claims dispositions) ↔
    ∃ claim, Stands context claims i claim ∧ claim.claimType = .deadlineChange
  := by
  rw [deadlineChangeIndices, List.mem_filter, decide_eq_true_iff, isOpen_rejectSingly_iff h,
    List.mem_range]
  constructor
  · rintro ⟨-, ⟨claim, hstands⟩, htype⟩
    rw [hstands.at_index, Option.map_some, Option.some_inj] at htype
    exact ⟨claim, hstands, htype⟩
  · rintro ⟨claim, hstands, htype⟩
    refine ⟨(List.getElem?_eq_some_iff.mp hstands.at_index).1, ⟨claim, hstands⟩, ?_⟩
    rw [hstands.at_index, Option.map_some, htype]

/-- Whether the claim at a place is for the loops, at one instant. -/
def isFor (context : SuppliedContext) (claims : List Claim) (loops : List String) (i : ℕ) : Bool :=
  claims[i]?.any fun claim => claim.relatedLoopHandles = loops && (instantOf context claim).isSome

theorem isFor_iff {loops : List String} {i : ℕ} :
  isFor context claims loops i = true ↔
    ∃ claim t, claims[i]? = some claim ∧ claim.relatedLoopHandles = loops
      ∧ instantOf context claim = some t
  := by
  rw [isFor]
  cases claims[i]? with
  | none => simp
  | some claim => simp [Option.isSome_iff_exists]

/-- Claims that are opposed are for the same loops, and not for the same instant. -/
theorem OpposedAt.isFor_eq {i j : ℕ} (h : OpposedAt context claims i j) (loops : List String) :
  isFor context claims loops i = isFor context claims loops j
    ∧ instantAt context claims i ≠ instantAt context claims j
  := by
  obtain ⟨first, second, hfirst, hsecond, -, hsame, t, t', ht, ht', hne⟩ := h
  rw [isFor, isFor, instantAt, instantAt, hfirst, hsecond, Option.any_some, Option.any_some,
    Option.bind_some, Option.bind_some, hsame, ht, ht']
  exact ⟨rfl, fun h => hne (Option.some_inj.mp h)⟩

/-- Claims for the same loops and different instants are opposed. -/
theorem opposedAt_of_isFor {loops : List String} (hloops : loops ≠ []) {i j : ℕ}
    (hi : isFor context claims loops i = true) (hj : isFor context claims loops j = true)
    (hne : instantAt context claims i ≠ instantAt context claims j) :
  OpposedAt context claims i j
  := by
  obtain ⟨first, t, hfirst, hfor, ht⟩ := isFor_iff.mp hi
  obtain ⟨second, t', hsecond, hfor', ht'⟩ := isFor_iff.mp hj
  refine ⟨first, second, hfirst, hsecond, ?_, hfor.trans hfor'.symm, t, t', ht, ht', ?_⟩
  · rw [hfor]
    exact hloops
  · rintro rfl
    apply hne
    rw [instantAt, instantAt, hfirst, hsecond, Option.bind_some, Option.bind_some, ht, ht']

/-- The places of the standing claims that change a deadline. -/
def standingChanges (context : SuppliedContext) (claims : List Claim) : List ℕ :=
  (List.range claims.length).filter fun index =>
    claims[index]?.any fun claim =>
      Stands context claims index claim && claim.claimType = .deadlineChange

theorem mem_standingChanges {i : ℕ} :
  i ∈ standingChanges context claims ↔
    ∃ claim, Stands context claims i claim ∧ claim.claimType = .deadlineChange
  := by
  rw [standingChanges, List.mem_filter, List.mem_range]
  constructor
  · rintro ⟨-, h⟩
    rw [Option.any_eq_true] at h
    obtain ⟨claim, -, h⟩ := h
    rw [Bool.and_eq_true, decide_eq_true_iff, decide_eq_true_iff] at h
    exact ⟨claim, h⟩
  · rintro ⟨claim, hstands, htype⟩
    refine ⟨(List.getElem?_eq_some_iff.mp hstands.at_index).1, ?_⟩
    rw [hstands.at_index, Option.any_some, Bool.and_eq_true, decide_eq_true_iff,
      decide_eq_true_iff]
    exact ⟨hstands, htype⟩

/-- Of the claims that are open after the first checks, the deadline changes are the standing
ones. -/
theorem deadlineChangeIndices_rejectSingly {dispositions : Dispositions}
    (h : CheckedSingly context claims dispositions) :
  deadlineChangeIndices claims (rejectSingly claims dispositions) = standingChanges context claims
  := by
  rw [deadlineChangeIndices, standingChanges]
  apply List.filter_congr
  intro i hi
  have hleft : i ∈ deadlineChangeIndices claims (rejectSingly claims dispositions)
      ↔ i ∈ standingChanges context claims := by
    rw [mem_deadlineChangeIndices h, mem_standingChanges]
  rw [deadlineChangeIndices, standingChanges, List.mem_filter, List.mem_filter,
    and_iff_right hi, and_iff_right hi] at hleft
  rwa [Bool.eq_iff_iff]

/-- The changes for some loops are the standing ones that are for these loops. -/
theorem changesOf_eq (loops : List String) :
  changesOf context claims loops
    = (standingChanges context claims).filter (isFor context claims loops)
  := by
  rw [changesOf, standingChanges, List.filter_filter]
  apply List.filter_congr
  intro i hi
  have hleft : i ∈ changesOf context claims loops
      ↔ isFor context claims loops i = true ∧ i ∈ standingChanges context claims := by
    rw [mem_changesOf, mem_standingChanges, isFor_iff]
    constructor
    · rintro ⟨claim, hstands, hchanges⟩
      simp only [changes, Bool.and_eq_true, decide_eq_true_eq] at hchanges
      obtain ⟨⟨htype, hfor⟩, hsome⟩ := hchanges
      obtain ⟨t, ht⟩ := Option.isSome_iff_exists.mp hsome
      exact ⟨⟨claim, t, hstands.at_index, hfor, ht⟩, claim, hstands, htype⟩
    · rintro ⟨⟨claim, t, hclaim, hfor, ht⟩, claim', hstands, htype⟩
      have hsame := hstands.at_index
      rw [hclaim] at hsame
      cases hsame
      exact ⟨claim, hstands, by simp [changes, htype, hfor, ht]⟩
  rw [changesOf, standingChanges, List.mem_filter, List.mem_filter, and_iff_right hi,
    and_iff_right hi] at hleft
  rwa [Bool.eq_iff_iff, Bool.and_eq_true]

/-- What the check of claims together leaves open: of the standing claims that change a deadline
what stays when opposed ones are paired off, and all other standing claims. -/
structure Struck (context : SuppliedContext) (claims : List Claim)
    (dispositions : Dispositions) : Prop where
  length_eq : dispositions.length = claims.length
  stands : ∀ i, dispositions.IsOpen i → ∃ claim, Stands context claims i claim
  others : ∀ i claim, Stands context claims i claim → claim.claimType ≠ .deadlineChange →
    dispositions.IsOpen i
  paired : PairedOff (OpposedAt context claims) (standingChanges context claims)
    ((standingChanges context claims).filter fun i => dispositions.IsOpen i)

/-- The check of claims together succeeds on claims that were checked by themselves, and strikes
out pairs of opposed ones. -/
theorem exists_struck {dispositions : Dispositions}
    (h : CheckedSingly context claims dispositions) (hlength : dispositions.length = claims.length) :
  ∃ after, applyStep9Consistency claims dispositions context = .ok after
    ∧ Struck context claims after
  := by
  have hindices := deadlineChangeIndices_rejectSingly h
  set singly := rejectSingly claims dispositions with hsingly
  set after := (pairsOf (standingChanges context claims)).foldl (strikePair context claims) singly
    with hafter
  have hopen := isOpen_rejectSingly_iff h
  rw [← hsingly] at hopen
  refine ⟨after, ?_, ?_, ?_, ?_, ?_⟩
  · rw [applyStep9Consistency, ← hsingly, hindices]
    apply Except.foldlM_eq_ok_foldl
    intro dispositions' places hplaces
    obtain ⟨hfirst, hsecond⟩ := mem_of_mem_pairsOf hplaces
    obtain ⟨first, hfirst, -⟩ := mem_standingChanges.mp hfirst
    obtain ⟨second, hsecond, -⟩ := mem_standingChanges.mp hsecond
    exact rejectContradictory_eq_ok hfirst.at_index hsecond.at_index hfirst.passes hsecond.passes _
  · rw [hafter, length_foldl_strikePair, hsingly, length_rejectSingly, hlength]
  · intro i hi
    exact (hopen i).mp (strikes.live_of_live_foldl hi)
  · intro i claim hstands htype
    rw [hafter, strikes.live_foldl_iff]
    · exact (hopen i).mpr ⟨claim, hstands⟩
    · intro pair hpair
      obtain ⟨hfirst, hsecond⟩ := mem_of_mem_pairsOf hpair
      have hnot : ∀ j ∈ standingChanges context claims, i ≠ j := by
        rintro j hj rfl
        obtain ⟨claim', hstands', htype'⟩ := mem_standingChanges.mp hj
        have := hstands'.at_index
        rw [hstands.at_index] at this
        cases this
        exact htype htype'
      exact ⟨hnot _ hfirst, hnot _ hsecond⟩
  · have hall : (standingChanges context claims).filter (fun i => singly.IsOpen i)
        = standingChanges context claims := by
      rw [List.filter_eq_self]
      intro i hi
      obtain ⟨claim, hstands, -⟩ := mem_standingChanges.mp hi
      exact decide_eq_true ((hopen i).mpr ⟨claim, hstands⟩)
    have hnodup : (standingChanges context claims).Nodup := List.Nodup.filter _ List.nodup_range
    have hstays := (@strikes context claims).pairedOff singly hnodup
    rwa [hall] at hstays

/-- What is left of the standing claims is eliminated. -/
theorem Struck.eliminated {dispositions : Dispositions} (h : Struck context claims dispositions) :
  Eliminated context claims dispositions
  := by
  constructor
  · apply h.length_eq
  · apply h.stands
  · intro i claim hstands hothers
    by_cases htype : claim.claimType = .deadlineChange
    · -- the claim is not opposed to any other
      have hstays := h.paired.filter_eq (p := fun j => j = i) (by
        rintro x y ⟨first, second, hfirst, hsecond, hne, hsame, t, t', ht, ht', -⟩
        rw [decide_eq_false_iff_not, decide_eq_false_iff_not]
        constructor
        · rintro rfl
          rw [hstands.at_index] at hfirst
          cases hfirst
          have := hothers _ hne
          simp [changes, htype, ht] at this
        · rintro rfl
          rw [hstands.at_index] at hsecond
          cases hsecond
          have := hothers _ (hsame ▸ hne)
          simp [changes, htype, ht'] at this)
      have hi : i ∈ (standingChanges context claims).filter (fun j => j = i) :=
        List.mem_filter.mpr ⟨mem_standingChanges.mpr ⟨claim, hstands, htype⟩, by simp⟩
      rw [← hstays] at hi
      exact of_decide_eq_true (List.mem_filter.mp (List.mem_filter.mp hi).1).2
    · apply h.others i claim hstands htype
  · intro loops hloops
    rw [changesOf_eq, List.filter_comm]
    apply h.paired.map_filter
    · intro x y hopposed
      apply hopposed.isFor_eq
    · intro x y hx hy hne
      exact opposedAt_of_isFor hloops hx hy hne

/-- The check of claims together succeeds on claims that were checked by themselves, and eliminates
contradictions. -/
theorem exists_applyStep9Consistency {dispositions : Dispositions}
    (h : CheckedSingly context claims dispositions) (hlength : dispositions.length = claims.length) :
  ∃ after, applyStep9Consistency claims dispositions context = .ok after
    ∧ Eliminated context claims after
  := by
  obtain ⟨after, hafter, hstruck⟩ := exists_struck h hlength
  exact ⟨after, hafter, hstruck.eliminated⟩

end

end Inference
