import OpenLoops.Inference.Consistency
import Mathlib.Data.List.Perm.Subperm

/-!
# Which claims are accepted

A claim is to be accepted when every step of the validation holds for it, and the last one whatever
the order of the claims.  The steps are exact but for contradictions: deadline changes are struck
out in pairs, so that one that contradicts others is accepted when there is none left for it.
-/

namespace Inference

open Contracts Domain PairingOff

variable {context : SuppliedContext} {claims : List Claim}

/-! ### Contradictions -/

/-- Two deadline changes are for the same loops, in whatever order they are listed, and for
different instants. -/
def Contradicts (context : SuppliedContext) (claim other : Claim) : Prop :=
  claim.claimType = .deadlineChange ∧ other.claimType = .deadlineChange
    ∧ claim.relatedLoopHandles ≠ []
    ∧ (∀ handle, handle ∈ claim.relatedLoopHandles ↔ handle ∈ other.relatedLoopHandles)
    ∧ ∃ t t', IsAt context claim t ∧ IsAt context other t' ∧ t ≠ t'

/-- A claim is for one instant at most. -/
theorem IsAt.unique {claim : Claim} {t t' : UnixSeconds} (h : IsAt context claim t)
    (h' : IsAt context claim t') :
  t = t'
  := by
  cases Reads.unique h h'
  rfl

theorem changes_iff {claim : Claim} (h : checkSteps4To8 claim context = .ok ())
    {loops : List String} :
  changes context loops claim = true ↔
    claim.claimType = .deadlineChange ∧ claim.relatedLoopHandles = loops
      ∧ ∃ t, IsAt context claim t
  := by
  rw [changes, Bool.and_eq_true, Bool.and_eq_true, decide_eq_true_iff, decide_eq_true_iff,
    Option.isSome_iff_exists, and_assoc]
  simp only [instantOf_eq_some_iff h]

/-- A claim that contradicts another changes the deadline of its loops. -/
theorem Contradicts.changes {claim other : Claim} (hpasses : checkSteps4To8 claim context = .ok ())
    (h : Contradicts context claim other) :
  changes context claim.relatedLoopHandles claim = true
  := by
  obtain ⟨htype, -, -, -, t, -, ht, -⟩ := h
  exact (changes_iff hpasses).mpr ⟨htype, rfl, t, ht⟩

/-- Two changes for the same loops contradict each other unless they are for the same instant. -/
theorem contradicts_of_changes {claim other : Claim} {loops : List String} (hloops : loops ≠ [])
    (hpasses : checkSteps4To8 claim context = .ok ())
    (hpasses' : checkSteps4To8 other context = .ok ())
    (h : changes context loops claim = true) (h' : changes context loops other = true)
    (hne : instantOf context claim ≠ instantOf context other) :
  Contradicts context claim other
  := by
  obtain ⟨htype, hfor, t, ht⟩ := (changes_iff hpasses).mp h
  obtain ⟨htype', hfor', t', ht'⟩ := (changes_iff hpasses').mp h'
  refine ⟨htype, htype', hfor ▸ hloops, fun handle => by rw [hfor, hfor'], t, t', ht, ht', ?_⟩
  rintro rfl
  rw [(instantOf_eq_some_iff hpasses).mpr ht, (instantOf_eq_some_iff hpasses').mpr ht'] at hne
  exact hne rfl

/-- When a change contradicts another claim, each change for the same loops contradicts the one or
the other. -/
theorem Contradicts.of_changes {claim claim' other : Claim} {loops : List String}
    (hpasses : checkSteps4To8 claim context = .ok ())
    (hpasses' : checkSteps4To8 claim' context = .ok ())
    (hchanges : Inference.changes context loops claim = true)
    (hchanges' : Inference.changes context loops claim' = true)
    (h : Contradicts context claim other) :
  Contradicts context claim' other ∨ Contradicts context claim' claim
  := by
  obtain ⟨htype, hfor, -⟩ := (changes_iff hpasses).mp hchanges
  obtain ⟨htype', hfor', -⟩ := (changes_iff hpasses').mp hchanges'
  by_cases hsame : instantOf context claim' = instantOf context claim
  · left
    obtain ⟨-, hother, hne, hset, t, t', ht, ht', hdiffer⟩ := h
    refine ⟨htype', hother, ?_, ?_, t, t', ?_, ht', hdiffer⟩
    · rwa [hfor', ← hfor]
    · rwa [hfor', ← hfor]
    · rw [← instantOf_eq_some_iff hpasses', hsame]
      exact (instantOf_eq_some_iff hpasses).mpr ht
  · right
    apply contradicts_of_changes _ hpasses' hpasses hchanges' hchanges hsame
    rw [← hfor]
    exact h.2.2.1

/-! ### What is eliminated -/

section

variable {dispositions : Dispositions} (h : Eliminated context claims dispositions)
include h

/-- When nothing of the changes for some loops is left over, none of them is accepted. -/
theorem Eliminated.not_open_of_leftover {loops : List String} (hloops : loops ≠ [])
    (hleft : leftover ((changesOf context claims loops).map (instantAt context claims)) = [])
    {i : ℕ} (hi : i ∈ changesOf context claims loops) :
  ¬ dispositions.IsOpen i
  := by
  intro hopen
  have hpairs := h.pairs loops hloops
  rw [hleft, List.map_eq_nil_iff] at hpairs
  have hmem : i ∈ (changesOf context claims loops).filter fun i => dispositions.IsOpen i :=
    List.mem_filter.mpr ⟨hi, decide_eq_true hopen⟩
  rw [hpairs] at hmem
  cases hmem

/-- When none of the changes for some loops is accepted, nothing of them is left over. -/
theorem Eliminated.leftover_of_not_open {loops : List String} (hloops : loops ≠ [])
    (hnone : ∀ i ∈ changesOf context claims loops, ¬ dispositions.IsOpen i) :
  leftover ((changesOf context claims loops).map (instantAt context claims)) = []
  := by
  rw [← h.pairs loops hloops, List.map_eq_nil_iff, List.filter_eq_nil_iff]
  intro i hi hopen
  exact hnone i hi (of_decide_eq_true hopen)

/-- When the changes for some loops are all for the same instant, all of them are accepted. -/
theorem Eliminated.open_of_same {loops : List String} (hloops : loops ≠ []) {i : ℕ}
    (hi : i ∈ changesOf context claims loops)
    (hsame : ∀ j ∈ changesOf context claims loops,
      instantAt context claims j = instantAt context claims i) :
  dispositions.IsOpen i
  := by
  have hpairs := h.pairs loops hloops
  have hall : (changesOf context claims loops).map (instantAt context claims)
      = List.replicate (changesOf context claims loops).length (instantAt context claims i) := by
    rw [List.eq_replicate_iff, List.length_map]
    refine ⟨rfl, ?_⟩
    intro t ht
    obtain ⟨j, hj, rfl⟩ := List.mem_map.mp ht
    exact hsame j hj
  rw [hall, leftover_replicate] at hpairs
  have hlength := congrArg List.length hpairs
  rw [List.length_map, List.length_replicate, List.length_filter_eq_length_iff] at hlength
  exact of_decide_eq_true (hlength i hi)

/-- A standing claim that contradicts no other one is accepted. -/
theorem Eliminated.open_of_consistent {i : ℕ} {claim : Claim}
    (hstands : Stands context claims i claim)
    (hconsistent : ∀ j other, Stands context claims j other → ¬ Contradicts context claim other) :
  dispositions.IsOpen i
  := by
  by_cases hchanges : changes context claim.relatedLoopHandles claim = true
      ∧ claim.relatedLoopHandles ≠ []
  · obtain ⟨hchanges, hloops⟩ := hchanges
    apply h.open_of_same hloops (mem_changesOf.mpr ⟨claim, hstands, hchanges⟩)
    intro j hj
    obtain ⟨other, hstands', hchanges'⟩ := mem_changesOf.mp hj
    by_contra hne
    rw [instantAt, instantAt, hstands.at_index, hstands'.at_index, Option.bind_some,
      Option.bind_some] at hne
    exact hconsistent j other hstands' (contradicts_of_changes hloops hstands.passes
      hstands'.passes hchanges hchanges' (Ne.symm hne))
  · apply h.others i claim hstands
    intro loops hloops
    rw [← Bool.not_eq_true]
    intro hfor
    obtain ⟨htype, rfl, hinstant⟩ := (changes_iff hstands.passes).mp hfor
    exact hchanges ⟨hfor, hloops⟩

end

/-! ### Verdicts -/

/-- The handles of a claim are among those that were supplied. -/
structure HandlesSupplied (context : SuppliedContext) (claim : Claim) : Prop where
  sources : ∀ evidence ∈ claim.evidence,
    ∃ message ∈ context.messages, message.handle = evidence.sourceHandle
  loops : ∀ related ∈ claim.relatedLoopHandles, related ∈ context.loopCandidateHandles
  waitingParty : ∀ handle, claim.waitingPartyHandle = .value handle →
    ∃ participant ∈ context.participants, participant.handle = handle

theorem Known.handlesSupplied {claim : Claim} (h : Known context claim) :
  HandlesSupplied context claim
  := by
  constructor
  · intro evidence he
    obtain ⟨message, hmessage⟩ := h.sources evidence he
    exact ⟨message, SuppliedContext.mem_of_findMessage hmessage⟩
  · apply h.loops
  · intro handle hhandle
    obtain ⟨participant, hparticipant⟩ := h.waitingParty handle hhandle
    exact ⟨participant, SuppliedContext.mem_of_findParticipant hparticipant⟩

/-- Every step of the validation holds for the claim at a place. -/
structure StepsHold (context : SuppliedContext) (claims : List Claim) (index : ℕ)
    (claim : Claim) : Prop where
  grounded : Grounded context claim
  reproduced : Reproduced context claim
  first : ∀ earlier < index, claims[earlier]? ≠ some claim
  discloses : (distinctMessageHandles claim).card ≤ 1 ∨ .crossMessage ∈ claim.ambiguityCodes
  consistent : ∀ j other, Stands context claims j other → ¬ Contradicts context claim other

/-- The steps hold for the claims that stand and contradict none that does. -/
theorem stepsHold_iff {i : ℕ} {claim : Claim} (hclaim : claims[i]? = some claim) :
  StepsHold context claims i claim ↔ Stands context claims i claim
    ∧ ∀ j other, Stands context claims j other → ¬ Contradicts context claim other
  := by
  have hdiscloses : undisclosesMessages claim = false ↔
      (distinctMessageHandles claim).card ≤ 1 ∨ .crossMessage ∈ claim.ambiguityCodes := by
    rw [undisclosesMessages, Bool.and_eq_false_iff, decide_eq_false_iff_not,
      decide_eq_false_iff_not, not_lt, not_not]
  constructor
  · rintro ⟨hgrounded, hreproduced, hfirst, hdisclosed, hconsistent⟩
    exact ⟨⟨hclaim, checkSteps4To8_eq_ok_iff.mpr ⟨hgrounded, hreproduced⟩, hfirst,
      hdiscloses.mpr hdisclosed⟩, hconsistent⟩
  · rintro ⟨⟨-, hpasses, hfirst, hdisclosed⟩, hconsistent⟩
    obtain ⟨hgrounded, hreproduced⟩ := checkSteps4To8_eq_ok_iff.mp hpasses
    exact ⟨hgrounded, hreproduced, hfirst, hdiscloses.mp hdisclosed, hconsistent⟩

/-- An answer is validated exactly.  It has a verdict on each claim, in the order of the claims; a
claim is accepted exactly when every step holds for it; and then its handles were supplied, and
its evidence is within the blocks cited. -/
def ValidatesExactly (fromStr : String → Option Json) (bytes : Bytes)
    (context : SuppliedContext) : Prop :=
  match parseAnalysisOutput fromStr bytes with
  | .error _ => validate fromStr bytes context = .ok .analysisUnavailable
  | .ok output => ∃ verdicts, validate fromStr bytes context = .ok (.reviewed verdicts)
      ∧ verdicts.map (·.claimType) = output.claims.map (·.claimType)
      ∧ ∀ i claim verdict, output.claims[i]? = some claim → verdicts[i]? = some verdict →
        (verdict.disposition = .acceptForReview ↔ StepsHold context output.claims i claim)
          ∧ (verdict.disposition = .acceptForReview →
            HandlesSupplied context claim ∧ ∀ evidence ∈ claim.evidence, Supported context evidence)

/-- The claims are told apart.  The calendar of the parser is in range for every grounded claim; and
where a standing change of the deadline of some loops contradicts a standing claim, nothing is left
over when the instants of all changes for these loops are paired off. -/
def ToldApart (context : SuppliedContext) (claims : List Claim) : Prop :=
  (∀ claim ∈ claims, Grounded context claim → ¬ Reads context claim (.error .panicked))
    ∧ ∀ loops, loops ≠ [] →
      (∃ i ∈ changesOf context claims loops, ∃ claim j other, claims[i]? = some claim
        ∧ Stands context claims j other ∧ Contradicts context claim other) →
      leftover ((changesOf context claims loops).map (instantAt context claims)) = []

/-- Where the calendar is in range there is a disposition of each claim by itself. -/
theorem exists_rejections
    (h : ∀ claim ∈ claims, Grounded context claim → ¬ Reads context claim (.error .panicked)) :
  ∃ dispositions, claims.mapM (rejectionOf · context) = .ok dispositions
    ∧ dispositions.length = claims.length ∧ CheckedSingly context claims dispositions
  := by
  have hrejection : ∀ claim ∈ claims, ∃ rejection, rejectionOf claim context = .ok rejection
      ∧ (rejection = none ↔ checkSteps4To8 claim context = .ok ()) := by
    intro claim hclaim
    rw [rejectionOf]
    rcases hcheck : checkSteps4To8 claim context with ⟨reason⟩ | ⟨⟨⟩⟩
    · cases reason with
      | error reason => exact ⟨some reason, rfl, iff_of_false nofun nofun⟩
      | panicked =>
          obtain ⟨hgrounded, hreads⟩ := checkSteps4To8_eq_panicked_iff.mp hcheck
          exact absurd hreads (h claim hclaim hgrounded)
    · exact ⟨none, rfl, iff_of_true rfl rfl⟩
  obtain ⟨dispositions, hdispositions⟩ : ∃ dispositions : Dispositions,
      List.Forall₂ (fun claim rejection => rejectionOf claim context = .ok rejection
        ∧ (rejection = none ↔ checkSteps4To8 claim context = .ok ())) claims dispositions := by
    clear h
    induction claims with
    | nil => exact ⟨[], List.Forall₂.nil⟩
    | cons claim claims ih =>
        obtain ⟨rejection, hfirst⟩ := hrejection claim List.mem_cons_self
        obtain ⟨rest, hrest⟩ := ih fun c hc => hrejection c (List.mem_cons_of_mem claim hc)
        exact ⟨rejection :: rest, List.Forall₂.cons hfirst hrest⟩
  refine ⟨dispositions, ?_, hdispositions.length_eq.symm, ?_⟩
  · rw [Except.mapM_eq_ok]
    apply hdispositions.imp
    intro claim rejection hboth
    exact hboth.1
  · intro i
    rw [Dispositions.IsOpen]
    constructor
    · intro hi
      have hlt := (List.getElem?_eq_some_iff.mp hi).1
      rw [← hdispositions.length_eq] at hlt
      have hclaim := List.getElem?_eq_getElem hlt
      have hboth := hdispositions.get hlt (by rw [← hdispositions.length_eq]; exact hlt)
      refine ⟨claims[i], hclaim, ?_⟩
      have hget := (List.getElem?_eq_some_iff.mp hi).2
      exact (hboth.2).mp hget
    · rintro ⟨claim, hclaim, hpasses⟩
      obtain ⟨hlt, hget⟩ := List.getElem?_eq_some_iff.mp hclaim
      have hlt' : i < dispositions.length := by rw [← hdispositions.length_eq]; exact hlt
      have hboth := hdispositions.get hlt hlt'
      rw [List.getElem?_eq_some_iff]
      refine ⟨hlt', ?_⟩
      apply hboth.2.mpr
      rw [List.get_eq_getElem, hget]
      exact hpasses

/-- A verdict accepts a claim exactly when it is open. -/
theorem disposition_eq_accept_iff {claim : Claim} {rejection : Option ClaimRejectionReason} :
  (verdictOf claim rejection).disposition = .acceptForReview ↔ rejection = none
  := by
  cases rejection with
  | some reason => exact iff_of_false nofun nofun
  | none =>
      apply iff_of_true _ rfl
      dsimp only [verdictOf]

/-- Claims are accepted exactly when every step holds for them, exactly when the ones that
contradict each other are told apart. -/
theorem Eliminated.forall_open_iff {dispositions : Dispositions}
    (h : Eliminated context claims dispositions) :
  (∀ i claim, claims[i]? = some claim →
      (dispositions.IsOpen i ↔ StepsHold context claims i claim)) ↔
    ∀ loops, loops ≠ [] →
      (∃ i ∈ changesOf context claims loops, ∃ claim j other, claims[i]? = some claim
        ∧ Stands context claims j other ∧ Contradicts context claim other) →
      leftover ((changesOf context claims loops).map (instantAt context claims)) = []
  := by
  constructor
  · rintro hexact loops hloops ⟨i, hi, claim, j, other, hclaim, hstands, hcontradicts⟩
    obtain ⟨claim', hstandsClaim, hchanges⟩ := mem_changesOf.mp hi
    have hsame := hstandsClaim.at_index
    rw [hclaim] at hsame
    cases hsame
    apply h.leftover_of_not_open hloops
    intro k hk hopen
    obtain ⟨member, hstandsMember, hchangesMember⟩ := mem_changesOf.mp hk
    have hsteps := (hexact k member hstandsMember.at_index).mp hopen
    -- a change for the same loops contradicts the one or the other
    rcases hcontradicts.of_changes hstandsClaim.passes hstandsMember.passes hchanges
        hchangesMember with hother | hfirst
    · exact hsteps.consistent j other hstands hother
    · exact hsteps.consistent i claim hstandsClaim hfirst
  · intro happart i claim hclaim
    rw [stepsHold_iff hclaim]
    constructor
    · intro hopen
      obtain ⟨claim', hstands⟩ := h.stands i hopen
      have hsame := hstands.at_index
      rw [hclaim] at hsame
      cases hsame
      refine ⟨hstands, ?_⟩
      intro j other hother hcontradicts
      have hloops := hcontradicts.2.2.1
      have hi : i ∈ changesOf context claims claim.relatedLoopHandles :=
        mem_changesOf.mpr ⟨claim, hstands, hcontradicts.changes hstands.passes⟩
      have hleft := happart _ hloops ⟨i, hi, claim, j, other, hclaim, hother, hcontradicts⟩
      exact h.not_open_of_leftover hloops hleft hi hopen
    · rintro ⟨hstands, hconsistent⟩
      exact h.open_of_consistent hstands hconsistent

/-- Each claim that is supplied the disposition of a place. -/
theorem getElem?_zipWith_verdictOf {dispositions : Dispositions} {i : ℕ} {claim : Claim}
    {verdict : ClaimVerdict} (hclaim : claims[i]? = some claim)
    (hverdict : (List.zipWith verdictOf claims dispositions)[i]? = some verdict) :
  ∃ rejection, dispositions[i]? = some rejection ∧ verdict = verdictOf claim rejection
  := by
  rw [List.getElem?_zipWith_eq_some] at hverdict
  obtain ⟨claim', rejection, hclaim', hrejection, hverdict⟩ := hverdict
  rw [hclaim] at hclaim'
  cases hclaim'
  exact ⟨rejection, hrejection, hverdict.symm⟩

/-- Where the calendar is in range the verdicts are on the claims, in their order, and they accept
the ones that are open after all checks. -/
theorem exists_struck_verdicts {fromStr : String → Option Json} {bytes : Bytes}
    {output : AnalysisOutput} (hparse : parseAnalysisOutput fromStr bytes = .ok output)
    (h : ∀ claim ∈ output.claims, Grounded context claim →
      ¬ Reads context claim (.error .panicked)) :
  ∃ dispositions, Struck context output.claims dispositions
    ∧ validate fromStr bytes context
      = .ok (.reviewed (List.zipWith verdictOf output.claims dispositions))
  := by
  obtain ⟨singly, hrejections, hlength, hchecked⟩ := exists_rejections h
  obtain ⟨dispositions, hstep, hstruck⟩ := exists_struck hchecked hlength
  refine ⟨dispositions, hstruck, ?_⟩
  rw [validate, hparse]
  apply Except.bind_eq_ok.mpr
  refine ⟨singly, hrejections, ?_⟩
  apply Except.bind_eq_ok.mpr
  exact ⟨dispositions, hstep, rfl⟩

/-- An answer of which a claim is out of the range of the calendar is not reviewed. -/
theorem inRange_of_validate {fromStr : String → Option Json} {bytes : Bytes}
    {output : AnalysisOutput} {result : AnalysisResult}
    (hparse : parseAnalysisOutput fromStr bytes = .ok output)
    (hvalidate : validate fromStr bytes context = .ok result) :
  ∀ claim ∈ output.claims, Grounded context claim → ¬ Reads context claim (.error .panicked)
  := by
  intro claim hclaim hgrounded hreads
  rw [validate, hparse] at hvalidate
  obtain ⟨dispositions, hsingly, -⟩ := Except.bind_eq_ok.mp hvalidate
  obtain ⟨rejection, hrejection⟩ := Except.exists_of_mapM_eq_ok hsingly hclaim
  rw [rejectionOf, checkSteps4To8_eq_panicked_iff.mpr ⟨hgrounded, hreads⟩] at hrejection
  cases hrejection

/-- Where the calendar is in range contradictions among the accepted claims are eliminated. -/
theorem exists_verdicts {fromStr : String → Option Json} {bytes : Bytes} {output : AnalysisOutput}
    (hparse : parseAnalysisOutput fromStr bytes = .ok output)
    (h : ∀ claim ∈ output.claims, Grounded context claim →
      ¬ Reads context claim (.error .panicked)) :
  ∃ dispositions, Eliminated context output.claims dispositions
    ∧ validate fromStr bytes context
      = .ok (.reviewed (List.zipWith verdictOf output.claims dispositions))
  := by
  obtain ⟨dispositions, hstruck, hvalidate⟩ := exists_struck_verdicts hparse h
  exact ⟨dispositions, hstruck.eliminated, hvalidate⟩

/-- A verdict accepts its claim exactly when the claim is open. -/
theorem Eliminated.accepts_iff {dispositions : Dispositions} {i : ℕ} {claim : Claim}
    {verdict : ClaimVerdict} (hclaim : claims[i]? = some claim)
    (hverdict : (List.zipWith verdictOf claims dispositions)[i]? = some verdict) :
  verdict.disposition = .acceptForReview ↔ dispositions.IsOpen i
  := by
  obtain ⟨rejection, hrejection, rfl⟩ := getElem?_zipWith_verdictOf hclaim hverdict
  rw [disposition_eq_accept_iff, Dispositions.IsOpen, hrejection, Option.some_inj]

/-- An answer is validated exactly when, if it has a document, its claims are told apart. -/
theorem validatesExactly_iff (fromStr : String → Option Json) (bytes : Bytes)
    (context : SuppliedContext) :
  ValidatesExactly fromStr bytes context ↔
    ∀ output, parseAnalysisOutput fromStr bytes = .ok output → ToldApart context output.claims
  := by
  rw [ValidatesExactly]
  cases hparse : parseAnalysisOutput fromStr bytes with
  | error rejection =>
      apply iff_of_true
      · rw [validate, hparse]
      · nofun
  | ok output =>
      dsimp only
      constructor
      · rintro ⟨verdicts, hvalidate, -, hverdicts⟩ _ ⟨⟩
        -- a call that panics gives no verdicts
        have hrange := inRange_of_validate hparse hvalidate
        obtain ⟨dispositions, heliminated, hvalidate'⟩ := exists_verdicts hparse hrange
        rw [hvalidate] at hvalidate'
        cases hvalidate'
        refine ⟨hrange, heliminated.forall_open_iff.mp ?_⟩
        intro i claim hclaim
        have hlt : i < dispositions.length := by
          rw [heliminated.length_eq]
          exact (List.getElem?_eq_some_iff.mp hclaim).1
        have hverdict : (List.zipWith verdictOf output.claims dispositions)[i]?
            = some (verdictOf claim dispositions[i]) :=
          List.getElem?_zipWith_eq_some.mpr
            ⟨claim, dispositions[i], hclaim, List.getElem?_eq_getElem hlt, rfl⟩
        rw [← Eliminated.accepts_iff hclaim hverdict]
        exact (hverdicts i claim _ hclaim hverdict).1
      · intro happart
        obtain ⟨hrange, hleft⟩ := happart output rfl
        obtain ⟨dispositions, heliminated, hvalidate⟩ := exists_verdicts hparse hrange
        refine ⟨_, hvalidate, ?_, ?_⟩
        · apply List.ext_getElem?
          intro i
          rw [List.getElem?_map, List.getElem?_map, List.getElem?_zipWith']
          by_cases hlt : i < output.claims.length
          · rw [List.getElem?_eq_getElem hlt,
              List.getElem?_eq_getElem (by rw [heliminated.length_eq]; exact hlt)]
            rfl
          · rw [List.getElem?_eq_none (Nat.not_lt.mp hlt)]
            rfl
        · intro i claim verdict hclaim hverdict
          have hopen := heliminated.forall_open_iff.mpr hleft i claim hclaim
          rw [Eliminated.accepts_iff hclaim hverdict, hopen]
          refine ⟨Iff.rfl, ?_⟩
          intro hsteps
          exact ⟨hsteps.grounded.known.handlesSupplied, hsteps.grounded.supported⟩

/-! ### Every order of the claims -/

/-- The claims that the check of claims together accepts, of claims that pass the checks before. -/
def acceptedTogether (context : SuppliedContext) (claims : List Claim) : Checked (List Claim) := do
  let dispositions ← applyStep9Consistency claims (claims.map fun _ => none) context
  return ((claims.zip dispositions).filter (·.2 = none)).map (·.1)

/-- Contradictions are eliminated.  The same claims are accepted in whatever order they are listed,
and none of them contradicts any of the claims. -/
def EliminatesContradictions (context : SuppliedContext) (claims : List Claim) : Prop :=
  ∃ accepted : Set Claim,
    (∀ claims' : List Claim, claims'.Perm claims →
      ∃ list, acceptedTogether context claims' = .ok list ∧ ∀ claim, claim ∈ list ↔ claim ∈ accepted)
    ∧ ∀ claim ∈ accepted, ∀ other ∈ claims, ¬ Contradicts context claim other

/-- The claims, each once, that disclose the messages of their evidence and change the deadline of
the loops to one instant. -/
def changing (context : SuppliedContext) (claims : List Claim) (loops : List String) :
    List Claim :=
  claims.dedup.filter fun claim => !undisclosesMessages claim && changes context loops claim

/-- What is accepted of claims that pass the checks before is what is open after all checks. -/
theorem exists_acceptedTogether
    (h : ∀ claim ∈ claims, checkSteps4To8 claim context = .ok ()) :
  ∃ dispositions list, Eliminated context claims dispositions
    ∧ acceptedTogether context claims = .ok list
    ∧ ∀ claim, claim ∈ list ↔ ∃ i, claims[i]? = some claim ∧ dispositions.IsOpen i
  := by
  have hchecked : CheckedSingly context claims (claims.map fun _ => none) := by
    intro i
    rw [Dispositions.IsOpen, List.getElem?_map]
    constructor
    · intro hi
      obtain ⟨claim, hclaim, -⟩ := Option.map_eq_some_iff.mp hi
      exact ⟨claim, hclaim, h claim (List.mem_of_getElem? hclaim)⟩
    · rintro ⟨claim, hclaim, -⟩
      rw [hclaim, Option.map_some]
  obtain ⟨dispositions, hstep, heliminated⟩ :=
    exists_applyStep9Consistency hchecked (List.length_map _)
  refine ⟨dispositions, ((claims.zip dispositions).filter (·.2 = none)).map (·.1), heliminated,
    ?_, ?_⟩
  · rw [acceptedTogether, hstep]
    rfl
  · intro claim
    rw [List.mem_map]
    constructor
    · rintro ⟨⟨claim', rejection⟩, hmem, rfl⟩
      obtain ⟨hmem, hnone⟩ := List.mem_filter.mp hmem
      obtain ⟨i, hi⟩ := List.mem_iff_getElem?.mp hmem
      obtain ⟨hclaim, hrejection⟩ := List.getElem?_zip_eq_some.mp hi
      rw [of_decide_eq_true hnone] at hrejection
      exact ⟨i, hclaim, hrejection⟩
    · rintro ⟨i, hclaim, hopen⟩
      refine ⟨(claim, none), List.mem_filter.mpr ⟨?_, by simp⟩, rfl⟩
      exact List.mem_of_getElem? (List.getElem?_zip_eq_some.mpr ⟨hclaim, hopen⟩)

/-- A claim that is there stands at its first place, when it passes the checks of it by itself and
discloses the messages of its evidence. -/
theorem exists_stands {claim : Claim} (hclaim : claim ∈ claims)
    (hpasses : checkSteps4To8 claim context = .ok ())
    (hdiscloses : undisclosesMessages claim = false) :
  ∃ i, Stands context claims i claim
  := by
  classical
  have hsome : ∃ i, claims[i]? = some claim := List.mem_iff_getElem?.mp hclaim
  refine ⟨Nat.find hsome, Nat.find_spec hsome, hpasses, ?_, hdiscloses⟩
  intro earlier hearlier hsame
  exact Nat.find_min hsome hearlier hsame

/-- The claim that stands at a place. -/
def standingAt (context : SuppliedContext) (claims : List Claim) (i : ℕ) : Option Claim :=
  claims[i]?.filter fun claim => Stands context claims i claim

theorem standingAt_eq_some_iff {i : ℕ} {claim : Claim} :
  standingAt context claims i = some claim ↔ Stands context claims i claim
  := by
  rw [standingAt, Option.filter_eq_some_iff, decide_eq_true_iff]
  exact and_iff_right_of_imp fun h => h.at_index

/-- A claim stands at one place only. -/
theorem Stands.index_unique {i j : ℕ} {claim : Claim} (hi : Stands context claims i claim)
    (hj : Stands context claims j claim) :
  i = j
  := by
  rcases lt_trichotomy i j with hlt | heq | hlt
  · exact absurd hi.at_index (hj.first i hlt)
  · exact heq
  · exact absurd hj.at_index (hi.first j hlt)

/-- The instants of the changes for some loops are those of the claims, in some order. -/
theorem map_instantAt_perm (h : ∀ claim ∈ claims, checkSteps4To8 claim context = .ok ())
    {claims' : List Claim} (hperm : claims'.Perm claims) (loops : List String) :
  ((changesOf context claims' loops).map (instantAt context claims')).Perm
    ((changing context claims loops).map (instantOf context))
  := by
  set members := (changesOf context claims' loops).filterMap (standingAt context claims')
    with hmembers
  have hmap : (changesOf context claims' loops).map (instantAt context claims')
      = members.map (instantOf context) := by
    rw [hmembers, List.map_filterMap, ← List.filterMap_eq_map]
    apply List.filterMap_congr
    intro i hi
    obtain ⟨claim, hstands, -⟩ := mem_changesOf.mp hi
    rw [standingAt_eq_some_iff.mpr hstands, Option.map_some, Function.comp_apply, instantAt,
      hstands.at_index, Option.bind_some]
  rw [hmap]
  apply List.Perm.map
  rw [List.perm_ext_iff_of_nodup]
  · intro claim
    rw [hmembers, List.mem_filterMap, changing, List.mem_filter, List.mem_dedup, Bool.and_eq_true,
      Bool.not_eq_true']
    constructor
    · rintro ⟨i, hi, hclaim⟩
      obtain ⟨claim', hstands, hchanges⟩ := mem_changesOf.mp hi
      rw [standingAt_eq_some_iff.mpr hstands, Option.some_inj] at hclaim
      subst hclaim
      exact ⟨hperm.mem_iff.mp (List.mem_of_getElem? hstands.at_index), hstands.discloses, hchanges⟩
    · rintro ⟨hmem, hdiscloses, hchanges⟩
      obtain ⟨i, hstands⟩ := exists_stands (hperm.mem_iff.mpr hmem) (h claim hmem) hdiscloses
      exact ⟨i, mem_changesOf.mpr ⟨claim, hstands, hchanges⟩, standingAt_eq_some_iff.mpr hstands⟩
  · rw [hmembers]
    apply List.Nodup.filterMap _ (List.Nodup.filter _ List.nodup_range)
    intro i j claim hi hj
    exact (standingAt_eq_some_iff.mp hi).index_unique (standingAt_eq_some_iff.mp hj)
  · apply List.Nodup.filter _ (List.nodup_dedup claims)

/-- The claims can be listed so that the changes for some loops come in any order. -/
theorem exists_order (h : ∀ claim ∈ claims, checkSteps4To8 claim context = .ok ())
    {loops : List String} {order : List Claim} (horder : order.Perm (changing context claims loops)) :
  ∃ claims' : List Claim, claims'.Perm claims
    ∧ (changesOf context claims' loops).map (instantAt context claims')
      = order.map (instantOf context)
  := by
  have hnodup : order.Nodup := horder.nodup_iff.mpr (List.Nodup.filter _ (List.nodup_dedup claims))
  have hmem : ∀ {claim}, claim ∈ order ↔ claim ∈ claims ∧ undisclosesMessages claim = false
      ∧ changes context loops claim = true := by
    intro claim
    rw [horder.mem_iff, changing, List.mem_filter, List.mem_dedup, Bool.and_eq_true,
      Bool.not_eq_true']
  obtain ⟨rest, hrest⟩ : ∃ rest, claims.Perm (order ++ rest) := by
    obtain ⟨all, hall, hsub⟩ := List.subperm_iff.mp
      (List.subperm_of_subset hnodup fun claim hclaim => (hmem.mp hclaim).1)
    obtain ⟨rest, hrest⟩ := hsub.exists_perm_append
    exact ⟨rest, hall.symm.trans hrest⟩
  refine ⟨order ++ rest, hrest.symm, ?_⟩
  have hplaces : changesOf context (order ++ rest) loops = List.range order.length := by
    have hfirst : ∀ i ∈ List.range order.length, i ∈ changesOf context (order ++ rest) loops := by
      intro i hi
      have hlt := List.mem_range.mp hi
      have hclaim : (order ++ rest)[i]? = some order[i] := by
        rw [List.getElem?_append_left hlt, List.getElem?_eq_getElem hlt]
      obtain ⟨hin, hdiscloses, hchanges⟩ := hmem.mp (List.getElem_mem hlt)
      refine mem_changesOf.mpr ⟨order[i], ⟨hclaim, h _ hin, ?_, hdiscloses⟩, hchanges⟩
      intro earlier hearlier hsame
      rw [List.getElem?_append_left (hearlier.trans hlt), ← List.getElem?_eq_getElem hlt] at hsame
      exact hearlier.ne ((List.getElem?_inj (hearlier.trans hlt) hnodup).mp hsame)
    have hrest : ∀ i ∈ (List.range rest.length).map (order.length + ·),
        i ∉ changesOf context (order ++ rest) loops := by
      intro i hi hchange
      obtain ⟨k, -, rfl⟩ := List.mem_map.mp hi
      obtain ⟨claim, hstands, hchanges⟩ := mem_changesOf.mp hchange
      -- the claim is in the order, and so before
      have hin : claim ∈ order := hmem.mpr
        ⟨hrest.mem_iff.mpr (List.mem_of_getElem? hstands.at_index), hstands.discloses, hchanges⟩
      obtain ⟨j, hlt, hj⟩ := List.mem_iff_getElem.mp hin
      apply hstands.first j (by omega)
      rw [List.getElem?_append_left hlt, List.getElem?_eq_getElem hlt, hj]
    rw [changesOf] at hfirst hrest ⊢
    rw [List.length_append, List.range_add] at hfirst hrest ⊢
    rw [List.filter_append, List.filter_eq_self.mpr, List.filter_eq_nil_iff.mpr, List.append_nil]
    · intro i hi hchange
      exact hrest i hi (List.mem_filter.mpr ⟨List.mem_append_right _ hi, hchange⟩)
    · intro i hi
      exact (List.mem_filter.mp (hfirst i hi)).2
  rw [hplaces]
  apply List.ext_getElem?
  intro i
  rw [List.getElem?_map, List.getElem?_map]
  by_cases hlt : i < order.length
  · rw [List.getElem?_range hlt, List.getElem?_eq_getElem hlt, Option.map_some, Option.map_some,
      instantAt, List.getElem?_append_left hlt, List.getElem?_eq_getElem hlt, Option.bind_some]
  · rw [List.getElem?_eq_none (by simpa using hlt), List.getElem?_eq_none (Nat.not_lt.mp hlt)]
    rfl

/-- Contradictions of claims that pass the checks before are eliminated exactly when, of the changes
for some loops, either none contradicts any claim, or the instants are of an even number, and
pairwise different or two that come equally often. -/
theorem eliminatesContradictions_iff (h : ∀ claim ∈ claims, checkSteps4To8 claim context = .ok ()) :
  EliminatesContradictions context claims ↔
    ∀ loops, loops ≠ [] →
      (∀ claim ∈ changing context claims loops, ∀ other ∈ claims,
          ¬ Contradicts context claim other)
        ∨ Balanced ((changing context claims loops).map (instantOf context))
  := by
  have hchanging : ∀ {loops claim}, claim ∈ changing context claims loops ↔ claim ∈ claims
      ∧ undisclosesMessages claim = false ∧ changes context loops claim = true := by
    intro loops claim
    rw [changing, List.mem_filter, List.mem_dedup, Bool.and_eq_true, Bool.not_eq_true']
  have hpasses : ∀ {claims' : List Claim}, claims'.Perm claims →
      ∀ claim ∈ claims', checkSteps4To8 claim context = .ok () := by
    intro claims' hperm claim hclaim
    exact h claim (hperm.mem_iff.mp hclaim)
  constructor
  · rintro ⟨accepted, horders, hconsistent⟩ loops hloops
    by_cases hnone : ∀ claim ∈ changing context claims loops, ∀ other ∈ claims,
        ¬ Contradicts context claim other
    · exact Or.inl hnone
    right
    push Not at hnone
    obtain ⟨claim, hclaim, other, hother, hcontradicts⟩ := hnone
    obtain ⟨hmem, -, hchanges⟩ := hchanging.mp hclaim
    rw [← forall_leftover_eq_nil_iff]
    intro instants hinstants
    obtain ⟨order, rfl, horder⟩ : ∃ order : List Claim, instants = order.map (instantOf context)
        ∧ order.Perm (changing context claims loops) := by
      have := congrFun (congrFun (List.eq_map_comp_perm (instantOf context)) instants)
        (changing context claims loops)
      exact this.mpr hinstants
    obtain ⟨claims', hperm, hmap⟩ := exists_order h horder
    obtain ⟨dispositions, list, heliminated, hlist, hiff⟩ :=
      exists_acceptedTogether (hpasses hperm)
    obtain ⟨list', hlist', haccepted⟩ := horders claims' hperm
    rw [hlist] at hlist'
    cases hlist'
    rw [← hmap]
    apply heliminated.leftover_of_not_open hloops
    intro i hi hopen
    obtain ⟨member, hstands, hchangesMember⟩ := mem_changesOf.mp hi
    have hin : member ∈ accepted :=
      (haccepted member).mp ((hiff member).mpr ⟨i, hstands.at_index, hopen⟩)
    rcases hcontradicts.of_changes (h claim hmem) hstands.passes hchanges hchangesMember
      with hagainst | hagainst
    · exact hconsistent member hin other hother hagainst
    · exact hconsistent member hin claim hmem hagainst
  · intro hcondition
    use {claim | claim ∈ claims ∧ undisclosesMessages claim = false
      ∧ ∀ other ∈ claims, ¬ Contradicts context claim other}
    constructor
    · intro claims' hperm
      obtain ⟨dispositions, list, heliminated, hlist, hiff⟩ :=
        exists_acceptedTogether (hpasses hperm)
      refine ⟨list, hlist, ?_⟩
      intro claim
      rw [hiff]
      constructor
      · rintro ⟨i, hclaim, hopen⟩
        obtain ⟨claim', hstands⟩ := heliminated.stands i hopen
        have hsame := hstands.at_index
        rw [hclaim] at hsame
        cases hsame
        have hmem : claim ∈ claims := hperm.mem_iff.mp (List.mem_of_getElem? hclaim)
        refine ⟨hmem, hstands.discloses, ?_⟩
        intro other hother hcontradicts
        have hloops := hcontradicts.2.2.1
        have hchanges := hcontradicts.changes hstands.passes
        rcases hcondition _ hloops with hnone | hbalanced
        · exact hnone claim (hchanging.mpr ⟨hmem, hstands.discloses, hchanges⟩) other hother
            hcontradicts
        · have hleft := (hbalanced.perm (map_instantAt_perm h hperm
            claim.relatedLoopHandles)).leftover_eq_nil
          exact heliminated.not_open_of_leftover hloops hleft
            (mem_changesOf.mpr ⟨claim, hstands, hchanges⟩) hopen
      · rintro ⟨hmem, hdiscloses, hconsistent⟩
        obtain ⟨i, hstands⟩ := exists_stands (hperm.mem_iff.mpr hmem) (h claim hmem) hdiscloses
        refine ⟨i, hstands.at_index, heliminated.open_of_consistent hstands ?_⟩
        intro j other hother
        exact hconsistent other (hperm.mem_iff.mp (List.mem_of_getElem? hother.at_index))
    · rintro claim ⟨-, -, hconsistent⟩
      exact hconsistent

/-! ### Three changes of one deadline -/

/-- The subject that all changes cite. -/
def meetingMoved : CanonicalBlock := ⟨"Moved".toList, by decide⟩

/-- A message of the epoch, and the one loop it may be for. -/
def meetingContext : SuppliedContext where
  user := ⟨"user", none, none⟩
  messages := [⟨"m0", ⟨meetingMoved, [], [], none, [], [], [], []⟩,
    ⟨⟨0⟩, ⟨0, none⟩, 61200, .monday⟩, false, true, false⟩]
  participants := []
  loopCandidateHandles := ["l0"]

/-- A change of the deadline of the loop to a time. -/
def meetingChange (time : String) : Claim where
  claimType := .deadlineChange
  evidence := [⟨"m0", .subject, 0, 0, 5⟩]
  waitingPartyHandle := .null
  relatedLoopHandles := ["l0"]
  temporal := .value ⟨0, .localDatetime, time⟩
  confidenceMicros := 900000
  ambiguityCodes := []

def atTen : Claim := meetingChange "2026-08-03T10:00"

def atEleven : Claim := meetingChange "2026-08-03T11:00"

def atTwelve : Claim := meetingChange "2026-08-03T12:00"

theorem meetingChanges_pass :
  ∀ claim ∈ [atTen, atEleven, atTwelve], checkSteps4To8 claim meetingContext = .ok ()
  := by decide

/-- Any two of the changes contradict each other. -/
theorem atTwelve_contradicts :
  Contradicts meetingContext atTwelve atTen
  := by
  apply contradicts_of_changes (show ["l0"] ≠ [] by decide)
  · apply meetingChanges_pass
    decide
  · apply meetingChanges_pass
    decide
  · decide
  · decide
  · decide

/-- Two changes that contradict each other are both rejected, in either order. -/
theorem twoChanges_eliminated :
  EliminatesContradictions meetingContext [atTen, atEleven]
  := by
  apply (eliminatesContradictions_iff _).mpr
  · intro loops hloops
    by_cases hfor : loops = ["l0"]
    · subst hfor
      right
      constructor
      · decide
      · left
        decide
    · left
      intro claim hclaim
      rw [changing, List.mem_filter, Bool.and_eq_true] at hclaim
      obtain ⟨hmem, -, hchanges⟩ := hclaim
      have hrelated : claim.relatedLoopHandles = ["l0"] := by
        rcases List.mem_cons.mp (List.mem_dedup.mp hmem) with rfl | hmem
        · rfl
        · rw [List.mem_singleton.mp hmem]
          rfl
      simp only [changes, Bool.and_eq_true, decide_eq_true_eq] at hchanges
      exact absurd (hchanges.1.2.symm.trans hrelated) hfor
  · decide

/-- Of three changes that contradict each other the last one is accepted, whichever it is. -/
theorem threeChanges_not_eliminated :
  ¬ EliminatesContradictions meetingContext [atTen, atEleven, atTwelve]
  := by
  rintro ⟨accepted, horders, -⟩
  obtain ⟨list, hlist, hiff⟩ := horders [atTen, atEleven, atTwelve] (List.Perm.refl _)
  obtain ⟨list', hlist', hiff'⟩ := horders [atTwelve, atEleven, atTen] (by decide)
  have hlast : acceptedTogether meetingContext [atTen, atEleven, atTwelve] = .ok [atTwelve] := by
    decide
  have hlast' : acceptedTogether meetingContext [atTwelve, atEleven, atTen] = .ok [atTen] := by
    decide
  rw [hlast] at hlist
  rw [hlast'] at hlist'
  cases hlist
  cases hlist'
  have htwelve := (hiff' atTwelve).mpr ((hiff atTwelve).mp (List.mem_singleton_self atTwelve))
  revert htwelve
  decide

/-- The document of a change. -/
def changeDocument (time : String) : Json :=
  .object [
    ("claim_type", .string "deadline_change"),
    ("evidence", .array [.object [
      ("source_handle", .string "m0"),
      ("component", .string "subject"),
      ("block_ordinal", unsigned 0),
      ("range_start", unsigned 0),
      ("range_end", unsigned 5)]]),
    ("waiting_party_handle", .null),
    ("related_loop_handles", .array [.string "l0"]),
    ("temporal", .object [
      ("text_evidence_index", unsigned 0),
      ("kind", .string "local_datetime"),
      ("value", .string time)]),
    ("confidence_micros", unsigned 900000),
    ("ambiguity_codes", .array [])]

/-- An answer with three changes. -/
def threeChanges (_ : String) : Option Json :=
  some (.object [
    ("schema_version", unsigned 1),
    ("claims", .array [changeDocument "2026-08-03T10:00", changeDocument "2026-08-03T11:00",
      changeDocument "2026-08-03T12:00"])])

/-- The last change is accepted, although it contradicts the first one. -/
theorem threeChanges_not_exact :
  ¬ ValidatesExactly threeChanges [] meetingContext
  := by
  have hparse : parseAnalysisOutput threeChanges []
      = .ok ⟨1, [atTen, atEleven, atTwelve]⟩ := by
    decide
  have hvalidate : validate threeChanges [] meetingContext = .ok (.reviewed
      [⟨.deadlineChange, .reject (.consistency .contradictoryDeadlineRelation)⟩,
        ⟨.deadlineChange, .reject (.consistency .contradictoryDeadlineRelation)⟩,
        ⟨.deadlineChange, .acceptForReview⟩]) := by
    decide
  rw [ValidatesExactly, hparse, hvalidate]
  rintro ⟨verdicts, heq, -, hverdicts⟩
  cases heq
  have hsteps := (hverdicts 2 atTwelve ⟨.deadlineChange, .acceptForReview⟩ rfl rfl).1.mp rfl
  have hstands : Stands meetingContext [atTen, atEleven, atTwelve] 0 atTen := by
    decide
  exact hsteps.consistent 0 atTen hstands atTwelve_contradicts

end Inference
