import OpenLoops.Inference.ValidationRuns

/-!
# Duplicate claims

A claim is known by its type, its evidence, the participant that is waited for and its time.  The
check for duplicates compares whole claims: two claims that are known by the same, and differ in
their loops, their confidence or their ambiguity, are both accepted, unless one of them is struck
out for a contradiction.
-/

namespace Inference

open Contracts Domain PairingOff

/-- Two claims are known by the same. -/
structure SameIdentity (first second : Claim) : Prop where
  claimType : first.claimType = second.claimType
  evidence : first.evidence = second.evidence
  participant : first.waitingPartyHandle = second.waitingPartyHandle
  temporal : first.temporal = second.temporal

/-- No two claims of an answer that are known by the same are both accepted. -/
def AcceptsNoDuplicates (fromStr : String → Option Json) (bytes : Bytes)
    (context : SuppliedContext) : Prop :=
  ∀ output verdicts, parseAnalysisOutput fromStr bytes = .ok output →
    validate fromStr bytes context = .ok (.reviewed verdicts) →
    ∀ (i j : ℕ) (first second : Claim) (verdict verdict' : ClaimVerdict), i ≠ j →
      output.claims[i]? = some first → output.claims[j]? = some second →
      verdicts[i]? = some verdict → verdicts[j]? = some verdict' →
      verdict.disposition = .acceptForReview → verdict'.disposition = .acceptForReview →
        ¬ SameIdentity first second

section

variable {context : SuppliedContext} {claims : List Claim}

/-- The claim at the place changes the deadline of some loops, and is cancelled when the changes for
these loops are paired off, each with the first later one for another instant. -/
def Cancelled (context : SuppliedContext) (claims : List Claim) (index : ℕ) (claim : Claim) :
    Prop :=
  ∃ loops, loops ≠ [] ∧ changes context loops claim = true
    ∧ index ∉ leftoverOn (instantAt context claims) (changesOf context claims loops)

/-- Of the claims for some loops the ones that are not cancelled stay. -/
theorem Struck.filter_changesOf {dispositions : Dispositions} {loops : List String}
    (h : Struck context claims dispositions) (hloops : loops ≠ []) :
  (changesOf context claims loops).filter (fun i => dispositions.IsOpen i)
    = leftoverOn (instantAt context claims) (changesOf context claims loops)
  := by
  rw [changesOf_eq, List.filter_comm]
  apply h.paired.filter_eq_leftoverOn
  · intro x y hopposed
    apply hopposed.isFor_eq
  · intro x y hx hy hne
    exact opposedAt_of_isFor hloops hx hy hne

/-- The claims that are accepted stand, and are not cancelled. -/
theorem Struck.isOpen_iff {dispositions : Dispositions} {i : ℕ} {claim : Claim}
    (h : Struck context claims dispositions) (hclaim : claims[i]? = some claim) :
  dispositions.IsOpen i ↔ Stands context claims i claim ∧ ¬ Cancelled context claims i claim
  := by
  have hstays : ∀ {loops}, loops ≠ [] → Stands context claims i claim →
      changes context loops claim = true →
      (dispositions.IsOpen i ↔
        i ∈ leftoverOn (instantAt context claims) (changesOf context claims loops)) := by
    intro loops hloops hstands hchanges
    have hmem : i ∈ changesOf context claims loops := mem_changesOf.mpr ⟨claim, hstands, hchanges⟩
    rw [← h.filter_changesOf hloops, List.mem_filter, and_iff_right hmem, decide_eq_true_iff]
  constructor
  · intro hopen
    obtain ⟨claim', hstands⟩ := h.stands i hopen
    have hsame := hstands.at_index
    rw [hclaim] at hsame
    cases hsame
    refine ⟨hstands, ?_⟩
    rintro ⟨loops, hloops, hchanges, hleft⟩
    exact hleft ((hstays hloops hstands hchanges).mp hopen)
  · rintro ⟨hstands, hcancelled⟩
    by_cases hchanges : ∃ loops, loops ≠ [] ∧ changes context loops claim = true
    · obtain ⟨loops, hloops, hchanges⟩ := hchanges
      rw [hstays hloops hstands hchanges]
      by_contra hleft
      exact hcancelled ⟨loops, hloops, hchanges, hleft⟩
    · apply h.eliminated.others i claim hstands
      intro loops hloops
      rw [← Bool.not_eq_true]
      intro hfor
      exact hchanges ⟨loops, hloops, hfor⟩

/-- Of two standing claims that are known by the same, one is cancelled. -/
def DuplicatesCancelled (context : SuppliedContext) (claims : List Claim) : Prop :=
  ∀ i j first second, i ≠ j → Stands context claims i first → Stands context claims j second →
    SameIdentity first second →
      Cancelled context claims i first ∨ Cancelled context claims j second

end

/-- No two accepted claims are known by the same exactly when, if there is an answer with all times
in the range of the calendar, of any two standing claims that are one is cancelled. -/
theorem acceptsNoDuplicates_iff (fromStr : String → Option Json) (bytes : Bytes)
    (context : SuppliedContext) :
  AcceptsNoDuplicates fromStr bytes context ↔
    ∀ output, parseAnalysisOutput fromStr bytes = .ok output →
      (∀ claim ∈ output.claims, Grounded context claim → ¬ Reads context claim (.error .panicked)) →
        DuplicatesCancelled context output.claims
  := by
  constructor
  · intro hnone output hparse hrange i j first second hne hfirst hsecond hsame
    obtain ⟨dispositions, hstruck, hvalidate⟩ := exists_struck_verdicts hparse hrange
    by_contra hkept
    rw [not_or] at hkept
    have hopen := (hstruck.isOpen_iff hfirst.at_index).mpr ⟨hfirst, hkept.1⟩
    have hopen' := (hstruck.isOpen_iff hsecond.at_index).mpr ⟨hsecond, hkept.2⟩
    have hverdict : ∀ {k claim}, output.claims[k]? = some claim → dispositions.IsOpen k →
        (List.zipWith verdictOf output.claims dispositions)[k]? = some (verdictOf claim none) := by
      intro k claim hclaim hk
      exact List.getElem?_zipWith_eq_some.mpr ⟨claim, none, hclaim, hk, rfl⟩
    apply hnone output _ hparse hvalidate i j first second _ _ hne hfirst.at_index hsecond.at_index
      (hverdict hfirst.at_index hopen) (hverdict hsecond.at_index hopen')
      (disposition_eq_accept_iff.mpr rfl) (disposition_eq_accept_iff.mpr rfl) hsame
  · intro hcancelled output verdicts hparse hvalidate i j first second verdict verdict' hne hfirst
      hsecond hverdict hverdict' haccept haccept' hsame
    have hrange := inRange_of_validate hparse hvalidate
    obtain ⟨dispositions, hstruck, hvalidate'⟩ := exists_struck_verdicts hparse hrange
    rw [hvalidate] at hvalidate'
    cases hvalidate'
    obtain ⟨hstands, hkept⟩ := (hstruck.isOpen_iff hfirst).mp
      ((Eliminated.accepts_iff hfirst hverdict).mp haccept)
    obtain ⟨hstands', hkept'⟩ := (hstruck.isOpen_iff hsecond).mp
      ((Eliminated.accepts_iff hsecond hverdict').mp haccept')
    rcases hcancelled output hparse hrange i j first second hne hstands hstands' hsame with h | h
    · exact hkept h
    · exact hkept' h

/-! ### One claim twice -/

/-- The document of a request, with a confidence. -/
def requestDocument (confidenceMicros : ℕ) : Json :=
  .object [
    ("claim_type", .string "request"),
    ("evidence", .array [.object [
      ("source_handle", .string "m0"),
      ("component", .string "subject"),
      ("block_ordinal", unsigned 0),
      ("range_start", unsigned 0),
      ("range_end", unsigned 5)]]),
    ("waiting_party_handle", .null),
    ("related_loop_handles", .array []),
    ("temporal", .null),
    ("confidence_micros", unsigned confidenceMicros),
    ("ambiguity_codes", .array [])]

/-- An answer with a request twice, with two confidences. -/
def requestTwice (_ : String) : Option Json :=
  some (.object [
    ("schema_version", unsigned 1),
    ("claims", .array [requestDocument 900000, requestDocument 800000])])

/-- Both are accepted. -/
theorem requestTwice_accepted :
  ¬ AcceptsNoDuplicates requestTwice [] meetingContext
  := by
  intro hnone
  have hvalidate : validate requestTwice [] meetingContext = .ok (.reviewed
      [⟨.request, .acceptForReview⟩, ⟨.request, .acceptForReview⟩]) := by
    decide
  apply hnone _ _ rfl hvalidate 0 1 _ _ _ _ Nat.zero_ne_one rfl rfl rfl rfl rfl rfl
  exact ⟨rfl, rfl, rfl, rfl⟩

end Inference
