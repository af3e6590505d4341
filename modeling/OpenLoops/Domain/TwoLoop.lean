import OpenLoops.Domain.CommandPolicy

/-!
# Commands on two loops

`applyRemapEvidence` moves evidence from one loop to another, and `applyDuplicateMerge`
dismisses a loop as the duplicate of another.  Both answer with two transitions or with
none, and `RemapAdmissible` and `MergeAdmissible` say exactly when with two.
-/

namespace Domain

inductive RemapRejection where
  | staleSourceVersion
  | staleTargetVersion
  | invalidTransition (error : TransitionError)
  | versionOverflow
deriving DecidableEq, Repr

/-- What a remap needs besides the two loops. -/
structure RemapRequest where
  sourceExpectedVersion : Version
  targetExpectedVersion : Version
  evidenceRef : OpaqueId
  detachTransitionId : OpaqueId
  attachTransitionId : OpaqueId
deriving DecidableEq, Repr

/-- Move evidence from the source loop to the target loop. -/
def applyRemapEvidence (source target : LoopState) (request : RemapRequest)
    (context : CommandContext) : Except RemapRejection (Transition × Transition) :=
  if source.loopVersion ≠ request.sourceExpectedVersion then
    .error .staleSourceVersion
  else if target.loopVersion ≠ request.targetExpectedVersion then
    .error .staleTargetVersion
  else do
    let sourceNext ← source.loopVersion.next.okOr .versionOverflow
    let targetNext ← target.loopVersion.next.okOr .versionOverflow
    let detach ← (Transition.new request.detachTransitionId source.loopId
      (some context.userActionId) source.facets source.facets .evidenceRemappedFrom .user
      [request.evidenceRef] context.occurredAt sourceNext
      context.policyVersion).mapError .invalidTransition
    let attach ← (Transition.new request.attachTransitionId target.loopId
      (some context.userActionId) target.facets target.facets .evidenceRemappedTo .user
      [request.evidenceRef] context.occurredAt targetNext
      context.policyVersion).mapError .invalidTransition
    return (detach, attach)

inductive DuplicateMergeRejection where
  | staleSurvivorVersion
  | staleLoserVersion
  | loserAlreadyTerminal
  | noTransferableEvidence
  | invalidTransition (error : TransitionError)
  | versionOverflow
deriving DecidableEq, Repr

/-- Transfer evidence to the survivor and dismiss the loser as its duplicate. -/
def applyDuplicateMerge (survivor : LoopState) (survivorExpectedVersion : Version)
    (loser : LoopState) (loserExpectedVersion : Version)
    (transferableEvidence : List OpaqueId) (survivorTransitionId loserTransitionId : OpaqueId)
    (context : CommandContext) :
    Except DuplicateMergeRejection (Transition × Transition) :=
  if survivor.loopVersion ≠ survivorExpectedVersion then
    .error .staleSurvivorVersion
  else if loser.loopVersion ≠ loserExpectedVersion then
    .error .staleLoserVersion
  else if loser.facets.obligationState = .terminal then
    .error .loserAlreadyTerminal
  else if transferableEvidence.isEmpty then
    .error .noTransferableEvidence
  else do
    let survivorNext ← survivor.loopVersion.next.okOr .versionOverflow
    let loserNext ← loser.loopVersion.next.okOr .versionOverflow
    let survivorTransition ← (Transition.new survivorTransitionId survivor.loopId
      (some context.userActionId) survivor.facets survivor.facets
      .duplicateMergeSurvivorTransfer .user transferableEvidence context.occurredAt
      survivorNext context.policyVersion).mapError .invalidTransition
    let loserTransition ← (Transition.new loserTransitionId loser.loopId
      (some context.userActionId) loser.facets (loser.facets.terminal .dismissed)
      .duplicateMergeLoserDismissed .user [] context.occurredAt
      loserNext context.policyVersion).mapError .invalidTransition
    return (survivorTransition, loserTransition)

/-! ### When two transitions are made -/

/-- A transition of the user that names the action taken is made exactly when its new
facets are legal and its sources may be named. -/
theorem exists_new_user_iff {transitionId loopId userActionId : OpaqueId}
    {priorFacets newFacets : FacetTuple} {reasonCode : TransitionReasonCode}
    {sourceRefs : List OpaqueId} {occurredAt : UnixSeconds}
    {loopVersion policyVersion : Version} :
  (∃ t, Transition.new transitionId loopId (some userActionId) priorFacets newFacets
      reasonCode .user sourceRefs occurredAt loopVersion policyVersion = .ok t)
    ↔ newFacets.Legal ∧ SourceRefsOk sourceRefs
  := by
  constructor
  · rintro ⟨t, h⟩
    obtain ⟨-, hlegal, hok, -⟩ := Transition.new_eq_ok.mp h
    exact ⟨hlegal, hok⟩
  · rintro ⟨hlegal, hok⟩
    exact ⟨_, Transition.new_eq_ok.mpr ⟨rfl, hlegal, hok, rfl⟩⟩

/-- The two transitions commit the next versions of the two loops. -/
structure CommitsNext (first second : LoopState) (t u : Transition) : Prop where
  firstLoop : t.loopId = first.loopId
  firstNext : first.loopVersion.next = some t.loopVersion
  secondLoop : u.loopId = second.loopId
  secondNext : second.loopVersion.next = some u.loopVersion

/-- What a remap requires. -/
structure RemapAdmissible (source target : LoopState) (request : RemapRequest) : Prop where
  sourceVersion : source.loopVersion = request.sourceExpectedVersion
  targetVersion : target.loopVersion = request.targetExpectedVersion
  sourceNext : source.loopVersion.get < Version.max.get
  targetNext : target.loopVersion.get < Version.max.get
  sourceLegal : source.facets.Legal
  targetLegal : target.facets.Legal

/-- A remap that makes its two transitions is admissible, and they commit the next versions
of the source and the target. -/
theorem applyRemapEvidence_spec {source target : LoopState} {request : RemapRequest}
    {context : CommandContext} {detach attach : Transition}
    (h : applyRemapEvidence source target request context = .ok (detach, attach)) :
  RemapAdmissible source target request ∧ CommitsNext source target detach attach
  := by
  rw [applyRemapEvidence] at h
  split at h
  · cases h
  · split at h
    · cases h
    · rename_i hsource htarget
      obtain ⟨sourceNext, hsourceNext, h⟩ := Except.bind_eq_ok.mp h
      obtain ⟨targetNext, htargetNext, h⟩ := Except.bind_eq_ok.mp h
      obtain ⟨detach, hdetach, h⟩ := Except.bind_eq_ok.mp h
      obtain ⟨attach, hattach, ⟨⟩⟩ := Except.bind_eq_ok.mp h
      obtain ⟨-, hsourceLegal, -, rfl⟩ :=
        Transition.new_eq_ok.mp (Except.mapError_eq_ok.mp hdetach)
      obtain ⟨-, htargetLegal, -, rfl⟩ :=
        Transition.new_eq_ok.mp (Except.mapError_eq_ok.mp hattach)
      have hsourceNext := Option.okOr_eq_ok.mp hsourceNext
      have htargetNext := Option.okOr_eq_ok.mp htargetNext
      refine ⟨⟨not_not.mp hsource, not_not.mp htarget, ?_, ?_, hsourceLegal, htargetLegal⟩,
        rfl, hsourceNext, rfl, htargetNext⟩
      · apply Version.next_isSome.mp (Option.isSome_of_eq_some hsourceNext)
      · apply Version.next_isSome.mp (Option.isSome_of_eq_some htargetNext)

/-- A remap makes its two transitions exactly when it is admissible. -/
theorem exists_applyRemapEvidence_iff {source target : LoopState} {request : RemapRequest}
    {context : CommandContext} :
  (∃ detach attach, applyRemapEvidence source target request context = .ok (detach, attach))
    ↔ RemapAdmissible source target request
  := by
  constructor
  · rintro ⟨detach, attach, h⟩
    apply (applyRemapEvidence_spec h).1
  · intro h
    obtain ⟨sourceNext, hsourceNext, -⟩ := Version.exists_next h.sourceNext
    obtain ⟨targetNext, htargetNext, -⟩ := Version.exists_next h.targetNext
    obtain ⟨detach, hdetach⟩ := exists_new_user_iff.mpr
      ⟨h.sourceLegal, SourceRefsOk.singleton request.evidenceRef⟩
    obtain ⟨attach, hattach⟩ := exists_new_user_iff.mpr
      ⟨h.targetLegal, SourceRefsOk.singleton request.evidenceRef⟩
    use detach, attach
    rw [applyRemapEvidence, if_neg (not_not.mpr h.sourceVersion),
      if_neg (not_not.mpr h.targetVersion)]
    apply Except.bind_eq_ok.mpr
    use sourceNext, Option.okOr_eq_ok.mpr hsourceNext
    apply Except.bind_eq_ok.mpr
    use targetNext, Option.okOr_eq_ok.mpr htargetNext
    apply Except.bind_eq_ok.mpr
    use detach, Except.mapError_eq_ok.mpr hdetach
    apply Except.bind_eq_ok.mpr
    use attach, Except.mapError_eq_ok.mpr hattach
    rfl

/-- What a merge requires. -/
structure MergeAdmissible (survivor : LoopState) (survivorExpectedVersion : Version)
    (loser : LoopState) (loserExpectedVersion : Version)
    (transferableEvidence : List OpaqueId) : Prop where
  survivorVersion : survivor.loopVersion = survivorExpectedVersion
  loserVersion : loser.loopVersion = loserExpectedVersion
  loserNotTerminal : loser.facets.obligationState ≠ .terminal
  evidence : transferableEvidence ≠ []
  evidenceOk : SourceRefsOk transferableEvidence
  survivorNext : survivor.loopVersion.get < Version.max.get
  loserNext : loser.loopVersion.get < Version.max.get
  survivorLegal : survivor.facets.Legal
  loserLegal : (loser.facets.terminal .dismissed).Legal

/-- A merge that makes its two transitions is admissible, they commit the next versions of
the survivor and the loser, and the loser is dismissed. -/
theorem applyDuplicateMerge_spec {survivor loser : LoopState}
    {survivorExpectedVersion loserExpectedVersion : Version}
    {transferableEvidence : List OpaqueId} {survivorTransitionId loserTransitionId : OpaqueId}
    {context : CommandContext} {survivorTransition loserTransition : Transition}
    (h : applyDuplicateMerge survivor survivorExpectedVersion loser loserExpectedVersion
      transferableEvidence survivorTransitionId loserTransitionId context
      = .ok (survivorTransition, loserTransition)) :
  MergeAdmissible survivor survivorExpectedVersion loser loserExpectedVersion
      transferableEvidence
    ∧ CommitsNext survivor loser survivorTransition loserTransition
    ∧ loserTransition.newFacets = loser.facets.terminal .dismissed
  := by
  rw [applyDuplicateMerge] at h
  split_ifs at h with hsurvivor hloser hterminal hevidence
  obtain ⟨survivorNext, hsurvivorNext, h⟩ := Except.bind_eq_ok.mp h
  obtain ⟨loserNext, hloserNext, h⟩ := Except.bind_eq_ok.mp h
  obtain ⟨survivorTransition, hsurvivorTransition, h⟩ := Except.bind_eq_ok.mp h
  obtain ⟨loserTransition, hloserTransition, ⟨⟩⟩ := Except.bind_eq_ok.mp h
  obtain ⟨-, hsurvivorLegal, hok, rfl⟩ :=
    Transition.new_eq_ok.mp (Except.mapError_eq_ok.mp hsurvivorTransition)
  obtain ⟨-, hloserLegal, -, rfl⟩ :=
    Transition.new_eq_ok.mp (Except.mapError_eq_ok.mp hloserTransition)
  have hsurvivorNext := Option.okOr_eq_ok.mp hsurvivorNext
  have hloserNext := Option.okOr_eq_ok.mp hloserNext
  refine ⟨⟨not_not.mp hsurvivor, not_not.mp hloser, hterminal, ?_, hok, ?_, ?_,
    hsurvivorLegal, hloserLegal⟩, ⟨rfl, hsurvivorNext, rfl, hloserNext⟩, rfl⟩
  · rintro rfl
    apply hevidence rfl
  · apply Version.next_isSome.mp (Option.isSome_of_eq_some hsurvivorNext)
  · apply Version.next_isSome.mp (Option.isSome_of_eq_some hloserNext)

/-- A merge makes its two transitions exactly when it is admissible. -/
theorem exists_applyDuplicateMerge_iff {survivor loser : LoopState}
    {survivorExpectedVersion loserExpectedVersion : Version}
    {transferableEvidence : List OpaqueId} {survivorTransitionId loserTransitionId : OpaqueId}
    {context : CommandContext} :
  (∃ survivorTransition loserTransition,
      applyDuplicateMerge survivor survivorExpectedVersion loser loserExpectedVersion
        transferableEvidence survivorTransitionId loserTransitionId context
      = .ok (survivorTransition, loserTransition))
    ↔ MergeAdmissible survivor survivorExpectedVersion loser loserExpectedVersion
        transferableEvidence
  := by
  constructor
  · rintro ⟨survivorTransition, loserTransition, h⟩
    apply (applyDuplicateMerge_spec h).1
  · intro h
    obtain ⟨survivorNext, hsurvivorNext, -⟩ := Version.exists_next h.survivorNext
    obtain ⟨loserNext, hloserNext, -⟩ := Version.exists_next h.loserNext
    obtain ⟨survivorTransition, hsurvivorTransition⟩ :=
      exists_new_user_iff.mpr ⟨h.survivorLegal, h.evidenceOk⟩
    obtain ⟨loserTransition, hloserTransition⟩ :=
      exists_new_user_iff.mpr ⟨h.loserLegal, SourceRefsOk.nil⟩
    have hevidence : transferableEvidence.isEmpty ≠ true := by
      rw [Ne, List.isEmpty_iff]
      apply h.evidence
    use survivorTransition, loserTransition
    rw [applyDuplicateMerge, if_neg (not_not.mpr h.survivorVersion),
      if_neg (not_not.mpr h.loserVersion), if_neg h.loserNotTerminal, if_neg hevidence]
    apply Except.bind_eq_ok.mpr
    use survivorNext, Option.okOr_eq_ok.mpr hsurvivorNext
    apply Except.bind_eq_ok.mpr
    use loserNext, Option.okOr_eq_ok.mpr hloserNext
    apply Except.bind_eq_ok.mpr
    use survivorTransition, Except.mapError_eq_ok.mpr hsurvivorTransition
    apply Except.bind_eq_ok.mpr
    use loserTransition, Except.mapError_eq_ok.mpr hloserTransition
    rfl

/-! ### Committing each version once -/

/-- The transitions the answer to a two-loop command commits. -/
def committed {ε : Type} : Except ε (Transition × Transition) → List Transition
  | .ok (first, second) => [first, second]
  | .error _ => []

/-- No two of the transitions commit the same version of the same loop. -/
def VersionsOnce (transitions : List Transition) : Prop :=
  (transitions.map fun t => (t.loopId, t.loopVersion)).Nodup

instance (transitions : List Transition) : Decidable (VersionsOnce transitions) :=
  inferInstanceAs (Decidable (List.Nodup _))

/-- What is promised of the answer to a command on two loops: it commits each version
once, it is an error when the two are one loop, and an error commits nothing. -/
structure CommitsOnce {ε : Type} (first second : LoopState)
    (answer : Except ε (Transition × Transition)) : Prop where
  versionsOnce : VersionsOnce (committed answer)
  rejected : first.loopId = second.loopId → ∃ e, answer = .error e
  uncommitted : ∀ e, answer = .error e → committed answer = []

/-- Two transitions commit each version once unless they are of the same loop from the
same version. -/
theorem CommitsNext.versionsOnce_iff {first second : LoopState} {t u : Transition}
    (h : CommitsNext first second t u) :
  VersionsOnce [t, u] ↔
    ¬ (first.loopId = second.loopId ∧ first.loopVersion = second.loopVersion)
  := by
  have hversion : t.loopVersion = u.loopVersion ↔ first.loopVersion = second.loopVersion := by
    have ht := Version.next_eq_some.mp h.firstNext
    have hu := Version.next_eq_some.mp h.secondNext
    constructor
    · intro heq
      rw [heq, hu] at ht
      apply Version.ext (Nat.succ.inj ht).symm
    · intro heq
      apply Version.ext
      rw [ht, hu, heq]
  simp [VersionsOnce, h.firstLoop, h.secondLoop, hversion]

section

variable {ε : Type} {first second : LoopState} {answer : Except ε (Transition × Transition)}
  {Admissible : Prop}

/-- An answer that is given exactly when the request is admissible commits each version
once unless an admissible request is about one loop at one version. -/
theorem versionsOnce_iff (hanswer : (∃ t u, answer = .ok (t, u)) ↔ Admissible)
    (hnext : ∀ t u, answer = .ok (t, u) → CommitsNext first second t u) :
  VersionsOnce (committed answer) ↔
    (first.loopId = second.loopId → first.loopVersion = second.loopVersion → ¬ Admissible)
  := by
  cases answer with
  | error e =>
      have hnot : ¬ Admissible := by
        rw [← hanswer]
        rintro ⟨t, u, ⟨⟩⟩
      simp [committed, VersionsOnce, hnot]
  | ok pair =>
      obtain ⟨t, u⟩ := pair
      have hadmissible : Admissible := hanswer.mp ⟨t, u, rfl⟩
      rw [committed, (hnext t u rfl).versionsOnce_iff, not_and]
      simp [hadmissible]

/-- Such an answer keeps every promise unless an admissible request is about one loop. -/
theorem commitsOnce_iff (hanswer : (∃ t u, answer = .ok (t, u)) ↔ Admissible)
    (hnext : ∀ t u, answer = .ok (t, u) → CommitsNext first second t u) :
  CommitsOnce first second answer ↔ (first.loopId = second.loopId → ¬ Admissible)
  := by
  constructor
  · intro h hloop hadmissible
    obtain ⟨t, u, hok⟩ := hanswer.mpr hadmissible
    obtain ⟨e, herror⟩ := h.rejected hloop
    rw [hok] at herror
    cases herror
  · intro h
    constructor
    · apply (versionsOnce_iff hanswer hnext).mpr
      intro hloop _
      apply h hloop
    · intro hloop
      cases hcases : answer with
      | error e => exact ⟨e, rfl⟩
      | ok pair => exact absurd (hanswer.mp ⟨pair.1, pair.2, hcases⟩) (h hloop)
    · rintro e rfl
      rfl

end

/-- A remap from one loop to another, and a merge of the other into the one, keep their
promises exactly when they are not an admissible request about one loop; and commit each
version once exactly when they are not, besides, about one version of it. -/
theorem twoLoop_commitsOnce_iff (first second : LoopState) (context : CommandContext) :
  (∀ request,
    (CommitsOnce first second (applyRemapEvidence first second request context)
      ↔ (first.loopId = second.loopId → ¬ RemapAdmissible first second request))
    ∧ (VersionsOnce (committed (applyRemapEvidence first second request context))
      ↔ (first.loopId = second.loopId → first.loopVersion = second.loopVersion →
        ¬ RemapAdmissible first second request)))
  ∧ ∀ survivorExpectedVersion loserExpectedVersion transferableEvidence
      survivorTransitionId loserTransitionId,
    (CommitsOnce first second
        (applyDuplicateMerge first survivorExpectedVersion second loserExpectedVersion
          transferableEvidence survivorTransitionId loserTransitionId context)
      ↔ (first.loopId = second.loopId →
        ¬ MergeAdmissible first survivorExpectedVersion second loserExpectedVersion
          transferableEvidence))
    ∧ (VersionsOnce (committed
        (applyDuplicateMerge first survivorExpectedVersion second loserExpectedVersion
          transferableEvidence survivorTransitionId loserTransitionId context))
      ↔ (first.loopId = second.loopId → first.loopVersion = second.loopVersion →
        ¬ MergeAdmissible first survivorExpectedVersion second loserExpectedVersion
          transferableEvidence))
  := by
  constructor
  · intro request
    have hnext : ∀ t u, applyRemapEvidence first second request context = .ok (t, u) →
        CommitsNext first second t u := fun t u h => (applyRemapEvidence_spec h).2
    constructor
    · apply commitsOnce_iff exists_applyRemapEvidence_iff hnext
    · apply versionsOnce_iff exists_applyRemapEvidence_iff hnext
  · intro survivorExpectedVersion loserExpectedVersion transferableEvidence
      survivorTransitionId loserTransitionId
    have hnext : ∀ t u, applyDuplicateMerge first survivorExpectedVersion second
        loserExpectedVersion transferableEvidence survivorTransitionId loserTransitionId
        context = .ok (t, u) → CommitsNext first second t u :=
      fun t u h => (applyDuplicateMerge_spec h).2.1
    constructor
    · apply commitsOnce_iff exists_applyDuplicateMerge_iff hnext
    · apply versionsOnce_iff exists_applyDuplicateMerge_iff hnext

/-- An identifier of sixteen equal bytes. -/
def idOf (byte : UInt8) : OpaqueId :=
  ⟨Vector.replicate 16 byte⟩

/-- The facets of a loop that is open and otherwise untouched. -/
def openFacets : FacetTuple where
  provenance := .empty
  obligationState := .open
  reviewFlags := .empty
  deadlineState := .unresolved
  closureReviewState := .none
  reminderState := .none
  analysisState := .current
  sourceState := .available
  resolution := .none
  confidenceBucket := .high

/-- An open loop at its first version. -/
def openLoop : LoopState :=
  ⟨idOf 1, openFacets, .first⟩

/-- A context with arbitrary identifiers. -/
def someContext : CommandContext :=
  ⟨idOf 2, idOf 3, ⟨0⟩, .first⟩

/-- Remapping evidence from an open loop to itself, and merging it with itself, commits
its second version twice. -/
theorem twoLoop_not_commitsOnce :
  ¬ VersionsOnce (committed (applyRemapEvidence openLoop openLoop
      ⟨.first, .first, idOf 4, idOf 5, idOf 6⟩ someContext))
    ∧ ¬ VersionsOnce (committed (applyDuplicateMerge openLoop .first openLoop .first
      [idOf 4] (idOf 5) (idOf 6) someContext))
  := by
  decide

end Domain
