import OpenLoops.Library.Best
import OpenLoops.Review.ChatClosure

/-!
# A chat model only suggests

Whatever a chat model answers, the items of a scan stay as they are but for their suggestions.  An
item has a new suggestion only by a claim of a request in which it was offered, about a later
message, and it is left with the best of its suggestions.
-/

namespace Review

open Contracts Inference Best

/-! ### Ranks -/

/-- The rank of a suggestion: its confidence, and then whether it is a closure. -/
def SuggestedUpdate.rank (update : SuggestedUpdate) : ℕ ×ₗ Bool :=
  toLex (update.confidenceMicros.toNat, decide (update.kind = .closure))

theorem outranks_iff {candidate current : SuggestedUpdate} :
  outranks candidate current ↔ current.rank < candidate.rank
  := by
  have hconfidence : current.confidenceMicros = candidate.confidenceMicros
      ↔ current.confidenceMicros.toNat = candidate.confidenceMicros.toNat :=
    UInt32.toNat_inj.symm
  simp only [outranks, SuggestedUpdate.rank, Prod.Lex.toLex_lt_toLex, Bool.or_eq_true,
    Bool.and_eq_true, decide_eq_true_eq, UInt32.lt_iff_toNat_lt, hconfidence.symm]
  apply or_congr_right
  rw [eq_comm]
  by_cases h : candidate.kind = .closure <;> by_cases h' : current.kind = .closure <;>
    simp [h, h']

/-- The one that is kept is the better one. -/
theorem keep_rank (current : Option SuggestedUpdate) (update : SuggestedUpdate) :
  keep SuggestedUpdate.rank current update
    = if current.all fun current => outranks update current then some update else current
  := by
  have hall : (current.all fun current => decide (current.rank < update.rank))
      = current.all fun current => outranks update current := by
    cases current with
    | none => rfl
    | some current =>
        simp only [Option.all_some, ← outranks_iff, Bool.decide_eq_true]
  rw [keep, hall]

/-! ### The best suggestions -/

section

variable (messages : List ReviewMessage) (scope : Option ClosureScope)

/-- A claim of a request that offers the loops proposes the suggestion for the target: it names
offers of the request alone, the target among them, and what it says is new in this scan. -/
structure Proposes (loops : List OfferedLoop) (accepted : AcceptedClaim) (target : OfferedLoop)
    (update : SuggestedUpdate) : Prop where
  named : ∀ handle ∈ accepted.claim.relatedLoopHandles, ∃ loop ∈ loops, loop.handle = handle
  isNamed : ∃ handle ∈ accepted.claim.relatedLoopHandles,
    loops.find? (fun loop => loop.handle = handle) = some target
  suggests : suggestedUpdateFor accepted target messages = some update
  admitted : ∀ s, scope = some s → s.priorStart ≤ target.item →
    update.sourceMessage ∈ s.newMessages

/-- The claim proposes the suggestion for the item. -/
def ProposesFor (loops : List OfferedLoop) (accepted : AcceptedClaim) (item : ℕ)
    (update : SuggestedUpdate) : Prop :=
  ∃ target, target.item = item ∧ Proposes messages scope loops accepted target update

variable {messages scope}

/-- The row of a key is changed, and no other one. -/
theorem get?_alter_eq_update {α : Type} (t : Table ℕ α) (item : ℕ) (a : α) :
  (t.alter item fun _ => a).get? = Function.update t.get? item (some a)
  := by
  funext item'
  rw [Table.get?_alter, Function.update_apply]

/-- The better one of two suggestions is in the row of an item. -/
theorem get?_replace (best : Table ℕ SuggestedUpdate) (item : ℕ) (update : SuggestedUpdate) :
  (if (best.get? item).all fun current => outranks update current then
      best.alter item fun _ => update else best).get?
    = Function.update best.get? item (keep SuggestedUpdate.rank (best.get? item) update)
  := by
  rw [keep_rank]
  split_ifs
  · apply get?_alter_eq_update
  · exact (Function.update_eq_self _ _).symm

/-- A target is offered the suggestion of the claim. -/
theorem collectTarget_best (accepted : AcceptedClaim) (target : OfferedLoop)
    {best : Table ℕ SuggestedUpdate} {Offered : ℕ → SuggestedUpdate → Prop}
    (h : IsBest SuggestedUpdate.rank Offered best.get?) :
  IsBest SuggestedUpdate.rank (fun item update => Offered item update
      ∨ target.item = item ∧ suggestedUpdateFor accepted target messages = some update
        ∧ ∀ s, scope = some s → s.priorStart ≤ target.item →
          update.sourceMessage ∈ s.newMessages)
    (collectTarget messages scope accepted best target).get?
  := by
  unfold collectTarget
  cases hupdate : suggestedUpdateFor accepted target messages with
  | none => simpa using h
  | some update =>
      have hblocked : (scope.any fun s => decide (s.priorStart ≤ target.item)
            && decide (update.sourceMessage ∉ s.newMessages)) = false
          ↔ ∀ s, scope = some s → s.priorStart ≤ target.item →
            update.sourceMessage ∈ s.newMessages := by
        cases scope <;> simp
      simp only
      split
      · case isTrue hscope =>
          convert h using 3
          apply or_iff_left
          rintro ⟨-, heq, hadmitted⟩
          rw [← Option.some.inj heq, ← hblocked, hscope] at hadmitted
          cases hadmitted
      · case isFalse hscope =>
          rw [Bool.not_eq_true, hblocked] at hscope
          rw [get?_replace]
          convert h.update target.item update using 3
          apply or_congr_right
          constructor
          · rintro ⟨rfl, heq, -⟩
            exact ⟨rfl, (Option.some.inj heq).symm⟩
          · rintro ⟨rfl, rfl⟩
            exact ⟨rfl, rfl, hscope⟩

/-- A claim offers the suggestions that it proposes. -/
theorem collectClaim_best (loops : List OfferedLoop) (accepted : AcceptedClaim)
    {best : Table ℕ SuggestedUpdate} {Offered : ℕ → SuggestedUpdate → Prop}
    (h : IsBest SuggestedUpdate.rank Offered best.get?) :
  IsBest SuggestedUpdate.rank
    (fun item update => Offered item update
      ∨ ProposesFor messages scope loops accepted item update)
    (collectClaim messages scope loops best accepted).get?
  := by
  have hnamed : (claimTargets loops accepted).length = accepted.claim.relatedLoopHandles.length
      ↔ ∀ handle ∈ accepted.claim.relatedLoopHandles, ∃ loop ∈ loops, loop.handle = handle := by
    rw [claimTargets, List.filterMap_length_eq_length]
    simp [List.find?_isSome]
  have hmem : ∀ target, target ∈ claimTargets loops accepted
      ↔ ∃ handle ∈ accepted.claim.relatedLoopHandles,
        loops.find? (fun loop => loop.handle = handle) = some target := by
    intro target
    rw [claimTargets, List.mem_filterMap]
  unfold collectClaim
  simp only
  split_ifs with hempty hlength
  · convert h using 3
    apply or_iff_left
    rintro ⟨target, -, hproposes⟩
    obtain ⟨handle, hhandle, -⟩ := hproposes.isNamed
    rw [List.isEmpty_iff.mp hempty] at hhandle
    cases hhandle
  · convert h using 3
    apply or_iff_left
    rintro ⟨target, -, hproposes⟩
    exact hlength (hnamed.mpr hproposes.named)
  · have hfold := IsBest.foldl (g := Table.get?) (f := collectTarget messages scope accepted)
      (I := fun _ => True) (l := claimTargets loops accepted)
      (fun best target _ _ Offered h => collectTarget_best accepted target h)
      (fun _ _ _ _ => trivial) trivial h
    convert hfold using 3
    apply or_congr_right
    constructor
    · rintro ⟨target, hitem, hproposes⟩
      exact ⟨target, (hmem target).mpr hproposes.isNamed, hitem, hproposes.suggests,
        hproposes.admitted⟩
    · rintro ⟨target, htarget, hitem, hsuggests, hadmitted⟩
      exact ⟨target, hitem, hnamed.mp (not_not.mp hlength), (hmem target).mp htarget, hsuggests,
        hadmitted⟩

/-- An answer offers the suggestions that its claims propose. -/
theorem collectUpdates_best (analysis : ClaimAnalysis) (job : ClosureJob)
    (offered : List OfferedLoop) {best : Table ℕ SuggestedUpdate}
    {Offered : ℕ → SuggestedUpdate → Prop} (h : IsBest SuggestedUpdate.rank Offered best.get?) :
  IsBest SuggestedUpdate.rank
    (fun item update => Offered item update
      ∨ ∃ accepted ∈ analysis.accepted,
        ProposesFor messages scope (job.named offered) accepted item update)
    (collectUpdates analysis job offered messages best scope).get?
  := by
  apply IsBest.foldl (g := Table.get?) (I := fun _ => True)
  · intro best accepted _ _ Offered h
    apply collectClaim_best (job.named offered) accepted h
  · intro _ _ _ _
    trivial
  · trivial
  · exact h

/-! ### The outcomes of the requests -/

variable (messages scope) in
/-- The answer to a request proposes the suggestion for the item. -/
def OutcomeProposes (offered : List OfferedLoop) (jobs : List ClosureJob)
    (entry : ℕ × JobOutcome ClaimAnalysis) (item : ℕ) (update : SuggestedUpdate) : Prop :=
  ∃ analysis job, entry.2 = .completed (.ok analysis) ∧ jobs[entry.1]? = some job
    ∧ ∃ accepted ∈ analysis.accepted,
      ProposesFor messages scope (job.named offered) accepted item update

/-- An outcome offers the suggestions that it proposes. -/
theorem mergeClosureOutcome_best (offered : List OfferedLoop) (jobs : List ClosureJob)
    (merge : ClosureMerge) (entry : ℕ × JobOutcome ClaimAnalysis)
    {Offered : ℕ → SuggestedUpdate → Prop}
    (h : IsBest SuggestedUpdate.rank Offered merge.best.get?) :
  IsBest SuggestedUpdate.rank
    (fun item update => Offered item update
      ∨ OutcomeProposes messages scope offered jobs entry item update)
    (mergeClosureOutcome messages offered jobs scope merge entry).best.get?
  := by
  unfold OutcomeProposes
  obtain ⟨slot, outcome⟩ := entry
  fun_cases mergeClosureOutcome messages offered jobs scope merge (slot, outcome)
  case case1 analysis houtcome job hjob =>
    have hbest := @collectUpdates_best messages scope analysis job offered _ _ h
    simp only at houtcome
    simpa [houtcome, hjob] using hbest
  all_goals simp_all [ClosureMerge.fail]

/-- The outcomes of a pass offer the suggestions that they propose. -/
theorem mergedOutcomes_best (result : ScanResult) (offered : List OfferedLoop)
    (jobs : List ClosureJob) (outcomes : JobResults ClaimAnalysis) :
  IsBest SuggestedUpdate.rank
    (fun item update => ∃ entry ∈ outcomes,
      OutcomeProposes messages scope offered jobs entry item update)
    (mergedOutcomes messages offered jobs scope result outcomes).best.get?
  := by
  have hempty : IsBest SuggestedUpdate.rank (fun _ _ => False)
      (Table.empty : Table ℕ SuggestedUpdate).get? := by
    constructor
    · intro item update hnone
      cases hnone
    · intro item update hfalse
      cases hfalse
  have hfold := IsBest.foldl (g := fun merge : ClosureMerge => merge.best.get?)
    (f := mergeClosureOutcome messages offered jobs scope) (I := fun _ => True) (l := outcomes)
    (fun merge entry _ _ Offered h => mergeClosureOutcome_best offered jobs merge entry h)
    (fun _ _ _ _ => trivial) (s := ⟨result, 0, .empty⟩) trivial hempty
  simpa only [false_or, mergedOutcomes] using hfold

/-- An outcome changes no item. -/
theorem mergeClosureOutcome_analysis (offered : List OfferedLoop) (jobs : List ClosureJob)
    (merge : ClosureMerge) (entry : ℕ × JobOutcome ClaimAnalysis) :
  let result := (mergeClosureOutcome messages offered jobs scope merge entry).result
  result.analysis = merge.result.analysis
    ∧ result.suggestedUpdates = merge.result.suggestedUpdates
  := by
  obtain ⟨slot, outcome⟩ := entry
  fun_cases mergeClosureOutcome messages offered jobs scope merge (slot, outcome) <;>
    exact ⟨rfl, rfl⟩

/-- The outcomes of a pass change no item. -/
theorem mergedOutcomes_analysis (result : ScanResult) (offered : List OfferedLoop)
    (jobs : List ClosureJob) (outcomes : JobResults ClaimAnalysis) :
  let merge := mergedOutcomes messages offered jobs scope result outcomes
  merge.result.analysis = result.analysis
    ∧ merge.result.suggestedUpdates = result.suggestedUpdates
  := by
  unfold mergedOutcomes
  induction outcomes using List.reverseRecOn with
  | nil => exact ⟨rfl, rfl⟩
  | append_singleton outcomes entry ih =>
      rw [List.foldl_append, List.foldl_cons, List.foldl_nil]
      obtain ⟨hanalysis, hupdates⟩ := @mergeClosureOutcome_analysis messages scope offered jobs
        (outcomes.foldl (mergeClosureOutcome messages offered jobs scope) ⟨result, 0, .empty⟩) entry
      exact ⟨hanalysis.trans ih.1, hupdates.trans ih.2⟩

end

/-! ### Suggestions of items -/

/-- The item without its suggestion. -/
def LoopItem.withoutSuggestion (item : LoopItem) : LoopItem :=
  { item with suggestedUpdate := none }

/-- The items as they are but for their suggestions. -/
def ScanResult.itemsWithoutSuggestions (result : ScanResult) : List LoopItem :=
  result.analysis.items.map LoopItem.withoutSuggestion

section

variable (result : ScanResult) (place : ℕ) (update : SuggestedUpdate)

/-- A suggestion leaves everything else of the items. -/
theorem itemsWithoutSuggestions_suggest :
  (result.suggest place update).itemsWithoutSuggestions = result.itemsWithoutSuggestions
  := by
  unfold ScanResult.suggest ScanResult.itemsWithoutSuggestions
  cases hitem : result.analysis.items[place]? with
  | none => rfl
  | some item =>
      obtain ⟨hplace, rfl⟩ := List.getElem?_eq_some_iff.mp hitem
      simp only [ScanResult.withItems, List.map_set]
      have hlt : place < (result.analysis.items.map LoopItem.withoutSuggestion).length := by
        rw [List.length_map]
        exact hplace
      have hsame : LoopItem.withoutSuggestion
          { result.analysis.items[place] with suggestedUpdate := some update }
            = (result.analysis.items.map LoopItem.withoutSuggestion)[place] := by
        rw [List.getElem_map]
        rfl
      rw [hsame, List.set_getElem_self]

/-- The suggestion is with the item. -/
theorem suggestionAt_suggest (hplace : place < result.analysis.items.length) :
  (result.suggest place update).suggestionAt
    = Function.update result.suggestionAt place (some update)
  := by
  unfold ScanResult.suggest
  rw [List.getElem?_eq_getElem hplace]
  funext place'
  simp only [ScanResult.suggestionAt, ScanResult.withItems, Function.update_apply,
    List.getElem?_set]
  by_cases heq : place' = place
  · subst heq
    simp [hplace]
  · simp [heq, Ne.symm heq]

/-- The number of suggestions stays right. -/
theorem counted_suggest (hcounted : result.Counted) :
  (result.suggest place update).Counted
  := by
  unfold ScanResult.suggest
  cases hitem : result.analysis.items[place]? with
  | none => exact hcounted
  | some item =>
      obtain ⟨hplace, rfl⟩ := List.getElem?_eq_some_iff.mp hitem
      unfold ScanResult.Counted ScanResult.suggestions at hcounted ⊢
      simp only [ScanResult.withItems]
      rw [List.countP_set hplace, hcounted]
      cases hsuggested : result.analysis.items[place].suggestedUpdate with
      | none => simp
      | some current =>
          have hpos : 0 < result.analysis.items.countP fun item => item.suggestedUpdate.isSome := by
            apply List.countP_pos_iff.mpr
            use result.analysis.items[place], List.getElem_mem hplace
            rw [hsuggested]
            rfl
          simp only [Option.isNone_some, Option.isSome_some, if_true]
          simp
          omega

end

/-! ### Applying the best suggestions -/

/-- A suggestion is offered to its item. -/
theorem applyUpdate_best {state : ScanResult × ℕ} {row : ℕ × SuggestedUpdate}
    (hrow : row.1 < state.1.analysis.items.length) {Offered : ℕ → SuggestedUpdate → Prop}
    (h : IsBest SuggestedUpdate.rank Offered state.1.suggestionAt) :
  IsBest SuggestedUpdate.rank (fun item update => Offered item update ∨ row = (item, update))
    (applyUpdate state row).1.suggestionAt
  := by
  have hupdate : (applyUpdate state row).1.suggestionAt
      = Function.update state.1.suggestionAt row.1
        (keep SuggestedUpdate.rank (state.1.suggestionAt row.1) row.2) := by
    rw [keep_rank, applyUpdate]
    split_ifs
    · apply suggestionAt_suggest _ _ _ hrow
    · exact (Function.update_eq_self _ _).symm
  rw [hupdate]
  convert h.update row.1 row.2 using 3
  simp only [Prod.ext_iff, eq_comm]

theorem length_suggest (result : ScanResult) (place : ℕ) (update : SuggestedUpdate) :
  (result.suggest place update).analysis.items.length = result.analysis.items.length
  := by
  have h := congrArg List.length (itemsWithoutSuggestions_suggest result place update)
  simpa [ScanResult.itemsWithoutSuggestions] using h

/-- What a suggestion keeps of the result is kept by applying one. -/
theorem applyUpdate_induction {P : ScanResult → Prop}
    (hsuggest : ∀ result place update, P result → P (result.suggest place update))
    (state : ScanResult × ℕ) (row : ℕ × SuggestedUpdate) (h : P state.1) :
  P (applyUpdate state row).1
  := by
  unfold applyUpdate
  split_ifs
  · apply hsuggest _ _ _ h
  · exact h

/-- What a suggestion keeps of the result is kept by applying all of them. -/
theorem applyUpdates_induction {P : ScanResult → Prop}
    (hsuggest : ∀ result place update, P result → P (result.suggest place update))
    (result : ScanResult) (best : Table ℕ SuggestedUpdate) (h : P result) :
  P (applyUpdates result best).1
  := by
  unfold applyUpdates
  induction best.rows using List.reverseRecOn with
  | nil => exact h
  | append_singleton rows row ih =>
      rw [List.foldl_append]
      apply applyUpdate_induction hsuggest _ row ih

/-- When all suggestions are for items, each item is left with the best one of them and of the one
that it has had. -/
theorem applyUpdates_best {result : ScanResult} {best : Table ℕ SuggestedUpdate}
    (hbest : ∀ item update, best.get? item = some update → item < result.analysis.items.length) :
  IsBest SuggestedUpdate.rank
    (fun item update => result.suggestionAt item = some update ∨ best.get? item = some update)
    (applyUpdates result best).1.suggestionAt
  := by
  have hown : IsBest SuggestedUpdate.rank
      (fun item update => result.suggestionAt item = some update) result.suggestionAt := by
    constructor
    · intro item update h
      exact h
    · intro item update h
      exact ⟨update, h, le_rfl⟩
  have hfold := IsBest.foldl (g := fun state : ScanResult × ℕ => state.1.suggestionAt)
    (f := applyUpdate) (Q := fun row item update => row = (item, update))
    (I := fun state => state.1.analysis.items.length = result.analysis.items.length)
    (l := best.rows)
    (by
      rintro state ⟨item, update⟩ hrow hlength Offered h
      apply applyUpdate_best _ h
      rw [hlength]
      exact hbest item update (Table.mem_rows.mp hrow))
    (by
      intro state row _ hlength
      apply applyUpdate_induction (P := fun result' =>
        result'.analysis.items.length = result.analysis.items.length) _ state row hlength
      intro result' place update h
      rw [length_suggest, h])
    (s := (result, 0)) rfl hown
  convert hfold using 3
  · simp only [exists_eq_right, Table.mem_rows]
  · rfl

/-! ### The whole pass -/

/-- The pass proposes the suggestion for the item. -/
def ChatProposes (toLowercase : List Char → List Char) (messages : List ReviewMessage)
    (result : ScanResult) (scope : Option ClosureScope) (outcomes : JobResults ClaimAnalysis)
    (item : ℕ) (update : SuggestedUpdate) : Prop :=
  result.primaryScanTransportError = false ∧ ∃ entry ∈ outcomes,
    OutcomeProposes messages scope (offeredLoops result.analysis.items messages)
      (chatClosureJobs toLowercase messages result scope).1 entry item update

/-- An item that is offered is open, a request or a promise that the user owes, and stated by the
message. -/
theorem mem_offeredLoops {items : List LoopItem} {messages : List ReviewMessage}
    {loop : OfferedLoop} (hloop : loop ∈ offeredLoops items messages) :
  ∃ item, items[loop.item]? = some item ∧ item.offerable
    ∧ messageOf messages item.evidence.message = some loop.source
  := by
  obtain ⟨⟨⟨place, item, source⟩, index⟩, hentry, rfl⟩ := List.mem_map.mp hloop
  have hmem := List.mem_of_getElem? (List.mem_zipIdx_iff_getElem?.mp hentry)
  obtain ⟨⟨item', place'⟩, hitem, hsource⟩ := List.mem_filterMap.mp hmem
  obtain ⟨source', hsource', heq⟩ := Option.map_eq_some_iff.mp hsource
  cases heq
  obtain ⟨hitem, hofferable⟩ := List.mem_filter.mp hitem
  exact ⟨item', List.mem_zipIdx_iff_getElem?.mp hitem, hofferable, hsource'⟩

/-- The offers of a job are offered. -/
theorem mem_named {job : ClosureJob} {offered : List OfferedLoop} {loop : OfferedLoop}
    (hloop : loop ∈ job.named offered) :
  loop ∈ offered
  := by
  obtain ⟨index, -, hindex⟩ := List.mem_filterMap.mp hloop
  apply List.mem_of_getElem? hindex

/-- The evidence of a suggestion is later than what states the obligation. -/
theorem suggestedUpdateFor_eq_some {accepted : AcceptedClaim} {target : OfferedLoop}
    {messages : List ReviewMessage} {update : SuggestedUpdate}
    (h : suggestedUpdateFor accepted target messages = some update) :
  ∃ evidence ∈ accepted.evidence, isLaterEvidence messages target evidence
    ∧ evidence.sourceHandle = update.sourceMessage
  := by
  simp only [suggestedUpdateFor, Option.bind_eq_bind, Option.bind_eq_some_iff] at h
  obtain ⟨kind, -, time, -, evidence, hevidence, hupdate⟩ := h
  use evidence, List.mem_of_find?_eq_some hevidence, List.find?_some hevidence
  rw [← Option.some.inj hupdate]

section

variable (toLowercase : List Char → List Char) (messages : List ReviewMessage)
  (result : ScanResult) (scope : Option ClosureScope) (s : Pass ClaimAnalysis)

/-- The items of the result are those to which the best suggestions were applied. -/
theorem scanClosures_analysis (hreached : result.primaryScanTransportError = false) :
  let merge := mergedOutcomes messages (offeredLoops result.analysis.items messages)
    (chatClosureJobs toLowercase messages result scope).1 scope result s.results
  let applied := (applyUpdates merge.result merge.best).1
  (scanClosures toLowercase messages result scope s).analysis = applied.analysis
    ∧ (scanClosures toLowercase messages result scope s).suggestedUpdates
      = applied.suggestedUpdates
  := by
  simp only [scanClosures, hreached, Bool.false_eq_true, if_false, mergeClosureOutcomes,
    ScanResult.note]
  constructor <;> split_ifs <;> rfl

/-- The result of the pass keeps what suggestions keep. -/
theorem scanClosures_induction {P : LoopItems → ℕ → Prop}
    (hsuggest : ∀ (result : ScanResult) (place : ℕ) (update : SuggestedUpdate),
      P result.analysis result.suggestedUpdates →
      P (result.suggest place update).analysis (result.suggest place update).suggestedUpdates)
    (h : P result.analysis result.suggestedUpdates) :
  P (scanClosures toLowercase messages result scope s).analysis
    (scanClosures toLowercase messages result scope s).suggestedUpdates
  := by
  by_cases hreached : result.primaryScanTransportError = true
  · simpa [scanClosures, hreached] using h
  · rw [Bool.not_eq_true] at hreached
    obtain ⟨hanalysis, hupdates⟩ := scanClosures_analysis toLowercase messages result scope s hreached
    obtain ⟨hsame, hcount⟩ := @mergedOutcomes_analysis messages scope result
      (offeredLoops result.analysis.items messages)
      (chatClosureJobs toLowercase messages result scope).1 s.results
    rw [hanalysis, hupdates]
    apply applyUpdates_induction (P := fun result => P result.analysis result.suggestedUpdates)
    · exact hsuggest
    · rw [hsame, hcount]
      exact h

/-- Each item is left with the best one of its suggestion and those that the pass proposes. -/
theorem scanClosures_best :
  IsBest SuggestedUpdate.rank
    (fun item update => result.suggestionAt item = some update
      ∨ ChatProposes toLowercase messages result scope s.results item update)
    (scanClosures toLowercase messages result scope s).suggestionAt
  := by
  by_cases hreached : result.primaryScanTransportError = true
  · simp only [scanClosures, hreached, if_true, ChatProposes, Bool.true_eq_false, false_and,
      or_false]
    constructor
    · intro item update h
      exact h
    · intro item update h
      exact ⟨update, h, le_rfl⟩
  · rw [Bool.not_eq_true] at hreached
    have hmerged := @mergedOutcomes_best messages scope result
      (offeredLoops result.analysis.items messages)
      (chatClosureJobs toLowercase messages result scope).1 s.results
    obtain ⟨hsame, -⟩ := @mergedOutcomes_analysis messages scope result
      (offeredLoops result.analysis.items messages)
      (chatClosureJobs toLowercase messages result scope).1 s.results
    obtain ⟨hanalysis, -⟩ := scanClosures_analysis toLowercase messages result scope s hreached
    have hat : ∀ result result' : ScanResult, result.analysis = result'.analysis →
        result.suggestionAt = result'.suggestionAt := by
      intro result result' h
      funext item
      rw [ScanResult.suggestionAt, h]
      rfl
    rw [hat _ _ hanalysis]
    have happlied := applyUpdates_best (by
      intro item update hget
      obtain ⟨entry, -, analysis, job, -, -, accepted, -, target, rfl, hproposes⟩ :=
        hmerged.offered item update hget
      obtain ⟨handle, -, hfind⟩ := hproposes.isNamed
      obtain ⟨item', hitem, -⟩ := mem_offeredLoops (mem_named (List.mem_of_find?_eq_some hfind))
      exact (List.getElem?_eq_some_iff.mp (hsame.symm ▸ hitem)).1)
    rw [hat _ _ hsame] at happlied
    simpa only [ChatProposes, hreached, true_and] using hmerged.trans happlied

/-- A chat model only suggests: every item is as it was but for its suggestion; a new suggestion is
proposed by a claim of an answer to a request that offers the item among others and names offers of
that request alone, with evidence in the body or the subject of a later message, which is new when
the item was there before; no suggestion that the item has had or that is proposed outranks the one
that it is left with; and the number of suggestions stays right. -/
theorem scanClosures_only_suggests :
  let result' : ScanResult := scanClosures toLowercase messages result scope s
  let offered := offeredLoops result.analysis.items messages
  result'.itemsWithoutSuggestions = result.itemsWithoutSuggestions
    ∧ (∀ item update, result'.suggestionAt item = some update →
      result.suggestionAt item = some update
        ∨ ∃ slot analysis job accepted target item',
          (slot, .completed (.ok analysis)) ∈ s.results
            ∧ (chatClosureJobs toLowercase messages result scope).1[slot]? = some job
            ∧ accepted ∈ analysis.accepted
            ∧ (∀ handle ∈ accepted.claim.relatedLoopHandles,
              ∃ loop ∈ job.named offered, loop.handle = handle)
            ∧ target ∈ job.named offered ∧ target.handle ∈ accepted.claim.relatedLoopHandles
            ∧ target.item = item ∧ result.analysis.items[item]? = some item' ∧ item'.offerable
            ∧ messageOf messages item'.evidence.message = some target.source
            ∧ (∃ evidence ∈ accepted.evidence, isLaterEvidence messages target evidence
              ∧ evidence.sourceHandle = update.sourceMessage)
            ∧ ∀ s', scope = some s' → s'.priorStart ≤ item →
              update.sourceMessage ∈ s'.newMessages)
    ∧ (∀ item update, result.suggestionAt item = some update
        ∨ ChatProposes toLowercase messages result scope s.results item update →
      ∃ best, result'.suggestionAt item = some best ∧ ¬outranks update best)
    ∧ (result.Counted → result'.Counted)
  := by
  intro result' offered
  have hbest := scanClosures_best toLowercase messages result scope s
  refine ⟨?_, ?_, ?_, ?_⟩
  · apply scanClosures_induction toLowercase messages result scope s
      (P := fun analysis _ => analysis.items.map LoopItem.withoutSuggestion
        = result.itemsWithoutSuggestions)
    · intro result'' place update h
      apply (itemsWithoutSuggestions_suggest result'' place update).trans h
    · rfl
  · intro item update hupdate
    apply (hbest.offered item update hupdate).imp_right
    rintro ⟨-, ⟨slot, outcome⟩, hentry, analysis, job, rfl, hjob, accepted, haccepted, target, rfl,
      hproposes⟩
    obtain ⟨handle, hhandle, hfind⟩ := hproposes.isNamed
    have htarget := List.mem_of_find?_eq_some hfind
    have heq : target.handle = handle := by
      simpa using List.find?_some hfind
    obtain ⟨item', hitem', hofferable, hsource⟩ := mem_offeredLoops (mem_named htarget)
    exact ⟨slot, analysis, job, accepted, target, item', hentry, hjob, haccepted, hproposes.named,
      htarget, by rw [heq]; exact hhandle, rfl, hitem', hofferable, hsource,
      suggestedUpdateFor_eq_some hproposes.suggests, hproposes.admitted⟩
  · intro item update hupdate
    obtain ⟨best, hget, hle⟩ := hbest.best item update hupdate
    use best, hget
    rw [outranks_iff]
    exact not_lt.mpr hle
  · intro hcounted
    have h := scanClosures_induction toLowercase messages result scope s
      (P := fun analysis updates => updates
        = analysis.items.countP fun item => item.suggestedUpdate.isSome)
      (fun result'' place update h => counted_suggest result'' place update h) hcounted
    exact h

end

end Review
