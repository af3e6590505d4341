import OpenLoops.Library.Log
import OpenLoops.Review.ExtractionDocument
import OpenLoops.Review.PassAnswers
import OpenLoops.Review.TriageResults

/-!
# Claims of conversations

The claims of a conversation that is neither skipped nor goes to the chat model are those of its
confident paragraphs, in the order of the messages and of the paragraphs within them.
-/

namespace Review

open Contracts Inference

/-! ### Confident paragraphs -/

/-- The claim that an outcome gives for a paragraph of the message with a handle. -/
def claimAt (selected : List ReviewMessage) (handle : String)
    (entry : ℕ × JobOutcome ExtractionAnswer) : Option (ConversationKey × ParagraphClaim) :=
  match (triageJobs selected)[entry.1]? with
  | some (index, ordinal) =>
      match selected[index]?, entry.2 with
      | some message, .completed (.ok ⟨_, .confident fields⟩) =>
          if message.input.handle = handle then some (message.key, ⟨message.input, ordinal, fields⟩)
          else none
      | _, _ => none
  | none => none

/-- A claim is kept for the handle of its message. -/
theorem ExtractionCollection.add_claims (collection : ExtractionCollection)
    (message : ReviewMessage) (ordinal : ℕ) (outcome : JobOutcome ExtractionAnswer)
    (handle : String) :
  ((collection.add message ordinal outcome).claimsByHandle.get? handle).getD []
    = (collection.claimsByHandle.get? handle).getD []
      ++ match outcome with
        | .completed (.ok ⟨_, .confident fields⟩) =>
            if message.input.handle = handle then
              [ParagraphClaim.json ⟨message.input, ordinal, fields⟩]
            else []
        | _ => []
  := by
  rcases outcome with (error | ⟨paragraph, _ | fields | _⟩) | - | -
  · cases error <;> simp [ExtractionCollection.add]
  · rename_i fields
    simp only [ExtractionCollection.add, Table.get?_alter]
    by_cases hhandle : message.input.handle = handle
    · subst hhandle
      simp [ParagraphClaim.json]
    · simp [hhandle, Ne.symm hhandle]
  · simp [ExtractionCollection.add]
  · simp [ExtractionCollection.add]
  · simp [ExtractionCollection.add]
  · simp [ExtractionCollection.add]

theorem collectExtraction_claims (selected : List ReviewMessage) (skipped : Finset ConversationKey)
    (collection : ExtractionCollection) (entry : ℕ × JobOutcome ExtractionAnswer)
    (handle : String) :
  ((collectExtraction selected skipped collection entry).claimsByHandle.get? handle).getD []
    = (collection.claimsByHandle.get? handle).getD []
      ++ ((claimAt selected handle entry).toList.filter fun claim => claim.1 ∉ skipped).map
        fun claim => claim.2.json
  := by
  obtain ⟨slot, outcome⟩ := entry
  rw [collectExtraction, claimAt]
  rcases (triageJobs selected)[slot]? with _ | ⟨index, ordinal⟩
  · simp
  · rcases hmessage : selected[index]? with _ | message
    · simp [hmessage]
    · simp only [hmessage]
      split_ifs with hskipped
      · rcases outcome with (error | ⟨paragraph, _ | fields | _⟩) | - | - <;>
          simp [hskipped, apply_ite]
      · rw [ExtractionCollection.add_claims]
        congr 1
        rcases outcome with (error | ⟨paragraph, _ | fields | _⟩) | - | -
        case completed.ok.confident =>
          by_cases hhandle : message.input.handle = handle <;> simp [hskipped, hhandle]
        all_goals rfl

/-- One more outcome is collected. -/
theorem collectExtractions_append (selected : List ReviewMessage)
    (skipped : Finset ConversationKey) (outcomes : JobResults ExtractionAnswer)
    (entry : ℕ × JobOutcome ExtractionAnswer) :
  collectExtractions selected skipped (outcomes ++ [entry])
    = collectExtraction selected skipped (collectExtractions selected skipped outcomes) entry
  := by
  rw [collectExtractions, List.foldl_append]
  rfl

/-- The claims that are kept for a handle are those of the conversations that are not skipped. -/
theorem collectExtractions_claims (selected : List ReviewMessage)
    (skipped : Finset ConversationKey) (outcomes : JobResults ExtractionAnswer) (handle : String) :
  ((collectExtractions selected skipped outcomes).claimsByHandle.get? handle).getD []
    = ((outcomes.filterMap (claimAt selected handle)).filter
      fun claim => claim.1 ∉ skipped).map fun claim => claim.2.json
  := by
  induction outcomes using List.reverseRecOn with
  | nil => rfl
  | append_singleton outcomes entry ih =>
      rw [collectExtractions_append, collectExtraction_claims, ih, List.filterMap_eq_flatMap_toList,
        List.filterMap_eq_flatMap_toList, List.flatMap_append, List.flatMap_singleton,
        List.filter_append, List.map_append]

/-! ### The order of the claims -/

/-- The place of the request for a paragraph of the message with a handle. -/
def paragraphSlot (selected : List ReviewMessage) (handle : String) (ordinal : ℕ) : ℕ :=
  (triageJobs selected).findIdx fun job =>
    job.2 = ordinal ∧ selected[job.1]?.map (·.input.handle) = some handle

/-- The claim of a paragraph, when the decision model is confident about it. -/
def paragraphClaim (selected : List ReviewMessage) (outcomes : JobResults ExtractionAnswer)
    (message : ReviewMessage) (ordinal : ℕ) : Option ParagraphClaim :=
  match outcomes.lookup (paragraphSlot selected message.input.handle ordinal) with
  | some (.completed (.ok ⟨_, .confident fields⟩)) => some ⟨message.input, ordinal, fields⟩
  | _ => none

/-- The claims of the confident paragraphs of a message, one after the other. -/
def confidentParagraphs (selected : List ReviewMessage) (outcomes : JobResults ExtractionAnswer)
    (message : ReviewMessage) : List ParagraphClaim :=
  (List.range (min message.input.message.bodyBlocks.length maxBodyBlocks)).filterMap
    (paragraphClaim selected outcomes message)

/-- Outcomes may be looked up by their jobs, one after the other. -/
theorem PassOutcomes.filterMap_entries {α β : Type} {jobs : ℕ} (outcomes : PassOutcomes α jobs)
    (f : ℕ × JobOutcome α → Option β) :
  outcomes.entries.filterMap f
    = (List.range jobs).filterMap fun slot =>
      (outcomes.entries.lookup slot).bind fun outcome => f (slot, outcome)
  := by
  have hentries : outcomes.entries
      = (List.range jobs).filterMap fun slot => (outcomes.entries.lookup slot).map (slot, ·) := by
    apply List.Pairwise.eq_of_mem_iff (r := fun a b => a.1 < b.1)
    · apply List.pairwise_map.mp outcomes.sorted.pairwise
    · apply List.Pairwise.filterMap _ _ (List.sortedLT_range jobs).pairwise
      intro slot slot' hlt entry hentry entry' hentry'
      obtain ⟨outcome, -, rfl⟩ := Option.map_eq_some_iff.mp hentry
      obtain ⟨outcome', -, rfl⟩ := Option.map_eq_some_iff.mp hentry'
      exact hlt
    · rintro ⟨slot, outcome⟩
      rw [← Log.lookup_eq_some_iff_mem outcomes.sorted.nodup]
      simp only [List.mem_filterMap, List.mem_range, Option.map_eq_some_iff, Prod.mk.injEq]
      constructor
      · intro hlookup
        have hlt := outcomes.lt _
          ((Log.lookup_eq_some_iff_mem outcomes.sorted.nodup).mp hlookup)
        exact ⟨slot, hlt, outcome, hlookup, rfl, rfl⟩
      · rintro ⟨slot, -, outcome, hlookup, rfl, rfl⟩
        exact hlookup
  conv_lhs => rw [hentries]
  rw [List.filterMap_filterMap]
  congr 1
  funext slot
  cases outcomes.entries.lookup slot <;> rfl

/-! ### Places of requests -/

section

variable {selected : List ReviewMessage} (hhandles : (selected.map (·.input.handle)).Nodup)

theorem nodup_triageJobs (messages : List ReviewMessage) :
  (triageJobs messages).Nodup
  := by
  apply List.nodup_flatMap.mpr
  constructor
  · intro entry _
    apply List.Nodup.map _ List.nodup_range
    intro ordinal ordinal' h
    exact congrArg Prod.snd h
  · have hplaces : (messages.zipIdx.map Prod.snd).Nodup := by
      rw [List.zipIdx_map_snd]
      exact List.nodup_range'
    apply (List.pairwise_map.mp hplaces).imp
    intro entry entry' hne job hjob hjob'
    obtain ⟨ordinal, -, rfl⟩ := List.mem_map.mp hjob
    obtain ⟨ordinal', -, heq⟩ := List.mem_map.mp hjob'
    apply hne (congrArg Prod.fst heq).symm

include hhandles

/-- A message is at one place only. -/
theorem index_eq_of_handle {index index' : ℕ} {message message' : ReviewMessage}
    (hmessage : selected[index]? = some message) (hmessage' : selected[index']? = some message')
    (hhandle : message.input.handle = message'.input.handle) :
  index = index'
  := by
  obtain ⟨hlt, -⟩ := List.getElem?_eq_some_iff.mp hmessage
  have hplace : index < (selected.map (·.input.handle)).length := by
    rw [List.length_map]
    exact hlt
  apply (List.getElem?_inj hplace hhandles).mp
  rw [List.getElem?_map, List.getElem?_map, hmessage, hmessage', Option.map_some, Option.map_some,
    hhandle]

/-- The place of the request for a paragraph is found by the handle of its message. -/
theorem paragraphSlot_eq {slot index ordinal : ℕ} {message : ReviewMessage}
    (hjob : (triageJobs selected)[slot]? = some (index, ordinal))
    (hmessage : selected[index]? = some message) :
  paragraphSlot selected message.input.handle ordinal = slot
  := by
  obtain ⟨hlt, hget⟩ := List.getElem?_eq_some_iff.mp hjob
  have hfound : paragraphSlot selected message.input.handle ordinal
      < (triageJobs selected).length := by
    apply List.findIdx_lt_length_of_exists
    use (index, ordinal), List.mem_of_getElem? hjob
    simp [hmessage]
  have hspec := List.findIdx_getElem (w := hfound)
  simp only [decide_eq_true_eq] at hspec
  obtain ⟨hordinal, hhandle⟩ := hspec
  obtain ⟨message', hmessage', heq⟩ := Option.map_eq_some_iff.mp hhandle
  have hindex := index_eq_of_handle hhandles hmessage' hmessage heq
  apply (nodup_triageJobs selected).getElem_inj_iff.mp
  rw [hget]
  exact Prod.ext hindex hordinal

/-- The claim of a job is that of its paragraph, when the job is of the message. -/
theorem claimAt_lookup (outcomes : JobResults ExtractionAnswer) {message : ReviewMessage}
    {entry : (ℕ × ℕ) × ℕ} (hentry : entry ∈ (triageJobs selected).zipIdx) :
  ((outcomes.lookup entry.2).bind fun outcome =>
      claimAt selected message.input.handle (entry.2, outcome))
    = selected[entry.1.1]?.bind fun message' =>
      if message'.input.handle = message.input.handle then
        (paragraphClaim selected outcomes message' entry.1.2).map (message'.key, ·)
      else none
  := by
  have hjob := List.mem_zipIdx_iff_getElem?.mp hentry
  obtain ⟨message', hmessage', -⟩ := mem_triageJobs.mp (List.mem_of_getElem? hjob)
  have hslot := paragraphSlot_eq hhandles hjob hmessage'
  rw [hmessage', Option.bind_some, paragraphClaim, hslot]
  rcases outcomes.lookup entry.2 with _ | outcome
  · simp
  · simp only [Option.bind_some, claimAt, hjob, hmessage']
    rcases outcome with (error | ⟨paragraph, _ | fields | _⟩) | - | - <;> simp

/-- The claims that are kept for a message are those of its confident paragraphs, in their order. -/
theorem collectExtractions_confident (skipped : Finset ConversationKey)
    (outcomes : PassOutcomes ExtractionAnswer (triageJobs selected).length)
    {message : ReviewMessage} (hmessage : message ∈ selected) (hskipped : message.key ∉ skipped) :
  ((collectExtractions selected skipped outcomes.entries).claimsByHandle.get?
      message.input.handle).getD []
    = (confidentParagraphs selected outcomes.entries message).map (·.json)
  := by
  have hclaims : outcomes.entries.filterMap (claimAt selected message.input.handle)
      = (confidentParagraphs selected outcomes.entries message).map (message.key, ·) := by
    calc outcomes.entries.filterMap (claimAt selected message.input.handle)
      _ = ((triageJobs selected).zipIdx.map Prod.snd).filterMap fun slot =>
          (outcomes.entries.lookup slot).bind fun outcome =>
            claimAt selected message.input.handle (slot, outcome) := by
        rw [outcomes.filterMap_entries, List.zipIdx_map_snd, List.range_eq_range']
      _ = (triageJobs selected).filterMap fun job => selected[job.1]?.bind fun message' =>
          if message'.input.handle = message.input.handle then
            (paragraphClaim selected outcomes.entries message' job.2).map (message'.key, ·)
          else none := by
        generalize outcomes.entries = entries
        conv_rhs => rw [← List.zipIdx_map_fst 0 (triageJobs selected)]
        rw [List.filterMap_map, List.filterMap_map]
        apply List.filterMap_congr
        intro entry hentry
        apply claimAt_lookup hhandles entries hentry
      _ = selected.flatMap fun message' =>
          if message'.input.handle = message.input.handle then
            (confidentParagraphs selected outcomes.entries message').map (message'.key, ·)
          else [] := by
        generalize outcomes.entries = entries
        rw [triageJobs, List.filterMap_flatMap]
        conv_rhs => rw [← List.zipIdx_map_fst 0 selected]
        rw [List.flatMap_map]
        apply List.flatMap_congr
        intro entry hentry
        rw [List.filterMap_map, confidentParagraphs, List.map_filterMap]
        have hentry := List.mem_zipIdx_iff_getElem?.mp hentry
        by_cases hhandle : entry.1.input.handle = message.input.handle
        · simp [hentry, hhandle]
        · simp [hentry, hhandle]
      _ = (confidentParagraphs selected outcomes.entries message).map (message.key, ·) := by
        obtain ⟨before, after, rfl⟩ := List.append_of_mem hmessage
        have hnone : ∀ other ∈ before ++ after, other.input.handle ≠ message.input.handle := by
          rw [List.map_append, List.map_cons, List.nodup_middle, List.nodup_cons,
            ← List.map_append] at hhandles
          intro other hother heq
          apply hhandles.1
          rw [← heq]
          apply List.mem_map_of_mem hother
        rw [List.flatMap_append, List.flatMap_cons, if_pos rfl,
          List.flatMap_eq_nil_iff.mpr fun other hother => if_neg (hnone other (by simp [hother])),
          List.flatMap_eq_nil_iff.mpr fun other hother => if_neg (hnone other (by simp [hother])),
          List.nil_append, List.append_nil]
  rw [collectExtractions_claims, hclaims]
  simp [List.filter_map, hskipped, Function.comp_def]

end

end Review
