import OpenLoops.Review.Conversations
import OpenLoops.Review.TriageResults

/-!
# Tallies of outcomes

What a scan reports is read off the outcomes of its conversations, one after the other: the items,
the notes and the failures in their order, and how many conversations there are of each kind.
-/

namespace Review

open Inference

/-! ### Kinds of outcomes -/

namespace JobOutcome

variable {α : Type}

def isAnalyzed : JobOutcome α → Bool
  | .completed (.ok _) => true
  | _ => false

def isNotStarted : JobOutcome α → Bool
  | .notStarted => true
  | _ => false

def isFailed (outcome : JobOutcome α) : Bool :=
  !outcome.isAnalyzed && !outcome.isCancelled && !outcome.isNotStarted

end JobOutcome

/-- Every outcome is of one kind. -/
theorem countP_kinds {α : Type} (entries : JobResults α) :
  entries.countP (·.2.isAnalyzed) + entries.countP (·.2.isFailed)
      + entries.countP (·.2.isNotStarted) + entries.countP (·.2.isCancelled) = entries.length
  := by
  induction entries with
  | nil => rfl
  | cons entry entries ih =>
      obtain ⟨index, outcome⟩ := entry
      have hkinds : (if outcome.isAnalyzed then 1 else 0) + (if outcome.isFailed then 1 else 0)
          + (if outcome.isNotStarted then 1 else 0) + (if outcome.isCancelled then 1 else 0) = 1 := by
        rcases outcome with (error | analysis) | - | -
        · cases error <;> rfl
        · rfl
        · rfl
        · rfl
      simp only [List.countP_cons, List.length_cons]
      omega

section

variable (quotaDetail : Option String) (toLowercase : List Char → List Char) (registry : Registry)
  (reader : TimeReader) (conversations : List (List ReviewMessage))

/-- The conversation that an outcome is of. -/
def conversationOf (entry : ℕ × JobOutcome LoopItems) : List ReviewMessage :=
  conversations.getD entry.1 []

/-- What is reported of a conversation that was analyzed. -/
def analysisOf (entry : ℕ × JobOutcome LoopItems) : Option LoopItems :=
  match entry.2 with
  | .completed (.ok analysis) => some (correctedAnalysis toLowercase registry reader
      (conversationOf conversations entry) analysis)
  | _ => none

/-- What is reported of a conversation that failed or was not started: a line, and a detail. -/
def failureOf (entry : ℕ × JobOutcome LoopItems) : Option (String × ConversationFailure) :=
  let conversation := conversationOf conversations entry
  match entry.2 with
  | .completed (.ok _) | .completed (.error .cancelled) => none
  | .completed (.error error) => some (failureLine quotaDetail entry.1 conversation error,
      failureDetail conversation (failureReason error))
  | .panicked => some ("Conversation " ++ toString (entry.1 + 1)
      ++ ": the analysis failed unexpectedly and was skipped.", failureDetail conversation .panicked)
  | .notStarted => some (conversationHead entry.1 conversation
      ++ ": the conversation was not analyzed because the scan stopped after a provider error.",
      failureDetail conversation .notStarted)

/-- A conversation is reported as a failure when it failed or was not started. -/
theorem length_failureOf (entry : ℕ × JobOutcome LoopItems) :
  (failureOf quotaDetail conversations entry).toList.length
    = (if entry.2.isFailed then 1 else 0) + if entry.2.isNotStarted then 1 else 0
  := by
  obtain ⟨index, outcome⟩ := entry
  rcases outcome with (error | analysis) | - | -
  · cases error <;> rfl
  · rfl
  · rfl
  · rfl

theorem length_filterMap_failureOf (entries : JobResults LoopItems) :
  (entries.filterMap (failureOf quotaDetail conversations)).length
    = entries.countP (·.2.isFailed) + entries.countP (·.2.isNotStarted)
  := by
  induction entries with
  | nil => rfl
  | cons entry entries ih =>
      have hone := length_failureOf quotaDetail conversations entry
      rw [List.filterMap_eq_flatMap_toList] at ih ⊢
      rw [List.flatMap_cons, List.length_append, ih, hone, List.countP_cons, List.countP_cons]
      omega

/-! ### Merging -/

/-- The result reports the outcomes in their order. -/
structure Tally (entries : JobResults LoopItems) (result : ScanResult) : Prop where
  items : result.analysis.items
    = entries.flatMap fun entry =>
      ((analysisOf toLowercase registry reader conversations entry).map (·.items)).getD []
  notes : result.conversationNotes
    = entries.filterMap fun entry =>
      (analysisOf toLowercase registry reader conversations entry).bind
        (conversationNote entry.1 (conversationOf conversations entry))
  failures : result.failures
    = (entries.filterMap (failureOf quotaDetail conversations)).map Prod.fst
  details : result.failedConversationsDetail
    = (entries.filterMap (failureOf quotaDetail conversations)).map Prod.snd
  analyzed : result.analyzed
    = ((entries.filter (·.2.isAnalyzed)).map fun entry =>
      (conversationOf conversations entry).length).sum
  analyzedConversations : result.analyzedConversations = entries.countP (·.2.isAnalyzed)
  failedConversations : result.failedConversations = entries.countP (·.2.isFailed)
  notStartedConversations : result.notStartedConversations = entries.countP (·.2.isNotStarted)
  quality : ∀ key, key ∈ result.conversationQuality.keys
    ↔ ∃ entry ∈ entries, entry.2.isAnalyzed ∧ conversationKey (conversationOf conversations entry) = key
  cancelled : result.cancelled = entries.any (·.2.isCancelled)
  conversationCount : result.conversationCount = conversations.length

end

variable {quotaDetail : Option String} {toLowercase : List Char → List Char} {registry : Registry}
  {reader : TimeReader} {conversations : List (List ReviewMessage)}

/-! ### One more outcome -/

section

variable (quotaDetail toLowercase registry reader conversations)

/-- The result with one more outcome. -/
def mergeEntry (result : ScanResult) (entry : ℕ × JobOutcome LoopItems) : ScanResult :=
  mergeConversation quotaDetail toLowercase registry reader result entry.1
    (conversationOf conversations entry) entry.2

variable (result : ScanResult) (entry : ℕ × JobOutcome LoopItems)

theorem mergeEntry_items :
  (mergeEntry quotaDetail toLowercase registry reader conversations result entry).analysis.items
    = result.analysis.items
      ++ ((analysisOf toLowercase registry reader conversations entry).map (·.items)).getD []
  := by
  obtain ⟨index, outcome⟩ := entry
  rcases outcome with (error | analysis) | - | -
  · cases error <;> simp [mergeEntry, mergeConversation, analysisOf]
  · rfl
  · simp [mergeEntry, mergeConversation, analysisOf]
  · simp [mergeEntry, mergeConversation, analysisOf]

theorem mergeEntry_notes :
  (mergeEntry quotaDetail toLowercase registry reader conversations result entry).conversationNotes
    = result.conversationNotes
      ++ ((analysisOf toLowercase registry reader conversations entry).bind
        (conversationNote entry.1 (conversationOf conversations entry))).toList
  := by
  obtain ⟨index, outcome⟩ := entry
  rcases outcome with (error | analysis) | - | -
  · cases error <;> simp [mergeEntry, mergeConversation, analysisOf]
  · rfl
  · simp [mergeEntry, mergeConversation, analysisOf]
  · simp [mergeEntry, mergeConversation, analysisOf]

/-- The two lists of failures grow together. -/
theorem mergeEntry_failures :
  (mergeEntry quotaDetail toLowercase registry reader conversations result entry).failures
      = result.failures ++ ((failureOf quotaDetail conversations entry).toList.map Prod.fst)
    ∧ (mergeEntry quotaDetail toLowercase registry reader conversations
        result entry).failedConversationsDetail
      = result.failedConversationsDetail
        ++ ((failureOf quotaDetail conversations entry).toList.map Prod.snd)
  := by
  obtain ⟨index, outcome⟩ := entry
  rcases outcome with (error | analysis) | - | -
  · cases error <;> simp [mergeEntry, mergeConversation, failureOf, conversationOf]
  · simp [mergeEntry, mergeConversation, failureOf]
  · simp [mergeEntry, mergeConversation, failureOf]
  · simp [mergeEntry, mergeConversation, failureOf]

/-- The counters are those of the kinds of outcomes. -/
theorem mergeEntry_counts :
  (mergeEntry quotaDetail toLowercase registry reader conversations result entry).analyzed
      = result.analyzed
        + (if entry.2.isAnalyzed then (conversationOf conversations entry).length else 0)
    ∧ (mergeEntry quotaDetail toLowercase registry reader conversations
        result entry).analyzedConversations
      = result.analyzedConversations + (if entry.2.isAnalyzed then 1 else 0)
    ∧ (mergeEntry quotaDetail toLowercase registry reader conversations
        result entry).failedConversations
      = result.failedConversations + (if entry.2.isFailed then 1 else 0)
    ∧ (mergeEntry quotaDetail toLowercase registry reader conversations
        result entry).notStartedConversations
      = result.notStartedConversations + (if entry.2.isNotStarted then 1 else 0)
    ∧ (mergeEntry quotaDetail toLowercase registry reader conversations result entry).cancelled
      = (result.cancelled || entry.2.isCancelled)
    ∧ (mergeEntry quotaDetail toLowercase registry reader conversations
        result entry).conversationCount = result.conversationCount
  := by
  obtain ⟨index, outcome⟩ := entry
  rcases outcome with (error | analysis) | - | -
  · cases error <;> simp [mergeEntry, mergeConversation, JobOutcome.isAnalyzed,
      JobOutcome.isFailed, JobOutcome.isCancelled, JobOutcome.isNotStarted]
  · simp [mergeEntry, mergeConversation, JobOutcome.isAnalyzed, JobOutcome.isFailed,
      JobOutcome.isCancelled, JobOutcome.isNotStarted]
  · simp [mergeEntry, mergeConversation, JobOutcome.isAnalyzed, JobOutcome.isFailed,
      JobOutcome.isCancelled, JobOutcome.isNotStarted]
  · simp [mergeEntry, mergeConversation, JobOutcome.isAnalyzed, JobOutcome.isFailed,
      JobOutcome.isCancelled, JobOutcome.isNotStarted]

theorem mergeEntry_quality (key : ConversationKey) :
  key ∈ (mergeEntry quotaDetail toLowercase registry reader conversations
      result entry).conversationQuality.keys
    ↔ key ∈ result.conversationQuality.keys
      ∨ entry.2.isAnalyzed ∧ conversationKey (conversationOf conversations entry) = key
  := by
  obtain ⟨index, outcome⟩ := entry
  rcases outcome with (error | analysis) | - | -
  · cases error <;> simp [mergeEntry, mergeConversation, JobOutcome.isAnalyzed]
  · simp only [mergeEntry, mergeConversation, JobOutcome.isAnalyzed, Table.mem_keys_alter, true_and]
    rw [or_comm, eq_comm]
  · simp [mergeEntry, mergeConversation, JobOutcome.isAnalyzed]
  · simp [mergeEntry, mergeConversation, JobOutcome.isAnalyzed]

end

/-- One more outcome is reported. -/
theorem Tally.merge {entries : JobResults LoopItems} {result : ScanResult}
    (htally : Tally quotaDetail toLowercase registry reader conversations entries result)
    (entry : ℕ × JobOutcome LoopItems) :
  Tally quotaDetail toLowercase registry reader conversations (entries ++ [entry])
    (mergeEntry quotaDetail toLowercase registry reader conversations result entry)
  := by
  obtain ⟨hfailures, hdetails⟩ := mergeEntry_failures quotaDetail toLowercase registry reader
    conversations result entry
  obtain ⟨hanalyzed, hanalyzedConversations, hfailed, hnotStarted, hcancelled, hcount⟩ :=
    mergeEntry_counts quotaDetail toLowercase registry reader conversations result entry
  constructor
  · rw [mergeEntry_items, htally.items, List.flatMap_append, List.flatMap_singleton]
  · rw [mergeEntry_notes, htally.notes, List.filterMap_eq_flatMap_toList,
      List.filterMap_eq_flatMap_toList, List.flatMap_append, List.flatMap_singleton]
  · rw [hfailures, htally.failures, List.filterMap_eq_flatMap_toList,
      List.filterMap_eq_flatMap_toList, List.flatMap_append, List.flatMap_singleton,
      List.map_append]
  · rw [hdetails, htally.details, List.filterMap_eq_flatMap_toList,
      List.filterMap_eq_flatMap_toList, List.flatMap_append, List.flatMap_singleton,
      List.map_append]
  · rw [hanalyzed, htally.analyzed, List.filter_append, List.map_append, List.sum_append,
      List.filter_singleton]
    cases entry.2.isAnalyzed <;> simp
  · rw [hanalyzedConversations, htally.analyzedConversations, List.countP_append,
      List.countP_singleton]
  · rw [hfailed, htally.failedConversations, List.countP_append, List.countP_singleton]
  · rw [hnotStarted, htally.notStartedConversations, List.countP_append, List.countP_singleton]
  · intro key
    rw [mergeEntry_quality, htally.quality key]
    simp only [List.mem_append, List.mem_singleton, or_and_right, exists_or, exists_eq_left]
  · rw [hcancelled, htally.cancelled, List.any_append, List.any_cons, List.any_nil, Bool.or_false]
  · rw [hcount, htally.conversationCount]

/-- All outcomes are reported. -/
theorem tally_mergeConversations (total : ℕ) (entries : JobResults LoopItems) :
  Tally quotaDetail toLowercase registry reader conversations entries
    (mergeConversations quotaDetail toLowercase registry reader conversations
      { emptyResult total with conversationCount := conversations.length } entries)
  := by
  induction entries using List.reverseRecOn with
  | nil =>
      constructor <;> simp [mergeConversations, emptyResult, Table.keys, Table.empty]
  | append_singleton entries entry ih =>
      have hmerge : mergeConversations quotaDetail toLowercase registry reader conversations
          { emptyResult total with conversationCount := conversations.length } (entries ++ [entry])
          = mergeEntry quotaDetail toLowercase registry reader conversations
            (mergeConversations quotaDetail toLowercase registry reader conversations
              { emptyResult total with conversationCount := conversations.length } entries) entry := by
        rw [mergeConversations, List.foldl_append]
        rfl
      rw [hmerge]
      apply ih.merge

end Review
