import OpenLoops.Library.JsonText
import OpenLoops.Review.Recap

/-!
# Duplicate actions

Two items of one message may state the same action in other words.  A decision model is asked about
each pair of such items, and the later item of a pair that it takes for one action is removed.
-/

namespace Review

def ruleDuplicateAction : String :=
  "rules.duplicate_action"

/-- The case that a decision model is asked about. -/
def duplicateState (a b : LoopItem) : Json :=
  .object [("action_a", .string a.action), ("action_b", .string b.action)]

/-- The items are of one message, and their actions are not the same text. -/
def mayBeDuplicates (a b : LoopItem) : Bool :=
  a.evidence.message = b.evidence.message && !eqIgnoreAsciiCase a.action.toList b.action.toList

def duplicateRuleStates (items : List LoopItem) : List Json :=
  items.zipIdx.flatMap fun entry =>
    ((items.drop (entry.2 + 1)).filter (mayBeDuplicates entry.1)).map (duplicateState entry.1)

section

variable (registry : Registry) (rules : RuleDecisions)

/-- An accepted answer takes the actions of the pair for one. -/
def judgedDuplicate (a b : LoopItem) : Bool :=
  mayBeDuplicates a b && rules.noul registry ruleDuplicateAction (duplicateState a b)

/-- The places of the items that are to be removed. -/
def duplicates (items : List LoopItem) : List ℕ :=
  items.zipIdx.flatMap fun entry =>
    ((items.zipIdx.drop (entry.2 + 1)).filter fun other =>
      judgedDuplicate registry rules entry.1 other.1).map Prod.snd

def applyDuplicateRules (items : List LoopItem) : List LoopItem :=
  (items.zipIdx.filter fun entry => entry.2 ∉ duplicates registry rules items).map Prod.fst

/-! ### What is removed -/

variable (items : List LoopItem)

/-- The items at two places are judged to be duplicates. -/
def JudgedAt (earlier later : ℕ) : Prop :=
  earlier < later
    ∧ ∃ a b, items[earlier]? = some a ∧ items[later]? = some b
      ∧ judgedDuplicate registry rules a b = true

/-- The item at the place is judged a duplicate of one before it. -/
def IsRepeated (place : ℕ) : Prop :=
  ∃ earlier, JudgedAt registry rules items earlier place

/-- Each item that is removed was judged a duplicate of one that is kept. -/
def KeepsACopy : Prop :=
  ∀ removed ∈ duplicates registry rules items, ∃ kept ∉ duplicates registry rules items,
    JudgedAt registry rules items kept removed ∨ JudgedAt registry rules items removed kept

/-- Each item that repeats another one repeats one that is not itself a repetition. -/
def RepeatsAFirst : Prop :=
  ∀ place, IsRepeated registry rules items place →
    ∃ earlier, ¬IsRepeated registry rules items earlier
      ∧ JudgedAt registry rules items earlier place

end

section

variable {registry : Registry} {rules : RuleDecisions} {items : List LoopItem}

theorem mem_duplicates {place : ℕ} :
  place ∈ duplicates registry rules items ↔ IsRepeated registry rules items place
  := by
  simp only [duplicates, List.mem_flatMap, List.mem_map, List.mem_filter]
  constructor
  · rintro ⟨⟨a, earlier⟩, ha, ⟨b, later⟩, ⟨hlater, hjudged⟩, rfl⟩
    obtain ⟨n, hn⟩ := List.mem_iff_getElem?.mp hlater
    rw [List.getElem?_drop, List.getElem?_zipIdx, Option.map_eq_some_iff] at hn
    obtain ⟨b', hb, hentry⟩ := hn
    obtain ⟨rfl, rfl⟩ := Prod.mk.inj hentry
    rw [List.mk_mem_zipIdx_iff_getElem?] at ha
    apply Exists.intro earlier
    constructor
    · simp only
      omega
    · refine ⟨a, b', ha, ?_, hjudged⟩
      rw [← hb, Nat.zero_add]
  · rintro ⟨earlier, hlt, a, b, ha, hb, hjudged⟩
    apply Exists.intro (a, earlier)
    refine ⟨List.mk_mem_zipIdx_iff_getElem?.mpr ha, (b, place), ⟨?_, hjudged⟩, rfl⟩
    apply List.mem_of_getElem? (i := place - (earlier + 1))
    rw [List.getElem?_drop, List.getElem?_zipIdx, Nat.add_sub_cancel' hlt, hb]
    simp

/-- The items that are kept are not changed, and stand in their order. -/
theorem applyDuplicateRules_sublist :
  List.Sublist (applyDuplicateRules registry rules items) items
  := by
  have hsublist := (List.filter_sublist
    (p := fun entry => decide (entry.2 ∉ duplicates registry rules items)) (l := items.zipIdx)).map
      Prod.fst
  rwa [List.zipIdx_map_fst] at hsublist

/-- The model is asked about each pair that it may judge. -/
theorem mem_duplicateRuleStates {a b : LoopItem} {earlier later : ℕ} (hlt : earlier < later)
    (ha : items[earlier]? = some a) (hb : items[later]? = some b)
    (hjudged : judgedDuplicate registry rules a b = true) :
  duplicateState a b ∈ duplicateRuleStates items
  := by
  apply List.mem_flatMap.mpr
  apply Exists.intro (a, earlier)
  refine ⟨List.mk_mem_zipIdx_iff_getElem?.mpr ha, ?_⟩
  apply List.mem_map_of_mem
  rw [List.mem_filter]
  constructor
  · apply List.mem_of_getElem? (i := later - (earlier + 1))
    rw [List.getElem?_drop, Nat.add_sub_cancel' hlt, hb]
  · exact (Bool.and_eq_true_iff.mp hjudged).1

/-- The last copy is kept if each repetition repeats one that is none.  For the other direction: the
kept item of a pair is the earlier one, as the later one would be removed for the pair itself. -/
theorem applyDuplicateRules_keepsACopy_iff (registry : Registry) (rules : RuleDecisions)
    (items : List LoopItem) :
  List.Sublist (applyDuplicateRules registry rules items) items
    ∧ (KeepsACopy registry rules items ↔ RepeatsAFirst registry rules items)
  := by
  refine ⟨applyDuplicateRules_sublist, ?_⟩
  constructor
  · intro hkeeps place hrepeated
    obtain ⟨kept, hkept, hjudged⟩ := hkeeps place (mem_duplicates.mpr hrepeated)
    rw [mem_duplicates] at hkept
    rcases hjudged with hjudged | hjudged
    · exact ⟨kept, hkept, hjudged⟩
    · exact absurd ⟨place, hjudged⟩ hkept
  · intro hfirst removed hremoved
    obtain ⟨earlier, hnot, hjudged⟩ := hfirst removed (mem_duplicates.mp hremoved)
    apply Exists.intro earlier
    refine ⟨?_, Or.inl hjudged⟩
    rwa [mem_duplicates]

/-- Answers that take actions for one as an equivalence does keep a copy of each. -/
theorem repeatsAFirst_of_trans
    (htrans : ∀ i j k, JudgedAt registry rules items i j → JudgedAt registry rules items j k →
      JudgedAt registry rules items i k) :
  RepeatsAFirst registry rules items
  := by
  intro place
  -- The first of the items that the place repeats is no repetition.
  rintro ⟨earlier, hjudged⟩
  induction earlier using Nat.strong_induction_on with
  | _ earlier ih =>
      by_cases hrepeated : IsRepeated registry rules items earlier
      · obtain ⟨first, hfirst⟩ := hrepeated
        exact ih first hfirst.1 (htrans first earlier place hfirst hjudged)
      · exact ⟨earlier, hrepeated, hjudged⟩

end

/-! ### A chain of three actions -/

def draftItem (action : String) : LoopItem where
  action := action
  actionPhrase := action
  owner := .you
  waitingParty := "Not established"
  kind := "request"
  evidence := { message := "m0", block := 0, quote := "Send the draft.", context := "" }
  deadline := none
  deadlineKindHint := none
  event := none
  eventTime := none
  resolution := none
  resolutionKind := none
  uncertainty := ""
  unverifiedDeadline := false
  unverifiedResolution := false
  crossThread := false
  eventPassed := none
  suggestedUpdate := none
  handoffText := none
  fromCallSummary := false
  meetingTime := none
  meetingTimeApprox := false
  mentions := []

/-- A registry that accepts nine tenths, with states as the bytes of their text. -/
def draftRegistry : Registry where
  accept _ := 9 / 10
  escalate _ := 9 / 25
  toVec state := (state.print fun _ => "").map fun c => UInt8.ofNat c.toNat

def draftItems : List LoopItem :=
  [draftItem "Send the draft", draftItem "Send the draft with notes", draftItem "Send the notes"]

/-- The second action is taken for the first, and the third for the second, but not for the first. -/
def draftRules : RuleDecisions where
  answers := (duplicateRuleStates draftItems).zip [1, 0, 1] |>.map fun entry =>
    (RuleDecisions.key draftRegistry ruleDuplicateAction entry.1, some (.noul entry.2))

/-- The third item is removed, though the only one that it was taken for is removed as well. -/
theorem applyDuplicateRules_drafts :
  ¬KeepsACopy draftRegistry draftRules draftItems
  := by
  have hduplicates : duplicates draftRegistry draftRules draftItems = [1, 2] := by decide +kernel
  have hnotes : judgedDuplicate draftRegistry draftRules (draftItem "Send the draft")
      (draftItem "Send the notes") = false := by decide +kernel
  intro hkeeps
  rw [KeepsACopy, hduplicates] at hkeeps
  obtain ⟨kept, hkept, hjudged⟩ := hkeeps 2 (by decide)
  rcases hjudged with ⟨hlt, a, b, ha, hb, hjudged⟩ | ⟨hlt, a, b, ha, hb, hjudged⟩
  · have hfirst : kept = 0 := by
      simp only [List.mem_cons, List.not_mem_nil, or_false] at hkept
      omega
    subst hfirst
    obtain rfl : draftItem "Send the draft" = a := Option.some.inj ha
    obtain rfl : draftItem "Send the notes" = b := Option.some.inj hb
    rw [hnotes] at hjudged
    exact absurd hjudged (by decide)
  · have hlength := (List.getElem?_eq_some_iff.mp hb).1
    simp only [draftItems, List.length_cons, List.length_nil] at hlength
    omega

end Review
