import OpenLoops.Review.Conversations
import OpenLoops.Review.ExtractionClaims
import OpenLoops.Review.TriagePass

/-!
# Assembled conversations

The document of a conversation holds the claims of its confident paragraphs.  An answer has a
greatest number of claims, and the extraction has none, so that a conversation with many confident
paragraphs is rejected.
-/

namespace Review

open Contracts Inference

/-! ### What a claim is made of -/

section

variable (toLowercase : List Char → List Char)

/-- The handle of a participant is that of a message with an ending. -/
theorem isValidOpaqueHandle_participant {message : ConversationMessage}
    {participant : ParticipantHandle}
    (hparticipant : participant ∈ messageParticipantHandles toLowercase message)
    (hmessage : isValidOpaqueHandle message.handle)
    (hlength : participant.handle.length ≤ maximumOpaqueHandleChars) :
  isValidOpaqueHandle participant.handle
  := by
  have hdigits : ∀ n : ℕ, (toString n).toList.all isHandleCharacter = true := by
    intro n
    rw [List.all_eq_true]
    intro character hcharacter
    have hdigit := Nat.isDigit_of_mem_toDigits (b := 10) (by decide) (by decide)
      (by simpa [Nat.repr_eq_ofList_toDigits] using hcharacter)
    simp [isHandleCharacter, Char.isAlphanum, hdigit]
  have hending : ∃ ending : String, participant.handle = message.handle ++ ending
      ∧ ending.toList.all isHandleCharacter = true := by
    simp only [messageParticipantHandles, List.mem_append, List.mem_map] at hparticipant
    rcases hparticipant with (⟨sender, -, rfl⟩ | ⟨entry, -, rfl⟩) | ⟨entry, -, rfl⟩
    · use "-sender", rfl
      decide
    · use "-to-" ++ toString entry.2, String.append_assoc
      rw [String.toList_append, List.all_append, hdigits]
      decide
    · use "-cc-" ++ toString entry.2, String.append_assoc
      rw [String.toList_append, List.all_append, hdigits]
      decide
  obtain ⟨ending, hhandle, hcharacters⟩ := hending
  simp only [isValidOpaqueHandle, Bool.and_eq_true, decide_eq_true_eq] at hmessage ⊢
  refine ⟨⟨?_, hlength⟩, ?_⟩
  · rw [hhandle, String.length_append]
    have hmin := hmessage.1.1
    omega
  · rw [hhandle, String.toList_append, List.all_append, hmessage.2, hcharacters]
    rfl

variable (registry : Registry) {answers : Answers}

/-- A choice is one of the options. -/
theorem classifyChoice_some {α : Type} {id : String} {option : String → Option α} {value : α}
    {ambiguous : Bool} (h : classifyChoice registry id answers option = .ok (some value, ambiguous)) :
  ∃ choice, option choice = some value
  := by
  revert h
  fun_cases classifyChoice registry id answers option <;> grind

/-- A confident claim has a participant that was offered, and a date that was. -/
theorem classifyClaimType_confident {waitingParty : List String}
    {temporal : List TemporalCandidate} {fields : ExtractedClaimFields}
    (h : classifyClaimType registry answers waitingParty temporal = .ok (.confident fields)) :
  (∀ handle ∈ fields.waitingPartyHandle, handle ∈ waitingParty)
    ∧ ∀ value ∈ fields.temporalValue, value.length = 10
  := by
  revert h
  fun_cases classifyClaimType registry answers waitingParty temporal
  case case3 choice probabilities confidence hlookup hgray hnone =>
    intro h
    obtain ⟨claimType, -, hprobability⟩ := Except.bind_eq_ok.mp h
    dsimp only at hprobability
    split at hprobability
    case h_2 => cases hprobability
    rename_i probability hweight
    have hwaiting : (classifyWaitingParty registry answers waitingParty >>= _) = _ := hprobability
    obtain ⟨⟨party, ambiguous⟩, hparty, htemporals⟩ := Except.bind_eq_ok.mp hwaiting
    obtain ⟨⟨value, ambiguous'⟩, htemporal, hfields⟩ := Except.bind_eq_ok.mp htemporals
    cases hfields
    constructor
    · rintro handle rfl
      obtain ⟨choice, hchoice⟩ := classifyChoice_some registry hparty
      apply List.mem_of_find?_eq_some hchoice
    · rintro date rfl
      rw [classifyTemporal] at htemporal
      split_ifs at htemporal with hempty
      · cases htemporal
      · obtain ⟨choice', hchoice⟩ := classifyChoice_some registry htemporal
        obtain ⟨candidate, -, rfl⟩ := Option.map_eq_some_iff.mp hchoice
        exact candidate.value_length
  all_goals simp

end

/-! ### Outcomes of the extraction -/

/-- The answers of a pass, as far as the extraction makes something of them. -/
def PassOutcomes.extraction {jobs : ℕ} (outcomes : PassOutcomes Answers jobs)
    (toLowercase : List Char → List Char) (registry : Registry)
    (candidates : ConversationMessage → ℕ → List TemporalCandidate)
    (selected : List ReviewMessage) : PassOutcomes ExtractionAnswer jobs where
  entries := extractionOutcomes toLowercase registry candidates selected outcomes.entries
  sorted := by
    rw [extractionOutcomes, List.map_map]
    exact outcomes.sorted
  lt := by
    simp only [extractionOutcomes, List.forall_mem_map]
    exact outcomes.lt

/-- The messages have handles of their own, which may stand in a document, as may those of their
participants. -/
structure HandlesFit (toLowercase : List Char → List Char) (messages : List ReviewMessage) :
    Prop where
  nodup : (messages.map (·.input.handle)).Nodup
  valid : ∀ message ∈ messages, isValidOpaqueHandle message.input.handle
  participants : ∀ message ∈ messages,
    ∀ participant ∈ messageParticipantHandles toLowercase message.input,
      participant.handle.length ≤ maximumOpaqueHandleChars

/-- A job with a confident claim was answered so, for some message. -/
theorem extractionJob_confident (toLowercase : List Char → List Char) (registry : Registry)
    (candidates : ConversationMessage → ℕ → List TemporalCandidate) (selected : List ReviewMessage)
    {slot : ℕ} {outcome : JobOutcome Answers} {triage : ParagraphTriage}
    {fields : ExtractedClaimFields}
    (h : outcome.check (extractionJob toLowercase registry candidates selected slot)
      = .completed (.ok ⟨triage, .confident fields⟩)) :
  ∃ asked answers ordinal, classifyClaimType registry answers
    (extractionWaitingPartyCatalog toLowercase selected asked) (candidates asked.input ordinal)
      = .ok (.confident fields)
  := by
  rcases outcome with (error | answers) | - | -
  case completed.ok =>
    have hjob : extractionJob toLowercase registry candidates selected slot answers
        = .ok ⟨triage, .confident fields⟩ := JobOutcome.completed.inj h
    revert hjob
    fun_cases extractionJob toLowercase registry candidates selected slot answers
    case case1 index ordinal hslot message hmessage =>
      intro hanswer
      obtain ⟨claim, hclaim, heq⟩ := Except.bind_eq_ok.mp hanswer
      cases heq
      exact ⟨message, answers, ordinal, hclaim⟩
    all_goals simp
  all_goals cases h

theorem HandlesFit.filter {toLowercase : List Char → List Char} {messages : List ReviewMessage}
    (hfit : HandlesFit toLowercase messages) (p : ReviewMessage → Bool) :
  HandlesFit toLowercase (messages.filter p)
  := by
  constructor
  · apply List.Nodup.sublist (List.filter_sublist.map _) hfit.nodup
  · intro message hmessage
    apply hfit.valid message (List.mem_filter.mp hmessage).1
  · intro message hmessage
    apply hfit.participants message (List.mem_filter.mp hmessage).1

section

variable {toLowercase : List Char → List Char} {selected : List ReviewMessage}
  (hfit : HandlesFit toLowercase selected)

include hfit

/-- What is offered for a message are handles that may stand in a document. -/
theorem isValidOpaqueHandle_catalog {message : ReviewMessage} {handle : String}
    (hhandle : handle ∈ extractionWaitingPartyCatalog toLowercase selected message) :
  isValidOpaqueHandle handle
  := by
  obtain ⟨participant, hparticipant, rfl⟩ := List.mem_map.mp hhandle
  have hmem := List.mem_of_mem_take hparticipant
  obtain ⟨input, hinput, hof⟩ := List.mem_flatMap.mp hmem
  obtain ⟨other, hother, rfl⟩ := List.mem_map.mp hinput
  have hselected := (List.mem_filter.mp ((KeyOrder.sort_perm _ _).mem_iff.mp hother)).1
  apply isValidOpaqueHandle_participant toLowercase hof (hfit.valid other hselected)
  apply hfit.participants other hselected participant hof

variable (registry : Registry) (candidates : ConversationMessage → ℕ → List TemporalCandidate)

/-- The claims of confident paragraphs may stand in a document. -/
theorem wellFormed_confident {outcomes : JobResults Answers} {message : ReviewMessage}
    (hmessage : message ∈ selected) {claim : ParagraphClaim}
    (hclaim : claim ∈ confidentParagraphs selected
      (extractionOutcomes toLowercase registry candidates selected outcomes) message) :
  claim.WellFormed
  := by
  obtain ⟨ordinal, hordinal, hconfident⟩ := List.mem_filterMap.mp hclaim
  rw [List.mem_range] at hordinal
  revert hconfident
  fun_cases paragraphClaim
  case case2 => simp
  case case1 triage fields hlookup =>
    intro hconfident
    cases hconfident
    obtain ⟨before, after, hentries, -⟩ := List.lookup_eq_some_iff.mp hlookup
    have hentry : (paragraphSlot selected message.input.handle ordinal,
        JobOutcome.completed (.ok ⟨triage, .confident fields⟩))
          ∈ extractionOutcomes toLowercase registry candidates selected outcomes := by
      rw [hentries]
      simp
    obtain ⟨⟨slot, outcome⟩, -, heq⟩ := List.mem_map.mp hentry
    have hcheck := congrArg Prod.snd heq
    obtain ⟨asked, answers, ordinal', hclassify⟩ :=
      extractionJob_confident toLowercase registry candidates selected hcheck
    obtain ⟨hparty, htemporal⟩ := classifyClaimType_confident registry hclassify
    constructor
    · show ordinal < maxBodyBlocks
      omega
    · apply hfit.valid message hmessage
    · intro handle hhandle
      apply isValidOpaqueHandle_catalog hfit (hparty handle hhandle)
    · exact htemporal

end

/-! ### Assembling conversations -/

/-- The answers of the decision model to the paragraphs of the selected messages. -/
abbrev ExtractionRun (selected : List ReviewMessage) :=
  PassOutcomes Answers (triageJobs selected).length

section

variable {toLowercase : List Char → List Char} {messages : List ReviewMessage}
  {conversationFilter : Option (Finset ConversationKey)}
  (registry : Registry) (candidates : ConversationMessage → ℕ → List TemporalCandidate)

/-- What the extraction makes of the answers. -/
def ExtractionRun.outcome {selected : List ReviewMessage} (run : ExtractionRun selected)
    (toLowercase : List Char → List Char) : ExtractionOutcome :=
  partitionExtractionOutcomes selected
    (run.extraction toLowercase registry candidates selected).entries

/-- The claims of the confident paragraphs of a conversation, in the order of its messages. -/
def ExtractionRun.confident {selected : List ReviewMessage} (run : ExtractionRun selected)
    (toLowercase : List Char → List Char) (conversation : List ReviewMessage) :
    List ParagraphClaim :=
  conversation.flatMap (confidentParagraphs selected
    (run.extraction toLowercase registry candidates selected).entries)

/-- The claims of a conversation are those of its confident paragraphs, in their order. -/
theorem claims_of_conversation
    (hhandles : (messages.map (·.input.handle)).Nodup)
    (run : ExtractionRun (selectedMessages messages conversationFilter))
    {conversation : List ReviewMessage}
    (hconversation : conversation ∈ orderedConversations (primaryMessages messages
      conversationFilter (run.outcome registry candidates toLowercase).triage) none) :
  (run.outcome registry candidates toLowercase).claims (conversation.map (·.analysisInput))
    = (run.confident registry candidates toLowercase conversation).map (·.json)
  := by
  rw [ExtractionOutcome.claims, ExtractionRun.confident, List.flatMap_map, List.map_flatMap]
  apply List.flatMap_congr
  intro message hmessage
  have hprimary := ((mem_conversation_iff hconversation).mp hmessage).1
  rw [selectedMessages, List.mem_filter, primaryMessages, List.mem_filter] at hprimary
  obtain ⟨⟨hselected, hskipped⟩, -⟩ := hprimary
  rw [decide_eq_true_eq] at hskipped
  have hnodup : ((selectedMessages messages conversationFilter).map (·.input.handle)).Nodup :=
    List.Nodup.sublist (List.filter_sublist.map _) hhandles
  apply collectExtractions_confident hnodup _ _ hselected hskipped

/-- The claims of a conversation may stand in a document. -/
theorem wellFormed_of_conversation (hfit : HandlesFit toLowercase messages)
    (run : ExtractionRun (selectedMessages messages conversationFilter)) {triage : TriageResult}
    {conversation : List ReviewMessage}
    (hconversation : conversation ∈ orderedConversations
      (primaryMessages messages conversationFilter triage) none) :
  ∀ claim ∈ run.confident registry candidates toLowercase conversation, claim.WellFormed
  := by
  intro claim hclaim
  obtain ⟨message, hmessage, hof⟩ := List.mem_flatMap.mp hclaim
  have hprimary := ((mem_conversation_iff hconversation).mp hmessage).1
  have hmem := (List.mem_filter.mp (List.mem_filter.mp hprimary).1).1
  apply wellFormed_confident (hfit.filter _) registry candidates hmem hof

/-- The answers where a run ends, in the order of the paragraphs. -/
def PassRun.extractionRun (run : PassRun Answers) (selected : List ReviewMessage) :
    ExtractionRun selected where
  entries := (run.outcomes (triageWeights selected)).entries
  sorted := (run.outcomes (triageWeights selected)).sorted
  lt := by
    intro entry hentry
    have h := (run.outcomes (triageWeights selected)).lt entry hentry
    rw [triageWeights, List.length_replicate] at h
    exact h

theorem extractionPass_eq (run : PassRun Answers) (selected : List ReviewMessage) :
  extractionPass toLowercase registry candidates selected (run.final (triageWeights selected))
    = (run.extractionRun selected).outcome registry candidates toLowercase
  := rfl

theorem not_needsChat {extraction : ExtractionOutcome} (h : extraction.needsChatHandles = ∅)
    (conversation : List ConversationMessage) :
  ¬extraction.needsChat conversation
  := by
  simp [ExtractionOutcome.needsChat, h]

/-- A conversation whose document is not accepted fails. -/
theorem assemble_of_rejected (floatText : UInt64 → String) {fromStr : String → Option Json}
    {review : AnalysisOutput → List ConversationMessage → Except ProviderError LoopItems}
    {chat : List ConversationMessage → Except ProviderError LoopItems}
    {extraction : ExtractionOutcome} {conversation : List ConversationMessage}
    (hchat : ¬extraction.needsChat conversation) {claims : List ParagraphClaim}
    (hclaims : extraction.claims conversation = claims.map (·.json)) (hne : claims ≠ [])
    (hrejected : ∀ output,
      parseAnalysisOutput fromStr (documentBytes floatText (claims.map (·.json))) ≠ .ok output) :
  ∃ error, extractionAssembleOrEscalate floatText fromStr review chat conversation extraction
    = .error error
  := by
  have hempty : ¬(claims.map (·.json)).isEmpty := by simpa using hne
  rw [extractionAssembleOrEscalate, if_neg hchat, hclaims]
  simp only [if_neg hempty]
  rw [claimAnalysisFromDocument]
  by_cases hsize : (documentBytes floatText (claims.map (·.json))).length ≤ maxResponse
  · rw [jsonDocument_documentBytes floatText hsize]
    rcases hparse : parseAnalysisOutput fromStr (documentBytes floatText (claims.map (·.json)))
      with rejection | output
    · use parseError rejection
      simp [bind, Except.bind, hparse]
    · exact absurd hparse (hrejected output)
  · use .responseTooLarge
    rw [jsonDocument, if_pos (by omega)]
    rfl

section

variable (floatText : UInt64 → String) {fromStr : String → Option Json}
  (hfit : HandlesFit toLowercase messages) (run : PassRun Answers)
  {extraction : ExtractionOutcome}
  (hextraction : extraction = extractionPass toLowercase registry candidates
    (selectedMessages messages conversationFilter)
    (run.final (triageWeights (selectedMessages messages conversationFilter))))
  {conversation : List ReviewMessage}
  (hconversation : conversation ∈ orderedConversations
    (primaryMessages messages conversationFilter extraction.triage) none)
  {confident : List ParagraphClaim}
  (hconfident : confident
    = (run.extractionRun (selectedMessages messages conversationFilter)).confident registry
      candidates toLowercase conversation)
  (hread : fromStr (documentText floatText confident)
    = some (extractionDocument (confident.map (·.json))))

include hfit hextraction hconversation hconfident

/-- The document of a conversation has the claims of its confident paragraphs. -/
theorem claims_eq_confident :
  extraction.claims (conversation.map (·.analysisInput)) = confident.map (·.json)
  := by
  subst hextraction hconfident
  rw [extractionPass_eq] at hconversation ⊢
  apply claims_of_conversation registry candidates hfit.nodup _ hconversation

include hread

/-- It is accepted when it has no more claims than an answer may have, and none of them is empty. -/
theorem accepted_iff :
  (∃ output, parseAnalysisOutput fromStr
      (documentBytes floatText (extraction.claims (conversation.map (·.analysisInput))))
        = .ok output)
    ↔ confident.length ≤ maximumClaims ∧ ∀ claim ∈ confident, claim.length ≠ 0
  := by
  rw [claims_eq_confident registry candidates hfit run hextraction hconversation hconfident]
  have hwell : ∀ claim ∈ confident, claim.WellFormed := by
    rw [hconfident]
    apply wellFormed_of_conversation registry candidates hfit _ hconversation
  simp only [parse_documentBytes floatText hwell hread]
  simp

/-- Otherwise the conversation fails. -/
theorem assemble_fails
    (review : AnalysisOutput → List ConversationMessage → Except ProviderError LoopItems)
    (chat : List ConversationMessage → Except ProviderError LoopItems)
    (hchat : ¬extraction.needsChat (conversation.map (·.analysisInput)))
    (hnot : ¬(confident.length ≤ maximumClaims ∧ ∀ claim ∈ confident, claim.length ≠ 0)) :
  ∃ error, extractionAssembleOrEscalate floatText fromStr review chat
    (conversation.map (·.analysisInput)) extraction = .error error
  := by
  have hclaims := claims_eq_confident registry candidates hfit run hextraction hconversation
    hconfident
  have haccepted := accepted_iff registry candidates floatText hfit run hextraction hconversation
    hconfident hread
  apply assemble_of_rejected floatText hchat hclaims
  · intro hnil
    apply hnot
    simp [hnil]
  · intro output houtput
    apply hnot (haccepted.mp ⟨output, _⟩)
    rw [hclaims]
    exact houtput

/-- The document of a conversation that stays with the decision model has the claims of its
confident paragraphs, in the order of the messages and of the paragraphs, and is accepted, exactly
when there are not more of them than an answer may have and none of them is empty.  Otherwise the
conversation fails. -/
theorem extraction_assembles_iff
    (review : AnalysisOutput → List ConversationMessage → Except ProviderError LoopItems)
    (chat : List ConversationMessage → Except ProviderError LoopItems)
    (hchat : ¬extraction.needsChat (conversation.map (·.analysisInput))) :
  (extraction.claims (conversation.map (·.analysisInput)) = confident.map (·.json)
      ∧ (∃ output, parseAnalysisOutput fromStr
        (documentBytes floatText (extraction.claims (conversation.map (·.analysisInput))))
          = .ok output)
    ↔ confident.length ≤ maximumClaims ∧ ∀ claim ∈ confident, claim.length ≠ 0)
  ∧ (¬(confident.length ≤ maximumClaims ∧ ∀ claim ∈ confident, claim.length ≠ 0) →
      ∃ error, extractionAssembleOrEscalate floatText fromStr review chat
        (conversation.map (·.analysisInput)) extraction = .error error)
  := by
  have hclaims := claims_eq_confident registry candidates hfit run hextraction hconversation
    hconfident
  constructor
  · rw [and_iff_right hclaims]
    apply accepted_iff registry candidates floatText hfit run hextraction hconversation
      hconfident hread
  · apply assemble_fails registry candidates floatText hfit run hextraction hconversation
      hconfident hread review chat hchat

end

end

/-- A message with as many paragraphs, in each of which something is asked. -/
def remindersMail (handle : String) (paragraphs : ℕ) : ReviewMessage where
  provider := .microsoft
  input :=
    { handle
      message :=
        { subject := ⟨['A'], length_shortSubject⟩
          bodyBlocks := List.replicate paragraphs
            ⟨['S', 'e', 'n', 'd', ' ', 'i', 't', '.'], length_shortBlock⟩
          quoteBlocks := []
          sender := none
          «to» := []
          cc := []
          attachmentNames := []
          linkLabels := [] }
      timestamp := 0
      fromUser := false
      recipient := .«to»
      ownAddresses := []
      userDisplayName := none
      userGivenName := none
      team := false }
  source := "Inbox"
  id := handle
  account := "anna"
  conversation := "reminders"
  dateLabel := ""
  webLink := ""
  ownAddresses := []
  ownDisplayName := none
  ownGivenName := none
  otherAddresses := []
  event := none

/-- The answers to such a paragraph. -/
def requestAnswers : Answers :=
  [("triage.asks_recipient", .noul 1), (extractClaimTypeId, .choice "request" [("request", 1)] 1),
    (extractWaitingPartyId, .choice extractNone [] 1)]

/-- A conversation with more than sixty-four of them. -/
def reminders : List ReviewMessage :=
  [remindersMail "m0" 40, remindersMail "m1" 25]

/-- One worker asks about all paragraphs, one after the other. -/
def remindersRun (paragraphs : ℕ) : PassRun Answers where
  limiter := .new 1
  cancel := false
  conversationIndex := 0
  processed := 0
  turns := List.replicate (12 * paragraphs) (.worker 0 (some (.ok requestAnswers)))

/-- The extraction from the messages, when each of their paragraphs is answered. -/
def remindersExtraction (messages : List ReviewMessage) (paragraphs : ℕ) : ExtractionOutcome :=
  extractionPass id halfRegistry (fun _ _ => []) (selectedMessages messages none)
    ((remindersRun paragraphs).final (triageWeights (selectedMessages messages none)))

/-- The claims of the conversation of the messages. -/
def remindersClaims (messages : List ReviewMessage) (paragraphs : ℕ) : List ParagraphClaim :=
  ((remindersRun paragraphs).extractionRun (selectedMessages messages none)).confident halfRegistry
    (fun _ _ => []) id messages

/-- The document of the claims is read back. -/
def readReminders (claims : List ParagraphClaim) (text : String) : Option Json :=
  if text = documentText (fun _ => "0") claims then some (extractionDocument (claims.map (·.json)))
  else none

/-- Sixty-five paragraphs ask for something, and the conversation fails. -/
theorem reminders_rejected :
  let extraction := remindersExtraction reminders 65
  let claims := remindersClaims reminders 65
  HandlesFit id reminders
    ∧ reminders ∈ orderedConversations (primaryMessages reminders none extraction.triage) none
    ∧ ¬extraction.needsChat (reminders.map (·.analysisInput))
    ∧ claims.length = 65
    ∧ (¬∃ output, parseAnalysisOutput (readReminders claims) (documentBytes (fun _ => "0")
      (extraction.claims (reminders.map (·.analysisInput)))) = .ok output)
    ∧ ∃ error, extractionAssembleOrEscalate (fun _ => "0") (readReminders claims)
      (fun _ _ => .ok emptyItems) (fun _ => .ok emptyItems) (reminders.map (·.analysisInput))
        extraction = .error error
  := by
  intro extraction claims
  have hskipped : extraction.triage.skipped = ∅ := by decide +kernel
  have hhandles : extraction.needsChatHandles = ∅ := by decide +kernel
  have hlength : claims.length = 65 := by decide +kernel
  have hfit : HandlesFit id reminders := by
    constructor <;> decide
  have hconversation : reminders ∈ orderedConversations
      (primaryMessages reminders none extraction.triage) none := by
    have hprimary : primaryMessages reminders none extraction.triage = reminders := by
      rw [primaryMessages, hskipped]
      rfl
    rw [hprimary]
    apply List.mem_singleton_self
  have hchat := not_needsChat hhandles (reminders.map (·.analysisInput))
  have hread : readReminders claims (documentText (fun _ => "0") claims)
      = some (extractionDocument (claims.map (·.json))) := if_pos rfl
  have hmany : ¬(claims.length ≤ maximumClaims ∧ ∀ claim ∈ claims, claim.length ≠ 0) := by
    rw [hlength]
    rintro ⟨hle, -⟩
    exact absurd hle (by decide)
  refine ⟨hfit, hconversation, hchat, hlength, ?_, ?_⟩
  · intro haccepted
    apply hmany
    apply (accepted_iff halfRegistry (fun _ _ => []) (fun _ => "0") hfit (remindersRun 65) rfl
      hconversation rfl hread).mp haccepted
  · apply assemble_fails halfRegistry (fun _ _ => []) (fun _ => "0") hfit (remindersRun 65) rfl
      hconversation rfl hread _ _ hchat hmany

/-- With two paragraphs it does not. -/
theorem reminders_accepted :
  let messages := [remindersMail "m0" 2]
  let extraction := remindersExtraction messages 2
  let claims := remindersClaims messages 2
  extraction.claims (messages.map (·.analysisInput)) = claims.map (·.json)
    ∧ ∃ output, parseAnalysisOutput (readReminders claims) (documentBytes (fun _ => "0")
      (extraction.claims (messages.map (·.analysisInput)))) = .ok output
  := by
  intro messages extraction claims
  have hskipped : extraction.triage.skipped = ∅ := by decide +kernel
  have hhandles : extraction.needsChatHandles = ∅ := by decide +kernel
  have hlength : claims.length ≤ maximumClaims ∧ ∀ claim ∈ claims, claim.length ≠ 0 := by
    decide +kernel
  have hfit : HandlesFit id messages := by
    constructor <;> decide
  have hprimary : primaryMessages messages none extraction.triage = messages := by
    rw [primaryMessages, hskipped]
    rfl
  have hconversation : messages ∈ orderedConversations
      (primaryMessages messages none extraction.triage) none := by
    rw [hprimary]
    apply List.mem_singleton_self
  have hchat := not_needsChat hhandles (messages.map (·.analysisInput))
  have hread : readReminders claims (documentText (fun _ => "0") claims)
      = some (extractionDocument (claims.map (·.json))) := if_pos rfl
  apply (extraction_assembles_iff halfRegistry (fun _ _ => []) (fun _ => "0") hfit (remindersRun 2)
    rfl hconversation rfl hread (fun _ _ => .ok emptyItems) (fun _ => .ok emptyItems)
    hchat).1.mpr hlength

end Review
