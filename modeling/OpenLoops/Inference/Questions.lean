import OpenLoops.Inference.Projection
import OpenLoops.Library.JsonReading

/-!
# Questions

A decision model is asked questions of three kinds about a state, each under an id of its own.  The
text of a request is put together by hand.  It is the text of a document in which the names are
distinct and which tells the questions, so that they are found in it as they were issued.
-/

namespace Inference

/-- A question for a probability, for one of the options, or for a score on the levels. -/
inductive Question where
  | noul (instructions : String)
  | choice (instructions : String) (options : List (String × String))
  | score (instructions : String) (levels : List String)
deriving DecidableEq

/-- Questions in their order, by their ids. -/
structure Questions where
  items : List (String × Question)
deriving DecidableEq

/-- Fail when something is wrong. -/
def rejectIf (p : Prop) [Decidable p] (e : ProviderError) : Except ProviderError Unit :=
  if p then .error e else .ok ()

theorem rejectIf_eq_ok {p : Prop} [Decidable p] {e : ProviderError} {u : Unit} :
  rejectIf p e = .ok u ↔ ¬p
  := Except.check_eq_ok

/-- The greatest number of options of a choice. -/
def maxChoiceOptions : ℕ := 255

/-- An id has parts like handles, with points between them. -/
def validQuestionId (id : String) : Bool :=
  id ≠ "" && id.utf8ByteSize ≤ 128
    && (id.toList.splitOn '.').all fun part => validHandle (String.ofList part)

namespace Questions

def new : Questions where
  items := []

def ids (questions : Questions) : List String :=
  questions.items.map Prod.fst

def len (questions : Questions) : ℕ :=
  questions.items.length

def validateCommon (questions : Questions) (id instructions : String) :
    Except ProviderError Unit :=
  rejectIf (!validQuestionId id || instructions = "" || id ∈ questions.ids) .invalidQuestion

/-- The questions and one more. -/
def push (questions : Questions) (id : String) (question : Question) : Questions where
  items := questions.items ++ [(id, question)]

def noul (questions : Questions) (id instructions : String) : Except ProviderError Questions := do
  questions.validateCommon id instructions
  return questions.push id (.noul instructions)

def choice (questions : Questions) (id instructions : String) (options : List (String × String)) :
    Except ProviderError Questions := do
  questions.validateCommon id instructions
  rejectIf (options = [] ∨ maxChoiceOptions < options.length) .invalidQuestion
  rejectIf ((∃ option ∈ options, validHandle option.1 = false) ∨ ¬(options.map Prod.fst).Nodup)
    .invalidQuestion
  return questions.push id (.choice instructions options)

def score (questions : Questions) (id instructions : String) (levels : List String) :
    Except ProviderError Questions := do
  questions.validateCommon id instructions
  rejectIf (levels.length < 2) .invalidQuestion
  return questions.push id (.score instructions levels)

/-- The questions come from the constructors. -/
inductive Built : Questions → Prop
  | new : Built new
  | noul {questions questions' : Questions} {id instructions : String} (built : Built questions)
      (h : questions.noul id instructions = .ok questions') : Built questions'
  | choice {questions questions' : Questions} {id instructions : String}
      {options : List (String × String)} (built : Built questions)
      (h : questions.choice id instructions options = .ok questions') : Built questions'
  | score {questions questions' : Questions} {id instructions : String} {levels : List String}
      (built : Built questions) (h : questions.score id instructions levels = .ok questions') :
      Built questions'

end Questions

/-! ### Requests -/

/-- The text of a question. -/
def appendQuestion : Question → List Char
  | .noul instructions =>
      "\x7b\"type\":\"noul\",\"instructions\":".toList ++ Json.printString instructions
        ++ "\x7d".toList
  | .choice instructions options =>
      "\x7b\"type\":\"choice\",\"instructions\":".toList ++ Json.printString instructions
        ++ ",\"criteria\":\x7b".toList
        ++ [','].intercalate (options.map fun option =>
          Json.printString option.1 ++ ':' :: Json.printString option.2)
        ++ "\x7d".toList ++ "\x7d".toList
  | .score instructions levels =>
      "\x7b\"type\":\"score\",\"instructions\":".toList ++ Json.printString instructions
        ++ ",\"criteria\":[".toList ++ [','].intercalate (levels.map Json.printString)
        ++ "]".toList ++ "\x7d".toList

variable (floatText : UInt64 → String)

/-- The bytes of a request; `zdrMember` asks the provider to keep nothing. -/
def requestBody (model : String) (state : Json) (questions : Questions) (zdrMember : Bool) :
    Except ProviderError Bytes :=
  let text := "\x7b\"model\":".toList ++ Json.printString model
    ++ ",\"state\":".toList ++ Json.print floatText state
    ++ ",\"questions\":\x7b".toList
    ++ [','].intercalate (questions.items.map fun item =>
      Json.printString item.1 ++ ':' :: appendQuestion item.2)
    ++ "\x7d".toList
    ++ (if zdrMember then ",\"provider\":\x7b\"zdr\":true\x7d".toList else [])
    ++ "\x7d".toList
  let body := Wire.utf8 (String.ofList text)
  if maxRequest < body.length then .error .inputTooLarge else .ok body

/-! ### Documents of requests -/

/-- The document of a question. -/
def Question.document : Question → Json
  | .noul instructions => .object [("type", .string "noul"), ("instructions", .string instructions)]
  | .choice instructions options =>
      .object [("type", .string "choice"), ("instructions", .string instructions),
        ("criteria", .object (options.map fun option => (option.1, .string option.2)))]
  | .score instructions levels =>
      .object [("type", .string "score"), ("instructions", .string instructions),
        ("criteria", .array (levels.map .string))]

/-- The document of questions has each under its id, in their order. -/
def Questions.document (questions : Questions) : Json :=
  .object (questions.items.map fun item => (item.1, item.2.document))

/-- The document of a request. -/
def decisionDocument (model : String) (state : Json) (questions : Questions) (zdrMember : Bool) :
    Json :=
  .object ([("model", .string model), ("state", state), ("questions", questions.document)]
    ++ if zdrMember then [("provider", .object [("zdr", .bool true)])] else [])

/-! ### The text of a request -/

variable {floatText}

/-- What is written for a question is the text of its document. -/
theorem appendQuestion_eq (floatText : UInt64 → String) (question : Question) :
  appendQuestion question = Json.print floatText question.document
  := by
  have hend : "\x7d".toList = [Char.ofNat 0x7d] := by decide
  cases question with
  | noul instructions =>
      have hkind : "\x7b\"type\":\"noul\",\"instructions\":".toList = Char.ofNat 0x7b ::
          (Json.printString "type" ++ ':' :: (Json.printString "noul"
            ++ ',' :: (Json.printString "instructions" ++ [':']))) := by decide
      show "\x7b\"type\":\"noul\",\"instructions\":".toList ++ _ ++ "\x7d".toList = _
      rw [Question.document, hkind, hend, Json.print, Json.printMembers, Json.printMembers,
        Json.print, Json.print]
      simp only [List.append_assoc, List.cons_append, List.nil_append]
  | choice instructions options =>
      have hkind : "\x7b\"type\":\"choice\",\"instructions\":".toList = Char.ofNat 0x7b ::
          (Json.printString "type" ++ ':' :: (Json.printString "choice"
            ++ ',' :: (Json.printString "instructions" ++ [':']))) := by decide
      have hcriteria : ",\"criteria\":\x7b".toList =
          ',' :: (Json.printString "criteria" ++ [':', Char.ofNat 0x7b]) := by decide
      show "\x7b\"type\":\"choice\",\"instructions\":".toList ++ _ ++ ",\"criteria\":\x7b".toList ++ _
        ++ "\x7d".toList ++ "\x7d".toList = _
      rw [Question.document, hkind, hcriteria, hend, Json.print, Json.printMembers,
        Json.printMembers, Json.printMembers, Json.print, Json.print, Json.print,
        Json.printMembers_eq, List.map_map]
      simp only [List.append_assoc, List.cons_append, List.nil_append]
      rfl
  | score instructions levels =>
      have hkind : "\x7b\"type\":\"score\",\"instructions\":".toList = Char.ofNat 0x7b ::
          (Json.printString "type" ++ ':' :: (Json.printString "score"
            ++ ',' :: (Json.printString "instructions" ++ [':']))) := by decide
      have hcriteria : ",\"criteria\":[".toList =
          ',' :: (Json.printString "criteria" ++ [':', '[']) := by decide
      have hclose : "]".toList = [']'] := by decide
      show "\x7b\"type\":\"score\",\"instructions\":".toList ++ _ ++ ",\"criteria\":[".toList ++ _
        ++ "]".toList ++ "\x7d".toList = _
      rw [Question.document, hkind, hcriteria, hclose, hend, Json.print, Json.printMembers,
        Json.printMembers, Json.printMembers, Json.print, Json.print, Json.print,
        Json.printElements_eq, List.map_map]
      simp only [List.append_assoc, List.cons_append, List.nil_append]
      rfl

/-- What is written for the questions is the text of their document. -/
theorem printMembers_questions (floatText : UInt64 → String) (questions : Questions) :
  [','].intercalate (questions.items.map fun item =>
      Json.printString item.1 ++ ':' :: appendQuestion item.2)
    = Json.printMembers floatText (questions.items.map fun item => (item.1, item.2.document))
  := by
  rw [Json.printMembers_eq, List.map_map]
  congr 2
  funext item
  rw [appendQuestion_eq floatText]
  rfl

/-- A request is the text of its document, unless it is too large. -/
theorem requestBody_eq (model : String) (state : Json) (questions : Questions) (zdrMember : Bool) :
  requestBody floatText model state questions zdrMember
    = let body := Wire.utf8 (String.ofList
        (Json.print floatText (decisionDocument model state questions zdrMember)))
      if maxRequest < body.length then .error .inputTooLarge else .ok body
  := by
  have hend : "\x7d".toList = [Char.ofNat 0x7d] := by decide
  have hmodel : "\x7b\"model\":".toList = Char.ofNat 0x7b :: (Json.printString "model" ++ [':']) := by
    decide
  have hstate : ",\"state\":".toList = ',' :: (Json.printString "state" ++ [':']) := by
    decide
  have hquestions : ",\"questions\":\x7b".toList
      = ',' :: (Json.printString "questions" ++ [':', Char.ofNat 0x7b]) := by decide
  have hprovider : ",\"provider\":\x7b\"zdr\":true\x7d".toList = ',' :: (Json.printString "provider"
      ++ ':' :: Char.ofNat 0x7b :: (Json.printString "zdr" ++ ':' :: ("true".toList
        ++ [Char.ofNat 0x7d]))) := by decide
  rw [requestBody, printMembers_questions floatText, hend, hmodel, hstate,
    hquestions, hprovider]
  cases zdrMember with
  | false =>
      have hdocument : decisionDocument model state questions false
          = .object [("model", .string model), ("state", state),
            ("questions", questions.document)] := rfl
      rw [hdocument, Json.print, Json.printMembers, Json.printMembers, Json.printMembers,
        Questions.document, Json.print, Json.print, if_neg Bool.false_ne_true]
      simp only [List.append_assoc, List.cons_append, List.nil_append]
  | true =>
      have hdocument : decisionDocument model state questions true
          = .object [("model", .string model), ("state", state),
            ("questions", questions.document), ("provider", .object [("zdr", .bool true)])] := rfl
      rw [hdocument, Json.print, Json.printMembers, Json.printMembers, Json.printMembers,
        Json.printMembers, Questions.document, Json.print, Json.print, Json.print,
        Json.printMembers, Json.print, if_pos rfl]
      simp only [List.append_assoc, List.cons_append, List.nil_append]

/-! ### Questions that were built -/

/-- The options of a choice are there and differ, and a score has two levels at least. -/
def Question.Valid : Question → Prop
  | .noul instructions => instructions ≠ ""
  | .choice instructions options => instructions ≠ "" ∧ options ≠ []
      ∧ options.length ≤ maxChoiceOptions ∧ (∀ option ∈ options, validHandle option.1 = true)
      ∧ (options.map Prod.fst).Nodup
  | .score instructions levels => instructions ≠ "" ∧ 2 ≤ levels.length

/-- The questions have different ids, and are valid. -/
structure Questions.Valid (questions : Questions) : Prop where
  ids : questions.ids.Nodup
  id : ∀ item ∈ questions.items, validQuestionId item.1 = true
  question : ∀ item ∈ questions.items, item.2.Valid

namespace Questions

variable {questions questions' : Questions} {id instructions : String}

theorem validateCommon_eq_ok :
  questions.validateCommon id instructions = .ok () ↔
    validQuestionId id = true ∧ instructions ≠ "" ∧ id ∉ questions.ids
  := by
  rw [validateCommon, rejectIf_eq_ok]
  simp only [Bool.or_eq_true, Bool.not_eq_true', decide_eq_true_eq, not_or, Bool.not_eq_false]
  exact and_assoc

/-- A valid question under a new id keeps the questions valid. -/
theorem Valid.push {question : Question} (h : questions.Valid) (hid : validQuestionId id = true)
    (hnew : id ∉ questions.ids) (hquestion : question.Valid) :
  (questions.push id question).Valid
  := by
  constructor
  · rw [Questions.ids, Questions.push, List.map_append]
    apply List.Nodup.append h.ids (List.nodup_singleton id)
    intro id' hid' hmem
    obtain rfl := List.mem_singleton.mp hmem
    apply hnew hid'
  · intro item hitem
    rcases List.mem_append.mp hitem with hitem | hitem
    · exact h.id item hitem
    · rw [List.mem_singleton.mp hitem]
      exact hid
  · intro item hitem
    rcases List.mem_append.mp hitem with hitem | hitem
    · exact h.question item hitem
    · rw [List.mem_singleton.mp hitem]
      exact hquestion

/-- The constructors build valid questions only. -/
theorem Built.valid (h : questions.Built) :
  questions.Valid
  := by
  induction h with
  | new => exact ⟨List.nodup_nil, fun _ h => absurd h List.not_mem_nil,
      fun _ h => absurd h List.not_mem_nil⟩
  | noul built h ih =>
      obtain ⟨hcommon, hpush⟩ := Except.check_bind_eq_ok.mp h
      obtain ⟨hid, hinstructions, hnew⟩ := validateCommon_eq_ok.mp hcommon
      cases hpush
      exact ih.push hid hnew hinstructions
  | choice built h ih =>
      obtain ⟨hcommon, h⟩ := Except.check_bind_eq_ok.mp h
      obtain ⟨hid, hinstructions, hnew⟩ := validateCommon_eq_ok.mp hcommon
      obtain ⟨hcount, h⟩ := Except.check_bind_eq_ok.mp h
      obtain ⟨hkeys, hpush⟩ := Except.check_bind_eq_ok.mp h
      rw [rejectIf_eq_ok, not_or, not_lt] at hcount
      rw [rejectIf_eq_ok, not_or, not_not] at hkeys
      cases hpush
      apply ih.push hid hnew
      refine ⟨hinstructions, hcount.1, hcount.2, ?_, hkeys.2⟩
      intro option hoption
      apply Bool.eq_true_of_not_eq_false
      intro hhandle
      apply hkeys.1 ⟨option, hoption, hhandle⟩
  | score built h ih =>
      obtain ⟨hcommon, h⟩ := Except.check_bind_eq_ok.mp h
      obtain ⟨hid, hinstructions, hnew⟩ := validateCommon_eq_ok.mp hcommon
      obtain ⟨hcount, hpush⟩ := Except.check_bind_eq_ok.mp h
      rw [rejectIf_eq_ok, not_lt] at hcount
      cases hpush
      exact ih.push hid hnew ⟨hinstructions, hcount⟩

end Questions

/-! ### What is found in a request -/

theorem Question.document_injective :
  Function.Injective Question.document
  := by
  intro question question' h
  have hstring : Function.Injective Json.string := fun _ _ heq => Json.string.inj heq
  cases question <;> cases question' <;>
    simp only [Question.document, Json.object.injEq, List.cons.injEq, Prod.mk.injEq,
      Json.string.injEq, Json.array.injEq, true_and, and_true, reduceCtorEq, and_false,
      String.reduceEq] at h
  · rw [h]
  · rename_i instructions options instructions' options'
    obtain ⟨rfl, hoptions⟩ := h
    have hinjective : Function.Injective fun option : String × String =>
        (option.1, Json.string option.2) := by
      rintro ⟨key, description⟩ ⟨key', description'⟩ heq
      cases heq
      rfl
    rw [List.map_injective_iff.mpr hinjective hoptions]
  · obtain ⟨rfl, hlevels⟩ := h
    rw [List.map_injective_iff.mpr hstring hlevels]

/-- Questions are told by their document. -/
theorem Questions.document_injective :
  Function.Injective Questions.document
  := by
  rintro ⟨items⟩ ⟨items'⟩ h
  have hinjective : Function.Injective fun item : String × Question => (item.1, item.2.document) := by
    rintro ⟨id, question⟩ ⟨id', question'⟩ heq
    obtain ⟨hid, hquestion⟩ := Prod.mk.inj heq
    exact Prod.ext hid (Question.document_injective hquestion)
  exact congrArg Questions.mk (List.map_injective_iff.mpr hinjective (Json.object.inj h))

theorem hasDistinctNames_string (text : String) :
  (Json.string text).HasDistinctNames
  := by
  apply Json.hasDistinctNames_of_leaf
  · intro _ h
    cases h
  · intro _ h
    cases h

/-- The names in the document of a valid question are distinct. -/
theorem Question.Valid.hasDistinctNames {question : Question} (h : question.Valid) :
  question.document.HasDistinctNames
  := by
  cases question with
  | noul instructions =>
      rw [Question.document, Json.hasDistinctNames_object]
      constructor
      · exact (by decide : ["type", "instructions"].Nodup)
      · simp only [List.forall_mem_cons, hasDistinctNames_string, true_and]
        exact fun _ h => absurd h List.not_mem_nil
  | choice instructions options =>
      have hcriteria : (Json.object (options.map fun option =>
          (option.1, .string option.2))).HasDistinctNames := by
        rw [Json.hasDistinctNames_object, List.map_map]
        constructor
        · exact h.2.2.2.2
        · intro member hmember
          obtain ⟨option, -, rfl⟩ := List.mem_map.mp hmember
          apply hasDistinctNames_string
      rw [Question.document, Json.hasDistinctNames_object]
      constructor
      · exact (by decide : ["type", "instructions", "criteria"].Nodup)
      · simp only [List.forall_mem_cons, hasDistinctNames_string, hcriteria, true_and]
        exact fun _ h => absurd h List.not_mem_nil
  | score instructions levels =>
      have hcriteria : (Json.array (levels.map .string)).HasDistinctNames := by
        rw [Json.hasDistinctNames_array]
        intro d hd
        obtain ⟨level, -, rfl⟩ := List.mem_map.mp hd
        apply hasDistinctNames_string
      rw [Question.document, Json.hasDistinctNames_object]
      constructor
      · exact (by decide : ["type", "instructions", "criteria"].Nodup)
      · simp only [List.forall_mem_cons, hasDistinctNames_string, hcriteria, true_and]
        exact fun _ h => absurd h List.not_mem_nil

/-- The names in the document of valid questions are distinct. -/
theorem Questions.Valid.hasDistinctNames {questions : Questions} (h : questions.Valid) :
  questions.document.HasDistinctNames
  := by
  rw [Questions.document, Json.hasDistinctNames_object, List.map_map]
  constructor
  · exact h.ids
  · intro member hmember
    obtain ⟨item, hitem, rfl⟩ := List.mem_map.mp hmember
    exact (h.question item hitem).hasDistinctNames

section

variable {model : String} {state : Json} {questions : Questions} {zdrMember : Bool}

/-- The names in a request are distinct when those in the state are. -/
theorem hasDistinctNames_decisionDocument (hstate : state.HasDistinctNames)
    (hquestions : questions.Valid) :
  (decisionDocument model state questions zdrMember).HasDistinctNames
  := by
  have hprovider : (Json.object [("zdr", .bool true)]).HasDistinctNames := by
    rw [Json.hasDistinctNames_object]
    constructor
    · exact (by decide : ["zdr"].Nodup)
    · intro member hmember
      rw [List.mem_singleton.mp hmember]
      apply Json.hasDistinctNames_of_leaf
      · intro _ h
        cases h
      · intro _ h
        cases h
  rw [decisionDocument, Json.hasDistinctNames_object]
  cases zdrMember with
  | false =>
      constructor
      · exact (by decide : ["model", "state", "questions"].Nodup)
      · simp only [Bool.false_eq_true, if_false, List.append_nil, List.forall_mem_cons,
          hasDistinctNames_string, hstate, hquestions.hasDistinctNames, true_and]
        exact fun _ h => absurd h List.not_mem_nil
  | true =>
      constructor
      · exact (by decide : ["model", "state", "questions", "provider"].Nodup)
      · simp only [if_true, List.cons_append, List.nil_append, List.forall_mem_cons,
          hasDistinctNames_string, hstate, hquestions.hasDistinctNames, hprovider, true_and]
        exact fun _ h => absurd h List.not_mem_nil

/-- The model, the state and the questions are found in a request. -/
theorem get_decisionDocument :
  (decisionDocument model state questions zdrMember).get "model" = some (.string model)
    ∧ (decisionDocument model state questions zdrMember).get "state" = some state
    ∧ (decisionDocument model state questions zdrMember).get "questions" = some questions.document
  := by
  cases zdrMember
  · exact ⟨rfl, rfl, rfl⟩
  · exact ⟨rfl, rfl, rfl⟩

/-- There are no floats in a question. -/
theorem floatsReadBack_document {readFloat : List Char → Option UInt64} (question : Question) :
  Json.FloatsReadBack readFloat floatText question.document
  := by
  cases question with
  | noul instructions =>
      rw [Question.document, Json.floatsReadBack_object]
      simp only [List.forall_mem_cons, Json.floatsReadBack_string, true_and]
      exact fun _ h => absurd h List.not_mem_nil
  | choice instructions options =>
      have hcriteria : Json.FloatsReadBack readFloat floatText
          (.object (options.map fun option => (option.1, .string option.2))) := by
        rw [Json.floatsReadBack_object]
        intro member hmember
        obtain ⟨option, -, rfl⟩ := List.mem_map.mp hmember
        apply Json.floatsReadBack_string
      rw [Question.document, Json.floatsReadBack_object]
      simp only [List.forall_mem_cons, Json.floatsReadBack_string, hcriteria, true_and]
      exact fun _ h => absurd h List.not_mem_nil
  | score instructions levels =>
      have hcriteria : Json.FloatsReadBack readFloat floatText (.array (levels.map .string)) := by
        rw [Json.floatsReadBack_array]
        intro d hd
        obtain ⟨level, -, rfl⟩ := List.mem_map.mp hd
        apply Json.floatsReadBack_string
      rw [Question.document, Json.floatsReadBack_object]
      simp only [List.forall_mem_cons, Json.floatsReadBack_string, hcriteria, true_and]
      exact fun _ h => absurd h List.not_mem_nil

/-- The floats in a request are those in the state. -/
theorem floatsReadBack_decisionDocument {readFloat : List Char → Option UInt64}
    (h : Json.FloatsReadBack readFloat floatText state) :
  Json.FloatsReadBack readFloat floatText (decisionDocument model state questions zdrMember)
  := by
  have hquestions : Json.FloatsReadBack readFloat floatText questions.document := by
    rw [Questions.document, Json.floatsReadBack_object]
    intro member hmember
    obtain ⟨item, -, rfl⟩ := List.mem_map.mp hmember
    apply floatsReadBack_document
  have hprovider : Json.FloatsReadBack readFloat floatText (.object [("zdr", .bool true)]) := by
    rw [Json.floatsReadBack_object]
    intro member hmember
    rw [List.mem_singleton.mp hmember]
    apply Json.floatsReadBack_bool
  rw [decisionDocument, Json.floatsReadBack_object]
  intro member hmember
  rcases List.mem_append.mp hmember with hmember | hmember
  · simp only [List.mem_cons, List.not_mem_nil, or_false] at hmember
    rcases hmember with rfl | rfl | rfl
    · apply Json.floatsReadBack_string
    · exact h
    · exact hquestions
  · split_ifs at hmember
    · rw [List.mem_singleton.mp hmember]
      exact hprovider
    · exact absurd hmember List.not_mem_nil

/-- A request within the limit is read back. -/
theorem requestBody_reads {readFloat : List Char → Option UInt64}
    (hfloats : Json.FloatsReadBack readFloat floatText state)
    (hsize : (Wire.utf8 (String.ofList (Json.print floatText
      (decisionDocument model state questions zdrMember)))).length ≤ maxRequest) :
  ∃ body, requestBody floatText model state questions zdrMember = .ok body
    ∧ (Wire.ofUtf8 body).bind (fun text => Json.read readFloat text.toList)
      = some (decisionDocument model state questions zdrMember)
  := by
  refine ⟨Wire.utf8 (String.ofList (Json.print floatText
    (decisionDocument model state questions zdrMember))), ?_, ?_⟩
  · rw [requestBody_eq]
    exact if_neg hsize.not_gt
  · rw [Wire.ofUtf8_eq_some.mpr rfl, Option.bind_some, String.toList_ofList]
    exact Json.read_print (floatsReadBack_decisionDocument hfloats)

end

end Inference
