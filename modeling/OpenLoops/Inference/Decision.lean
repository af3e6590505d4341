import Mathlib.Algebra.Order.Ring.Rat
import Mathlib.Data.String.Basic
import OpenLoops.Contracts.ClosedSchema
import OpenLoops.Inference.Questions
import OpenLoops.Library.Table

/-!
# Decisions

The answers of a decision model are checked against the questions that were issued.  What is taken
are the documents of the closed shape with one answer for each question, of its kind and within what
it allows; a choice is one of the options that were issued.
-/

namespace Inference

open Contracts

/-- An answer to a question. -/
inductive Answer where
  | noul (probability : ℚ)
  | choice (choice : String) (probabilities : Table String ℚ) (confidence : ℚ)
  | score (score : ℚ) (probabilities : Table String ℚ) (confidence : ℚ)

/-- The answers to questions by the ids, and the size of what the model was asked. -/
structure Answers where
  answers : Table String Answer
  inputTokens : UInt64

/-! ### Values -/

/-- The value of a finite float of 64 bits. -/
def floatValue (bits : UInt64) : ℚ :=
  let sign : ℚ := if bits.toNat < 2 ^ 63 then 1 else -1
  let exponent : ℕ := bits.toNat / 2 ^ 52 % 2 ^ 11
  let fraction : ℕ := bits.toNat % 2 ^ 52
  if exponent = 0 then sign * fraction / 2 ^ 1074
  else sign * (2 ^ 52 + fraction) * 2 ^ exponent / 2 ^ 1075

def numberValue : JsonNumber → ℚ
  | .posInt n => n.toNat
  | .negInt n _ => n.toInt
  | .float bits => floatValue bits

def asF64 : Json → Option ℚ
  | .number n => some (numberValue n)
  | _ => none

def asU64 : Json → Option UInt64
  | .number (.posInt n) => some n
  | _ => none

def asObject : Json → Option (List (String × Json))
  | .object members => some members
  | _ => none

/-- The members of an object that has none beyond the allowed ones. -/
def objectWithMembers (value : Json) (allowed : List String) :
    Except ProviderError (List (String × Json)) := do
  let object ← (asObject value).okOr .invalidResponse
  rejectIf (∃ member ∈ object, member.1 ∉ allowed) .invalidResponse
  return object

def probability (value : Option Json) : Except ProviderError ℚ :=
  ((value.bind asF64).filter fun value => 0 ≤ value ∧ value ≤ 1).okOr .invalidResponse

def probabilities (value : Option Json) : Except ProviderError (Table String ℚ) := do
  let object ← (value.bind asObject).okOr .invalidResponse
  let rows ← object.mapM fun member => do
    let value ← probability (some member.2)
    return (member.1, value)
  return Table.collect rows

/-! ### Answers -/

/-- The member with the text of the name of a kind. -/
def typeIs (object : List (String × Json)) (kind : String) : Prop :=
  (object.lookup "type").bind Json.readString = some kind

instance (object : List (String × Json)) (kind : String) : Decidable (typeIs object kind) :=
  inferInstanceAs (Decidable (_ = _))

def parseNoul (value : Json) : Except ProviderError Answer := do
  let object ← objectWithMembers value ["type", "noul"]
  rejectIf (¬typeIs object "noul") .invalidResponse
  let value ← probability (object.lookup "noul")
  return .noul value

def parseChoice (value : Json) (options : List (String × String)) :
    Except ProviderError Answer := do
  let object ← objectWithMembers value ["type", "choice", "probabilities", "confidence"]
  rejectIf (¬typeIs object "choice") .invalidResponse
  let choice ← (((object.lookup "choice").bind Json.readString).filter
    fun choice => choice ∈ options.map Prod.fst).okOr .invalidResponse
  let values ← probabilities (object.lookup "probabilities")
  rejectIf (∃ key ∈ values.keys, key ∉ options.map Prod.fst) .invalidResponse
  let confidence ← probability (object.lookup "confidence")
  return .choice choice values confidence

def parseScore (value : Json) (levelCount : ℕ) : Except ProviderError Answer := do
  let object ← objectWithMembers value ["type", "score", "probabilities", "legend", "confidence"]
  rejectIf (¬typeIs object "score" ∨ ((object.lookup "legend").bind asObject).isNone)
    .invalidResponse
  rejectIf (2 ^ 32 ≤ levelCount - 1) .invalidResponse
  let score ← (((object.lookup "score").bind asF64).filter
    fun score : ℚ => 0 ≤ score ∧ score ≤ (levelCount - 1 : ℕ)).okOr .invalidResponse
  let values ← probabilities (object.lookup "probabilities")
  let confidence ← probability (object.lookup "confidence")
  return .score score values confidence

def parseAnswer (value : Json) : Question → Except ProviderError Answer
  | .noul _ => parseNoul value
  | .choice _ options => parseChoice value options
  | .score _ levels => parseScore value levels.length

/-- The size of what the model was asked, as far as the provider tells. -/
def parseUsage : Option Json → Except ProviderError UInt64
  | none => .ok 0
  | some value =>
      (((asObject value).bind (·.lookup "input_tokens")).bind asU64).okOr .invalidResponse

/-- The label with which a model is reported is the selected one, or it goes on with a variant. -/
def selectedModelMatches (reported selected : String) : Bool :=
  selected.toList.isPrefixOf reported.toList &&
    match reported.toList.drop selected.toList.length with
    | [] => true
    | c :: rest => (c = ':' || c = '-') && rest ≠ []
        && rest.all fun c => c.isAlphanum || c = '.' || c = '-' || c = '_'

/-- The answers in a response to questions; `fromStr` is the document of a text, when it is one. -/
def parseAnswers (fromStr : String → Option Json) (bytes : Bytes) (selectedModel : String)
    (questions : Questions) : Except ProviderError Answers := do
  let value ← (parseStrictJson fromStr bytes).mapError fun _ => .invalidResponse
  let object ← objectWithMembers value
    ["model", "answers", "usage", "id", "object", "created", "provider"]
  rejectIf ((object.lookup "error").isSome ∨ ((object.lookup "model").bind Json.readString).all
    fun model => !selectedModelMatches model selectedModel) .invalidResponse
  let supplied ← ((object.lookup "answers").bind asObject).okOr .invalidResponse
  rejectIf (supplied.length ≠ questions.len) .invalidResponse
  let rows ← questions.items.mapM fun item => do
    let value ← (supplied.lookup item.1).okOr .invalidResponse
    let answer ← parseAnswer value item.2
    return (item.1, answer)
  let inputTokens ← parseUsage (object.lookup "usage")
  return { answers := Table.collect rows, inputTokens }

/-! ### What is accepted -/

/-- What may stand in the label of a model after the selected one. -/
structure IsVariant (variant : List Char) : Prop where
  ne_nil : variant ≠ []
  character : ∀ c ∈ variant, c.isAlphanum = true ∨ c ∈ ['.', '-', '_']

/-- The label is the selected one, or it goes on with a colon or a hyphen and a variant. -/
def IsLabelOf (isVariant : List Char → Prop) (selected label : String) : Prop :=
  label = selected ∨ ∃ separator variant, separator ∈ [':', '-'] ∧ isVariant variant
    ∧ label.toList = selected.toList ++ separator :: variant

def IsProbability (d : Json) (p : ℚ) : Prop :=
  ∃ n, d = .number n ∧ p = numberValue n ∧ 0 ≤ p ∧ p ≤ 1

/-- The members of the object are probabilities, and those in the table. -/
def AreProbabilities (d : Json) (values : Table String ℚ) : Prop :=
  ∃ members, d = .object members ∧ (∀ member ∈ members, ∃ p, IsProbability member.2 p)
    ∧ ∀ key p, values.get? key = some p ↔ ∃ d, (key, d) ∈ members ∧ IsProbability d p

/-- The names of the members are allowed. -/
def Closed (allowed : List String) (members : List (String × Json)) : Prop :=
  ∀ member ∈ members, member.1 ∈ allowed

/-- The document answers the question. -/
inductive Question.Answered : Question → Json → Answer → Prop
  | noul {instructions : String} {members : List (String × Json)} {d : Json} {p : ℚ}
      (hclosed : Closed ["type", "noul"] members) (htype : ("type", .string "noul") ∈ members)
      (hmember : ("noul", d) ∈ members) (hp : IsProbability d p) :
      Answered (.noul instructions) (.object members) (.noul p)
  | choice {instructions choice : String} {options : List (String × String)}
      {members : List (String × Json)} {d d' : Json} {values : Table String ℚ} {confidence : ℚ}
      (hclosed : Closed ["type", "choice", "probabilities", "confidence"] members)
      (htype : ("type", .string "choice") ∈ members)
      (hchoice : ("choice", .string choice) ∈ members) (hissued : choice ∈ options.map Prod.fst)
      (hmember : ("probabilities", d) ∈ members) (hvalues : AreProbabilities d values)
      (hkeys : ∀ key ∈ values.keys, key ∈ options.map Prod.fst)
      (hmember' : ("confidence", d') ∈ members) (hconfidence : IsProbability d' confidence) :
      Answered (.choice instructions options) (.object members) (.choice choice values confidence)
  | score {instructions : String} {levels : List String} {members legend : List (String × Json)}
      {n : JsonNumber} {d d' : Json} {values : Table String ℚ} {confidence : ℚ}
      (hclosed : Closed ["type", "score", "probabilities", "legend", "confidence"] members)
      (htype : ("type", .string "score") ∈ members)
      (hlegend : ("legend", .object legend) ∈ members) (hlevels : levels.length ≤ 2 ^ 32)
      (hscore : ("score", .number n) ∈ members)
      (hrange : 0 ≤ numberValue n ∧ numberValue n ≤ (levels.length - 1 : ℕ))
      (hmember : ("probabilities", d) ∈ members) (hvalues : AreProbabilities d values)
      (hmember' : ("confidence", d') ∈ members) (hconfidence : IsProbability d' confidence) :
      Answered (.score instructions levels) (.object members)
        (.score (numberValue n) values confidence)

/-- What the provider tells of the size of what the model was asked, or nothing. -/
def TellsUsage (members : List (String × Json)) (inputTokens : UInt64) : Prop :=
  (inputTokens = 0 ∧ ∀ d, ("usage", d) ∉ members) ∨ ∃ usage, ("usage", .object usage) ∈ members
    ∧ ("input_tokens", .number (.posInt inputTokens)) ∈ usage

/-- The document is a response of the closed shape with one answer to each question, under its
id. -/
inductive Responds (isVariant : List Char → Prop) (selected : String) (questions : Questions) :
    Json → Answers → Prop
  | intro {members supplied : List (String × Json)} {label : String} {answers : Answers}
      (hclosed :
        Closed ["model", "answers", "usage", "id", "object", "created", "provider"] members)
      (hmodel : ("model", .string label) ∈ members) (hlabel : IsLabelOf isVariant selected label)
      (hanswers : ("answers", .object supplied) ∈ members)
      (hsupplied : (supplied.map Prod.fst).Perm questions.ids)
      (hkeys : answers.answers.keys.Perm questions.ids)
      (hanswered : ∀ item ∈ questions.items, ∃ d answer, (item.1, d) ∈ supplied
        ∧ answers.answers.get? item.1 = some answer ∧ item.2.Answered d answer)
      (husage : TellsUsage members answers.inputTokens) :
      Responds isVariant selected questions (.object members) answers

/-! ### Reading values -/

theorem asObject_eq_some {d : Json} {members : List (String × Json)} :
  asObject d = some members ↔ d = .object members
  := by
  cases d <;> simp [asObject]

theorem readString_eq_some {d : Json} {text : String} :
  d.readString = some text ↔ d = .string text
  := by
  cases d <;> simp [Json.readString]

theorem objectWithMembers_eq_ok {value : Json} {allowed : List String}
    {object : List (String × Json)} :
  objectWithMembers value allowed = .ok object ↔ value = .object object ∧ Closed allowed object
  := by
  rw [objectWithMembers, Except.bind_eq_ok]
  constructor
  · rintro ⟨members, hmembers, h⟩
    obtain ⟨hclosed, ⟨⟩⟩ := Except.check_bind_eq_ok.mp h
    rw [rejectIf_eq_ok] at hclosed
    refine ⟨asObject_eq_some.mp (Option.okOr_eq_ok.mp hmembers), ?_⟩
    intro member hmember
    by_contra hallowed
    exact hclosed ⟨member, hmember, hallowed⟩
  · rintro ⟨rfl, hclosed⟩
    refine ⟨object, rfl, Except.check_bind_eq_ok.mpr ⟨?_, rfl⟩⟩
    rw [rejectIf_eq_ok]
    rintro ⟨member, hmember, hallowed⟩
    exact hallowed (hclosed member hmember)

theorem asF64_eq_some {d : Json} {value : ℚ} :
  asF64 d = some value ↔ ∃ n, d = .number n ∧ value = numberValue n
  := by
  cases d <;> simp [asF64, eq_comm]

theorem probability_eq_ok {value : Option Json} {p : ℚ} :
  probability value = .ok p ↔ ∃ d, value = some d ∧ IsProbability d p
  := by
  rw [probability, Option.okOr_eq_ok, Option.filter_eq_some_iff, Option.bind_eq_some_iff]
  constructor
  · rintro ⟨⟨d, rfl, hd⟩, hp⟩
    obtain ⟨n, rfl, rfl⟩ := asF64_eq_some.mp hd
    exact ⟨_, rfl, n, rfl, rfl, of_decide_eq_true hp⟩
  · rintro ⟨d, rfl, n, rfl, rfl, hp⟩
    exact ⟨⟨_, rfl, rfl⟩, decide_eq_true hp⟩

theorem isProbability_unique {d : Json} {p p' : ℚ} (h : IsProbability d p)
    (h' : IsProbability d p') :
  p = p'
  := by
  obtain ⟨n, rfl, rfl, -⟩ := h
  obtain ⟨n', heq, rfl, -⟩ := h'
  cases heq
  rfl

example : (probability (some (.number (.posInt 1)))).toOption = some 1
  := by decide +kernel

/-- The probabilities in an object are collected when there is nothing else in it. -/
theorem probabilities_eq_ok {value : Option Json} {values : Table String ℚ}
    (h : ∀ d, value = some d → d.HasDistinctNames) :
  probabilities value = .ok values ↔ ∃ d, value = some d ∧ AreProbabilities d values
  := by
  have hrow : ∀ {member : String × Json} {row : String × ℚ},
      (probability (some member.2) >>= fun value => pure (member.1, value)) = .ok row ↔
        row.1 = member.1 ∧ IsProbability member.2 row.2 := by
    rintro ⟨name, d⟩ ⟨name', p⟩
    rw [Except.bind_eq_ok]
    constructor
    · rintro ⟨p, hp, ⟨⟩⟩
      obtain ⟨d, ⟨⟩, hp⟩ := probability_eq_ok.mp hp
      exact ⟨rfl, hp⟩
    · rintro ⟨rfl, hp⟩
      exact ⟨p, probability_eq_ok.mpr ⟨d, rfl, hp⟩, rfl⟩
  have hcollect : ∀ {members : List (String × Json)} {values : Table String ℚ},
      (members.map Prod.fst).Nodup →
      ((∃ rows, members.mapM (fun member => probability (some member.2) >>= fun value =>
        pure (member.1, value)) = .ok rows ∧ Table.collect rows = values) ↔
        (∀ member ∈ members, ∃ p, IsProbability member.2 p)
          ∧ ∀ key p, values.get? key = some p ↔ ∃ d, (key, d) ∈ members ∧ IsProbability d p) := by
    intro members values hnodup
    rw [← Table.exists_collect_iff (r := fun _ => IsProbability)
      (fun _ _ _ _ => isProbability_unique) hnodup]
    simp only [Except.mapM_eq_ok, hrow]
  rw [probabilities, Except.bind_eq_ok]
  simp only [Option.okOr_eq_ok, Option.bind_eq_some_iff, asObject_eq_some]
  constructor
  · rintro ⟨members, ⟨d, rfl, rfl⟩, hparse⟩
    obtain ⟨rows, hrows, ⟨⟩⟩ := Except.bind_eq_ok.mp hparse
    have hnodup := (Json.hasDistinctNames_object.mp (h _ rfl)).1
    exact ⟨_, rfl, members, rfl, (hcollect hnodup).mp ⟨rows, hrows, rfl⟩⟩
  · rintro ⟨d, rfl, members, rfl, hvalues⟩
    have hnodup := (Json.hasDistinctNames_object.mp (h _ rfl)).1
    obtain ⟨rows, hrows, rfl⟩ := (hcollect hnodup).mpr hvalues
    exact ⟨members, ⟨_, rfl, rfl⟩, Except.bind_eq_ok.mpr ⟨rows, hrows, rfl⟩⟩

/-! ### Reading answers -/

section

variable {members : List (String × Json)} (h : (Json.object members).HasDistinctNames)

include h

/-- A member is looked up under its name. -/
theorem lookup_eq_some {name : String} {d : Json} :
  members.lookup name = some d ↔ (name, d) ∈ members
  := Log.lookup_eq_some_iff_mem (Json.hasDistinctNames_object.mp h).1

theorem lookup_bind_eq_some {α : Type} {name : String} {read : Json → Option α} {a : α} :
  (members.lookup name).bind read = some a ↔ ∃ d, (name, d) ∈ members ∧ read d = some a
  := by
  simp only [Option.bind_eq_some_iff, lookup_eq_some h]

theorem typeIs_iff {kind : String} :
  typeIs members kind ↔ ("type", .string kind) ∈ members
  := by
  rw [typeIs, lookup_bind_eq_some h]
  simp only [readString_eq_some, exists_eq_right]

theorem probability_lookup {name : String} {p : ℚ} :
  probability (members.lookup name) = .ok p ↔ ∃ d, (name, d) ∈ members ∧ IsProbability d p
  := by
  simp only [probability_eq_ok, lookup_eq_some h]

theorem probabilities_lookup {name : String} {values : Table String ℚ} :
  probabilities (members.lookup name) = .ok values ↔
    ∃ d, (name, d) ∈ members ∧ AreProbabilities d values
  := by
  rw [probabilities_eq_ok]
  · simp only [lookup_eq_some h]
  · intro d hd
    apply (Json.hasDistinctNames_object.mp h).2 _ ((lookup_eq_some h).mp hd)

end

/-- Exactly the answers to a question for a probability are taken. -/
theorem parseNoul_eq_ok {value : Json} {instructions : String} {answer : Answer}
    (h : value.HasDistinctNames) :
  parseNoul value = .ok answer ↔ (Question.noul instructions).Answered value answer
  := by
  rw [parseNoul, Except.bind_eq_ok]
  constructor
  · rintro ⟨members, hmembers, hparse⟩
    obtain ⟨rfl, hclosed⟩ := objectWithMembers_eq_ok.mp hmembers
    obtain ⟨htype, hparse⟩ := Except.check_bind_eq_ok.mp hparse
    obtain ⟨p, hp, ⟨⟩⟩ := Except.bind_eq_ok.mp hparse
    rw [rejectIf_eq_ok, not_not, typeIs_iff h] at htype
    obtain ⟨d, hd, hp⟩ := (probability_lookup h).mp hp
    exact .noul hclosed htype hd hp
  · rintro ⟨hclosed, htype, hd, hp⟩
    refine ⟨_, objectWithMembers_eq_ok.mpr ⟨rfl, hclosed⟩, Except.check_bind_eq_ok.mpr ⟨?_, ?_⟩⟩
    · rw [rejectIf_eq_ok, not_not, typeIs_iff h]
      exact htype
    · exact Except.bind_eq_ok.mpr ⟨_, (probability_lookup h).mpr ⟨_, hd, hp⟩, rfl⟩

/-- Exactly the answers to a question for an option are taken. -/
theorem parseChoice_eq_ok {value : Json} {instructions : String}
    {options : List (String × String)} {answer : Answer} (h : value.HasDistinctNames) :
  parseChoice value options = .ok answer ↔
    (Question.choice instructions options).Answered value answer
  := by
  rw [parseChoice, Except.bind_eq_ok]
  constructor
  · rintro ⟨members, hmembers, hparse⟩
    obtain ⟨rfl, hclosed⟩ := objectWithMembers_eq_ok.mp hmembers
    obtain ⟨htype, hparse⟩ := Except.check_bind_eq_ok.mp hparse
    obtain ⟨choice, hchoice, hparse⟩ := Except.bind_eq_ok.mp hparse
    obtain ⟨values, hvalues, hparse⟩ := Except.bind_eq_ok.mp hparse
    obtain ⟨hkeys, hparse⟩ := Except.check_bind_eq_ok.mp hparse
    obtain ⟨confidence, hconfidence, ⟨⟩⟩ := Except.bind_eq_ok.mp hparse
    rw [rejectIf_eq_ok, not_not, typeIs_iff h] at htype
    rw [Option.okOr_eq_ok, Option.filter_eq_some_iff, lookup_bind_eq_some h] at hchoice
    obtain ⟨⟨d, hmember, hd⟩, hissued⟩ := hchoice
    obtain rfl := readString_eq_some.mp hd
    obtain ⟨d', hmember', hvalues⟩ := (probabilities_lookup h).mp hvalues
    obtain ⟨d'', hmember'', hconfidence⟩ := (probability_lookup h).mp hconfidence
    rw [rejectIf_eq_ok] at hkeys
    push Not at hkeys
    exact .choice hclosed htype hmember (of_decide_eq_true hissued) hmember' hvalues hkeys hmember''
      hconfidence
  · intro hanswered
    cases hanswered with
    | choice hclosed htype hmember hissued hmember' hvalues hkeys hmember'' hconfidence =>
        refine ⟨_, objectWithMembers_eq_ok.mpr ⟨rfl, hclosed⟩, Except.check_bind_eq_ok.mpr ⟨?_, ?_⟩⟩
        · rw [rejectIf_eq_ok, not_not, typeIs_iff h]
          exact htype
        refine Except.bind_eq_ok.mpr ⟨_, ?_, Except.bind_eq_ok.mpr ⟨_, ?_,
          Except.check_bind_eq_ok.mpr ⟨?_, Except.bind_eq_ok.mpr ⟨_, ?_, rfl⟩⟩⟩⟩
        · rw [Option.okOr_eq_ok, Option.filter_eq_some_iff, lookup_bind_eq_some h]
          exact ⟨⟨_, hmember, rfl⟩, decide_eq_true hissued⟩
        · exact (probabilities_lookup h).mpr ⟨_, hmember', hvalues⟩
        · rw [rejectIf_eq_ok]
          push Not
          exact hkeys
        · exact (probability_lookup h).mpr ⟨_, hmember'', hconfidence⟩

/-- Exactly the answers to a question for a score are taken. -/
theorem parseScore_eq_ok {value : Json} {instructions : String} {levels : List String}
    {answer : Answer} (h : value.HasDistinctNames) :
  parseScore value levels.length = .ok answer ↔
    (Question.score instructions levels).Answered value answer
  := by
  have hcount : ¬2 ^ 32 ≤ levels.length - 1 ↔ levels.length ≤ 2 ^ 32 := by omega
  rw [parseScore, Except.bind_eq_ok]
  constructor
  · rintro ⟨members, hmembers, hparse⟩
    obtain ⟨rfl, hclosed⟩ := objectWithMembers_eq_ok.mp hmembers
    obtain ⟨hkind, hparse⟩ := Except.check_bind_eq_ok.mp hparse
    obtain ⟨hlevels, hparse⟩ := Except.check_bind_eq_ok.mp hparse
    obtain ⟨score, hscore, hparse⟩ := Except.bind_eq_ok.mp hparse
    obtain ⟨values, hvalues, hparse⟩ := Except.bind_eq_ok.mp hparse
    obtain ⟨confidence, hconfidence, ⟨⟩⟩ := Except.bind_eq_ok.mp hparse
    rw [rejectIf_eq_ok, not_or, not_not, typeIs_iff h, Option.isNone_iff_eq_none,
      ← ne_eq, Option.ne_none_iff_exists'] at hkind
    obtain ⟨htype, legend, hlegend⟩ := hkind
    obtain ⟨d, hlegend, hd⟩ := (lookup_bind_eq_some h).mp hlegend
    obtain rfl := asObject_eq_some.mp hd
    rw [Option.okOr_eq_ok, Option.filter_eq_some_iff, lookup_bind_eq_some h] at hscore
    obtain ⟨⟨d, hmember, hd⟩, hrange⟩ := hscore
    obtain ⟨n, rfl, rfl⟩ := asF64_eq_some.mp hd
    obtain ⟨d', hmember', hvalues⟩ := (probabilities_lookup h).mp hvalues
    obtain ⟨d'', hmember'', hconfidence⟩ := (probability_lookup h).mp hconfidence
    exact .score hclosed htype hlegend (hcount.mp (rejectIf_eq_ok.mp hlevels)) hmember
      (of_decide_eq_true hrange) hmember' hvalues hmember'' hconfidence
  · intro hanswered
    cases hanswered with
    | score hclosed htype hlegend hlevels hmember hrange hmember' hvalues hmember'' hconfidence =>
        refine ⟨_, objectWithMembers_eq_ok.mpr ⟨rfl, hclosed⟩, Except.check_bind_eq_ok.mpr ⟨?_,
          Except.check_bind_eq_ok.mpr ⟨rejectIf_eq_ok.mpr (hcount.mpr hlevels), ?_⟩⟩⟩
        · have hobject := (lookup_bind_eq_some h).mpr ⟨_, hlegend, asObject_eq_some.mpr rfl⟩
          rw [rejectIf_eq_ok, not_or, not_not, typeIs_iff h, hobject]
          exact ⟨htype, Bool.false_ne_true⟩
        refine Except.bind_eq_ok.mpr ⟨_, ?_, Except.bind_eq_ok.mpr ⟨_, ?_,
          Except.bind_eq_ok.mpr ⟨_, ?_, rfl⟩⟩⟩
        · rw [Option.okOr_eq_ok, Option.filter_eq_some_iff, lookup_bind_eq_some h]
          exact ⟨⟨_, hmember, rfl⟩, decide_eq_true hrange⟩
        · exact (probabilities_lookup h).mpr ⟨_, hmember', hvalues⟩
        · exact (probability_lookup h).mpr ⟨_, hmember'', hconfidence⟩

/-- Exactly the answers to a question are taken. -/
theorem parseAnswer_eq_ok {value : Json} {question : Question} {answer : Answer}
    (h : value.HasDistinctNames) :
  parseAnswer value question = .ok answer ↔ question.Answered value answer
  := by
  cases question with
  | noul instructions => exact parseNoul_eq_ok h
  | choice instructions options => exact parseChoice_eq_ok h
  | score instructions levels => exact parseScore_eq_ok h

/-- An answer to a question is read from its document in one way only. -/
theorem Question.Answered.unique {question : Question} {d : Json} {answer answer' : Answer}
    (hnames : d.HasDistinctNames) (h : question.Answered d answer)
    (h' : question.Answered d answer') :
  answer = answer'
  := by
  have hparse := (parseAnswer_eq_ok hnames).mpr h
  rw [(parseAnswer_eq_ok hnames).mpr h'] at hparse
  exact (Except.ok.inj hparse).symm

/-! ### Reading responses -/

theorem asU64_eq_some {d : Json} {n : UInt64} :
  asU64 d = some n ↔ d = .number (.posInt n)
  := by
  constructor
  · intro h
    rw [asU64.eq_def] at h
    split at h
    · cases h
      rfl
    · cases h
  · rintro rfl
    rfl

/-- Exactly what the provider tells of the usage is taken. -/
theorem parseUsage_eq_ok {members : List (String × Json)}
    (h : (Json.object members).HasDistinctNames) {inputTokens : UInt64} :
  parseUsage (members.lookup "usage") = .ok inputTokens ↔ TellsUsage members inputTokens
  := by
  rcases hlookup : members.lookup "usage" with _ | d
  · have hnone : ∀ d, ("usage", d) ∉ members := by
      intro d hd
      rw [(lookup_eq_some h).mpr hd] at hlookup
      cases hlookup
    rw [parseUsage, Except.ok.injEq]
    constructor
    · rintro rfl
      exact Or.inl ⟨rfl, hnone⟩
    · rintro (⟨rfl, -⟩ | ⟨usage, husage, -⟩)
      · rfl
      · exact absurd husage (hnone _)
  · have hd := (lookup_eq_some h).mp hlookup
    have hnames := (Json.hasDistinctNames_object.mp h).2 _ hd
    simp only [parseUsage, Option.okOr_eq_ok, Option.bind_eq_some_iff, asObject_eq_some,
      asU64_eq_some]
    constructor
    · rintro ⟨d', ⟨usage, rfl, hmember⟩, rfl⟩
      exact Or.inr ⟨usage, hd, (lookup_eq_some hnames).mp hmember⟩
    · rintro (⟨-, hnone⟩ | ⟨usage, husage, hmember⟩)
      · exact absurd hd (hnone d)
      · have heq := (lookup_eq_some h).mpr husage
        rw [hlookup] at heq
        obtain rfl := Option.some.inj heq
        exact ⟨_, ⟨usage, rfl, (lookup_eq_some hnames).mpr hmember⟩, rfl⟩

example : (parseUsage (some (.object [("input_tokens", .number (.posInt 12))]))).toOption = some 12
  := by decide +kernel

/-- Exactly the labels of the selected model and its variants match. -/
theorem selectedModelMatches_iff {reported selected : String} :
  selectedModelMatches reported selected = true ↔ IsLabelOf IsVariant selected reported
  := by
  have hvariant : ∀ variant : List Char, (variant ≠ [] ∧ variant.all (fun c =>
      c.isAlphanum || c = '.' || c = '-' || c = '_') = true) ↔ IsVariant variant := by
    intro variant
    have hcharacter : ∀ c : Char, (c.isAlphanum || c = '.' || c = '-' || c = '_') = true ↔
        c.isAlphanum = true ∨ c ∈ ['.', '-', '_'] := by
      intro c
      simp [or_assoc]
    rw [List.all_eq_true]
    constructor
    · rintro ⟨hne, hall⟩
      exact ⟨hne, fun c hc => (hcharacter c).mp (hall c hc)⟩
    · rintro ⟨hne, hall⟩
      exact ⟨hne, fun c hc => (hcharacter c).mpr (hall c hc)⟩
  rw [selectedModelMatches, Bool.and_eq_true, List.isPrefixOf_iff_prefix]
  constructor
  · rintro ⟨⟨suffix, hsuffix⟩, hmatches⟩
    rw [← hsuffix, List.drop_left] at hmatches
    cases suffix with
    | nil =>
        rw [List.append_nil] at hsuffix
        exact Or.inl (String.toList_inj.mp hsuffix).symm
    | cons separator variant =>
        simp only [Bool.and_eq_true, Bool.or_eq_true, decide_eq_true_eq] at hmatches
        refine Or.inr ⟨separator, variant, ?_, (hvariant variant).mp ⟨hmatches.1.2, ?_⟩,
          hsuffix.symm⟩
        · simpa using hmatches.1.1
        · exact hmatches.2
  · rintro (rfl | ⟨separator, variant, hseparator, hv, hlabel⟩)
    · exact ⟨List.prefix_refl _, by rw [List.drop_length]⟩
    · refine ⟨⟨separator :: variant, hlabel.symm⟩, ?_⟩
      obtain ⟨hne, hall⟩ := (hvariant variant).mpr hv
      rw [hlabel, List.drop_left]
      simp only [Bool.and_eq_true, Bool.or_eq_true, decide_eq_true_eq]
      exact ⟨⟨by simpa using hseparator, hne⟩, hall⟩

example : selectedModelMatches "gpt-5-mini" "gpt-5" = true ∧ selectedModelMatches "gpt-50" "gpt-5" = false
  := by decide +kernel

/-- The answers are collected when there is one to each question, and nothing else is answered. -/
theorem collect_answers_iff {questions : Questions} (hquestions : questions.ids.Nodup)
    {supplied : List (String × Json)} (h : (Json.object supplied).HasDistinctNames)
    {answers : Table String Answer} :
  (supplied.length = questions.len ∧ ∃ rows,
      questions.items.mapM (fun item => (supplied.lookup item.1).okOr .invalidResponse >>= fun value =>
        parseAnswer value item.2 >>= fun answer => pure (item.1, answer)) = .ok rows
      ∧ Table.collect rows = answers)
    ↔ (supplied.map Prod.fst).Perm questions.ids ∧ answers.keys.Perm questions.ids
      ∧ ∀ item ∈ questions.items, ∃ d answer, (item.1, d) ∈ supplied
        ∧ answers.get? item.1 = some answer ∧ item.2.Answered d answer
  := by
  -- An id and its question have the answer when the document under the id answers it.
  let r (id : String) (question : Question) (answer : Answer) : Prop :=
    ∃ d, (id, d) ∈ supplied ∧ question.Answered d answer
  have hnames := Json.hasDistinctNames_object.mp h
  have hr : ∀ id question answer answer', r id question answer → r id question answer' →
      answer = answer' := by
    rintro id question answer answer' ⟨d, hd, hanswer⟩ ⟨d', hd', hanswer'⟩
    rw [← lookup_eq_some h] at hd hd'
    rw [hd] at hd'
    obtain rfl := Option.some.inj hd'
    exact hanswer.unique (hnames.2 _ ((lookup_eq_some h).mp hd)) hanswer'
  have hrow : ∀ {item : String × Question} {row : String × Answer},
      ((supplied.lookup item.1).okOr .invalidResponse >>= fun value =>
        parseAnswer value item.2 >>= fun answer => pure (item.1, answer)) = .ok row ↔
        row.1 = item.1 ∧ r item.1 item.2 row.2 := by
    rintro ⟨id, question⟩ ⟨id', answer⟩
    rw [Except.bind_eq_ok]
    constructor
    · rintro ⟨d, hd, hparse⟩
      obtain ⟨answer, hanswer, ⟨⟩⟩ := Except.bind_eq_ok.mp hparse
      have hmember := (lookup_eq_some h).mp (Option.okOr_eq_ok.mp hd)
      exact ⟨rfl, d, hmember, (parseAnswer_eq_ok (hnames.2 _ hmember)).mp hanswer⟩
    · rintro ⟨rfl, d, hmember, hanswer⟩
      exact ⟨d, Option.okOr_eq_ok.mpr ((lookup_eq_some h).mpr hmember),
        Except.bind_eq_ok.mpr ⟨answer, (parseAnswer_eq_ok (hnames.2 _ hmember)).mpr hanswer, rfl⟩⟩
  have hcollect := Table.exists_collect_iff hr hquestions (t := answers)
  simp only [Except.mapM_eq_ok, hrow]
  rw [hcollect]
  constructor
  · rintro ⟨hlength, htotal, hget⟩
    have hsubset : questions.ids ⊆ supplied.map Prod.fst := by
      intro id hid
      obtain ⟨item, hitem, rfl⟩ := List.mem_map.mp hid
      obtain ⟨answer, d, hmember, -⟩ := htotal item hitem
      exact List.mem_map_of_mem hmember
    have hlengths : (supplied.map Prod.fst).length ≤ questions.ids.length := by
      rw [List.length_map, hlength, Questions.ids, List.length_map, Questions.len]
    refine ⟨((List.subperm_of_subset hquestions hsubset).perm_of_length_le hlengths).symm, ?_, ?_⟩
    · rw [List.perm_ext_iff_of_nodup answers.nodup_keys hquestions]
      intro id
      rw [Table.mem_keys]
      constructor
      · rintro ⟨answer, hanswer⟩
        obtain ⟨question, hitem, -⟩ := (hget id answer).mp hanswer
        exact List.mem_map_of_mem hitem
      · intro hid
        obtain ⟨item, hitem, rfl⟩ := List.mem_map.mp hid
        obtain ⟨answer, hanswer⟩ := htotal item hitem
        exact ⟨answer, (hget item.1 answer).mpr ⟨item.2, hitem, hanswer⟩⟩
    · intro item hitem
      obtain ⟨answer, hanswer⟩ := htotal item hitem
      have hfound := (hget item.1 answer).mpr ⟨item.2, hitem, hanswer⟩
      obtain ⟨d, hmember, hanswered⟩ := hanswer
      exact ⟨d, answer, hmember, hfound, hanswered⟩
  · rintro ⟨hsupplied, hkeys, hanswered⟩
    have hlength : supplied.length = questions.len := by
      have hlengths := hsupplied.length_eq
      rw [List.length_map, Questions.ids, List.length_map] at hlengths
      exact hlengths
    refine ⟨hlength, ?_, ?_⟩
    · intro item hitem
      obtain ⟨d, answer, hmember, -, hanswer⟩ := hanswered item hitem
      exact ⟨answer, d, hmember, hanswer⟩
    · intro id answer
      constructor
      · intro hfound
        have hid := hkeys.subset (Table.mem_keys.mpr ⟨answer, hfound⟩)
        obtain ⟨item, hitem, rfl⟩ := List.mem_map.mp hid
        obtain ⟨d, answer', hmember, hfound', hanswer⟩ := hanswered item hitem
        rw [hfound] at hfound'
        obtain rfl := Option.some.inj hfound'
        exact ⟨item.2, hitem, d, hmember, hanswer⟩
      · rintro ⟨question, hitem, hanswer⟩
        obtain ⟨d, answer', hmember, hfound, hanswer'⟩ := hanswered (id, question) hitem
        rw [hr id question answer answer' hanswer ⟨d, hmember, hanswer'⟩]
        exact hfound

/-- A response is refused for its model only: no member for an error is allowed in it. -/
theorem model_accepted_iff {members : List (String × Json)} {selected : String}
    (h : (Json.object members).HasDistinctNames)
    (hclosed :
      Closed ["model", "answers", "usage", "id", "object", "created", "provider"] members) :
  ¬((members.lookup "error").isSome ∨ ((members.lookup "model").bind Json.readString).all
      fun model => !selectedModelMatches model selected)
    ↔ ∃ label, ("model", .string label) ∈ members ∧ IsLabelOf IsVariant selected label
  := by
  have hnone : members.lookup "error" = none := by
    rcases hlookup : members.lookup "error" with _ | d
    · rfl
    · have hallowed := hclosed _ ((lookup_eq_some h).mp hlookup)
      exact absurd hallowed (by simp)
  have hmember : ∀ label, ((members.lookup "model").bind Json.readString) = some label ↔
      ("model", .string label) ∈ members := by
    intro label
    rw [lookup_bind_eq_some h]
    simp only [readString_eq_some, exists_eq_right]
  simp only [hnone, Option.isSome_none, Bool.false_eq_true, false_or, ← hmember,
    ← selectedModelMatches_iff]
  rcases (members.lookup "model").bind Json.readString with _ | label
  · simp
  · simp

/-- Exactly the responses to the questions are taken, with what is answered in them. -/
theorem parseAnswers_eq_ok {fromStr : String → Option Json} {bytes : Bytes} {selected : String}
    {questions : Questions} (hquestions : questions.Valid) {answers : Answers} :
  parseAnswers fromStr bytes selected questions = .ok answers ↔
    ∃ d, documentOf fromStr bytes = some d ∧ d.HasDistinctNames
      ∧ Responds IsVariant selected questions d answers
  := by
  obtain ⟨table, inputTokens⟩ := answers
  rw [parseAnswers, Except.bind_eq_ok]
  constructor
  · rintro ⟨d, hd, hresponse⟩
    obtain ⟨hdocument, hnames⟩ := parseStrictJson_eq_ok.mp (Except.mapError_eq_ok.mp hd)
    obtain ⟨members, hmembers, hparse⟩ := Except.bind_eq_ok.mp hresponse
    obtain ⟨rfl, hclosed⟩ := objectWithMembers_eq_ok.mp hmembers
    obtain ⟨hmodel, hparse⟩ := Except.check_bind_eq_ok.mp hparse
    obtain ⟨supplied, hsupplied, hparse⟩ := Except.bind_eq_ok.mp hparse
    obtain ⟨hlength, hparse⟩ := Except.check_bind_eq_ok.mp hparse
    obtain ⟨rows, hrows, hparse⟩ := Except.bind_eq_ok.mp hparse
    obtain ⟨tokens, husage, ⟨⟩⟩ := Except.bind_eq_ok.mp hparse
    obtain ⟨label, hmember, hlabel⟩ :=
      (model_accepted_iff hnames hclosed).mp (rejectIf_eq_ok.mp hmodel)
    obtain ⟨d, hanswers, hd⟩ := (lookup_bind_eq_some hnames).mp (Option.okOr_eq_ok.mp hsupplied)
    obtain rfl := asObject_eq_some.mp hd
    rw [rejectIf_eq_ok, not_not] at hlength
    obtain ⟨hids, hkeys, hanswered⟩ := (collect_answers_iff hquestions.ids
      ((Json.hasDistinctNames_object.mp hnames).2 _ hanswers)).mp ⟨hlength, rows, hrows, rfl⟩
    exact ⟨_, hdocument, hnames, .intro hclosed hmember hlabel hanswers hids hkeys hanswered
      ((parseUsage_eq_ok hnames).mp husage)⟩
  · rintro ⟨d, hdocument, hnames, hresponds⟩
    cases hresponds with
    | @intro members supplied label _ hclosed hmember hlabel hanswers hids hkeys hanswered
        husage =>
      obtain ⟨hlength, rows, hrows, rfl⟩ := (collect_answers_iff hquestions.ids
        ((Json.hasDistinctNames_object.mp hnames).2 _ hanswers)).mpr ⟨hids, hkeys, hanswered⟩
      have hsupplied : ((members.lookup "answers").bind asObject).okOr .invalidResponse
          = (.ok supplied : Except ProviderError _) :=
        Option.okOr_eq_ok.mpr ((lookup_bind_eq_some hnames).mpr
          ⟨_, hanswers, asObject_eq_some.mpr rfl⟩)
      refine ⟨_, Except.mapError_eq_ok.mpr (parseStrictJson_eq_ok.mpr ⟨hdocument, hnames⟩),
        Except.bind_eq_ok.mpr ⟨members, objectWithMembers_eq_ok.mpr ⟨rfl, hclosed⟩,
        Except.check_bind_eq_ok.mpr ⟨rejectIf_eq_ok.mpr ((model_accepted_iff hnames hclosed).mpr
          ⟨label, hmember, hlabel⟩), Except.bind_eq_ok.mpr ⟨supplied, hsupplied,
        Except.check_bind_eq_ok.mpr ⟨?_, Except.bind_eq_ok.mpr ⟨rows, hrows,
        Except.bind_eq_ok.mpr ⟨inputTokens, (parseUsage_eq_ok hnames).mpr husage, rfl⟩⟩⟩⟩⟩⟩⟩
      rw [rejectIf_eq_ok, not_not]
      exact hlength

/-! ### Questions that are put and answered -/

variable {fromStr : String → Option Json} {readFloat : List Char → Option UInt64}
  {floatText : UInt64 → String} {questions : Questions}

/-- Exactly the responses to questions that were built are taken, with what is answered in them; and
a request within the limit is read as a document, in which the model, the state and exactly these
questions are found. -/
theorem decisions_exact (h : questions.Built) :
  (∀ selected bytes answers, parseAnswers fromStr bytes selected questions = .ok answers ↔
    ∃ d, documentOf fromStr bytes = some d ∧ d.HasDistinctNames
      ∧ Responds IsVariant selected questions d answers)
  ∧ ∀ model state zdrMember, Json.FloatsReadBack readFloat floatText state →
    (Wire.utf8 (String.ofList (Json.print floatText
      (decisionDocument model state questions zdrMember)))).length ≤ maxRequest →
    ∃ body d, requestBody floatText model state questions zdrMember = .ok body
      ∧ (Wire.ofUtf8 body).bind (fun text => Json.read readFloat text.toList) = some d
      ∧ (state.HasDistinctNames → d.HasDistinctNames)
      ∧ d.get "model" = some (.string model) ∧ d.get "state" = some state
      ∧ ∀ issued : Questions, d.get "questions" = some issued.document ↔ issued = questions
  := by
  constructor
  · intro selected bytes answers
    exact parseAnswers_eq_ok h.valid
  · intro model state zdrMember hfloats hsize
    obtain ⟨body, hbody, hread⟩ := requestBody_reads hfloats hsize
    obtain ⟨hmodel, hstate, hquestions⟩ := @get_decisionDocument model state questions zdrMember
    refine ⟨body, _, hbody, hread, ?_, hmodel, hstate, ?_⟩
    · intro hnames
      exact hasDistinctNames_decisionDocument hnames h.valid
    · intro issued
      rw [hquestions, Option.some.injEq, Questions.document_injective.eq_iff, eq_comm]

/-- A question for a probability, and one for an option. -/
def sampleQuestions : Questions where
  items := [("check.kind", .noul "Is it?"),
    ("person", .choice "Who?" [("p0", "the first"), ("none", "nobody")])]

theorem sampleQuestions_built :
  sampleQuestions.Built
  := by
  have hfirst := @Questions.Built.noul Questions.new ⟨[("check.kind", .noul "Is it?")]⟩
    "check.kind" "Is it?" .new (by decide)
  exact @Questions.Built.choice _ sampleQuestions "person" "Who?"
    [("p0", "the first"), ("none", "nobody")] hfirst (by decide)

/-- How a half is read and written. -/
def sampleReadFloat (text : List Char) : Option UInt64 :=
  if text = "0.5".toList then some 0x3fe0000000000000 else none

def sampleFloatText (_ : UInt64) : String :=
  "0.5"

def sampleState : Json :=
  .object [("kind", .string "ask"), ("weight", .number (.float 0x3fe0000000000000))]

theorem floatsReadBack_sampleState :
  Json.FloatsReadBack sampleReadFloat sampleFloatText sampleState
  := by
  have hhalf : Json.IsFloatText sampleReadFloat 0x3fe0000000000000 "0.5".toList := by
    constructor
    · exact ⟨'0', _, rfl, by decide⟩
    · decide
    · exact ⟨'.', by decide, by decide, by decide⟩
    · decide
  rw [sampleState, Json.floatsReadBack_object]
  simp only [List.forall_mem_cons, Json.floatsReadBack_string, true_and]
  refine ⟨?_, fun _ h => absurd h List.not_mem_nil⟩
  intro bits hbits
  cases hbits
  exact hhalf

/-- A response to the questions, of a variant of the model. -/
def sampleResponse (label : String) : Json :=
  .object [("model", .string label), ("answers", .object [
    ("person", .object [("type", .string "choice"), ("choice", .string "p0"),
      ("probabilities", .object [("p0", .number (.posInt 1))]),
      ("confidence", .number (.float 0x3fe0000000000000))]),
    ("check.kind", .object [("type", .string "noul"), ("noul", .number (.posInt 1))])])]

/-- The bytes of a response. -/
def sampleBytes (label : String) : Bytes :=
  Wire.utf8 (String.ofList (Json.print sampleFloatText (sampleResponse label)))

/-- The document of a text. -/
def sampleFromStr (text : String) : Option Json :=
  Json.read sampleReadFloat text.toList

/-- The answers in the response. -/
def sampleAnswers : Answers where
  answers := Table.collect [("check.kind", .noul 1),
    ("person", .choice "p0" (Table.collect [("p0", 1)]) (1 / 2))]
  inputTokens := 0

theorem documentOf_sampleBytes {label : String}
    (hsize : (sampleBytes label).length ≤ maximumResponseBytes) :
  documentOf sampleFromStr (sampleBytes label) = some (sampleResponse label)
  := by
  have hhalf : Json.FloatsReadBack sampleReadFloat sampleFloatText
      (.number (.float 0x3fe0000000000000)) := by
    intro bits hbits
    apply floatsReadBack_sampleState bits
    exact .object (List.mem_cons_of_mem _ List.mem_cons_self) hbits
  have hone : Json.FloatsReadBack sampleReadFloat sampleFloatText (.number (.posInt 1)) := by
    intro bits hbits
    cases hbits
  have hfloats : Json.FloatsReadBack sampleReadFloat sampleFloatText (sampleResponse label) := by
    simp only [sampleResponse, Json.floatsReadBack_object, List.forall_mem_cons,
      Json.floatsReadBack_string, hhalf, hone, List.not_mem_nil, false_implies, implies_true,
      and_true]
  rw [documentOf, if_pos hsize, sampleBytes, Wire.ofUtf8_eq_some.mpr rfl, Option.bind_some,
    sampleFromStr, String.toList_ofList]
  exact Json.read_print hfloats

theorem responds_sampleResponse {isVariant : List Char → Prop} {label : String}
    (hlabel : IsLabelOf isVariant "jev" label) :
  Responds isVariant "jev" sampleQuestions (sampleResponse label) sampleAnswers
  := by
  have hone : IsProbability (.number (.posInt 1)) 1 := ⟨_, rfl, rfl, by decide, by decide⟩
  have hhalf : IsProbability (.number (.float 0x3fe0000000000000)) (1 / 2) :=
    ⟨_, rfl, by decide +kernel, by decide +kernel, by decide +kernel⟩
  have hvalues : AreProbabilities (.object [("p0", .number (.posInt 1))])
      (Table.collect [("p0", 1)]) := by
    have hnodup : ([("p0", Json.number (.posInt 1))].map Prod.fst).Nodup :=
      List.nodup_singleton "p0"
    have hrows := (Table.exists_collect_iff (r := fun _ : String => IsProbability)
      (fun _ _ _ _ => isProbability_unique) hnodup).mp
      ⟨[("p0", (1 : ℚ))], .cons ⟨rfl, hone⟩ .nil, rfl⟩
    exact ⟨_, rfl, hrows⟩
  have hkeys : (Table.collect [("p0", (1 : ℚ))]).keys = ["p0"] := rfl
  apply @Responds.intro isVariant "jev" sampleQuestions _ _ label sampleAnswers
  · simp [Closed]
  · exact List.mem_cons_self
  · exact hlabel
  · exact List.mem_cons_of_mem _ List.mem_cons_self
  · exact List.Perm.swap _ _ _
  · exact List.Perm.refl _
  · have hnoul : (Question.noul "Is it?").Answered
        (.object [("type", .string "noul"), ("noul", .number (.posInt 1))]) (.noul 1) := by
      apply Question.Answered.noul _ _ _ hone
      · simp [Closed]
      · exact List.mem_cons_self
      · exact List.mem_cons_of_mem _ List.mem_cons_self
    simp only [sampleQuestions, List.forall_mem_cons]
    refine ⟨⟨_, _, List.mem_cons_of_mem _ List.mem_cons_self, rfl, hnoul⟩,
      ⟨_, _, List.mem_cons_self, rfl, ?_⟩, fun _ h => absurd h List.not_mem_nil⟩
    refine @Question.Answered.choice "Who?" "p0" _ _ (.object [("p0", .number (.posInt 1))])
      (.number (.float 0x3fe0000000000000)) _ (1 / 2) ?_ ?_ ?_ ?_ ?_ hvalues ?_ ?_ hhalf
    · simp [Closed]
    · simp
    · simp
    · simp
    · simp
    · rw [hkeys]
      simp
    · simp
  · exact Or.inl ⟨rfl, fun d hd => by simp at hd⟩

/-- The response of a dated build is taken, and the request is read back. -/
theorem decisions_exact_sample :
  parseAnswers sampleFromStr (sampleBytes "jev-20260917") "jev" sampleQuestions = .ok sampleAnswers
  ∧ ∃ body d, requestBody sampleFloatText "jev" sampleState sampleQuestions true = .ok body
      ∧ (Wire.ofUtf8 body).bind (fun text => Json.read sampleReadFloat text.toList) = some d
      ∧ (sampleState.HasDistinctNames → d.HasDistinctNames)
      ∧ d.get "model" = some (.string "jev") ∧ d.get "state" = some sampleState
      ∧ ∀ issued : Questions, d.get "questions" = some issued.document ↔ issued = sampleQuestions
  := by
  obtain ⟨hparse, hrequest⟩ := @decisions_exact sampleFromStr sampleReadFloat sampleFloatText
    sampleQuestions sampleQuestions_built
  constructor
  · refine (hparse _ _ _).mpr ⟨_, documentOf_sampleBytes (by decide +kernel),
      (strictJson_iff _).mp (by decide), responds_sampleResponse (Or.inr ?_)⟩
    exact ⟨'-', "20260917".toList, by decide, ⟨by decide, by decide⟩, by decide⟩
  · exact hrequest "jev" sampleState true floatsReadBack_sampleState (by decide +kernel)

/-- A response is refused when the variant has a letter beyond ASCII. -/
theorem decisions_exact_variant :
  (∃ d, documentOf sampleFromStr (sampleBytes "jev:é") = some d ∧ d.HasDistinctNames
    ∧ Responds (fun variant => variant ≠ []) "jev" sampleQuestions d sampleAnswers)
  ∧ ∀ answers, parseAnswers sampleFromStr (sampleBytes "jev:é") "jev" sampleQuestions ≠ .ok answers
  := by
  have hdocument : documentOf sampleFromStr (sampleBytes "jev:é") = some (sampleResponse "jev:é") :=
    documentOf_sampleBytes (by decide +kernel)
  constructor
  · refine ⟨_, hdocument, (strictJson_iff _).mp (by decide),
      responds_sampleResponse (Or.inr ?_)⟩
    exact ⟨':', "é".toList, by decide, by decide, by decide⟩
  · intro answers hparse
    obtain ⟨d, hd, -, hresponds⟩ := (parseAnswers_eq_ok sampleQuestions_built.valid).mp hparse
    rw [hdocument] at hd
    obtain rfl := Option.some.inj hd
    cases hresponds with
    | intro hclosed hmodel hlabel =>
        obtain rfl : _ = "jev:é" := by simpa [sampleResponse] using hmodel
        exact absurd (selectedModelMatches_iff.mpr hlabel) (by decide)

end Inference
