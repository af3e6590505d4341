import Mathlib.Algebra.Order.Ring.Rat
import OpenLoops.Library.Json

/-!
# Answers to rule questions

Where a rule of the scan is not sure, a decision model is asked about the state of the case.  Its
answers are kept by the id of the question and the bytes of the state.
-/

namespace Review

/-- An answer of a decision model. -/
inductive Answer where
  | noul (probability : ℚ)
  | choice (choice : String) (probabilities : List (String × ℚ)) (confidence : ℚ)
  | score (score : ℚ) (probabilities : List (String × ℚ)) (confidence : ℚ)
deriving DecidableEq

/-- The answers to the questions of a request, by their ids. -/
abbrev Answers := List (String × Answer)

/-- What the registry of questions says of a question, and how a state is written. -/
structure Registry where
  accept : String → ℚ
  escalate : String → ℚ
  toVec : Json → List UInt8

/-- The answers that there are; a question without one was put and not answered. -/
structure RuleDecisions where
  answers : List ((String × List UInt8) × Option Answer)

namespace RuleDecisions

variable (registry : Registry)

def key (id : String) (state : Json) : String × List UInt8 :=
  (id, registry.toVec state)

/-- The answer is a yes of enough weight. -/
def noul (rules : RuleDecisions) (id : String) (state : Json) : Bool :=
  match rules.answers.lookup (key registry id state) with
  | some (some (.noul probability)) => registry.accept id ≤ probability
  | _ => false

/-- The choice that is made with enough weight. -/
def choice (rules : RuleDecisions) (id : String) (state : Json) : Option String :=
  match rules.answers.lookup (key registry id state) with
  | some (some (.choice choice _ confidence)) =>
      if registry.accept id ≤ confidence then some choice else none
  | _ => none

end RuleDecisions

end Review
