import Mathlib.Data.List.Sort
import OpenLoops.Review.Item
import OpenLoops.Review.Rules

/-!
# The closure walk

An obligation is followed through the messages that come after it.  Each of them is cut into
paragraphs, which are asked about one by one and together, and the answers make a verdict: the message
does not bear on the obligation, it is not clear what it says, or it has effects on the obligation.
-/

namespace Review

namespace ClosureWalk

/-! ### Questions -/

def gate : String :=
  "walk.responds"

def wpReceived : String :=
  "walk.wp_received"

def wpNoLongerNeeded : String :=
  "walk.wp_no_longer_needed"

def wpAsksAgain : String :=
  "walk.wp_asks_again"

def wpChangesTerms : String :=
  "walk.wp_changes_terms"

def wpStillOwed : String :=
  "walk.wp_still_owed"

def wpChangesDue : String :=
  "walk.wp_changes_due"

def userDelivers : String :=
  "walk.user_delivers"

def userPromises : String :=
  "walk.user_promises"

def userDeclines : String :=
  "walk.user_declines"

def userHandsOff : String :=
  "walk.user_hands_off"

def thirdPartyDone : String :=
  "walk.third_party_done"

def waitingPartyIds : List String :=
  [wpReceived, wpNoLongerNeeded, wpAsksAgain, wpChangesTerms, wpStillOwed, wpChangesDue]

def userIds : List String :=
  [userDelivers, userPromises, userDeclines, userHandsOff]

def thirdPartyIds : List String :=
  [thirdPartyDone]

/-- Who has written the later message. -/
inductive AuthorRole where
  | waitingParty
  | user
  | thirdParty
deriving DecidableEq

def AuthorRole.branchIds : AuthorRole → List String
  | .waitingParty => waitingPartyIds
  | .user => userIds
  | .thirdParty => thirdPartyIds

/-! ### Answers -/

inductive Band where
  | accept
  | gray
  | reject
deriving DecidableEq

def band (registry : Registry) (id : String) (probability : ℚ) : Band :=
  if registry.accept id ≤ probability then .accept
  else if registry.escalate id ≤ probability then .gray
  else .reject

/-- What is asked about: a paragraph, or the whole message. -/
inductive UnitKind where
  | paragraph
  | message
deriving DecidableEq

/-- The answers about a unit: the probabilities of the questions that are put for the role of the
author. -/
structure UnitAnswers where
  ordinal : ℕ
  unit : UnitKind
  probabilities : String → ℚ

/-- The probability that is given for a question, if it is answered by one. -/
def noulProbability (answers : Answers) (id : String) : Option ℚ :=
  match answers.lookup id with
  | some (.noul probability) => some probability
  | _ => none

/-- The answers about a unit are taken only if each question is answered by a probability. -/
def unitAnswers (ordinal : ℕ) (unit : UnitKind) (role : AuthorRole) (answers : Answers) :
    Option UnitAnswers :=
  if (gate :: role.branchIds).all fun id => (noulProbability answers id).isSome then
    some { ordinal, unit, probabilities := fun id => (noulProbability answers id).getD 0 }
  else none

/-- The probabilities that a verdict reads are those that were answered. -/
theorem probabilities_of_unitAnswers {ordinal : ℕ} {kind : UnitKind} {role : AuthorRole}
    {answers : Answers} {unit : UnitAnswers} (h : unitAnswers ordinal kind role answers = some unit)
    {id : String} (hid : id ∈ gate :: role.branchIds) :
  noulProbability answers id = some (unit.probabilities id)
  := by
  rw [unitAnswers] at h
  split_ifs at h with hall
  cases h
  obtain ⟨probability, hprobability⟩ := Option.isSome_iff_exists.mp (List.all_eq_true.mp hall id hid)
  simp only [hprobability, Option.getD_some]

/-! ### Effects -/

inductive DateSource where
  | waitingParty
  | user
deriving DecidableEq

inductive Effect where
  /-- The waiting party has confirmed or withdrawn: the obligation is closed. -/
  | close (kind : ResolutionKind) (ordinal : ℕ)
  /-- The user's own reply, or a message of a third party: the user is asked. -/
  | suggest (kind : SuggestedUpdateKind) (ordinal : ℕ) (unit : UnitKind) (probability : ℚ)
  | askedAgain (ordinal : ℕ)
  | amended (ordinal : ℕ) (unit : UnitKind)
  | newDate (source : DateSource) (ordinal : ℕ) (unit : UnitKind) (probability : ℚ)
deriving DecidableEq

namespace Effect

def isTerminal : Effect → Bool
  | close _ _ => true
  | suggest _ _ _ _ => true
  | _ => false

def sameOutcome : Effect → Effect → Bool
  | close a _, close b _ => a = b
  | suggest a _ _ _, suggest b _ _ _ => a = b
  | _, _ => false

def rank : Effect → ℕ
  | close _ _ => 0
  | suggest _ _ _ _ => 0
  | askedAgain _ => 1
  | amended _ _ => 2
  | newDate _ _ _ _ => 3

end Effect

section

variable (registry : Registry) (role : AuthorRole)

/-- The band of the answer to the question about the unit. -/
def UnitAnswers.bandOf (unit : UnitAnswers) (id : String) : Band :=
  band registry id (unit.probabilities id)

/-- The questions whose answers always matter. -/
def checked : AuthorRole → List String
  | .waitingParty => [wpReceived, wpNoLongerNeeded, wpAsksAgain, wpChangesTerms, wpChangesDue]
  | .user => userIds
  | .thirdParty => thirdPartyIds

/-- The answer is a yes, and the effect is one of the unit. -/
def effectIf (unit : UnitAnswers) (id : String) (effect : Effect) : List Effect :=
  if unit.bandOf registry id = .accept then [effect] else []

/-- The terms have changed: the action is still owed, or it is not. -/
def changedTermsEffects (unit : UnitAnswers) : Option (List Effect) :=
  if unit.bandOf registry wpChangesTerms = .accept then
    match unit.bandOf registry wpStillOwed with
    | .accept => some [.amended unit.ordinal unit.unit]
    | .reject => some [.close .withdrawn unit.ordinal]
    | .gray => none
  else some []

def waitingPartyEffects (unit : UnitAnswers) : Option (List Effect) :=
  (changedTermsEffects registry unit).map fun changed =>
    effectIf registry unit wpReceived (.close .completed unit.ordinal)
      ++ effectIf registry unit wpNoLongerNeeded (.close .withdrawn unit.ordinal)
      ++ changed
      ++ effectIf registry unit wpAsksAgain (.askedAgain unit.ordinal)
      ++ effectIf registry unit wpChangesDue
        (.newDate .waitingParty unit.ordinal unit.unit (unit.probabilities wpChangesDue))

def userEffects (unit : UnitAnswers) : List Effect :=
  ([(userDelivers, SuggestedUpdateKind.closure), (userDeclines, SuggestedUpdateKind.declined),
      (userHandsOff, SuggestedUpdateKind.delegated)].flatMap fun entry =>
    effectIf registry unit entry.1
      (.suggest entry.2 unit.ordinal unit.unit (unit.probabilities entry.1)))
    ++ effectIf registry unit userPromises
      (.newDate .user unit.ordinal unit.unit (unit.probabilities userPromises))

def thirdPartyEffects (unit : UnitAnswers) : List Effect :=
  effectIf registry unit thirdPartyDone
    (.suggest .closure unit.ordinal unit.unit (unit.probabilities thirdPartyDone))

/-- The effects of a unit, if no answer that matters is gray. -/
def unitEffects (unit : UnitAnswers) : Option (List Effect) :=
  if (checked role).any fun id => unit.bandOf registry id = .gray then none
  else match role with
    | .waitingParty => waitingPartyEffects registry unit
    | .user => some (userEffects registry unit)
    | .thirdParty => some (thirdPartyEffects registry unit)

/-! ### Verdicts -/

inductive StepVerdict where
  | noResponse
  | escalate
  | apply (effects : List Effect)
deriving DecidableEq

/-- The effects that are found so far: those that end the obligation, and one of each other kind. -/
structure Collected where
  terminal : List Effect
  other : List Effect

def Collected.add (collected : Collected) (effect : Effect) : Collected :=
  if effect.isTerminal then { collected with terminal := collected.terminal ++ [effect] }
  else if collected.other.any fun kept => kept.rank = effect.rank then collected
  else { collected with other := collected.other ++ [effect] }

/-- Collect the effects of the units, if no answer that matters is gray. -/
def collect : Collected → List UnitAnswers → Option Collected
  | collected, [] => some collected
  | collected, unit :: units =>
      match unitEffects registry role unit with
      | none => none
      | some effects => collect (effects.foldl Collected.add collected) units

/-- The units that bear on the obligation. -/
def responding (units : List UnitAnswers) : List UnitAnswers :=
  units.filter fun unit => unit.bandOf registry gate = .accept

/-- The verdict on a later message, from the answers about its units. -/
def stepVerdict (units : List UnitAnswers) : StepVerdict :=
  if responding registry units = [] then
    if units.any fun unit => unit.bandOf registry gate = .gray then .escalate else .noResponse
  else match collect registry role { terminal := [], other := [] } (responding registry units) with
    | none => .escalate
    | some collected =>
        match collected.terminal with
        | first :: _ =>
            if collected.terminal.any fun effect => !effect.sameOutcome first then .escalate
            else .apply [first]
        | [] =>
            if collected.other = [] then .noResponse
            else .apply (collected.other.insertionSort fun a b => a.rank ≤ b.rank)

end

end ClosureWalk

end Review
