import OpenLoops.Library.KeyOrder
import OpenLoops.Library.Pointers
import OpenLoops.Review.State

/-!
# Links between loops

The user can link cards that are about the same loop.  Of the cards that are linked to each other
the earliest one stays, and the others become mentions of it.
-/

namespace Review

open Desktop (LoopKey)

/-! ### Folding -/

/-- Where a mention is. -/
def Mention.place (mention : Mention) : String × ℕ :=
  (mention.message, mention.block)

namespace LoopItem

/-- Where the item is stated. -/
def place (item : LoopItem) : String × ℕ :=
  (item.evidence.message, item.evidence.block)

/-- Where the item is stated and mentioned. -/
def places (item : LoopItem) : List (String × ℕ) :=
  item.place :: item.mentions.map Mention.place

/-- The mentions that an item becomes: of where it is stated, and those that it has. -/
def asMentions (item : LoopItem) (origin : MentionOrigin) (timestamp : ℤ) : List Mention :=
  { message := item.evidence.message
    block := item.evidence.block
    quote := item.evidence.quote
    timestamp
    origin } :: item.mentions

/-- The item with one more mention, unless the item has that place already. -/
def mention (survivor : LoopItem) (mention : Mention) : LoopItem :=
  if mention.place ≠ survivor.place
      && !survivor.mentions.any fun existing => existing.place = mention.place then
    { survivor with mentions := survivor.mentions ++ [mention] }
  else survivor

end LoopItem

/-- An item that is dropped becomes mentions of another one. -/
def foldInto (survivor dropped : LoopItem) (origin : MentionOrigin) (timestamp : ℤ) : LoopItem :=
  let survivor := (dropped.asMentions origin timestamp).foldl LoopItem.mention survivor
  if survivor.handoffText = none then { survivor with handoffText := dropped.handoffText }
  else survivor

/-! ### Cards that are linked -/

namespace ReviewState

section

variable (hmac : LoopKey → Bytes → LoopKey) (toLowercase : List Char → List Char)

/-- The last one of the cards with a key. -/
def keyToIndex {n : ℕ} (cards : Fin n → Option CardContext) (key : LoopKey) : Option (Fin n) :=
  ((List.finRange n).filter fun i => (cards i).any fun card => card.record.key = key).getLast?

/-- The cards that are linked, in pairs. -/
def linkedCards {n : ℕ} (s : ReviewState) (cards : Fin n → Option CardContext) :
    List (Fin n × Fin n) :=
  (s.relations.pairs .sameLoop).filterMap fun pair => do
    let a ← keyToIndex cards pair.1
    let b ← keyToIndex cards pair.2
    return (a, b)

/-- The earliest one of a group, with each of the others and its time. -/
def foldsOf {n : ℕ} (timestamps : Fin n → ℤ) (group : List (Fin n)) : List (Fin n × Fin n × ℤ) :=
  match KeyOrder.sort (fun index => toLex (timestamps index, index)) group with
  | [] => []
  | survivor :: rest => rest.map fun dropped => (survivor, dropped, timestamps dropped)

/-- What is folded into what: of the cards that are linked, each into the earliest one. -/
def loopFolds {n : ℕ} (s : ReviewState) (cards : Fin n → Option CardContext)
    (timestamps : Fin n → ℤ) : List (Fin n × Fin n × ℤ) :=
  let parent := (s.linkedCards cards).foldl (fun parent pair => parent.union pair.1 pair.2)
    (Pointers.discrete n)
  ((parent.classes.rows.map Prod.snd).filter fun group => 1 < group.length).flatMap
    (foldsOf timestamps)

/-- One item is folded into another one. -/
def foldItem {n : ℕ} (items : Fin n → LoopItem) (fold : Fin n × Fin n × ℤ) : Fin n → LoopItem :=
  let (survivor, dropped, timestamp) := fold
  Function.update items survivor
    (foldInto (items survivor) (items dropped) .ownerLink timestamp)

/-- The items after the folds, without those that were folded into others. -/
def foldedItems {n : ℕ} (items : Fin n → LoopItem) (folds : List (Fin n × Fin n × ℤ)) :
    List LoopItem :=
  ((List.finRange n).filter fun index => index ∉ folds.map fun fold => fold.2.1).map
    (folds.foldl foldItem items)

/-- The titles of the cards are kept. -/
def withCardTitles {n : ℕ} (titles : LoopKey → Option String) (items : Fin n → LoopItem)
    (cards : Fin n → Option CardContext) : LoopKey → Option String :=
  (List.finRange n).foldl (fun titles i =>
    match cards i with
    | some card => Function.update titles card.record.key (some (items i).action)
    | none => titles) titles

/-- Fold the items whose cards are linked, and count them. -/
def applyLoopLinks (s : ReviewState) : ℕ × ReviewState :=
  match s.analysis with
  | none => (0, s)
  | some analysis =>
      let items := analysis.items.get
      let cards := fun i => s.cardContext hmac toLowercase (items i)
      let folds := s.loopFolds cards fun i => s.itemTimestamp (items i)
      (folds.length, { s with
        linkedCardTitles := withCardTitles s.linkedCardTitles items cards
        analysis := some { analysis with items := foldedItems items folds } })

end

end ReviewState

end Review
