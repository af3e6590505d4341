import Mathlib.Data.List.Perm.Basic
import Mathlib.Data.UInt
import Mathlib.Tactic.Common

/-!
# Documents

A document is a JSON value as a parser reads it: a number is an integer of 64 bits or it is a
float, and the members of an object are kept in their order, with names that may repeat.
`HasDistinctNames` says that they do not repeat, in any object within a document.
-/

/-- A number, as a nonnegative or a negative integer when it is written as one that fits, and
as a float otherwise. -/
inductive JsonNumber where
  | posInt (n : UInt64)
  | negInt (n : Int64) (neg : n < 0)
  | float (bits : UInt64)
deriving DecidableEq

/-- A document. -/
inductive Json where
  | null
  | bool (b : Bool)
  | number (n : JsonNumber)
  | string (s : String)
  | array (elements : List Json)
  | object (members : List (String × Json))

namespace Json

/-- What holds of documents without parts, and of arrays and objects when it holds of their
parts, holds of all documents. -/
@[induction_eliminator]
theorem induction {P : Json → Prop} (null : P null) (bool : ∀ b, P (bool b))
    (number : ∀ n, P (number n)) (string : ∀ s, P (string s))
    (array : ∀ elements, (∀ d ∈ elements, P d) → P (array elements))
    (object : ∀ members, (∀ member ∈ members, P member.2) → P (object members)) (d : Json) :
  P d
  :=
  match d with
  | .null => null
  | .bool b => bool b
  | .number n => number n
  | .string s => string s
  | .array elements => array elements fun d _ =>
      induction null bool number string array object d
  | .object members => object members fun member hmember =>
      have : sizeOf member.2 < sizeOf members := by
        have hlt := List.sizeOf_lt_of_mem hmember
        have hsnd : sizeOf member.2 < sizeOf member := by
          rcases member with ⟨name, d⟩
          simp only [Prod.mk.sizeOf_spec]
          omega
        apply hsnd.trans hlt
      induction null bool number string array object member.2
termination_by d

/-! ### Distinct names -/

/-- The first document is the second one, or is somewhere in it. -/
inductive Within : Json → Json → Prop
  | refl (d : Json) : Within d d
  | array {e d : Json} {elements : List Json} (hd : d ∈ elements) (h : Within e d) :
      Within e (array elements)
  | object {e d : Json} {name : String} {members : List (String × Json)}
      (hd : (name, d) ∈ members) (h : Within e d) : Within e (object members)

/-- No object within the document has two members of one name. -/
def HasDistinctNames (d : Json) : Prop :=
  ∀ members, Within (object members) d → (members.map (·.1)).Nodup

/-- There are no names within a document without parts. -/
theorem hasDistinctNames_of_leaf {d : Json} (harray : ∀ elements, d ≠ array elements)
    (hobject : ∀ members, d ≠ object members) :
  d.HasDistinctNames
  := by
  intro members hwithin
  cases hwithin with
  | refl => exact absurd rfl (hobject members)
  | array _ _ => exact absurd rfl (harray _)
  | object _ _ => exact absurd rfl (hobject _)

/-- The names within an array are distinct exactly when they are within its elements. -/
theorem hasDistinctNames_array {elements : List Json} :
  (array elements).HasDistinctNames ↔ ∀ d ∈ elements, d.HasDistinctNames
  := by
  constructor
  · intro h d hd members hmembers
    apply h members (.array hd hmembers)
  · rintro h members (_ | ⟨hd, hmembers⟩)
    apply h _ hd members hmembers

/-- The names within an object are distinct exactly when its own are and they are within its
members. -/
theorem hasDistinctNames_object {members : List (String × Json)} :
  (object members).HasDistinctNames ↔
    (members.map (·.1)).Nodup ∧ ∀ member ∈ members, member.2.HasDistinctNames
  := by
  constructor
  · intro h
    constructor
    · apply h members (.refl _)
    · intro member hmember inner hinner
      apply h inner (.object hmember hinner)
  · rintro ⟨hnodup, h⟩ inner (_ | _ | ⟨hd, hinner⟩)
    · exact hnodup
    · apply h _ hd inner hinner

/-! ### Members and elements -/

/-- The value of the member of a name; the last one of the name counts. -/
def get (name : String) : Json → Option Json
  | object members => members.reverse.lookup name
  | _ => none

/-- The elements of an array. -/
def readArray : Json → Option (List Json)
  | array elements => some elements
  | _ => none

/-! ### Derived readers

A derived reader of a structure takes its members from an object, under their names, or from an
array, in their order.  One of an enumeration takes a name, or an object with a single member of
that name and no value.
-/

variable {α β : Type*}

/-- The text of a string. -/
def readString : Json → Option String
  | string s => some s
  | _ => none

/-- The nonnegative integers below the size. -/
def readUnsigned (size : ℕ) (ofNat : ℕ → α) : Json → Option α
  | number (.posInt n) => if n.toNat < size then some (ofNat n.toNat) else none
  | _ => none

/-- The elements of an array. -/
def readSeq (read : Json → Option α) : Json → Option (List α)
  | array elements => elements.mapM read
  | _ => none

/-- The name of a variant. -/
def variantName : Json → Option String
  | string name | object [(name, null)] => some name
  | _ => none

/-- The variant of an enumeration. -/
def readEnum (variants : List α) (nameOf : α → String) (d : Json) : Option α :=
  d.variantName.bind fun name => variants.find? (nameOf · == name)

/-- The members of a structure, under their names. -/
def readStruct (names : List String) : Json → Option (List (String × Json))
  | array values => if values.length = names.length then some (names.zip values) else none
  | object members =>
      if (members.map (·.1)).Nodup ∧ ∀ member ∈ members, member.1 ∈ names then some members
      else none
  | _ => none

/-- The value of a member. -/
def readMember (members : List (String × Json)) (name : String) (read : Json → Option α) :
    Option α :=
  (members.lookup name).bind read

end Json
