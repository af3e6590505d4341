import Mathlib.Data.Finset.Insert
import Mathlib.Data.List.Sort
import OpenLoops.Library.Json
import OpenLoops.Library.Text

/-!
# The name cipher

Before a request is sent to a decision model, the names and addresses of the people that are known
from messages are replaced by invented ones, and in the answer these are put back.
-/

namespace Desktop

/-- A text, as its characters. -/
abbrev Text := List Char

/-! ### Lists of names -/

def givenNames : List Text :=
  ["Priya", "Tomas", "Amara", "Mateo", "Linnea", "Devon", "Soraya", "Kenji", "Ingrid", "Rafael",
    "Noor", "Callum", "Yesenia", "Anselm", "Talia", "Oskar", "Imani", "Lorcan", "Mireille",
    "Dashiell", "Saoirse", "Bartek", "Odalys", "Tobiah"].map String.toList

def familyNames : List Text :=
  ["Venkataraman", "Lindqvist", "Okafor", "Villanueva", "Bergstrom", "Fairchild", "Nwosu",
    "Takamura", "Halvorsen", "Quintero", "Abernathy", "Szymanski", "Ferreira", "Achterberg",
    "Castellanos", "Oyelaran", "Whitcombe", "Marchetti", "Kowalczyk", "Thorsby", "Ebbesen",
    "Arceneaux", "Lindgren", "Pemberton"].map String.toList

def systemWords : List Text :=
  ["inc", "llc", "ltd", "team", "support", "billing", "notifications", "service", "admin",
    "sales", "help", "desk", "calendar", "bot", "reply"].map String.toList

def systemLocals : List Text :=
  ["noreply", "no-reply", "donotreply", "notifications", "mailer-daemon",
    "postmaster"].map String.toList

def nameParticles : List Text :=
  ["al", "bin", "da", "das", "de", "del", "della", "der", "di", "dos", "du", "ibn", "la", "le",
    "ten", "ter", "van", "von"].map String.toList

def nameSuffixes : List Text :=
  ["jr", "sr", "ii", "iii", "iv", "phd", "md", "esq", "cpa", "jd", "mba"].map String.toList

def englishGivenNames : List Text :=
  ["will", "may", "mark", "bill", "grant", "hope", "june", "april", "august", "rose", "chase",
    "drew", "dawn", "art", "pat", "sue", "rob", "joy", "faith", "summer", "frank", "gene", "jack",
    "ray", "guy", "dean", "penny", "ruby", "grace", "holly", "iris", "hunter", "carter", "parker",
    "mason"].map String.toList

/-! ### Names of people -/

/-- The forms of the name of a person. -/
structure PersonName where
  canonicalFull : Text
  fullForms : List Text
  given : Text
  family : Option Text
deriving DecidableEq

structure Person where
  /-- The addresses, without repetition and in their order. -/
  addresses : List Text
  names : List PersonName
deriving DecidableEq

section Names

variable (T : CharTable)

/-- The text without the parts in brackets; so many are open. -/
def dropBracketed : ℕ → Text → Text
  | _, [] => []
  | depth, c :: rest =>
      if c = '(' ∨ c = '[' then dropBracketed (depth + 1) rest
      else if c = ')' ∨ c = ']' then dropBracketed (depth - 1) rest
      else if depth = 0 then c :: dropBracketed depth rest
      else dropBracketed depth rest

/-- The name without quotes around it, parts in brackets and suffixes. -/
def cleanDisplayName (display : Text) : Text :=
  let unbracketed := dropBracketed 0 display
  let unquoted := trimMatches (fun c => c = '"' || c = '\'' || c = '“' || c = '”')
    (trim unbracketed)
  let words := (splitWhitespace unquoted).filter fun word =>
    let bare := trimMatches (fun c => c = ',' || c = '.') word
    toAsciiLowercase bare ∉ nameSuffixes
  trim (trimEndMatches (· = ',') (joinWords words))

def isInitial (word : Text) : Bool :=
  let single :=
    match trimEndMatches (· = '.') word with
    | [first] => T.isAlphabetic first && T.isUppercase first
    | _ => false
  let dotted := '.' ∈ word && word.all fun c => c = '.' || (T.isAlphabetic c && T.isUppercase c)
  single || dotted

def validNameWord : Text → Bool
  | [] => false
  | first :: rest => T.isUppercase first && T.isAlphabetic first
      && rest.all fun c => T.isAlphabetic c || c = '-' || c = '\'' || c = '’'

def isSystemDisplayName (display : Text) : Bool :=
  (display.splitOnP fun c => !T.isAlphanumeric c).any fun word =>
    toAsciiLowercase word ∈ systemWords

def isSystemAddress (address : Text) : Bool :=
  (splitOnce '@' address).any fun parts => toAsciiLowercase parts.1 ∈ systemLocals

/-- The words of a name from the index on, without initials and particles; there are none when one
of them is no word of a name. -/
def nameWords : ℕ → List Text → Option (List Text)
  | _, [] => some []
  | index, word :: rest =>
      if index = 0 ∧ isInitial T word then (nameWords (index + 1) rest).map (word :: ·)
      else if isInitial T word ∨ (0 < index ∧ word ∈ nameParticles) then
        nameWords (index + 1) rest
      else if validNameWord T word then (nameWords (index + 1) rest).map (word :: ·)
      else none

/-- The full name, and the name as it was given when the family name comes first there. -/
def fullNameOf (original : Text) : Text × Option Text :=
  match splitOnce ',' original with
  | some (family, given) => (trim given ++ ' ' :: trim family, some original)
  | none => (original, none)

def parsePersonName (display : Text) : Option PersonName :=
  let original := cleanDisplayName display
  if original = [] ∨ isSystemDisplayName T original then none
  else
    let (canonicalFull, sourceForm) := fullNameOf original
    match nameWords T 0 (splitWhitespace canonicalFull) with
    | none | some [] => none
    | some (given :: others) =>
        if 3 < others.length then none
        else
          let family := others.getLast?
          let fullForms := canonicalFull :: (family.map fun f => given ++ ' ' :: f).toList
            ++ sourceForm.toList
          some ⟨canonicalFull, fullForms, given, family⟩

def parseSingleNameWord (value : Text) : Option Text :=
  let value := trim value
  if validNameWord T value ∧ toAsciiLowercase value ∉ systemWords then some value else none

/-- The name and the address of a participant, as far as the label has them. -/
def participantParts (label : Text) : Option Text × Option Text :=
  let address := (splitWhitespace label).find? ('@' ∈ ·)
  match splitOnce '<' label with
  | some (display, rest) =>
      match splitOnce '>' rest with
      | some (address, _) => (some (trim display), some (trim address))
      | none => (none, address)
  | none => (none, address)

end Names

/-! ### The cipher -/

/-- Which form of a name it is. -/
inductive NamePart where
  | full (index : ℕ)
  | family
  | given
deriving DecidableEq

inductive MatchKind where
  | full
  | family
  | given
deriving DecidableEq

def NamePart.matchKind : NamePart → MatchKind
  | full _ => .full
  | family => .family
  | given => .given

/-- Where a form is found. -/
structure NameLookup where
  personIndex : ℕ
  nameIndex : ℕ
  part : NamePart
deriving DecidableEq

/-- The people that are known, with the forms of their names by their first characters. -/
structure NameCipher where
  people : List Person
  byAddress : List (Text × ℕ)
  protectedAddresses : Finset Text
  nameForms : List (Char × NameLookup)
deriving DecidableEq

namespace NameCipher

/-- The cipher that knows nobody. -/
def empty : NameCipher :=
  ⟨[], [], ∅, []⟩

/-- The form with its first character. -/
def indexForm (form : Text) (lookup : NameLookup) : List (Char × NameLookup) :=
  form.head?.toList.map fun first => (first, lookup)

/-- The forms of one name. -/
def indexName (personIndex nameIndex : ℕ) (name : PersonName) : List (Char × NameLookup) :=
  (name.fullForms.zipIdx.flatMap fun item =>
      indexForm item.1 ⟨personIndex, nameIndex, .full item.2⟩)
    ++ ((name.family.filter fun family => 2 ≤ family.length).toList.flatMap fun family =>
      indexForm family ⟨personIndex, nameIndex, .family⟩)
    ++ (if 2 ≤ name.given.length then indexForm name.given ⟨personIndex, nameIndex, .given⟩
      else [])

def rebuildNameForms (cipher : NameCipher) : NameCipher :=
  { cipher with
    nameForms := cipher.people.zipIdx.flatMap fun person =>
      person.1.names.zipIdx.flatMap fun name => indexName person.2 name.2 name.1 }

/-- The person with the address; a new one when there is none. -/
def personAt (cipher : NameCipher) (address : Text) : NameCipher × ℕ :=
  match cipher.byAddress.lookup address with
  | some index => (cipher, index)
  | none => ({ cipher with
      people := cipher.people ++ [⟨[], []⟩]
      byAddress := cipher.byAddress ++ [(address, cipher.people.length)] }, cipher.people.length)

/-- The person with an address more. -/
def addAddress (address : Text) (person : Person) : Person :=
  if address ∈ person.addresses then person
  else { person with addresses := person.addresses.orderedInsert (· ≤ ·) address }

/-- The person with a name more, unless it is there. -/
def addName (name : PersonName) (person : Person) : Person :=
  if person.names.any fun known => known.canonicalFull = name.canonicalFull
      && known.given = name.given && known.family = name.family then person
  else { person with names := person.names ++ [name] }

/-- The name that a hint adds to another name. -/
def hintName (name : PersonName) (given : Text) : PersonName :=
  let canonicalFull := name.family.elim given fun family => given ++ ' ' :: family
  ⟨canonicalFull, [canonicalFull], given, name.family⟩

section

variable (T : CharTable)

def addParticipant (cipher : NameCipher) (label : Text) (addressOverride givenHint : Option Text) :
    NameCipher :=
  let (labelDisplay, labelAddress) := participantParts label
  -- The own name of the user comes without an address.
  let display := labelDisplay.or
    ((addressOverride.map fun _ => trim label).filter (· ≠ []))
  match ((addressOverride.or labelAddress).map trim).filter (· ≠ []) with
  | none => cipher
  | some address =>
      let address := toAsciiLowercase address
      let parsedName := (display.bind (parsePersonName T)).or (givenHint.bind (parsePersonName T))
      if isSystemAddress address
          ∨ display.any fun display => isSystemDisplayName T (cleanDisplayName display) then
        { cipher with protectedAddresses := insert address cipher.protectedAddresses }
      else
        match parsedName with
        | none => cipher
        | some name =>
            let name := { name with fullForms := (name.fullForms.mergeSort (· ≤ ·)).dedup }
            let hinted := ((givenHint.bind (parseSingleNameWord T)).filter (· ≠ name.given)).map
              (hintName name)
            let (cipher, index) := cipher.personAt address
            { cipher with
              people := cipher.people.modify index fun person =>
                (name :: hinted.toList).foldl (fun person name => addName name person)
                  (addAddress address person) }

/-- What the cipher reads of a message. -/
structure Source where
  participants : List Text
  ownAddresses : List Text
  ownDisplayName : Option Text
  ownGivenName : Option Text

/-- The cipher with the people of one message more. -/
def addMessage (cipher : NameCipher) (message : Source) : NameCipher :=
  let cipher := message.participants.foldl
    (fun cipher participant => addParticipant T cipher participant none none) cipher
  message.ownAddresses.foldl (fun cipher address =>
    addParticipant T cipher (message.ownDisplayName.getD []) (some address) message.ownGivenName)
    cipher

def fromMessages (messages : List Source) : NameCipher :=
  (messages.foldl (addMessage T) empty).rebuildNameForms

end

end NameCipher

end Desktop
