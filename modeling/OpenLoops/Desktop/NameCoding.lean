import OpenLoops.Desktop.NameCipher

/-!
# Encoding and decoding

A scanner goes over each text of a request and replaces the addresses and the names that it finds.
What stands before a place in a text is given from there back to the start.
-/

namespace Desktop

section

variable (T : CharTable)

/-! ### Words and sentences -/

def isWordCharacter (c : Char) : Bool :=
  T.isAlphanumeric c || c = '_'

/-- The term stands here as a whole word. -/
def wholeWordMatchAt (before rest term : Text) : Bool :=
  term ≠ [] && term.isPrefixOf rest && !before.head?.any (isWordCharacter T)
    && !(rest.drop term.length).head?.any (isWordCharacter T)

def isSentenceCloser (c : Char) : Bool :=
  c ∈ [')', ']', '}', '\'', '"', '”', '’', '»']

def isSentenceOpener (c : Char) : Bool :=
  c ∈ ['(', '[', '{', '\'', '"', '“', '‘', '«', '—', '–']

/-- A sentence starts after what stands before. -/
def startsSentence : Text → Bool
  | [] => true
  | c :: before =>
      if c = '\n' ∨ c = '\r' then true
      else if isWhitespace c ∨ isSentenceCloser c ∨ isSentenceOpener c then startsSentence before
      else c ∈ ['.', '!', '?', ':']

/-! ### Names -/

/-- The form that is found there. -/
def NameCipher.form (cipher : NameCipher) (lookup : NameLookup) : Option Text :=
  (cipher.people[lookup.personIndex]?.bind fun person =>
    person.names[lookup.nameIndex]?).bind fun name =>
      match lookup.part with
      | .full index => name.fullForms[index]?
      | .family => name.family
      | .given => some name.given

/-- A match: its length, its person and its kind. -/
structure NameMatch where
  length : ℕ
  personIndex : ℕ
  kind : MatchKind
deriving DecidableEq

def isBetterMatch (candidate : NameMatch) (current : Option NameMatch) : Bool :=
  match current with
  | none => true
  | some current =>
      current.length < candidate.length || (candidate.length = current.length &&
        match candidate.kind, current.kind with
        | .full, .family | .full, .given | .family, .given => true
        | .family, .full | .given, .full | .given, .family => false
        | .full, .full | .family, .family | .given, .given =>
            candidate.personIndex < current.personIndex)

/-- The match of a form that is found here, unless it is a given name that is also a word of
English and starts a sentence. -/
def NameCipher.matchOf (cipher : NameCipher) (before rest : Text) (lookup : NameLookup) :
    Option NameMatch :=
  (cipher.form lookup).bind fun form =>
    if !wholeWordMatchAt T before rest form || (lookup.part = .given
        && toAsciiLowercase form ∈ englishGivenNames && startsSentence before) then none
    else some ⟨form.length, lookup.personIndex, lookup.part.matchKind⟩

/-- The better one of the best match so far and that of the form. -/
def NameCipher.betterMatch (cipher : NameCipher) (before rest : Text) (best : Option NameMatch)
    (lookup : NameLookup) : Option NameMatch :=
  match cipher.matchOf T before rest lookup with
  | none => best
  | some candidate => if isBetterMatch candidate best then some candidate else best

def NameCipher.bestNameMatch (cipher : NameCipher) (before rest : Text) : Option NameMatch :=
  rest.head?.bind fun first =>
    ((cipher.nameForms.filter fun entry => entry.1 = first).map Prod.snd).foldl
      (cipher.betterMatch T before rest) none

/-! ### Addresses -/

def isEmailCharacter (c : Char) : Bool :=
  c.isAlphanum || c ∈ ['.', '_', '%', '+', '-', '@']

def isLocalCharacter (c : Char) : Bool :=
  c.isAlphanum || c ∈ ['.', '_', '%', '+', '-']

def isDomainCharacter (c : Char) : Bool :=
  c.isAlphanum || c ∈ ['.', '-']

/-- The character may not follow an address. -/
def isEmailContinuation (c : Char) : Bool :=
  c.isAlphanum || c ∈ ['_', '%', '+', '@']

/-- The address that starts here, with its length. -/
def emailAt (before rest : Text) : Option (ℕ × Text) :=
  if before.head?.any isEmailCharacter then none
  else
    let localPart := rest.takeWhile isLocalCharacter
    match rest.dropWhile isLocalCharacter with
    | '@' :: tail =>
        let domain := trimEndMatches (fun c => c = '.' || c = '-') (tail.takeWhile isDomainCharacter)
        if localPart = [] ∨ '.' ∉ domain ∨ domain.head? = some '.'
            ∨ (tail.drop domain.length).head?.any isEmailContinuation then none
        else
          let address := localPart ++ '@' :: domain
          some (address.length, toAsciiLowercase address)
    | _ => none

/-- The address stands here, between characters that are not part of one. -/
def exactEmailAt (before rest address : Text) : Bool :=
  toAsciiLowercase (rest.take address.length) = toAsciiLowercase address
    && !before.head?.any isEmailCharacter
    && !(rest.drop address.length).head?.any isEmailCharacter

end

/-! ### Pseudonyms -/

structure Pseudonym where
  given : Text
  family : Option Text
  full : Text
  address : Text
deriving DecidableEq

def pseudonymDomain : Text :=
  "example.invalid".toList

/-- What stands in place of an address that nobody is known by. -/
def genericAddress : Text :=
  "address@example.invalid".toList

def Pseudonym.new (given : Text) (family : Option Text) : Pseudonym where
  given
  family
  full := family.elim given fun family => given ++ ' ' :: family
  address :=
    (family.elim (toAsciiLowercase (given.filter Char.isAlphanum)) fun family =>
      toAsciiLowercase given ++ '.' :: toAsciiLowercase family) ++ '@' :: pseudonymDomain

structure AssignedPerson where
  pseudonym : Pseudonym
  realName : PersonName
  realAddress : Text

/-- The pseudonyms of a request. -/
structure RequestAssignment where
  /-- The people, in their order. -/
  assigned : List (ℕ × AssignedPerson)
  skippedTokens : List Text
  nextPoolIndex : ℕ
  overflowIndex : ℕ

/-- The first pair of names from the index on that is not skipped, and the index after it. -/
def nextFrom (skippedTokens : List Text) : List (Text × Text) → ℕ → Option (Text × Text) × ℕ
  | [], index => (none, index)
  | (given, family) :: rest, index =>
      if toAsciiLowercase given ∈ skippedTokens ∨ toAsciiLowercase family ∈ skippedTokens then
        nextFrom skippedTokens rest (index + 1)
      else (some (given, family), index + 1)

namespace RequestAssignment

def nextPseudonym (assignment : RequestAssignment) : Pseudonym × RequestAssignment :=
  match nextFrom assignment.skippedTokens
      ((givenNames.zip familyNames).drop assignment.nextPoolIndex) assignment.nextPoolIndex with
  | (some (given, family), index) =>
      (.new given (some family), { assignment with nextPoolIndex := index })
  | (none, index) =>
      let number := assignment.overflowIndex
      (.new ("Person ".toList ++ (Nat.repr number).toList) none,
        { assignment with nextPoolIndex := index, overflowIndex := number + 1 })

/-- The pseudonym of a person, who is assigned one when there is none.  Known people always have
a name. -/
def pseudonym (cipher : NameCipher) (personIndex : ℕ) (assignment : RequestAssignment) :
    Option Pseudonym × RequestAssignment :=
  match assignment.assigned.lookup personIndex with
  | some person => (some person.pseudonym, assignment)
  | none =>
      match cipher.people[personIndex]?.bind fun person =>
          person.names.head?.map fun name => (person, name) with
      | none => (none, assignment)
      | some (person, name) =>
          let (pseudonym, assignment) := assignment.nextPseudonym
          (some pseudonym, { assignment with
            assigned := assignment.assigned.orderedInsert (fun entry entry' => entry.1 ≤ entry'.1)
              (personIndex, ⟨pseudonym, name, person.addresses.head?.getD []⟩) })

end RequestAssignment

/-! ### Encoding -/

/-- What stands in place of a name. -/
def Pseudonym.replacement (pseudonym : Pseudonym) : MatchKind → Text
  | .full => pseudonym.full
  | .given => pseudonym.given
  | .family => pseudonym.family.getD pseudonym.given

/-- What is found at a place of a text. -/
inductive Finding where
  | person (personIndex : ℕ)
  | protectedAddress (text : Text)
  | otherAddress
  | name (personIndex : ℕ) (kind : MatchKind)
deriving DecidableEq

section

variable (T : CharTable)

/-- The address or the name that is found at a place, with its length. -/
def NameCipher.found (cipher : NameCipher) (before rest : Text) : Option (ℕ × Finding) :=
  match emailAt before rest with
  | some (length, address) =>
      match cipher.byAddress.lookup address with
      | some personIndex => some (length, .person personIndex)
      | none =>
          if address ∈ cipher.protectedAddresses then
            some (length, .protectedAddress (rest.take length))
          else some (length, .otherAddress)
  | none => (cipher.bestNameMatch T before rest).map fun found =>
      (found.length, .name found.personIndex found.kind)

/-- What stands in place of what is found. -/
def replace (cipher : NameCipher) (finding : Finding) (assignment : RequestAssignment) :
    Text × RequestAssignment :=
  match finding with
  | .person personIndex =>
      let (pseudonym, assignment) := assignment.pseudonym cipher personIndex
      ((pseudonym.map Pseudonym.address).getD [], assignment)
  | .protectedAddress text => (text, assignment)
  | .otherAddress => (genericAddress, assignment)
  | .name personIndex kind =>
      let (pseudonym, assignment) := assignment.pseudonym cipher personIndex
      ((pseudonym.map fun pseudonym => pseudonym.replacement kind).getD [], assignment)

/-- Encode what stands after a place, where the first characters are to be passed over. -/
def encodeFrom (cipher : NameCipher) :
    Text → Text → ℕ → RequestAssignment → Text × RequestAssignment
  | _, [], _, assignment => ([], assignment)
  | before, c :: rest, skip + 1, assignment =>
      encodeFrom cipher (c :: before) rest skip assignment
  | before, c :: rest, 0, assignment =>
      match cipher.found T before (c :: rest) with
      | some (length, finding) =>
          let (replacement, assignment) := replace cipher finding assignment
          let (encoded, assignment) :=
            encodeFrom cipher (c :: before) rest (length - 1) assignment
          (replacement ++ encoded, assignment)
      | none =>
          let (encoded, assignment) := encodeFrom cipher (c :: before) rest 0 assignment
          (c :: encoded, assignment)

def encodeText (cipher : NameCipher) (text : Text) (assignment : RequestAssignment) :
    Text × RequestAssignment :=
  encodeFrom T cipher [] text 0 assignment

/-! ### Decoding -/

structure DecodeForm where
  pseudo : Text
  real : Text
  priority : ℕ

/-- What stands for a person in an answer. -/
def AssignedPerson.decodeForms (person : AssignedPerson) : List DecodeForm :=
  [⟨person.pseudonym.address, person.realAddress, 4⟩,
    ⟨person.pseudonym.full, person.realName.canonicalFull, 3⟩,
    ⟨person.pseudonym.given, person.realName.given, 1⟩]
  ++ match person.pseudonym.family, person.realName.family with
    | some pseudoFamily, some realFamily => [⟨pseudoFamily, realFamily, 2⟩]
    | _, _ => []

/-- The form stands at this place. -/
def DecodeForm.matchesAt (before rest : Text) (form : DecodeForm) : Bool :=
  if '@' ∈ form.pseudo then exactEmailAt before rest form.pseudo
  else wholeWordMatchAt T before rest form.pseudo

/-- Decode what stands after a place, where the first characters are to be passed over. -/
def replaceDecodeForms (forms : List DecodeForm) : Text → Text → ℕ → Text
  | _, [], _ => []
  | before, c :: rest, skip + 1 => replaceDecodeForms forms (c :: before) rest skip
  | before, c :: rest, 0 =>
      match forms.find? (·.matchesAt T before (c :: rest)) with
      | some form =>
          form.real ++ replaceDecodeForms forms (c :: before) rest (form.pseudo.length - 1)
      | none => c :: replaceDecodeForms forms (c :: before) rest 0

/-- The longest forms come first, and among them those of the highest priority. -/
def DecodeForm.comesFirst (left right : DecodeForm) : Bool :=
  right.pseudo.length < left.pseudo.length
    || (left.pseudo.length = right.pseudo.length && right.priority ≤ left.priority)

def RequestAssignment.decodeText (assignment : RequestAssignment) (text : Text) : Text :=
  let forms := assignment.assigned.flatMap fun entry => entry.2.decodeForms
  replaceDecodeForms T (forms.mergeSort DecodeForm.comesFirst) [] text 0

end

/-! ### Requests -/

/-- A question to a decision model. -/
inductive Question where
  | noul (instructions : String)
  | choice (instructions : String) (options : List (String × String))
  | score (instructions : String) (levels : List String)

/-- The questions of a request, by their ids. -/
abbrev Questions := List (String × Question)

/-- A change of texts, one after the other, with a state. -/
abbrev TextMap (σ : Type) := String → σ → String × σ

/-- The elements are changed one after the other. -/
def mapAccum {σ α β : Type} (f : α → σ → β × σ) : List α → σ → List β × σ
  | [], s => ([], s)
  | a :: rest, s =>
      let (b, s) := f a s
      let (bs, s) := mapAccum f rest s
      (b :: bs, s)

/-- The descriptions of the options of a question. -/
def Question.descriptions : Question → List String
  | choice _ options => options.map Prod.snd
  | _ => []

def Question.mapDescriptions {σ : Type} (f : TextMap σ) : Question → σ → Question × σ
  | choice instructions options, s =>
      let (options, s) := mapAccum (fun (option : String × String) s =>
        let (description, s) := f option.2 s
        ((option.1, description), s)) options s
      (choice instructions options, s)
  | question, s => (question, s)

def Questions.mapChoiceDescriptions {σ : Type} (f : TextMap σ) (questions : Questions) (s : σ) :
    Questions × σ :=
  mapAccum (fun (item : String × Question) s =>
    let (question, s) := item.2.mapDescriptions f s
    ((item.1, question), s)) questions s

mutual

/-- The texts of a document. -/
def collectStateTexts : Json → List String
  | .string text => [text]
  | .array elements => collectElementTexts elements
  | .object members => collectMemberTexts members
  | .null | .bool _ | .number _ => []

/-- `collectStateTexts` for the elements of an array. -/
def collectElementTexts : List Json → List String
  | [] => []
  | d :: elements => collectStateTexts d ++ collectElementTexts elements

/-- `collectStateTexts` for the members of an object. -/
def collectMemberTexts : List (String × Json) → List String
  | [] => []
  | (_, d) :: members => collectStateTexts d ++ collectMemberTexts members

end

mutual

/-- Change the texts of a document. -/
def mapValueStrings {σ : Type} (f : TextMap σ) : Json → σ → Json × σ
  | .string text, s =>
      let (text, s) := f text s
      (.string text, s)
  | .array elements, s =>
      let (elements, s) := mapElementStrings f elements s
      (.array elements, s)
  | .object members, s =>
      let (members, s) := mapMemberStrings f members s
      (.object members, s)
  | .null, s => (.null, s)
  | .bool b, s => (.bool b, s)
  | .number n, s => (.number n, s)

/-- `mapValueStrings` for the elements of an array. -/
def mapElementStrings {σ : Type} (f : TextMap σ) : List Json → σ → List Json × σ
  | [], s => ([], s)
  | d :: elements, s =>
      let (d, s) := mapValueStrings f d s
      let (elements, s) := mapElementStrings f elements s
      (d :: elements, s)

/-- `mapValueStrings` for the members of an object. -/
def mapMemberStrings {σ : Type} (f : TextMap σ) :
    List (String × Json) → σ → List (String × Json) × σ
  | [], s => ([], s)
  | (name, d) :: members, s =>
      let (d, s) := mapValueStrings f d s
      let (members, s) := mapMemberStrings f members s
      ((name, d) :: members, s)

end

section

variable (T : CharTable)

/-- The words of the texts, in small letters. -/
def requestNameTokens (texts : List String) : List Text :=
  ((texts.flatMap fun text => text.toList.splitOnP fun c => !T.isAlphanumeric c).filter
    (· ≠ [])).map toAsciiLowercase

structure EncodedRequest where
  state : Json
  questions : Questions
  assignment : RequestAssignment

/-- The texts of a request. -/
def requestTexts (state : Json) (questions : Questions) : List String :=
  collectStateTexts state ++ questions.flatMap fun item => item.2.descriptions

/-- Encode a text of a request. -/
def NameCipher.encodeString (cipher : NameCipher) : TextMap RequestAssignment :=
  fun text assignment =>
    let (encoded, assignment) := encodeText T cipher text.toList assignment
    (String.ofList encoded, assignment)

def NameCipher.encodeRequest (cipher : NameCipher) (state : Json) (questions : Questions) :
    EncodedRequest :=
  let assignment : RequestAssignment :=
    ⟨[], requestNameTokens T (requestTexts state questions), 0, 25⟩
  let (encodedState, assignment) := mapValueStrings (cipher.encodeString T) state assignment
  let (encodedQuestions, assignment) :=
    questions.mapChoiceDescriptions (cipher.encodeString T) assignment
  ⟨encodedState, encodedQuestions, assignment⟩

end

end Desktop
