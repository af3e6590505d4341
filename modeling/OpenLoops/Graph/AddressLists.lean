import OpenLoops.Graph.Mime
import OpenLoops.Library.Packing

/-!
# Lists of addresses

A list is cut at the commas outside of quotes and of angle brackets, where each double quote begins or
ends a quote, also one after a backslash.  In each piece the address is what stands after the first
angle bracket, also one inside of quotes.
-/

namespace Graph

namespace Mime

/-! ### Parsing -/

/-- The address of a piece, with the name before it. -/
def parseAddress (value : List Char) : Option (Option (List Char) × List Char) :=
  let value := trim value
  let (name, address) :=
    match splitOnce '<' value with
    | some (name, rest) =>
        (some (trimMatches (· = '"') (trim name)), trim (trimEndMatches (· = '>') rest))
    | none => (none, value)
  if address = [] ∨ address.any isControl then none
  else some ((name.filter (· ≠ [])).map decodeRfc2047, toAsciiLowercase address)

/-- Whether a character is inside of quotes, and in how many angle brackets, up to 255. -/
structure Position where
  quoted : Bool
  angleDepth : ℕ
deriving DecidableEq

namespace Position

def start : Position :=
  { quoted := false, angleDepth := 0 }

/-- The list is cut at the character. -/
def cuts (p : Position) (c : Char) : Bool :=
  c = ',' && !p.quoted && p.angleDepth = 0

/-- The position after the character. -/
def next (p : Position) (c : Char) : Position :=
  if c = '"' then { p with quoted := !p.quoted }
  else if c = '<' ∧ p.quoted = false then { p with angleDepth := min 255 (p.angleDepth + 1) }
  else if c = '>' ∧ p.quoted = false then { p with angleDepth := p.angleDepth - 1 }
  else p

end Position

/-- The pieces of a list, the first of which has begun. -/
def addressPieces (p : Position) (piece : List Char) : List Char → List (List Char)
  | [] => [piece]
  | c :: text =>
      if p.cuts c then piece :: addressPieces p [] text
      else addressPieces (p.next c) (piece ++ [c]) text

def parseAddressList (value : List Char) : List (Option (List Char) × List Char) :=
  (addressPieces .start [] value).filterMap parseAddress

/-! ### Mailboxes -/

/-- A character of an atom. -/
def isAtext (c : Char) : Bool :=
  c.isAlphanum || c ∈ "!#$%&'*+-/=?^_`\x7b|\x7d~".toList

/-- Atoms with dots between them. -/
def IsDotAtom (text : List Char) : Prop :=
  ∃ atoms : List (List Char), atoms ≠ [] ∧ (∀ atom ∈ atoms, atom ≠ [] ∧ ∀ c ∈ atom, isAtext c = true)
    ∧ text = ['.'].intercalate atoms

/-- A character with a backslash before it, if it would have a meaning in quotes. -/
def escapeQuoted (c : Char) : List Char :=
  if c = '"' ∨ c = '\\' then ['\\', c] else [c]

def quotedString (content : List Char) : List Char :=
  '"' :: content.flatMap escapeQuoted ++ ['"']

def IsPrintable (content : List Char) : Prop :=
  ∀ c ∈ content, isControl c = false

def IsQuotedString (text : List Char) : Prop :=
  ∃ content, IsPrintable content ∧ text = quotedString content

/-- A domain in brackets. -/
def IsDomainLiteral (text : List Char) : Prop :=
  ∃ content : List Char,
    (∀ c ∈ content, 0x21 ≤ c.toNat ∧ c.toNat ≤ 0x7e ∧ c ≠ '[' ∧ c ≠ ']' ∧ c ≠ '\\')
      ∧ text = '[' :: content ++ [']']

/-- An address: a local part and a domain. -/
structure AddrSpec where
  text : List Char
  valid : ∃ localPart domain, text = localPart ++ '@' :: domain
    ∧ (IsDotAtom localPart ∨ IsQuotedString localPart) ∧ (IsDotAtom domain ∨ IsDomainLiteral domain)

/-- How a mailbox is written: as an address, or as an address in angle brackets, which a name in
quotes may stand before. -/
inductive Mailbox where
  | bare (address : AddrSpec)
  | angled (address : AddrSpec)
  | named (name : List Char) (printable : IsPrintable name) (spaces : ℕ) (address : AddrSpec)

namespace Mailbox

def address : Mailbox → AddrSpec
  | bare address => address
  | angled address => address
  | named _ _ _ address => address

/-- The name in quotes. -/
def name : Mailbox → List Char
  | named name _ _ _ => name
  | _ => []

def text : Mailbox → List Char
  | bare address => address.text
  | angled address => '<' :: address.text ++ ['>']
  | named name _ spaces address =>
      quotedString name ++ List.replicate spaces ' ' ++ '<' :: address.text ++ ['>']

end Mailbox

/-- The mailboxes with a comma and a space between them. -/
def mailboxList (mailboxes : List Mailbox) : List Char :=
  ", ".toList.intercalate (mailboxes.map Mailbox.text)

/-- The list has an entry for each mailbox, with its address in small letters. -/
def ReadsBack (mailboxes : List Mailbox) : Prop :=
  (parseAddressList (mailboxList mailboxes)).map Prod.snd
    = mailboxes.map fun mailbox => toAsciiLowercase mailbox.address.text

/-! ### Reading characters -/

/-- The characters of a text that are outside of quotes, when each double quote begins or ends one. -/
def outside : Bool → List Char → List Char
  | _, [] => []
  | quoted, c :: text =>
      if c = '"' then outside (!quoted) text
      else if quoted then outside quoted text else c :: outside quoted text

/-- The end of a text is inside of quotes. -/
def endsQuoted (quoted : Bool) (text : List Char) : Bool :=
  text.foldl (fun quoted c => if c = '"' then !quoted else quoted) quoted

theorem endsQuoted_append (quoted : Bool) (text text' : List Char) :
  endsQuoted quoted (text ++ text') = endsQuoted (endsQuoted quoted text) text'
  := List.foldl_append

theorem outside_append (quoted : Bool) (text text' : List Char) :
  outside quoted (text ++ text') = outside quoted text ++ outside (endsQuoted quoted text) text'
  := by
  induction text generalizing quoted with
  | nil => rfl
  | cons c text ih =>
      rw [List.cons_append, outside, outside, endsQuoted, List.foldl_cons]
      by_cases hc : c = '"'
      · simp only [hc, if_true]
        exact ih (!quoted)
      · simp only [hc, if_false]
        cases quoted
        · simp only [Bool.false_eq_true, if_false, List.cons_append]
          rw [ih]
          rfl
        · simp only [if_true]
          exact ih true

theorem mem_of_mem_outside {quoted : Bool} {text : List Char} {c : Char}
    (hc : c ∈ outside quoted text) :
  c ∈ text
  := by
  induction text generalizing quoted with
  | nil => cases hc
  | cons d text ih =>
      rw [outside] at hc
      split_ifs at hc
      · exact List.mem_cons_of_mem _ (ih hc)
      · exact List.mem_cons_of_mem _ (ih hc)
      · rcases List.mem_cons.mp hc with rfl | hc
        · exact List.mem_cons_self
        · exact List.mem_cons_of_mem _ (ih hc)

/-- A text without double quotes does not leave a quote. -/
theorem outside_eq_nil {text : List Char} (h : '"' ∉ text) :
  outside true text = []
  := by
  induction text with
  | nil => rfl
  | cons c text ih =>
      rw [List.mem_cons, not_or] at h
      rw [outside, if_neg (Ne.symm h.1), if_pos rfl, ih h.2]

/-- The end is inside of quotes as the beginning is when the double quotes pair up. -/
theorem endsQuoted_eq (quoted : Bool) (text : List Char) :
  endsQuoted quoted text = if Even (text.count '"') then quoted else !quoted
  := by
  induction text generalizing quoted with
  | nil => simp [endsQuoted]
  | cons c text ih =>
      rw [endsQuoted, List.foldl_cons]
      by_cases hc : c = '"'
      · have hrest := ih (!quoted)
        rw [endsQuoted] at hrest
        simp only [hc, if_true, List.count_cons_self, hrest, Nat.even_add_one]
        split_ifs <;> simp_all
      · have hrest := ih quoted
        rw [endsQuoted] at hrest
        rw [if_neg hc, hrest, List.count_cons_of_ne hc]

section

variable {depth : ℕ} {c : Char} (piece text : List Char)

theorem addressPieces_quote (quoted : Bool) :
  addressPieces ⟨quoted, depth⟩ piece ('"' :: text)
    = addressPieces ⟨!quoted, depth⟩ (piece ++ ['"']) text
  := by
  rw [addressPieces, Position.cuts, Position.next]
  simp

theorem addressPieces_inside (hc : c ≠ '"') :
  addressPieces ⟨true, depth⟩ piece (c :: text) = addressPieces ⟨true, depth⟩ (piece ++ [c]) text
  := by
  rw [addressPieces, Position.cuts, Position.next]
  simp [hc]

theorem addressPieces_outside (hc : c ≠ '"') (hcomma : c ≠ ',') (hopen : c ≠ '<')
    (hclose : c ≠ '>' ∨ depth = 0) :
  addressPieces ⟨false, depth⟩ piece (c :: text) = addressPieces ⟨false, depth⟩ (piece ++ [c]) text
  := by
  rw [addressPieces, Position.cuts, Position.next]
  rcases hclose with hclose | rfl
  · simp [hc, hcomma, hopen, hclose]
  · simp [hc, hcomma, hopen]

theorem addressPieces_space :
  addressPieces .start [] (' ' :: text) = addressPieces .start [' '] text
  := addressPieces_outside _ _ (by decide) (by decide) (by decide) (Or.inr rfl)

theorem addressPieces_comma :
  addressPieces .start piece (',' :: text) = piece :: addressPieces .start [] text
  := by
  rw [addressPieces, Position.cuts]
  simp [Position.start]

theorem addressPieces_open :
  addressPieces .start piece ('<' :: text) = addressPieces ⟨false, 1⟩ (piece ++ ['<']) text
  := by
  rw [addressPieces, Position.cuts, Position.next]
  simp [Position.start]

theorem addressPieces_close :
  addressPieces ⟨false, 1⟩ piece ('>' :: text) = addressPieces .start (piece ++ ['>']) text
  := by
  rw [addressPieces, Position.cuts, Position.next]
  simp [Position.start]

end

/-- A text is read as a part of the piece if no comma and no angle bracket of it is outside of
quotes; outside of angle brackets, a closing one means nothing. -/
theorem addressPieces_append {quoted : Bool} {depth : ℕ} {text : List Char}
    (hcomma : ',' ∉ outside quoted text) (hopen : '<' ∉ outside quoted text)
    (hclose : '>' ∉ outside quoted text ∨ depth = 0) (piece rest : List Char) :
  addressPieces ⟨quoted, depth⟩ piece (text ++ rest)
    = addressPieces ⟨endsQuoted quoted text, depth⟩ (piece ++ text) rest
  := by
  induction text generalizing quoted piece with
  | nil => rw [List.nil_append, List.append_nil]; rfl
  | cons c text ih =>
      rw [outside] at hcomma hopen hclose
      rw [List.cons_append, show piece ++ c :: text = piece ++ [c] ++ text by simp, endsQuoted,
        List.foldl_cons]
      by_cases hquote : c = '"'
      · simp only [hquote, if_true] at hcomma hopen hclose ⊢
        rw [addressPieces_quote]
        exact ih hcomma hopen hclose _
      · rw [if_neg hquote] at hcomma hopen hclose ⊢
        cases quoted with
        | true =>
            simp only [if_true] at hcomma hopen hclose
            rw [addressPieces_inside _ _ hquote]
            exact ih hcomma hopen hclose _
        | false =>
            simp only [Bool.false_eq_true, if_false, List.mem_cons, not_or] at hcomma hopen hclose
            rw [addressPieces_outside _ _ hquote (Ne.symm hcomma.1) (Ne.symm hopen.1)
              (hclose.imp_left fun h => Ne.symm h.1)]
            exact ih hcomma.2 hopen.2 (hclose.imp_left And.right) _

/-- A comma outside of quotes cuts the text, if no angle bracket is open. -/
theorem addressPieces_cut {quoted : Bool} {text : List Char} (hcomma : ',' ∈ outside quoted text)
    (hopen : '<' ∉ text) (piece rest : List Char) :
  ∃ before pieces, before <+: text
    ∧ addressPieces ⟨quoted, 0⟩ piece (text ++ rest) = (piece ++ before) :: pieces
  := by
  induction text generalizing quoted piece with
  | nil => cases hcomma
  | cons c text ih =>
      rw [outside] at hcomma
      rw [List.mem_cons, not_or] at hopen
      -- The text goes on in the same piece.
      have hnext : ∀ quoted', ',' ∈ outside quoted' text →
          addressPieces ⟨quoted, 0⟩ piece (c :: (text ++ rest))
            = addressPieces ⟨quoted', 0⟩ (piece ++ [c]) (text ++ rest) →
          ∃ before pieces, before <+: c :: text
            ∧ addressPieces ⟨quoted, 0⟩ piece (c :: (text ++ rest)) = (piece ++ before) :: pieces := by
        intro quoted' hcomma' hstep
        obtain ⟨before, pieces, hsub, hpieces⟩ := ih hcomma' hopen.2 (piece ++ [c])
        refine ⟨c :: before, pieces, List.cons_prefix_cons.mpr ⟨rfl, hsub⟩, ?_⟩
        rw [hstep, hpieces, List.append_assoc, List.singleton_append]
      rw [List.cons_append]
      by_cases hquote : c = '"'
      · subst hquote
        rw [if_pos rfl] at hcomma
        exact hnext (!quoted) hcomma (addressPieces_quote _ _ _)
      · rw [if_neg hquote] at hcomma
        cases quoted with
        | true => exact hnext true hcomma (addressPieces_inside _ _ hquote)
        | false =>
            by_cases hc : c = ','
            · subst hc
              refine ⟨[], addressPieces .start [] (text ++ rest), List.nil_prefix, ?_⟩
              rw [List.append_nil]
              exact addressPieces_comma _ _
            · rw [if_neg Bool.false_ne_true, List.mem_cons] at hcomma
              exact hnext false (hcomma.resolve_left (Ne.symm hc))
                (addressPieces_outside _ _ hquote hc (Ne.symm hopen.1) (Or.inr rfl))

/-- The first piece of a text begins with what is there of it. -/
theorem exists_addressPieces (p : Position) (piece text : List Char) :
  ∃ before pieces, before <+: text ∧ addressPieces p piece text = (piece ++ before) :: pieces
  := by
  induction text generalizing p piece with
  | nil => exact ⟨[], [], List.prefix_rfl, by rw [addressPieces, List.append_nil]⟩
  | cons c text ih =>
      rw [addressPieces]
      split_ifs with hcuts
      · exact ⟨[], _, List.nil_prefix, by rw [List.append_nil]⟩
      · obtain ⟨before, pieces, hsub, hpieces⟩ := ih (p.next c) (piece ++ [c])
        refine ⟨c :: before, pieces, List.cons_prefix_cons.mpr ⟨rfl, hsub⟩, ?_⟩
        rw [hpieces, List.append_assoc, List.singleton_append]

/-! ### Parsing a piece -/

theorem mem_trimEndMatches {p : Char → Bool} {text : List Char} {c : Char} (hc : c ∈ text)
    (hstays : p c = false) :
  c ∈ trimEndMatches p text
  := by
  obtain ⟨others, hsplit, hothers, -⟩ := trimEndMatches_split p text
  rw [hsplit, List.mem_append] at hc
  rcases hc with hc | hc
  · exact hc
  · rw [hothers c hc] at hstays
    cases hstays

theorem mem_trim {text : List Char} {c : Char} (hc : c ∈ text) (hstays : isWhitespace c = false) :
  c ∈ trim text
  := by
  obtain ⟨before, after, hsplit, hbefore, hafter, -⟩ := trim_split text
  rw [hsplit, List.mem_append, List.mem_append] at hc
  rcases hc with hc | hc | hc
  · rw [hbefore c hc] at hstays
    cases hstays
  · exact hc
  · rw [hafter c hc] at hstays
    cases hstays

theorem mem_of_mem_trim {text : List Char} {c : Char} (hc : c ∈ trim text) :
  c ∈ text
  := by
  obtain ⟨before, after, hsplit, -⟩ := trim_split text
  rw [hsplit]
  exact List.mem_append_right _ (List.mem_append_left _ hc)

theorem mem_of_mem_trimEndMatches {p : Char → Bool} {text : List Char} {c : Char}
    (hc : c ∈ trimEndMatches p text) :
  c ∈ text
  := by
  obtain ⟨others, hsplit, -⟩ := trimEndMatches_split p text
  rw [hsplit]
  exact List.mem_append_left _ hc

/-- A text that begins with white space is trimmed before its first bracket only, if it does not end
with white space. -/
theorem trim_open {before after : List Char}
    (hlast : ∀ c, ('<' :: after).getLast? = some c → isWhitespace c = false) :
  trim (before ++ '<' :: after) = before.dropWhile isWhitespace ++ '<' :: after
  := by
  have hdrop : (before ++ '<' :: after).dropWhile isWhitespace
      = before.dropWhile isWhitespace ++ '<' :: after := by
    rw [List.dropWhile_append]
    split_ifs with hnil
    · rw [List.isEmpty_iff.mp hnil]
      rfl
    · rfl
  have hend : trimEndMatches isWhitespace (before.dropWhile isWhitespace ++ '<' :: after ++ [])
      = before.dropWhile isWhitespace ++ '<' :: after := by
    apply trimEndMatches_append
    · intro c hc
      rw [List.getLast?_append_cons] at hc
      exact hlast c hc
    · simp
  rw [List.append_nil] at hend
  show trimEndMatches isWhitespace ((before ++ '<' :: after).dropWhile isWhitespace) = _
  rw [hdrop, hend]

theorem parseAddress_of_none {value : List Char} (h : splitOnce '<' (trim value) = none)
    (hne : trim value ≠ []) (hcontrol : (trim value).any isControl = false) :
  parseAddress value = some (none, toAsciiLowercase (trim value))
  := by
  simp only [parseAddress, h, hne, hcontrol, Bool.false_eq_true, or_self, if_false]
  rfl

theorem parseAddress_of_some {value name rest : List Char}
    (h : splitOnce '<' (trim value) = some (name, rest))
    (hne : trim (trimEndMatches (· = '>') rest) ≠ [])
    (hcontrol : (trim (trimEndMatches (· = '>') rest)).any isControl = false) :
  ∃ display, parseAddress value
    = some (display, toAsciiLowercase (trim (trimEndMatches (· = '>') rest)))
  := by
  simp only [parseAddress, h, hne, hcontrol, Bool.false_eq_true, or_self, if_false]
  exact ⟨_, rfl⟩

theorem any_isControl_eq_false {text text' : List Char} (h : text'.any isControl = false)
    (hsub : ∀ c ∈ text, c ∈ text') :
  text.any isControl = false
  := by
  rw [List.any_eq_false] at h ⊢
  exact fun c hc => h c (hsub c hc)

/-- A character that is not trimmed stays in the address of a piece: it stands in the piece if no
angle bracket does, or after the first one. -/
theorem exists_mem_parseAddress {value : List Char} {c : Char} (hwhite : isWhitespace c = false)
    (hclose : c ≠ '>') (hcontrol : value.any isControl = false)
    (h : ('<' ∉ value ∧ c ∈ value) ∨ ∃ before after, value = before ++ '<' :: after ∧ '<' ∉ before
      ∧ c ∈ after) :
  ∃ name address, parseAddress value = some (name, toAsciiLowercase address) ∧ c ∈ address
  := by
  rcases h with ⟨hopen, hc⟩ | ⟨before, after, rfl, hbefore, hc⟩
  · have hmem := mem_trim hc hwhite
    refine ⟨none, trim value, ?_, hmem⟩
    apply parseAddress_of_none
    · exact splitOnce_eq_none fun h => hopen (mem_of_mem_trim h)
    · exact List.ne_nil_of_mem hmem
    · exact any_isControl_eq_false hcontrol fun d hd => mem_of_mem_trim hd
  · -- What is trimmed at the ends is white space, so the first bracket stays where it is.
    obtain ⟨first, last, hsplit, hfirst, hlast, -, -⟩ := trim_split (before ++ '<' :: after)
    have hmem : '<' ∈ trim (before ++ '<' :: after) :=
      mem_trim (by simp) (by decide)
    obtain ⟨name, rest, hname, hnotMem⟩ := List.eq_append_cons_of_mem hmem
    have hopen : '<' ∉ first ++ name := by
      intro hin
      rcases List.mem_append.mp hin with hin | hin
      · exact absurd (hfirst '<' hin) (by decide)
      · exact hnotMem hin
    have htwo : splitOnce '<' (before ++ '<' :: after) = some (first ++ name, rest ++ last) := by
      rw [hsplit, hname]
      have happend := splitOnce_append hopen (rest ++ last)
      simpa using happend
    rw [splitOnce_append hbefore, Option.some.injEq, Prod.mk.injEq] at htwo
    have hrest : c ∈ rest := by
      rw [htwo.2, List.mem_append] at hc
      rcases hc with hc | hc
      · exact hc
      · rw [hlast c hc] at hwhite
        cases hwhite
    have haddress : c ∈ trim (trimEndMatches (· = '>') rest) :=
      mem_trim (mem_trimEndMatches hrest (decide_eq_false hclose)) hwhite
    have hsome : splitOnce '<' (trim (before ++ '<' :: after)) = some (name, rest) := by
      rw [hname]
      exact splitOnce_append hnotMem rest
    obtain ⟨display, hparse⟩ := parseAddress_of_some hsome (List.ne_nil_of_mem haddress)
      (any_isControl_eq_false hcontrol fun d hd => by
        have hin : d ∈ rest := mem_of_mem_trimEndMatches (mem_of_mem_trim hd)
        have htrim : d ∈ trim (before ++ '<' :: after) := by
          rw [hname]
          exact List.mem_append_right _ (List.mem_cons_of_mem _ hin)
        exact mem_of_mem_trim htrim)
    exact ⟨display, _, hparse, haddress⟩

/-- An address in brackets is read. -/
theorem exists_parseAddress {before address : List Char} (hbefore : '<' ∉ before)
    (hne : address ≠ []) (hcontrol : address.any isControl = false)
    (hhead : ∀ c, address.head? = some c → isWhitespace c = false)
    (hlast : ∀ c, address.getLast? = some c → isWhitespace c = false ∧ c ≠ '>') :
  ∃ name, parseAddress (before ++ '<' :: address ++ ['>']) = some (name, toAsciiLowercase address)
  := by
  have htrim : trim (before ++ '<' :: (address ++ ['>']))
      = before.dropWhile isWhitespace ++ '<' :: (address ++ ['>']) := by
    apply trim_open
    intro c hc
    rw [← List.cons_append, List.getLast?_append_cons] at hc
    cases hc
    decide
  have hopen : '<' ∉ before.dropWhile isWhitespace :=
    fun h => hbefore ((List.dropWhile_sublist isWhitespace).mem h)
  have hend : trim (trimEndMatches (· = '>') (address ++ ['>'])) = address := by
    rw [trimEndMatches_append]
    · exact trim_eq_self hhead fun c hc => (hlast c hc).1
    · exact fun c hc => decide_eq_false (hlast c hc).2
    · simp
  have hsome : splitOnce '<' (trim (before ++ '<' :: address ++ ['>']))
      = some (before.dropWhile isWhitespace, address ++ ['>']) := by
    rw [List.append_assoc, List.cons_append, htrim]
    exact splitOnce_append hopen _
  obtain ⟨name, hparse⟩ := parseAddress_of_some hsome (by rwa [hend]) (by rwa [hend])
  rw [hend] at hparse
  exact ⟨name, hparse⟩

example : parseAddress "Ann <A@b.c>".toList = some (some "Ann".toList, "a@b.c".toList)
  := by decide +kernel

/-! ### Addresses -/

theorem isAtext_spec {c : Char} (h : isAtext c = true) :
  isControl c = false ∧ isWhitespace c = false ∧ c ≠ '>'
  := by
  have hascii : c.toNat < 128 := by
    rw [isAtext, Bool.or_eq_true, decide_eq_true_eq] at h
    rcases h with h | h
    · exact toNat_lt_of_isAlphanum h
    · revert c
      decide
  revert h
  apply forall_ascii (P := fun c => isAtext c = true →
    isControl c = false ∧ isWhitespace c = false ∧ c ≠ '>') _ hascii
  decide

theorem isDotAtom_spec {text : List Char} (h : IsDotAtom text) :
  text ≠ [] ∧ ∀ c ∈ text, isControl c = false ∧ isWhitespace c = false ∧ c ≠ '>'
  := by
  obtain ⟨atoms, hne, hatoms, rfl⟩ := h
  constructor
  · obtain ⟨atom, rest, rfl⟩ := List.exists_cons_of_ne_nil hne
    have hatom := (hatoms atom List.mem_cons_self).1
    cases rest with
    | nil => rwa [List.intercalate_singleton]
    | cons next rest =>
        rw [List.intercalate_cons_cons, List.append_assoc]
        exact List.append_ne_nil_of_left_ne_nil hatom _
  · intro c hc
    rcases Packing.mem_intercalate hc with hc | ⟨atom, hatom, hc⟩
    · rw [List.mem_singleton.mp hc]
      decide
    · exact isAtext_spec ((hatoms atom hatom).2 c hc)

theorem isControl_of_mem_quotedString {content : List Char} (h : IsPrintable content) {c : Char}
    (hc : c ∈ quotedString content) :
  isControl c = false
  := by
  rw [quotedString, List.cons_append, List.mem_cons, List.mem_append, List.mem_flatMap] at hc
  rcases hc with rfl | ⟨d, hd, hc⟩ | hc
  · decide
  · rw [escapeQuoted] at hc
    split_ifs at hc
    · simp only [List.mem_cons, List.not_mem_nil, or_false] at hc
      rcases hc with rfl | rfl
      · decide
      · exact h c hd
    · rw [List.mem_singleton.mp hc]
      exact h d hd
  · rw [List.mem_singleton.mp hc]
    decide

namespace AddrSpec

variable (a : AddrSpec)

theorem isControl_of_mem {c : Char} (hc : c ∈ a.text) :
  isControl c = false
  := by
  obtain ⟨localPart, domain, htext, hlocal, hdomain⟩ := a.valid
  rw [htext, List.mem_append, List.mem_cons] at hc
  rcases hc with hc | rfl | hc
  · rcases hlocal with hlocal | ⟨content, hcontent, rfl⟩
    · exact ((isDotAtom_spec hlocal).2 c hc).1
    · exact isControl_of_mem_quotedString hcontent hc
  · decide
  · rcases hdomain with hdomain | ⟨content, hcontent, rfl⟩
    · exact ((isDotAtom_spec hdomain).2 c hc).1
    · simp only [List.cons_append, List.mem_cons, List.mem_append, List.not_mem_nil, or_false] at hc
      rcases hc with rfl | hc | rfl
      · decide
      · obtain ⟨hlow, hhigh, -⟩ := hcontent c hc
        simp only [isControl, Bool.or_eq_false_iff, Bool.and_eq_false_iff, decide_eq_false_iff_not]
        omega
      · decide

theorem any_isControl :
  a.text.any isControl = false
  := by
  rw [List.any_eq_false]
  intro c hc
  rw [a.isControl_of_mem hc]
  exact Bool.false_ne_true

theorem text_ne_nil :
  a.text ≠ []
  := by
  obtain ⟨localPart, domain, htext, -⟩ := a.valid
  simp [htext]

theorem head?_text {c : Char} (hc : a.text.head? = some c) :
  isWhitespace c = false
  := by
  obtain ⟨localPart, domain, htext, hlocal, -⟩ := a.valid
  rw [htext] at hc
  rcases hlocal with hlocal | ⟨content, -, rfl⟩
  · rw [List.head?_append_of_ne_nil _ (isDotAtom_spec hlocal).1] at hc
    exact ((isDotAtom_spec hlocal).2 c (List.mem_of_mem_head? hc)).2.1
  · cases hc
    decide

theorem getLast?_text {c : Char} (hc : a.text.getLast? = some c) :
  isWhitespace c = false ∧ c ≠ '>'
  := by
  obtain ⟨localPart, domain, htext, -, hdomain⟩ := a.valid
  rw [htext, List.getLast?_append_cons] at hc
  rcases hdomain with hdomain | ⟨content, -, rfl⟩
  · rw [List.getLast?_cons_of_ne_nil (isDotAtom_spec hdomain).1] at hc
    exact ((isDotAtom_spec hdomain).2 c (List.mem_of_getLast? hc)).2
  · rw [← List.cons_append, List.getLast?_append_cons] at hc
    cases hc
    decide

end AddrSpec

/-! ### What is read back -/

/-- The address has the characters with a meaning in quotes only, where the double quotes pair up. -/
structure AddrSpec.IsTame (a : AddrSpec) : Prop where
  comma : ',' ∉ outside false a.text
  opening : '<' ∉ outside false a.text
  closing : '>' ∉ outside false a.text
  even : Even (a.text.count '"')

/-- The name has no angle bracket, and no comma after an odd number of its double quotes; these are
even in number, unless nothing follows the mailbox. -/
def Mailbox.IsPlain (isLast : Prop) : Mailbox → Prop
  | bare address => address.IsTame ∧ '<' ∉ address.text
  | angled address => address.IsTame
  | named name _ _ address =>
      '<' ∉ name ∧ ',' ∉ outside true name
        ∧ (Even (name.count '"') ∧ address.IsTame
          ∨ ¬Even (name.count '"') ∧ isLast ∧ '"' ∉ address.text)

def IsPlainList : List Mailbox → Prop
  | [] => True
  | mailbox :: mailboxes => mailbox.IsPlain (mailboxes = []) ∧ IsPlainList mailboxes

/-- The address has no character with a meaning, and the name does not have both a double quote and an
angle bracket. -/
def Mailbox.IsOrdinary (mailbox : Mailbox) : Prop :=
  (∀ c ∈ ['"', ',', '<', '>'], c ∉ mailbox.address.text)
    ∧ ¬('"' ∈ mailbox.name ∧ '<' ∈ mailbox.name)

/-! ### Names in quotes -/

theorem endsQuoted_escapeQuoted (quoted : Bool) (c : Char) :
  endsQuoted quoted (escapeQuoted c) = endsQuoted quoted [c]
  := by
  rw [escapeQuoted]
  split_ifs with hc
  · simp [endsQuoted]
  · rfl

/-- The backslashes aside, the same characters are outside of quotes. -/
theorem filter_outside_escaped (quoted : Bool) (name : List Char) :
  (outside quoted (name.flatMap escapeQuoted)).filter (· ≠ '\\')
    = (outside quoted name).filter (· ≠ '\\')
  := by
  induction name generalizing quoted with
  | nil => rfl
  | cons c name ih =>
      have hone : (outside quoted (escapeQuoted c)).filter (· ≠ '\\')
          = (outside quoted [c]).filter (· ≠ '\\') := by
        rw [escapeQuoted]
        split_ifs with hc
        · rcases hc with rfl | rfl
          · cases quoted <;> decide
          · cases quoted <;> decide
        · rfl
      have hsplit := outside_append quoted [c] name
      rw [List.singleton_append] at hsplit
      rw [List.flatMap_cons, outside_append, List.filter_append, hone, endsQuoted_escapeQuoted, ih,
        hsplit, List.filter_append]

theorem mem_outside_escaped_iff {quoted : Bool} {name : List Char} {c : Char} (hc : c ≠ '\\') :
  c ∈ outside quoted (name.flatMap escapeQuoted) ↔ c ∈ outside quoted name
  := by
  have hfilter := congrArg (c ∈ ·) (filter_outside_escaped quoted name)
  simpa [List.mem_filter, hc] using hfilter

theorem count_escaped (name : List Char) :
  (name.flatMap escapeQuoted).count '"' = name.count '"'
  := by
  induction name with
  | nil => rfl
  | cons d name ih =>
      rw [List.flatMap_cons, List.count_append, ih, escapeQuoted]
      by_cases hquote : d = '"'
      · subst hquote
        simp [Nat.add_comm]
      · by_cases hslash : d = '\\'
        · subst hslash
          simp
        · simp [hquote, hslash]

theorem mem_escaped_iff {name : List Char} {c : Char} (hc : c ≠ '\\') :
  c ∈ name.flatMap escapeQuoted ↔ c ∈ name
  := by
  rw [List.mem_flatMap]
  constructor
  · rintro ⟨d, hd, hmem⟩
    rw [escapeQuoted] at hmem
    split_ifs at hmem
    · simp only [List.mem_cons, List.not_mem_nil, or_false] at hmem
      rcases hmem with hmem | rfl
      · exact absurd hmem hc
      · exact hd
    · rwa [List.mem_singleton.mp hmem]
  · intro hmem
    refine ⟨c, hmem, ?_⟩
    rw [escapeQuoted]
    split_ifs <;> simp

/-- The name in quotes, and the spaces after it. -/
def quotedName (name : List Char) (spaces : ℕ) : List Char :=
  quotedString name ++ List.replicate spaces ' '

theorem outside_quotedName {name : List Char} {spaces : ℕ} {c : Char} (hslash : c ≠ '\\')
    (hspace : c ≠ ' ') (hc : c ∈ outside false (quotedName name spaces)) :
  c ∈ outside true name
  := by
  have hspaces : ∀ quoted, c ∉ outside quoted ('"' :: List.replicate spaces ' ') := by
    intro quoted hmem
    rw [outside, if_pos rfl] at hmem
    exact hspace (List.eq_of_mem_replicate (mem_of_mem_outside hmem))
  rw [quotedName, quotedString, List.append_assoc, List.cons_append, outside, if_pos rfl,
    Bool.not_false, outside_append, List.mem_append, List.singleton_append] at hc
  rcases hc with hc | hc
  · exact (mem_outside_escaped_iff hslash).mp hc
  · exact absurd hc (hspaces _)

theorem endsQuoted_quotedName (name : List Char) (spaces : ℕ) :
  endsQuoted false (quotedName name spaces) = !decide (Even (name.count '"'))
  := by
  have hcount : (quotedName name spaces).count '"' = name.count '"' + 2 := by
    rw [quotedName, quotedString, List.append_assoc, List.cons_append, List.count_cons_self,
      List.count_append, count_escaped, List.singleton_append, List.count_cons_self,
      List.count_replicate]
    simp
  rw [endsQuoted_eq, hcount]
  by_cases heven : Even (name.count '"')
  · rw [if_pos (heven.add (by decide))]
    simp [heven]
  · rw [if_neg (fun h => heven ((Nat.even_add.mp h).mpr (by decide)))]
    simp [heven]

/-- A name without brackets has none in quotes. -/
theorem notMem_quotedName {name : List Char} {spaces : ℕ} (h : '<' ∉ name) :
  '<' ∉ quotedName name spaces
  := by
  rw [quotedName, quotedString, List.cons_append, List.mem_append, List.mem_cons, List.mem_append]
  rintro ((hc | hc | hc) | hc)
  · cases hc
  · exact h ((mem_escaped_iff (by decide)).mp hc)
  · simp at hc
  · cases List.eq_of_mem_replicate hc

/-! ### Reading mailboxes -/

/-- An address is read between angle brackets. -/
theorem addressPieces_angled {a : AddrSpec} (h : a.IsTame) (piece rest : List Char) :
  addressPieces .start piece ('<' :: a.text ++ '>' :: rest)
    = addressPieces .start (piece ++ '<' :: a.text ++ ['>']) rest
  := by
  have hends : endsQuoted false a.text = false := by rw [endsQuoted_eq, if_pos h.even]
  rw [List.cons_append, addressPieces_open,
    addressPieces_append h.comma h.opening (Or.inl h.closing), hends, addressPieces_close]
  simp

theorem addressPieces_bare {a : AddrSpec} (h : a.IsTame) (piece rest : List Char) :
  addressPieces .start piece (a.text ++ rest) = addressPieces .start (piece ++ a.text) rest
  := by
  have hpieces : addressPieces ⟨false, 0⟩ piece (a.text ++ rest) = _ :=
    addressPieces_append h.comma h.opening (Or.inr rfl) piece rest
  rwa [endsQuoted_eq, if_pos h.even] at hpieces

/-- A name in quotes is read as a part of the piece, and ends outside of quotes if the double quotes of
the name are even in number. -/
theorem addressPieces_quotedName {name : List Char} (hcomma : ',' ∉ outside true name)
    (hopen : '<' ∉ outside true name) (spaces : ℕ) (piece rest : List Char) :
  addressPieces .start piece (quotedName name spaces ++ rest)
    = addressPieces ⟨!decide (Even (name.count '"')), 0⟩ (piece ++ quotedName name spaces) rest
  := by
  have hpieces : addressPieces ⟨false, 0⟩ piece (quotedName name spaces ++ rest) = _ :=
    addressPieces_append (fun h => hcomma (outside_quotedName (by decide) (by decide) h))
      (fun h => hopen (outside_quotedName (by decide) (by decide) h)) (Or.inr rfl) piece rest
  rwa [endsQuoted_quotedName] at hpieces

theorem text_named (name : List Char) (printable : IsPrintable name) (spaces : ℕ) (a : AddrSpec) :
  (Mailbox.named name printable spaces a).text
    = quotedName name spaces ++ ('<' :: a.text ++ ['>'])
  := by
  simp [Mailbox.text, quotedName]

theorem addressPieces_named {name : List Char} {printable : IsPrintable name} {spaces : ℕ}
    {a : AddrSpec} (hcomma : ',' ∉ outside true name) (hopen : '<' ∉ outside true name)
    (heven : Even (name.count '"')) (htame : a.IsTame) (piece rest : List Char) :
  addressPieces .start piece ((Mailbox.named name printable spaces a).text ++ rest)
    = addressPieces .start (piece ++ (Mailbox.named name printable spaces a).text) rest
  := by
  have hpieces := addressPieces_angled htame (piece ++ quotedName name spaces) rest
  rw [text_named, List.append_assoc, addressPieces_quotedName hcomma hopen]
  simp only [heven, decide_true, Bool.not_true]
  rw [List.append_assoc, List.singleton_append]
  rw [Position.start] at hpieces ⊢
  rw [hpieces]
  simp

namespace Mailbox

/-- A mailbox that something follows is read as a part of its piece. -/
theorem addressPieces_text {mailbox : Mailbox} {isLast : Prop} (h : mailbox.IsPlain isLast)
    (hlast : ¬isLast) (piece rest : List Char) :
  addressPieces .start piece (mailbox.text ++ rest)
    = addressPieces .start (piece ++ mailbox.text) rest
  := by
  cases mailbox with
  | bare a => exact addressPieces_bare h.1 piece rest
  | angled a =>
      have hpieces := addressPieces_angled h piece rest
      simpa [text] using hpieces
  | named name printable spaces a =>
      obtain ⟨hopen, hcomma, hends⟩ := h
      rcases hends with ⟨heven, htame⟩ | ⟨-, hisLast, -⟩
      · exact addressPieces_named hcomma (fun h => hopen (mem_of_mem_outside h)) heven htame _ _
      · exact absurd hisLast hlast

/-- A mailbox that nothing follows is the last piece. -/
theorem addressPieces_last {mailbox : Mailbox} {isLast : Prop} (h : mailbox.IsPlain isLast)
    (piece : List Char) :
  addressPieces .start piece mailbox.text = [piece ++ mailbox.text]
  := by
  have hend : ∀ p piece, addressPieces p piece [] = [piece] := fun _ _ => rfl
  rw [← List.append_nil mailbox.text]
  cases mailbox with
  | bare a => rw [text, addressPieces_bare h.1, hend, List.append_nil]
  | angled a =>
      have hpieces := addressPieces_angled h piece []
      rw [hend] at hpieces
      simpa [text] using hpieces
  | named name printable spaces a =>
      obtain ⟨hopen, hcomma, ⟨heven, htame⟩ | ⟨hodd, -, hquote⟩⟩ := h
      · rw [addressPieces_named hcomma (fun h => hopen (mem_of_mem_outside h)) heven htame, hend,
          List.append_nil]
      · -- The address is read as a part of the quote.
        have hinside : '"' ∉ '<' :: a.text ++ ['>'] := by simp [hquote]
        have hnone := outside_eq_nil hinside
        have hpieces := addressPieces_append (by rw [hnone]; simp) (by rw [hnone]; simp) (Or.inr rfl)
          (piece ++ quotedName name spaces) []
        rw [text_named, List.append_assoc,
          addressPieces_quotedName hcomma (fun h => hopen (mem_of_mem_outside h))]
        simp only [hodd, decide_false, Bool.not_false]
        rw [hpieces, hend]
        simp

/-- The address of a mailbox is read from its piece. -/
theorem exists_parseAddress_text {mailbox : Mailbox} {isLast : Prop} (h : mailbox.IsPlain isLast)
    {before : List Char} (hbefore : ∀ c ∈ before, c = ' ') :
  ∃ name, parseAddress (before ++ mailbox.text)
    = some (name, toAsciiLowercase mailbox.address.text)
  := by
  have hopen : '<' ∉ before := fun hmem => absurd (hbefore '<' hmem) (by decide)
  have hangled : ∀ (a : AddrSpec) (quoted : List Char), '<' ∉ quoted →
      ∃ name, parseAddress (before ++ (quoted ++ ('<' :: a.text ++ ['>'])))
        = some (name, toAsciiLowercase a.text) := by
    intro a quoted hquoted
    have hnotMem : '<' ∉ before ++ quoted :=
      fun hmem => (List.mem_append.mp hmem).elim hopen hquoted
    obtain ⟨name, hname⟩ := exists_parseAddress hnotMem a.text_ne_nil a.any_isControl
      (fun c hc => a.head?_text hc) (fun c hc => a.getLast?_text hc)
    exact ⟨name, by simpa using hname⟩
  cases mailbox with
  | bare a =>
      have hwhite : ∀ c ∈ before, isWhitespace c = true := by
        intro c hc
        rw [hbefore c hc]
        decide
      have htrim : trim (before ++ a.text) = a.text := by
        have hafter : ∀ c ∈ ([] : List Char), isWhitespace c = true := by simp
        have happend := trim_append hwhite hafter a.text
        rw [List.append_nil] at happend
        rw [happend]
        exact trim_eq_self (fun c hc => a.head?_text hc) fun c hc => (a.getLast?_text hc).1
      refine ⟨none, ?_⟩
      have hparse : splitOnce '<' (trim (before ++ a.text)) = none → _ → _ → _ :=
        parseAddress_of_none
      rw [htrim] at hparse
      exact hparse (splitOnce_eq_none h.2) a.text_ne_nil a.any_isControl
  | angled a => exact hangled a [] (by simp)
  | named name printable spaces a =>
      rw [text_named]
      exact hangled a _ (notMem_quotedName h.1)

end Mailbox

theorem mailboxList_cons_cons (mailbox next : Mailbox) (mailboxes : List Mailbox) :
  mailboxList (mailbox :: next :: mailboxes)
    = mailbox.text ++ ',' :: ' ' :: mailboxList (next :: mailboxes)
  := by
  rw [mailboxList, List.map_cons, List.map_cons, List.intercalate_cons_cons, mailboxList,
    List.map_cons]
  simp

/-- The entries of a list that has begun with some spaces. -/
def addressesAfter (before : List Char) (mailboxes : List Mailbox) : List (List Char) :=
  ((addressPieces .start before (mailboxList mailboxes)).filterMap parseAddress).map Prod.snd

/-- A mailbox that is plain is read, and then the ones after it. -/
theorem addressesAfter_cons {mailbox : Mailbox} {mailboxes : List Mailbox}
    (h : mailbox.IsPlain (mailboxes = [])) {before : List Char} (hbefore : ∀ c ∈ before, c = ' ') :
  addressesAfter before (mailbox :: mailboxes)
    = toAsciiLowercase mailbox.address.text
      :: if mailboxes = [] then [] else addressesAfter [' '] mailboxes
  := by
  obtain ⟨name, hname⟩ := mailbox.exists_parseAddress_text h hbefore
  cases mailboxes with
  | nil =>
      have hlist : mailboxList [mailbox] = mailbox.text := List.intercalate_singleton
      rw [addressesAfter, hlist, Mailbox.addressPieces_last h, if_pos rfl]
      simp [hname]
  | cons next mailboxes =>
      rw [addressesAfter, mailboxList_cons_cons, Mailbox.addressPieces_text h (by simp),
        addressPieces_comma, addressPieces_space, if_neg (List.cons_ne_nil _ _), addressesAfter]
      simp [hname]

theorem addressesAfter_eq {mailboxes : List Mailbox} (h : IsPlainList mailboxes)
    (hne : mailboxes ≠ []) {before : List Char} (hbefore : ∀ c ∈ before, c = ' ') :
  addressesAfter before mailboxes
    = mailboxes.map fun mailbox => toAsciiLowercase mailbox.address.text
  := by
  induction mailboxes generalizing before with
  | nil => exact absurd rfl hne
  | cons mailbox mailboxes ih =>
      rw [IsPlainList] at h
      rw [addressesAfter_cons h.1 hbefore, List.map_cons]
      split_ifs with hnil
      · rw [hnil, List.map_nil]
      · rw [ih h.2 hnil (fun c hc => List.mem_singleton.mp hc)]

/-! ### What is not read back -/

theorem Mailbox.isControl_of_mem_text {mailbox : Mailbox} {c : Char} (hc : c ∈ mailbox.text) :
  isControl c = false
  := by
  have hangled : ∀ a : AddrSpec, c ∈ '<' :: a.text ++ ['>'] → isControl c = false := by
    intro a hc
    simp only [List.cons_append, List.mem_cons, List.mem_append, List.not_mem_nil, or_false] at hc
    rcases hc with rfl | hc | rfl
    · decide
    · exact a.isControl_of_mem hc
    · decide
  cases mailbox with
  | bare a => exact a.isControl_of_mem hc
  | angled a => exact hangled a hc
  | named name printable spaces a =>
      rw [text_named, List.mem_append, quotedName, List.mem_append] at hc
      rcases hc with (hc | hc) | hc
      · exact isControl_of_mem_quotedString printable hc
      · rw [List.eq_of_mem_replicate hc]
        decide
      · exact hangled a hc

theorem isControl_of_mem_mailboxList {mailboxes : List Mailbox} {c : Char}
    (hc : c ∈ mailboxList mailboxes) :
  isControl c = false
  := by
  have hbetween : ∀ c ∈ ", ".toList, isControl c = false := by decide
  rcases Packing.mem_intercalate hc with hc | ⟨text, htext, hc⟩
  · exact hbetween c hc
  · obtain ⟨mailbox, -, rfl⟩ := List.mem_map.mp htext
    exact mailbox.isControl_of_mem_text hc

theorem exists_mailboxList_cons (mailbox : Mailbox) (mailboxes : List Mailbox) :
  ∃ more, mailboxList (mailbox :: mailboxes) = mailbox.text ++ more
  := by
  cases mailboxes with
  | nil => exact ⟨[], by rw [mailboxList, List.map_singleton, List.intercalate_singleton,
      List.append_nil]⟩
  | cons next mailboxes => exact ⟨_, mailboxList_cons_cons mailbox next mailboxes⟩

/-- An address with the character is read from the value. -/
def Keeps (c : Char) (value : List Char) : Prop :=
  ('<' ∉ value ∧ c ∈ value) ∨ ∃ before after, value = before ++ '<' :: after ∧ '<' ∉ before
    ∧ c ∈ after

section

variable {name : List Char} {printable : IsPrintable name} {spaces : ℕ} {a : AddrSpec}
variable {before : List Char}

/-- The double quote after a name with an angle bracket belongs to what is read as the address. -/
theorem exists_keeps_of_open (hquote : '"' ∉ name) (hopen : '<' ∈ name) (hbefore : '<' ∉ before)
    (more : List Char) :
  ∃ value pieces, Keeps '"' value
    ∧ addressPieces .start before ((Mailbox.named name printable spaces a).text ++ more)
      = value :: pieces
  := by
  have hnone := outside_eq_nil hquote
  obtain ⟨start, rest, hescaped, hstart⟩ := List.eq_append_cons_of_mem
    ((mem_escaped_iff (by decide)).mpr hopen)
  rw [text_named, List.append_assoc, addressPieces_quotedName (by rw [hnone]; simp)
    (by rw [hnone]; simp)]
  obtain ⟨after, pieces, -, hpieces⟩ := exists_addressPieces
    ⟨!decide (Even (name.count '"')), 0⟩ (before ++ quotedName name spaces)
    ('<' :: a.text ++ ['>'] ++ more)
  refine ⟨_, pieces, Or.inr ⟨before ++ '"' :: start,
    rest ++ '"' :: List.replicate spaces ' ' ++ after, ?_, ?_, ?_⟩, hpieces⟩
  · rw [quotedName, quotedString, hescaped]
    simp
  · rw [List.mem_append, List.mem_cons]
    rintro (h | h | h)
    · exact hbefore h
    · cases h
    · exact hstart h
  · simp

/-- A name that is cut leaves a piece with the double quote before it. -/
theorem exists_keeps_of_comma (hcomma : ',' ∈ outside true name) (hopen : '<' ∉ name)
    (hbefore : '<' ∉ before) (more : List Char) :
  ∃ value pieces, Keeps '"' value
    ∧ addressPieces .start before ((Mailbox.named name printable spaces a).text ++ more)
      = value :: pieces
  := by
  have hescaped : '<' ∉ name.flatMap escapeQuoted :=
    fun h => hopen ((mem_escaped_iff (by decide)).mp h)
  obtain ⟨start, pieces, hsub, hpieces⟩ := addressPieces_cut
    ((mem_outside_escaped_iff (by decide)).mpr hcomma) hescaped (before ++ ['"'])
    ('"' :: List.replicate spaces ' ' ++ '<' :: a.text ++ '>' :: more)
  refine ⟨before ++ ['"'] ++ start, pieces, Or.inl ⟨?_, by simp⟩, ?_⟩
  · rw [List.mem_append, List.mem_append]
    rintro ((h | h) | h)
    · exact hbefore h
    · simp at h
    · exact hescaped (hsub.subset h)
  · have hquote : addressPieces ⟨false, 0⟩ before _ = _ := addressPieces_quote before
      (name.flatMap escapeQuoted
        ++ ('"' :: List.replicate spaces ' ' ++ '<' :: a.text ++ '>' :: more)) false
    rw [Bool.not_false, hpieces] at hquote
    rw [← hquote]
    simp [Mailbox.text, quotedString, Position.start]

/-- After a name with an odd number of double quotes, the comma after the address is read as a part of
it. -/
theorem exists_keeps_of_odd (hcomma : ',' ∉ outside true name) (hopen : '<' ∉ name)
    (hodd : ¬Even (name.count '"')) (hquote : '"' ∉ a.text) (hbefore : '<' ∉ before)
    (more : List Char) :
  ∃ value pieces, Keeps ',' value
    ∧ addressPieces .start before ((Mailbox.named name printable spaces a).text ++ ',' :: more)
      = value :: pieces
  := by
  have hinside : '"' ∉ '<' :: a.text ++ ">,".toList := by simp [hquote]
  have hnone := outside_eq_nil hinside
  have hends : endsQuoted true ('<' :: a.text ++ ">,".toList) = true := by
    rw [endsQuoted_eq, List.count_eq_zero_of_not_mem hinside, if_pos (by decide)]
  have hread := addressPieces_append (by rw [hnone]; simp) (by rw [hnone]; simp) (Or.inr rfl)
    (before ++ quotedName name spaces) more
  rw [hends] at hread
  obtain ⟨after, pieces, -, hpieces⟩ := exists_addressPieces ⟨true, 0⟩
    (before ++ quotedName name spaces ++ ('<' :: a.text ++ ">,".toList)) more
  refine ⟨before ++ quotedName name spaces ++ '<' :: (a.text ++ ">,".toList ++ after), pieces,
    Or.inr ⟨_, _, rfl, ?_, by simp⟩, ?_⟩
  · rw [List.mem_append]
    exact fun h => h.elim hbefore (notMem_quotedName hopen)
  · have hname := addressPieces_quotedName hcomma (fun h => hopen (mem_of_mem_outside h)) spaces before
      ('<' :: a.text ++ ">,".toList ++ more)
    simp only [hodd, decide_false, Bool.not_false] at hname
    rw [hread, hpieces] at hname
    rw [text_named]
    simpa using hname

end

/-- A mailbox that is not plain has a double quote or a comma in what is read of it first. -/
theorem exists_keeps {mailbox : Mailbox} {mailboxes : List Mailbox}
    (h : ¬mailbox.IsPlain (mailboxes = [])) (hordinary : mailbox.IsOrdinary) {before : List Char}
    (hbefore : '<' ∉ before) :
  ∃ c ∈ ['"', ','], ∃ value pieces, Keeps c value
    ∧ addressPieces .start before (mailboxList (mailbox :: mailboxes)) = value :: pieces
  := by
  obtain ⟨haddress, hname⟩ := hordinary
  have htame : mailbox.address.IsTame := by
    have hout : ∀ c ∈ ['"', ',', '<', '>'], c ∉ outside false mailbox.address.text :=
      fun c hc hmem => haddress c hc (mem_of_mem_outside hmem)
    have hcount := List.count_eq_zero_of_not_mem (haddress '"' (by simp))
    exact ⟨hout ',' (by simp), hout '<' (by simp), hout '>' (by simp), by rw [hcount]; decide⟩
  obtain ⟨more, hmore⟩ := exists_mailboxList_cons mailbox mailboxes
  cases mailbox with
  | bare a => exact absurd ⟨htame, haddress '<' (by simp)⟩ h
  | angled a => exact absurd htame h
  | named name printable spaces a =>
      by_cases hopen : '<' ∈ name
      · rw [hmore]
        exact ⟨'"', by simp, exists_keeps_of_open (fun hquote => hname ⟨hquote, hopen⟩) hopen hbefore
          more⟩
      · by_cases hcomma : ',' ∈ outside true name
        · rw [hmore]
          exact ⟨'"', by simp, exists_keeps_of_comma hcomma hopen hbefore more⟩
        · have hodd : ¬Even (name.count '"') :=
            fun heven => h ⟨hopen, hcomma, Or.inl ⟨heven, htame⟩⟩
          have hquote : '"' ∉ a.text := haddress '"' (by simp)
          cases mailboxes with
          | nil => exact absurd ⟨hopen, hcomma, Or.inr ⟨hodd, rfl, hquote⟩⟩ h
          | cons next mailboxes =>
              rw [mailboxList_cons_cons]
              exact ⟨',', by simp, exists_keeps_of_odd hcomma hopen hodd hquote hbefore _⟩

/-- The list is not read back if its first mailbox is not plain. -/
theorem Mailbox.isPlain_of_addressesAfter {mailbox : Mailbox} {mailboxes : List Mailbox}
    (hordinary : mailbox.IsOrdinary) {before : List Char} (hbefore : ∀ c ∈ before, c = ' ')
    {addresses : List (List Char)}
    (h : addressesAfter before (mailbox :: mailboxes)
      = toAsciiLowercase mailbox.address.text :: addresses) :
  mailbox.IsPlain (mailboxes = [])
  := by
  by_contra hplain
  have hopen : '<' ∉ before := fun hmem => absurd (hbefore '<' hmem) (by decide)
  obtain ⟨c, hc, value, pieces, hkeeps, hpieces⟩ := exists_keeps hplain hordinary hopen
  obtain ⟨start, others, hsub, hothers⟩ := exists_addressPieces .start before
    (mailboxList (mailbox :: mailboxes))
  rw [hpieces, List.cons.injEq] at hothers
  have hcontrol : value.any isControl = false := by
    rw [List.any_eq_false, hothers.1]
    intro d hd
    rw [Bool.not_eq_true]
    rcases List.mem_append.mp hd with hd | hd
    · rw [hbefore d hd]
      decide
    · exact isControl_of_mem_mailboxList (hsub.subset hd)
  have hstays : ∀ c ∈ ['"', ','], isWhitespace c = false ∧ c ≠ '>' ∧ c.isAlpha = false
      ∧ c ∈ ['"', ',', '<', '>'] := by
    decide
  obtain ⟨hwhite, hclose, halpha, hspecial⟩ := hstays c hc
  obtain ⟨name, address, hparse, hmem⟩ := exists_mem_parseAddress hwhite hclose hcontrol hkeeps
  -- The address that is read has a character that the mailbox's does not have.
  rw [addressesAfter, hpieces, List.filterMap_cons, hparse, List.map_cons, List.cons.injEq] at h
  have hlower : c.toLower ∈ toAsciiLowercase mailbox.address.text := by
    rw [← h.1]
    exact List.mem_map_of_mem hmem
  obtain ⟨d, hd, hsame⟩ := List.mem_map.mp hlower
  have hc' : c.toLower = c := by
    rcases toLower_eq_or c with hc' | ⟨hisAlpha, -⟩
    · exact hc'
    · rw [halpha] at hisAlpha
      cases hisAlpha
  rw [hc'] at hsame
  rw [eq_of_toLower_eq halpha hsame] at hd
  exact hordinary.1 c hspecial hd

theorem isPlainList_of_addressesAfter {mailboxes : List Mailbox}
    (hordinary : ∀ mailbox ∈ mailboxes, mailbox.IsOrdinary) {before : List Char}
    (hbefore : ∀ c ∈ before, c = ' ')
    (h : addressesAfter before mailboxes
      = mailboxes.map fun mailbox => toAsciiLowercase mailbox.address.text) :
  IsPlainList mailboxes
  := by
  induction mailboxes generalizing before with
  | nil => trivial
  | cons mailbox mailboxes ih =>
      rw [List.forall_mem_cons] at hordinary
      have hplain := Mailbox.isPlain_of_addressesAfter hordinary.1 hbefore h
      rw [addressesAfter_cons hplain hbefore, List.map_cons, List.cons.injEq] at h
      rw [IsPlainList]
      refine ⟨hplain, ?_⟩
      by_cases hnil : mailboxes = []
      · rw [hnil]
        trivial
      · rw [if_neg hnil] at h
        exact ih hordinary.2 (fun c hc => List.mem_singleton.mp hc) h.2

/-! ### Lists -/

/-- A word at a domain. -/
def sampleAddress (word : List Char) (hne : word ≠ []) (hword : ∀ c ∈ word, isAtext c = true) :
    AddrSpec where
  text := word ++ "@example.invalid".toList
  valid := by
    refine ⟨word, "example.invalid".toList, rfl, Or.inl ⟨[word], by simp, ?_, ?_⟩,
      Or.inl ⟨["example".toList, "invalid".toList], by simp, by decide, rfl⟩⟩
    · intro atom hatom
      rw [List.mem_singleton.mp hatom]
      exact ⟨hne, hword⟩
    · rw [List.intercalate_singleton]

end Mime

end Graph
