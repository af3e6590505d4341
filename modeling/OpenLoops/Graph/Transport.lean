import OpenLoops.Graph.Mime
import OpenLoops.Library.Fallible
import OpenLoops.Library.Numerals
import OpenLoops.Library.Program

/-!
# Reading a response

A response is read from a stream of bytes that a reader delivers in pieces: its head byte by byte up
to the first blank line, then its body, of the length that the head declares, in larger pieces.
What is read does not depend on the pieces.
-/

namespace Graph

namespace Transport

/-! ### Responses -/

inductive TransportError where
  | connect
  | timeout
  | malformedResponse
  | responseTooLarge
  | redirectRejected
  /-- The seconds to wait, when they are given. -/
  | throttled (retryAfter : Option ℕ)
  | serverError (status : ℕ)
  | alreadyInFlight
deriving DecidableEq, Repr

structure GraphResponse where
  status : ℕ
  body : List UInt8
deriving DecidableEq, Repr

def maxHeadBytes : ℕ := 8192

def maxResponseBytes : ℕ := 1048576

/-- The seconds to wait that a header gives, when it has digits only. -/
def parseRetryAfter (headerValue : Option (List Char)) : Option ℕ :=
  headerValue.bind fun raw =>
    if raw = [] ∨ 10 < (Utf8.bytes raw).length ∨ ¬raw.all Char.isDigit then none
    else Numerals.parse (2 ^ 64) raw

def isThrottledStatus (status : ℕ) : Bool :=
  status = 429 || status = 503 || status = 504

/-- The parts of a text between the ends of lines. -/
def splitCrLf : List Char → List (List Char)
  | '\r' :: '\n' :: text => [] :: splitCrLf text
  | c :: text =>
      match splitCrLf text with
      | line :: lines => (c :: line) :: lines
      | [] => [[c]]
  | [] => [[]]

/-- The number after the first space. -/
def parseStatus (statusLine : List Char) : Option ℕ :=
  (statusLine.splitOn ' ')[1]?.bind (Numerals.parse (2 ^ 16))

/-- What the headers say; of several lengths the last one counts. -/
structure Headers where
  contentLength : Option ℕ
  retryAfter : Option (List Char)

def Headers.add (headers : Headers) (line : List Char) : Headers :=
  if line = [] then headers
  else
    match splitOnce ':' line with
    | none => headers
    | some (name, value) =>
        if Mime.isNamed "content-length" name then
          { headers with contentLength := Numerals.parse (2 ^ 64) (trim value) }
        else if Mime.isNamed "retry-after" name then
          { headers with retryAfter := some (trim value) }
        else headers

/-- A head whose body is to be read. -/
structure Head where
  status : ℕ
  length : ℕ
  retryAfter : Option (List Char)

def parseHead (head : List UInt8) : Except TransportError Head := do
  let text ← (Utf8.decode? head).okOr .malformedResponse
  match splitCrLf text with
  | [] => throw .malformedResponse
  | statusLine :: lines =>
      let status ← (parseStatus statusLine).okOr .malformedResponse
      let headers := lines.foldl Headers.add ⟨none, none⟩
      if 300 ≤ status ∧ status < 400 then throw .redirectRejected
      let length ← headers.contentLength.okOr .malformedResponse
      if maxResponseBytes < length then throw .responseTooLarge
      return ⟨status, length, headers.retryAfter⟩

/-- The response of a status and a body that were read. -/
def respond (head : Head) (body : List UInt8) : Except TransportError GraphResponse :=
  if isThrottledStatus head.status then .error (.throttled (parseRetryAfter head.retryAfter))
  else if 500 ≤ head.status then .error (.serverError head.status)
  else .ok ⟨head.status, body⟩

/-! ### Reading -/

inductive IoErrorKind where
  | timedOut
  | wouldBlock
  | other
deriving DecidableEq, Repr

def classifyIoError : IoErrorKind → TransportError
  | .timedOut | .wouldBlock => .timeout
  | .other => .connect

/-- What a response is read with. -/
inductive ReadOperation where
  /-- Whether the deadline has passed. -/
  | expired
  /-- At most so many bytes. -/
  | read (want : ℕ)

/-- No bytes are read at the end of the stream. -/
def ReadAnswer : ReadOperation → Type
  | .expired => Bool
  | .read want => Except IoErrorKind { bytes : List UInt8 // bytes.length ≤ want }

abbrev ReadProgram : Type → Type :=
  Program ReadOperation ReadAnswer

/-- The end of a line and an empty one. -/
def blankLine : List UInt8 := [13, 10, 13, 10]

/-- The rest of a head. -/
def readHead (head : List UInt8) : ReadProgram (Except TransportError (List UInt8)) :=
  .perform .expired fun expired : Bool =>
    if expired then .done (.error .timeout)
    else if _h : maxHeadBytes ≤ head.length then .done (.error .malformedResponse)
    else
      .perform (.read 1) fun
        | .error kind => .done (.error (classifyIoError kind))
        | .ok ⟨[], _⟩ => .done (.error .malformedResponse)
        | .ok ⟨byte :: _, _⟩ =>
            if blankLine <:+ head ++ [byte] then .done (.ok (head ++ [byte]))
            else readHead (head ++ [byte])
termination_by maxHeadBytes - head.length
decreasing_by
  simp only [List.length_append, List.length_singleton]
  omega

/-- The rest of a body. -/
def readBody (length : ℕ) (body : List UInt8) : ReadProgram (Except TransportError (List UInt8)) :=
  if _h : body.length < length then
    .perform .expired fun expired : Bool =>
      if expired then .done (.error .timeout)
      else
        .perform (.read (min 4096 (length - body.length))) fun
          | .error kind => .done (.error (classifyIoError kind))
          | .ok ⟨[], _⟩ => .done (.error .malformedResponse)
          | .ok ⟨byte :: bytes, _⟩ =>
              if maxResponseBytes < (body ++ byte :: bytes).length then
                .done (.error .responseTooLarge)
              else readBody length (body ++ byte :: bytes)
  else .done (.ok body)
termination_by length - body.length
decreasing_by
  simp only [List.length_append, List.length_cons]
  omega

def readResponse : ReadProgram (Except TransportError GraphResponse) := do
  match ← readHead [] with
  | .error e => return .error e
  | .ok head =>
      match parseHead head with
      | .error e => return .error e
      | .ok head =>
          match ← readBody head.length [] with
          | .error e => return .error e
          | .ok body => return respond head body

/-! ### Readers -/

/-- A reader that delivers the bytes of a stream in some pieces, without errors and in time. -/
structure Reader (σ : Type) where
  read : σ → (want : ℕ) → { bytes : List UInt8 // bytes.length ≤ want } × σ
  /-- The bytes that are still to be delivered. -/
  rest : σ → List UInt8
  read_append_rest : ∀ s want, (read s want).1.val ++ rest (read s want).2 = rest s
  rest_eq_nil : ∀ s want, 0 < want → (read s want).1.val = [] → rest s = []

namespace Reader

variable {σ : Type} (reader : Reader σ)

def serve : σ → (o : ReadOperation) → ReadAnswer o × σ
  | s, .expired => (false, s)
  | s, .read want => (.ok (reader.read s want).1, (reader.read s want).2)

/-- What is read, and the bytes that are left. -/
def result {α : Type} (program : ReadProgram α) (s : σ) : α × List UInt8 :=
  let run := program.exec reader.serve s
  (run.2.1, reader.rest run.2.2)

theorem result_bind {α β : Type} (p : ReadProgram α) (f : α → ReadProgram β) (s : σ) :
  ∃ t, (reader.result p s).2 = reader.rest t
    ∧ reader.result (p >>= f) s = reader.result (f (reader.result p s).1) t
  := by
  use (p.exec reader.serve s).2.2, rfl
  rw [result, Program.exec_bind]
  rfl

/-- A reader at the end of the stream, or one that delivers some bytes. -/
theorem read_cases (s : σ) {want : ℕ} (hwant : 0 < want) :
  ((reader.read s want).1.val = [] ∧ reader.rest s = []) ∨
    ∃ byte bytes, (reader.read s want).1.val = byte :: bytes ∧ (byte :: bytes).length ≤ want
      ∧ reader.rest s = byte :: bytes ++ reader.rest (reader.read s want).2
  := by
  cases hread : (reader.read s want).1.val with
  | nil => exact Or.inl ⟨rfl, reader.rest_eq_nil s want hwant hread⟩
  | cons byte bytes =>
      right
      use byte, bytes, rfl
      have hrest := reader.read_append_rest s want
      rw [hread] at hrest
      exact ⟨hread ▸ (reader.read s want).1.property, hrest.symm⟩

/-- The reader that delivers as many bytes as are wanted. -/
def whole : Reader (List UInt8) where
  read s want := (⟨s.take want, List.length_take_le want s⟩, s.drop want)
  rest := id
  read_append_rest s want := List.take_append_drop want s
  rest_eq_nil _ _ hwant hread := (List.take_eq_nil_iff.mp hread).resolve_left hwant.ne'

end Reader

/-! ### Heads -/

/-- The bytes up to the first blank line, and those after it. -/
def headOf (head : List UInt8) : List UInt8 → Option (List UInt8 × List UInt8)
  | [] => none
  | byte :: stream =>
      if maxHeadBytes ≤ head.length then none
      else if blankLine <:+ head ++ [byte] then some (head ++ [byte], stream)
      else headOf (head ++ [byte]) stream

/-- The head ends with a blank line, and with no other one before. -/
def IsHead (head : List UInt8) : Prop :=
  ∀ before, before <+: head → (blankLine <:+ before ↔ before = head)

theorem IsHead.blankLine_suffix {head : List UInt8} (h : IsHead head) :
  blankLine <:+ head
  := (h head (List.prefix_refl head)).mpr rfl

theorem headOf_iff_of_seen {seen stream head rest : List UInt8}
    (hseen : ∀ before, before <+: seen → ¬ blankLine <:+ before) :
  headOf seen stream = some (head, rest) ↔
    ∃ added, head = seen ++ added ∧ stream = added ++ rest ∧ IsHead head
      ∧ head.length ≤ maxHeadBytes
  := by
  -- a head is longer than what was seen of it
  have hmore : ¬ IsHead seen := fun h => hseen seen (List.prefix_refl seen) h.blankLine_suffix
  induction stream generalizing seen with
  | nil =>
      constructor
      · rintro ⟨⟩
      · rintro ⟨added, rfl, hstream, hhead, -⟩
        obtain ⟨rfl, rfl⟩ := List.append_eq_nil_iff.mp hstream.symm
        rw [List.append_nil] at hhead
        exact absurd hhead hmore
  | cons byte stream ih =>
      rw [headOf]
      split
      · next hfull =>
          constructor
          · rintro ⟨⟩
          · rintro ⟨_ | ⟨_, added⟩, rfl, -, hhead, hlength⟩
            · rw [List.append_nil] at hhead
              exact absurd hhead hmore
            · rw [List.length_append, List.length_cons] at hlength
              omega
      · next hroom =>
          split
          · next hblank =>
              constructor
              · rintro ⟨⟩
                refine ⟨[byte], rfl, rfl, ?_, ?_⟩
                · intro before hbefore
                  rcases List.prefix_concat_iff.mp hbefore with rfl | hshort
                  · exact iff_of_true hblank rfl
                  · apply iff_of_false (hseen before hshort)
                    rintro rfl
                    have hlength := hshort.length_le
                    rw [List.length_append, List.length_singleton] at hlength
                    omega
                · rw [List.length_append, List.length_singleton]
                  omega
              · rintro ⟨_ | ⟨_, added⟩, rfl, hstream, hhead, -⟩
                · rw [List.append_nil] at hhead
                  exact absurd hhead hmore
                · obtain ⟨rfl, rfl⟩ := List.cons.inj hstream
                  have hwhole := (hhead (seen ++ [byte])
                    (List.prefix_append_right_inj seen |>.mpr (by simp))).mp hblank
                  obtain rfl : added = [] := by simpa using hwhole
                  rfl
          · next hblank =>
              have hseen' : ∀ before, before <+: seen ++ [byte] → ¬ blankLine <:+ before := by
                intro before hbefore
                rcases List.prefix_concat_iff.mp hbefore with rfl | hshort
                · exact hblank
                · exact hseen before hshort
              apply (ih hseen' fun h => hseen' _ (List.prefix_refl _) h.blankLine_suffix).trans
              constructor
              · rintro ⟨added, rfl, rfl, hhead, hlength⟩
                exact ⟨byte :: added, List.append_assoc _ _ _, rfl, hhead, hlength⟩
              · rintro ⟨_ | ⟨_, added⟩, rfl, hstream, hhead, hlength⟩
                · rw [List.append_nil] at hhead
                  exact absurd hhead hmore
                · obtain ⟨rfl, rfl⟩ := List.cons.inj hstream
                  exact ⟨added, (List.append_assoc seen [byte] added).symm, rfl, hhead, hlength⟩

/-- The head goes up to the first blank line. -/
theorem headOf_eq_some_iff {stream head rest : List UInt8} :
  headOf [] stream = some (head, rest) ↔
    stream = head ++ rest ∧ IsHead head ∧ head.length ≤ maxHeadBytes
  := by
  have hnone : ∀ before : List UInt8, before <+: [] → ¬ blankLine <:+ before := by
    intro before hbefore hblank
    rw [List.prefix_nil.mp hbefore] at hblank
    exact absurd hblank.length_le (by decide)
  rw [headOf_iff_of_seen hnone]
  constructor
  · rintro ⟨added, rfl, rfl, hhead⟩
    exact ⟨rfl, hhead⟩
  · rintro ⟨rfl, hhead⟩
    exact ⟨head, rfl, rfl, hhead⟩

variable {σ : Type} (reader : Reader σ)

theorem result_readHead_of_full {head : List UInt8} (h : maxHeadBytes ≤ head.length) (s : σ) :
  (reader.result (readHead head) s).1 = .error .malformedResponse
  := by
  rw [readHead, Reader.result]
  simp only [Program.exec, Reader.serve, Bool.false_eq_true, if_false, dif_pos h]

theorem result_readHead_of_end {head : List UInt8} (h : ¬ maxHeadBytes ≤ head.length) {s : σ}
    (hread : (reader.read s 1).1.val = []) :
  (reader.result (readHead head) s).1 = .error .malformedResponse
  := by
  rw [readHead, Reader.result]
  rcases hpiece : reader.read s 1 with ⟨⟨bytes, hbytes⟩, s'⟩
  rw [hpiece] at hread
  obtain rfl : bytes = [] := hread
  simp only [Program.exec, Reader.serve, Bool.false_eq_true, if_false, dif_neg h, hpiece]

theorem result_readHead_of_byte {head : List UInt8} (h : ¬ maxHeadBytes ≤ head.length) {s : σ}
    {byte : UInt8} (hread : (reader.read s 1).1.val = [byte]) :
  reader.result (readHead head) s =
    if blankLine <:+ head ++ [byte] then
      (.ok (head ++ [byte]), reader.rest (reader.read s 1).2)
    else reader.result (readHead (head ++ [byte])) (reader.read s 1).2
  := by
  rw [readHead, Reader.result]
  rcases hpiece : reader.read s 1 with ⟨⟨bytes, hbytes⟩, s'⟩
  rw [hpiece] at hread
  obtain rfl : bytes = [byte] := hread
  simp only [Program.exec, Reader.serve, Bool.false_eq_true, if_false, dif_neg h, hpiece]
  split <;> rfl

/-- The head is read up to the first blank line. -/
theorem result_readHead (head : List UInt8) (s : σ) :
  match headOf head (reader.rest s) with
  | none => (reader.result (readHead head) s).1 = .error .malformedResponse
  | some (head', rest) => reader.result (readHead head) s = (.ok head', rest)
  := by
  induction hrest : reader.rest s generalizing head s with
  | nil =>
      rw [headOf]
      rcases reader.read_cases s Nat.one_pos with ⟨hread, -⟩ | ⟨byte, bytes, -, -, hbytes⟩
      · by_cases hfull : maxHeadBytes ≤ head.length
        · exact result_readHead_of_full reader hfull s
        · exact result_readHead_of_end reader hfull hread
      · rw [hrest] at hbytes
        cases hbytes
  | cons byte stream ih =>
      rw [headOf]
      by_cases hfull : maxHeadBytes ≤ head.length
      · rw [if_pos hfull]
        exact result_readHead_of_full reader hfull s
      · rw [if_neg hfull]
        rcases reader.read_cases s Nat.one_pos with ⟨-, hnil⟩ | ⟨first, bytes, hread, hone, hbytes⟩
        · rw [hrest] at hnil
          cases hnil
        · obtain rfl : bytes = [] := by simpa using hone
          obtain ⟨rfl, hstream⟩ : byte = first ∧ stream = reader.rest (reader.read s 1).2 := by
            simpa [hrest] using hbytes
          rw [result_readHead_of_byte reader hfull hread, ← hstream]
          by_cases hblank : blankLine <:+ head ++ [byte]
          · rw [if_pos hblank, if_pos hblank]
          · rw [if_neg hblank, if_neg hblank]
            exact ih _ _ hstream.symm

/-- A step of reading a body. -/
theorem result_readBody_of_bytes {length : ℕ} (hlength : length ≤ maxResponseBytes)
    {body : List UInt8} (hbody : body.length < length) {s : σ} {byte : UInt8}
    {bytes : List UInt8}
    (hread : (reader.read s (min 4096 (length - body.length))).1.val = byte :: bytes) :
  reader.result (readBody length body) s =
    reader.result (readBody length (body ++ byte :: bytes))
      (reader.read s (min 4096 (length - body.length))).2
  := by
  have hwant := (reader.read s (min 4096 (length - body.length))).1.property
  rw [hread] at hwant
  have hbound : ¬ maxResponseBytes < (body ++ byte :: bytes).length := by
    rw [List.length_append]
    omega
  rw [readBody, Reader.result]
  rcases hpiece : reader.read s (min 4096 (length - body.length)) with ⟨⟨piece, hbytes⟩, s'⟩
  rw [hpiece] at hread
  obtain rfl : piece = byte :: bytes := hread
  simp only [Program.exec, Reader.serve, Bool.false_eq_true, if_false, dif_pos hbody, hpiece,
    if_neg hbound]
  rfl

theorem result_readBody_of_end {length : ℕ} {body : List UInt8} (hbody : body.length < length)
    {s : σ} (hread : (reader.read s (min 4096 (length - body.length))).1.val = []) :
  (reader.result (readBody length body) s).1 = .error .malformedResponse
  := by
  rw [readBody, Reader.result]
  rcases hpiece : reader.read s (min 4096 (length - body.length)) with ⟨⟨piece, hbytes⟩, s'⟩
  rw [hpiece] at hread
  obtain rfl : piece = [] := hread
  simp only [Program.exec, Reader.serve, Bool.false_eq_true, if_false, dif_pos hbody, hpiece]

/-- The body is read as far as its length goes, if the stream has as many bytes. -/
theorem result_readBody {length : ℕ} (hlength : length ≤ maxResponseBytes) {body : List UInt8}
    (hbody : body.length ≤ length) (s : σ) :
  if length - body.length ≤ (reader.rest s).length then
    reader.result (readBody length body) s =
      (.ok (body ++ (reader.rest s).take (length - body.length)),
        (reader.rest s).drop (length - body.length))
  else (reader.result (readBody length body) s).1 = .error .malformedResponse
  := by
  induction hmissing : length - body.length using Nat.strong_induction_on generalizing body s with
  | _ missing ih =>
      subst hmissing
      rcases hbody.eq_or_lt with heq | hlt
      · rw [heq, Nat.sub_self, if_pos (Nat.zero_le _), List.take_zero, List.drop_zero,
          List.append_nil, readBody, dif_neg (not_lt.mpr heq.ge)]
        rfl
      · have hwant : 0 < min 4096 (length - body.length) := by omega
        rcases reader.read_cases s hwant with ⟨hread, hnil⟩ | ⟨byte, bytes, hread, hfit, hrest⟩
        · rw [hnil, if_neg (by rw [List.length_nil]; omega)]
          exact result_readBody_of_end reader hlt hread
        · rw [result_readBody_of_bytes reader hlength hlt hread, hrest]
          generalize (reader.read s (min 4096 (length - body.length))).2 = s'
          have hlonger : (body ++ byte :: bytes).length = body.length + (byte :: bytes).length :=
            List.length_append
          have hstep := ih (length - (body ++ byte :: bytes).length)
            (by rw [hlonger, List.length_cons]; omega) (by omega) s' rfl
          have hmissing : length - body.length
              = (byte :: bytes).length + (length - (body ++ byte :: bytes).length) := by
            omega
          rw [hmissing, @List.length_append _ (byte :: bytes), List.take_length_add_append,
            List.drop_length_add_append, ← List.append_assoc]
          simp only [Nat.add_le_add_iff_left]
          exact hstep

/-! ### What is read -/

/-- The response that the bytes of a stream are, and the bytes after it. -/
def responseOf (stream : List UInt8) : Except TransportError (GraphResponse × List UInt8) := do
  let (head, rest) ← (headOf [] stream).okOr .malformedResponse
  let head ← parseHead head
  if rest.length < head.length then throw .malformedResponse
  let response ← respond head (rest.take head.length)
  return (response, rest.drop head.length)

/-- The status that a head states. -/
def statusOf (head : List UInt8) : Option ℕ :=
  (Utf8.decode? head).bind fun text => (splitCrLf text).head?.bind parseStatus

/-- What the headers of a head say. -/
def headersOf (head : List UInt8) : Headers :=
  ((Utf8.decode? head).elim [] fun text => (splitCrLf text).tail).foldl Headers.add ⟨none, none⟩

def IsRedirect (status : ℕ) : Prop :=
  300 ≤ status ∧ status < 400

instance (status : ℕ) : Decidable (IsRedirect status) :=
  inferInstanceAs (Decidable (_ ∧ _))

/-- What is done with a head, by its status and what its headers say. -/
theorem parseHead_eq (bytes : List UInt8) :
  parseHead bytes =
    match statusOf bytes with
    | none => .error .malformedResponse
    | some status =>
        if IsRedirect status then .error .redirectRejected
        else
          match (headersOf bytes).contentLength with
          | none => .error .malformedResponse
          | some length =>
              if maxResponseBytes < length then .error .responseTooLarge
              else .ok ⟨status, length, (headersOf bytes).retryAfter⟩
  := by
  rw [parseHead, statusOf, headersOf]
  cases Utf8.decode? bytes with
  | none => rfl
  | some text =>
      simp only [Option.bind_some, Option.elim_some]
      show (match splitCrLf text with
        | [] => Except.error TransportError.malformedResponse
        | statusLine :: lines => _) = _
      cases splitCrLf text with
      | nil => rfl
      | cons statusLine lines =>
          simp only [List.head?_cons, List.tail_cons, Option.bind_some]
          cases parseStatus statusLine with
          | none => rfl
          | some status =>
              show (if 300 ≤ status ∧ status < 400 then _ else _) = _
              by_cases hredirect : IsRedirect status
              · simp only [if_pos hredirect]
                exact if_pos hredirect
              · simp only [if_neg hredirect]
                apply (if_neg hredirect).trans
                cases (lines.foldl Headers.add ⟨none, none⟩).contentLength with
                | none => rfl
                | some length =>
                    show (if maxResponseBytes < length then _ else _) = _
                    by_cases hlarge : maxResponseBytes < length
                    · rw [if_pos hlarge]
                      simp only [if_pos hlarge]
                      rfl
                    · rw [if_neg hlarge]
                      simp only [if_neg hlarge]
                      rfl

theorem parseHead_eq_ok_iff {bytes : List UInt8} {head : Head} :
  parseHead bytes = .ok head ↔
    statusOf bytes = some head.status ∧ ¬ IsRedirect head.status
      ∧ (headersOf bytes).contentLength = some head.length ∧ head.length ≤ maxResponseBytes
      ∧ (headersOf bytes).retryAfter = head.retryAfter
  := by
  rw [parseHead_eq]
  constructor
  · intro h
    split at h
    · cases h
    · next status hstatus =>
        split at h
        · cases h
        · next hredirect =>
            split at h
            · cases h
            · next length hlength =>
                split at h
                · cases h
                · next hle =>
                    cases h
                    exact ⟨hstatus, hredirect, hlength, not_lt.mp hle, rfl⟩
  · rintro ⟨hstatus, hredirect, hlength, hle, hretry⟩
    simp only [hstatus, if_neg hredirect, hlength, if_neg (not_lt.mpr hle), hretry]

theorem responseOf_of_none {stream : List UInt8} (h : headOf [] stream = none) :
  responseOf stream = .error .malformedResponse
  := by
  rw [responseOf, h]
  rfl

theorem responseOf_of_error {stream bytes rest : List UInt8} {e : TransportError}
    (h : headOf [] stream = some (bytes, rest)) (hparse : parseHead bytes = .error e) :
  responseOf stream = .error e
  := by
  rw [responseOf, h]
  show (do
    let head ← parseHead bytes
    _) = _
  rw [hparse]
  rfl

theorem responseOf_of_head {stream bytes rest : List UInt8} {head : Head}
    (h : headOf [] stream = some (bytes, rest)) (hparse : parseHead bytes = .ok head) :
  responseOf stream =
    if rest.length < head.length then .error .malformedResponse
    else (respond head (rest.take head.length)).map fun response =>
      (response, rest.drop head.length)
  := by
  rw [responseOf, h]
  show (do
    let head ← parseHead bytes
    _) = _
  rw [hparse]
  show (if rest.length < head.length then _ else _) = _
  by_cases hshort : rest.length < head.length
  · rw [if_pos hshort, if_pos hshort]
    rfl
  · rw [if_neg hshort, if_neg hshort]
    cases respond head (rest.take head.length) with
    | error e => rfl
    | ok response => rfl

/-- A reader reads what the bytes of its stream are, in whatever pieces it delivers them. -/
theorem result_readResponse (s : σ) :
  (reader.result readResponse s).1 = (responseOf (reader.rest s)).map Prod.fst
    ∧ ∀ response rest, responseOf (reader.rest s) = .ok (response, rest) →
        (reader.result readResponse s).2 = rest
  := by
  obtain ⟨t, ht, hbind⟩ := reader.result_bind (readHead []) (fun
    | .error e => return .error e
    | .ok head =>
        match parseHead head with
        | .error e => return .error e
        | .ok head => do
            match ← readBody head.length [] with
            | .error e => return .error e
            | .ok body => return respond head body) s
  have hhead := result_readHead reader [] s
  rw [show reader.result readResponse s = _ from hbind]
  cases hsplit : headOf [] (reader.rest s) with
  | none =>
      rw [hsplit] at hhead
      rw [hhead, responseOf_of_none hsplit]
      exact ⟨rfl, nofun⟩
  | some parts =>
      obtain ⟨bytes, rest⟩ := parts
      rw [hsplit] at hhead
      rw [show reader.result (readHead []) s = _ from hhead] at ht ⊢
      cases hparse : parseHead bytes with
      | error e =>
          rw [responseOf_of_error hsplit hparse]
          simp only [hparse]
          exact ⟨rfl, nofun⟩
      | ok head =>
          obtain ⟨-, -, -, hlength, -⟩ := parseHead_eq_ok_iff.mp hparse
          obtain ⟨u, hu, hbind'⟩ := reader.result_bind (readBody head.length []) (fun
            | .error e => return .error e
            | .ok body => return respond head body) t
          have hbody := @result_readBody σ reader head.length hlength [] (Nat.zero_le _) t
          rw [List.length_nil, Nat.sub_zero, List.nil_append, ← ht] at hbody
          rw [responseOf_of_head hsplit hparse]
          simp only [hparse]
          rw [show reader.result _ t = _ from hbind']
          by_cases hlong : head.length ≤ rest.length
          · rw [if_pos hlong] at hbody
            rw [hbody] at hu ⊢
            rw [if_neg (not_lt.mpr hlong)]
            show (respond head _ = _) ∧ _
            cases respond head (rest.take head.length) with
            | error e => exact ⟨rfl, nofun⟩
            | ok response =>
                use rfl
                rintro _ _ ⟨⟩
                exact hu.symm
          · rw [if_neg hlong] at hbody
            rw [hbody, if_pos (not_le.mp hlong)]
            exact ⟨rfl, nofun⟩

theorem respond_eq_ok_iff {head : Head} {body : List UInt8} {response : GraphResponse} :
  respond head body = .ok response ↔
    response = ⟨head.status, body⟩ ∧ isThrottledStatus head.status = false ∧ head.status < 500
  := by
  rw [respond]
  split
  · next hthrottled => simp [hthrottled]
  · next hthrottled =>
      split
      · next hserver =>
          constructor
          · rintro ⟨⟩
          · rintro ⟨-, -, hlt⟩
            exact absurd hserver (not_le.mpr hlt)
      · next hserver =>
          constructor
          · rintro ⟨⟩
            exact ⟨rfl, Bool.eq_false_of_not_eq_true hthrottled, not_le.mp hserver⟩
          · rintro ⟨rfl, -, -⟩
            rfl

/-- A response has a head, which declares the length of the body after it. -/
def IsResponse (stream : List UInt8) (response : GraphResponse) (rest : List UInt8) : Prop :=
  ∃ head, stream = head ++ response.body ++ rest ∧ IsHead head ∧ head.length ≤ 8192
    ∧ statusOf head = some response.status
    ∧ (headersOf head).contentLength = some response.body.length
    ∧ response.body.length ≤ 1048576 ∧ response.status < 500 ∧ ¬ IsRedirect response.status
    ∧ isThrottledStatus response.status = false

theorem responseOf_eq_ok_iff {stream rest : List UInt8} {response : GraphResponse} :
  responseOf stream = .ok (response, rest) ↔ IsResponse stream response rest
  := by
  constructor
  · intro h
    cases hsplit : headOf [] stream with
    | none =>
        rw [responseOf_of_none hsplit] at h
        cases h
    | some parts =>
        obtain ⟨bytes, after⟩ := parts
        cases hparse : parseHead bytes with
        | error e =>
            rw [responseOf_of_error hsplit hparse] at h
            cases h
        | ok head =>
            rw [responseOf_of_head hsplit hparse] at h
            split at h
            · cases h
            · next hlong =>
                obtain ⟨response', hrespond, hpair⟩ := Except.map_eq_ok.mp h
                obtain ⟨rfl, rfl⟩ := Prod.mk.inj hpair
                obtain ⟨rfl, hthrottled, hserver⟩ := respond_eq_ok_iff.mp hrespond
                obtain ⟨hstream, hhead, hbytes⟩ := headOf_eq_some_iff.mp hsplit
                obtain ⟨hstatus, hredirect, hlength, hsize, -⟩ := parseHead_eq_ok_iff.mp hparse
                have htaken : (after.take head.length).length = head.length := by
                  rw [List.length_take, Nat.min_eq_left (not_lt.mp hlong)]
                refine ⟨bytes, ?_, hhead, hbytes, hstatus, ?_, ?_, hserver, hredirect, hthrottled⟩
                · rw [hstream, List.append_assoc, List.take_append_drop]
                · rw [hlength, htaken]
                · rw [htaken]
                  exact hsize
  · rintro ⟨bytes, hstream, hhead, hbytes, hstatus, hlength, hsize, hserver, hredirect, hthrottled⟩
    have hsplit : headOf [] stream = some (bytes, response.body ++ rest) :=
      headOf_eq_some_iff.mpr ⟨by rw [hstream, List.append_assoc], hhead, hbytes⟩
    have hparse : parseHead bytes =
        .ok ⟨response.status, response.body.length, (headersOf bytes).retryAfter⟩ :=
      parseHead_eq_ok_iff.mpr ⟨hstatus, hredirect, hlength, hsize, rfl⟩
    have hrespond : respond ⟨response.status, response.body.length, (headersOf bytes).retryAfter⟩
        response.body = .ok response :=
      respond_eq_ok_iff.mpr ⟨rfl, hthrottled, hserver⟩
    rw [responseOf_of_head hsplit hparse, List.length_append,
      if_neg (not_lt.mpr (Nat.le_add_right _ _)), List.take_left, List.drop_left, hrespond]
    rfl

/-- What is read depends only on the bytes of the stream.  It is a response exactly when they begin
with one, and then nothing after it is read; a head with the status of a redirect is rejected,
whatever follows it. -/
theorem readResponse_exact :
  (∀ {σ τ : Type} (reader : Reader σ) (other : Reader τ) (s : σ) (t : τ),
      reader.rest s = other.rest t →
      (reader.result readResponse s).1 = (other.result readResponse t).1)
    ∧ (∀ {σ : Type} (reader : Reader σ) (s : σ) (response : GraphResponse) (rest : List UInt8),
        reader.result readResponse s = (.ok response, rest) ↔
          IsResponse (reader.rest s) response rest)
    ∧ ∀ {σ : Type} (reader : Reader σ) (s : σ) (head rest : List UInt8) (status : ℕ),
        reader.rest s = head ++ rest → IsHead head → head.length ≤ 8192 →
        statusOf head = some status → IsRedirect status →
        (reader.result readResponse s).1 = .error .redirectRejected
  := by
  refine ⟨?_, ?_, ?_⟩
  · intro σ τ reader other s t hrest
    rw [(result_readResponse reader s).1, (result_readResponse other t).1, hrest]
  · intro σ reader s response rest
    obtain ⟨hresult, hafter⟩ := result_readResponse reader s
    rw [← responseOf_eq_ok_iff]
    constructor
    · intro h
      rw [h] at hresult
      cases hresponse : responseOf (reader.rest s) with
      | error e =>
          rw [hresponse] at hresult
          cases hresult
      | ok parts =>
          obtain ⟨response', rest'⟩ := parts
          have hrest := hafter response' rest' hresponse
          rw [hresponse] at hresult
          rw [h] at hrest
          cases hresult
          rw [← hrest]
    · intro h
      rw [h] at hresult
      exact Prod.ext hresult (hafter response rest h)
  · intro σ reader s head rest status hstream hhead hlength hstatus hredirect
    have hsplit : headOf [] (reader.rest s) = some (head, rest) :=
      headOf_eq_some_iff.mpr ⟨hstream, hhead, hlength⟩
    have hparse : parseHead head = .error .redirectRejected := by
      rw [parseHead_eq, hstatus]
      exact if_pos hredirect
    rw [(result_readResponse reader s).1, responseOf_of_error hsplit hparse]
    rfl

example :
  Reader.whole.result readResponse
      (Utf8.bytes "HTTP/1.1 200 OK\r\nContent-Length: 2\r\n\r\nok, and more".toList) =
    (.ok ⟨200, Utf8.bytes "ok".toList⟩, Utf8.bytes ", and more".toList)
  := by decide +kernel

end Transport

end Graph
