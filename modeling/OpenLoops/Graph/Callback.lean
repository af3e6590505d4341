import Mathlib.Data.List.ReduceOption
import OpenLoops.Graph.Mime
import OpenLoops.Library.Fallible
import OpenLoops.Library.Lines

/-!
# The listener of a sign-in

The browser comes back to a port of this machine with a request whose query has a code or an error.
The request is read byte by byte, up to a bound: its first line, then the lines of its headers up to an
empty one or to the end of the stream.
-/

namespace Graph

namespace Callback

def maxRequestHeadBytes : ℕ := 8192

def maxQueryParameters : ℕ := 32

/-- Why a request is rejected. -/
inductive CallbackRejection where
  | wrongMethod
  | wrongPath
  | wrongHost
  | requestTooLarge
  | malformed
  | duplicateParameter
  | mixedSuccessAndError
  | missingRequiredParameter
deriving DecidableEq, Repr

/-! ### Reading -/

/-- The two bytes at the end of a line. -/
def crlf : List UInt8 := [13, 10]

/-- The first line with its end, and the bytes after it. -/
def readLine (buffer stream : List UInt8) :
    Except CallbackRejection (List UInt8 × List UInt8) :=
  if maxRequestHeadBytes ≤ buffer.length then .error .requestTooLarge
  else
    match stream with
    | [] => .error .malformed
    | byte :: stream =>
        if crlf <:+ buffer ++ [byte] then .ok (buffer ++ [byte], stream)
        else readLine (buffer ++ [byte]) stream

/-- The value of a header that is the host's. -/
def hostValue (line : List UInt8) : Option (List Char) := do
  let text ← Utf8.decode? line
  let (name, value) ← splitOnce ':' text
  if Mime.isNamed "host" (trim name) then some (trim value) else none

/-- The hosts that are read: the first one, and whether there is a second one. -/
structure Hosts where
  host : Option (List Char)
  duplicateHost : Bool

namespace Hosts

def none : Hosts :=
  { host := .none, duplicateHost := false }

def add (hosts : Hosts) (line : List UInt8) : Hosts :=
  match hostValue line with
  | .none => hosts
  | some value =>
      if hosts.host.isSome then { hosts with duplicateHost := true }
      else { hosts with host := some value }

/-- No host is taken if there is a second one. -/
def taken (hosts : Hosts) : Option (List Char) :=
  if hosts.duplicateHost then .none else hosts.host

end Hosts

/-- The host of the headers up to an empty line or to the end of the stream. -/
def readHeadersCaptureHost (total : ℕ) (line : List UInt8) (hosts : Hosts) (stream : List UInt8) :
    Except CallbackRejection (Option (List Char)) :=
  if maxRequestHeadBytes ≤ total then .error .requestTooLarge
  else
    match stream with
    | [] => .ok hosts.taken
    | byte :: stream =>
        let line := line ++ [byte]
        if crlf <:+ line then
          if line.length = 2 then .ok hosts.taken
          else readHeadersCaptureHost (total + 1) [] (hosts.add (line.take (line.length - 2))) stream
        else readHeadersCaptureHost (total + 1) line hosts stream

def readRequestLine (stream : List UInt8) :
    Except CallbackRejection (List Char × Option (List Char)) := do
  let (buffer, stream) ← readLine [] stream
  let host ← readHeadersCaptureHost buffer.length [] .none stream
  match Utf8.decode? buffer with
  | some line => .ok (line, host)
  | none => .error .malformed

/-- The host is the one that the listener is bound to. -/
def validateHost (host : Option (List Char)) (expectedAuthority : List Char) :
    Except CallbackRejection Unit :=
  match host with
  | some value =>
      if toAsciiLowercase value = toAsciiLowercase expectedAuthority then .ok ()
      else .error .wrongHost
  | none => .error .wrongHost

/-! ### Parsing -/

end Callback

def AuthorizationErrorCode.parse (raw : String) : AuthorizationErrorCode :=
  match raw with
  | "access_denied" => accessDenied
  | "invalid_request" => invalidRequest
  | "unauthorized_client" => unauthorizedClient
  | "unsupported_response_type" => unsupportedResponseType
  | "invalid_scope" => invalidScope
  | "server_error" => serverError
  | "temporarily_unavailable" => temporarilyUnavailable
  | _ => other

namespace Callback

/-- The parameters that have been read. -/
structure QueryState where
  codeValue : Option (List Char)
  stateValue : Option (List Char)
  errorValue : Option (List Char)
  seenKeys : List (List Char)

namespace QueryState

def empty : QueryState :=
  { codeValue := none, stateValue := none, errorValue := none, seenKeys := [] }

def known : List String :=
  ["code", "state", "error", "error_description", "error_uri"]

/-- A parameter that is not known is ignored, but its key is seen. -/
def add (s : QueryState) (key value : List Char) : QueryState :=
  let s := { s with seenKeys := s.seenKeys ++ [key] }
  if String.ofList key ∈ known then
    match String.ofList key with
    | "code" => { s with codeValue := some value }
    | "state" => { s with stateValue := some value }
    | "error" => { s with errorValue := some value }
    | _ => s
  else s

end QueryState

def parsePairs (count : ℕ) (s : QueryState) : List (List Char) → Except CallbackRejection QueryState
  | [] => .ok s
  | pair :: pairs =>
      if maxQueryParameters ≤ count then .error .malformed
      else
        match splitOnce '=' pair with
        | none => .error .malformed
        | some (key, rawValue) =>
            if key = [] then .error .malformed
            else if key ∈ s.seenKeys then .error .duplicateParameter
            else
              match percentDecode rawValue with
              | none => .error .malformed
              | some value => parsePairs (count + 1) (s.add key value) pairs

def parseQuery (query : List Char) : Except CallbackRejection CallbackOutcome :=
  if query = [] then .error .missingRequiredParameter
  else do
    let s ← parsePairs 0 .empty (query.splitOn '&')
    match s.stateValue with
    | none => .error .missingRequiredParameter
    | some state =>
        match s.codeValue, s.errorValue with
        | some _, some _ => .error .mixedSuccessAndError
        | some code, none => .ok (.success (String.ofList code) (String.ofList state))
        | none, some error => .ok (.failure (.parse (String.ofList error)) (String.ofList state))
        | none, none => .error .missingRequiredParameter

def parseRequestLine (line : List Char) : Except CallbackRejection CallbackOutcome :=
  match stripSuffix "\r\n".toList line with
  | none => .error .malformed
  | some line =>
      match line.splitOn ' ' with
      | [method, target, version] =>
          if ¬"HTTP/1.".toList <+: version then .error .malformed
          else if method ≠ "GET".toList then .error .wrongMethod
          else if '#' ∈ target then .error .malformed
          else
            let (path, query) := (splitOnce '?' target).getD (target, [])
            if path ≠ callbackPath.toList then .error .wrongPath
            else parseQuery query
      | _ => .error .malformed

/-- The authority of the listener. -/
def authority (port : UInt16) : List Char :=
  "127.0.0.1:".toList ++ (toString port.toNat).toList

/-- What is made of a connection. -/
def acceptOne (port : UInt16) (stream : List UInt8) : Except CallbackRejection CallbackOutcome := do
  let (line, host) ← readRequestLine stream
  validateHost host (authority port)
  parseRequestLine line

/-! ### Requests -/

/-- The lines of a stream, without their ends, and what is left after the last end of a line. -/
def crlfLines : List UInt8 → List (List UInt8) × List UInt8
  | byte :: next :: stream =>
      if byte = 13 ∧ next = 10 then ([] :: (crlfLines stream).1, (crlfLines stream).2)
      else
        match crlfLines (next :: stream) with
        | (line :: lines, rest) => ((byte :: line) :: lines, rest)
        | ([], rest) => ([], byte :: rest)
  | stream => ([], stream)

/-- The head of a request. -/
structure Head where
  requestLine : List UInt8
  headers : List (List UInt8)
  /-- The head ends with an empty line, and not with the stream. -/
  ended : Bool
  length : ℕ

/-- The number of bytes of lines with their ends. -/
def linesLength (lines : List (List UInt8)) : ℕ :=
  (lines.map fun line => line.length + 2).sum

def head? (stream : List UInt8) : Option Head :=
  match crlfLines stream with
  | ([], _) => none
  | (requestLine :: lines, _) =>
      let headers := lines.takeWhile (· ≠ [])
      some { requestLine, headers, ended := [] ∈ lines,
             length := if [] ∈ lines then linesLength (requestLine :: headers) + 2 else stream.length }

/-- What stands after the colon of a line whose name is the host's. -/
def hostHeader (line : List UInt8) : Option (List UInt8) :=
  match line.dropWhile (· ≠ 58) with
  | [] => none
  | _ :: value =>
      match Utf8.decode? (line.takeWhile (· ≠ 58)) with
      | some name => if Mime.isNamed "host" (trim name) then some value else none
      | none => none

/-- The values of the lines whose name is the host's; a value that is not a text is none. -/
def hosts (headers : List (List UInt8)) : List (Option (List Char)) :=
  (headers.filterMap hostHeader).map fun value => (Utf8.decode? value).map trim

/-- The pair is written for the key and the value. -/
def IsPair (pair : List Char) (parameter : List Char × List Char) : Prop :=
  ∃ raw, pair = parameter.1 ++ '=' :: raw ∧ '=' ∉ parameter.1 ∧ parameter.1 ≠ []
    ∧ PercentEncodes (Utf8.bytes raw) (Utf8.bytes parameter.2)

/-- The query is written for the parameters. -/
def IsQuery (query : List Char) (parameters : List (List Char × List Char)) : Prop :=
  ∃ pairs : List (List Char), query = ['&'].intercalate pairs ∧ (∀ pair ∈ pairs, '&' ∉ pair)
    ∧ 1 ≤ pairs.length ∧ pairs.length ≤ 32 ∧ List.Forall₂ IsPair pairs parameters
    ∧ (parameters.map Prod.fst).Nodup

/-- The parameters have a state and one of a code and an error. -/
inductive Reports (parameters : List (List Char × List Char)) : CallbackOutcome → Prop
  | success {code state : List Char} :
      ("state".toList, state) ∈ parameters → ("code".toList, code) ∈ parameters →
      "error".toList ∉ parameters.map Prod.fst →
      Reports parameters (.success (String.ofList code) (String.ofList state))
  | failure {error state : List Char} :
      ("state".toList, state) ∈ parameters → ("error".toList, error) ∈ parameters →
      "code".toList ∉ parameters.map Prod.fst →
      Reports parameters (.failure (.parse (String.ofList error)) (String.ofList state))

/-- The first line of a request for the outcome. -/
def IsRequestLine (line : List UInt8) (outcome : CallbackOutcome) : Prop :=
  ∃ query version parameters,
    line = Utf8.bytes ("GET /callback?".toList ++ query ++ " HTTP/1.".toList ++ version)
      ∧ ' ' ∉ query ∧ '#' ∉ query ∧ ' ' ∉ version ∧ IsQuery query parameters
      ∧ Reports parameters outcome

/-- The stream has a request for the outcome. -/
def IsCallback (port : UInt16) (stream : List UInt8) (outcome : CallbackOutcome) : Prop :=
  ∃ head, head? stream = some head ∧ head.length ≤ 8192 ∧ IsRequestLine head.requestLine outcome
    ∧ hosts head.headers = [some (authority port)]

/-- A stream is accepted for the outcome of its request, and for nothing else. -/
def ParsesExactly (port : UInt16) (stream : List UInt8) : Prop :=
  ∀ outcome, acceptOne port stream = .ok outcome ↔ IsCallback port stream outcome

/-- The request is fine, but its head goes up to the bound without an empty line; or it is fine but for
a line of the host that is not a text. -/
def IsMisread (port : UInt16) (stream : List UInt8) : Prop :=
  ∃ head outcome, head? stream = some head ∧ IsRequestLine head.requestLine outcome
    ∧ ((head.ended = false ∧ head.length = 8192 ∧ hosts head.headers = [some (authority port)])
      ∨ (head.length ≤ (if head.ended then 8192 else 8191) ∧ none ∈ hosts head.headers
        ∧ (hosts head.headers).reduceOption = [authority port]))

/-! ### Reading lines -/

/-- No line ends in the bytes. -/
def Unbroken (bytes : List UInt8) : Prop :=
  bytes.IsChain fun b c => ¬(b = 13 ∧ c = 10)

theorem unbroken_append {bytes bytes' : List UInt8} :
  Unbroken (bytes ++ bytes') ↔ Unbroken bytes ∧ Unbroken bytes'
    ∧ ¬(bytes.getLast? = some 13 ∧ bytes'.head? = some 10)
  := by
  rw [Unbroken, List.isChain_append]
  apply and_congr Iff.rfl
  apply and_congr Iff.rfl
  constructor
  · rintro h ⟨hlast, hhead⟩
    exact h 13 hlast 10 hhead ⟨rfl, rfl⟩
  · rintro h b hb c hc ⟨rfl, rfl⟩
    exact h ⟨hb, hc⟩

theorem crlfLines_unbroken {bytes : List UInt8} (h : Unbroken bytes) :
  crlfLines bytes = ([], bytes)
  := by
  induction bytes with
  | nil => rfl
  | cons b bytes ih =>
      cases bytes with
      | nil => rfl
      | cons c bytes =>
          obtain ⟨hne, hrest⟩ := List.isChain_cons_cons.mp h
          rw [crlfLines, if_neg hne, ih hrest]

theorem crlfLines_line {line : List UInt8} (h : Unbroken (line ++ [13])) (stream : List UInt8) :
  crlfLines (line ++ 13 :: 10 :: stream) = (line :: (crlfLines stream).1, (crlfLines stream).2)
  := by
  induction line with
  | nil => rw [List.nil_append, crlfLines, if_pos ⟨rfl, rfl⟩]
  | cons b line ih =>
      have hrest : Unbroken (line ++ [13]) := List.IsChain.of_cons h
      cases line with
      | nil =>
          obtain ⟨hne, -⟩ := List.isChain_cons_cons.mp h
          have hlines := ih hrest
          rw [List.nil_append] at hlines
          rw [List.cons_append, List.nil_append, crlfLines, if_neg hne, hlines]
      | cons c line =>
          obtain ⟨hne, -⟩ := List.isChain_cons_cons.mp h
          have hlines := ih hrest
          rw [List.cons_append] at hlines
          rw [List.cons_append, List.cons_append, crlfLines, if_neg hne, hlines]

/-- A stream is what is left of a line, or it is a line with its end and a stream. -/
theorem lines_induction {P : List UInt8 → Prop} (hrest : ∀ bytes, Unbroken bytes → P bytes)
    (hline : ∀ line stream, Unbroken (line ++ [13]) → P stream → P (line ++ 13 :: 10 :: stream))
    (stream : List UInt8) :
  P stream
  := by
  have hcut : ∀ stream : List UInt8, Unbroken stream ∨
      ∃ line rest, stream = line ++ 13 :: 10 :: rest ∧ Unbroken (line ++ [13]) := by
    intro stream
    induction stream with
    | nil => exact Or.inl .nil
    | cons b stream ih =>
        by_cases hend : b = 13 ∧ stream.head? = some 10
        · obtain ⟨rfl, hhead⟩ := hend
          obtain ⟨rest, rfl⟩ := List.head?_eq_some_iff.mp hhead
          exact Or.inr ⟨[], rest, rfl, .singleton 13⟩
        · -- The first byte belongs to what comes first after it.
          have hcons : ∀ bytes, bytes.head? = stream.head? → Unbroken bytes →
              Unbroken (b :: bytes) := by
            intro bytes hhead hbytes
            apply List.isChain_cons.mpr
            refine ⟨fun c hc hboth => hend ⟨hboth.1, ?_⟩, hbytes⟩
            rw [← hhead, hc, hboth.2]
          rcases ih with hunbroken | ⟨line, rest, rfl, hline⟩
          · exact Or.inl (hcons stream rfl hunbroken)
          · refine Or.inr ⟨b :: line, rest, rfl, hcons _ ?_ hline⟩
            cases line <;> rfl
  induction hlength : stream.length using Nat.strong_induction_on generalizing stream with
  | h n ih =>
      subst hlength
      rcases hcut stream with hunbroken | ⟨line, rest, rfl, hunbroken⟩
      · exact hrest stream hunbroken
      · apply hline line rest hunbroken
        apply ih rest.length _ rest rfl
        rw [List.length_append, List.length_cons, List.length_cons]
        omega

/-- Bytes end with the end of a line when they do so with their last byte. -/
theorem crlf_isSuffix_concat {bytes : List UInt8} {b : UInt8} :
  crlf <:+ bytes ++ [b] ↔ bytes.getLast? = some 13 ∧ b = 10
  := by
  rw [crlf, show [13, 10] = [(13 : UInt8)] ++ [10] from rfl]
  constructor
  · rintro ⟨before, hbefore⟩
    rw [← List.append_assoc] at hbefore
    obtain ⟨hbytes, hb⟩ := List.append_inj' hbefore rfl
    rw [← hbytes, List.getLast?_concat]
    exact ⟨rfl, (List.cons.inj hb).1.symm⟩
  · rintro ⟨hlast, rfl⟩
    obtain ⟨before, hbefore⟩ := List.getLast?_eq_some_iff.mp hlast
    exact ⟨before, by rw [hbefore, List.append_assoc]⟩

/-- The next byte of a line does not end it. -/
theorem not_crlf_isSuffix {bytes rest : List UInt8} {b : UInt8} (h : Unbroken (bytes ++ b :: rest)) :
  ¬crlf <:+ bytes ++ [b]
  := by
  rw [crlf_isSuffix_concat]
  rintro ⟨hlast, rfl⟩
  exact (unbroken_append.mp h).2.2 ⟨hlast, rfl⟩

theorem crlf_isSuffix_line (line : List UInt8) :
  crlf <:+ line ++ [13] ++ [10]
  := crlf_isSuffix_concat.mpr ⟨List.getLast?_concat, rfl⟩

theorem readLine_line {buffer text : List UInt8} (h : Unbroken (buffer ++ (text ++ [13])))
    (stream : List UInt8) :
  readLine buffer (text ++ 13 :: 10 :: stream)
    = if (buffer ++ text).length + 2 ≤ maxRequestHeadBytes then .ok (buffer ++ text ++ crlf, stream)
      else .error .requestTooLarge
  := by
  induction text generalizing buffer with
  | nil =>
      rw [List.nil_append] at h ⊢
      rw [readLine, List.append_nil]
      by_cases hfull : maxRequestHeadBytes ≤ buffer.length
      · rw [if_pos hfull, if_neg (by omega)]
      · rw [if_neg hfull]
        simp only [if_neg (not_crlf_isSuffix h)]
        rw [readLine, List.length_append, List.length_singleton]
        by_cases hfits : buffer.length + 2 ≤ maxRequestHeadBytes
        · rw [if_neg (by omega), if_pos hfits, if_pos (crlf_isSuffix_line buffer), crlf]
          simp
        · rw [if_pos (by omega), if_neg hfits]
  | cons b text ih =>
      rw [List.cons_append] at h ⊢
      rw [readLine]
      by_cases hfull : maxRequestHeadBytes ≤ buffer.length
      · rw [if_pos hfull, if_neg (by rw [List.length_append]; omega)]
      · have hnext : Unbroken (buffer ++ [b] ++ (text ++ [13])) := by
          rwa [List.append_assoc, List.singleton_append]
        have hread := ih hnext
        rw [List.append_assoc, List.singleton_append] at hread
        rw [if_neg hfull]
        simp only [if_neg (not_crlf_isSuffix h)]
        rw [hread]

theorem readLine_unbroken {buffer stream : List UInt8} (h : Unbroken (buffer ++ stream))
    {result : List UInt8 × List UInt8} :
  readLine buffer stream ≠ .ok result
  := by
  induction stream generalizing buffer with
  | nil =>
      rw [readLine]
      split_ifs <;> simp
  | cons b stream ih =>
      rw [readLine]
      by_cases hfull : maxRequestHeadBytes ≤ buffer.length
      · rw [if_pos hfull]
        simp
      · rw [if_neg hfull]
        simp only [if_neg (not_crlf_isSuffix h)]
        apply ih
        rwa [List.append_assoc, List.singleton_append]

theorem readHeadersCaptureHost_line {start : ℕ} {line text : List UInt8}
    (h : Unbroken (line ++ (text ++ [13]))) (hosts : Hosts) (stream : List UInt8) :
  readHeadersCaptureHost (start + line.length) line hosts (text ++ 13 :: 10 :: stream)
    = if start + (line ++ text).length + 2 ≤ maxRequestHeadBytes then
        if line ++ text = [] then .ok hosts.taken
        else readHeadersCaptureHost (start + (line ++ text).length + 2) [] (hosts.add (line ++ text))
          stream
      else .error .requestTooLarge
  := by
  induction text generalizing line with
  | nil =>
      rw [List.nil_append] at h ⊢
      rw [readHeadersCaptureHost, List.append_nil]
      by_cases hfull : maxRequestHeadBytes ≤ start + line.length
      · rw [if_pos hfull, if_neg (by omega)]
      · rw [if_neg hfull]
        simp only [if_neg (not_crlf_isSuffix h)]
        rw [readHeadersCaptureHost]
        by_cases hfits : start + line.length + 2 ≤ maxRequestHeadBytes
        · have hlength : (line ++ [13] ++ [10]).length = line.length + 2 := by simp
          have htake : (line ++ [13] ++ [10]).take (line.length + 2 - 2) = line := by simp
          rw [if_neg (by omega), if_pos hfits, if_pos (crlf_isSuffix_line line), hlength, htake]
          have hempty : line.length + 2 = 2 ↔ line = [] := by simp
          simp only [hempty]
        · rw [if_pos (by omega), if_neg hfits]
  | cons b text ih =>
      rw [List.cons_append] at h ⊢
      rw [readHeadersCaptureHost]
      by_cases hfull : maxRequestHeadBytes ≤ start + line.length
      · rw [if_pos hfull, if_neg (by rw [List.length_append]; omega)]
      · have hnext : Unbroken (line ++ [b] ++ (text ++ [13])) := by
          rwa [List.append_assoc, List.singleton_append]
        have hread := ih hnext
        rw [List.append_assoc, List.singleton_append, List.length_append, List.length_singleton,
          ← Nat.add_assoc] at hread
        rw [if_neg hfull]
        simp only [if_neg (not_crlf_isSuffix h)]
        rw [hread]

theorem readHeadersCaptureHost_unbroken {start : ℕ} {line stream : List UInt8}
    (h : Unbroken (line ++ stream)) (hosts : Hosts) :
  readHeadersCaptureHost (start + line.length) line hosts stream
    = if start + (line ++ stream).length < maxRequestHeadBytes then .ok hosts.taken
      else .error .requestTooLarge
  := by
  induction stream generalizing line with
  | nil =>
      rw [readHeadersCaptureHost, List.append_nil]
      by_cases hfull : maxRequestHeadBytes ≤ start + line.length
      · rw [if_pos hfull, if_neg (by omega)]
      · rw [if_neg hfull, if_pos (by omega)]
  | cons b stream ih =>
      rw [readHeadersCaptureHost]
      by_cases hfull : maxRequestHeadBytes ≤ start + line.length
      · rw [if_pos hfull, if_neg (by rw [List.length_append]; omega)]
      · have hnext : Unbroken (line ++ [b] ++ stream) := by
          rwa [List.append_assoc, List.singleton_append]
        have hread := ih hnext
        rw [List.append_assoc, List.singleton_append, List.length_append, List.length_singleton,
          ← Nat.add_assoc] at hread
        rw [if_neg hfull]
        simp only [if_neg (not_crlf_isSuffix h)]
        rw [hread]

/-- How far the headers are read, with the end of the stream after what is left of a line. -/
def readLength (stream : List UInt8) : ℕ :=
  let lines := (crlfLines stream).1
  if [] ∈ lines then linesLength (lines.takeWhile (· ≠ [])) + 2 else stream.length + 1

theorem readLength_unbroken {stream : List UInt8} (h : Unbroken stream) :
  readLength stream = stream.length + 1
  := by
  simp [readLength, crlfLines_unbroken h]

theorem readLength_line {line : List UInt8} (h : Unbroken (line ++ [13])) (hne : line ≠ [])
    (stream : List UInt8) :
  readLength (line ++ 13 :: 10 :: stream) = line.length + 2 + readLength stream
  := by
  simp only [readLength, crlfLines_line h, List.mem_cons, hne.symm, false_or]
  split_ifs with hend
  · rw [List.takeWhile_cons_of_pos (by simpa using hne), linesLength, List.map_cons, List.sum_cons,
      Nat.add_assoc]
    rfl
  · rw [List.length_append, List.length_cons, List.length_cons]
    omega

example : readLength [65, 13, 10, 13, 10, 66] = 5
  := by decide +kernel

theorem readLength_empty (stream : List UInt8) :
  readLength (13 :: 10 :: stream) = 2
  := by
  have hlines := crlfLines_line (show Unbroken ([] ++ [13]) from .singleton 13) stream
  rw [List.nil_append] at hlines
  simp [readLength, hlines, linesLength]

/-- The headers are read line by line. -/
theorem readHeadersCaptureHost_eq (start : ℕ) (hosts : Hosts) (stream : List UInt8) :
  readHeadersCaptureHost start [] hosts stream
    = if start + readLength stream ≤ maxRequestHeadBytes then
        .ok (((crlfLines stream).1.takeWhile (· ≠ [])).foldl Hosts.add hosts).taken
      else .error .requestTooLarge
  := by
  induction stream using lines_induction generalizing start hosts with
  | hrest stream h =>
      have hread := @readHeadersCaptureHost_unbroken start [] stream h hosts
      rw [List.length_nil, Nat.add_zero, List.nil_append] at hread
      rw [hread, readLength_unbroken h, crlfLines_unbroken h]
      rfl
  | hline line stream h ih =>
      have hread := @readHeadersCaptureHost_line start [] line h hosts stream
      rw [List.length_nil, Nat.add_zero, List.nil_append] at hread
      rw [hread, crlfLines_line h]
      by_cases hempty : line = []
      · subst hempty
        rw [if_pos rfl, List.nil_append, readLength_empty, List.takeWhile_cons_of_neg (by simp)]
        rfl
      · rw [if_neg hempty, readLength_line h hempty, List.takeWhile_cons_of_pos (by simpa using hempty),
          List.foldl_cons, ih]
        split_ifs <;> first | rfl | omega

/-! ### Hosts -/

/-- The hosts after the values. -/
def Hosts.ofValues (values : List (List Char)) : Hosts :=
  { host := values.head?, duplicateHost := decide (2 ≤ values.length) }

theorem Hosts.foldl_add (values : List (List Char)) (lines : List (List UInt8)) :
  lines.foldl add (ofValues values) = ofValues (values ++ lines.filterMap hostValue)
  := by
  induction lines generalizing values with
  | nil => rw [List.foldl_nil, List.filterMap_nil, List.append_nil]
  | cons line lines ih =>
      rw [List.foldl_cons, List.filterMap_cons, add]
      cases hvalue : hostValue line with
      | none => exact ih values
      | some value =>
          have hadd : (if (ofValues values).host.isSome then
              { ofValues values with duplicateHost := true }
            else { ofValues values with host := some value }) = ofValues (values ++ [value]) := by
            cases values with
            | nil => rfl
            | cons first values => simp [ofValues]
          simp only [hadd]
          rw [ih, List.append_assoc, List.singleton_append]

/-- A host is taken if it is the only one. -/
theorem Hosts.taken_eq_some_iff {lines : List (List UInt8)} {value : List Char} :
  (lines.foldl add none).taken = some value ↔ lines.filterMap hostValue = [value]
  := by
  have hfold := foldl_add [] lines
  rw [List.nil_append] at hfold
  rw [show none = ofValues [] from rfl, hfold, taken, ofValues]
  rcases lines.filterMap hostValue with _ | ⟨first, _ | ⟨second, values⟩⟩
  · simp
  · simp
  · simp

/-- A line is the host's with a value that is a text if it is a text. -/
theorem hostValue_eq (line : List UInt8) :
  hostValue line = (hostHeader line).bind fun value => (Utf8.decode? value).map trim
  := by
  by_cases hcolon : 58 ∈ line
  · obtain ⟨name, value, rfl, hname⟩ := List.eq_append_cons_of_mem hcolon
    have hne : ∀ b ∈ name, decide (b ≠ 58) = true := by
      intro b hb
      rw [decide_eq_true_eq]
      rintro rfl
      exact hname hb
    rw [hostValue, hostHeader, List.dropWhile_append_of_pos hne, List.takeWhile_append_of_pos hne,
      List.dropWhile_cons_of_neg (by simp), List.takeWhile_cons_of_neg (by simp), List.append_nil]
    have hdecode := Utf8.decode?_append_cons (show ':'.toNat < 128 by decide) name value
    rw [show UInt8.ofNat ':'.toNat = 58 from rfl] at hdecode
    rw [hdecode]
    cases hname' : Utf8.decode? name with
    | none => rfl
    | some name' =>
        have hnotMem : ':' ∉ name' := by
          intro hmem
          rw [Utf8.decode?_eq_some_iff] at hname'
          apply hname
          rw [hname', Utf8.bytes]
          exact List.mem_flatMap.mpr ⟨':', hmem, by decide⟩
        cases hvalue : Utf8.decode? value with
        | none =>
            simp only [Option.bind_some, Option.map_none, Option.bind_eq_bind, Option.bind_none]
            split_ifs
            · rw [Option.bind_some, hvalue, Option.map_none]
            · rfl
        | some value' =>
            simp only [Option.bind_some, Option.map_some, Option.bind_eq_bind,
              Mime.splitOnce_append hnotMem]
            split_ifs
            · rw [Option.bind_some, hvalue, Option.map_some]
            · rfl
  · have hnone : line.dropWhile (· ≠ 58) = [] := by
      apply List.dropWhile_eq_nil_iff.mpr
      intro b hb
      rw [decide_eq_true_eq]
      rintro rfl
      exact hcolon hb
    rw [hostHeader, hnone, Option.bind_none, hostValue]
    cases htext : Utf8.decode? line with
    | none => rfl
    | some text =>
        have hnotMem : ':' ∉ text := by
          intro hmem
          rw [Utf8.decode?_eq_some_iff] at htext
          apply hcolon
          rw [htext, Utf8.bytes]
          exact List.mem_flatMap.mpr ⟨':', hmem, by decide⟩
        simp only [Option.bind_eq_bind, Option.bind_some, Mime.splitOnce_eq_none hnotMem,
          Option.bind_none]

theorem filterMap_hostValue (headers : List (List UInt8)) :
  headers.filterMap hostValue = (hosts headers).reduceOption
  := by
  rw [hosts, List.reduceOption, List.filterMap_map, List.filterMap_filterMap]
  apply List.filterMap_congr
  intro line _
  exact hostValue_eq line

/-! ### Parameters -/

/-- The pair is parted at its first equals sign. -/
theorem isPair_iff {pair key value : List Char} :
  IsPair pair (key, value) ↔
    ∃ raw, splitOnce '=' pair = some (key, raw) ∧ key ≠ [] ∧ percentDecode raw = some value
  := by
  constructor
  · rintro ⟨raw, rfl, hnotMem, hne, hvalue⟩
    exact ⟨raw, Mime.splitOnce_append hnotMem raw, hne, percentDecode_eq_some_iff.mpr hvalue⟩
  · rintro ⟨raw, hsplit, hne, hvalue⟩
    by_cases hmem : '=' ∈ pair
    · obtain ⟨before, after, rfl, hnotMem⟩ := List.eq_append_cons_of_mem hmem
      rw [Mime.splitOnce_append hnotMem, Option.some.injEq, Prod.mk.injEq] at hsplit
      obtain ⟨rfl, rfl⟩ := hsplit
      exact ⟨after, rfl, hnotMem, hne, percentDecode_eq_some_iff.mp hvalue⟩
    · rw [Mime.splitOnce_eq_none hmem] at hsplit
      cases hsplit

namespace QueryState

/-- The state after parameters. -/
def addAll (s : QueryState) (parameters : List (List Char × List Char)) : QueryState :=
  parameters.foldl (fun s parameter => s.add parameter.1 parameter.2) s

theorem seenKeys_add (s : QueryState) (key value : List Char) :
  (s.add key value).seenKeys = s.seenKeys ++ [key]
  := by
  rw [add]
  split_ifs
  · split <;> rfl
  · rfl

/-- A field holds the value of the key. -/
def IsFieldOf (field : QueryState → Option (List Char)) (key : List Char) : Prop :=
  ∀ s key' value, field (s.add key' value) = if key' = key then some value else field s

theorem ofList_eq_iff {key : List Char} {name : String} :
  String.ofList key = name ↔ key = name.toList
  := by
  constructor
  · rintro rfl
    rw [String.toList_ofList]
  · rintro rfl
    rw [String.ofList_toList]

theorem codeValue_isFieldOf :
  IsFieldOf codeValue "code".toList
  := by
  intro s key value
  simp only [← ofList_eq_iff, add]
  split_ifs with hknown hname hname
  · simp only [hname]
  · split <;> simp_all
  · simp [hname, known] at hknown
  · rfl

theorem stateValue_isFieldOf :
  IsFieldOf stateValue "state".toList
  := by
  intro s key value
  simp only [← ofList_eq_iff, add]
  split_ifs with hknown hname hname
  · simp only [hname]
  · split <;> simp_all
  · simp [hname, known] at hknown
  · rfl

theorem errorValue_isFieldOf :
  IsFieldOf errorValue "error".toList
  := by
  intro s key value
  simp only [← ofList_eq_iff, add]
  split_ifs with hknown hname hname
  · simp only [hname]
  · split <;> simp_all
  · simp [hname, known] at hknown
  · rfl

section

variable {field : QueryState → Option (List Char)} {key : List Char}
variable (hfield : IsFieldOf field key)
variable {parameters : List (List Char × List Char)} {s : QueryState}

include hfield

theorem field_addAll_of_notMem (h : key ∉ parameters.map Prod.fst) :
  field (s.addAll parameters) = field s
  := by
  induction parameters generalizing s with
  | nil => rfl
  | cons parameter parameters ih =>
      rw [List.map_cons, List.mem_cons, not_or] at h
      rw [addAll, List.foldl_cons]
      exact (ih h.2).trans ((hfield s _ _).trans (if_neg (Ne.symm h.1)))

theorem field_addAll_of_mem {value : List Char} (hmem : (key, value) ∈ parameters)
    (hkeys : (parameters.map Prod.fst).Nodup) :
  field (s.addAll parameters) = some value
  := by
  induction parameters generalizing s with
  | nil => cases hmem
  | cons parameter parameters ih =>
      rw [List.map_cons, List.nodup_cons] at hkeys
      rw [addAll, List.foldl_cons]
      rcases List.mem_cons.mp hmem with rfl | hmem
      · exact (field_addAll_of_notMem hfield hkeys.1).trans ((hfield s _ _).trans (if_pos rfl))
      · exact ih hmem hkeys.2

/-- The field of a state that is not set is set to what the key's parameter has. -/
theorem field_addAll_eq_some_iff (hnone : field s = none)
    (hkeys : (parameters.map Prod.fst).Nodup) {value : List Char} :
  field (s.addAll parameters) = some value ↔ (key, value) ∈ parameters
  := by
  constructor
  · intro h
    by_cases hmem : key ∈ parameters.map Prod.fst
    · obtain ⟨⟨key', value'⟩, hmem', rfl⟩ := List.mem_map.mp hmem
      rw [field_addAll_of_mem hfield hmem' hkeys, Option.some.injEq] at h
      rwa [← h]
    · rw [field_addAll_of_notMem hfield hmem, hnone] at h
      cases h
  · intro hmem
    exact field_addAll_of_mem hfield hmem hkeys

theorem field_addAll_eq_none_iff (hnone : field s = none)
    (hkeys : (parameters.map Prod.fst).Nodup) :
  field (s.addAll parameters) = none ↔ key ∉ parameters.map Prod.fst
  := by
  constructor
  · intro h hmem
    obtain ⟨⟨key', value⟩, hmem', rfl⟩ := List.mem_map.mp hmem
    rw [field_addAll_of_mem hfield hmem' hkeys] at h
    cases h
  · intro hmem
    rw [field_addAll_of_notMem hfield hmem, hnone]

end

end QueryState

/-- Pairs are parsed if they are those of parameters, not too many and each with a key of its own. -/
theorem parsePairs_eq_ok_iff {count : ℕ} {s s' : QueryState} {pairs : List (List Char)} :
  parsePairs count s pairs = .ok s' ↔
    ∃ parameters, List.Forall₂ IsPair pairs parameters
      ∧ (pairs ≠ [] → count + pairs.length ≤ maxQueryParameters)
      ∧ (parameters.map Prod.fst).Nodup ∧ (∀ key ∈ parameters.map Prod.fst, key ∉ s.seenKeys)
      ∧ s' = s.addAll parameters
  := by
  induction pairs generalizing count s with
  | nil =>
      rw [parsePairs, Except.ok.injEq]
      constructor
      · rintro rfl
        exact ⟨[], .nil, by simp, .nil, by simp, rfl⟩
      · rintro ⟨parameters, hpairs, -, -, -, rfl⟩
        cases hpairs
        rfl
  | cons pair pairs ih =>
      rw [parsePairs]
      constructor
      · intro h
        split_ifs at h with hcount
        cases hsplit : splitOnce '=' pair with
        | none =>
            rw [hsplit] at h
            cases h
        | some parts =>
            obtain ⟨key, raw⟩ := parts
            simp only [hsplit] at h
            split_ifs at h with hkey hseen
            cases hvalue : percentDecode raw with
            | none =>
                rw [hvalue] at h
                cases h
            | some value =>
                simp only [hvalue] at h
                obtain ⟨parameters, hpairs, hlength, hkeys, hfresh, rfl⟩ := ih.mp h
                have hpair : IsPair pair (key, value) := isPair_iff.mpr ⟨raw, hsplit, hkey, hvalue⟩
                refine ⟨(key, value) :: parameters, .cons hpair hpairs, ?_, ?_, ?_, rfl⟩
                · intro _
                  rw [List.length_cons]
                  by_cases hnil : pairs = []
                  · rw [hnil, List.length_nil]
                    omega
                  · have hle := hlength hnil
                    omega
                · rw [List.map_cons, List.nodup_cons]
                  refine ⟨fun hmem => hfresh key hmem ?_, hkeys⟩
                  rw [QueryState.seenKeys_add]
                  simp
                · intro key' hmem
                  rcases List.mem_cons.mp hmem with rfl | hmem
                  · exact hseen
                  · intro hin
                    apply hfresh key' hmem
                    rw [QueryState.seenKeys_add]
                    exact List.mem_append_left _ hin
      · rintro ⟨parameters, hpairs, hlength, hkeys, hfresh, rfl⟩
        cases hpairs with
        | @cons _ parameter _ parameters hpair hpairs =>
            obtain ⟨key, value⟩ := parameter
            obtain ⟨raw, hsplit, hkey, hvalue⟩ := isPair_iff.mp hpair
            have hle := hlength (List.cons_ne_nil _ _)
            rw [List.length_cons] at hle
            rw [List.map_cons, List.nodup_cons] at hkeys
            have hseen : key ∉ s.seenKeys := hfresh key List.mem_cons_self
            rw [if_neg (by omega), hsplit]
            simp only [if_neg hkey, if_neg hseen, hvalue]
            apply ih.mpr
            refine ⟨parameters, hpairs, fun _ => by omega, hkeys.2, ?_, rfl⟩
            intro key' hmem
            rw [QueryState.seenKeys_add, List.mem_append, List.mem_singleton]
            rintro (hin | rfl)
            · exact hfresh key' (List.mem_cons_of_mem _ hmem) hin
            · exact hkeys.1 hmem

theorem parseQuery_eq_ok_iff {query : List Char} {outcome : CallbackOutcome} :
  parseQuery query = .ok outcome ↔
    ∃ parameters, IsQuery query parameters ∧ Reports parameters outcome
  := by
  constructor
  · intro h
    rw [parseQuery] at h
    split_ifs at h with hempty
    obtain ⟨s, hs, h⟩ := Except.bind_eq_ok.mp h
    obtain ⟨parameters, hpairs, hlength, hkeys, -, rfl⟩ := parsePairs_eq_ok_iff.mp hs
    have hne := List.splitOn_ne_nil '&' query
    have hquery : IsQuery query parameters :=
      ⟨query.splitOn '&', (List.intercalate_splitOn '&').symm, fun _ => Lines.notMem_of_mem_splitOn,
        List.length_pos_of_ne_nil hne, by simpa [maxQueryParameters] using hlength hne, hpairs, hkeys⟩
    refine ⟨parameters, hquery, ?_⟩
    cases hstate : (QueryState.empty.addAll parameters).stateValue with
    | none => simp [hstate] at h
    | some state =>
        have hmem := (QueryState.field_addAll_eq_some_iff QueryState.stateValue_isFieldOf rfl
          hkeys).mp hstate
        cases hcode : (QueryState.empty.addAll parameters).codeValue with
        | none =>
            have hnone := (QueryState.field_addAll_eq_none_iff QueryState.codeValue_isFieldOf rfl
              hkeys).mp hcode
            cases herror : (QueryState.empty.addAll parameters).errorValue with
            | none => simp [hstate, hcode, herror] at h
            | some error =>
                have herror' := (QueryState.field_addAll_eq_some_iff QueryState.errorValue_isFieldOf
                  rfl hkeys).mp herror
                simp only [hstate, hcode, herror, Except.ok.injEq] at h
                rw [← h]
                exact .failure hmem herror' hnone
        | some code =>
            have hcode' := (QueryState.field_addAll_eq_some_iff QueryState.codeValue_isFieldOf rfl
              hkeys).mp hcode
            cases herror : (QueryState.empty.addAll parameters).errorValue with
            | none =>
                have hnone := (QueryState.field_addAll_eq_none_iff QueryState.errorValue_isFieldOf
                  rfl hkeys).mp herror
                simp only [hstate, hcode, herror, Except.ok.injEq] at h
                rw [← h]
                exact .success hmem hcode' hnone
            | some error => simp [hstate, hcode, herror] at h
  · rintro ⟨parameters, ⟨pairs, rfl, hamp, hpos, hlength, hpairs, hkeys⟩, hreports⟩
    have hne := List.ne_nil_of_length_pos hpos
    have hsplit := List.splitOn_intercalate '&' hamp hne
    have hnonempty : ['&'].intercalate pairs ≠ [] := by
      intro hnil
      rw [hnil, List.splitOn_nil] at hsplit
      subst hsplit
      obtain ⟨parameter, _, ⟨raw, hraw, -⟩, -, -⟩ := List.forall₂_cons_left_iff.mp hpairs
      simp at hraw
    have hs : parsePairs 0 .empty pairs = .ok (QueryState.empty.addAll parameters) :=
      parsePairs_eq_ok_iff.mpr ⟨parameters, hpairs, fun _ => by rwa [Nat.zero_add], hkeys,
        fun _ _ => List.not_mem_nil, rfl⟩
    rw [parseQuery, if_neg hnonempty, hsplit, hs]
    cases hreports with
    | success hstate hcode herror =>
        have hstate' := QueryState.field_addAll_of_mem (s := .empty) QueryState.stateValue_isFieldOf
          hstate hkeys
        have hcode' := QueryState.field_addAll_of_mem (s := .empty) QueryState.codeValue_isFieldOf
          hcode hkeys
        have herror' := (QueryState.field_addAll_eq_none_iff (s := .empty)
          QueryState.errorValue_isFieldOf rfl hkeys).mpr herror
        simp only [Except.bind, bind, hstate', hcode', herror']
    | failure hstate herror hcode =>
        have hstate' := QueryState.field_addAll_of_mem (s := .empty) QueryState.stateValue_isFieldOf
          hstate hkeys
        have herror' := QueryState.field_addAll_of_mem (s := .empty) QueryState.errorValue_isFieldOf
          herror hkeys
        have hcode' := (QueryState.field_addAll_eq_none_iff (s := .empty)
          QueryState.codeValue_isFieldOf rfl hkeys).mpr hcode
        simp only [Except.bind, bind, hstate', hcode', herror']

/-! ### First lines -/

theorem stripSuffix_append (text suffix : List Char) :
  stripSuffix suffix (text ++ suffix) = some text
  := by
  have hsuffix : suffix.isSuffixOf (text ++ suffix) = true :=
    List.isSuffixOf_iff_suffix.mpr (List.suffix_append text suffix)
  rw [stripSuffix, if_pos hsuffix, List.length_append, Nat.add_sub_cancel, List.take_left]

/-- The text of the first line of a request. -/
def requestLineText (query version : List Char) : List Char :=
  "GET /callback?".toList ++ query ++ " HTTP/1.".toList ++ version

theorem requestLineText_eq (query version : List Char) :
  requestLineText query version = [' '].intercalate ["GET".toList, "/callback?".toList ++ query,
    "HTTP/1.".toList ++ version]
  := by
  have hget : "GET /callback?".toList = "GET".toList ++ ' ' :: "/callback?".toList := by decide
  have hhttp : " HTTP/1.".toList = ' ' :: "HTTP/1.".toList := by decide
  have hparts : ∀ method path version' : List Char,
      [' '].intercalate [method, path ++ query, version' ++ version]
        = method ++ ' ' :: path ++ query ++ ' ' :: version' ++ version := by
    intro method path version'
    rw [List.intercalate_cons_cons, List.intercalate_cons_cons, List.intercalate_singleton]
    simp only [List.append_assoc, List.cons_append, List.nil_append]
  rw [hparts, ← hget, ← hhttp]
  apply Eq.refl (requestLineText query version)

theorem parseRequestLine_eq_ok_iff {text : List Char} {outcome : CallbackOutcome} :
  parseRequestLine (text ++ "\r\n".toList) = .ok outcome ↔
    ∃ query version parameters, text = requestLineText query version ∧ ' ' ∉ query ∧ '#' ∉ query
      ∧ ' ' ∉ version ∧ IsQuery query parameters ∧ Reports parameters outcome
  := by
  simp only [parseRequestLine, stripSuffix_append]
  constructor
  · intro h
    have hjoin : [' '].intercalate (text.splitOn ' ') = text := List.intercalate_splitOn ' '
    have hspaces : ∀ part ∈ text.splitOn ' ', ' ' ∉ part := fun _ => Lines.notMem_of_mem_splitOn
    split at h
    · rename_i method target version hparts
      rw [hparts] at hjoin hspaces
      split_ifs at h with hversion hmethod hhash hpath
      obtain ⟨version, rfl⟩ := hversion
      rw [Classical.not_not] at hmethod hpath
      by_cases hmark : '?' ∈ target
      · obtain ⟨path, query, rfl, hnotMem⟩ := List.eq_append_cons_of_mem hmark
        rw [Mime.splitOnce_append hnotMem, Option.getD_some] at hpath h
        subst hmethod
        obtain ⟨parameters, hquery, hreports⟩ := parseQuery_eq_ok_iff.mp h
        have htarget := hspaces (path ++ '?' :: query) (by simp)
        have hversion' := hspaces ("HTTP/1.".toList ++ version) (by simp)
        rw [List.mem_append, List.mem_cons, not_or, not_or] at htarget hhash
        rw [List.mem_append, not_or] at hversion'
        refine ⟨query, version, parameters, ?_, htarget.2.2, hhash.2.2, hversion'.2, hquery,
          hreports⟩
        simp only at hpath
        have hcallback : "/callback?".toList = callbackPath.toList ++ ['?'] := by decide
        rw [← hjoin, requestLineText_eq, hpath, hcallback, List.append_assoc, List.singleton_append]
      · rw [Mime.splitOnce_eq_none hmark, Option.getD_none] at h
        simp [parseQuery] at h
    · cases h
  · rintro ⟨query, version, parameters, rfl, hquery, hhash, hversion, hparameters, hreports⟩
    have hparts : (requestLineText query version).splitOn ' '
        = ["GET".toList, "/callback?".toList ++ query, "HTTP/1.".toList ++ version] := by
      rw [requestLineText_eq]
      apply List.splitOn_intercalate
      · intro part hpart
        simp only [List.mem_cons, List.not_mem_nil, or_false] at hpart
        rcases hpart with rfl | rfl | rfl
        · decide
        · rw [List.mem_append, not_or]
          exact ⟨by decide, hquery⟩
        · rw [List.mem_append, not_or]
          exact ⟨by decide, hversion⟩
      · simp
    have hpath : '?' ∉ callbackPath.toList := by decide
    have hsplit : splitOnce '?' ("/callback?".toList ++ query) = some (callbackPath.toList, query) :=
      Mime.splitOnce_append hpath query
    have hhash' : '#' ∉ "/callback?".toList ++ query := by
      rw [List.mem_append, not_or]
      exact ⟨by decide, hhash⟩
    simp only [hparts, hsplit, List.prefix_append, not_true_eq_false, if_false, ne_eq, hhash',
      Option.getD_some]
    exact parseQuery_eq_ok_iff.mpr ⟨parameters, hparameters, hreports⟩

/-- The first line is parsed from its bytes, with its end. -/
theorem isRequestLine_iff {line : List UInt8} {outcome : CallbackOutcome} :
  IsRequestLine line outcome ↔
    ∃ text, Utf8.decode? (line ++ crlf) = some text ∧ parseRequestLine text = .ok outcome
  := by
  have hdecode : Utf8.decode? (line ++ crlf)
      = (Utf8.decode? line).map fun text => text ++ "\r\n".toList := by
    have hend : Utf8.decode? [10] = some ['\n'] := Utf8.decode?_bytes ['\n']
    have happend := Utf8.decode?_append_cons (show '\r'.toNat < 128 by decide) line [10]
    rw [hend] at happend
    rw [Option.map_eq_bind]
    exact happend
  rw [hdecode]
  constructor
  · rintro ⟨query, version, parameters, rfl, hline⟩
    refine ⟨_, by rw [Utf8.decode?_bytes, Option.map_some], ?_⟩
    exact parseRequestLine_eq_ok_iff.mpr ⟨query, version, parameters, rfl, hline⟩
  · rintro ⟨text, htext, hparse⟩
    obtain ⟨text', htext', rfl⟩ := Option.map_eq_some_iff.mp htext
    obtain ⟨query, version, parameters, rfl, hline⟩ := parseRequestLine_eq_ok_iff.mp hparse
    exact ⟨query, version, parameters, Utf8.decode?_eq_some_iff.mp htext', hline⟩

/-! ### Connections -/

/-- The host is taken if it is the authority, which has no letters. -/
theorem validateHost_eq_ok_iff {host : Option (List Char)} {port : UInt16} {u : Unit} :
  validateHost host (authority port) = .ok u ↔ host = some (authority port)
  := by
  have hnumber : ∀ c ∈ "127.0.0.1:".toList, c.isAlpha = false := by decide
  have hletters : ∀ c ∈ authority port, c.isAlpha = false := by
    intro c hc
    rcases List.mem_append.mp hc with hc | hc
    · exact hnumber c hc
    · rw [Nat.toString_eq_repr, Nat.toList_repr] at hc
      have hdigit := Nat.isDigit_of_mem_toDigits (by decide) le_rfl hc
      revert hdigit
      simp only [Char.isDigit, Char.isAlpha, Char.isUpper, Char.isLower]
      grind
  have hsame : ∀ value : List Char,
      toAsciiLowercase value = toAsciiLowercase (authority port) → value = authority port := by
    intro value h
    have hauthority : toAsciiLowercase (authority port) = authority port := by
      rw [toAsciiLowercase]
      calc (authority port).map Char.toLower = (authority port).map id := by
            apply List.map_congr_left
            intro c hc
            rcases toLower_eq_or c with hlower | ⟨halpha, -⟩
            · exact hlower
            · rw [hletters c hc] at halpha
              cases halpha
        _ = authority port := List.map_id _
    rw [hauthority] at h
    rw [← h] at hletters ⊢
    calc value = value.map id := (List.map_id _).symm
      _ = toAsciiLowercase value := by
          apply List.map_congr_left
          intro c hc
          exact eq_of_toLower_eq (hletters _ (List.mem_map_of_mem hc)) rfl
  cases host with
  | none => simp [validateHost]
  | some value =>
      rw [validateHost]
      constructor
      · intro h
        split_ifs at h with hvalue
        rw [hsame value hvalue]
      · intro h
        rw [Option.some.inj h, if_pos rfl]

theorem head?_unbroken {stream : List UInt8} (h : Unbroken stream) :
  head? stream = none
  := by
  rw [head?, crlfLines_unbroken h]

/-- The head of a stream with a line. -/
def headOf (requestLine stream : List UInt8) : Head where
  requestLine
  headers := (crlfLines stream).1.takeWhile (· ≠ [])
  ended := [] ∈ (crlfLines stream).1
  length :=
    if [] ∈ (crlfLines stream).1 then
      linesLength (requestLine :: (crlfLines stream).1.takeWhile (· ≠ [])) + 2
    else requestLine.length + 2 + stream.length

theorem head?_line {requestLine : List UInt8} (h : Unbroken (requestLine ++ [13]))
    (stream : List UInt8) :
  head? (requestLine ++ 13 :: 10 :: stream) = some (headOf requestLine stream)
  := by
  have hlength : (requestLine ++ 13 :: 10 :: stream).length
      = requestLine.length + 2 + stream.length := by
    rw [List.length_append, List.length_cons, List.length_cons]
    omega
  rw [head?, crlfLines_line h, hlength]
  rfl

/-- The head is read up to the bound. -/
theorem readLength_le_iff (requestLine stream : List UInt8) :
  requestLine.length + 2 + readLength stream ≤ maxRequestHeadBytes
    ↔ (headOf requestLine stream).length ≤ if (headOf requestLine stream).ended then 8192 else 8191
  := by
  simp only [headOf, readLength, decide_eq_true_eq, linesLength, List.map_cons, List.sum_cons,
    maxRequestHeadBytes]
  split_ifs <;> omega

/-- A stream is accepted if its head is read up to the bound and one of the hosts is a text, which is
the authority. -/
theorem acceptOne_eq_ok_iff {port : UInt16} {stream : List UInt8} {outcome : CallbackOutcome} :
  acceptOne port stream = .ok outcome ↔
    ∃ head, head? stream = some head ∧ head.length ≤ (if head.ended then 8192 else 8191)
      ∧ IsRequestLine head.requestLine outcome
      ∧ (hosts head.headers).reduceOption = [authority port]
  := by
  induction stream using lines_induction with
  | hrest stream h =>
      constructor
      · intro haccept
        obtain ⟨read, hread, -⟩ := Except.bind_eq_ok.mp haccept
        obtain ⟨parts, hparts, -⟩ := Except.bind_eq_ok.mp hread
        exact absurd hparts (readLine_unbroken (show Unbroken ([] ++ stream) from h))
      · rintro ⟨head, hhead, -⟩
        rw [head?_unbroken h] at hhead
        cases hhead
  | hline requestLine stream h _ =>
      rw [head?_line h]
      have hread : readLine [] (requestLine ++ 13 :: 10 :: stream) = _ :=
        @readLine_line [] requestLine h stream
      rw [List.nil_append] at hread
      have hlength : (requestLine ++ crlf).length = requestLine.length + 2 := by simp [crlf]
      constructor
      · intro haccept
        obtain ⟨⟨text, host⟩, hrequest, hrest⟩ := Except.bind_eq_ok.mp haccept
        obtain ⟨u, hhost, hparse⟩ := Except.bind_eq_ok.mp hrest
        obtain ⟨parts, hparts, hheaders⟩ := Except.bind_eq_ok.mp hrequest
        rw [hread] at hparts
        split_ifs at hparts with hfits
        obtain rfl := Except.ok.inj hparts
        obtain ⟨host', hhost', hdecode⟩ := Except.bind_eq_ok.mp hheaders
        rw [readHeadersCaptureHost_eq, hlength] at hhost'
        split_ifs at hhost' with hbound
        cases htext : Utf8.decode? (requestLine ++ crlf) with
        | none =>
            rw [htext] at hdecode
            cases hdecode
        | some text' =>
            rw [htext] at hdecode
            simp only [Except.ok.injEq, Prod.mk.injEq] at hdecode hhost'
            obtain ⟨rfl, rfl⟩ := hdecode
            rw [validateHost_eq_ok_iff, ← hhost', Hosts.taken_eq_some_iff, filterMap_hostValue]
              at hhost
            exact ⟨_, rfl, (readLength_le_iff _ _).mp hbound,
              isRequestLine_iff.mpr ⟨text', htext, hparse⟩, hhost⟩
      · rintro ⟨head, hhead, hbound, hline, hhost⟩
        obtain rfl := Option.some.inj hhead
        have hbound' := (readLength_le_iff _ _).mpr hbound
        obtain ⟨text, htext, hparse⟩ := isRequestLine_iff.mp hline
        rw [← filterMap_hostValue] at hhost
        have htaken := Hosts.taken_eq_some_iff.mpr hhost
        have hheaders := readHeadersCaptureHost_eq (requestLine ++ crlf).length .none stream
        rw [hlength, if_pos hbound'] at hheaders
        have hrequest : readRequestLine (requestLine ++ 13 :: 10 :: stream)
            = .ok (text, some (authority port)) := by
          apply Except.bind_eq_ok.mpr
          refine ⟨(requestLine ++ crlf, stream), by rw [hread, if_pos (by omega)], ?_⟩
          apply Except.bind_eq_ok.mpr
          refine ⟨_, by rw [hlength]; exact hheaders, ?_⟩
          rw [show Utf8.decode? (requestLine ++ crlf) = some text from htext]
          exact congrArg (fun host => Except.ok (text, host)) htaken
        apply Except.bind_eq_ok.mpr
        refine ⟨_, hrequest, ?_⟩
        apply Except.bind_eq_ok.mpr
        exact ⟨(), validateHost_eq_ok_iff.mpr rfl, hparse⟩

/-! ### What is parsed exactly -/

theorem reduceOption_eq_singleton {α : Type*} {values : List (Option α)} {a : α} :
  values.reduceOption = [a] ↔ values = [some a] ∨ none ∈ values ∧ values.reduceOption = [a]
  := by
  constructor
  · intro h
    obtain ⟨m, n, rfl⟩ := (List.reduceOption_eq_singleton_iff _ _).mp h
    by_cases hzero : m = 0 ∧ n = 0
    · left
      rw [hzero.1, hzero.2]
      rfl
    · right
      refine ⟨?_, h⟩
      rw [List.mem_append, List.mem_cons, List.mem_replicate, List.mem_replicate]
      grind
  · rintro (rfl | ⟨-, h⟩)
    · rfl
    · exact h

/-- A stream is parsed exactly if it is not misread. -/
theorem parsesExactly_iff (port : UInt16) (stream : List UInt8) :
  ParsesExactly port stream ↔ ¬IsMisread port stream
  := by
  constructor
  · rintro h ⟨head, outcome, hhead, hline, ⟨hended, hlength, hhosts⟩ | ⟨hbound, hnone, hhosts⟩⟩
    · have haccept := (h outcome).mpr ⟨head, hhead, hlength.le, hline, hhosts⟩
      obtain ⟨head', hhead', hbound, -⟩ := acceptOne_eq_ok_iff.mp haccept
      obtain rfl := Option.some.inj (hhead.symm.trans hhead')
      rw [hended, hlength] at hbound
      simp at hbound
    · have haccept := acceptOne_eq_ok_iff.mpr ⟨head, hhead, hbound, hline, hhosts⟩
      obtain ⟨head', hhead', -, -, hhosts'⟩ := (h outcome).mp haccept
      obtain rfl := Option.some.inj (hhead.symm.trans hhead')
      rw [hhosts'] at hnone
      simp at hnone
  · intro h outcome
    constructor
    · intro haccept
      obtain ⟨head, hhead, hbound, hline, hhosts⟩ := acceptOne_eq_ok_iff.mp haccept
      rcases reduceOption_eq_singleton.mp hhosts with hhosts | ⟨hnone, hhosts⟩
      · refine ⟨head, hhead, hbound.trans ?_, hline, hhosts⟩
        split_ifs <;> decide
      · exact absurd ⟨head, outcome, hhead, hline, Or.inr ⟨hbound, hnone, hhosts⟩⟩ h
    · rintro ⟨head, hhead, hlength, hline, hhosts⟩
      apply acceptOne_eq_ok_iff.mpr
      refine ⟨head, hhead, ?_, hline, by rw [hhosts]; rfl⟩
      by_contra hbound
      have hended : head.ended = false ∧ head.length = 8192 := by
        cases hended : head.ended with
        | true => exact absurd (by rwa [hended]) hbound
        | false =>
            rw [hended] at hbound
            exact ⟨rfl, by simp at hbound; omega⟩
      exact h ⟨head, outcome, hhead, hline, Or.inl ⟨hended.1, hended.2, hhosts⟩⟩

/-- A second line of the host that is not a text is not noticed. -/
theorem not_parsesExactly_secondHost :
  ¬ParsesExactly 49152
    (Utf8.bytes
        "GET /callback?code=c&state=s HTTP/1.1\r\nHost: 127.0.0.1:49152\r\nHost: ".toList
      ++ 0xff :: Utf8.bytes "\r\n\r\n".toList)
  := by
  intro h
  have haccept := (h (.success "c" "s")).mp (by decide +kernel)
  obtain ⟨head, hhead, -, -, hhosts⟩ := haccept
  have hread : (head? (Utf8.bytes
        "GET /callback?code=c&state=s HTTP/1.1\r\nHost: 127.0.0.1:49152\r\nHost: ".toList
      ++ 0xff :: Utf8.bytes "\r\n\r\n".toList)).map (fun head => hosts head.headers)
      ≠ some [some (authority 49152)] := by
    decide +kernel
  rw [hhead, Option.map_some, hhosts] at hread
  exact hread rfl

end Callback

end Graph
