import OpenLoops.Graph.Session
import OpenLoops.Library.Fallible
import OpenLoops.Library.Json

/-!
# Fetching

Reads are bounded in size, and are tried once more when they fail on the way.  Whoever has signed
in is identified by a read, and a collection is read page by page.
-/

namespace Graph

/-- What is computed outside: addresses, documents and times. -/
structure Web (Url : Type) where
  parse : String → Option Url
  join : Url → String → Option Url
  sameOrigin : Url → Url → Bool
  path : Url → String
  username : Url → String
  password : Url → Option String
  fragment : Url → Option String
  /-- Segments after those of the path, in place of its last one when that is empty. -/
  pushSegments : Url → List String → Option Url
  /-- One more pair of the query. -/
  appendPair : Url → String → String → Url
  parseJson : Bytes → Option Json
  jsonToVec : Json → Option Bytes
  toLowercase : String → String
  /-- The seconds since the epoch of a date and time with an offset. -/
  parseRfc3339 : String → Option ℤ
  /-- The seconds since the epoch as a date and time. -/
  formatUtc : Int64 → Option String
  /-- The local date of the seconds, at midnight. -/
  formatLocalDate : Int64 → Option String
  formatLocalReminderTime : Int64 → Option String

variable {Url : Type} (W : Web Url)

/-! ### Failures and bodies -/

/-- The greatest size of a body. -/
def maxResponse : ℕ := 1024 * 1024

def graphTimeoutSeconds : UInt64 := 90

def requestError : TransportFailure → ConnectionError
  | .timedOut => .timeout graphTimeoutSeconds
  | .other => .transport

def classifyStatus (status : UInt16) : ConnectionError :=
  if status = 400 then .badRequest
  else if status = 401 then .unauthorized
  else if status = 403 then .accessDenied
  else if status = 404 then .notFound
  else if status = 429 then .throttled
  else if 500 ≤ status ∧ status ≤ 599 then .serverError
  else .resourceUnavailable

/-- The body of a response, when it is not too large. -/
def boundedBody (response : Response) : Except ConnectionError Bytes :=
  if response.contentLength.any (maxResponse < ·.toNat) then .error .responseTooLarge
  -- No more is read than what shows that the body is too large.
  else if maxResponse < response.received.length then .error .responseTooLarge
  else
    match response.failure with
    | some failure => .error (requestError failure)
    | none => .ok response.received

/-! ### Reads -/

/-- The read failed on the way. -/
def isRetryable (result : Except ConnectionError Bytes) : Bool :=
  match result with
  | .error (.timeout _) | .error .transport => true
  | _ => false

/-- Read once, and tell whether it may be tried once more. -/
def fetchOnce (request : Request Url) :
    CallProgram Url (Except ConnectionError Bytes × Bool) := do
  match ← send request with
  | .error failure =>
      let result := .error (requestError failure)
      return (result, isRetryable result)
  | .ok response =>
      if response.status = 200 then return (boundedBody response, isRetryable (boundedBody response))
      else return (.error (classifyStatus response.status),
        response.status = 503 || response.status = 504)

def retryDelaySeconds : ℕ := 2

/-- Read, and try some more times. -/
def fetchAttempts (request : Request Url) : ℕ → CallProgram Url (Except ConnectionError Bytes)
  | 0 => do
      let (result, _) ← fetchOnce request
      return result
  | retries + 1 => do
      let (result, retryable) ← fetchOnce request
      if retryable then do
        let _ ← Program.ask (Operation.sleep retryDelaySeconds)
        fetchAttempts request retries
      else return result

/-- Read from an address at the origin that is expected. -/
def fetchFromOriginWithHeaders (token : String) (url : Url) (expectedOrigin : String)
    (headers : List (String × String)) : Call Url Bytes := do
  let expected ← (W.parse expectedOrigin).okOr ConnectionError.invalidConfiguration
  if W.sameOrigin url expected then
    ExceptT.mk (fetchAttempts ⟨.get, url, token, headers, none⟩ 1)
  else throw .invalidConfiguration

def preferHeader : String × String :=
  ("Prefer", "outlook.body-content-type=\"html\", IdType=\"ImmutableId\"")

def fetchFromOrigin (token : String) (url : Url) (expectedOrigin : String) : Call Url Bytes :=
  fetchFromOriginWithHeaders W token url expectedOrigin [preferHeader]

/-! ### Texts of documents -/

/-- The text of a member, of limited size. -/
def textBy (size : String → ℕ) (value : Json) (field : String) (limit : ℕ) :
    Except ConnectionError String := do
  let text ← ((value.get field).bind Json.readString).okOr .resourceUnavailable
  if limit < size text then .error .responseTooLarge else .ok text

/-- The text of a member that may be missing or empty. -/
def optionalTextBy (size : String → ℕ) (value : Json) (field : String) (limit : ℕ) :
    Except ConnectionError (Option String) :=
  match value.get field with
  | none | some .null => .ok none
  | some _ => (textBy size value field limit).map fun text => if text = "" then none else some text

/-! ### Identities -/

/-- Who has signed in. -/
structure UserIdentity where
  provider : MailProvider
  account : String
  addresses : List String
  displayName : Option String
  givenName : Option String
deriving DecidableEq

def graphOrigin : String := "https://graph.microsoft.com/"

def parseIdentity (value : Json) : Except ConnectionError UserIdentity := do
  let text := textBy String.utf8ByteSize value
  let optionalText := optionalTextBy String.utf8ByteSize value
  let id ← text "id" 512
  let addresses := (["mail", "userPrincipalName"].filterMap fun field => (text field 512).toOption)
    |>.filter (· ≠ "") |>.map W.toLowercase
  if id = "" ∨ addresses = [] then .error .resourceUnavailable
  else do
    let displayName ← optionalText "displayName" 4096
    let givenName ← optionalText "givenName" 4096
    return { provider := .microsoft, account := id, addresses, displayName, givenName }

/-- Who has signed in with Microsoft. -/
def identityFromOrigin (token origin : String) : Call Url UserIdentity := do
  let url ← ((W.parse origin).bind fun url =>
      W.join url "v1.0/me?$select=id,mail,userPrincipalName,displayName,givenName").okOr
    ConnectionError.invalidConfiguration
  let bytes ← fetchFromOrigin W token url origin
  let value ← (W.parseJson bytes).okOr ConnectionError.resourceUnavailable
  parseIdentity W value

namespace Gmail

def userinfoOrigin : String := "https://openidconnect.googleapis.com/"

def parseIdentity (value : Json) : Except ConnectionError UserIdentity := do
  let boundedText := textBy String.length value
  let optionalText := optionalTextBy String.length value
  let sub ← boundedText "sub" 512
  let email ← boundedText "email" 512
  if sub = "" ∨ email = "" then .error .resourceUnavailable
  else do
    let displayName ← optionalText "name" 4096
    let givenName ← optionalText "given_name" 4096
    return {
      provider := .google, account := "google:" ++ sub
      addresses := [String.ofList (email.toList.map Char.toLower)], displayName, givenName }

/-- Who has signed in with Google. -/
def identityFromOrigin (token origin : String) : Call Url UserIdentity := do
  let url ← ((W.parse origin).bind fun url => W.join url "v1/userinfo").okOr
    ConnectionError.invalidConfiguration
  let bytes ← fetchFromOriginWithHeaders W token url origin []
  let value ← (W.parseJson bytes).okOr ConnectionError.resourceUnavailable
  parseIdentity value

end Gmail

/-! ### Pages -/

/-- The rows of a page, and whether there are more. -/
def page (bytes : Bytes) : Except ConnectionError (List Json × Bool) := do
  let value ← (W.parseJson bytes).okOr .resourceUnavailable
  let rows ← ((value.get "value").bind Json.readArray).okOr .resourceUnavailable
  if 100 < rows.length then .error .responseTooLarge
  else .ok (rows, (value.get "@odata.nextLink").isSome)

/-- The address of the next page, which must be one of the same collection. -/
def nextPage (value : Json) (original : Url) : Except ConnectionError (Option Url) :=
  match value.get "@odata.nextLink" with
  | none => .ok none
  | some next => do
      let text ← next.readString.okOr .resourceUnavailable
      let url ← (W.parse text).okOr .resourceUnavailable
      if !W.sameOrigin url original || W.path url ≠ W.path original || W.username url ≠ ""
          || (W.password url).isSome || (W.fragment url).isSome then
        .error .nextPageRejected
      else .ok (some url)

/-- Read at most so many pages more, and tell whether there may be more rows. -/
def pagesLoop (token : String) (original : Url) (cap : ℕ) (origin : String) :
    ℕ → Url → List Json → Call Url (List Json × Bool)
  | 0, _, all => return (all, true)
  | pages + 1, url, all => do
      let bytes ← fetchFromOrigin W token url origin
      let value ← (W.parseJson bytes).okOr ConnectionError.resourceUnavailable
      let (rows, _) ← page W bytes
      let collected := all ++ rows.take (cap - all.length)
      if cap - all.length < rows.length then return (collected, true)
      else
        match nextPage W value original with
        | .error _ => return (collected, true)
        | .ok none => return (collected, false)
        | .ok (some next) =>
            if collected.length = cap then return (collected, true)
            else pagesLoop token original cap origin pages next collected

def pagesFromOrigin (token : String) (original : Url) (cap : ℕ) (origin : String) :
    Call Url (List Json × Bool) :=
  pagesLoop W token original cap origin 10 original []

end Graph
