import Mathlib.Data.Finset.Union
import OpenLoops.Library.Program
import OpenLoops.Library.Wire

/-!
# Sessions

A call to a provider runs within a session.  When a session is stored that covers the scopes
that are required, the call runs with its token; when the provider rejects the token, or there is
no such session, the user signs in again and the call runs with the new token.
-/

namespace Graph

/-- A provider of mail and tasks. -/
inductive MailProvider where
  | microsoft
  | google
deriving DecidableEq, Repr

/-- Why a call failed. -/
inductive ConnectionError where
  | invalidConfiguration
  | alreadyConnecting
  | browserUnavailable
  | callbackUnavailable
  | signInTimedOut
  | consentDenied
  | adminConsentRequired
  | publisherNotTrusted
  | providerUnavailable
  | transport
  | timeout (seconds : UInt64)
  | tokenRejected
  | responseTooLarge
  | messageTooLarge
  | accessDenied
  | unauthorized
  | missingSharedScope
  | throttled
  | resourceUnavailable
  | groupNotFound
  | badRequest
  | notFound
  | serverError
  | nextPageRejected
  | cancelled
deriving DecidableEq, Repr

/-- What a sign-in tells about access to shared mailboxes. -/
inductive SharedScope where
  | granted
  | missing
  | notReported
deriving DecidableEq, Repr

/-- A session that a sign-in has opened. -/
structure Session where
  accessToken : String
  /-- The instant in nanoseconds. -/
  expiresAt : ℕ
  scopes : Finset String
  shared : SharedScope
deriving DecidableEq

/-! ### Operations -/

/-- The method of a request. -/
inductive Method where
  | get
  | post
  | patch
deriving DecidableEq, Repr

/-- A request with a bearer token. -/
structure Request (Url : Type) where
  method : Method
  url : Url
  token : String
  headers : List (String × String)
  body : Option Bytes

/-- How a transport failed. -/
inductive TransportFailure where
  | timedOut
  | other
deriving DecidableEq, Repr

/-- A response, of which the body may still fail while it is read. -/
structure Response where
  status : UInt16
  contentLength : Option UInt64
  /-- The bytes of the body until its end or until the failure. -/
  received : Bytes
  failure : Option TransportFailure

/-- What a call asks of its surroundings. -/
inductive Operation (Url : Type) where
  /-- Take the flag that a connection is in progress. -/
  | connect
  /-- Release the flag. -/
  | disconnect
  /-- Build a client. -/
  | buildClient
  /-- Read the stored session of the provider. -/
  | loadSession (provider : MailProvider)
  /-- Store a session of the provider, or none. -/
  | storeSession (provider : MailProvider) (session : Option Session)
  /-- Read the monotonic clock. -/
  | instant
  /-- Read the seconds of the system clock. -/
  | systemTime
  /-- Let the user sign in. -/
  | authorize (provider : MailProvider) (clientId : String) (scopes : Finset String)
  /-- Send a request. -/
  | send (request : Request Url)
  /-- Wait before a request is sent once more. -/
  | sleep (seconds : ℕ)

/-- What the surroundings answer. -/
abbrev Operation.Answer {Url : Type} : Operation Url → Type
  | connect | buildClient => Bool
  | loadSession _ => Option Session
  | instant => ℕ
  | systemTime => Int64
  | authorize _ _ _ => Except ConnectionError Session
  | send _ => Except TransportFailure Response
  | disconnect | storeSession _ _ | sleep _ => Unit

/-- A program that calls a provider. -/
abbrev CallProgram (Url : Type) :=
  Program (Operation Url) Operation.Answer

/-- A program that calls a provider and may fail. -/
abbrev Call (Url : Type) :=
  ExceptT ConnectionError (CallProgram Url)

/-- The steps of a call. -/
abbrev CallSteps (Url : Type) :=
  List (Performed (@Operation.Answer Url))

variable {Url : Type}

/-- Send a request. -/
def send (request : Request Url) : CallProgram Url (Except TransportFailure Response) :=
  .ask (Operation.send request)

/-! ### Stored sessions -/

/-- The nanoseconds that a session must last at least. -/
def sessionMargin : ℕ := 60 * 10 ^ 9

def sessionIsFresh (session : Session) (now : ℕ) : Bool :=
  sessionMargin < session.expiresAt - now

def sessionCovers (session : Session) (required : Finset String) (now : ℕ) : Bool :=
  sessionIsFresh session now && required ⊆ session.scopes

def clearSessionFor (provider : MailProvider) : CallProgram Url Unit :=
  .ask (Operation.storeSession provider none)

/-- The session that is stored, when it covers what is required; one that does not is removed. -/
def coveringSession (provider : MailProvider) (required : Finset String)
    (stored : Option Session) : CallProgram Url (Option Session) :=
  match stored with
  | none => do
      clearSessionFor provider
      return none
  | some session => do
      let now ← Program.ask Operation.instant
      if sessionCovers session required now then return some session
      else do
        clearSessionFor provider
        return none

/-- The call was rejected for its token. -/
def isUnauthorized {α : Type} (result : Except ConnectionError α) : Bool :=
  match result with
  | .error .unauthorized => true
  | _ => false

variable {σ α : Type}

/-- Do some work after the user has signed in. -/
def runAuthorized (provider : MailProvider) (scopes : Finset String)
    (authorizeSession : Finset String → CallProgram Url (Except ConnectionError Session))
    (work : σ → String → SharedScope → CallProgram Url (σ × Except ConnectionError α)) (s : σ) :
    CallProgram Url (σ × Except ConnectionError α) := do
  match ← authorizeSession scopes with
  | .error e => return (s, .error e)
  | .ok session => do
      let _ ← Program.ask (Operation.storeSession provider (some session))
      let (s, result) ← work s session.accessToken session.shared
      if isUnauthorized result then do
        clearSessionFor provider
        return (s, result)
      else return (s, result)

/-- Do some work within the session that is stored, and after a sign-in when there is none that
covers what is required or when its token is rejected.  The work may run twice; it takes over the
variables that it has left. -/
def runWithSessionFor (provider : MailProvider) (required : Finset String)
    (authorizeSession : Finset String → CallProgram Url (Except ConnectionError Session))
    (work : σ → String → SharedScope → CallProgram Url (σ × Except ConnectionError α)) (s : σ) :
    CallProgram Url (σ × Except ConnectionError α) := do
  let stored : Option Session ← Program.ask (Operation.loadSession provider)
  let scopes := (stored.elim ∅ Session.scopes) ∪ required
  match ← coveringSession provider required stored with
  | none => runAuthorized provider scopes authorizeSession work s
  | some session => do
      let (s, result) ← work s session.accessToken session.shared
      if isUnauthorized result then do
        clearSessionFor provider
        runAuthorized provider scopes authorizeSession work s
      else return (s, result)

/-- Do some work with a client while the flag is taken. -/
def whileConnecting (s : σ) (work : CallProgram Url (σ × Except ConnectionError α)) :
    CallProgram Url (σ × Except ConnectionError α) := do
  let granted : Bool ← Program.ask Operation.connect
  if granted then do
    let built : Bool ← Program.ask Operation.buildClient
    let result ← if built then work else pure (s, .error .transport)
    let _ ← Program.ask Operation.disconnect
    return result
  else return (s, .error .alreadyConnecting)

/-! ### Sessions with Microsoft -/

/-- A registration with Microsoft and the mailboxes that were chosen. -/
structure ConnectionConfig where
  clientId : String
  sharedMailboxes : List String
  groupInboxes : List String

def requiredScopes (config : ConnectionConfig) (reminders : Bool) : Finset String :=
  let mailScope :=
    if reminders then "Tasks.ReadWrite"
    else if config.sharedMailboxes.isEmpty then "Mail.Read" else "Mail.Read.Shared"
  let scopes := {"https://graph.microsoft.com/User.Read", "https://graph.microsoft.com/" ++ mailScope}
  if !reminders && !config.groupInboxes.isEmpty then
    scopes ∪ {"https://graph.microsoft.com/Group.ReadBasic.All",
      "https://graph.microsoft.com/Group-Conversation.Read.All"}
  else scopes

def withScopes (config : ConnectionConfig) (reminders : Bool)
    (work : σ → String → SharedScope → CallProgram Url (σ × Except ConnectionError α)) (s : σ) :
    CallProgram Url (σ × Except ConnectionError α) :=
  whileConnecting s
    (runWithSessionFor .microsoft (requiredScopes config reminders)
      (fun scopes => .ask (Operation.authorize .microsoft config.clientId scopes)) work s)

/-! ### Sessions with Google -/

/-- A registration with Google. -/
structure GoogleConfig where
  clientId : String
  clientSecret : String

/-- The part before the first separator, and the part after it. -/
def splitOnce (separator : Char) (text : List Char) : Option (List Char × List Char) :=
  match text.span (· ≠ separator) with
  | (before, _ :: after) => some (before, after)
  | (_, []) => none

/-- The part before the suffix. -/
def stripSuffix (suffix text : List Char) : Option (List Char) :=
  if suffix.isSuffixOf text then some (text.take (text.length - suffix.length)) else none

def validClientId (value : String) : Bool :=
  match (stripSuffix ".apps.googleusercontent.com".toList value.toList).bind (splitOnce '-') with
  | none => false
  | some (digits, suffix) =>
      !digits.isEmpty && digits.all Char.isDigit && !suffix.isEmpty
        && suffix.all fun c => c.isLower || c.isDigit

/-- The character is a control character. -/
def isControl (c : Char) : Bool :=
  c.toNat < 0x20 || (0x7f ≤ c.toNat && c.toNat < 0xa0)

def validClientSecret (value : String) : Bool :=
  !value.toList.isEmpty && !value.toList.any isControl

/-- The scopes that are required of Google. -/
def googleScopes (reminders : Bool) : Finset String :=
  {"openid", "email", "profile",
    if reminders then "https://www.googleapis.com/auth/tasks"
    else "https://www.googleapis.com/auth/gmail.readonly"}

def withGoogleSession (config : GoogleConfig) (reminders : Bool)
    (work : σ → String → CallProgram Url (σ × Except ConnectionError α)) (s : σ) :
    CallProgram Url (σ × Except ConnectionError α) :=
  if !validClientId config.clientId || !validClientSecret config.clientSecret then
    return (s, .error .invalidConfiguration)
  else
    whileConnecting s
      (runWithSessionFor .google (googleScopes reminders)
        (fun scopes => .ask (Operation.authorize .google config.clientId scopes))
        (fun s token _ => work s token) s)

end Graph
