import OpenLoops.Graph.Fetch
import OpenLoops.Graph.Session
import OpenLoops.Library.KeyOrder
import OpenLoops.Library.Machine

/-!
# Loading listed messages

The rows of a listing are loaded by several workers, which take them in order from a cursor.  A
message that is known is not loaded again.  Each worker sends what became of its row through a
channel, and when all of them have left the messages are put in the order of the listing.  The steps
of a worker are atomic, and the user may cancel at any time.
-/

namespace Graph

/-! ### Mail -/

structure MailEvent where
  start : String
  «end» : String
  outOfDate : Bool
deriving DecidableEq

structure MailItem where
  provider : MailProvider
  subject : String
  body : String
  bodyIsHtml : Bool
  sender : String
  received : String
  id : String
  conversation : String
  account : String
  ownAddresses : List String
  ownDisplayName : Option String
  ownGivenName : Option String
  senderAddress : String
  «to» : List String
  cc : List String
  sent : Bool
  team : Bool
  webLink : String
  event : Option MailEvent
deriving DecidableEq

structure SourceReview where
  provider : MailProvider
  label : String
  messages : List MailItem
  errors : List ConnectionError
  messageErrors : List ConnectionError
  /-- There is more mail than was listed. -/
  partialListing : Bool
  /-- Nothing could be listed. -/
  failed : Bool

/-- What an error says. -/
def ConnectionError.text : ConnectionError → String
  | .invalidConfiguration => "Check the application ID and optional shared mailbox setting."
  | .alreadyConnecting => "A connection is already in progress."
  | .browserUnavailable => "The system browser could not be opened."
  | .callbackUnavailable => "The local sign-in listener is unavailable."
  | .signInTimedOut => "Sign-in timed out. Run the connection command again."
  | .consentDenied => "Sign-in was declined or could not be completed."
  | .adminConsentRequired => "Your organization requires an administrator to approve this app. Send "
      ++ "the admin consent link to your IT administrator, or enter your organization's own "
      ++ "Application ID."
  | .publisherNotTrusted => "Your organization does not allow this app's publisher. Enter your "
      ++ "organization's own Application ID."
  | .providerUnavailable => "The selected provider is unavailable."
  | .transport => "The mail service could not be reached over a secure connection."
  | .timeout seconds =>
      "The service did not answer within " ++ toString seconds ++ " seconds."
  | .tokenRejected => "The mail service rejected the sign-in exchange. Check the registration and "
      ++ "redirect URI."
  | .responseTooLarge => "The mail service returned a response above the allowed size."
  | .messageTooLarge => "A message body exceeded the review size limit and was skipped."
  | .accessDenied => "The mail service returned HTTP 403. Check consent and this signed-in account's "
      ++ "access to the selected mailbox or group; an administrator role alone does not grant "
      ++ "content access."
  | .unauthorized => "The mail service returned HTTP 401. Sign in again; if it persists, check the "
      ++ "organization's access policies."
  | .missingSharedScope => "The token response did not grant Mail.Read.Shared. Check the app's "
      ++ "delegated permissions and consent, then sign in again."
  | .throttled => "The mail service returned HTTP 429. Wait before retrying the connection check."
  | .resourceUnavailable => "The requested mailbox or resource is unavailable."
  | .groupNotFound => "No unique group matched that primary email address. Check the group's primary "
      ++ "address and directory-read consent."
  | .badRequest => "The mail service rejected the request as malformed (HTTP 400)."
  | .notFound => "The mail service reported the requested resource does not exist (HTTP 404)."
  | .serverError => "The mail service reported a server-side failure (HTTP 5xx). Retry later."
  | .nextPageRejected => "The mail service returned a next-page link outside the authorized "
      ++ "collection; remaining pages were skipped."
  | .cancelled => "Download stopped before the scan began."

def MailProvider.serviceName : MailProvider → String
  | .microsoft => "Microsoft 365"
  | .google => "Google"

/-- The messages that are known already, by their account and id. -/
abbrev MailCache := String → String → Option MailItem

/-! ### Rows -/

/-- What became of a row: the message, and whether it was known. -/
abbrev RowOutcome := Except ConnectionError (MailItem × Bool)

/-- How a source is loaded. -/
structure HydrationPlan where
  collected : List Json
  sent : Bool
  team : Bool
  identity : UserIdentity
  cache : MailCache

namespace HydrationPlan

variable (plan : HydrationPlan)

/-- When a message of the user was sent. -/
def sentTime (row : Json) : Option String :=
  if plan.sent then (textBy String.utf8ByteSize row "sentDateTime" 64).toOption else none

/-- The message of a row that is known. -/
def cached (row : Json) : Option MailItem :=
  (textBy String.utf8ByteSize row "id" 2048).toOption.bind fun id =>
    plan.cache plan.identity.account id

end HydrationPlan

/-! ### Workers -/

/-- Where a worker is in its life. -/
inductive HydrationPlace where
  /-- It is about to look whether the user has cancelled. -/
  | checking
  /-- It is about to take the next row. -/
  | drawing
  /-- It has a row, and is about to look again. -/
  | claimed (index : ℕ) (row : Json)
  /-- It looks the row up among the messages that are known. -/
  | looking (index : ℕ) (row : Json)
  /-- The message is being loaded. -/
  | hydrating (index : ℕ) (row : Json)
  /-- A message is about to be counted. -/
  | counting (index : ℕ) (row : Json) (outcome : RowOutcome)
  /-- The outcome is about to be sent. -/
  | sending (index : ℕ) (row : Json) (outcome : RowOutcome)
  | exited

/-- What the workers share, with the counters that are shown to the user. -/
structure Hydration where
  next : ℕ
  listed : ℕ
  loaded : ℕ
  cancel : Bool
  received : List (ℕ × Option String × RowOutcome)
  workers : ℕ → HydrationPlace

namespace Hydration

/-- The worker goes to a place. -/
def goto (s : Hydration) (worker : ℕ) (place : HydrationPlace) : Hydration :=
  { s with workers := Function.update s.workers worker place }

/-- The start of the loading: the rows are counted as listed. -/
def start (plan : HydrationPlan) (workers listed loaded : ℕ) (cancel : Bool) : Hydration where
  next := 0
  listed := listed + plan.collected.length
  loaded
  cancel
  received := []
  workers := fun worker => if worker < workers then .checking else .exited

/-- The cursor goes on to the next row. -/
def draw (s : Hydration) : Hydration :=
  { s with next := s.next + 1 }

/-- A message is counted. -/
def count (s : Hydration) (outcome : RowOutcome) : Hydration :=
  { s with loaded := if outcome.toOption.isSome then s.loaded + 1 else s.loaded }

/-- An outcome is received. -/
def receive (s : Hydration) (index : ℕ) (sentTime : Option String) (outcome : RowOutcome) :
    Hydration :=
  { s with received := s.received ++ [(index, sentTime, outcome)] }

/-- A step of a worker, with the row that is processed by it.  The answer is that of the call that
loads a message. -/
def stepWorker (plan : HydrationPlan) (s : Hydration) (worker : ℕ)
    (answer : Except ConnectionError MailItem) : Hydration × Option (ℕ × RowOutcome) :=
  match s.workers worker with
  | .checking =>
      if s.cancel then (s.goto worker .exited, none) else (s.goto worker .drawing, none)
  | .drawing =>
      match plan.collected[s.next]? with
      | none => (s.draw.goto worker .exited, none)
      | some row => (s.draw.goto worker (.claimed s.next row), none)
  | .claimed index row =>
      if s.cancel then (s.goto worker .exited, none)
      else (s.goto worker (.looking index row), none)
  | .looking index row =>
      match plan.cached row with
      | some message =>
          (s.goto worker (.counting index row (.ok (message, true))),
            some (index, .ok (message, true)))
      | none => (s.goto worker (.hydrating index row), none)
  | .hydrating index row =>
      (s.goto worker (.counting index row (answer.map fun message => (message, false))),
        some (index, answer.map fun message => (message, false)))
  | .counting index row outcome =>
      ((s.count outcome).goto worker (.sending index row outcome), none)
  | .sending index row outcome =>
      ((s.receive index (plan.sentTime row) outcome).goto worker .checking, none)
  | .exited => (s, none)

/-- What happens next: a step of a worker, or the user cancels. -/
inductive Turn where
  | worker (worker : ℕ) (answer : Except ConnectionError MailItem)
  | cancel

/-- The loading, which tells at each step the row that is processed. -/
def machine (plan : HydrationPlan) : Machine Hydration Turn (Option (ℕ × RowOutcome)) where
  step s turn :=
    match turn with
    | .worker worker answer => s.stepWorker plan worker answer
    | .cancel => ({ s with cancel := true }, none)

/-- All workers have left. -/
def AllExited (s : Hydration) : Prop :=
  ∀ worker, s.workers worker = .exited

/-! ### The source -/

/-- What a row becomes: a message, or an error of the source or of the message. -/
inductive Entry where
  | message (message : MailItem)
  | unusable
  | failed (error : ConnectionError)
deriving DecidableEq

namespace Entry

/-- The message, when there is one. -/
@[simp]
def message? : Entry → Option MailItem
  | .message mail => some mail
  | _ => none

/-- The error of the source. -/
@[simp]
def error? : Entry → Option ConnectionError
  | .unusable => some .resourceUnavailable
  | _ => none

/-- The error of the message. -/
@[simp]
def messageError? : Entry → Option ConnectionError
  | .failed failure => some failure
  | _ => none

end Entry

/-- A message that was loaded is of the user who has signed in. -/
def stamp (plan : HydrationPlan) (sentTime : Option String) (message : MailItem) : MailItem :=
  let message := { message with
    account := plan.identity.account
    ownAddresses := plan.identity.addresses
    ownDisplayName := plan.identity.displayName
    ownGivenName := plan.identity.givenName
    team := plan.team }
  if plan.identity.provider = .microsoft then
    { message with sent := plan.sent, received := sentTime.getD message.received }
  else message

def entry (plan : HydrationPlan) (sentTime : Option String) : RowOutcome → Entry
  | .ok (message, cached) =>
      let message := { message with provider := plan.identity.provider }
      let message := if cached then message else stamp plan sentTime message
      if message.id = "" ∨ message.conversation = "" then .unusable else .message message
  | .error error => .failed error

/-- The source with one more entry. -/
def addEntry (source : SourceReview) : Entry → SourceReview
  | .message message => { source with messages := source.messages ++ [message] }
  | .unusable => { source with errors := source.errors ++ [.resourceUnavailable] }
  | .failed error => { source with messageErrors := source.messageErrors ++ [error] }

/-- What was received, in the order of the listing. -/
def results (s : Hydration) : List (ℕ × Option String × RowOutcome) :=
  KeyOrder.sort Prod.fst s.received

/-- The source when the workers have left. -/
def addHydrated (plan : HydrationPlan) (source : SourceReview) (s : Hydration) :
    Except ConnectionError Unit × SourceReview :=
  (if s.cancel then .error .cancelled else .ok (),
    s.results.foldl (fun source result => addEntry source (entry plan result.2.1 result.2.2)) source)

end Hydration

end Graph
