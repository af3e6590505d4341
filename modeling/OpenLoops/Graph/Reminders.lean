import OpenLoops.Graph.Fetch
import OpenLoops.Library.Text

/-!
# Reminders in Microsoft To Do and Google Tasks

A reminder is written as a task by a single request, which is never sent again; whether it was
written may stay uncertain.  A task of Google has a date only, and there a token that is rejected by
a write is removed at once, so that the write is not sent again after another sign-in.
-/

namespace Graph

/-- The draft of a reminder. -/
structure ReminderRequest where
  provider : MailProvider
  account : String
  title : String
  /-- The seconds since the epoch. -/
  atUtc : Int64
  marker : String
deriving DecidableEq

/-- Why a reminder was not created. -/
inductive ReminderFailure where
  | accountMismatch
  | invalidDraft
  | defaultListNotFound
  | rejected (error : ConnectionError)
deriving DecidableEq, Repr

/-- The outcome of a creation. -/
inductive ReminderOutcome where
  | created (provider : MailProvider) (listId taskId : String)
  | notCreated (failure : ReminderFailure)
  | uncertain
deriving DecidableEq, Repr

/-- The outcome of a completion. -/
inductive ReminderCompletionOutcome where
  | completed
  | notCompleted (error : ConnectionError)
  | uncertain
deriving DecidableEq, Repr

/-- The id may stand for a list or a task. -/
def validRemoteId (id : String) : Bool :=
  id ≠ "" && id ≠ "." && id ≠ ".." && id.utf8ByteSize ≤ 2048

/-- The id that a document has, when it is a valid one. -/
def remoteId (value : Json) : Option String :=
  ((value.get "id").bind Json.readString).filter validRemoteId

def isHexDigit (c : Char) : Bool :=
  c.isDigit || ('a' ≤ c && c ≤ 'f') || ('A' ≤ c && c ≤ 'F')

/-- What is wrong with a draft, by the seconds of the system clock. -/
def validateRequestAt (now : Int64) (request : ReminderRequest) : Except ReminderFailure Unit :=
  if request.account = "" ∨ (trim request.title.toList).length < 3
      ∨ 320 < request.title.toList.length ∨ request.title.toList.any isControl
      ∨ request.atUtc ≤ now
      ∨ request.marker.utf8ByteSize ≠ 64 ∨ ¬request.marker.toList.all isHexDigit then
    .error .invalidDraft
  else .ok ()

variable {Url : Type}

def validateRequest (request : ReminderRequest) :
    CallProgram Url (Except ReminderFailure Unit) := do
  let now : Int64 ← Program.ask Operation.systemTime
  return validateRequestAt now request

def reminderResult (result : Except ConnectionError ReminderOutcome) : ReminderOutcome :=
  match result with
  | .ok outcome => outcome
  | .error error => .notCreated (.rejected error)

/-- What a response to a creation tells, when it has the status that is expected. -/
def createdIn (W : Web Url) (provider : MailProvider) (listId : String) (bytes : Bytes) :
    ReminderOutcome :=
  match (W.parseJson bytes).bind remoteId with
  | some taskId => .created provider listId taskId
  | none => .uncertain

/-- The outcome of a completion, by whether the request was about to be sent. -/
def completionOutcome (dispatched : Bool) (result : Except ConnectionError Unit) :
    ReminderCompletionOutcome :=
  match result with
  | .ok _ => .completed
  | .error error => if dispatched then .uncertain else .notCompleted error

/-- The document that completes a task. -/
def completedStatus : Json := .object [("status", .string "completed")]

def contentType : String × String := ("Content-Type", "application/json")

/-! ### Microsoft To Do -/

namespace Reminders

variable (W : Web Url)

/-- The document of a task. -/
def taskJson (request : ReminderRequest) (when : String) : Json :=
  let time := Json.object [("dateTime", .string when), ("timeZone", .string "UTC")]
  .object [
    ("title", .string request.title),
    ("body", .object [("contentType", .string "text"),
      ("content", .string ("Created after review in OpenLoops.\nOpenLoops reference: "
        ++ request.marker))]),
    ("isReminderOn", .bool true),
    ("reminderDateTime", time),
    ("dueDateTime", time)]

def taskBody (request : ReminderRequest) :
    CallProgram Url (Except ReminderFailure Bytes) := do
  match ← validateRequest request with
  | .error e => return .error e
  | .ok _ => return (W.formatUtc request.atUtc).bind (fun when =>
      W.jsonToVec (taskJson request when)) |>.okOr .invalidDraft

/-- The id of the list of tasks, when it is the only default one. -/
def defaultListId (lists : List Json) : Option String :=
  match lists.filter fun value =>
      (value.get "wellknownListName").bind Json.readString == some "defaultList" with
  | [value] => remoteId value
  | _ => none

/-- Write the task to the list. -/
def writeTask (token listId : String) (url : Url) (body : Bytes) :
    CallProgram Url ReminderOutcome := do
  match ← send ⟨.post, url, token, [contentType], some body⟩ with
  | .error _ => return .uncertain
  | .ok response =>
      if response.status = 201 then
        match boundedBody response with
        | .error _ => return .uncertain
        | .ok bytes => return createdIn W .microsoft listId bytes
      else return .uncertain

def createAfterSignIn (token scannedAccount : String) (body : Bytes) (origin : String) :
    Call Url ReminderOutcome := do
  let signedIn ← identityFromOrigin W token origin
  if signedIn.account ≠ scannedAccount then return .notCreated .accountMismatch
  else do
    let url ← ((W.parse origin).bind fun url => W.join url "v1.0/me/todo/lists").okOr
      ConnectionError.invalidConfiguration
    let (lists, incomplete) ← pagesFromOrigin W token url 100 origin
    match (if incomplete then none else defaultListId lists) with
    | none => return .notCreated .defaultListNotFound
    | some listId => do
        let url ← (((W.parse origin).bind fun url => W.join url "v1.0/me/todo/lists/").bind
            fun url => W.pushSegments url [listId, "tasks"]).okOr
          ConnectionError.invalidConfiguration
        liftM (writeTask W token listId url body)

/-- Create a reviewed task. -/
def create (config : ConnectionConfig) (request : ReminderRequest) :
    CallProgram Url ReminderOutcome :=
  if request.provider ≠ .microsoft then return .notCreated .invalidDraft
  else do
    match ← taskBody W request with
    | .error e => return .notCreated e
    | .ok body => do
        let (_, result) ← withScopes config true (fun (_ : Unit) token _ => do
          let result ← (createAfterSignIn W token request.account body graphOrigin).run
          return ((), result)) ()
        return reminderResult result

/-- What the answer to a completion means. -/
def completionResult (answer : Except TransportFailure Response) : Except ConnectionError Unit :=
  match answer with
  | .error failure => .error (requestError failure)
  | .ok response =>
      if response.status = 200 then .ok ()
      else if response.status = 404 then .error .notFound
      else .error .resourceUnavailable

/-- Complete the task at the address, once the account is known. -/
def completeAfterSignIn (token account listId taskId : String) : Call Url Url := do
  let signedIn ← identityFromOrigin W token graphOrigin
  if signedIn.account ≠ account then throw .invalidConfiguration
  else
    liftM (((W.parse "https://graph.microsoft.com/v1.0/me/todo/lists/").bind fun url =>
      W.pushSegments url [listId, "tasks", taskId]).okOr ConnectionError.invalidConfiguration)

/-- Complete a task that was created. -/
def complete (config : ConnectionConfig) (account listId taskId : String) :
    CallProgram Url ReminderCompletionOutcome :=
  if !validRemoteId listId || !validRemoteId taskId then
    return .notCompleted .invalidConfiguration
  else do
    let (dispatched, result) ← withScopes config true (fun dispatched token _ => do
      match ← (completeAfterSignIn W token account listId taskId).run with
      | .error e => return (dispatched, .error e)
      | .ok url =>
          match W.jsonToVec completedStatus with
          | none => return (true, .error .invalidConfiguration)
          | some body => do
              let answer ← send ⟨.patch, url, token, [contentType], some body⟩
              return (true, completionResult answer)) false
    return completionOutcome dispatched result

end Reminders

/-! ### Reminders in Google Tasks -/

namespace GoogleTasks

variable (W : Web Url)

def tasksOrigin : String := "https://tasks.googleapis.com/"

/-- The document of a task. -/
def taskJson (request : ReminderRequest) (due localTime : String) : Json :=
  .object [
    ("title", .string request.title),
    ("status", .string "needsAction"),
    ("due", .string due),
    ("notes", .string ("Created after review in OpenLoops.\nReminder time: " ++ localTime
      ++ "\nOpenLoops reference: " ++ request.marker))]

def taskBody (request : ReminderRequest) :
    CallProgram Url (Except ReminderFailure Bytes) := do
  match ← validateRequest request with
  | .error e => return .error e
  | .ok _ => return (W.formatLocalDate request.atUtc).bind (fun due =>
      (W.formatLocalReminderTime request.atUtc).bind fun localTime =>
        W.jsonToVec (taskJson request due localTime)) |>.okOr .invalidDraft

def urlWithSegments (origin base : String) (segments : List String) :
    Except ConnectionError Url :=
  (((W.parse origin).bind fun url => W.join url base).bind fun url =>
    W.pushSegments url segments).okOr .invalidConfiguration

/-- Send a request that writes, to an address at the origin that is expected. -/
def writeFromOrigin (token : String) (method : Method) (url : Url) (expectedOrigin : String)
    (body : Bytes) : Call Url (UInt16 × Bytes) := do
  let expected ← (W.parse expectedOrigin).okOr ConnectionError.invalidConfiguration
  if W.sameOrigin url expected then do
    match ← send ⟨method, url, token, [contentType], some body⟩ with
    | .error failure => throw (requestError failure)
    | .ok response => do
        let bytes ← boundedBody response
        return (response.status, bytes)
  else throw .invalidConfiguration

/-- The lists of tasks; there are none where they are not mentioned. -/
def listItems (bytes : Bytes) : Except ConnectionError (List Json) := do
  match ← (W.parseJson bytes).okOr .resourceUnavailable with
  | .object members =>
      match (Json.object members).get "items" with
      | none => .ok []
      | some items => do
          let items ← items.readArray.okOr .resourceUnavailable
          if 100 < items.length then .error .responseTooLarge else .ok items
  | _ => .error .resourceUnavailable

/-- Write the task to the list. -/
def writeTask (token listId : String) (url : Url) (origin : String) (body : Bytes) :
    CallProgram Url ReminderOutcome := do
  match ← (writeFromOrigin W token .post url origin body).run with
  | .error _ => return .uncertain
  | .ok (status, bytes) =>
      if status = 401 then do
        clearSessionFor .google
        return .uncertain
      else if status ≠ 200 then return .uncertain
      else return createdIn W .google listId bytes

def createFromOrigins (token : String) (request : ReminderRequest) (body : Bytes)
    (userinfoOrigin origin : String) : Call Url ReminderOutcome := do
  let identity ← Gmail.identityFromOrigin W token userinfoOrigin
  if identity.account ≠ request.account then return .notCreated .accountMismatch
  else do
    let url ← ((W.parse origin).bind fun url => W.join url "tasks/v1/users/@me/lists").okOr
      ConnectionError.invalidConfiguration
    let listsUrl := W.appendPair url "maxResults" "100"
    let bytes ← fetchFromOriginWithHeaders W token listsUrl origin []
    let items ← listItems W bytes
    match items.head?.bind remoteId with
    | none => return .notCreated .defaultListNotFound
    | some listId => do
        let url ← urlWithSegments W origin "tasks/v1/lists/" [listId, "tasks"]
        liftM (writeTask W token listId url origin body)

/-- Create a reviewed task in the first list. -/
def create (config : GoogleConfig) (request : ReminderRequest) :
    CallProgram Url ReminderOutcome :=
  if request.provider ≠ .google then return .notCreated .invalidDraft
  else do
    match ← taskBody W request with
    | .error e => return .notCreated e
    | .ok body => do
        let (_, result) ← withGoogleSession config true (fun (_ : Unit) token => do
          let result ←
            (createFromOrigins W token request body Gmail.userinfoOrigin tasksOrigin).run
          return ((), result)) ()
        return reminderResult result

/-- The address of the task and the body that completes it, once the account is known. -/
def completionRequest (token account listId taskId userinfoOrigin origin : String) :
    Call Url (Url × Bytes) := do
  if !validRemoteId listId || !validRemoteId taskId then throw .invalidConfiguration
  else do
    let identity ← Gmail.identityFromOrigin W token userinfoOrigin
    if identity.account ≠ account then throw .invalidConfiguration
    else do
      let url ← urlWithSegments W origin "tasks/v1/lists/" [listId, "tasks", taskId]
      let body ← (W.jsonToVec completedStatus).okOr ConnectionError.invalidConfiguration
      return (url, body)

/-- Send the completion.  A rejected token is removed, and is not told to the session. -/
def writeCompletion (token : String) (url : Url) (origin : String) (body : Bytes) :
    Call Url Unit := do
  let (status, _) ← writeFromOrigin W token .patch url origin body
  if status = 200 then return ()
  else if status = 404 then throw .notFound
  else if status = 401 then do
    let _ ← (clearSessionFor .google : CallProgram Url Unit)
    throw .resourceUnavailable
  else throw .resourceUnavailable

def completeFromOrigins (token account listId taskId userinfoOrigin origin : String)
    (dispatched : Bool) : CallProgram Url (Bool × Except ConnectionError Unit) := do
  match ← (completionRequest W token account listId taskId userinfoOrigin origin).run with
  | .error e => return (dispatched, .error e)
  | .ok (url, body) => do
      let result ← (writeCompletion W token url origin body).run
      return (true, result)

/-- Complete a task that exists. -/
def complete (config : GoogleConfig) (account listId taskId : String) :
    CallProgram Url ReminderCompletionOutcome :=
  if !validRemoteId listId || !validRemoteId taskId then
    return .notCompleted .invalidConfiguration
  else do
    let (dispatched, result) ← withGoogleSession config true (fun dispatched token =>
      completeFromOrigins W token account listId taskId Gmail.userinfoOrigin tasksOrigin
        dispatched) false
    return completionOutcome dispatched result

end GoogleTasks

end Graph
