import OpenLoops.Graph.Coverage

/-!
# Reminders are written once

The creation and the completion of a task, at either provider, fit their contracts in every run.
-/

namespace Graph

variable {Url : Type} (W : Web Url)

/-! ### Answers to a creation -/

/-- The answer has the status that is expected and tells the id of the task. -/
def Answers (status : UInt16) (answer : Except TransportFailure Response) (taskId : String) :
    Prop :=
  ∃ response bytes, answer = .ok response ∧ response.status = status
    ∧ boundedBody response = .ok bytes ∧ (W.parseJson bytes).bind remoteId = some taskId

/-- The outcome of a creation in the list is what the answer tells. -/
inductive TaskOutcome (status : UInt16) (provider : MailProvider) (listId : String)
    (answer : Except TransportFailure Response) : ReminderOutcome → Prop
  | created {taskId : String} (h : Answers W status answer taskId) :
      TaskOutcome status provider listId answer (.created provider listId taskId)
  | uncertain (h : ∀ taskId, ¬Answers W status answer taskId) :
      TaskOutcome status provider listId answer .uncertain

variable {W}

theorem taskOutcome_failure {status : UInt16} {provider : MailProvider} {listId : String}
    {failure : TransportFailure} :
  TaskOutcome W status provider listId (.error failure) .uncertain
  := by
  apply TaskOutcome.uncertain
  rintro taskId ⟨response, bytes, ⟨⟩, -⟩

theorem taskOutcome_status {status : UInt16} {provider : MailProvider} {listId : String}
    {response : Response} (h : response.status ≠ status) :
  TaskOutcome W status provider listId (.ok response) .uncertain
  := by
  apply TaskOutcome.uncertain
  rintro taskId ⟨_, bytes, ⟨⟩, hstatus, -⟩
  exact h hstatus

theorem taskOutcome_body {status : UInt16} {provider : MailProvider} {listId : String}
    {response : Response} {e : ConnectionError} (h : boundedBody response = .error e) :
  TaskOutcome W status provider listId (.ok response) .uncertain
  := by
  apply TaskOutcome.uncertain
  rintro taskId ⟨_, bytes, ⟨⟩, -, hbody, -⟩
  cases h.symm.trans hbody

/-- What is read from the body of an answer is what the answer tells. -/
theorem taskOutcome_createdIn {status : UInt16} {provider : MailProvider} {listId : String}
    {response : Response} {bytes : Bytes} (hstatus : response.status = status)
    (hbody : boundedBody response = .ok bytes) :
  TaskOutcome W status provider listId (.ok response) (createdIn W provider listId bytes)
  := by
  rw [createdIn]
  split
  · rename_i taskId htask
    apply TaskOutcome.created
    use response, bytes, rfl, hstatus, hbody, htask
  · rename_i hnone
    apply TaskOutcome.uncertain
    rintro taskId ⟨_, bytes', ⟨⟩, -, hbody', htask⟩
    cases hbody.symm.trans hbody'
    cases hnone.symm.trans htask

/-! ### Creations -/

/-- A creation sends the task to a list, and is done when the answer tells the id of the task in
the list that was resolved. -/
def taskCreation (W : Web Url) (status : UInt16) (provider : MailProvider)
    (tasksUrl : String → Option Url) (Resolved : CallSteps Url → String → Prop)
    (hmono : ∀ {steps steps' listId}, steps ⊆ steps' → Resolved steps listId →
      Resolved steps' listId) (IsTask : Bytes → Prop) : WriteContract Url ReminderOutcome where
  Sends sent := sent.method = .post ∧ (∃ listId, tasksUrl listId = some sent.url)
    ∧ ∃ body, IsTask body ∧ sent.body = some body
  Confirms steps exchange outcome := ∃ listId taskId, outcome = .created provider listId taskId
    ∧ Resolved steps listId ∧ tasksUrl listId = some exchange.1.url
    ∧ Answers W status exchange.2 taskId
  verdict := ReminderOutcome.verdict
  confirms_mono := by
    rintro steps steps' exchange outcome hsub ⟨listId, taskId, houtcome, hresolved, hrest⟩
    exact ⟨listId, taskId, houtcome, hmono hsub hresolved, hrest⟩

section Creations

variable {status : UInt16} {provider : MailProvider} {tasksUrl : String → Option Url}
  {Resolved : CallSteps Url → String → Prop}
  {hmono : ∀ {steps steps' listId}, steps ⊆ steps' → Resolved steps listId →
    Resolved steps' listId} {IsTask : Bytes → Prop}

/-- A creation that sends nothing fits its contract. -/
theorem taskCreation_holds_of_unsent {steps : CallSteps Url} {outcome : ReminderOutcome}
    (hwrites : writes steps = []) (hverdict : outcome.verdict ≠ .done) :
  (taskCreation W status provider tasksUrl Resolved hmono IsTask).Holds steps outcome
  := WriteContract.holds_of_unsent hwrites hverdict

/-- A creation that sends nothing and tells so fits its contract. -/
theorem taskCreation_holds_of_refused {steps : CallSteps Url} {failure : ReminderFailure}
    (hwrites : writes steps = []) :
  (taskCreation W status provider tasksUrl Resolved hmono IsTask).Holds steps
    (.notCreated failure)
  := taskCreation_holds_of_unsent hwrites nofun

/-- A creation that sends the task to the list that was resolved fits its contract, when its
outcome is what the answer tells. -/
theorem taskCreation_holds {steps : CallSteps Url} {outcome : ReminderOutcome} {listId token : String}
    {url : Url} {headers : List (String × String)} {body : Bytes}
    {answer : Except TransportFailure Response} (hresolved : Resolved steps listId)
    (hurl : tasksUrl listId = some url) (hbody : IsTask body)
    (hwrites : writes steps = [(⟨.post, url, token, headers, some body⟩, answer)])
    (houtcome : TaskOutcome W status provider listId answer outcome) :
  (taskCreation W status provider tasksUrl Resolved hmono IsTask).Holds steps outcome
  := by
  cases houtcome with
  | @created taskId hanswers =>
      apply WriteContract.holds_of_confirmed hwrites
      · exact ⟨rfl, ⟨listId, hurl⟩, body, hbody, rfl⟩
      · exact ⟨listId, taskId, rfl, hresolved, hurl, hanswers⟩
      · rfl
  | uncertain hnone =>
      apply WriteContract.holds_of_unconfirmed hwrites
      · exact ⟨rfl, ⟨listId, hurl⟩, body, hbody, rfl⟩
      · rfl

/-- The request is sent between steps that do not write. -/
theorem taskCreation_holds_of_send {before after : CallSteps Url} {outcome : ReminderOutcome}
    {listId token : String} {url : Url} {headers : List (String × String)} {body : Bytes}
    {answer : Except TransportFailure Response} (hresolved : Resolved before listId)
    (hurl : tasksUrl listId = some url) (hbody : IsTask body) (hbefore : writes before = [])
    (hafter : writes after = []) (houtcome : TaskOutcome W status provider listId answer outcome) :
  (taskCreation W status provider tasksUrl Resolved hmono IsTask).Holds
    (before ++ ⟨.send ⟨.post, url, token, headers, some body⟩, answer⟩ :: after) outcome
  := by
  have hwrites : writes (before ++ ⟨.send ⟨.post, url, token, headers, some body⟩, answer⟩ :: after)
      = [(⟨.post, url, token, headers, some body⟩, answer)] := by
    rw [writes_append, hbefore, List.nil_append, writes_send, hafter]
    exact nofun
  apply taskCreation_holds _ hurl hbody hwrites houtcome
  apply hmono _ hresolved
  apply List.subset_append_left

/-- The work of a creation fits its contract when the calls that it makes do. -/
theorem taskCreation_keeps {call : String → Call Url ReminderOutcome}
    (hcall : ∀ {token steps result}, (call token).run.Runs steps result →
      (taskCreation W status provider tasksUrl Resolved hmono IsTask).Holds steps
        (reminderResult result)) :
  (taskCreation W status provider tasksUrl Resolved hmono IsTask).Keeps (fun _ => reminderResult)
    fun (_ : Unit) token _ => do
      let result ← (call token).run
      return ((), result)
  := by
  have hholds : ∀ {token steps} {u : Unit} {result : Except ConnectionError ReminderOutcome},
      ((do
        let result ← (call token).run
        return ((), result) : CallProgram Url (Unit × Except ConnectionError ReminderOutcome))).Runs
        steps (u, result) →
      (taskCreation W status provider tasksUrl Resolved hmono IsTask).Holds steps
        (reminderResult result) := by
    intro token steps u result h
    obtain ⟨first, made, rest, rfl, hmade, hrest⟩ := Program.runs_bind.mp h
    cases hrest
    rw [List.append_nil]
    apply hcall hmade
  refine ⟨hholds, ?_, nofun⟩
  intro s token shared steps s' h
  apply (hholds h).refused rfl

end Creations

/-! ### Completions -/

/-- A completion changes the task, and is done when the answer confirms it. -/
def taskCompletion (W : Web Url) (taskUrl : Option Url)
    (Confirmed : Except TransportFailure Response → Prop) :
    WriteContract Url ReminderCompletionOutcome where
  Sends sent := sent.method = .patch ∧ taskUrl = some sent.url
    ∧ ∃ body, W.jsonToVec completedStatus = some body ∧ sent.body = some body
  Confirms _ exchange outcome := outcome = .completed ∧ Confirmed exchange.2
  verdict := ReminderCompletionOutcome.verdict
  confirms_mono := fun _ => id

/-- The steps of a completion that may have been dispatched before, whether it is dispatched after
them, and what comes out. -/
inductive CompletionRun (W : Web Url) (taskUrl : Option Url)
    (Confirmed : Except TransportFailure Response → Prop) (dispatched : Bool) :
    CallSteps Url → Bool → Except ConnectionError Unit → Prop
  | failed {steps : CallSteps Url} {e : ConnectionError} (hwrites : writes steps = []) :
      CompletionRun W taskUrl Confirmed dispatched steps dispatched (.error e)
  /-- The completion was about to be sent. -/
  | unsent {steps : CallSteps Url} {e : ConnectionError} (hwrites : writes steps = [])
      (he : e ≠ .unauthorized) :
      CompletionRun W taskUrl Confirmed dispatched steps true (.error e)
  | confirmed {steps : CallSteps Url} {exchange : Exchange Url}
      (hwrites : writes steps = [exchange])
      (hsends : (taskCompletion W taskUrl Confirmed).Sends exchange.1)
      (hconfirmed : Confirmed exchange.2) :
      CompletionRun W taskUrl Confirmed dispatched steps true (.ok ())
  | unconfirmed {steps : CallSteps Url} {exchange : Exchange Url} {e : ConnectionError}
      (hwrites : writes steps = [exchange])
      (hsends : (taskCompletion W taskUrl Confirmed).Sends exchange.1)
      (he : e ≠ .unauthorized) :
      CompletionRun W taskUrl Confirmed dispatched steps true (.error e)

/-- The work of a completion fits its contract. -/
theorem taskCompletion_keeps {taskUrl : Option Url}
    {Confirmed : Except TransportFailure Response → Prop}
    {work : Bool → String → SharedScope → CallProgram Url (Bool × Except ConnectionError Unit)}
    (hwork : ∀ {s token shared steps s' result}, (work s token shared).Runs steps (s', result) →
      CompletionRun W taskUrl Confirmed s steps s' result) :
  (taskCompletion W taskUrl Confirmed).Keeps completionOutcome work
  := by
  have hfailed : ∀ (s : Bool) (e : ConnectionError),
      (completionOutcome s (.error e)).verdict ≠ .done := by
    rintro (_ | _) e ⟨⟩
  refine ⟨?_, ?_, hfailed⟩
  · intro s token shared steps s' result h
    cases hwork h with
    | failed hwrites => exact WriteContract.holds_of_unsent hwrites (hfailed s _)
    | @unsent e hwrites _ => exact WriteContract.holds_of_unsent hwrites (hfailed true e)
    | confirmed hwrites hsends hconfirmed =>
        exact WriteContract.holds_of_confirmed hwrites hsends ⟨rfl, hconfirmed⟩ rfl
    | unconfirmed hwrites hsends _ =>
        exact WriteContract.holds_of_unconfirmed hwrites hsends rfl
  · intro s token shared steps s' h
    cases hwork h with
    | failed hwrites => exact hwrites
    | unsent _ he | unconfirmed _ _ he => exact absurd rfl he

/-! ### Microsoft To Do -/

namespace Reminders

variable (W)

/-- Where the tasks of a list are. -/
def tasksUrl (listId : String) : Option Url :=
  ((W.parse graphOrigin).bind fun url => W.join url "v1.0/me/todo/lists/").bind fun url =>
    W.pushSegments url [listId, "tasks"]

/-- Where a task is. -/
def taskUrl (listId taskId : String) : Option Url :=
  (W.parse "https://graph.microsoft.com/v1.0/me/todo/lists/").bind fun url =>
    W.pushSegments url [listId, "tasks", taskId]

/-- The provider has told that this is the id of the default list. -/
def Resolved (steps : CallSteps Url) (listId : String) : Prop :=
  ∃ row, RowFetched W steps row
    ∧ (row.get "wellknownListName").bind Json.readString = some "defaultList"
    ∧ remoteId row = some listId

theorem Resolved.mono {W : Web Url} {steps steps' : CallSteps Url} {listId : String}
    (hsub : steps ⊆ steps') (h : Resolved W steps listId) :
  Resolved W steps' listId
  := by
  obtain ⟨row, hrow, hresolved⟩ := h
  exact ⟨row, hrow.mono hsub, hresolved⟩

/-- The contract of a creation. -/
def creation (request : ReminderRequest) : WriteContract Url ReminderOutcome :=
  taskCreation W 201 .microsoft (tasksUrl W) (Resolved W) Resolved.mono fun body =>
    ∃ time, W.formatUtc request.atUtc = some time
      ∧ W.jsonToVec (taskJson request time) = some body

/-- The answer to a completion confirms it. -/
def Confirmed (answer : Except TransportFailure Response) : Prop :=
  ∃ response, answer = .ok response ∧ response.status = 200

/-- The contract of a completion. -/
def completion (listId taskId : String) : WriteContract Url ReminderCompletionOutcome :=
  taskCompletion W (taskUrl W listId taskId) Confirmed

variable {W}

theorem writeTask_runs {token listId : String} {url : Url} {body : Bytes}
    {steps : CallSteps Url} {outcome : ReminderOutcome}
    (h : (writeTask W token listId url body).Runs steps outcome) :
  ∃ answer, steps = [⟨.send ⟨.post, url, token, [contentType], some body⟩, answer⟩]
    ∧ TaskOutcome W 201 .microsoft listId answer outcome
  := by
  obtain ⟨answer, rest, rfl, hrest⟩ := Program.runs_ask_bind.mp h
  use answer
  rcases answer with failure | response
  · cases hrest
    exact ⟨rfl, taskOutcome_failure⟩
  · dsimp only at hrest
    split_ifs at hrest with hstatus
    · split at hrest
      · rename_i e hbody
        cases hrest
        exact ⟨rfl, taskOutcome_body hbody⟩
      · rename_i bytes hbody
        cases hrest
        exact ⟨rfl, taskOutcome_createdIn hstatus hbody⟩
    · cases hrest
      exact ⟨rfl, taskOutcome_status hstatus⟩

/-- The id of the default list is that of a row. -/
theorem exists_of_defaultListId {lists : List Json} {listId : String}
    (h : defaultListId lists = some listId) :
  ∃ row ∈ lists, (row.get "wellknownListName").bind Json.readString = some "defaultList"
    ∧ remoteId row = some listId
  := by
  unfold defaultListId at h
  split at h
  · rename_i row hfilter
    have hrow : row ∈ lists.filter _ := hfilter ▸ List.mem_singleton_self row
    obtain ⟨hmem, hdefault⟩ := List.mem_filter.mp hrow
    use row, hmem, beq_iff_eq.mp hdefault, h
  · cases h

/-- A call fits the contract of a creation. -/
theorem createAfterSignIn_holds {request : ReminderRequest} {token account time : String}
    {body : Bytes} {steps : CallSteps Url} {result : Except ConnectionError ReminderOutcome}
    (htime : W.formatUtc request.atUtc = some time)
    (hbody : W.jsonToVec (taskJson request time) = some body)
    (h : (createAfterSignIn W token account body graphOrigin).run.Runs steps result) :
  (creation W request).Holds steps (reminderResult result)
  := by
  rcases Program.runs_exceptT_bind.mp h with
    ⟨e, rfl, hfailed⟩ | ⟨first, signedIn, rest, rfl, hidentity, hrest⟩
  · apply taskCreation_holds_of_refused
    apply writes_eq_nil_of_performs (identityFromOrigin_reads W _ _) hfailed
  have hfirst := writes_eq_nil_of_performs (identityFromOrigin_reads W _ _) hidentity
  split_ifs at hrest
  · cases hrest
    apply taskCreation_holds_of_refused
    simp [hfirst]
  rcases Program.runs_liftExcept_bind.mp hrest with ⟨e, -, rfl, rfl⟩ | ⟨listsUrl, -, hlists⟩
  · apply taskCreation_holds_of_refused
    simp [hfirst]
  rcases Program.runs_exceptT_bind.mp hlists with
    ⟨e, rfl, hfailed⟩ | ⟨second, ⟨lists, incomplete⟩, last, rfl, hpages, hlast⟩
  · apply taskCreation_holds_of_refused
    simp [hfirst, writes_eq_nil_of_performs (pagesLoop_reads W _ _ _ _ _ _ _) hfailed]
  have hsecond := writes_eq_nil_of_performs (pagesLoop_reads W _ _ _ _ _ _ _) hpages
  dsimp only at hlast
  split at hlast
  · cases hlast
    apply taskCreation_holds_of_refused
    simp [hfirst, hsecond]
  rename_i listId hlistId
  rcases Program.runs_liftExcept_bind.mp hlast with ⟨e, -, rfl, rfl⟩ | ⟨url, hurl, hwrite⟩
  · apply taskCreation_holds_of_refused
    simp [hfirst, hsecond]
  obtain ⟨outcome, rfl, htask⟩ := Program.runs_lift.mp hwrite
  obtain ⟨answer, rfl, houtcome⟩ := writeTask_runs htask
  have hresolved : Resolved W (first ++ second) listId := by
    split_ifs at hlistId
    obtain ⟨row, hrow, hresolved⟩ := exists_of_defaultListId hlistId
    use row
    refine ⟨?_, hresolved⟩
    rcases pagesLoop_rows hpages row hrow with hnil | hfetched
    · cases hnil
    · apply hfetched.mono
      apply List.subset_append_right
  rw [← List.append_assoc]
  apply taskCreation_holds_of_send hresolved (Option.okOr_eq_ok.mp hurl) ⟨time, htime, hbody⟩ _
    writes_nil houtcome
  simp [hfirst, hsecond]

theorem taskBody_runs {request : ReminderRequest} {steps : CallSteps Url}
    {result : Except ReminderFailure Bytes} (h : (taskBody W request).Runs steps result) :
  writes steps = [] ∧ ∀ body, result = .ok body → ∃ time, W.formatUtc request.atUtc = some time
    ∧ W.jsonToVec (taskJson request time) = some body
  := by
  obtain ⟨first, validated, rest, rfl, hvalidate, hrest⟩ := Program.runs_bind.mp h
  obtain ⟨now, _, rfl, hnow⟩ := Program.runs_ask_bind.mp hvalidate
  obtain ⟨rfl, -⟩ := Program.runs_pure.mp hnow
  rcases validated with e | u
  · cases hrest
    exact ⟨rfl, nofun⟩
  · cases hrest
    use rfl
    intro body hbody
    apply Option.bind_eq_some_iff.mp
    apply Option.okOr_eq_ok.mp hbody

/-- A creation fits its contract. -/
theorem create_holds (config : ConnectionConfig) (request : ReminderRequest)
    {steps : CallSteps Url} {outcome : ReminderOutcome}
    (h : (create W config request).Runs steps outcome) :
  (creation W request).Holds steps outcome
  := by
  rw [create] at h
  split_ifs at h
  · cases h
    apply taskCreation_holds_of_refused rfl
  obtain ⟨first, made, rest, rfl, hmade, hrest⟩ := Program.runs_bind.mp h
  obtain ⟨hfirst, hbody⟩ := taskBody_runs hmade
  rcases made with e | body
  · cases hrest
    apply taskCreation_holds_of_refused
    simp [hfirst]
  obtain ⟨second, ⟨u, result⟩, _, rfl, hwork, hlast⟩ := Program.runs_bind.mp hrest
  cases hlast
  obtain ⟨time, htime, hbody⟩ := hbody body rfl
  have hsecond : (creation W request).Holds second (reminderResult result) := by
    refine whileConnecting_holds (taskCreation_keeps ?_) ?_ hwork
    · exact createAfterSignIn_holds htime hbody
    · exact fun scopes => Program.performs_ask (P := Operation.Reads) trivial
  apply hsecond.mono
  · apply List.subset_append_of_subset_right
    apply List.subset_append_left
  · simp [hfirst]

/-- What the answer means never sends the completion once more. -/
theorem completionResult_cases (answer : Except TransportFailure Response) :
  completionResult answer = .ok () ∧ Confirmed answer ∨
    ∃ e, completionResult answer = .error e ∧ e ≠ .unauthorized
  := by
  rcases answer with (_ | _) | response
  · exact Or.inr ⟨_, rfl, nofun⟩
  · exact Or.inr ⟨_, rfl, nofun⟩
  · rw [completionResult]
    split_ifs with hok hmissing
    · exact Or.inl ⟨rfl, response, rfl, hok⟩
    · exact Or.inr ⟨_, rfl, nofun⟩
    · exact Or.inr ⟨_, rfl, nofun⟩

/-- Nothing is written before the address of the task is known. -/
theorem completeAfterSignIn_runs {token account listId taskId : String} {steps : CallSteps Url}
    {result : Except ConnectionError Url}
    (h : (completeAfterSignIn W token account listId taskId).run.Runs steps result) :
  writes steps = [] ∧ ∀ url, result = .ok url → taskUrl W listId taskId = some url
  := by
  rcases Program.runs_exceptT_bind.mp h with
    ⟨e, rfl, hfailed⟩ | ⟨first, signedIn, rest, rfl, hidentity, hrest⟩
  · exact ⟨writes_eq_nil_of_performs (identityFromOrigin_reads W _ _) hfailed, nofun⟩
  have hfirst := writes_eq_nil_of_performs (identityFromOrigin_reads W _ _) hidentity
  split_ifs at hrest
  · cases hrest
    exact ⟨by simp [hfirst], nofun⟩
  · obtain ⟨rfl, rfl⟩ := Program.runs_liftExcept.mp hrest
    use by simp [hfirst]
    exact fun url hurl => Option.okOr_eq_ok.mp hurl

/-- The work of a completion goes as its contract wants. -/
theorem completeWork_runs {token account listId taskId : String} {s s' : Bool}
    {steps : CallSteps Url} {result : Except ConnectionError Unit}
    (h : (do
      match ← (completeAfterSignIn W token account listId taskId).run with
      | .error e => return (s, .error e)
      | .ok url =>
          match W.jsonToVec completedStatus with
          | none => return (true, .error .invalidConfiguration)
          | some body => do
              let answer ← send ⟨.patch, url, token, [contentType], some body⟩
              return (true, completionResult answer) :
      CallProgram Url (Bool × Except ConnectionError Unit)).Runs steps (s', result)) :
  CompletionRun W (taskUrl W listId taskId) Confirmed s steps s' result
  := by
  obtain ⟨first, signed, rest, rfl, hfirst, hrest⟩ := Program.runs_bind.mp h
  obtain ⟨hwrites, hurl⟩ := completeAfterSignIn_runs hfirst
  rcases signed with e | url
  · cases hrest
    rw [List.append_nil]
    apply CompletionRun.failed hwrites
  dsimp only at hrest
  split at hrest
  · cases hrest
    rw [List.append_nil]
    exact CompletionRun.unsent hwrites nofun
  rename_i body hbody
  obtain ⟨answer, _, rfl, hanswer⟩ := Program.runs_ask_bind.mp hrest
  obtain ⟨rfl, hresult⟩ := Program.runs_pure.mp hanswer
  obtain ⟨rfl, rfl⟩ := Prod.mk.inj hresult
  have hsend : writes (first ++ [⟨.send ⟨.patch, url, token, [contentType], some body⟩, answer⟩])
      = [(⟨.patch, url, token, [contentType], some body⟩, answer)] := by
    rw [writes_append, hwrites, List.nil_append, writes_send, writes_nil]
    exact nofun
  have hsends : (completion W listId taskId).Sends ⟨.patch, url, token, [contentType], some body⟩ :=
    ⟨rfl, hurl url rfl, body, hbody, rfl⟩
  rcases completionResult_cases answer with ⟨hok, hconfirmed⟩ | ⟨e, he, hne⟩
  · rw [hok]
    apply CompletionRun.confirmed hsend hsends hconfirmed
  · rw [he]
    apply CompletionRun.unconfirmed hsend hsends hne

/-- A completion fits its contract. -/
theorem complete_holds (config : ConnectionConfig) (account listId taskId : String)
    {steps : CallSteps Url} {outcome : ReminderCompletionOutcome}
    (h : (complete W config account listId taskId).Runs steps outcome) :
  (completion W listId taskId).Holds steps outcome
  := by
  rw [complete] at h
  split_ifs at h
  · cases h
    exact WriteContract.holds_of_unsent rfl nofun
  obtain ⟨first, ⟨dispatched, result⟩, _, rfl, hwork, hlast⟩ := Program.runs_bind.mp h
  cases hlast
  rw [List.append_nil]
  refine whileConnecting_holds (taskCompletion_keeps ?_) ?_ hwork
  · exact completeWork_runs
  · exact fun scopes => Program.performs_ask (P := Operation.Reads) trivial

end Reminders

/-! ### Google Tasks -/

namespace GoogleTasks

variable (W)

/-- Where the tasks of a list are. -/
def tasksUrl (listId : String) : Option Url :=
  ((W.parse tasksOrigin).bind fun url => W.join url "tasks/v1/lists/").bind fun url =>
    W.pushSegments url [listId, "tasks"]

/-- Where a task is. -/
def taskUrl (listId taskId : String) : Option Url :=
  ((W.parse tasksOrigin).bind fun url => W.join url "tasks/v1/lists/").bind fun url =>
    W.pushSegments url [listId, "tasks", taskId]

/-- The provider has told that this is the id of the first list. -/
def Resolved (steps : CallSteps Url) (listId : String) : Prop :=
  ∃ url bytes items, Fetched steps url bytes ∧ listItems W bytes = .ok items
    ∧ items.head?.bind remoteId = some listId

theorem Resolved.mono {W : Web Url} {steps steps' : CallSteps Url} {listId : String}
    (hsub : steps ⊆ steps') (h : Resolved W steps listId) :
  Resolved W steps' listId
  := by
  obtain ⟨url, bytes, items, hfetched, hitems⟩ := h
  exact ⟨url, bytes, items, hfetched.mono hsub, hitems⟩

/-- The contract of a creation. -/
def creation (request : ReminderRequest) : WriteContract Url ReminderOutcome :=
  taskCreation W 200 .google (tasksUrl W) (Resolved W) Resolved.mono fun body =>
    ∃ due time, W.formatLocalDate request.atUtc = some due
      ∧ W.formatLocalReminderTime request.atUtc = some time
      ∧ W.jsonToVec (taskJson request due time) = some body

/-- The answer to a completion confirms it: its body can be read, too. -/
def Confirmed (answer : Except TransportFailure Response) : Prop :=
  ∃ response bytes, answer = .ok response ∧ response.status = 200
    ∧ boundedBody response = .ok bytes

/-- The contract of a completion. -/
def completion (listId taskId : String) : WriteContract Url ReminderCompletionOutcome :=
  taskCompletion W (taskUrl W listId taskId) Confirmed

variable {W}

/-- The status and the body of an answer. -/
def written (answer : Except TransportFailure Response) :
    Except ConnectionError (UInt16 × Bytes) := do
  let response ← answer.mapError requestError
  let bytes ← boundedBody response
  return (response.status, bytes)

/-- A request to another origin is not sent; others are, once. -/
theorem writeFromOrigin_runs {token origin : String} {method : Method} {url : Url} {body : Bytes}
    {steps : CallSteps Url} {result : Except ConnectionError (UInt16 × Bytes)}
    (h : (writeFromOrigin W token method url origin body).run.Runs steps result) :
  steps = [] ∧ result = .error .invalidConfiguration ∨
    ∃ answer, steps = [⟨.send ⟨method, url, token, [contentType], some body⟩, answer⟩]
      ∧ result = written answer
  := by
  rcases Program.runs_liftExcept_bind.mp h with ⟨e, he, rfl, rfl⟩ | ⟨expected, -, hrest⟩
  · left
    rcases hparse : W.parse origin with _ | url'
    · rw [hparse] at he
      cases he
      exact ⟨rfl, rfl⟩
    · rw [hparse] at he
      cases he
  split_ifs at hrest
  · obtain ⟨first, answer, rest, rfl, hsend, hanswer⟩ := Program.runs_lift_bind.mp hrest
    obtain rfl := Program.runs_ask.mp hsend
    right
    use answer
    rcases answer with failure | response
    · cases hanswer
      exact ⟨rfl, rfl⟩
    · rcases Program.runs_liftExcept_bind.mp hanswer with ⟨e, he, rfl, rfl⟩ | ⟨bytes, hbytes, hok⟩
      · use rfl
        simp [written, Except.mapError, he, bind, Except.bind]
      · cases hok
        use rfl
        simp [written, Except.mapError, hbytes, bind, Except.bind, pure, Except.pure]
  · cases hrest
    exact Or.inl ⟨rfl, rfl⟩

theorem writeTask_runs {token listId origin : String} {url : Url} {body : Bytes}
    {steps : CallSteps Url} {outcome : ReminderOutcome}
    (h : (writeTask W token listId url origin body).Runs steps outcome) :
  steps = [] ∧ outcome = .uncertain ∨
    ∃ answer after, writes after = []
      ∧ steps = ⟨.send ⟨.post, url, token, [contentType], some body⟩, answer⟩ :: after
      ∧ TaskOutcome W 200 .google listId answer outcome
  := by
  obtain ⟨first, result, rest, rfl, hfirst, hrest⟩ := Program.runs_bind.mp h
  rcases writeFromOrigin_runs hfirst with ⟨rfl, rfl⟩ | ⟨answer, rfl, rfl⟩
  · cases hrest
    exact Or.inl ⟨rfl, rfl⟩
  right
  use answer, rest
  rcases answer with failure | response
  · cases hrest
    exact ⟨rfl, rfl, taskOutcome_failure⟩
  rcases hbody : boundedBody response with e | bytes
  · simp only [written, Except.mapError, hbody, bind, Except.bind] at hrest
    cases hrest
    exact ⟨rfl, rfl, taskOutcome_body hbody⟩
  · simp only [written, Except.mapError, hbody, bind, Except.bind, pure, Except.pure] at hrest
    split_ifs at hrest with hunauthorized hother
    · obtain ⟨_, _, rfl, hclear⟩ := Program.runs_ask_bind.mp hrest
      cases hclear
      refine ⟨rfl, rfl, taskOutcome_status ?_⟩
      rw [hunauthorized]
      decide
    · cases hrest
      exact ⟨rfl, rfl, taskOutcome_status hother⟩
    · cases hrest
      exact ⟨rfl, rfl, taskOutcome_createdIn (not_not.mp hother) hbody⟩

/-- A call fits the contract of a creation. -/
theorem createFromOrigins_holds {request : ReminderRequest} {token due time : String}
    {body : Bytes} {steps : CallSteps Url} {result : Except ConnectionError ReminderOutcome}
    (hdue : W.formatLocalDate request.atUtc = some due)
    (htime : W.formatLocalReminderTime request.atUtc = some time)
    (hbody : W.jsonToVec (taskJson request due time) = some body)
    (h : (createFromOrigins W token request body Gmail.userinfoOrigin tasksOrigin).run.Runs steps
      result) :
  (creation W request).Holds steps (reminderResult result)
  := by
  rcases Program.runs_exceptT_bind.mp h with
    ⟨e, rfl, hfailed⟩ | ⟨first, identity, rest, rfl, hidentity, hrest⟩
  · apply taskCreation_holds_of_refused
    apply writes_eq_nil_of_performs (Gmail.identityFromOrigin_reads W _ _) hfailed
  have hfirst := writes_eq_nil_of_performs (Gmail.identityFromOrigin_reads W _ _) hidentity
  split_ifs at hrest
  · cases hrest
    apply taskCreation_holds_of_refused
    simp [hfirst]
  rcases Program.runs_liftExcept_bind.mp hrest with ⟨e, -, rfl, rfl⟩ | ⟨listsUrl, -, hlists⟩
  · apply taskCreation_holds_of_refused
    simp [hfirst]
  rcases Program.runs_exceptT_bind.mp hlists with
    ⟨e, rfl, hfailed⟩ | ⟨second, bytes, last, rfl, hfetch, hitems⟩
  · apply taskCreation_holds_of_refused
    simp [hfirst, writes_eq_nil_of_performs (fetchFromOriginWithHeaders_reads W _ _ _ _) hfailed]
  have hsecond := writes_eq_nil_of_performs (fetchFromOriginWithHeaders_reads W _ _ _ _) hfetch
  rcases Program.runs_liftExcept_bind.mp hitems with ⟨e, -, rfl, rfl⟩ | ⟨items, hitems, hlast⟩
  · apply taskCreation_holds_of_refused
    simp [hfirst, hsecond]
  split at hlast
  · cases hlast
    apply taskCreation_holds_of_refused
    simp [hfirst, hsecond]
  rename_i listId hlistId
  have hresolved : Resolved W (first ++ second) listId := by
    use W.appendPair listsUrl "maxResults" "100", bytes, items
    refine ⟨?_, hitems, hlistId⟩
    apply (fetchFromOriginWithHeaders_runs W hfetch).mono
    apply List.subset_append_right
  rcases Program.runs_liftExcept_bind.mp hlast with ⟨e, -, rfl, rfl⟩ | ⟨url, hurl, hwrite⟩
  · apply taskCreation_holds_of_refused
    simp [hfirst, hsecond]
  obtain ⟨outcome, rfl, htask⟩ := Program.runs_lift.mp hwrite
  rcases writeTask_runs htask with ⟨rfl, rfl⟩ | ⟨answer, after, hafter, rfl, houtcome⟩
  · apply taskCreation_holds_of_unsent
    · simp [hfirst, hsecond]
    · exact nofun
  have hurl' : tasksUrl W listId = some url := Option.okOr_eq_ok.mp hurl
  rw [← List.append_assoc]
  apply taskCreation_holds_of_send hresolved hurl' ⟨due, time, hdue, htime, hbody⟩ _ hafter houtcome
  simp [hfirst, hsecond]

theorem taskBody_runs {request : ReminderRequest} {steps : CallSteps Url}
    {result : Except ReminderFailure Bytes} (h : (taskBody W request).Runs steps result) :
  writes steps = [] ∧ ∀ body, result = .ok body → ∃ due time,
    W.formatLocalDate request.atUtc = some due
      ∧ W.formatLocalReminderTime request.atUtc = some time
      ∧ W.jsonToVec (taskJson request due time) = some body
  := by
  obtain ⟨first, validated, rest, rfl, hvalidate, hrest⟩ := Program.runs_bind.mp h
  obtain ⟨now, _, rfl, hnow⟩ := Program.runs_ask_bind.mp hvalidate
  obtain ⟨rfl, -⟩ := Program.runs_pure.mp hnow
  rcases validated with e | u
  · cases hrest
    exact ⟨rfl, nofun⟩
  · cases hrest
    use rfl
    intro body hbody
    obtain ⟨due, hdue, hsome⟩ := Option.bind_eq_some_iff.mp (Option.okOr_eq_ok.mp hbody)
    obtain ⟨time, htime, hjson⟩ := Option.bind_eq_some_iff.mp hsome
    use due, time, hdue, htime, hjson

/-- A creation fits its contract. -/
theorem create_holds (config : GoogleConfig) (request : ReminderRequest)
    {steps : CallSteps Url} {outcome : ReminderOutcome}
    (h : (create W config request).Runs steps outcome) :
  (creation W request).Holds steps outcome
  := by
  rw [create] at h
  split_ifs at h
  · cases h
    apply taskCreation_holds_of_refused rfl
  obtain ⟨first, made, rest, rfl, hmade, hrest⟩ := Program.runs_bind.mp h
  obtain ⟨hfirst, hbody⟩ := taskBody_runs hmade
  rcases made with e | body
  · cases hrest
    apply taskCreation_holds_of_refused
    simp [hfirst]
  obtain ⟨second, ⟨u, result⟩, _, rfl, hwork, hlast⟩ := Program.runs_bind.mp hrest
  cases hlast
  obtain ⟨due, time, hdue, htime, hbody⟩ := hbody body rfl
  have hsecond : (creation W request).Holds second (reminderResult result) := by
    rw [withGoogleSession] at hwork
    split_ifs at hwork
    · cases hwork
      apply taskCreation_holds_of_refused rfl
    · refine whileConnecting_holds (taskCreation_keeps ?_) ?_ hwork
      · exact createFromOrigins_holds hdue htime hbody
      · exact fun scopes => Program.performs_ask (P := Operation.Reads) trivial
  apply hsecond.mono
  · apply List.subset_append_of_subset_right
    apply List.subset_append_left
  · simp [hfirst]

/-- Nothing is written before the address of the task and the body are known. -/
theorem completionRequest_runs {token account listId taskId : String} {steps : CallSteps Url}
    {result : Except ConnectionError (Url × Bytes)}
    (h : (completionRequest W token account listId taskId Gmail.userinfoOrigin tasksOrigin).run.Runs
      steps result) :
  writes steps = [] ∧ ∀ url body, result = .ok (url, body) → taskUrl W listId taskId = some url
    ∧ W.jsonToVec completedStatus = some body
  := by
  rw [completionRequest] at h
  split_ifs at h
  · cases h
    exact ⟨rfl, nofun⟩
  rcases Program.runs_exceptT_bind.mp h with
    ⟨e, rfl, hfailed⟩ | ⟨first, identity, rest, rfl, hidentity, hrest⟩
  · exact ⟨writes_eq_nil_of_performs (Gmail.identityFromOrigin_reads W _ _) hfailed, nofun⟩
  have hfirst := writes_eq_nil_of_performs (Gmail.identityFromOrigin_reads W _ _) hidentity
  split_ifs at hrest
  · cases hrest
    exact ⟨by simp [hfirst], nofun⟩
  rcases Program.runs_liftExcept_bind.mp hrest with ⟨e, -, rfl, rfl⟩ | ⟨url, hurl, hlast⟩
  · exact ⟨by simp [hfirst], nofun⟩
  rcases Program.runs_liftExcept_bind.mp hlast with ⟨e, -, rfl, rfl⟩ | ⟨body, hbody, hok⟩
  · exact ⟨by simp [hfirst], nofun⟩
  cases hok
  use by simp [hfirst]
  rintro _ _ ⟨⟩
  exact ⟨Option.okOr_eq_ok.mp hurl, Option.okOr_eq_ok.mp hbody⟩

/-- No answer to a write rejects the token as far as the session is told. -/
theorem written_ne_unauthorized {answer : Except TransportFailure Response} {e : ConnectionError}
    (h : written answer = .error e) :
  e ≠ .unauthorized
  := by
  rcases Except.bind_eq_error.mp h with hfailure | ⟨response, -, hrest⟩
  · rcases answer with (_ | _) | response
    · cases hfailure
      exact nofun
    · cases hfailure
      exact nofun
    · cases hfailure
  · rcases Except.bind_eq_error.mp hrest with hbody | ⟨bytes, -, ⟨⟩⟩
    rw [boundedBody] at hbody
    split_ifs at hbody
    · cases hbody
      exact nofun
    · cases hbody
      exact nofun
    · split at hbody
      · rename_i failure _
        rcases failure with _ | _
        · cases hbody
          exact nofun
        · cases hbody
          exact nofun
      · cases hbody

theorem written_eq_ok {answer : Except TransportFailure Response} {status : UInt16} {bytes : Bytes}
    (h : written answer = .ok (status, bytes)) :
  ∃ response, answer = .ok response ∧ response.status = status ∧ boundedBody response = .ok bytes
  := by
  obtain ⟨response, hresponse, hrest⟩ := Except.bind_eq_ok.mp h
  obtain ⟨bytes', hbody, hok⟩ := Except.bind_eq_ok.mp hrest
  cases hok
  use response, Except.mapError_eq_ok.mp hresponse, rfl, hbody

/-- The completion is sent at most once, and what comes of it never sends it once more. -/
theorem writeCompletion_runs {token origin : String} {url : Url} {body : Bytes}
    {steps : CallSteps Url} {result : Except ConnectionError Unit}
    (h : (writeCompletion W token url origin body).run.Runs steps result) :
  (writes steps = [] ∧ ∃ e, result = .error e ∧ e ≠ .unauthorized) ∨
    ∃ answer, writes steps = [(⟨.patch, url, token, [contentType], some body⟩, answer)]
      ∧ (result = .ok () ∧ Confirmed answer ∨ ∃ e, result = .error e ∧ e ≠ .unauthorized)
  := by
  rcases Program.runs_exceptT_bind.mp h with
    ⟨e, rfl, hfailed⟩ | ⟨first, ⟨status, bytes⟩, rest, rfl, hsent, hrest⟩
  · rcases writeFromOrigin_runs hfailed with ⟨rfl, ⟨⟩⟩ | ⟨answer, rfl, hanswer⟩
    · exact Or.inl ⟨rfl, _, rfl, nofun⟩
    · right
      use answer, writes_send nofun
      exact Or.inr ⟨e, rfl, written_ne_unauthorized hanswer.symm⟩
  · rcases writeFromOrigin_runs hsent with ⟨rfl, ⟨⟩⟩ | ⟨answer, rfl, hanswer⟩
    obtain ⟨response, rfl, rfl, hbody⟩ := written_eq_ok hanswer.symm
    right
    use .ok response
    have hrest' : writes rest = [] ∧ (result = .ok () ∧ response.status = 200 ∨
        ∃ e, result = .error e ∧ e ≠ .unauthorized) := by
      dsimp only at hrest
      split_ifs at hrest with hok
      · cases hrest
        exact ⟨rfl, Or.inl ⟨rfl, hok⟩⟩
      · cases hrest
        exact ⟨rfl, Or.inr ⟨_, rfl, nofun⟩⟩
      · obtain ⟨clear, u, _, rfl, hclear, hlast⟩ := Program.runs_lift_bind.mp hrest
        obtain rfl := clearSessionFor_runs.mp hclear
        cases hlast
        exact ⟨rfl, Or.inr ⟨_, rfl, nofun⟩⟩
      · cases hrest
        exact ⟨rfl, Or.inr ⟨_, rfl, nofun⟩⟩
    obtain ⟨hnone, hresult⟩ := hrest'
    constructor
    · rw [writes_append, hnone, List.append_nil]
      apply writes_send
      exact nofun
    · rcases hresult with ⟨hok, hstatus⟩ | hfailed
      · exact Or.inl ⟨hok, response, bytes, rfl, hstatus, hbody⟩
      · exact Or.inr hfailed

/-- The work of a completion goes as its contract wants. -/
theorem completeFromOrigins_runs {token account listId taskId : String} {s s' : Bool}
    {steps : CallSteps Url} {result : Except ConnectionError Unit}
    (h : (completeFromOrigins W token account listId taskId Gmail.userinfoOrigin tasksOrigin s).Runs
      steps (s', result)) :
  CompletionRun W (taskUrl W listId taskId) Confirmed s steps s' result
  := by
  obtain ⟨first, requested, rest, rfl, hfirst, hrest⟩ := Program.runs_bind.mp h
  obtain ⟨hwrites, hknown⟩ := completionRequest_runs hfirst
  rcases requested with e | ⟨url, body⟩
  · cases hrest
    rw [List.append_nil]
    apply CompletionRun.failed hwrites
  obtain ⟨hurl, hbody⟩ := hknown url body rfl
  obtain ⟨second, made, _, rfl, hsecond, hlast⟩ := Program.runs_bind.mp hrest
  cases hlast
  rw [List.append_nil]
  have hsends : (completion W listId taskId).Sends ⟨.patch, url, token, [contentType], some body⟩ :=
    ⟨rfl, hurl, body, hbody, rfl⟩
  rcases writeCompletion_runs hsecond with ⟨hnone, e, rfl, he⟩ | ⟨answer, hsent, hresult⟩
  · apply CompletionRun.unsent _ he
    simp [hwrites, hnone]
  · have hsent' : writes (first ++ second)
        = [(⟨.patch, url, token, [contentType], some body⟩, answer)] := by
      rw [writes_append, hwrites, hsent, List.nil_append]
    rcases hresult with ⟨rfl, hconfirmed⟩ | ⟨e, rfl, he⟩
    · apply CompletionRun.confirmed hsent' hsends hconfirmed
    · apply CompletionRun.unconfirmed hsent' hsends he

/-- A completion fits its contract. -/
theorem complete_holds (config : GoogleConfig) (account listId taskId : String)
    {steps : CallSteps Url} {outcome : ReminderCompletionOutcome}
    (h : (complete W config account listId taskId).Runs steps outcome) :
  (completion W listId taskId).Holds steps outcome
  := by
  rw [complete] at h
  split_ifs at h
  · cases h
    exact WriteContract.holds_of_unsent rfl nofun
  obtain ⟨first, ⟨dispatched, result⟩, _, rfl, hwork, hlast⟩ := Program.runs_bind.mp h
  cases hlast
  rw [List.append_nil]
  rw [withGoogleSession] at hwork
  split_ifs at hwork
  · cases hwork
    exact WriteContract.holds_of_unsent rfl nofun
  · refine whileConnecting_holds (taskCompletion_keeps ?_) ?_ hwork
    · exact completeFromOrigins_runs
    · exact fun scopes => Program.performs_ask (P := Operation.Reads) trivial

end GoogleTasks

/-! ### Both providers -/

/-- Whatever the surroundings answer, each call fits its contract: a task is created or completed
by at most one request, and the outcome tells what became of it. -/
theorem reminders_writtenOnce (W : Web Url)
    (serve : ℕ → (operation : Operation Url) → operation.Answer) :
  (∀ config request,
    let (steps, outcome) := (Reminders.create W config request).eval serve
    (Reminders.creation W request).Holds steps outcome)
  ∧ (∀ config request,
    let (steps, outcome) := (GoogleTasks.create W config request).eval serve
    (GoogleTasks.creation W request).Holds steps outcome)
  ∧ (∀ config account listId taskId,
    let (steps, outcome) := (Reminders.complete W config account listId taskId).eval serve
    (Reminders.completion W listId taskId).Holds steps outcome)
  ∧ (∀ config account listId taskId,
    let (steps, outcome) := (GoogleTasks.complete W config account listId taskId).eval serve
    (GoogleTasks.completion W listId taskId).Holds steps outcome)
  := by
  refine ⟨?_, ?_, ?_, ?_⟩
  · exact fun config request => Reminders.create_holds config request (Program.runs_eval _ serve)
  · exact fun config request => GoogleTasks.create_holds config request (Program.runs_eval _ serve)
  · exact fun config account listId taskId =>
      Reminders.complete_holds config account listId taskId (Program.runs_eval _ serve)
  · exact fun config account listId taskId =>
      GoogleTasks.complete_holds config account listId taskId (Program.runs_eval _ serve)

end Graph
