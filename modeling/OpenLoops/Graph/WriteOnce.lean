import OpenLoops.Graph.Reminders
import OpenLoops.Graph.SessionRuns

/-!
# Writes are sent once

Whatever the provider answers and however the user signs in, a call that creates or completes a
task sends at most one request that writes, although the work may run twice, and its outcome tells
what became of the request.
-/

namespace Graph

variable {Url : Type}

/-! ### Requests that write -/

/-- A request with its answer. -/
abbrev Exchange (Url : Type) :=
  Request Url × Except TransportFailure Response

/-- The request that a step sends, when it is one that writes. -/
def writeOf : Performed (@Operation.Answer Url) → Option (Exchange Url)
  | ⟨.send request, answer⟩ => if request.method = .get then none else some (request, answer)
  | _ => none

/-- The requests that write, in their order. -/
def writes (steps : CallSteps Url) : List (Exchange Url) :=
  steps.filterMap writeOf

/-- The operation writes nothing at the provider. -/
def Operation.Reads : Operation Url → Prop
  | .send request => request.method = .get
  | _ => True

@[simp]
theorem writes_nil :
  writes ([] : CallSteps Url) = []
  := rfl

@[simp]
theorem writes_append {steps steps' : CallSteps Url} :
  writes (steps ++ steps') = writes steps ++ writes steps'
  := List.filterMap_append

/-- A request that writes is counted. -/
theorem writes_send {request : Request Url} {answer : Except TransportFailure Response}
    {steps : CallSteps Url} (h : request.method ≠ .get) :
  writes (⟨.send request, answer⟩ :: steps) = (request, answer) :: writes steps
  := by
  rw [writes, List.filterMap_cons_some]
  · rfl
  · exact if_neg h

@[simp]
theorem writes_loadSession {provider : MailProvider} {session : Option Session}
    {steps : CallSteps Url} :
  writes (⟨.loadSession provider, session⟩ :: steps) = writes steps
  := rfl

@[simp]
theorem writes_instant {now : ℕ} {steps : CallSteps Url} :
  writes (⟨.instant, now⟩ :: steps) = writes steps
  := rfl

@[simp]
theorem writes_storing {provider : MailProvider} {session : Option Session}
    {steps : CallSteps Url} :
  writes (storing provider session :: steps) = writes steps
  := rfl

/-- Nothing is written by operations that do not write. -/
theorem writes_eq_nil {steps : CallSteps Url} (h : ∀ step ∈ steps, step.operation.Reads) :
  writes steps = []
  := by
  apply List.filterMap_eq_nil_iff.mpr
  rintro ⟨operation, answer⟩ hstep
  have hreads := h _ hstep
  cases operation with
  | send request => exact if_pos hreads
  | _ => rfl

/-- Nothing is written by a program that does not write. -/
theorem writes_eq_nil_of_performs {α : Type} {p : CallProgram Url α}
    (hp : p.Performs Operation.Reads) {steps : CallSteps Url} {a : α} (h : p.Runs steps a) :
  writes steps = []
  := writes_eq_nil (hp.of_runs h)

/-! ### Reads -/

section Reads

variable (W : Web Url)

theorem fetchOnce_reads {request : Request Url} (hget : request.method = .get) :
  (fetchOnce request).Performs Operation.Reads
  := by
  apply (Program.performs_ask (P := Operation.Reads) (o := .send request) hget).bind
  rintro (failure | response)
  · apply Program.performs_pure
  · dsimp only
    split_ifs
    · apply Program.performs_pure
    · apply Program.performs_pure

theorem fetchAttempts_reads {request : Request Url} (hget : request.method = .get)
    (retries : ℕ) :
  (fetchAttempts request retries).Performs Operation.Reads
  := by
  induction retries with
  | zero =>
      apply (fetchOnce_reads hget).bind
      intro result
      apply Program.performs_pure
  | succ retries ih =>
      apply (fetchOnce_reads hget).bind
      rintro ⟨result, retryable⟩
      dsimp only
      split_ifs
      · constructor
        · trivial
        · exact fun _ => ih
      · apply Program.performs_pure

/-- Fetching does not write. -/
theorem fetchFromOriginWithHeaders_reads (token : String) (url : Url) (origin : String)
    (headers : List (String × String)) :
  (fetchFromOriginWithHeaders W token url origin headers).run.Performs Operation.Reads
  := by
  apply Program.Performs.exceptT_bind (Program.performs_liftExcept _)
  intro expected
  split_ifs
  · apply fetchAttempts_reads rfl
  · trivial

theorem identityFromOrigin_reads (token origin : String) :
  (identityFromOrigin W token origin).run.Performs Operation.Reads
  := by
  apply Program.Performs.exceptT_bind (Program.performs_liftExcept _)
  intro url
  apply Program.Performs.exceptT_bind
  · apply fetchFromOriginWithHeaders_reads
  · intro bytes
    apply Program.Performs.exceptT_bind (Program.performs_liftExcept _)
    exact fun _ => trivial

theorem Gmail.identityFromOrigin_reads (token origin : String) :
  (Gmail.identityFromOrigin W token origin).run.Performs Operation.Reads
  := by
  apply Program.Performs.exceptT_bind (Program.performs_liftExcept _)
  intro url
  apply Program.Performs.exceptT_bind
  · apply fetchFromOriginWithHeaders_reads
  · intro bytes
    apply Program.Performs.exceptT_bind (Program.performs_liftExcept _)
    exact fun _ => trivial

theorem pagesLoop_reads (token : String) (original : Url) (cap : ℕ) (origin : String)
    (pages : ℕ) (url : Url) (all : List Json) :
  (pagesLoop W token original cap origin pages url all).run.Performs Operation.Reads
  := by
  induction pages generalizing url all with
  | zero => trivial
  | succ pages ih =>
      apply Program.Performs.exceptT_bind
      · apply fetchFromOriginWithHeaders_reads
      · intro bytes
        apply Program.Performs.exceptT_bind (Program.performs_liftExcept _)
        intro value
        apply Program.Performs.exceptT_bind (Program.performs_liftExcept _)
        rintro ⟨rows, more⟩
        dsimp only
        split_ifs
        · trivial
        · rcases nextPage W value original with e | _ | next
          · trivial
          · trivial
          · trivial
        · rcases nextPage W value original with e | _ | next
          · trivial
          · trivial
          · apply ih

end Reads

/-! ### What is fetched -/

/-- The bytes are the body of the answer to a read. -/
def Fetched (steps : CallSteps Url) (url : Url) (bytes : Bytes) : Prop :=
  ∃ request response, (⟨.send request, .ok response⟩ : Performed (@Operation.Answer Url)) ∈ steps
    ∧ request.method = .get ∧ request.url = url ∧ response.status = 200
    ∧ boundedBody response = .ok bytes

theorem Fetched.mono {steps steps' : CallSteps Url} {url : Url} {bytes : Bytes}
    (h : Fetched steps url bytes) (hsub : steps ⊆ steps') :
  Fetched steps' url bytes
  := by
  obtain ⟨request, response, hmem, hrest⟩ := h
  exact ⟨request, response, hsub hmem, hrest⟩

theorem fetchOnce_runs {request : Request Url} {steps : CallSteps Url} {bytes : Bytes}
    {retryable : Bool} (hget : request.method = .get)
    (h : (fetchOnce request).Runs steps (.ok bytes, retryable)) :
  Fetched steps request.url bytes
  := by
  obtain ⟨answer, rest, rfl, hrest⟩ := Program.runs_ask_bind.mp h
  rcases answer with failure | response
  · cases hrest
  · dsimp only at hrest
    split_ifs at hrest with hstatus
    · obtain ⟨rfl, hresult⟩ := Program.runs_pure.mp hrest
      obtain ⟨hbody, -⟩ := Prod.mk.inj hresult
      use request, response, List.mem_cons_self, hget, rfl, hstatus, hbody.symm
    · cases hrest

theorem fetchAttempts_runs {request : Request Url} {retries : ℕ} {steps : CallSteps Url}
    {bytes : Bytes} (hget : request.method = .get)
    (h : (fetchAttempts request retries).Runs steps (.ok bytes)) :
  Fetched steps request.url bytes
  := by
  induction retries generalizing steps with
  | zero =>
      obtain ⟨first, ⟨result, retryable⟩, rest, rfl, hfirst, hrest⟩ := Program.runs_bind.mp h
      obtain ⟨rfl, rfl⟩ := Program.runs_pure.mp hrest
      apply (fetchOnce_runs hget hfirst).mono
      apply List.subset_append_left
  | succ retries ih =>
      obtain ⟨first, ⟨result, retryable⟩, rest, rfl, hfirst, hrest⟩ := Program.runs_bind.mp h
      dsimp only at hrest
      split_ifs at hrest
      · obtain ⟨_, again, rfl, hagain⟩ := Program.runs_ask_bind.mp hrest
        apply (ih hagain).mono
        apply List.subset_append_of_subset_right
        apply List.subset_cons_self
      · obtain ⟨rfl, rfl⟩ := Program.runs_pure.mp hrest
        apply (fetchOnce_runs hget hfirst).mono
        apply List.subset_append_left

section Fetches

variable (W : Web Url)

/-- What is fetched was sent by the provider. -/
theorem fetchFromOriginWithHeaders_runs {token origin : String} {url : Url}
    {headers : List (String × String)} {steps : CallSteps Url} {bytes : Bytes}
    (h : (fetchFromOriginWithHeaders W token url origin headers).run.Runs steps (.ok bytes)) :
  Fetched steps url bytes
  := by
  obtain ⟨expected, -, hrest⟩ := Program.runs_liftExcept_bind_ok.mp h
  split_ifs at hrest
  · apply fetchAttempts_runs rfl hrest
  · cases hrest

/-- The row stands on a page that was fetched. -/
def RowFetched (steps : CallSteps Url) (row : Json) : Prop :=
  ∃ url bytes rows more, Fetched steps url bytes ∧ page W bytes = .ok (rows, more) ∧ row ∈ rows

theorem RowFetched.mono {W : Web Url} {steps steps' : CallSteps Url} {row : Json}
    (h : RowFetched W steps row) (hsub : steps ⊆ steps') :
  RowFetched W steps' row
  := by
  obtain ⟨url, bytes, rows, more, hfetched, hrest⟩ := h
  exact ⟨url, bytes, rows, more, hfetched.mono hsub, hrest⟩

end Fetches

/-! ### Contracts for writes -/

/-- What an outcome tells about a write. -/
inductive Verdict where
  /-- It was done. -/
  | done
  /-- It was not sent. -/
  | refused
  | uncertain
deriving DecidableEq

def ReminderOutcome.verdict : ReminderOutcome → Verdict
  | created _ _ _ => .done
  | notCreated _ => .refused
  | uncertain => .uncertain

def ReminderCompletionOutcome.verdict : ReminderCompletionOutcome → Verdict
  | completed => .done
  | notCompleted _ => .refused
  | uncertain => .uncertain

/-- What a call that writes is to do. -/
structure WriteContract (Url ω : Type) where
  /-- The requests that write. -/
  Sends : Request Url → Prop
  /-- The answer to the request confirms the outcome, after the steps. -/
  Confirms : CallSteps Url → Exchange Url → ω → Prop
  verdict : ω → Verdict
  /-- More steps confirm no less. -/
  confirms_mono : ∀ {steps steps' : CallSteps Url} {exchange outcome}, steps ⊆ steps' →
    Confirms steps exchange outcome → Confirms steps' exchange outcome

/-- The steps of a call and its outcome fit the contract. -/
structure WriteContract.Holds {ω : Type} (C : WriteContract Url ω) (steps : CallSteps Url)
    (outcome : ω) : Prop where
  /-- A write is sent at most once. -/
  once : (writes steps).length ≤ 1
  sends : ∀ exchange ∈ writes steps, C.Sends exchange.1
  /-- Nothing was sent when the outcome tells so. -/
  refused : C.verdict outcome = .refused → writes steps = []
  /-- What was done was sent, and the answer confirms it. -/
  done : C.verdict outcome = .done →
    ∃ exchange, writes steps = [exchange] ∧ C.Confirms steps exchange outcome
  /-- What was sent without such an answer is uncertain. -/
  unconfirmed : ∀ exchange ∈ writes steps, (∀ outcome', ¬C.Confirms steps exchange outcome') →
    C.verdict outcome = .uncertain

namespace WriteContract

variable {ω : Type} {C : WriteContract Url ω} {steps : CallSteps Url} {outcome : ω}

theorem holds_of_unsent (hwrites : writes steps = []) (hverdict : C.verdict outcome ≠ .done) :
  C.Holds steps outcome
  := by
  constructor
  · simp [hwrites]
  · simp [hwrites]
  · exact fun _ => hwrites
  · exact fun hdone => absurd hdone hverdict
  · simp [hwrites]

theorem holds_of_confirmed {exchange : Exchange Url} (hwrites : writes steps = [exchange])
    (hsends : C.Sends exchange.1) (hconfirms : C.Confirms steps exchange outcome)
    (hverdict : C.verdict outcome = .done) :
  C.Holds steps outcome
  := by
  constructor
  · simp [hwrites]
  · simp [hwrites, hsends]
  · simp [hverdict]
  · exact fun _ => ⟨exchange, hwrites, hconfirms⟩
  · rw [hwrites, List.forall_mem_singleton]
    exact fun h => absurd hconfirms (h outcome)

theorem holds_of_unconfirmed {exchange : Exchange Url} (hwrites : writes steps = [exchange])
    (hsends : C.Sends exchange.1) (hverdict : C.verdict outcome = .uncertain) :
  C.Holds steps outcome
  := by
  constructor
  · simp [hwrites]
  · simp [hwrites, hsends]
  · simp [hverdict]
  · simp [hverdict]
  · exact fun _ _ _ => hverdict

/-- Steps that do not write may be added. -/
theorem Holds.mono {steps' : CallSteps Url} (h : C.Holds steps outcome) (hsub : steps ⊆ steps')
    (hwrites : writes steps' = writes steps) :
  C.Holds steps' outcome
  := by
  constructor
  · rw [hwrites]
    exact h.once
  · rw [hwrites]
    exact h.sends
  · rw [hwrites]
    exact h.refused
  · intro hdone
    obtain ⟨exchange, hexchange, hconfirms⟩ := h.done hdone
    use exchange, hwrites.trans hexchange, C.confirms_mono hsub hconfirms
  · rw [hwrites]
    intro exchange hexchange hnone
    apply h.unconfirmed exchange hexchange
    exact fun outcome' hconfirms => hnone outcome' (C.confirms_mono hsub hconfirms)

end WriteContract

/-! ### Writes within sessions -/

section Sessions

variable {σ α ω : Type} {C : WriteContract Url ω} {finish : σ → Except ConnectionError α → ω}
  {provider : MailProvider}
  {authorizeSession : Finset String → CallProgram Url (Except ConnectionError Session)}
  {work : σ → String → SharedScope → CallProgram Url (σ × Except ConnectionError α)}

/-- Each run of the work fits the contract, and nothing is written when the token is rejected. -/
structure WriteContract.Keeps (C : WriteContract Url ω) (finish : σ → Except ConnectionError α → ω)
    (work : σ → String → SharedScope → CallProgram Url (σ × Except ConnectionError α)) : Prop where
  holds : ∀ {s token shared steps s' result}, (work s token shared).Runs steps (s', result) →
    C.Holds steps (finish s' result)
  unauthorized : ∀ {s token shared steps s'},
    (work s token shared).Runs steps (s', .error .unauthorized) → writes steps = []
  /-- A failure is not taken for a write that is done. -/
  failed : ∀ s e, C.verdict (finish s (.error e)) ≠ .done

theorem AuthorizedRun.holds (hwork : C.Keeps finish work)
    (hauthorize : ∀ scopes, (authorizeSession scopes).Performs Operation.Reads)
    {scopes : Finset String} {s s' : σ} {steps : CallSteps Url} {result : Except ConnectionError α}
    (h : AuthorizedRun provider authorizeSession work scopes s steps s' result) :
  C.Holds steps (finish s' result)
  := by
  cases h with
  | refused hfirst =>
      apply WriteContract.holds_of_unsent (writes_eq_nil_of_performs (hauthorize _) hfirst)
      apply hwork.failed
  | worked hfirst hlast haccepted =>
      apply (hwork.holds hlast).mono
      · apply List.subset_append_of_subset_right
        apply List.subset_cons_self
      · simp [writes_eq_nil_of_performs (hauthorize _) hfirst]
  | rejected hfirst hlast =>
      apply (hwork.holds hlast).mono
      · apply List.subset_append_of_subset_right
        apply List.subset_cons_of_subset
        apply List.subset_append_left
      · simp [writes_eq_nil_of_performs (hauthorize _) hfirst]

/-- The work fits the contract within sessions, also when it runs twice. -/
theorem SessionRun.holds (hwork : C.Keeps finish work)
    (hauthorize : ∀ scopes, (authorizeSession scopes).Performs Operation.Reads)
    {required : Finset String} {s s' : σ} {steps : CallSteps Url}
    {result : Except ConnectionError α}
    (h : SessionRun provider authorizeSession work required s steps s' result) :
  C.Holds steps (finish s' result)
  := by
  cases h with
  | absent hrest =>
      apply (hrest.holds hwork hauthorize).mono
      · apply List.subset_cons_of_subset
        apply List.subset_cons_self
      · simp
  | stale _ hrest =>
      apply (hrest.holds hwork hauthorize).mono
      · apply List.subset_cons_of_subset
        apply List.subset_cons_of_subset
        apply List.subset_cons_self
      · simp
  | worked _ hlast _ =>
      apply (hwork.holds hlast).mono
      · apply List.subset_cons_of_subset
        apply List.subset_cons_self
      · simp
  | rejected _ hfirst hrest =>
      apply (hrest.holds hwork hauthorize).mono
      · apply List.subset_cons_of_subset
        apply List.subset_cons_of_subset
        apply List.subset_append_of_subset_right
        apply List.subset_cons_self
      · simp [hwork.unauthorized hfirst]

/-- The work fits the contract while the flag is taken. -/
theorem whileConnecting_holds (hwork : C.Keeps finish work)
    (hauthorize : ∀ scopes, (authorizeSession scopes).Performs Operation.Reads)
    {required : Finset String} {s s' : σ} {steps : CallSteps Url}
    {result : Except ConnectionError α}
    (h : (whileConnecting s (runWithSessionFor provider required authorizeSession work s)).Runs
      steps (s', result)) :
  C.Holds steps (finish s' result)
  := by
  obtain ⟨granted, afterConnect, rfl, hconnect⟩ := Program.runs_ask_bind.mp h
  rcases granted with _ | _
  · cases hconnect
    apply WriteContract.holds_of_unsent rfl
    apply hwork.failed
  · obtain ⟨built, afterBuild, rfl, hbuild⟩ := Program.runs_ask_bind.mp hconnect
    dsimp only at hbuild
    split_ifs at hbuild
    · obtain ⟨first, ⟨t, made⟩, rest, rfl, hfirst, hrest⟩ := Program.runs_bind.mp hbuild
      obtain ⟨_, _, rfl, hdisconnect⟩ := Program.runs_ask_bind.mp hrest
      cases hdisconnect
      apply ((runWithSessionFor_runs hfirst).holds hwork hauthorize).mono
      · apply List.subset_cons_of_subset
        apply List.subset_cons_of_subset
        apply List.subset_append_left
      · change writes (first ++ [_]) = _
        rw [writes_append]
        apply List.append_nil
    · obtain ⟨_, _, rfl, hdisconnect⟩ := Program.runs_ask_bind.mp hbuild
      cases hdisconnect
      apply WriteContract.holds_of_unsent rfl
      apply hwork.failed

end Sessions

end Graph
