import OpenLoops.Graph.SessionRuns
import OpenLoops.Library.Machine

/-!
# The discipline of sessions

In every sequence of calls within sessions, whatever is stored, whenever the clock is read and
however the sign-ins and the work come out: the work runs at most twice and the user signs in at
most once in a call, a stored token is used only when it covers what is required, and no session
stays stored when its token was rejected.
-/

namespace Graph

/-- The sessions that are stored. -/
abbrev Sessions :=
  MailProvider → Option Session

variable {Url α : Type}

/-! ### Calls and their surroundings -/

/-- A run of the work, with what came out. -/
structure WorkRun (α : Type) where
  token : String
  shared : SharedScope
  result : Except ConnectionError α

/-- The operation reads or changes the stored session of no other provider. -/
def Operation.Within (provider : MailProvider) : Operation Url → Prop
  | .loadSession p | .storeSession p _ | .authorize p _ _ => p = provider
  | _ => True

/-- The operation is one of those within the work: at most it removes the session. -/
def Operation.WithinWork (provider : MailProvider) : Operation Url → Prop
  | .loadSession _ | .authorize _ _ _ => False
  | .storeSession p session => p = provider ∧ session = none
  | _ => True

/-- A call within a session.  What the work does may depend on its runs before. -/
structure SessionCall (Url α : Type) where
  provider : MailProvider
  clientId : String
  required : Finset String
  work : List (WorkRun α) → String → SharedScope → CallProgram Url (Except ConnectionError α)
  within : ∀ log token shared, (work log token shared).Performs (Operation.WithinWork provider)
  /-- The answers to everything but the stored sessions. -/
  surroundings : ℕ → (operation : Operation Url) → operation.Answer

/-- The work, and a log of its runs. -/
def SessionCall.logged (call : SessionCall Url α) (log : List (WorkRun α)) (token : String)
    (shared : SharedScope) : CallProgram Url (List (WorkRun α) × Except ConnectionError α) := do
  let result ← call.work log token shared
  return (log ++ [⟨token, shared, result⟩], result)

/-- The program of a call. -/
def SessionCall.program (call : SessionCall Url α) :
    CallProgram Url (List (WorkRun α) × Except ConnectionError α) :=
  runWithSessionFor call.provider call.required
    (fun scopes => .ask (Operation.authorize call.provider call.clientId scopes)) call.logged []

/-- The surroundings keep the sessions that are stored. -/
def serveSessions (surroundings : ℕ → (operation : Operation Url) → operation.Answer) :
    Sessions × ℕ → (operation : Operation Url) → operation.Answer × (Sessions × ℕ)
  | (sessions, n), .loadSession provider => (sessions provider, (sessions, n + 1))
  | (sessions, n), .storeSession provider session =>
      ((), (Function.update sessions provider session, n + 1))
  | (sessions, n), operation => (surroundings n operation, (sessions, n + 1))

/-- What becomes of a call. -/
structure SessionTrace (Url α : Type) where
  steps : CallSteps Url
  log : List (WorkRun α)
  result : Except ConnectionError α

/-- The stored sessions, with calls one after the other. -/
def sessionMachine (Url α : Type) : Machine Sessions (SessionCall Url α) (SessionTrace Url α) where
  step sessions call :=
    let (steps, (log, result), after, _) :=
      call.program.exec (serveSessions call.surroundings) (sessions, 0)
    (after, ⟨steps, log, result⟩)

/-! ### The discipline -/

/-- The scopes that are asked for when the user signs in, with what comes out. -/
def authorizationOf : Performed (@Operation.Answer Url) →
    Option (Finset String × Except ConnectionError Session)
  | ⟨.authorize _ _ scopes, answer⟩ => some (scopes, answer)
  | _ => none

/-- The sign-ins, in their order. -/
def authorizations (steps : CallSteps Url) :
    List (Finset String × Except ConnectionError Session) :=
  steps.filterMap authorizationOf

/-- The work runs with the token of the session that was stored, which lasts for more than a minute
by a reading of the clock and has all the scopes that are required. -/
def UsesStored (call : SessionCall Url α) (before : Sessions) (steps : CallSteps Url)
    (run : WorkRun α) : Prop :=
  ∃ session now, before call.provider = some session ∧ run.token = session.accessToken
    ∧ run.shared = session.shared
    ∧ (⟨.instant, now⟩ : Performed (@Operation.Answer Url)) ∈ steps
    ∧ now + sessionMargin < session.expiresAt ∧ call.required ⊆ session.scopes

/-- The work runs with the token of the session of a sign-in. -/
def UsesAuthorized (steps : CallSteps Url) (run : WorkRun α) : Prop :=
  ∃ scopes session, authorizations steps = [(scopes, .ok session)]
    ∧ run.token = session.accessToken ∧ run.shared = session.shared

/-- A call keeps to the discipline. -/
structure Disciplined (event : Machine.Event Sessions (SessionCall Url α) (SessionTrace Url α)) :
    Prop where
  /-- The work runs at most once with a stored token, and then at most once with a token of a
  sign-in. -/
  runs : ∃ first last, event.output.log = first ++ last ∧ first.length ≤ 1 ∧ last.length ≤ 1
    ∧ (∀ run ∈ first, UsesStored event.input event.before event.output.steps run)
    ∧ ∀ run ∈ last, UsesAuthorized event.output.steps run
  authorizeOnce : (authorizations event.output.steps).length ≤ 1
  /-- All scopes are asked for that are required or were granted to the stored session. -/
  scopes : ∀ authorization ∈ authorizations event.output.steps,
    event.input.required ⊆ authorization.1
      ∧ ∀ session, event.before event.input.provider = some session →
        session.scopes ⊆ authorization.1
  /-- No session stays stored when the last run of the work was rejected. -/
  rejected : (event.output.log.getLast?.map (·.result) = some (.error .unauthorized)) →
    event.after event.input.provider = none
  /-- No session stays stored when the sign-in failed. -/
  failed : ∀ scopes e, (scopes, .error e) ∈ authorizations event.output.steps →
    event.after event.input.provider = none
  /-- The result is that of the last run, or the failure of the sign-in. -/
  result : (∃ run, event.output.log.getLast? = some run ∧ event.output.result = run.result
      ∧ ∀ scopes e, (scopes, .error e) ∉ authorizations event.output.steps)
    ∨ ∃ scopes e, (scopes, .error e) ∈ authorizations event.output.steps
      ∧ event.output.result = .error e
  /-- The session of another provider is neither read nor changed. -/
  others : (∀ step ∈ event.output.steps, step.operation.Within event.input.provider)
    ∧ ∀ provider, provider ≠ event.input.provider →
      event.after provider = event.before provider

/-! ### The stored sessions -/

section Stored

variable {surroundings : ℕ → (operation : Operation Url) → operation.Answer}
  {provider : MailProvider} {before after : Sessions} {n m : ℕ} {steps : CallSteps Url}

/-- The operation does not store a session. -/
def Operation.StoresNone : Operation Url → Prop
  | .storeSession _ session => session = none
  | _ => True

/-- Operations for one provider leave the sessions of the other ones alone. -/
theorem follows_others
    (h : Program.Follows (serveSessions surroundings) (before, n) steps (after, m))
    (hsteps : ∀ step ∈ steps, step.operation.Within provider) {other : MailProvider}
    (hother : other ≠ provider) :
  after other = before other
  := by
  refine h.invariant (I := fun state => state.1 other = before other)
    (P := Operation.Within provider) ?_ rfl hsteps
  rintro ⟨sessions, k⟩ operation hsessions hwithin
  cases operation with
  | storeSession p session =>
      obtain rfl : p = provider := hwithin
      exact (Function.update_of_ne hother _ _).trans hsessions
  | _ => exact hsessions

/-- Once a session is removed it stays so while none is stored. -/
theorem follows_none
    (h : Program.Follows (serveSessions surroundings) (before, n)
      (storing provider none :: steps) (after, m))
    (hsteps : ∀ step ∈ steps, step.operation.StoresNone) :
  after provider = none
  := by
  obtain ⟨-, hrest⟩ := h
  refine hrest.invariant (I := fun state => state.1 provider = none)
    (P := Operation.StoresNone) ?_ (Function.update_self _ _ _) hsteps
  rintro ⟨sessions, k⟩ operation hsessions hnone
  cases operation with
  | storeSession p session =>
      obtain rfl : session = none := hnone
      by_cases hp : provider = p
      · rw [hp]
        exact Function.update_self _ _ _
      · exact (Function.update_of_ne hp _ _).trans hsessions
  | _ => exact hsessions

/-- What is read is what is stored. -/
theorem follows_load {session : Option Session}
    (h : Program.Follows (serveSessions surroundings) (before, n)
      (⟨.loadSession provider, session⟩ :: steps) (after, m)) :
  before provider = session
  := h.1

end Stored

/-! ### Runs of a call -/

section Calls

variable {call : SessionCall Url α}

@[simp]
theorem authorizations_append {steps steps' : CallSteps Url} :
  authorizations (steps ++ steps') = authorizations steps ++ authorizations steps'
  := List.filterMap_append

@[simp]
theorem authorizations_loadSession {provider : MailProvider} {session : Option Session}
    {steps : CallSteps Url} :
  authorizations (⟨.loadSession provider, session⟩ :: steps) = authorizations steps
  := rfl

@[simp]
theorem authorizations_instant {now : ℕ} {steps : CallSteps Url} :
  authorizations (⟨.instant, now⟩ :: steps) = authorizations steps
  := rfl

@[simp]
theorem authorizations_storing {provider : MailProvider} {session : Option Session}
    {steps : CallSteps Url} :
  authorizations (storing provider session :: steps) = authorizations steps
  := rfl

/-- The user does not sign in within the work. -/
theorem authorizations_work {log : List (WorkRun α)} {token : String} {shared : SharedScope}
    {steps : CallSteps Url} {result : Except ConnectionError α}
    (h : (call.work log token shared).Runs steps result) :
  authorizations steps = []
  := by
  apply List.filterMap_eq_nil_iff.mpr
  rintro ⟨operation, answer⟩ hstep
  have hwithin := (call.within log token shared).of_runs h _ hstep
  cases operation with
  | authorize _ _ _ => exact hwithin.elim
  | _ => rfl

/-- The work is logged when it has run. -/
theorem logged_runs {log log' : List (WorkRun α)} {token : String} {shared : SharedScope}
    {steps : CallSteps Url} {result : Except ConnectionError α}
    (h : (call.logged log token shared).Runs steps (log', result)) :
  log' = log ++ [⟨token, shared, result⟩] ∧ (call.work log token shared).Runs steps result
  := by
  obtain ⟨first, made, rest, rfl, hwork, hrest⟩ := Program.runs_bind.mp h
  cases hrest
  rw [List.append_nil]
  exact ⟨rfl, hwork⟩

/-- All operations of a call are for its provider. -/
theorem program_within (call : SessionCall Url α) :
  call.program.Performs (Operation.Within call.provider)
  := by
  apply runWithSessionFor_performs
  · rfl
  · exact fun _ => rfl
  · trivial
  · exact fun scopes => Program.performs_ask (P := Operation.Within _) rfl
  · intro log token shared
    refine Program.Performs.bind ?_ fun _ => Program.performs_pure _
    refine (call.within log token shared).mono ?_
    intro operation hwithin
    cases operation with
    | loadSession _ => exact hwithin.elim
    | authorize _ _ _ => exact hwithin.elim
    | storeSession _ _ => exact hwithin.1
    | _ => trivial

/-- What a sign-in and the work after it make of a log. -/
inductive Continued (call : SessionCall Url α) (scopes : Finset String) (log : List (WorkRun α)) :
    CallSteps Url → List (WorkRun α) → Except ConnectionError α → Prop
  | failed (e : ConnectionError) :
      Continued call scopes log [⟨.authorize call.provider call.clientId scopes, .error e⟩] log
        (.error e)
  | ran {steps : CallSteps Url} {session : Session} {result : Except ConnectionError α}
      (hauthorize : authorizations steps = [(scopes, .ok session)])
      (hrejected : result = .error .unauthorized →
        ∃ front, steps = front ++ [storing call.provider none]) :
      Continued call scopes log steps (log ++ [⟨session.accessToken, session.shared, result⟩])
        result

theorem AuthorizedRun.continued {scopes : Finset String} {log log' : List (WorkRun α)}
    {steps : CallSteps Url} {result : Except ConnectionError α}
    (h : AuthorizedRun call.provider
      (fun scopes => .ask (Operation.authorize call.provider call.clientId scopes)) call.logged
      scopes log steps log' result) :
  Continued call scopes log steps log' result
  := by
  have hsignIn : ∀ {last : CallSteps Url} {session : Session}, authorizations last = [] →
      authorizations (⟨.authorize call.provider call.clientId scopes, .ok session⟩ ::
        storing call.provider (some session) :: last) = [(scopes, .ok session)] := by
    intro last session hlast
    rw [← List.singleton_append, authorizations_append, authorizations_storing, hlast]
    rfl
  cases h with
  | refused hauthorize =>
      obtain rfl := Program.runs_ask.mp hauthorize
      apply Continued.failed
  | worked hauthorize hwork haccepted =>
      obtain rfl := Program.runs_ask.mp hauthorize
      obtain ⟨rfl, hruns⟩ := logged_runs hwork
      apply Continued.ran (hsignIn (authorizations_work hruns))
      exact fun hrejected => absurd hrejected haccepted
  | rejected hauthorize hwork =>
      obtain rfl := Program.runs_ask.mp hauthorize
      obtain ⟨rfl, hruns⟩ := logged_runs hwork
      apply Continued.ran
      · apply hsignIn
        rw [authorizations_append, authorizations_work hruns]
        rfl
      · intro _
        rw [← List.cons_append, ← List.append_assoc]
        exact ⟨_, rfl⟩

/-- A call keeps to the discipline when the stored session was removed before the user was to sign
in. -/
theorem disciplined_of_continued (call : SessionCall Url α) (opening : CallSteps Url)
    {before after : Sessions} {n m : ℕ} {rest : CallSteps Url} {first log : List (WorkRun α)} {scopes : Finset String} {result : Except ConnectionError α}
    (hfollows : Program.Follows (serveSessions call.surroundings) (before, n)
      (opening ++ storing call.provider none :: rest) (after, m))
    (hwithin : ∀ step ∈ opening ++ storing call.provider none :: rest,
      step.operation.Within call.provider)
    (hopening : authorizations opening = []) (hfirst : first.length ≤ 1)
    (huses : ∀ run ∈ first, UsesStored call before (opening ++ storing call.provider none :: rest)
      run)
    (hrequired : call.required ⊆ scopes)
    (hgranted : ∀ session, before call.provider = some session → session.scopes ⊆ scopes)
    (hrest : Continued call scopes first rest log result) :
  Disciplined ⟨before, call, ⟨opening ++ storing call.provider none :: rest, log, result⟩, after⟩
  := by
  obtain ⟨⟨sessions, k⟩, -, hlast⟩ := Program.follows_append.mp hfollows
  have hothers := fun other (hother : other ≠ call.provider) =>
    follows_others hfollows hwithin hother
  cases hrest with
  | failed e =>
      have hauthorize : authorizations (opening ++ storing call.provider none ::
          [⟨.authorize call.provider call.clientId scopes, .error e⟩]) = [(scopes, .error e)] := by
        rw [authorizations_append, hopening]
        rfl
      have hafter : after call.provider = none := by
        apply follows_none hlast
        simp [Operation.StoresNone]
      constructor
      · exact ⟨first, [], (List.append_nil _).symm, hfirst, Nat.zero_le _, huses, nofun⟩
      · simp [hauthorize]
      · simpa [hauthorize] using ⟨hrequired, hgranted⟩
      · exact fun _ => hafter
      · exact fun _ _ _ => hafter
      · right
        use scopes, e
        simp [hauthorize]
      · exact ⟨hwithin, hothers⟩
  | @ran _ session result hauthorize hrejected =>
      have hauthorize' : authorizations (opening ++ storing call.provider none :: rest)
          = [(scopes, .ok session)] := by
        rw [authorizations_append, authorizations_storing, hopening, hauthorize, List.nil_append]
      constructor
      · refine ⟨first, [_], rfl, hfirst, le_refl _, huses, ?_⟩
        rw [List.forall_mem_singleton]
        exact ⟨scopes, session, hauthorize', rfl, rfl⟩
      · simp [hauthorize']
      · simpa [hauthorize'] using ⟨hrequired, hgranted⟩
      · intro hunauthorized
        rw [List.getLast?_concat, Option.map_some] at hunauthorized
        obtain ⟨front, rfl⟩ := hrejected (Option.some.inj hunauthorized)
        rw [← List.cons_append] at hlast
        obtain ⟨⟨sessions', k'⟩, -, hclear⟩ := Program.follows_append.mp hlast
        apply follows_none hclear
        exact List.forall_mem_nil _
      · simp [hauthorize']
      · left
        use ⟨session.accessToken, session.shared, result⟩
        simp [hauthorize']
      · exact ⟨hwithin, hothers⟩

/-- The stored session is used when it covers what is required. -/
theorem usesStored_of_covers {before : Sessions} {steps : CallSteps Url} {session : Session}
    {now : ℕ} {result : Except ConnectionError α}
    (hstored : before call.provider = some session)
    (hcovers : sessionCovers session call.required now = true)
    (hnow : (⟨.instant, now⟩ : Performed (@Operation.Answer Url)) ∈ steps) :
  UsesStored call before steps ⟨session.accessToken, session.shared, result⟩
  := by
  rw [sessionCovers, Bool.and_eq_true, sessionIsFresh, decide_eq_true_eq, decide_eq_true_eq]
    at hcovers
  obtain ⟨hfresh, hrequired⟩ := hcovers
  refine ⟨session, now, hstored, rfl, rfl, hnow, ?_, hrequired⟩
  rw [Nat.add_comm]
  exact Nat.add_lt_of_lt_sub hfresh

/-- A call keeps to the discipline. -/
theorem call_disciplined {before after : Sessions} {n m : ℕ} {steps : CallSteps Url}
    {log : List (WorkRun α)} {result : Except ConnectionError α}
    (hruns : call.program.Runs steps (log, result))
    (hfollows : Program.Follows (serveSessions call.surroundings) (before, n) steps (after, m)) :
  Disciplined ⟨before, call, ⟨steps, log, result⟩, after⟩
  := by
  have hwithin := (program_within call).of_runs hruns
  cases runWithSessionFor_runs hruns with
  | absent hrest =>
      apply disciplined_of_continued call [⟨.loadSession call.provider, none⟩] hfollows hwithin rfl
        (Nat.zero_le _) (List.forall_mem_nil _) (Finset.Subset.refl _) _ hrest.continued
      rw [follows_load hfollows]
      exact nofun
  | @stale session now _ _ _ _ hrest =>
      apply disciplined_of_continued call
        [⟨.loadSession call.provider, some session⟩, ⟨.instant, now⟩] hfollows hwithin rfl
        (Nat.zero_le _) (List.forall_mem_nil _) Finset.subset_union_right _ hrest.continued
      rw [follows_load hfollows]
      rintro _ ⟨⟩
      apply Finset.subset_union_left
  | @worked session now hcovers last _ _ hwork haccepted =>
      obtain ⟨rfl, hlast⟩ := logged_runs hwork
      have hnone : authorizations (⟨.loadSession call.provider, some session⟩ ::
          ⟨.instant, now⟩ :: last) = [] := by
        rw [authorizations_loadSession, authorizations_instant, authorizations_work hlast]
      constructor
      · refine ⟨[_], [], rfl, le_refl _, Nat.zero_le _, ?_, nofun⟩
        rw [List.forall_mem_singleton]
        apply usesStored_of_covers (follows_load hfollows) hcovers
        simp
      · simp [hnone]
      · simp [hnone]
      · intro hunauthorized
        exact absurd (Option.some.inj hunauthorized) haccepted
      · simp [hnone]
      · left
        use ⟨session.accessToken, session.shared, result⟩
        simp [hnone]
      · use hwithin
        exact fun other hother => follows_others hfollows hwithin hother
  | @rejected session now hcovers front rest _ _ _ hwork hrest =>
      obtain ⟨rfl, hfront⟩ := logged_runs hwork
      have hnone : authorizations (⟨.loadSession call.provider, some session⟩ ::
          ⟨.instant, now⟩ :: front) = [] := by
        rw [authorizations_loadSession, authorizations_instant, authorizations_work hfront]
      apply disciplined_of_continued call
        (⟨.loadSession call.provider, some session⟩ :: ⟨.instant, now⟩ :: front) hfollows hwithin
        hnone (le_refl _) _ Finset.subset_union_right _ hrest.continued
      · rw [List.nil_append, List.forall_mem_singleton]
        apply usesStored_of_covers (follows_load hfollows) hcovers
        simp
      · rw [follows_load hfollows]
        rintro _ ⟨⟩
        apply Finset.subset_union_left

end Calls

/-- Every call of every sequence keeps to the discipline, whatever is stored at the start. -/
theorem sessions_disciplined (initial : Sessions) (calls : List (SessionCall Url α)) :
  ∀ event ∈ (sessionMachine Url α).history initial calls, Disciplined event
  := by
  apply (sessionMachine Url α).forall_history (I := fun _ => True) (Q := Disciplined) trivial
  · exact fun _ _ _ => trivial
  · intro sessions call _
    have hruns := Program.runs_exec (serveSessions call.surroundings) call.program (sessions, 0)
    have hfollows :=
      Program.follows_exec (serveSessions call.surroundings) call.program (sessions, 0)
    rcases hexec : call.program.exec (serveSessions call.surroundings) (sessions, 0) with
      ⟨steps, ⟨log, result⟩, after, m⟩
    rw [hexec] at hruns hfollows
    have hevent : (sessionMachine Url α).event sessions call
        = ⟨sessions, call, ⟨steps, log, result⟩, after⟩ := by
      simp only [Machine.event, sessionMachine, hexec]
    rw [hevent]
    apply call_disciplined hruns hfollows

/-- A call that signs in, with work that rejects every token. -/
def rejectedCall : SessionCall Unit Unit where
  provider := .google
  clientId := "client"
  required := {"mail"}
  work _ _ _ := return .error .unauthorized
  within _ _ _ := trivial
  surroundings
    | _, .connect | _, .buildClient => true
    | _, .loadSession _ => none
    | _, .instant => 0
    | _, .systemTime => 0
    | _, .authorize _ _ scopes => .ok ⟨"token", sessionMargin, scopes, .granted⟩
    | _, .send _ => .error .other
    | _, .disconnect | _, .storeSession _ _ | _, .sleep _ => ()

/-- A sign-in whose token is rejected at once keeps to the discipline. -/
theorem rejectedCall_disciplined :
  Disciplined ((sessionMachine Unit Unit).event (fun _ => none) rejectedCall)
  := by
  apply sessions_disciplined (fun _ => none) [rejectedCall]
  exact List.mem_singleton_self _

end Graph
