import OpenLoops.Graph.Session

/-!
# Runs within sessions

The runs of some work within sessions, taken apart: what is done to the stored session, the
sign-in, and the one or two runs of the work.
-/

namespace Graph

variable {Url σ α : Type}

/-- The step that stores a session of the provider, or none. -/
def storing (provider : MailProvider) (session : Option Session) :
    Performed (@Operation.Answer Url) :=
  ⟨.storeSession provider session, ()⟩

/-- The token was rejected. -/
theorem isUnauthorized_iff {result : Except ConnectionError α} :
  isUnauthorized result = true ↔ result = .error .unauthorized
  := by
  constructor
  · intro h
    unfold isUnauthorized at h
    split at h
    · rfl
    · cases h
  · rintro rfl
    rfl

theorem clearSessionFor_runs {provider : MailProvider} {steps : CallSteps Url} {u : Unit} :
  (clearSessionFor provider).Runs steps u ↔ steps = [storing provider none]
  := Program.runs_ask

section Runs

variable (provider : MailProvider)
  (authorizeSession : Finset String → CallProgram Url (Except ConnectionError Session))
  (work : σ → String → SharedScope → CallProgram Url (σ × Except ConnectionError α))

/-- The steps of a sign-in for the scopes and of the work after it, with what comes out. -/
inductive AuthorizedRun (scopes : Finset String) (s : σ) :
    CallSteps Url → σ → Except ConnectionError α → Prop
  | refused {first : CallSteps Url} {e : ConnectionError}
      (hauthorize : (authorizeSession scopes).Runs first (.error e)) :
      AuthorizedRun scopes s first s (.error e)
  | worked {first last : CallSteps Url} {session : Session} {s' : σ}
      {result : Except ConnectionError α}
      (hauthorize : (authorizeSession scopes).Runs first (.ok session))
      (hwork : (work s session.accessToken session.shared).Runs last (s', result))
      (haccepted : result ≠ .error .unauthorized) :
      AuthorizedRun scopes s (first ++ storing provider (some session) :: last) s' result
  | rejected {first last : CallSteps Url} {session : Session} {s' : σ}
      (hauthorize : (authorizeSession scopes).Runs first (.ok session))
      (hwork : (work s session.accessToken session.shared).Runs last (s', .error .unauthorized)) :
      AuthorizedRun scopes s
        (first ++ storing provider (some session) :: (last ++ [storing provider none])) s'
        (.error .unauthorized)

/-- The steps of the work within sessions, with what comes out. -/
inductive SessionRun (required : Finset String) (s : σ) :
    CallSteps Url → σ → Except ConnectionError α → Prop
  | absent {rest : CallSteps Url} {s' : σ} {result : Except ConnectionError α}
      (hrest : AuthorizedRun provider authorizeSession work required s rest s' result) :
      SessionRun required s (⟨.loadSession provider, none⟩ :: storing provider none :: rest)
        s' result
  | stale {session : Session} {now : ℕ} (hstale : sessionCovers session required now = false)
      {rest : CallSteps Url} {s' : σ} {result : Except ConnectionError α}
      (hrest : AuthorizedRun provider authorizeSession work (session.scopes ∪ required) s rest
        s' result) :
      SessionRun required s
        (⟨.loadSession provider, some session⟩ :: ⟨.instant, now⟩ :: storing provider none :: rest)
        s' result
  | worked {session : Session} {now : ℕ} (hcovers : sessionCovers session required now = true)
      {last : CallSteps Url} {s' : σ} {result : Except ConnectionError α}
      (hwork : (work s session.accessToken session.shared).Runs last (s', result))
      (haccepted : result ≠ .error .unauthorized) :
      SessionRun required s (⟨.loadSession provider, some session⟩ :: ⟨.instant, now⟩ :: last)
        s' result
  | rejected {session : Session} {now : ℕ} (hcovers : sessionCovers session required now = true)
      {first rest : CallSteps Url} {s' s'' : σ} {result : Except ConnectionError α}
      (hwork : (work s session.accessToken session.shared).Runs first
        (s', .error .unauthorized))
      (hrest : AuthorizedRun provider authorizeSession work (session.scopes ∪ required) s' rest
        s'' result) :
      SessionRun required s
        (⟨.loadSession provider, some session⟩ :: ⟨.instant, now⟩ ::
          (first ++ storing provider none :: rest))
        s'' result

variable {provider authorizeSession work}

theorem runAuthorized_runs {scopes : Finset String} {s s' : σ} {steps : CallSteps Url}
    {result : Except ConnectionError α}
    (h : (runAuthorized provider scopes authorizeSession work s).Runs steps (s', result)) :
  AuthorizedRun provider authorizeSession work scopes s steps s' result
  := by
  obtain ⟨first, authorized, rest, rfl, hauthorize, hrest⟩ := Program.runs_bind.mp h
  rcases authorized with e | session
  · cases hrest
    rw [List.append_nil]
    apply AuthorizedRun.refused hauthorize
  · obtain ⟨_, afterStore, rfl, hstore⟩ := Program.runs_ask_bind.mp hrest
    obtain ⟨last, ⟨t, worked⟩, afterWork, rfl, hwork, hlast⟩ := Program.runs_bind.mp hstore
    dsimp only at hlast
    split_ifs at hlast with hrejected
    · obtain rfl := isUnauthorized_iff.mp hrejected
      obtain ⟨_, _, rfl, hclear⟩ := Program.runs_ask_bind.mp hlast
      cases hclear
      apply AuthorizedRun.rejected hauthorize hwork
    · cases hlast
      rw [List.append_nil]
      apply AuthorizedRun.worked hauthorize hwork
      rwa [isUnauthorized_iff] at hrejected

/-- The operations of the work within sessions are those on the stored session and those of the
sign-in and of the work. -/
theorem runWithSessionFor_performs {P : Operation Url → Prop} {required : Finset String}
    (hload : P (.loadSession provider)) (hstore : ∀ session, P (.storeSession provider session))
    (hinstant : P .instant) (hauthorize : ∀ scopes, (authorizeSession scopes).Performs P)
    (hwork : ∀ s token shared, (work s token shared).Performs P) (s : σ) :
  (runWithSessionFor provider required authorizeSession work s).Performs P
  := by
  have hclear : (clearSessionFor provider : CallProgram Url Unit).Performs P :=
    Program.performs_ask (hstore none)
  have hauthorized : ∀ scopes s,
      (runAuthorized provider scopes authorizeSession work s).Performs P := by
    intro scopes s
    apply (hauthorize scopes).bind
    rintro (e | session)
    · apply Program.performs_pure
    · apply (Program.performs_ask (hstore (some session))).bind
      intro _
      apply (hwork _ _ _).bind
      rintro ⟨t, result⟩
      dsimp only
      split_ifs
      · apply hclear.bind
        exact fun _ => Program.performs_pure _
      · apply Program.performs_pure
  apply (Program.performs_ask hload).bind
  intro stored
  refine Program.Performs.bind ?_ ?_
  · rcases stored with _ | session
    · apply hclear.bind
      exact fun _ => Program.performs_pure _
    · apply (Program.performs_ask hinstant).bind
      intro now
      split_ifs
      · apply Program.performs_pure
      · apply hclear.bind
        exact fun _ => Program.performs_pure _
  · rintro (_ | session)
    · apply hauthorized
    · apply (hwork _ _ _).bind
      rintro ⟨t, result⟩
      dsimp only
      split_ifs
      · apply hclear.bind
        exact fun _ => hauthorized _ _
      · apply Program.performs_pure

/-- A stored session is taken when it covers what is required, and is removed otherwise. -/
theorem coveringSession_runs {required : Finset String} {stored cached : Option Session}
    {steps : CallSteps Url}
    (h : (coveringSession provider required stored).Runs steps cached) :
  (stored = none ∧ cached = none ∧ steps = [storing provider none]) ∨
    ∃ session now, stored = some session ∧
      (sessionCovers session required now = true ∧ cached = some session
          ∧ steps = [⟨.instant, now⟩] ∨
        sessionCovers session required now = false ∧ cached = none
          ∧ steps = [⟨.instant, now⟩, storing provider none])
  := by
  rcases stored with _ | session
  · obtain ⟨_, _, rfl, hclear⟩ := Program.runs_ask_bind.mp h
    cases hclear
    exact Or.inl ⟨rfl, rfl, rfl⟩
  · obtain ⟨now, _, rfl, hnow⟩ := Program.runs_ask_bind.mp h
    refine Or.inr ⟨session, now, rfl, ?_⟩
    split_ifs at hnow with hcovers
    · cases hnow
      exact Or.inl ⟨hcovers, rfl, rfl⟩
    · obtain ⟨_, _, rfl, hclear⟩ := Program.runs_ask_bind.mp hnow
      cases hclear
      exact Or.inr ⟨Bool.eq_false_iff.mpr hcovers, rfl, rfl⟩

/-- The runs of the work within sessions are those described. -/
theorem runWithSessionFor_runs {required : Finset String} {s s' : σ} {steps : CallSteps Url}
    {result : Except ConnectionError α}
    (h : (runWithSessionFor provider required authorizeSession work s).Runs steps (s', result)) :
  SessionRun provider authorizeSession work required s steps s' result
  := by
  obtain ⟨stored, afterLoad, rfl, hload⟩ := Program.runs_ask_bind.mp h
  obtain ⟨covering, cached, rest, rfl, hcached, hrest⟩ := Program.runs_bind.mp hload
  rcases coveringSession_runs hcached with ⟨rfl, rfl, rfl⟩ |
    ⟨session, now, rfl, ⟨hcovers, rfl, rfl⟩ | ⟨hstale, rfl, rfl⟩⟩
  · rw [Option.elim_none, Finset.empty_union] at hrest
    apply SessionRun.absent
    apply runAuthorized_runs hrest
  · obtain ⟨first, ⟨t, worked⟩, afterWork, rfl, hwork, hlast⟩ := Program.runs_bind.mp hrest
    dsimp only at hlast
    split_ifs at hlast with hrejected
    · obtain rfl := isUnauthorized_iff.mp hrejected
      obtain ⟨_, _, rfl, hclear⟩ := Program.runs_ask_bind.mp hlast
      apply SessionRun.rejected hcovers hwork
      apply runAuthorized_runs hclear
    · cases hlast
      rw [List.append_nil]
      apply SessionRun.worked hcovers hwork
      rwa [isUnauthorized_iff] at hrejected
  · apply SessionRun.stale hstale
    apply runAuthorized_runs hrest

end Runs

end Graph
