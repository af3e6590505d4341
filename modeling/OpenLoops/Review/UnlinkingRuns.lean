import OpenLoops.Desktop.SharedState
import OpenLoops.Review.LoopLinkRuns
import OpenLoops.Review.State

/-!
# Unlinking a card

The user can take back the links of a card.  The links that say that it is about the same loop as
others, and those that join its conversation with others, are set to say that they are not; each
change is saved on its own.  When one of them cannot be saved the others are given up, but those
that were saved before it stay: the links of a card are taken back all together, or not at all,
exactly when the store takes all the changes or none of them.
-/

namespace Review

/-! ### Unlinking a card -/

open Desktop

namespace ReviewState

section

variable (hmac : LoopKey → Bytes → LoopKey) (toLowercase : List Char → List Char)

/-- What becomes of a link of a card with these keys. -/
def replacement (cardKey : LoopKey) (threadKey : Option LoopKey) (link : Link) :
    Option LinkKind :=
  match link.kind with
  | .sameLoop => if link.a = cardKey ∨ link.b = cardKey then some .notSameLoop else none
  | .sameThread =>
      if threadKey.any fun key => link.a = key || link.b = key then some .notSameThread else none
  | _ => none

/-- The changes to the links. -/
def unlinkChanges (links : List Link) (cardKey : LoopKey) (threadKey : Option LoopKey) :
    List (LinkKind × LoopKey × LoopKey) :=
  links.filterMap fun link =>
    (replacement cardKey threadKey link).map fun kind => (kind, link.a, link.b)

/-- Set the links, one after the other, up to the first one that is not set. -/
def setAll (testBuild : Bool) (relations : Relations) :
    List (LinkKind × LoopKey × LoopKey) → StoreProgram (Except String Unit × Relations)
  | [] => return (.ok (), relations)
  | (kind, a, b) :: changes => do
      match ← relations.set testBuild kind a b with
      | (.error e, relations) => return (.error e, relations)
      | (.ok (), relations) => setAll testBuild relations changes

/-- Take back the links of the card at a place, and count them. -/
def unlinkCard (testBuild : Bool) (s : ReviewState) (index : ℕ) :
    StoreProgram (Except String ℕ × ReviewState) :=
  match s.analysis with
  | none => return (.error "No review results are loaded.", s)
  | some analysis =>
      match analysis.items[index]? with
      | none => return (.error "The card is unavailable.", s)
      | some item =>
          match s.cardContext hmac toLowercase item with
          | none => return (.error "The card is unavailable.", s)
          | some card => do
              let changes := unlinkChanges s.relations.links card.record.key
                (s.threadKeyForItem hmac item)
              match ← setAll testBuild s.relations changes with
              | (.error e, relations) => return (.error e, { s with relations })
              | (.ok (), relations) =>
                  return (.ok changes.length, { s with
                    relations
                    actionStatusSucceeded := true
                    actionStatus := "Link removed on this Windows account. No mail text or names were stored." })

end

end ReviewState

open Desktop

/-! ### Written tables -/

/-- A step that has written to the credential. -/
def isWritten : Performed StoreOperation.Answer → Bool
  | ⟨.setSecret _, answered⟩ => answered
  | _ => false

/-- How often the steps have written to the credential. -/
def written (steps : StoreSteps) : ℕ :=
  steps.countP isWritten

theorem written_append (steps steps' : StoreSteps) :
  written (steps ++ steps') = written steps + written steps'
  := List.countP_append

theorem written_of_onlyReadings {steps : StoreSteps} (h : OnlyReadings steps) :
  written steps = 0
  := by
  apply List.countP_eq_zero.mpr
  intro step hstep
  obtain ⟨reading, rfl⟩ := h step hstep
  exact Bool.false_ne_true

/-- An attempt writes once, or not at all. -/
theorem written_of_attempt {previous : Bytes} {steps : StoreSteps} {bytes : Option Bytes}
    (h : Attempt previous steps bytes) :
  written steps = if bytes.isSome then 1 else 0
  := by
  induction h with
  | nothing | refused | unread | stale | unwritten | written => rfl
  | now reading h ih => exact ih

/-! ### Changes of the links -/

/-- The loops of a change. -/
def changePair (change : LinkKind × LoopKey × LoopKey) : Sym2 LoopKey :=
  s(change.2.1, change.2.2)

/-- The kinds after some changes. -/
def changedKinds (kinds : Sym2 LoopKey → Option LinkKind)
    (changes : List (LinkKind × LoopKey × LoopKey)) : Sym2 LoopKey → Option LinkKind :=
  changes.foldl (fun kinds change => Function.update kinds (changePair change) (some change.1)) kinds

/-- A kind stays when it is not changed, and else it is that of a change. -/
theorem changedKinds_cases (kinds : Sym2 LoopKey → Option LinkKind)
    (changes : List (LinkKind × LoopKey × LoopKey)) (pair : Sym2 LoopKey) :
  (changedKinds kinds changes pair = kinds pair ∧ ∀ change ∈ changes, changePair change ≠ pair)
    ∨ ∃ change ∈ changes, changePair change = pair
      ∧ changedKinds kinds changes pair = some change.1
  := by
  induction changes using List.reverseRecOn with
  | nil => exact Or.inl ⟨rfl, nofun⟩
  | append_singleton changes change ih =>
      rw [changedKinds, List.foldl_concat]
      by_cases hpair : changePair change = pair
      · right
        use change, List.mem_append_right _ (List.mem_singleton_self _), hpair
        rw [← hpair, Function.update_self]
      · rw [Function.update_of_ne (Ne.symm hpair)]
        rcases ih with ⟨hsame, hnot⟩ | ⟨change', hmem, hpair', hkind⟩
        · left
          use hsame
          intro change' hmem
          rcases List.mem_append.mp hmem with hmem | hmem
          · exact hnot change' hmem
          · rwa [List.mem_singleton.mp hmem]
        · right
          exact ⟨change', List.mem_append_left _ hmem, hpair', hkind⟩

/-- A call that sets the link of two loops: it writes once when it succeeds, and it leaves the links
as they are when it fails. -/
theorem set_runs {testBuild : Bool} {r r' : Relations} {kind : LinkKind} {a b : LoopKey}
    {steps : StoreSteps} {result : Except String Unit} (hsound : (relationsKept testBuild).Sound r)
    (herror : r.error = none) (hne : a ≠ b)
    (h : (r.set testBuild kind a b).Runs steps (result, r')) :
  (result ≠ .ok () ∧ r'.links = r.links ∧ written steps = 0)
    ∨ (result = .ok () ∧ (relationsKept testBuild).Sound r' ∧ r'.error = none
      ∧ r'.kindOf = Function.update r.kindOf s(a, b) (some kind) ∧ written steps = 1)
  := by
  have hperform : (r.perform testBuild (.set kind a b)).Runs steps (result, r') := h
  obtain ⟨hentry, -, hrelation⟩ := hsound herror
  have hkept : ((relationsKept testBuild).perform r (.set kind a b)).Runs steps (result, r') := h
  have hsound' := ((Relations.lawful testBuild).perform_runs hsound hkept).1
  rcases Relations.perform_ends hperform with ⟨hfailed, hreadings, rfl⟩ | ⟨rfl, -, rfl, hattempt⟩
    | ⟨rfl, -, links, hchanges, bytes, rfl, -, hattempt⟩
  · exact Or.inl ⟨hfailed, rfl, written_of_onlyReadings hreadings⟩
  · exact Or.inl ⟨nofun, rfl, written_of_attempt (hattempt hentry)⟩
  · have hkinds : ({ r with links, previous := bytes } : Relations).kindOf
        = (RelationsCall.set kind a b).change r.kindOf :=
      Relations.kindOf_of_changes hrelation hchanges
    rw [RelationsCall.change, if_neg hne] at hkinds
    exact Or.inr ⟨rfl, hsound', herror, hkinds, written_of_attempt (hattempt hentry)⟩

namespace ReviewState

/-- The links are set one after the other, and each that is set is written once. -/
theorem setAll_runs {testBuild : Bool} {changes : List (LinkKind × LoopKey × LoopKey)}
    {r r' : Relations} {steps : StoreSteps} {result : Except String Unit}
    (hsound : (relationsKept testBuild).Sound r) (herror : r.error = none)
    (hne : ∀ change ∈ changes, change.2.1 ≠ change.2.2)
    (h : (setAll testBuild r changes).Runs steps (result, r')) :
  ∃ done rest last, changes = done ++ rest ∧ written steps = done.length
    ∧ last.links = r'.links ∧ (relationsKept testBuild).Sound last ∧ last.error = none
    ∧ last.kindOf = changedKinds r.kindOf done ∧ (done = [] → last = r)
    ∧ (result = .ok () ↔ rest = [])
  := by
  induction changes generalizing r steps with
  | nil =>
      obtain ⟨rfl, hpair⟩ := Program.runs_pure.mp h
      cases hpair
      exact ⟨[], [], _, rfl, rfl, rfl, hsound, herror, rfl, fun _ => rfl, by simp⟩
  | cons change changes ih =>
      obtain ⟨kind, a, b⟩ := change
      obtain ⟨hfirst, hrest⟩ := List.forall_mem_cons.mp hne
      rw [setAll] at h
      obtain ⟨first, ⟨saved, r₁⟩, rest, rfl, hset, h⟩ := Program.runs_bind.mp h
      rcases set_runs hsound herror hfirst hset with ⟨hfailed, hlinks, hwritten⟩
        | ⟨rfl, hsound₁, herror₁, hkinds, hwritten⟩
      · rcases saved with e | u
        · obtain ⟨rfl, hpair⟩ := Program.runs_pure.mp h
          cases hpair
          rw [List.append_nil]
          exact ⟨[], _, r, rfl, hwritten, hlinks.symm, hsound, herror, rfl, fun _ => rfl, by simp⟩
        · exact absurd rfl hfailed
      · obtain ⟨done, rest', last, rfl, hwritten', hlast, hsound', herror', hkinds', -, hresult⟩ :=
          ih hsound₁ herror₁ hrest h
        refine ⟨(kind, a, b) :: done, rest', last, rfl, ?_, hlast, hsound', herror', ?_, nofun,
          hresult⟩
        · rw [written_append, hwritten, hwritten', List.length_cons, add_comm]
        · rw [hkinds', hkinds]
          rfl

/-! ### All or nothing -/

/-- The link is one of a card with these keys: it says that the card is about the same loop as
another one, or that its conversation is the same as another one. -/
def IsOf (cardKey : LoopKey) (threadKey : Option LoopKey) (link : Link) : Prop :=
  link.kind = .sameLoop ∧ (link.a = cardKey ∨ link.b = cardKey)
    ∨ link.kind = .sameThread ∧ (threadKey = some link.a ∨ threadKey = some link.b)

/-- No link of the card is left, and the others are as they were. -/
structure Unlinked (r r' : Relations) (cardKey : LoopKey) (threadKey : Option LoopKey) : Prop where
  none_left : ∀ link ∈ r'.links, ¬IsOf cardKey threadKey link
  others : ∀ pair, (∀ link ∈ r.links, s(link.a, link.b) = pair → ¬IsOf cardKey threadKey link) →
    r'.kindOf pair = r.kindOf pair

/-- A card that is unlinked is linked to no other one. -/
theorem Unlinked.not_linked {hmac : LoopKey → Bytes → LoopKey}
    {toLowercase : List Char → List Char} {r : Relations} {s : ReviewState} {cardKey : LoopKey}
    {threadKey : Option LoopKey} (h : Unlinked r s.relations cardKey threadKey)
    {items : List LoopItem} {i : Fin items.length}
    (hkey : s.cardKey hmac toLowercase (items.get i) = some cardKey) (j : Fin items.length) :
  ¬s.Linked hmac toLowercase items i j ∧ ¬s.Linked hmac toLowercase items j i
  := by
  have hpair : ∀ pair ∈ s.relations.pairs .sameLoop, pair.1 ≠ cardKey ∧ pair.2 ≠ cardKey := by
    intro pair hpair
    obtain ⟨link, hlink, rfl⟩ := List.mem_map.mp hpair
    obtain ⟨hmem, hkind⟩ := List.mem_filter.mp hlink
    have hnot := h.none_left link hmem
    constructor
    · exact fun ha => hnot (Or.inl ⟨of_decide_eq_true hkind, Or.inl ha⟩)
    · exact fun hb => hnot (Or.inl ⟨of_decide_eq_true hkind, Or.inr hb⟩)
  constructor
  · rintro ⟨pair, hmem, hi, -⟩
    rw [hkey] at hi
    exact (hpair pair hmem).1 (Option.some.inj hi).symm
  · rintro ⟨pair, hmem, -, hi⟩
    rw [hkey] at hi
    exact (hpair pair hmem).2 (Option.some.inj hi).symm

/-- The card at a place is unlinked, or no link is changed. -/
def AllOrNothing (hmac : LoopKey → Bytes → LoopKey) (toLowercase : List Char → List Char)
    (s s' : ReviewState) (index : ℕ) : Except String ℕ → Prop
  | .ok _ => ∃ analysis item cardKey, s.analysis = some analysis
      ∧ analysis.items[index]? = some item ∧ s.cardKey hmac toLowercase item = some cardKey
      ∧ Unlinked s.relations s'.relations cardKey (s.threadKeyForItem hmac item)
  | .error _ => s'.relations.links = s.relations.links

section

variable {cardKey : LoopKey} {threadKey : Option LoopKey}

/-- Exactly the links of the card are replaced, by the opposite. -/
theorem replacement_eq_some_iff {link : Link} {kind : LinkKind} :
  replacement cardKey threadKey link = some kind ↔ IsOf cardKey threadKey link
    ∧ (link.kind = .sameLoop ∧ kind = .notSameLoop
      ∨ link.kind = .sameThread ∧ kind = .notSameThread)
  := by
  have hthread : (threadKey.any fun key => link.a = key || link.b = key) = true ↔
      threadKey = some link.a ∨ threadKey = some link.b := by
    rcases threadKey with _ | key
    · simp
    · simp only [Option.any_some, Bool.or_eq_true, decide_eq_true_eq, Option.some.injEq]
      exact or_congr eq_comm eq_comm
  rw [replacement, IsOf]
  rcases link.kind with _ | _ | _ | _
  · dsimp only
    split_ifs with h
    · simp only [h, true_and, and_true, false_and, or_false, Option.some.injEq]
      exact eq_comm
    · simp [h]
  · simp
  · dsimp only
    split_ifs with h
    · simp only [hthread.mp h, true_and, false_or, false_and, Option.some.injEq]
      exact eq_comm
    · simp [mt hthread.mpr h]
  · simp

theorem mem_unlinkChanges {links : List Link} {change : LinkKind × LoopKey × LoopKey} :
  change ∈ unlinkChanges links cardKey threadKey ↔ ∃ link ∈ links, IsOf cardKey threadKey link
    ∧ changePair change = s(link.a, link.b) ∧ change.2 = link.pair
    ∧ (link.kind = .sameLoop ∧ change.1 = .notSameLoop
      ∨ link.kind = .sameThread ∧ change.1 = .notSameThread)
  := by
  rw [unlinkChanges, List.mem_filterMap]
  apply exists_congr
  intro link
  apply and_congr_right
  intro _
  rw [Option.map_eq_some_iff]
  constructor
  · rintro ⟨kind, hkind, rfl⟩
    obtain ⟨hof, hkinds⟩ := replacement_eq_some_iff.mp hkind
    exact ⟨hof, rfl, rfl, hkinds⟩
  · rintro ⟨hof, -, hpair, hkinds⟩
    refine ⟨change.1, replacement_eq_some_iff.mpr ⟨hof, hkinds⟩, ?_⟩
    show (change.1, link.pair) = change
    rw [← hpair]

section

variable {r : Relations} {changes done rest : List (LinkKind × LoopKey × LoopKey)}

/-- When all the changes are made, no link of the card is left and the others are as they were. -/
theorem unlinked_of_changedKinds {r' : Relations} (hrelation : IsRelation r.links)
    (hrelation' : IsRelation r'.links)
    (h : r'.kindOf = changedKinds r.kindOf (unlinkChanges r.links cardKey threadKey)) :
  Unlinked r r' cardKey threadKey
  := by
  have hkind : ∀ {r : Relations} {link : Link}, IsRelation r.links → link ∈ r.links →
      r.kindOf s(link.a, link.b) = some link.kind := by
    intro r link hrelation hlink
    exact (Relations.get_eq_some hrelation).mpr ⟨link, hlink, rfl, rfl⟩
  constructor
  · intro link hlink hof
    have hnow := hkind hrelation' hlink
    rw [h] at hnow
    rcases changedKinds_cases r.kindOf (unlinkChanges r.links cardKey threadKey)
      s(link.a, link.b) with ⟨hsame, hnot⟩ | ⟨change, hchange, hpair, hset⟩
    · rw [hsame] at hnow
      -- The link was there before, and it is one of those that are changed.
      obtain ⟨old, hold, holdkind, holdpair⟩ := (Relations.get_eq_some hrelation).mp hnow
      have hsameLink : old.a = link.a ∧ old.b = link.b := by
        have hcanonical := LinkState.canonical_eq_iff.mpr holdpair
        rw [LinkState.canonical_of_lt (hrelation.ordered old hold),
          LinkState.canonical_of_lt (hrelation'.ordered link hlink)] at hcanonical
        exact Prod.ext_iff.mp hcanonical
      have hofOld : IsOf cardKey threadKey old := by
        rwa [IsOf, holdkind, hsameLink.1, hsameLink.2]
      have hkinds : ∃ kind, old.kind = .sameLoop ∧ kind = LinkKind.notSameLoop
          ∨ old.kind = .sameThread ∧ kind = .notSameThread := by
        rcases hofOld with ⟨hloop, -⟩ | ⟨hthread, -⟩
        · exact ⟨_, Or.inl ⟨hloop, rfl⟩⟩
        · exact ⟨_, Or.inr ⟨hthread, rfl⟩⟩
      obtain ⟨kind, hkinds⟩ := hkinds
      exact hnot (kind, old.pair)
        (mem_unlinkChanges.mpr ⟨old, hold, hofOld, rfl, rfl, hkinds⟩) holdpair
    · rw [hset] at hnow
      obtain ⟨old, -, -, -, -, hkinds⟩ := mem_unlinkChanges.mp hchange
      rcases hkinds with ⟨-, hkinds⟩ | ⟨-, hkinds⟩
      · rcases hof with ⟨hloop, -⟩ | ⟨hthread, -⟩
        · rw [hloop, hkinds] at hnow
          cases hnow
        · rw [hthread, hkinds] at hnow
          cases hnow
      · rcases hof with ⟨hloop, -⟩ | ⟨hthread, -⟩
        · rw [hloop, hkinds] at hnow
          cases hnow
        · rw [hthread, hkinds] at hnow
          cases hnow
  · intro pair hothers
    rw [h]
    rcases changedKinds_cases r.kindOf (unlinkChanges r.links cardKey threadKey) pair with
      ⟨hsame, -⟩ | ⟨change, hchange, hpair, -⟩
    · exact hsame
    · obtain ⟨old, hold, hof, hchanged, -⟩ := mem_unlinkChanges.mp hchange
      exact absurd hof (hothers old hold (hchanged.symm.trans hpair))

theorem kindOf_of_links_eq {r r' : Relations} (h : r'.links = r.links) :
  r'.kindOf = r.kindOf
  := by
  funext pair
  induction pair using Sym2.ind with
  | _ a b =>
      show r'.get a b = r.get a b
      rw [Relations.get, h, Relations.get]

/-- When only some of the changes are made, the links are not as they were. -/
theorem links_ne_of_changedKinds {r' : Relations} (hrelation : IsRelation r.links)
    (hchanges : unlinkChanges r.links cardKey threadKey = done ++ rest) (hdone : done ≠ [])
    (h : r'.kindOf = changedKinds r.kindOf done) :
  r'.links ≠ r.links
  := by
  intro hlinks
  obtain ⟨first, hfirst⟩ := List.exists_mem_of_ne_nil done hdone
  have hkinds := kindOf_of_links_eq hlinks
  rcases changedKinds_cases r.kindOf done (changePair first) with ⟨-, hnot⟩
    | ⟨change, hchange, hpair, hset⟩
  · exact hnot first hfirst rfl
  · have hmem : change ∈ unlinkChanges r.links cardKey threadKey := by
      rw [hchanges]
      exact List.mem_append_left rest hchange
    obtain ⟨link, hlink, -, hchanged, -, hopposite⟩ := mem_unlinkChanges.mp hmem
    have hold : r.kindOf (changePair first) = some link.kind := by
      rw [← hpair, hchanged]
      exact (Relations.get_eq_some hrelation).mpr ⟨link, hlink, rfl, rfl⟩
    rw [← h, hkinds, hold] at hset
    rcases hopposite with ⟨hlinkKind, hchangeKind⟩ | ⟨hlinkKind, hchangeKind⟩
    · rw [hlinkKind, hchangeKind] at hset
      cases hset
    · rw [hlinkKind, hchangeKind] at hset
      cases hset

/-- All the changes are made, or the links are as they were exactly when none or all of the changes
are written. -/
theorem setAll_allOrNothing {testBuild : Bool} {r' : Relations} {steps : StoreSteps}
    {result : Except String Unit} (hsound : (relationsKept testBuild).Sound r)
    (h : (setAll testBuild r (unlinkChanges r.links cardKey threadKey)).Runs steps (result, r')) :
  (result = .ok () ∧ Unlinked r r' cardKey threadKey
      ∧ (written steps = 0 ∨ written steps = (unlinkChanges r.links cardKey threadKey).length))
    ∨ ((∃ e, result = .error e) ∧ (r'.links = r.links ↔
      written steps = 0 ∨ written steps = (unlinkChanges r.links cardKey threadKey).length))
  := by
  rcases herror : r.error with _ | error
  · obtain ⟨-, -, hrelation⟩ := hsound herror
    have hne : ∀ change ∈ unlinkChanges r.links cardKey threadKey, change.2.1 ≠ change.2.2 := by
      intro change hchange heq
      obtain ⟨link, hlink, -, -, hpair, -⟩ := mem_unlinkChanges.mp hchange
      have hlt := hrelation.ordered link hlink
      rw [hpair] at heq
      have hsame : link.a = link.b := heq
      rw [hsame] at hlt
      exact List.lt_irrefl _ hlt
    obtain ⟨done, rest, last, hchanges, hwritten, hlast, hsound', herror', hkinds, hnone, hresult⟩ :=
      setAll_runs hsound herror hne h
    obtain ⟨-, -, hrelation'⟩ := hsound' herror'
    rcases result with e | u
    · right
      use ⟨e, rfl⟩
      have hrest : rest ≠ [] := fun hrest => nomatch hresult.mpr hrest
      have hpos := List.length_pos_iff.mpr hrest
      rw [hwritten, hchanges, List.length_append, ← hlast]
      constructor
      · intro hlinks
        by_cases hdone : done = []
        · exact Or.inl (List.length_eq_zero_iff.mpr hdone)
        · exact absurd hlinks (links_ne_of_changedKinds hrelation hchanges hdone hkinds)
      · rintro (hzero | hall)
        · rw [hnone (List.length_eq_zero_iff.mp hzero)]
        · omega
    · left
      use rfl
      have hrest := hresult.mp rfl
      rw [hrest, List.append_nil] at hchanges
      rw [← hchanges] at hkinds
      constructor
      · have hunlinked := unlinked_of_changedKinds hrelation hrelation' hkinds
        constructor
        · rw [← hlast]
          exact hunlinked.none_left
        · rw [← kindOf_of_links_eq hlast]
          exact hunlinked.others
      · rw [hwritten, hchanges]
        exact Or.inr rfl
  · rcases hchanges : unlinkChanges r.links cardKey threadKey with _ | ⟨⟨kind, a, b⟩, changes⟩
    · rw [hchanges] at h
      obtain ⟨rfl, hpair⟩ := Program.runs_pure.mp h
      cases hpair
      left
      refine ⟨rfl, ?_, Or.inl rfl⟩
      constructor
      · intro link hlink hof
        have hkinds : ∃ kind, replacement cardKey threadKey link = some kind := by
          rcases hof with ⟨hloop, hof⟩ | ⟨hthread, hof⟩
          · exact ⟨_, replacement_eq_some_iff.mpr
              ⟨Or.inl ⟨hloop, hof⟩, Or.inl ⟨hloop, rfl⟩⟩⟩
          · exact ⟨_, replacement_eq_some_iff.mpr
              ⟨Or.inr ⟨hthread, hof⟩, Or.inr ⟨hthread, rfl⟩⟩⟩
        obtain ⟨kind, hkind⟩ := hkinds
        have hmem : (kind, link.a, link.b) ∈ unlinkChanges r.links cardKey threadKey := by
          rw [unlinkChanges, List.mem_filterMap]
          exact ⟨link, hlink, by rw [hkind]; rfl⟩
        rw [hchanges] at hmem
        cases hmem
      · exact fun _ _ => rfl
    · rw [hchanges, setAll] at h
      obtain ⟨first, ⟨saved, r₁⟩, rest, rfl, hset, h⟩ := Program.runs_bind.mp h
      rw [Relations.set, herror] at hset
      obtain ⟨rfl, hpair⟩ := Program.runs_pure.mp hset
      cases hpair
      obtain ⟨rfl, hpair⟩ := Program.runs_pure.mp h
      cases hpair
      right
      exact ⟨⟨error, rfl⟩, iff_of_true rfl (Or.inl rfl)⟩

end

/-! ### Unlinking -/

section

variable (hmac : LoopKey → Bytes → LoopKey) (toLowercase : List Char → List Char)

/-- The changes to the links of the card at a place. -/
def cardChanges (s : ReviewState) (index : ℕ) : List (LinkKind × LoopKey × LoopKey) :=
  match s.analysis.bind (·.items[index]?) with
  | none => []
  | some item =>
      match s.cardKey hmac toLowercase item with
      | none => []
      | some cardKey => unlinkChanges s.relations.links cardKey (s.threadKeyForItem hmac item)

variable {hmac toLowercase}

/-- A card is unlinked, or no link is changed, exactly when the store takes all the changes or none
of them. -/
theorem unlinkCard_allOrNothing_iff {testBuild : Bool} {s s' : ReviewState} {index : ℕ}
    {steps : StoreSteps} {result : Except String ℕ}
    (hsound : (relationsKept testBuild).Sound s.relations)
    (h : (s.unlinkCard hmac toLowercase testBuild index).Runs steps (result, s')) :
  AllOrNothing hmac toLowercase s s' index result ↔
    written steps = 0 ∨ written steps = (s.cardChanges hmac toLowercase index).length
  := by
  rw [unlinkCard] at h
  rw [cardChanges]
  rcases hanalysis : s.analysis with _ | analysis
  · rw [hanalysis] at h
    obtain ⟨rfl, hpair⟩ := Program.runs_pure.mp h
    cases hpair
    exact iff_of_true rfl (Or.inl rfl)
  rw [hanalysis] at h
  rw [Option.bind_some]
  dsimp only at h
  rcases hitem : analysis.items[index]? with _ | item
  · rw [hitem] at h
    obtain ⟨rfl, hpair⟩ := Program.runs_pure.mp h
    cases hpair
    exact iff_of_true rfl (Or.inl rfl)
  rw [hitem] at h
  dsimp only at h ⊢
  have hkey := s.key_cardContext hmac toLowercase item
  rcases hcard : s.cardContext hmac toLowercase item with _ | card
  · rw [hcard] at h
    obtain ⟨rfl, hpair⟩ := Program.runs_pure.mp h
    cases hpair
    exact iff_of_true rfl (Or.inl rfl)
  rw [hcard] at h hkey
  rw [Option.map_some] at hkey
  rw [← hkey]
  dsimp only at h ⊢
  obtain ⟨first, ⟨saved, r'⟩, last, rfl, hsaved, h⟩ := Program.runs_bind.mp h
  rcases setAll_allOrNothing hsound hsaved with ⟨rfl, hunlinked, hwritten⟩ | ⟨⟨e, rfl⟩, hiff⟩
  · obtain ⟨rfl, hpair⟩ := Program.runs_pure.mp h
    cases hpair
    rw [List.append_nil]
    exact iff_of_true ⟨analysis, item, card.record.key, hanalysis, hitem, hkey.symm, hunlinked⟩
      hwritten
  · obtain ⟨rfl, hpair⟩ := Program.runs_pure.mp h
    cases hpair
    rw [List.append_nil]
    exact hiff

end

end

/-! ### A store that fails midway -/

/-- Links of one card to two others. -/
def twoLinks : List Link :=
  [⟨.sameLoop, Vector.replicate 32 97, Vector.replicate 32 98, 0⟩,
    ⟨.sameLoop, Vector.replicate 32 97, Vector.replicate 32 99, 0⟩]

/-- A review in which the first item is linked to two others. -/
def twiceLinkedReview : ReviewState :=
  { invoiceReview with relations := ⟨twoLinks, true, LinkState.linksBytes twoLinks, none⟩ }

/-- Another window holds the lock from the sixth step on. -/
def lockedLater (place : ℕ) : (o : StoreOperation) → o.Answer
  | .now => 0
  | .lock => place < 5
  | .getSecret => .ok (some (LinkState.linksBytes twoLinks))
  | .setSecret _ => true
  | .unlock => ()

theorem sound_twiceLinkedReview :
  (relationsKept false).Sound twiceLinkedReview.relations
  := by
  intro _
  have hrelation : IsRelation twoLinks := by
    constructor
    · decide
    · constructor
      · decide
      · decide
  refine ⟨rfl, ?_, hrelation⟩
  exact LinkState.decode_eq_ok.mpr (Or.inr
    ⟨hrelation, LinkState.encode_eq_ok.mpr ⟨by decide, rfl⟩⟩)

/-- The second link is not taken back, and the first one is. -/
theorem twiceLinkedReview_halfUnlinked :
  (relationsKept false).Sound twiceLinkedReview.relations
    ∧ ∃ steps result s', (twiceLinkedReview.unlinkCard lastByteKey id false 0).Runs steps (result, s')
      ∧ ¬AllOrNothing lastByteKey id twiceLinkedReview s' 0 result
  := by
  use sound_twiceLinkedReview
  have hruns := Program.runs_eval (twiceLinkedReview.unlinkCard lastByteKey id false 0) lockedLater
  have hfails : ((twiceLinkedReview.unlinkCard lastByteKey id false 0).eval lockedLater).2.1
      = .error LinkState.failure := by
    decide +kernel
  have hlinks : ((twiceLinkedReview.unlinkCard lastByteKey id false 0).eval lockedLater).2.2.relations.links
      ≠ twiceLinkedReview.relations.links := by
    decide +kernel
  generalize (twiceLinkedReview.unlinkCard lastByteKey id false 0).eval lockedLater = run
    at hruns hfails hlinks
  obtain ⟨steps, result, s'⟩ := run
  dsimp only at hruns hfails hlinks
  subst hfails
  exact ⟨steps, _, s', hruns, hlinks⟩

theorem twiceLinkedReview_allOrNothing_iff :
  ∃ steps result s', (twiceLinkedReview.unlinkCard lastByteKey id false 0).Runs steps (result, s')
    ∧ (AllOrNothing lastByteKey id twiceLinkedReview s' 0 result ↔ written steps = 0
      ∨ written steps = (twiceLinkedReview.cardChanges lastByteKey id 0).length)
  := by
  have hruns := Program.runs_eval (twiceLinkedReview.unlinkCard lastByteKey id false 0) lockedLater
  generalize (twiceLinkedReview.unlinkCard lastByteKey id false 0).eval lockedLater = run at hruns
  obtain ⟨steps, result, s'⟩ := run
  exact ⟨steps, result, s', hruns, unlinkCard_allOrNothing_iff sound_twiceLinkedReview hruns⟩

end ReviewState

end Review
