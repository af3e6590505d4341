import OpenLoops.Library.Program
import OpenLoops.Library.Wire

/-!
# Enumerating markers

When it is not certain whether a task was written, the markers of a list are enumerated page by
page, and what is done next depends on how many are the one looked for.  An enumeration that does
not come to an end says nothing about them.
-/

namespace Graph

/-- A page of markers; the last one has no cursor. -/
structure MarkerEnumerationPage where
  markers : List String
  nextCursor : Option Bytes
deriving DecidableEq, Repr

inductive EnumerationError where
  | transport
  | unsupported
deriving DecidableEq, Repr

/-- The answer to a call for a page, which is made with a cursor, except for the first one. -/
abbrev PageAnswer : Option Bytes → Type :=
  fun _ => Except EnumerationError MarkerEnumerationPage

abbrev Enumeration : Type → Type :=
  Program (Option Bytes) PageAnswer

def MarkerEnumerationSource.nextPage (cursor : Option Bytes) : Enumeration (PageAnswer cursor) :=
  Program.ask cursor

def maxEnumerationPages : ℕ := 64

/-- What an enumeration says about the marker. -/
inductive ReconciliationOutcome where
  | completeZero
  | completeOne (matchedMarker : String)
  | completeMany (matchedMarkers : List String)
  | incomplete
deriving DecidableEq, Repr

/-- The outcome of an enumeration that has come to an end. -/
def classifyMatches : List String → ReconciliationOutcome
  | [] => .completeZero
  | [marker] => .completeOne marker
  | markers => .completeMany markers

/-- Some more pages, from a cursor on. -/
def enumeratePages (targetMarker : String) :
    ℕ → Option Bytes → List String → Enumeration ReconciliationOutcome
  | 0, _, _ => return .incomplete
  | pages + 1, cursor, found => do
      match ← MarkerEnumerationSource.nextPage cursor with
      | .error _ => return .incomplete
      | .ok page =>
          let found := found ++ page.markers.filter (· == targetMarker)
          match page.nextCursor with
          | none => return classifyMatches found
          | some next => enumeratePages targetMarker pages (some next) found

def enumerateAndClassify (targetMarker : String) : Enumeration ReconciliationOutcome :=
  enumeratePages targetMarker maxEnumerationPages none []

/-! ### Sources -/

section

variable {σ : Type} (source : σ → (cursor : Option Bytes) → PageAnswer cursor × σ)

/-- The pages of a source from a cursor on, each called for with the cursor of the one before, up
to one without a cursor. -/
inductive Enumerates : σ → Option Bytes → List MarkerEnumerationPage → Prop
  | last {s s' : σ} {cursor : Option Bytes} {page : MarkerEnumerationPage}
      (h : source s cursor = (.ok page, s')) (hlast : page.nextCursor = none) :
      Enumerates s cursor [page]
  | next {s s' : σ} {cursor : Option Bytes} {page : MarkerEnumerationPage} {next : Bytes}
      {pages : List MarkerEnumerationPage} (h : source s cursor = (.ok page, s'))
      (hnext : page.nextCursor = some next) (hrest : Enumerates s' (some next) pages) :
      Enumerates s cursor (page :: pages)

/-- The source comes to an end by so many calls. -/
def ComesToEnd (s : σ) (cursor : Option Bytes) (calls : ℕ) : Prop :=
  ∃ pages, Enumerates source s cursor pages ∧ pages.length ≤ calls

/-- How often a marker is on the pages. -/
def occurrences (marker : String) (pages : List MarkerEnumerationPage) : ℕ :=
  (pages.flatMap fun page => page.markers).count marker

/-- The first call is made with the cursor, and each one after it with that of the page before;
none follows a page without one, or a failure. -/
def PassesCursors : Option Bytes → List (Performed PageAnswer) → Prop
  | _, [] => True
  | cursor, call :: calls =>
      call.operation = cursor ∧
        match call.answered with
        | .error _ => calls = []
        | .ok page =>
            (page.nextCursor = none → calls = []) ∧ PassesCursors page.nextCursor calls

variable {source}

theorem Enumerates.ne_nil {s : σ} {cursor : Option Bytes} {pages : List MarkerEnumerationPage}
    (h : Enumerates source s cursor pages) :
  pages ≠ []
  := by
  cases h with
  | last => apply List.cons_ne_nil
  | next => apply List.cons_ne_nil

/-- Where the source fails there are no pages. -/
theorem not_comesToEnd_of_error {s s' : σ} {cursor : Option Bytes} {e : EnumerationError}
    {calls : ℕ} (h : source s cursor = (.error e, s')) :
  ¬ ComesToEnd source s cursor calls
  := by
  rintro ⟨pages, hpages, -⟩
  cases hpages with
  | last hpage => simp [h] at hpage
  | next hpage => simp [h] at hpage

/-- The pages from a page without a cursor on. -/
theorem enumerates_iff_of_none {s s' : σ} {cursor : Option Bytes} {page : MarkerEnumerationPage}
    {pages : List MarkerEnumerationPage} (h : source s cursor = (.ok page, s'))
    (hlast : page.nextCursor = none) :
  Enumerates source s cursor pages ↔ pages = [page]
  := by
  constructor
  · intro hpages
    cases hpages with
    | last hpage =>
        obtain ⟨⟨⟩, -⟩ := Prod.mk.inj (h.symm.trans hpage)
        rfl
    | next hpage hnext =>
        obtain ⟨⟨⟩, -⟩ := Prod.mk.inj (h.symm.trans hpage)
        cases hlast.symm.trans hnext
  · rintro rfl
    apply Enumerates.last h hlast

/-- The pages from a page with a cursor on. -/
theorem enumerates_iff_of_some {s s' : σ} {cursor : Option Bytes} {page : MarkerEnumerationPage}
    {next : Bytes} {pages : List MarkerEnumerationPage} (h : source s cursor = (.ok page, s'))
    (hnext : page.nextCursor = some next) :
  Enumerates source s cursor pages ↔
    ∃ rest, pages = page :: rest ∧ Enumerates source s' (some next) rest
  := by
  constructor
  · intro hpages
    cases hpages with
    | last hpage hlast =>
        obtain ⟨⟨⟩, -⟩ := Prod.mk.inj (h.symm.trans hpage)
        cases hlast.symm.trans hnext
    | next hpage hnext' hrest =>
        obtain ⟨⟨⟩, rfl⟩ := Prod.mk.inj (h.symm.trans hpage)
        cases hnext.symm.trans hnext'
        exact ⟨_, rfl, hrest⟩
  · rintro ⟨rest, rfl, hrest⟩
    apply Enumerates.next h hnext hrest

/-! ### Runs of the enumeration -/

theorem exec_enumeratePages_of_error {targetMarker : String} {calls : ℕ}
    {cursor : Option Bytes} {found : List String} {s s' : σ} {e : EnumerationError}
    (h : source s cursor = (.error e, s')) :
  (enumeratePages targetMarker (calls + 1) cursor found).exec source s =
    ([⟨cursor, .error e⟩], .incomplete, s')
  := by
  show (Program.perform cursor _).exec source s = _
  rw [Program.exec, h]
  rfl

theorem exec_enumeratePages_of_none {targetMarker : String} {calls : ℕ}
    {cursor : Option Bytes} {found : List String} {s s' : σ} {page : MarkerEnumerationPage}
    (h : source s cursor = (.ok page, s')) (hlast : page.nextCursor = none) :
  (enumeratePages targetMarker (calls + 1) cursor found).exec source s =
    ([⟨cursor, .ok page⟩],
      classifyMatches (found ++ page.markers.filter (· == targetMarker)), s')
  := by
  show (Program.perform cursor _).exec source s = _
  rw [Program.exec, h]
  simp only [Program.bind, hlast]
  rfl

theorem exec_enumeratePages_of_some {targetMarker : String} {calls : ℕ}
    {cursor : Option Bytes} {found : List String} {s s' : σ} {page : MarkerEnumerationPage}
    {next : Bytes} (h : source s cursor = (.ok page, s')) (hnext : page.nextCursor = some next) :
  (enumeratePages targetMarker (calls + 1) cursor found).exec source s =
    let rest := (enumeratePages targetMarker calls (some next)
      (found ++ page.markers.filter (· == targetMarker))).exec source s'
    (⟨cursor, .ok page⟩ :: rest.1, rest.2)
  := by
  show (Program.perform cursor _).exec source s = _
  rw [Program.exec, h]
  simp only [Program.bind, hnext]

/-- The calls of an enumeration are no more than the pages allowed, and pass the cursors on. -/
theorem calls_enumeratePages (targetMarker : String) (calls : ℕ) (cursor : Option Bytes)
    (found : List String) (s : σ) :
  let run := (enumeratePages targetMarker calls cursor found).exec source s
  run.1.length ≤ calls ∧ PassesCursors cursor run.1
  := by
  induction calls generalizing cursor found s with
  | zero => exact ⟨le_refl 0, trivial⟩
  | succ calls ih =>
      rcases h : source s cursor with ⟨e | page, s'⟩
      · rw [exec_enumeratePages_of_error h]
        exact ⟨Nat.succ_le_succ (Nat.zero_le calls), rfl, rfl⟩
      · rcases hnext : page.nextCursor with _ | next
        · rw [exec_enumeratePages_of_none h hnext]
          exact ⟨Nat.succ_le_succ (Nat.zero_le calls), rfl, fun _ => rfl, trivial⟩
        · rw [exec_enumeratePages_of_some h hnext]
          obtain ⟨hlength, hpasses⟩ :=
            ih (some next) (found ++ page.markers.filter (· == targetMarker)) s'
          use Nat.succ_le_succ hlength, rfl
          exact ⟨fun hlast => absurd (hnext.symm.trans hlast) nofun, hnext.symm ▸ hpasses⟩

/-- An enumeration that comes to an end classifies the markers found before together with those on
its pages. -/
theorem outcome_enumeratePages {targetMarker : String} {calls : ℕ} {cursor : Option Bytes}
    {found : List String} {s : σ} {pages : List MarkerEnumerationPage}
    (hpages : Enumerates source s cursor pages) (hcalls : pages.length ≤ calls) :
  ((enumeratePages targetMarker calls cursor found).exec source s).2.1 =
    classifyMatches (found ++ List.replicate (occurrences targetMarker pages) targetMarker)
  := by
  induction hpages generalizing calls found with
  | last h hlast =>
      obtain ⟨calls, rfl⟩ := Nat.exists_eq_add_of_le' hcalls
      rw [List.length_singleton, exec_enumeratePages_of_none h hlast, List.filter_beq,
        occurrences, List.flatMap_singleton]
  | next h hnext _ ih =>
      obtain ⟨calls, rfl⟩ := Nat.exists_eq_succ_of_ne_zero (Nat.ne_zero_of_lt hcalls)
      rw [exec_enumeratePages_of_some h hnext]
      show (Program.exec _ _ _).2.1 = _
      rw [ih (Nat.le_of_succ_le_succ hcalls), List.filter_beq, List.append_assoc,
        List.replicate_append_replicate, occurrences, occurrences, List.flatMap_cons,
        List.count_append]

/-- An enumeration that does not come to an end is incomplete. -/
theorem outcome_enumeratePages_of_not {targetMarker : String} {calls : ℕ}
    {cursor : Option Bytes} {found : List String} {s : σ}
    (hnot : ¬ ComesToEnd source s cursor calls) :
  ((enumeratePages targetMarker calls cursor found).exec source s).2.1 = .incomplete
  := by
  induction calls generalizing cursor found s with
  | zero => rfl
  | succ calls ih =>
      rcases h : source s cursor with ⟨e | page, s'⟩
      · rw [exec_enumeratePages_of_error h]
      · rcases hnext : page.nextCursor with _ | next
        · exfalso
          apply hnot
          use [page], Enumerates.last h hnext
          apply Nat.succ_le_succ (Nat.zero_le calls)
        · rw [exec_enumeratePages_of_some h hnext]
          apply ih
          rintro ⟨pages, hpages, hlength⟩
          apply hnot
          use page :: pages, Enumerates.next h hnext hpages
          apply Nat.succ_le_succ hlength

/-- A source has only one list of pages. -/
theorem Enumerates.unique {s : σ} {cursor : Option Bytes}
    {pages pages' : List MarkerEnumerationPage} (h : Enumerates source s cursor pages)
    (h' : Enumerates source s cursor pages') :
  pages = pages'
  := by
  induction h generalizing pages' with
  | last h hlast => exact ((enumerates_iff_of_none h hlast).mp h').symm
  | next h hnext _ ih =>
      obtain ⟨rest, rfl, hrest⟩ := (enumerates_iff_of_some h hnext).mp h'
      rw [ih hrest]

end

/-- What is said about a marker that was found so often. -/
theorem classifyMatches_replicate (marker : String) (count : ℕ) :
  (classifyMatches (List.replicate count marker) = .completeZero ↔ count = 0)
    ∧ (∀ m, classifyMatches (List.replicate count marker) = .completeOne m ↔
        count = 1 ∧ m = marker)
    ∧ (∀ ms, classifyMatches (List.replicate count marker) = .completeMany ms ↔
        2 ≤ count ∧ ms = List.replicate count marker)
    ∧ classifyMatches (List.replicate count marker) ≠ .incomplete
  := by
  match count with
  | 0 => simp [classifyMatches]
  | 1 => simp [classifyMatches, eq_comm]
  | count + 2 => simp [classifyMatches, List.replicate_succ, eq_comm]

/-- For every behaviour of the source, an enumeration calls for at most 64 pages and passes their
cursors on; it is complete exactly when it comes to an end by then, and says how often the marker
is on all the pages together. -/
theorem enumerateAndClassify_exact {σ : Type}
    (source : σ → (cursor : Option Bytes) → PageAnswer cursor × σ) (s : σ)
    (targetMarker : String) :
  let run := (enumerateAndClassify targetMarker).exec source s
  run.1.length ≤ 64
    ∧ PassesCursors none run.1
    ∧ (run.2.1 = .completeZero ↔ ∃ pages, Enumerates source s none pages
        ∧ pages.length ≤ 64 ∧ occurrences targetMarker pages = 0)
    ∧ (∀ m, run.2.1 = .completeOne m ↔ ∃ pages, Enumerates source s none pages
        ∧ pages.length ≤ 64 ∧ occurrences targetMarker pages = 1 ∧ m = targetMarker)
    ∧ (∀ ms, run.2.1 = .completeMany ms ↔ ∃ pages, Enumerates source s none pages
        ∧ pages.length ≤ 64 ∧ 2 ≤ occurrences targetMarker pages
        ∧ ms = List.replicate (occurrences targetMarker pages) targetMarker)
    ∧ (run.2.1 = .incomplete ↔ ¬ ComesToEnd source s none 64)
  := by
  intro run
  obtain ⟨hlength, hpasses⟩ := @calls_enumeratePages σ source targetMarker 64 none [] s
  use hlength, hpasses
  by_cases hend : ComesToEnd source s none 64
  · obtain ⟨pages, hpages, hcalls⟩ := hend
    -- the pages that come to an end are these ones
    have honly : ∀ P : List MarkerEnumerationPage → Prop,
        (∃ pages, Enumerates source s none pages ∧ pages.length ≤ 64 ∧ P pages) ↔ P pages := by
      intro P
      constructor
      · rintro ⟨pages', hpages', -, hP⟩
        rw [hpages.unique hpages']
        exact hP
      · intro hP
        use pages, hpages, hcalls
    have houtcome : run.2.1
        = classifyMatches (List.replicate (occurrences targetMarker pages) targetMarker) :=
      outcome_enumeratePages hpages hcalls
    obtain ⟨hzero, hone, hmany, hincomplete⟩ :=
      classifyMatches_replicate targetMarker (occurrences targetMarker pages)
    simp only [houtcome, honly, hzero, hone, hmany, hincomplete, implies_true, true_and,
      false_iff, not_not]
    use pages, hpages, hcalls
  · have houtcome : run.2.1 = .incomplete := outcome_enumeratePages_of_not hend
    have hnone : ∀ P : List MarkerEnumerationPage → Prop,
        ¬ ∃ pages, Enumerates source s none pages ∧ pages.length ≤ 64 ∧ P pages := by
      rintro P ⟨pages, hpages, hcalls, -⟩
      exact hend ⟨pages, hpages, hcalls⟩
    simp [houtcome, hnone, hend]

end Graph
