import Mathlib.Order.Lattice
import Mathlib.Data.List.Basic
import Mathlib.Order.Defs.LinearOrder
import Mathlib.Tactic.Common

/-!
# Walks over pages

A collection is served page by page; each page has rows and may have a link to the next one.  A
walk reads pages from a link on, by some steps, and comes to an end at a page without a link, at a
link that it rejects, at a page that cannot be read, or where it stops on its own.

The rows of a collection may have dates.  When they are sorted with the newest one first, nothing
that is new enough follows a row that is too old.
-/

/-- How a walk comes to an end. -/
inductive WalkEnd (ε : Type*) where
  /-- The last page that was read has no link. -/
  | last
  /-- The link of the last page that was read was rejected. -/
  | rejected (e : ε)
  /-- A page could not be read. -/
  | failed (e : ε)
  | stopped

section Walks

variable {κ τ ρ ε : Type*} (Reads : κ → List τ → List ρ → Except ε (Option κ) → Prop)
  (Fails : κ → List τ → ε → Prop)

/-- The steps of a walk from a link, with the rows of the pages that it reads, and its end. -/
inductive Walk : κ → List τ → List ρ → WalkEnd ε → Prop
  | stopped (k : κ) : Walk k [] [] .stopped
  | failed {k : κ} {steps : List τ} {e : ε} (h : Fails k steps e) : Walk k steps [] (.failed e)
  | last {k : κ} {steps : List τ} {rows : List ρ} (h : Reads k steps rows (.ok none)) :
      Walk k steps rows .last
  | rejected {k : κ} {steps : List τ} {rows : List ρ} {e : ε} (h : Reads k steps rows (.error e)) :
      Walk k steps rows (.rejected e)
  | next {k l : κ} {steps rest : List τ} {rows others : List ρ} {fin : WalkEnd ε}
      (h : Reads k steps rows (.ok (some l))) (hrest : Walk l rest others fin) :
      Walk k (steps ++ rest) (rows ++ others) fin

variable {Reads}

/-- A walk may stop after any page. -/
theorem Walk.of_read {k : κ} {steps : List τ} {rows : List ρ} {link : Except ε (Option κ)}
    (h : Reads k steps rows link) :
  ∃ fin, Walk Reads Fails k steps rows fin ∧ ∀ e, fin ≠ .failed e
  := by
  rcases link with e | _ | l
  · exact ⟨_, Walk.rejected h, nofun⟩
  · exact ⟨_, Walk.last h, nofun⟩
  · use .stopped
    constructor
    · rw [← List.append_nil steps, ← List.append_nil rows]
      apply Walk.next h (Walk.stopped l)
    · exact nofun

end Walks

section Windows

variable {ρ τ : Type*} [LinearOrder τ] (dateOf : ρ → Option τ) (cutoff : τ)

/-- The rows that have dates are sorted, with the newest one first. -/
def NewestFirst (rows : List ρ) : Prop :=
  (rows.filterMap dateOf).Pairwise (fun a b => b ≤ a)

/-- The row has a date that is not before the cutoff. -/
def inWindow (row : ρ) : Bool :=
  (dateOf row).any (cutoff ≤ ·)

/-- The row has a date before the cutoff. -/
def isOlder (row : ρ) : Bool :=
  (dateOf row).any (· < cutoff)

variable {dateOf cutoff}

theorem isOlder_iff {row : ρ} :
  isOlder dateOf cutoff row = true ↔ ∃ date, dateOf row = some date ∧ date < cutoff
  := by
  simp [isOlder, Option.any_eq_true]

theorem inWindow_iff {row : ρ} :
  inWindow dateOf cutoff row = true ↔ ∃ date, dateOf row = some date ∧ cutoff ≤ date
  := by
  simp [inWindow, Option.any_eq_true]

theorem NewestFirst.left {rows rows' : List ρ} (h : NewestFirst dateOf (rows ++ rows')) :
  NewestFirst dateOf rows
  := by
  rw [NewestFirst, List.filterMap_append] at h
  exact (List.pairwise_append.mp h).1

theorem NewestFirst.right {rows rows' : List ρ} (h : NewestFirst dateOf (rows ++ rows')) :
  NewestFirst dateOf rows'
  := by
  rw [NewestFirst, List.filterMap_append] at h
  exact (List.pairwise_append.mp h).2.1

/-- No row after one that is too old is in the window. -/
theorem NewestFirst.filter_eq_nil {rows rows' : List ρ}
    (h : NewestFirst dateOf (rows ++ rows')) (hold : ∃ row ∈ rows, isOlder dateOf cutoff row) :
  rows'.filter (inWindow dateOf cutoff) = []
  := by
  rw [NewestFirst, List.filterMap_append] at h
  obtain ⟨-, -, hcross⟩ := List.pairwise_append.mp h
  obtain ⟨row, hrow, hold⟩ := hold
  obtain ⟨date, hdate, hlt⟩ := isOlder_iff.mp hold
  apply List.filter_eq_nil_iff.mpr
  intro row' hrow' hwindow
  obtain ⟨date', hdate', hle⟩ := inWindow_iff.mp hwindow
  have hcompare : date' ≤ date := hcross date (List.mem_filterMap.mpr ⟨row, hrow, hdate⟩) date'
    (List.mem_filterMap.mpr ⟨row', hrow', hdate'⟩)
  exact absurd (le_trans hle hcompare) (not_le.mpr hlt)

/-- The rows in the window are among those up to one that is too old. -/
theorem NewestFirst.filter_append {rows rows' : List ρ}
    (h : NewestFirst dateOf (rows ++ rows')) (hold : ∃ row ∈ rows, isOlder dateOf cutoff row) :
  (rows ++ rows').filter (inWindow dateOf cutoff) = rows.filter (inWindow dateOf cutoff)
  := by
  rw [List.filter_append, h.filter_eq_nil hold, List.append_nil]

end Windows
