import Mathlib.Data.List.Basic
import Mathlib.Tactic.Common

/-!
# Scanning

A scanner goes over a text from left to right.  At each place it may find a span, which depends on
what stands before and after; it then goes on after the span, and otherwise after one symbol.  The
text is so cut into pieces, which are symbols and labelled spans.

What stands before a place is given from there back to the start.
-/

/-- A symbol of a text, or a span of it with a label. -/
inductive Piece (α β : Type*) where
  | symbol (a : α)
  | span (text : List α) (label : β)
deriving DecidableEq

namespace Piece

variable {α β : Type*}

/-- What a piece stands for in the text. -/
def source : Piece α β → List α
  | symbol a => [a]
  | span text _ => text

/-- What the pieces are together when each span is replaced. -/
def render (replace : β → List α) : List (Piece α β) → List α
  | [] => []
  | symbol a :: pieces => a :: render replace pieces
  | span _ label :: pieces => replace label ++ render replace pieces

@[simp]
theorem render_nil (replace : β → List α) :
  render replace [] = []
  := rfl

@[simp]
theorem render_symbol (replace : β → List α) (a : α) (pieces : List (Piece α β)) :
  render replace (symbol a :: pieces) = a :: render replace pieces
  := rfl

@[simp]
theorem render_span (replace : β → List α) (text : List α) (label : β)
    (pieces : List (Piece α β)) :
  render replace (span text label :: pieces) = replace label ++ render replace pieces
  := rfl

@[simp]
theorem render_append (replace : β → List α) (pieces pieces' : List (Piece α β)) :
  render replace (pieces ++ pieces') = render replace pieces ++ render replace pieces'
  := by
  induction pieces with
  | nil => rfl
  | cons piece pieces ih =>
      cases piece with
      | symbol a => simp [ih]
      | span text label => simp [ih]

@[simp]
theorem render_map_symbol (replace : β → List α) (text : List α) :
  render replace (text.map symbol) = text
  := by
  induction text with
  | nil => rfl
  | cons a text ih => rw [List.map_cons, render_symbol, ih]

/-- A symbol of what is rendered is one of the pieces, or it stands in a replacement. -/
theorem render_eq_append_cons {replace : β → List α} {pieces : List (Piece α β)} {x y : List α}
    {a : α} (h : render replace pieces = x ++ a :: y) :
  (∃ others others', pieces = others ++ symbol a :: others' ∧ x = render replace others
      ∧ y = render replace others')
    ∨ ∃ others text label others' x' y', pieces = others ++ span text label :: others'
      ∧ replace label = x' ++ a :: y' ∧ x = render replace others ++ x'
      ∧ y = y' ++ render replace others'
  := by
  induction pieces generalizing x with
  | nil =>
      have hlength := congrArg List.length h
      simp at hlength
  | cons piece pieces ih =>
      cases piece with
      | symbol b =>
          rcases x with _ | ⟨c, x⟩
          · cases h
            exact Or.inl ⟨[], pieces, rfl, rfl, rfl⟩
          · rw [render_symbol, List.cons_append] at h
            obtain ⟨rfl, hrest⟩ := List.cons.inj h
            rcases ih hrest with ⟨others, others', rfl, rfl, rfl⟩ |
              ⟨others, text, label, others', x', y', rfl, hreplace, rfl, rfl⟩
            · exact Or.inl ⟨symbol b :: others, others', rfl, rfl, rfl⟩
            · exact Or.inr ⟨symbol b :: others, text, label, others', x', y', rfl, hreplace, rfl, rfl⟩
      | span text label =>
          rw [render_span] at h
          rcases List.append_eq_append_iff.mp h with ⟨z, rfl, hrest⟩ | ⟨z, hreplace, hrest⟩
          · rcases ih hrest with ⟨others, others', rfl, rfl, rfl⟩ |
              ⟨others, text', label', others', x', y', rfl, hreplace, rfl, rfl⟩
            · exact Or.inl ⟨span text label :: others, others', rfl, rfl, rfl⟩
            · right
              use span text label :: others, text', label', others', x', y', rfl, hreplace
              rw [render_span, List.append_assoc]
              exact ⟨rfl, rfl⟩
          · rcases z with _ | ⟨b, z⟩
            · -- The symbol stands right after the replacement.
              rw [List.append_nil] at hreplace
              rcases ih (x := []) hrest.symm with ⟨others, others', rfl, hothers, rfl⟩ |
                ⟨others, text', label', others', x', y', rfl, hreplace', hothers, rfl⟩
              · left
                use span text label :: others, others', rfl
                rw [render_span, ← hothers, List.append_nil]
                exact ⟨hreplace.symm, rfl⟩
              · right
                use span text label :: others, text', label', others', x', y', rfl, hreplace'
                rw [render_span, List.append_assoc, ← hothers, List.append_nil]
                exact ⟨hreplace.symm, rfl⟩
            · obtain ⟨rfl, rfl⟩ := List.cons.inj hrest
              exact Or.inr ⟨[], text, label, pieces, x, z, rfl, hreplace, rfl, rfl⟩

end Piece

/-! ### Runs -/

section Runs

variable {α : Type*} {p : α → Bool}

/-- A run of symbols of a class goes no further back than to a symbol that is not in it. -/
theorem exists_eq_append_of_run {x l a w : List α} (h : x ++ l = a ++ w)
    (hrun : ∀ c ∈ w, p c = true) (hstop : x.getLast?.any p = false) :
  ∃ y, l = y ++ w ∧ a = x ++ y
  := by
  rcases List.append_eq_append_iff.mp h with ⟨y, rfl, rfl⟩ | ⟨z, rfl, rfl⟩
  · exact ⟨y, rfl, rfl⟩
  · rcases z.eq_nil_or_concat with rfl | ⟨z, c, rfl⟩
    · exact ⟨[], by simp, by simp⟩
    · rw [List.concat_eq_append, ← List.append_assoc, List.getLast?_append] at hstop
      simp [hrun c] at hstop

/-- A run of symbols of a class goes no further than to a symbol that is not in it. -/
theorem exists_eq_append_of_run' {x l a w : List α} (h : l ++ x = w ++ a)
    (hrun : ∀ c ∈ w, p c = true) (hstop : x.head?.any p = false) :
  ∃ y, l = w ++ y ∧ a = y ++ x
  := by
  rcases List.append_eq_append_iff.mp h with ⟨z, rfl, rfl⟩ | ⟨y, rfl, rfl⟩
  · rcases z with _ | ⟨c, z⟩
    · exact ⟨[], by simp, by simp⟩
    · simp [hrun c] at hstop
  · exact ⟨y, rfl, rfl⟩

end Runs

section Scanning

variable {α β : Type*} (found : List α → List α → Option (ℕ × β))

/-- The text after a place is cut into these pieces. -/
inductive Scanned : List α → List α → List (Piece α β) → Prop
  | nil (before : List α) : Scanned before [] []
  | symbol {before rest : List α} {a : α} {pieces : List (Piece α β)}
      (h : found before (a :: rest) = none) (hrest : Scanned (a :: before) rest pieces) :
      Scanned before (a :: rest) (.symbol a :: pieces)
  | span {before text rest : List α} {label : β} {pieces : List (Piece α β)} (hne : text ≠ [])
      (h : found before (text ++ rest) = some (text.length, label))
      (hrest : Scanned (text.reverse ++ before) rest pieces) :
      Scanned before (text ++ rest) (.span text label :: pieces)

variable {found}

/-- The pieces are those of the text. -/
theorem Scanned.source {before rest : List α} {pieces : List (Piece α β)}
    (h : Scanned found before rest pieces) :
  pieces.flatMap Piece.source = rest
  := by
  induction h with
  | nil => rfl
  | symbol h hrest ih => rw [List.flatMap_cons, ih]; rfl
  | span hne h hrest ih => rw [List.flatMap_cons, ih]; rfl

/-- The text after some of the pieces is cut into the others. -/
theorem Scanned.drop {before rest : List α} {pieces pieces' : List (Piece α β)}
    (h : Scanned found before rest (pieces ++ pieces')) :
  ∃ rest', rest = pieces.flatMap Piece.source ++ rest'
    ∧ Scanned found ((pieces.flatMap Piece.source).reverse ++ before) rest' pieces'
  := by
  induction pieces generalizing before rest with
  | nil => exact ⟨rest, rfl, h⟩
  | cons piece pieces ih =>
      rw [List.cons_append] at h
      cases h with
      | symbol hfound hrest =>
          obtain ⟨rest', rfl, hscanned⟩ := ih hrest
          use rest', rfl
          simpa [Piece.source] using hscanned
      | span hne hfound hrest =>
          obtain ⟨rest', rfl, hscanned⟩ := ih hrest
          use rest'
          constructor
          · rw [List.flatMap_cons, List.append_assoc]
            rfl
          · simpa [Piece.source] using hscanned

/-- A place of a text is in a span, or nothing is found there. -/
theorem Scanned.at_place {before rest : List α} {pieces : List (Piece α β)}
    (h : Scanned found before rest pieces) {place : ℕ} (hplace : place < rest.length) :
  (∃ others text label others', pieces = others ++ .span text label :: others'
      ∧ (others.flatMap Piece.source).length ≤ place
      ∧ place < (others.flatMap Piece.source).length + text.length) ∨
    found ((rest.take place).reverse ++ before) (rest.drop place) = none
  := by
  induction h generalizing place with
  | nil => cases hplace
  | @symbol before rest a pieces hfound hrest ih =>
      cases place with
      | zero => exact Or.inr hfound
      | succ place =>
          rcases ih (Nat.lt_of_succ_lt_succ hplace) with
            ⟨others, text, label, others', rfl, hfrom, hto⟩ | hnone
          · left
            use .symbol a :: others, text, label, others', rfl
            simp only [List.flatMap_cons, Piece.source, List.length_append, List.length_singleton]
            omega
          · right
            simpa using hnone
  | @span before text rest label pieces hne hfound hrest ih =>
      rcases Nat.lt_or_ge place text.length with hin | hafter
      · left
        use [], text, label, pieces, rfl
        simpa using hin
      · rw [List.length_append] at hplace
        rcases ih (show place - text.length < rest.length by omega) with
          ⟨others, text', label', others', rfl, hfrom, hto⟩ | hnone
        · left
          use .span text label :: others, text', label', others', rfl
          simp only [List.flatMap_cons, Piece.source, List.length_append]
          omega
        · right
          rw [List.take_append, List.drop_append, List.take_of_length_le hafter,
            List.drop_of_length_le hafter]
          simpa using hnone

variable (found)

/-- The pieces of the text after a place, where the first symbols are to be passed over. -/
def scan : List α → List α → ℕ → List (Piece α β)
  | _, [], _ => []
  | before, a :: rest, skip + 1 => scan (a :: before) rest skip
  | before, a :: rest, 0 =>
      match found before (a :: rest) with
      | some (length, label) =>
          .span ((a :: rest).take length) label :: scan (a :: before) rest (length - 1)
      | none => .symbol a :: scan (a :: before) rest 0

/-- What is found is some of the text. -/
structure Fits : Prop where
  pos : ∀ {before rest length label}, found before rest = some (length, label) → 0 < length
  le : ∀ {before rest length label}, found before rest = some (length, label) →
    length ≤ rest.length

theorem scan_skip (before text rest : List α) :
  scan found before (text ++ rest) text.length = scan found (text.reverse ++ before) rest 0
  := by
  induction text generalizing before with
  | nil => rfl
  | cons a text ih =>
      rw [List.cons_append, List.length_cons, scan, ih]
      simp

variable {found}

/-- There is only one way to cut a text into pieces. -/
theorem Scanned.eq_scan {before rest : List α} {pieces : List (Piece α β)}
    (h : Scanned found before rest pieces) :
  pieces = scan found before rest 0
  := by
  induction h with
  | nil => rw [scan]
  | symbol hfound hrest ih => rw [scan, hfound, ih]
  | @span before text rest label pieces hne hfound hrest ih =>
      rcases text with _ | ⟨a, text⟩
      · exact absurd rfl hne
      · rw [List.cons_append] at hfound ⊢
        rw [scan, hfound, ih]
        simp [scan_skip]

/-- Every text is cut into pieces. -/
theorem scanned_scan (hfits : Fits found) (before rest : List α) :
  Scanned found before rest (scan found before rest 0)
  := by
  induction hlength : rest.length using Nat.strongRecOn generalizing before rest with
  | _ length ih =>
      rcases rest with _ | ⟨a, rest⟩
      · rw [scan]
        exact .nil before
      · rcases hfound : found before (a :: rest) with _ | ⟨n, label⟩
        · rw [scan, hfound]
          exact .symbol hfound (ih _ (by simp [← hlength]) _ _ rfl)
        · obtain ⟨m, rfl⟩ := Nat.exists_eq_add_of_lt (hfits.pos hfound)
          have hle := hfits.le hfound
          rw [Nat.zero_add] at hfound hle
          rw [List.length_cons, Nat.add_le_add_iff_right] at hle
          have htext := List.take_append_drop m rest
          have htake : (rest.take m).length = m := by
            rw [List.length_take, Nat.min_eq_left hle]
          rw [scan, hfound]
          dsimp only
          have hrest : scan found (a :: before) rest (m + 1 - 1) =
              scan found ((a :: rest.take m).reverse ++ before) (rest.drop m) 0 := by
            have hskip := scan_skip found (a :: before) (rest.take m) (rest.drop m)
            rw [htext, htake] at hskip
            simpa using hskip
          rw [hrest, List.take_succ_cons]
          have hspan : Scanned found before ((a :: rest.take m) ++ rest.drop m)
              (.span (a :: rest.take m) label ::
                scan found ((a :: rest.take m).reverse ++ before) (rest.drop m) 0) := by
            apply Scanned.span (List.cons_ne_nil a _)
            · rw [List.cons_append, htext, List.length_cons, htake]
              exact hfound
            · apply ih (rest.drop m).length _ _ _ rfl
              rw [← hlength, List.length_drop, List.length_cons]
              omega
          rw [List.cons_append, htext] at hspan
          exact hspan

end Scanning
