import OpenLoops.Library.KeyOrder
import Mathlib.Data.Prod.Lex
import Mathlib.Order.OrderDual

/-!
# Selection of occurrences

Occurrences are stretches of places.  Those that start first come first, and of these the longest
one; an occurrence is selected when none of its places is taken.  What is selected are the leftmost
longest occurrences.
-/

namespace Selection

variable {α : Type*} (start stop : α → ℕ)

/-- Earlier occurrences come first, and of those that start together the longest one. -/
def order (a : α) : ℕ ×ₗ ℕᵒᵈ :=
  toLex (start a, OrderDual.toDual (stop a))

theorem order_le_iff {a b : α} :
  order start stop a ≤ order start stop b ↔
    start a < start b ∨ start a = start b ∧ stop b ≤ stop a
  := by
  rw [order, order, Prod.Lex.toLex_le_toLex, OrderDual.toDual_le_toDual]

/-- Some place is in both of the occurrences. -/
def Overlap (a b : α) : Prop :=
  start a < stop b ∧ start b < stop a

instance : DecidableRel (Overlap start stop) :=
  fun a b => inferInstanceAs (Decidable (start a < stop b ∧ start b < stop a))

/-- An occurrence is selected unless it overlaps with one that is selected before. -/
def select (selected : List α) (a : α) : List α :=
  if ∃ b ∈ selected, Overlap start stop b a then selected else selected ++ [a]

/-- The leftmost longest occurrences, in their order.  They do not overlap; each occurrence starts
within one that is selected; and none that starts with a selected one is longer. -/
structure LeftmostLongest (occurs : α → Prop) (selected : List α) : Prop where
  present : ∀ a ∈ selected, occurs a
  ordered : selected.Pairwise fun a b => stop a ≤ start b
  covers : ∀ a, occurs a → ∃ b ∈ selected, start b ≤ start a ∧ start a < stop b
  longest : ∀ b ∈ selected, ∀ a, occurs a → start a = start b → stop a ≤ stop b

variable {start stop}

/-- One more occurrence is selected rightly, when it comes after all so far. -/
theorem LeftmostLongest.select {seen : α → Prop} {selected : List α}
    (h : LeftmostLongest start stop seen selected) {a : α} (ha : start a < stop a)
    (horder : ∀ b, seen b → order start stop b ≤ order start stop a)
    (hseen : ∀ b, seen b → start b < stop b) :
  LeftmostLongest start stop (fun b => seen b ∨ b = a) (Selection.select start stop selected a)
  := by
  -- what is selected so far starts no later
  have hstart : ∀ b, seen b → start b ≤ start a := by
    intro b hb
    rcases (order_le_iff start stop).mp (horder b hb) with hlt | ⟨heq, -⟩
    · exact hlt.le
    · exact heq.le
  rw [Selection.select]
  split_ifs with htaken
  · obtain ⟨b, hb, hoverlap⟩ := htaken
    constructor
    · intro b hb
      exact Or.inl (h.present b hb)
    · exact h.ordered
    · rintro c (hc | rfl)
      · exact h.covers c hc
      · exact ⟨b, hb, hstart b (h.present b hb), hoverlap.2⟩
    · rintro b hb c (hc | rfl) hsame
      · exact h.longest b hb c hc hsame
      · rcases (order_le_iff start stop).mp (horder b (h.present b hb)) with hlt | ⟨-, hle⟩
        · omega
        · exact hle
  · have hbefore : ∀ b ∈ selected, stop b ≤ start a := by
      intro b hb
      by_contra hlt
      apply htaken
      refine ⟨b, hb, ?_, Nat.not_le.mp hlt⟩
      exact lt_of_le_of_lt (hstart b (h.present b hb)) ha
    constructor
    · intro b hb
      rcases List.mem_append.mp hb with hb | hb
      · exact Or.inl (h.present b hb)
      · exact Or.inr (List.mem_singleton.mp hb)
    · rw [List.pairwise_append]
      refine ⟨h.ordered, List.pairwise_singleton _ _, ?_⟩
      intro b hb c hc
      rw [List.mem_singleton.mp hc]
      exact hbefore b hb
    · rintro c (hc | rfl)
      · obtain ⟨b, hb, hle, hlt⟩ := h.covers c hc
        exact ⟨b, List.mem_append_left _ hb, hle, hlt⟩
      · exact ⟨c, List.mem_append_right _ (List.mem_singleton_self c), le_rfl, ha⟩
    · intro b hb c hc hsame
      rcases List.mem_append.mp hb with hin | hin
      · rcases hc with hc | rfl
        · exact h.longest b hin c hc hsame
        · -- the one before stops before this one starts
          have := hbefore b hin
          have := hseen b (h.present b hin)
          omega
      · obtain rfl := List.mem_singleton.mp hin
        rcases hc with hc | rfl
        · obtain ⟨d, hd, hle, hlt⟩ := h.covers c hc
          have := hbefore d hd
          omega
        · exact le_rfl

/-- The occurrences are selected rightly when they are looked at in their order. -/
theorem leftmostLongest_foldl {occurrences : List α}
    (hpos : ∀ a ∈ occurrences, start a < stop a) :
  LeftmostLongest start stop (· ∈ occurrences)
    ((KeyOrder.sort (order start stop) occurrences).foldl (select start stop) [])
  := by
  set sorted := KeyOrder.sort (order start stop) occurrences with hsorted
  have hperm : sorted.Perm occurrences := KeyOrder.sort_perm _ _
  have hmem : (· ∈ occurrences) = (· ∈ sorted) := by
    funext a
    rw [hperm.mem_iff]
  rw [hmem]
  have horder : sorted.Pairwise fun a b => order start stop a ≤ order start stop b :=
    List.pairwise_map.mp (KeyOrder.sortedLE_map_sort (order start stop) occurrences).pairwise
  have hpos' : ∀ a ∈ sorted, start a < stop a := by
    intro a ha
    exact hpos a (hperm.mem_iff.mp ha)
  clear hmem hsorted hperm hpos
  clear_value sorted
  induction sorted using List.reverseRecOn with
  | nil =>
      constructor
      · nofun
      · exact List.Pairwise.nil
      · nofun
      · nofun
  | append_singleton sorted a ih =>
      rw [List.pairwise_append] at horder
      obtain ⟨hbefore, -, hlast⟩ := horder
      have hselected := ih hbefore fun b hb => hpos' b (List.mem_append_left _ hb)
      rw [List.foldl_append]
      have hmem : (· ∈ sorted ++ [a]) = fun b => b ∈ sorted ∨ b = a := by
        funext b
        rw [List.mem_append, List.mem_singleton]
      rw [hmem]
      apply hselected.select
      · apply hpos' a (List.mem_append_right _ (List.mem_singleton_self a))
      · intro b hb
        exact hlast b hb a (List.mem_singleton_self a)
      · intro b hb
        exact hpos' b (List.mem_append_left _ hb)

end Selection
