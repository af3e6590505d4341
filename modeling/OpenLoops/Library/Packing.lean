import Mathlib.Data.List.Basic
import Mathlib.Data.List.Infix
import Mathlib.Tactic.Common

/-!
# Packing

Texts are packed to pieces greedily: a piece takes the next text, with a separator between, unless
it would be longer than the limit, and when there is no room for another piece the rest is left out.
A piece that is longer than the limit is a single text.
-/

namespace Packing

/-- What stands between the texts of a piece, how long a piece gets, and whether there is room for
one more piece after a number of them. -/
structure Packer where
  separator : List Char
  limit : ℕ
  room : ℕ → Bool

variable (p : Packer)

/-- The piece with one more text, and its length. -/
def add (current : List Char) (currentLen : ℕ) (item : List Char) : List Char × ℕ :=
  if current = [] then (item, currentLen + item.length)
  else (current ++ p.separator ++ item, currentLen + p.separator.length + item.length)

/-- Pack texts, after the pieces and the unfinished piece there are so far. -/
def packFrom (pieces : List (List Char)) (current : List Char) (currentLen : ℕ) :
    List (List Char) → List (List Char)
  | [] => if current ≠ [] ∧ p.room pieces.length then pieces ++ [current] else pieces
  | item :: items =>
      let separatorLen := if current = [] then 0 else p.separator.length
      if current ≠ [] ∧ p.limit < currentLen + separatorLen + item.length then
        if p.room (pieces.length + 1) then
          let (next, nextLen) := add p [] 0 item
          packFrom (pieces ++ [current]) next nextLen items
        else pieces ++ [current]
      else
        let (next, nextLen) := add p current currentLen item
        packFrom pieces next nextLen items

/-- The pieces of texts. -/
def pack (items : List (List Char)) : List (List Char) :=
  packFrom p [] [] 0 items

/-- The texts of a piece, which is within the limit or a single longer text. -/
structure IsPiece (group : List (List Char)) : Prop where
  starts : ∀ item, group.head? = some item → item ≠ []
  sized : (p.separator.intercalate group).length ≤ p.limit
    ∨ ∃ item, group = [item] ∧ p.limit < item.length

variable {p}

theorem add_nil (item : List Char) :
  add p [] 0 item = (item, item.length)
  := by rw [add, if_pos rfl, Nat.zero_add]

theorem add_of_ne_nil {current : List Char} (h : current ≠ []) (currentLen : ℕ)
    (item : List Char) :
  add p current currentLen item
    = (current ++ p.separator ++ item, currentLen + p.separator.length + item.length)
  := if_neg h

theorem IsPiece.nil :
  IsPiece p []
  := ⟨nofun, Or.inl (Nat.zero_le _)⟩

/-- The first text of a piece is not empty, so the piece is not. -/
theorem IsPiece.intercalate_eq_nil_iff {group : List (List Char)} (h : IsPiece p group) :
  p.separator.intercalate group = [] ↔ group = []
  := by
  constructor
  · intro hnil
    cases group with
    | nil => rfl
    | cons item others =>
        cases others with
        | nil =>
            rw [List.intercalate_singleton] at hnil
            exact absurd hnil (h.starts item rfl)
        | cons next others =>
            rw [List.intercalate_cons_cons, List.append_assoc, List.append_eq_nil_iff] at hnil
            exact absurd hnil.1 (h.starts item rfl)
  · rintro rfl
    rfl

theorem intercalate_append {separator : List Char} {above below : List (List Char)} (h : above ≠ [])
    (h' : below ≠ []) :
  separator.intercalate (above ++ below)
    = separator.intercalate above ++ separator ++ separator.intercalate below
  := by
  induction above with
  | nil => exact absurd rfl h
  | cons first others ih =>
      rw [List.cons_append, List.intercalate_cons_of_ne_nil (by simp [h'])]
      rcases eq_or_ne others [] with rfl | hne
      · rw [List.nil_append, List.intercalate_singleton]
      · rw [ih hne, List.intercalate_cons_of_ne_nil hne]
        simp only [List.append_assoc]

theorem intercalate_concat {separator : List Char} {group : List (List Char)} (h : group ≠ [])
    (item : List Char) :
  separator.intercalate (group ++ [item]) = separator.intercalate group ++ separator ++ item
  := by rw [intercalate_append h (List.cons_ne_nil _ _), List.intercalate_singleton]

/-- Groups are joined as their texts are. -/
theorem intercalate_map_intercalate {separator : List Char} {groups : List (List (List Char))}
    (h : [] ∉ groups) :
  separator.intercalate (groups.map separator.intercalate) = separator.intercalate groups.flatten
  := by
  induction groups with
  | nil => rfl
  | cons group groups ih =>
      rw [List.mem_cons, not_or] at h
      rcases eq_or_ne groups [] with rfl | hne
      · rw [List.map_singleton, List.intercalate_singleton, List.flatten_singleton]
      · have hflatten : groups.flatten ≠ [] := by
          obtain ⟨next, others, rfl⟩ := List.exists_cons_of_ne_nil hne
          rw [List.mem_cons, not_or] at h
          rw [List.flatten_cons, Ne, List.append_eq_nil_iff, not_and]
          exact fun hnil => absurd hnil.symm h.2.1
        rw [List.map_cons, List.intercalate_cons_of_ne_nil (by simpa using hne), ih h.2,
          List.flatten_cons, intercalate_append (Ne.symm h.1) hflatten]

/-- What is joined is of the texts, or of what is between them. -/
theorem mem_intercalate {separator : List Char} {texts : List (List Char)} {c : Char}
    (h : c ∈ separator.intercalate texts) :
  c ∈ separator ∨ ∃ text ∈ texts, c ∈ text
  := by
  induction texts with
  | nil => cases h
  | cons text texts ih =>
      rcases eq_or_ne texts [] with rfl | hne
      · rw [List.intercalate_singleton] at h
        exact Or.inr ⟨text, List.mem_cons_self, h⟩
      · rw [List.intercalate_cons_of_ne_nil hne, List.mem_append, List.mem_append] at h
        rcases h with (h | h) | h
        · exact Or.inr ⟨text, List.mem_cons_self, h⟩
        · exact Or.inl h
        · apply (ih h).imp_right
          rintro ⟨text', htext', hc⟩
          exact ⟨text', List.mem_cons_of_mem _ htext', hc⟩

variable (p)

/-- Groups of texts are the pieces of the texts, after a number of pieces: texts are left out when
there is no room for more, and empty ones where a piece would start with them. -/
structure IsPacked (count : ℕ) (items : List (List Char)) (groups : List (List (List Char))) :
    Prop where
  taken : ∃ taken rest, items = taken ++ rest ∧ groups.flatten.Sublist taken
    ∧ groups.flatten.filter (· ≠ []) = taken.filter (· ≠ [])
    ∧ (rest = [] ∨ p.room (count + groups.length) = false)
  pieces : ∀ group ∈ groups, group ≠ [] ∧ IsPiece p group
  room : ∀ n < groups.length, p.room (count + n) = true

variable {p}

/-- A piece that is finished comes before the pieces of the rest. -/
theorem IsPacked.cons {count : ℕ} {group items : List (List Char)} {groups : List (List (List Char))}
    (h : IsPacked p (count + 1) items groups) (hne : group ≠ []) (hgroup : IsPiece p group)
    (hroom : p.room count = true) :
  IsPacked p count (group ++ items) (group :: groups)
  := by
  obtain ⟨taken, rest, rfl, hsublist, hfilter, hrest⟩ := h.taken
  refine ⟨⟨group ++ taken, rest, by rw [List.append_assoc], ?_, ?_, ?_⟩, ?_, ?_⟩
  · rw [List.flatten_cons]
    apply hsublist.append_left
  · rw [List.flatten_cons, List.filter_append, List.filter_append, hfilter]
  · rw [List.length_cons, Nat.add_comm groups.length, ← Nat.add_assoc]
    exact hrest
  · exact List.forall_mem_cons.mpr ⟨⟨hne, hgroup⟩, h.pieces⟩
  · intro n hn
    cases n with
    | zero => exact hroom
    | succ n =>
        have := h.room n (Nat.lt_of_succ_lt_succ hn)
        rwa [Nat.add_assoc, Nat.add_comm 1] at this

/-- The last piece, when there is room for no other or nothing is left. -/
theorem IsPacked.last {count : ℕ} {group items : List (List Char)} (hne : group ≠ [])
    (hgroup : IsPiece p group) (hroom : p.room count = true)
    (hrest : items = [] ∨ p.room (count + 1) = false) :
  IsPacked p count (group ++ items) [group]
  := by
  refine ⟨⟨group, items, rfl, ?_, ?_, hrest⟩, ?_, ?_⟩
  · rw [List.flatten_singleton]
  · rw [List.flatten_singleton]
  · exact List.forall_mem_singleton.mpr ⟨hne, hgroup⟩
  · intro n hn
    rw [List.length_singleton, Nat.lt_one_iff] at hn
    rwa [hn, Nat.add_zero]

/-- An empty text is not taken at the start of a piece. -/
theorem IsPacked.cons_nil {count : ℕ} {items : List (List Char)} {groups : List (List (List Char))}
    (h : IsPacked p count items groups) :
  IsPacked p count ([] :: items) groups
  := by
  obtain ⟨taken, rest, rfl, hsublist, hfilter, hrest⟩ := h.taken
  refine ⟨⟨[] :: taken, rest, rfl, hsublist.cons _, ?_, hrest⟩, h.pieces, h.room⟩
  rw [hfilter]
  rfl

/-- An unfinished piece with one more text is one, when it stays within the limit. -/
theorem IsPiece.concat {group : List (List Char)} {item : List Char} (h : IsPiece p group)
    (hne : group ≠ [])
    (hfits : (p.separator.intercalate group).length + p.separator.length + item.length ≤ p.limit) :
  IsPiece p (group ++ [item])
  := by
  refine ⟨?_, Or.inl ?_⟩
  · rw [List.head?_append_of_ne_nil _ hne]
    exact h.starts
  · rw [intercalate_concat hne, List.length_append, List.length_append]
    exact hfits

theorem IsPiece.singleton {item : List Char} (h : item ≠ []) :
  IsPiece p [item]
  := by
  refine ⟨?_, ?_⟩
  · rintro _ ⟨⟩
    exact h
  · rw [List.intercalate_singleton]
    rcases Nat.lt_or_ge p.limit item.length with hlt | hle
    · exact Or.inr ⟨item, rfl, hlt⟩
    · exact Or.inl hle

/-- Packing after pieces and an unfinished piece. -/
theorem exists_isPacked_packFrom {pieces group : List (List Char)} (items : List (List Char))
    (hgroup : IsPiece p group) (hroom : p.room pieces.length = true) :
  ∃ groups, IsPacked p pieces.length (group ++ items) groups
    ∧ packFrom p pieces (p.separator.intercalate group) (p.separator.intercalate group).length items
      = pieces ++ groups.map p.separator.intercalate
  := by
  induction items generalizing pieces group with
  | nil =>
      rw [packFrom]
      rcases eq_or_ne group [] with rfl | hne
      · refine ⟨[], ⟨⟨[], [], rfl, List.Sublist.refl _, rfl, Or.inl rfl⟩, nofun, nofun⟩, ?_⟩
        rw [if_neg fun h => h.1 rfl]
        simp
      · refine ⟨[group], IsPacked.last hne hgroup hroom (Or.inl rfl), ?_⟩
        rw [if_pos ⟨fun h => hne (hgroup.intercalate_eq_nil_iff.mp h), hroom⟩]
        rfl
  | cons item items ih =>
      rw [packFrom]
      dsimp only
      -- a new piece is started with the text, or is still to be started when the text is empty
      have hstart : ∀ pieces : List (List Char), p.room pieces.length = true →
          ∃ groups, IsPacked p pieces.length (item :: items) groups
            ∧ packFrom p pieces item item.length items
              = pieces ++ groups.map p.separator.intercalate := by
        intro pieces hroom
        rcases eq_or_ne item [] with rfl | hitem
        · obtain ⟨groups, hpacked, heq⟩ := ih IsPiece.nil hroom
          exact ⟨groups, hpacked.cons_nil, heq⟩
        · obtain ⟨groups, hpacked, heq⟩ := ih (IsPiece.singleton hitem) hroom
          rw [List.intercalate_singleton] at heq
          exact ⟨groups, hpacked, heq⟩
      rcases eq_or_ne group [] with rfl | hne
      · rw [List.intercalate_nil, if_neg fun h => h.1 rfl, List.length_nil, add_nil]
        apply hstart pieces hroom
      · have hcurrent : p.separator.intercalate group ≠ [] :=
          fun h => hne (hgroup.intercalate_eq_nil_iff.mp h)
        rw [if_neg hcurrent, add_nil, add_of_ne_nil hcurrent]
        split_ifs with hfull hnext
        · obtain ⟨groups, hpacked, heq⟩ := hstart (pieces ++ [p.separator.intercalate group]) (by
            rwa [List.length_append])
          rw [List.length_append] at hpacked
          refine ⟨group :: groups, hpacked.cons hne hgroup hroom, ?_⟩
          rw [heq, List.append_assoc]
          rfl
        · refine ⟨[group], IsPacked.last hne hgroup hroom (Or.inr ?_), rfl⟩
          rwa [← Bool.not_eq_true]
        · have hfits := Nat.le_of_not_lt (not_and.mp hfull hcurrent)
          obtain ⟨groups, hpacked, heq⟩ := ih (hgroup.concat hne hfits) hroom
          rw [List.append_assoc, List.singleton_append] at hpacked
          refine ⟨groups, hpacked, ?_⟩
          rw [← heq, intercalate_concat hne, List.length_append, List.length_append]

/-- The pieces of texts are groups of the texts. -/
theorem exists_isPacked_pack (items : List (List Char)) (hroom : p.room 0 = true) :
  ∃ groups, IsPacked p 0 items groups ∧ pack p items = groups.map p.separator.intercalate
  := @exists_isPacked_packFrom p [] [] items IsPiece.nil hroom

/-- Of texts that are not empty the pieces are the texts that are taken. -/
theorem IsPacked.flatten_eq {count : ℕ} {items : List (List Char)}
    {groups : List (List (List Char))} (h : IsPacked p count items groups) (hne : [] ∉ items) :
  ∃ rest, items = groups.flatten ++ rest ∧ (rest = [] ∨ p.room (count + groups.length) = false)
  := by
  obtain ⟨taken, rest, rfl, hsublist, hfilter, hrest⟩ := h.taken
  have hself : ∀ texts : List (List Char), [] ∉ texts → texts.filter (· ≠ []) = texts := by
    intro texts htexts
    rw [List.filter_eq_self]
    intro text htext
    rw [decide_eq_true_iff]
    rintro rfl
    exact htexts htext
  have htaken : [] ∉ taken := fun hmem => hne (List.mem_append_left _ hmem)
  rw [hself _ htaken, hself _ fun hmem => htaken (hsublist.mem hmem)] at hfilter
  exact ⟨rest, by rw [hfilter], hrest⟩

end Packing
