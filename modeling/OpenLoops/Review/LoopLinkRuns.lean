import Mathlib.Data.Set.Finite.Lemmas
import OpenLoops.Desktop.LoopStateRuns
import OpenLoops.Review.LoopLinks

/-!
# What links between loops do

The cards that are linked fall into groups.  Of each group the earliest item is left, with the
others as its mentions; an item that is alone is left as it is.
-/

namespace Review

open Desktop (LoopKey)

/-! ### Mentions -/

theorem places_eq_append {item : LoopItem} (added : List Mention) (text : Option String) :
  LoopItem.places { item with mentions := item.mentions ++ added, handoffText := text }
    = item.places ++ added.map Mention.place
  := by
  show item.place :: (item.mentions ++ added).map Mention.place = _
  rw [List.map_append]
  rfl

/-- The item has got those of the mentions whose places it did not have. -/
structure Mentioned (item : LoopItem) (mentions added : List Mention) : Prop where
  sublist : added.Sublist mentions
  covers : ∀ m ∈ mentions, m.place ∈ item.places ++ added.map Mention.place
  nodup : (added.map Mention.place).Nodup
  fresh : ∀ m ∈ added, m.place ∉ item.places

namespace Mentioned

variable {item : LoopItem}

theorem nil (item : LoopItem) :
  Mentioned item [] []
  := ⟨.slnil, nofun, List.nodup_nil, nofun⟩

/-- To get some mentions and then others is to get all of them. -/
theorem append {mentions mentions' added added' : List Mention} {text : Option String}
    (h : Mentioned item mentions added)
    (h' : Mentioned { item with mentions := item.mentions ++ added, handoffText := text }
      mentions' added') :
  Mentioned item (mentions ++ mentions') (added ++ added')
  := by
  have hplaces := @places_eq_append item added text
  constructor
  · exact h.sublist.append h'.sublist
  · intro m hm
    rw [List.map_append, ← List.append_assoc]
    rcases List.mem_append.mp hm with hm | hm
    · exact List.mem_append_left _ (h.covers m hm)
    · have hcovers := h'.covers m hm
      rwa [hplaces] at hcovers
  · rw [List.map_append]
    apply List.Nodup.append h.nodup h'.nodup
    intro place hadded hadded'
    obtain ⟨m, hm, rfl⟩ := List.mem_map.mp hadded'
    apply h'.fresh m hm
    rw [hplaces]
    exact List.mem_append_right _ hadded
  · intro m hm
    rcases List.mem_append.mp hm with hm | hm
    · exact h.fresh m hm
    · have hfresh := h'.fresh m hm
      rw [hplaces, List.mem_append, not_or] at hfresh
      exact hfresh.1

/-- A mention is got unless the item has its place. -/
theorem mention (item : LoopItem) (mention : Mention) :
  ∃ added, item.mention mention = { item with mentions := item.mentions ++ added }
    ∧ Mentioned item [mention] added
  := by
  have hplace : (mention.place ≠ item.place
      && !item.mentions.any fun existing => existing.place = mention.place) = true ↔
        mention.place ∉ item.places := by
    rw [LoopItem.places, List.mem_cons, not_or, Bool.and_eq_true]
    simp
  rw [LoopItem.mention]
  split_ifs with h
  · use [mention], rfl
    have hnot := hplace.mp h
    constructor
    · exact .refl _
    · intro m hm
      rw [List.mem_singleton.mp hm]
      exact List.mem_append_right _ (List.mem_singleton_self _)
    · exact List.nodup_singleton _
    · intro m hm
      rwa [List.mem_singleton.mp hm]
  · use []
    constructor
    · rw [List.append_nil]
    · constructor
      · exact List.nil_sublist _
      · intro m hm
        rw [List.mem_singleton.mp hm, List.map_nil, List.append_nil]
        exact not_not.mp (mt hplace.mpr h)
      · exact List.nodup_nil
      · nofun

/-- Mentions are got one after the other. -/
theorem foldl_mention (mentions : List Mention) (item : LoopItem) :
  ∃ added, mentions.foldl LoopItem.mention item = { item with mentions := item.mentions ++ added }
    ∧ Mentioned item mentions added
  := by
  induction mentions generalizing item with
  | nil =>
      use []
      rw [List.append_nil]
      exact ⟨rfl, nil item⟩
  | cons m mentions ih =>
      obtain ⟨added, hitem, hadded⟩ := mention item m
      obtain ⟨added', hitem', hadded'⟩ := ih (item.mention m)
      use added ++ added'
      rw [hitem] at hadded'
      rw [List.foldl_cons, hitem', hitem, List.append_assoc]
      exact ⟨rfl, hadded.append hadded'⟩

end Mentioned

/-- Other items have become mentions of an item. -/
structure Folded (item : LoopItem) (members : List (LoopItem × ℤ)) (added : List Mention)
    (folded : LoopItem) : Prop where
  eq : folded = { item with
    mentions := item.mentions ++ added
    handoffText := (item :: members.map Prod.fst).findSome? LoopItem.handoffText }
  mentioned : Mentioned item
    (members.flatMap fun member => member.1.asMentions .ownerLink member.2) added

namespace Folded

variable {item folded folded' : LoopItem} {members members' : List (LoopItem × ℤ)}
  {added added' : List Mention}

theorem findSome?_handoffText (item : LoopItem) (items : List LoopItem) :
  (item :: items).findSome? LoopItem.handoffText
    = item.handoffText.or (items.findSome? LoopItem.handoffText)
  := by
  rw [List.findSome?_cons]
  cases item.handoffText <;> rfl

theorem nil (item : LoopItem) :
  Folded item [] [] item
  := by
  constructor
  · rw [List.append_nil, List.map_nil, findSome?_handoffText, List.findSome?_nil, Option.or_none]
  · exact Mentioned.nil item

/-- An item is left as it is when none is folded into it. -/
theorem eq_of_nil (h : Folded item [] added folded) :
  folded = item
  := by
  rw [h.eq, List.sublist_nil.mp h.mentioned.sublist, List.append_nil, List.map_nil,
    findSome?_handoffText, List.findSome?_nil, Option.or_none]

/-- To fold some items and then others is to fold all of them. -/
theorem append (h : Folded item members added folded) (h' : Folded folded members' added' folded') :
  Folded item (members ++ members') (added ++ added') folded'
  := by
  obtain ⟨rfl, hmentioned⟩ := h
  obtain ⟨rfl, hmentioned'⟩ := h'
  constructor
  · have htext : ∀ item' : LoopItem,
        item'.handoffText = (item :: members.map Prod.fst).findSome? LoopItem.handoffText →
        (item' :: members'.map Prod.fst).findSome? LoopItem.handoffText
          = (item :: (members ++ members').map Prod.fst).findSome? LoopItem.handoffText := by
      intro item' hitem'
      rw [findSome?_handoffText, hitem', List.map_append, ← List.cons_append,
        List.findSome?_append]
    rw [htext _ rfl, List.append_assoc]
  · rw [List.flatMap_append]
    exact hmentioned.append hmentioned'

/-- One item is folded. -/
theorem foldInto (survivor dropped : LoopItem) (timestamp : ℤ) :
  ∃ added, Folded survivor [(dropped, timestamp)] added
    (Review.foldInto survivor dropped .ownerLink timestamp)
  := by
  obtain ⟨added, hitem, hadded⟩ :=
    Mentioned.foldl_mention (dropped.asMentions .ownerLink timestamp) survivor
  use added
  constructor
  · rw [Review.foldInto, hitem]
    dsimp only
    rw [List.map_singleton, findSome?_handoffText, List.findSome?_singleton]
    split_ifs with hnone
    · rw [hnone, Option.none_or]
    · rcases htext : survivor.handoffText with _ | text
      · exact absurd htext hnone
      · rw [Option.some_or, ← htext]
  · rw [List.flatMap_singleton]
    exact hadded

/-- Items are folded one after the other. -/
theorem foldl_foldInto (members : List (LoopItem × ℤ)) (item : LoopItem) :
  ∃ added, Folded item members added
    (members.foldl (fun item member => Review.foldInto item member.1 .ownerLink member.2) item)
  := by
  induction members generalizing item with
  | nil => exact ⟨[], nil item⟩
  | cons member members ih =>
      obtain ⟨added, hadded⟩ := foldInto item member.1 member.2
      obtain ⟨added', hadded'⟩ := ih (Review.foldInto item member.1 .ownerLink member.2)
      exact ⟨added ++ added', hadded.append hadded'⟩

/-- No place is twice in an item with others folded into it exactly when none was before. -/
theorem nodup_places_iff (h : Folded item members added folded) :
  folded.places.Nodup ↔ item.places.Nodup
  := by
  rw [h.eq, places_eq_append, List.nodup_append]
  constructor
  · exact fun hnodup => hnodup.1
  · intro hnodup
    use hnodup, h.mentioned.nodup
    rintro place hplace _ hadded rfl
    obtain ⟨m, hm, rfl⟩ := List.mem_map.mp hadded
    exact h.mentioned.fresh m hm hplace

end Folded

/-! ### Groups -/

/-- What is made of one entry only is made of all entries when the others make nothing. -/
theorem flatMap_eq_of_mem {α β : Type*} {l : List α} {make : α → List β} {a : α} (hl : l.Nodup)
    (ha : a ∈ l) (h : ∀ b ∈ l, b ≠ a → make b = []) :
  l.flatMap make = make a
  := by
  obtain ⟨before, after, rfl⟩ := List.append_of_mem ha
  have hnot : a ∉ before ++ after := (List.nodup_middle.mp hl).notMem
  have hnil : ∀ part : List α, part ⊆ before ++ after → part.flatMap make = [] := by
    intro part hpart
    apply List.flatMap_eq_nil_iff.mpr
    intro b hb
    apply h b
    · have hmem := List.mem_append.mp (hpart hb)
      exact List.mem_append.mpr (hmem.imp id (List.mem_cons_of_mem a))
    · rintro rfl
      exact hnot (hpart hb)
  rw [List.flatMap_append, List.flatMap_cons, hnil before (List.subset_append_left _ _),
    hnil after (List.subset_append_right _ _), List.append_nil, List.nil_append]

section

variable {n : ℕ} (timestamps : Fin n → ℤ)

/-- The order in which items are earlier than others. -/
def foldOrder (i : Fin n) : ℤ ×ₗ Fin n :=
  toLex (timestamps i, i)

/-- No item that is related to this one is earlier. -/
def Earliest (related : Fin n → Fin n → Prop) (i : Fin n) : Prop :=
  ∀ j, related i j → foldOrder timestamps i ≤ foldOrder timestamps j

theorem eq_of_foldOrder_eq {i j : Fin n} (h : foldOrder timestamps i = foldOrder timestamps j) :
  i = j
  := congrArg (fun order => (ofLex order).2) h

/-- Of the items that are related to one there is an earliest one. -/
theorem exists_earliest {related : Fin n → Fin n → Prop} (h : Equivalence related)
    (timestamps : Fin n → ℤ) (i : Fin n) :
  ∃ j, related i j ∧ Earliest timestamps related j
  := by
  obtain ⟨j, hij, hj⟩ := Set.exists_min_image {j | related i j} (foldOrder timestamps)
    (Set.toFinite _) ⟨i, h.refl i⟩
  exact ⟨j, hij, fun k hjk => hj k (h.trans hij hjk)⟩

variable (f : Pointers n)

/-- The class of an item, the earliest ones first. -/
def inOrder (i : Fin n) : List (Fin n) :=
  KeyOrder.sort (foldOrder timestamps) ((List.finRange n).filter fun j => f.top j = f.top i)

variable {timestamps f} {i j : Fin n}

theorem mem_inOrder :
  j ∈ inOrder timestamps f i ↔ f.Joined i j
  := by
  rw [inOrder, (KeyOrder.sort_perm _ _).mem_iff, List.mem_filter]
  simp [Pointers.Joined, eq_comm]

theorem pairwise_inOrder :
  (inOrder timestamps f i).Pairwise fun j k => foldOrder timestamps j < foldOrder timestamps k
  := by
  have hle := (KeyOrder.sortedLE_map_sort (foldOrder timestamps)
    ((List.finRange n).filter fun j => f.top j = f.top i)).pairwise
  have hnodup : (inOrder timestamps f i).Nodup := by
    apply (KeyOrder.sort_perm _ _).nodup_iff.mpr
    exact (List.nodup_finRange n).filter _
  apply ((List.pairwise_map.mp hle).and hnodup).imp
  rintro j k ⟨hle, hne⟩
  exact lt_of_le_of_ne hle fun heq => hne (eq_of_foldOrder_eq timestamps heq)

/-- The class of an item begins with the earliest one of it. -/
theorem exists_inOrder_eq (i : Fin n) :
  ∃ survivor rest, inOrder timestamps f i = survivor :: rest ∧ f.Joined i survivor
    ∧ Earliest timestamps f.Joined survivor ∧ survivor ∉ rest
    ∧ ∀ j, j ∈ rest ↔ j ≠ survivor ∧ f.Joined i j
  := by
  rcases hclass : inOrder timestamps f i with _ | ⟨survivor, rest⟩
  · have hmem : i ∈ inOrder timestamps f i := mem_inOrder.mpr (f.joined_equivalence.refl i)
    rw [hclass] at hmem
    cases hmem
  · have hsorted := @pairwise_inOrder n timestamps f i
    rw [hclass] at hsorted
    obtain ⟨hfirst, -⟩ := List.pairwise_cons.mp hsorted
    have hmem : ∀ j, j ∈ survivor :: rest ↔ f.Joined i j := by
      intro j
      rw [← hclass, mem_inOrder]
    have hjoined := (hmem survivor).mp List.mem_cons_self
    have hnot : survivor ∉ rest := fun hrest => lt_irrefl _ (hfirst survivor hrest)
    use survivor, rest, rfl, hjoined
    refine ⟨?_, hnot, ?_⟩
    · intro j hj
      rcases List.mem_cons.mp ((hmem j).mpr (f.joined_equivalence.trans hjoined hj)) with rfl | hrest
      · exact le_rfl
      · exact (hfirst j hrest).le
    · intro j
      rw [← hmem, List.mem_cons]
      constructor
      · intro hrest
        use fun heq => hnot (heq ▸ hrest)
        exact Or.inr hrest
      · rintro ⟨hne, heq | hrest⟩
        · exact absurd heq hne
        · exact hrest

/-- Of a class there is only one earliest item. -/
theorem Earliest.eq (hi : Earliest timestamps f.Joined i) (hj : Earliest timestamps f.Joined j)
    (h : f.Joined i j) :
  i = j
  := eq_of_foldOrder_eq timestamps (le_antisymm (hi j h) (hj i h.symm))

/-- The class of the earliest item begins with it. -/
theorem Earliest.exists_inOrder_eq (h : Earliest timestamps f.Joined i) :
  ∃ rest, inOrder timestamps f i = i :: rest ∧ ∀ j, j ∈ rest ↔ j ≠ i ∧ f.Joined i j
  := by
  obtain ⟨survivor, rest, hclass, hjoined, hearliest, -, hrest⟩ :=
    @Review.exists_inOrder_eq n timestamps f i
  obtain rfl := hearliest.eq h hjoined.symm
  exact ⟨rest, hclass, hrest⟩

/-! ### Folds -/

/-- The folds of the classes. -/
def classFolds (timestamps : Fin n → ℤ) (f : Pointers n) : List (Fin n × Fin n × ℤ) :=
  ((f.classes.rows.map Prod.snd).filter fun group => 1 < group.length).flatMap
    (ReviewState.foldsOf timestamps)

/-- A class whose order is known has the earliest one with each of the others. -/
theorem foldsOf_eq {group : List (Fin n)} {survivor : Fin n} {rest : List (Fin n)}
    (h : KeyOrder.sort (foldOrder timestamps) group = survivor :: rest) :
  ReviewState.foldsOf timestamps group
    = rest.map fun dropped => (survivor, dropped, timestamps dropped)
  := by
  have hsort : KeyOrder.sort (fun index => toLex (timestamps index, index)) group
      = survivor :: rest := h
  rw [ReviewState.foldsOf, hsort]

/-- A group of one item is not folded. -/
theorem foldsOf_of_length_le {group : List (Fin n)} (h : ¬1 < group.length) :
  ReviewState.foldsOf timestamps group = []
  := by
  have hlength := (KeyOrder.sort_perm (foldOrder timestamps) group).length_eq
  rcases hsort : KeyOrder.sort (foldOrder timestamps) group with _ | ⟨survivor, rest⟩
  · have hsort' : KeyOrder.sort (fun index => toLex (timestamps index, index)) group = [] := hsort
    rw [ReviewState.foldsOf, hsort']
  · rw [hsort, List.length_cons] at hlength
    rw [foldsOf_eq hsort, List.map_eq_nil_iff, ← List.length_eq_zero_iff]
    omega

theorem classFolds_eq :
  classFolds timestamps f
    = f.classes.rows.flatMap fun row => ReviewState.foldsOf timestamps row.2
  := by
  rw [classFolds]
  induction f.classes.rows with
  | nil => rfl
  | cons row rows ih =>
      rw [List.map_cons, List.filter_cons, List.flatMap_cons]
      split_ifs with h
      · rw [List.flatMap_cons, ih]
      · rw [foldsOf_of_length_le (by simpa using h), List.nil_append, ih]

/-- The rows of the classes. -/
theorem mem_classes {root : Fin n} {members : List (Fin n)} :
  (root, members) ∈ f.classes.rows ↔ ∃ i, f.top i = root
    ∧ members = (List.finRange n).filter fun j => f.top j = f.top i
  := by
  rw [Table.mem_rows, f.classes_eq, Table.get?_group_members]
  constructor
  · intro h
    split_ifs at h with hexists
    obtain ⟨i, -, rfl⟩ := hexists
    exact ⟨i, rfl, (Option.some.inj h).symm⟩
  · rintro ⟨i, rfl, rfl⟩
    rw [if_pos ⟨i, List.mem_finRange i, rfl⟩]

/-- Each item but the earliest one of its class is folded into that. -/
theorem mem_classFolds {fold : Fin n × Fin n × ℤ} :
  fold ∈ classFolds timestamps f ↔ Earliest timestamps f.Joined fold.1
    ∧ fold.2.1 ≠ fold.1 ∧ f.Joined fold.1 fold.2.1 ∧ fold.2.2 = timestamps fold.2.1
  := by
  rw [classFolds_eq, List.mem_flatMap]
  constructor
  · rintro ⟨⟨root, members⟩, hrow, hfold⟩
    obtain ⟨i, -, rfl⟩ := mem_classes.mp hrow
    obtain ⟨survivor, rest, hclass, hjoined, hearliest, -, hrest⟩ :=
      @exists_inOrder_eq n timestamps f i
    dsimp only at hfold
    rw [foldsOf_eq hclass] at hfold
    obtain ⟨dropped, hdropped, rfl⟩ := List.mem_map.mp hfold
    obtain ⟨hne, hsame⟩ := (hrest dropped).mp hdropped
    exact ⟨hearliest, hne, hjoined.symm.trans hsame, rfl⟩
  · obtain ⟨survivor, dropped, timestamp⟩ := fold
    dsimp only
    rintro ⟨hearliest, hne, hjoined, rfl⟩
    obtain ⟨rest, hclass, hrest⟩ := hearliest.exists_inOrder_eq
    refine ⟨_, mem_classes.mpr ⟨survivor, rfl, rfl⟩, ?_⟩
    dsimp only
    rw [foldsOf_eq hclass]
    exact List.mem_map.mpr ⟨dropped, (hrest dropped).mpr ⟨hne, hjoined⟩, rfl⟩

/-- The folds into the earliest item of a class are those of the others, the earlier ones first. -/
theorem filter_classFolds {rest : List (Fin n)} (h : Earliest timestamps f.Joined i)
    (hclass : inOrder timestamps f i = i :: rest) :
  ((classFolds timestamps f).filter fun fold => fold.1 = i)
    = rest.map fun dropped => (i, dropped, timestamps dropped)
  := by
  rw [classFolds_eq, List.filter_flatMap]
  have hrow : (f.top i, (List.finRange n).filter fun j => f.top j = f.top i) ∈ f.classes.rows :=
    mem_classes.mpr ⟨i, rfl, rfl⟩
  have hnodup : f.classes.rows.Nodup := List.Nodup.of_map _ f.classes.nodup_keys
  rw [flatMap_eq_of_mem hnodup hrow]
  · dsimp only
    rw [foldsOf_eq hclass, List.filter_map]
    congr 1
    apply List.filter_eq_self.mpr
    intro dropped _
    exact decide_eq_true rfl
  · rintro ⟨root, members⟩ hrow' hne
    obtain ⟨j, rfl, rfl⟩ := mem_classes.mp hrow'
    obtain ⟨survivor, others, hclass', hjoined, -, -, -⟩ := @exists_inOrder_eq n timestamps f j
    dsimp only
    rw [foldsOf_eq hclass']
    apply List.filter_eq_nil_iff.mpr
    intro fold hfold hsurvivor
    obtain ⟨dropped, -, rfl⟩ := List.mem_map.mp hfold
    obtain rfl := of_decide_eq_true hsurvivor
    have htop : f.top j = f.top survivor := hjoined
    apply hne
    rw [htop]

/-- Items are folded into an item one after the other, as they were. -/
theorem foldl_foldItem {folds : List (Fin n × Fin n × ℤ)} (items : Fin n → LoopItem)
    (h : ∀ fold ∈ folds, ∀ fold' ∈ folds, fold.2.1 ≠ fold'.1) (i : Fin n) :
  folds.foldl ReviewState.foldItem items i
    = ((folds.filter fun fold => fold.1 = i).map fun fold => (items fold.2.1, fold.2.2)).foldl
      (fun item member => foldInto item member.1 .ownerLink member.2) (items i)
  := by
  induction folds generalizing items with
  | nil => rfl
  | cons fold folds ih =>
      obtain ⟨survivor, dropped, timestamp⟩ := fold
      have hrest := ih (ReviewState.foldItem items (survivor, dropped, timestamp))
        fun fold hfold fold' hfold' => h fold (List.mem_cons_of_mem _ hfold) fold'
          (List.mem_cons_of_mem _ hfold')
      have hitems : (folds.filter fun fold => fold.1 = i).map (fun fold =>
          (ReviewState.foldItem items (survivor, dropped, timestamp) fold.2.1, fold.2.2))
          = (folds.filter fun fold => fold.1 = i).map fun fold => (items fold.2.1, fold.2.2) := by
        apply List.map_congr_left
        intro fold hfold
        have hne := h fold (List.mem_cons_of_mem _ (List.mem_of_mem_filter hfold)) _
          List.mem_cons_self
        rw [ReviewState.foldItem, Function.update_of_ne hne]
      rw [List.foldl_cons, hrest, hitems, List.filter_cons, ReviewState.foldItem]
      by_cases hi : survivor = i
      · subst hi
        rw [Function.update_self, if_pos (decide_eq_true rfl), List.map_cons, List.foldl_cons]
      · rw [Function.update_of_ne (Ne.symm hi), if_neg (by simpa using hi)]

/-- The items that are left are the earliest ones of the classes, in their order, each with the
others of its class folded into it. -/
theorem foldedItems_classFolds (items : Fin n → LoopItem) :
  ∃ survivors : List (Fin n), ∃ folded : Fin n → LoopItem,
    ReviewState.foldedItems items (classFolds timestamps f) = survivors.map folded
    ∧ survivors.Sublist (List.finRange n)
    ∧ (∀ i, i ∈ survivors ↔ Earliest timestamps f.Joined i)
    ∧ ∀ i ∈ survivors, ∃ members : List (Fin n), ∃ added,
      (members.Pairwise fun j k => foldOrder timestamps j < foldOrder timestamps k)
      ∧ (∀ j, j ∈ members ↔ j ≠ i ∧ f.Joined i j)
      ∧ Folded (items i) (members.map fun j => (items j, timestamps j)) added (folded i)
  := by
  have hsurvivors : ∀ i, i ∈ (List.finRange n).filter (fun index =>
      index ∉ (classFolds timestamps f).map fun fold => fold.2.1) ↔
        Earliest timestamps f.Joined i := by
    intro i
    simp only [List.mem_filter, List.mem_finRange, true_and, decide_eq_true_eq, List.mem_map,
      not_exists, not_and]
    obtain ⟨survivor, rest, -, hjoined, hearliest, -, -⟩ := @exists_inOrder_eq n timestamps f i
    constructor
    · intro hnot
      by_cases hi : i = survivor
      · exact hi ▸ hearliest
      · exact absurd rfl (hnot (survivor, i, timestamps i)
          (mem_classFolds.mpr ⟨hearliest, hi, hjoined.symm, rfl⟩))
    · rintro h ⟨s, d, t⟩ hfold rfl
      obtain ⟨hs, hne, hsd, -⟩ := mem_classFolds.mp hfold
      exact hne (hs.eq h hsd).symm
  have hdisjoint : ∀ fold ∈ classFolds timestamps f, ∀ fold' ∈ classFolds timestamps f,
      fold.2.1 ≠ fold'.1 := by
    intro fold hfold fold' hfold' heq
    obtain ⟨hs, hne, hsd, -⟩ := mem_classFolds.mp hfold
    obtain ⟨hs', -⟩ := mem_classFolds.mp hfold'
    apply hne
    rw [heq] at hsd ⊢
    exact (hs.eq hs' hsd).symm
  refine ⟨_, _, rfl, List.filter_sublist, hsurvivors, ?_⟩
  intro i hi
  have hearliest := (hsurvivors i).mp hi
  obtain ⟨rest, hclass, hrest⟩ := hearliest.exists_inOrder_eq
  have hsorted := @pairwise_inOrder n timestamps f i
  rw [hclass] at hsorted
  obtain ⟨added, hadded⟩ :=
    Folded.foldl_foldInto (rest.map fun j => (items j, timestamps j)) (items i)
  refine ⟨rest, added, (List.pairwise_cons.mp hsorted).2, hrest, ?_⟩
  rw [foldl_foldItem items hdisjoint, filter_classFolds hearliest hclass, List.map_map]
  exact hadded

end

/-! ### Linked cards -/

namespace ReviewState

section

variable (hmac : LoopKey → Bytes → LoopKey) (toLowercase : List Char → List Char)

/-- The card of an item has the key of the item. -/
theorem key_cardContext (s : ReviewState) (item : LoopItem) :
  (s.cardContext hmac toLowercase item).map (·.record.key) = s.cardKey hmac toLowercase item
  := by
  rw [cardContext, Option.map_map]
  rcases s.cardKey hmac toLowercase item with _ | key
  · rfl
  · rw [Option.map_some]
    exact congrArg some (s.decisions.get_key key)

/-- The cards of the items have different keys. -/
def KeysDistinct (s : ReviewState) (items : List LoopItem) : Prop :=
  ∀ i j key, s.cardKey hmac toLowercase (items.get i) = some key →
    s.cardKey hmac toLowercase (items.get j) = some key → i = j

/-- A saved link says that two items are about the same loop. -/
def Linked (s : ReviewState) (items : List LoopItem) (i j : Fin items.length) : Prop :=
  ∃ pair ∈ s.relations.pairs .sameLoop, s.cardKey hmac toLowercase (items.get i) = some pair.1
    ∧ s.cardKey hmac toLowercase (items.get j) = some pair.2

/-- Items are about the same loop as the saved links say, one after the other. -/
def SameLoop (s : ReviewState) (items : List LoopItem) : Fin items.length → Fin items.length → Prop :=
  Relation.EqvGen (s.Linked hmac toLowercase items)

variable {hmac toLowercase} {s : ReviewState} {items : List LoopItem}

/-- A card is found by its key when no other one has the key. -/
theorem keyToIndex_eq_some_iff (hkeys : s.KeysDistinct hmac toLowercase items) {key : LoopKey}
    {i : Fin items.length} :
  keyToIndex (fun i => s.cardContext hmac toLowercase (items.get i)) key = some i ↔
    s.cardKey hmac toLowercase (items.get i) = some key
  := by
  have hhas : ∀ i, ((s.cardContext hmac toLowercase (items.get i)).any fun card =>
      card.record.key = key) = true ↔ s.cardKey hmac toLowercase (items.get i) = some key := by
    intro i
    rw [← key_cardContext]
    rcases s.cardContext hmac toLowercase (items.get i) with _ | card
    · simp
    · simp
  rw [keyToIndex]
  constructor
  · intro h
    exact (hhas i).mp (List.mem_filter.mp (List.mem_of_getLast? h)).2
  · intro h
    have hmem : i ∈ (List.finRange items.length).filter fun i =>
        (s.cardContext hmac toLowercase (items.get i)).any fun card => card.record.key = key :=
      List.mem_filter.mpr ⟨List.mem_finRange i, (hhas i).mpr h⟩
    rcases hlast : ((List.finRange items.length).filter fun i =>
        (s.cardContext hmac toLowercase (items.get i)).any fun card =>
          card.record.key = key).getLast? with _ | j
    · rw [List.getLast?_eq_none_iff.mp hlast] at hmem
      cases hmem
    · have hj := (hhas j).mp (List.mem_filter.mp (List.mem_of_getLast? hlast)).2
      exact hlast.trans (congrArg some (hkeys j i key hj h))

/-- The cards that are linked are those of linked items. -/
theorem mem_linkedCards (hkeys : s.KeysDistinct hmac toLowercase items)
    {i j : Fin items.length} :
  (i, j) ∈ s.linkedCards (fun i => s.cardContext hmac toLowercase (items.get i)) ↔
    s.Linked hmac toLowercase items i j
  := by
  rw [linkedCards, List.mem_filterMap, Linked]
  constructor
  · rintro ⟨pair, hpair, h⟩
    obtain ⟨a, ha, h⟩ := Option.bind_eq_some_iff.mp h
    obtain ⟨b, hb, h⟩ := Option.bind_eq_some_iff.mp h
    cases h
    exact ⟨pair, hpair, (keyToIndex_eq_some_iff hkeys).mp ha, (keyToIndex_eq_some_iff hkeys).mp hb⟩
  · rintro ⟨pair, hpair, hi, hj⟩
    use pair, hpair
    rw [(keyToIndex_eq_some_iff hkeys).mpr hi, (keyToIndex_eq_some_iff hkeys).mpr hj]
    rfl

/-- The classes of cards are those of items about the same loop. -/
theorem joined_linkedCards (hkeys : s.KeysDistinct hmac toLowercase items) :
  ((s.linkedCards fun i => s.cardContext hmac toLowercase (items.get i)).foldl
    (fun parent pair => parent.union pair.1 pair.2) (Pointers.discrete items.length)).Joined
      = s.SameLoop hmac toLowercase items
  := by
  funext i j
  rw [Pointers.joined_foldl_discrete, SameLoop]
  congr 1
  funext k l
  exact propext (mem_linkedCards hkeys)

/-- Of the items about the same loop the earliest one is left, with the others as mentions. -/
theorem applyLoopLinks_spec {analysis : LoopItems} (h : s.analysis = some analysis)
    (hkeys : s.KeysDistinct hmac toLowercase analysis.items) :
  ∃ survivors : List (Fin analysis.items.length), ∃ folded : Fin analysis.items.length → LoopItem,
    (s.applyLoopLinks hmac toLowercase).2.analysis
      = some { analysis with items := survivors.map folded }
    ∧ survivors.Sublist (List.finRange analysis.items.length)
    ∧ (∀ i, i ∈ survivors ↔ Earliest (fun i => s.itemTimestamp (analysis.items.get i))
      (s.SameLoop hmac toLowercase analysis.items) i)
    ∧ ∀ i ∈ survivors, ∃ members : List (Fin analysis.items.length), ∃ added,
      (members.Pairwise fun j k =>
        foldOrder (fun i => s.itemTimestamp (analysis.items.get i)) j
          < foldOrder (fun i => s.itemTimestamp (analysis.items.get i)) k)
      ∧ (∀ j, j ∈ members ↔ j ≠ i ∧ s.SameLoop hmac toLowercase analysis.items i j)
      ∧ Folded (analysis.items.get i)
        (members.map fun j => (analysis.items.get j, s.itemTimestamp (analysis.items.get j)))
        added (folded i)
  := by
  obtain ⟨survivors, folded, hitems, hsublist, hsurvivors, hfolded⟩ :=
    @foldedItems_classFolds _ (fun i => s.itemTimestamp (analysis.items.get i))
      ((s.linkedCards fun i => s.cardContext hmac toLowercase (analysis.items.get i)).foldl
        (fun parent pair => parent.union pair.1 pair.2) (Pointers.discrete analysis.items.length))
      analysis.items.get
  rw [joined_linkedCards hkeys] at hsurvivors hfolded
  refine ⟨survivors, folded, ?_, hsublist, hsurvivors, hfolded⟩
  rw [applyLoopLinks, h, ← hitems]
  rfl

/-- The items are folded exactly as the links say.  Of the items about the same loop only the earliest
one is left; an item that is alone is left as it is; and the mentions that an item gets are at places
that it did not have, and at each such place of the items that were folded into it once. -/
theorem applyLoopLinks_exact {analysis : LoopItems} (h : s.analysis = some analysis)
    (hkeys : s.KeysDistinct hmac toLowercase analysis.items) :
  ∃ survivors : List (Fin analysis.items.length), ∃ folded : Fin analysis.items.length → LoopItem,
    (s.applyLoopLinks hmac toLowercase).2.analysis
      = some { analysis with items := survivors.map folded }
    ∧ survivors.Sublist (List.finRange analysis.items.length)
    ∧ (∀ i, i ∈ survivors ↔ Earliest (fun i => s.itemTimestamp (analysis.items.get i))
      (s.SameLoop hmac toLowercase analysis.items) i)
    ∧ (∀ i, ∃! j, j ∈ survivors ∧ s.SameLoop hmac toLowercase analysis.items i j)
    ∧ (∀ i, (∀ j, s.SameLoop hmac toLowercase analysis.items i j → j = i) →
      i ∈ survivors ∧ folded i = analysis.items.get i)
    ∧ ∀ i ∈ survivors, ∃ members : List (Fin analysis.items.length), ∃ added,
      (∀ j, j ∈ members ↔ j ≠ i ∧ s.SameLoop hmac toLowercase analysis.items i j)
      ∧ members.Nodup
      ∧ Folded (analysis.items.get i)
        (members.map fun j => (analysis.items.get j, s.itemTimestamp (analysis.items.get j)))
        added (folded i)
      ∧ ((folded i).places.Nodup ↔ (analysis.items.get i).places.Nodup)
  := by
  obtain ⟨survivors, folded, hanalysis, hsublist, hsurvivors, hfolded⟩ :=
    applyLoopLinks_spec h hkeys
  have hequiv : Equivalence (s.SameLoop hmac toLowercase analysis.items) :=
    Relation.EqvGen.is_equivalence _
  refine ⟨survivors, folded, hanalysis, hsublist, hsurvivors, ?_, ?_, ?_⟩
  · intro i
    obtain ⟨j, hij, hj⟩ := exists_earliest hequiv (fun i => s.itemTimestamp (analysis.items.get i)) i
    refine ⟨j, ⟨(hsurvivors j).mpr hj, hij⟩, ?_⟩
    rintro k ⟨hk, hik⟩
    have hjk := hequiv.trans (hequiv.symm hij) hik
    apply eq_of_foldOrder_eq
    exact le_antisymm ((hsurvivors k).mp hk j (hequiv.symm hjk)) (hj k hjk)
  · intro i halone
    have hi : i ∈ survivors := by
      apply (hsurvivors i).mpr
      intro j hij
      rw [halone j hij]
    use hi
    obtain ⟨members, added, -, hmembers, hadded⟩ := hfolded i hi
    have hnil : members = [] := by
      apply List.eq_nil_iff_forall_not_mem.mpr
      intro j hj
      obtain ⟨hne, hij⟩ := (hmembers j).mp hj
      exact hne (halone j hij)
    subst hnil
    exact hadded.eq_of_nil
  · intro i hi
    obtain ⟨members, added, hsorted, hmembers, hadded⟩ := hfolded i hi
    refine ⟨members, added, hmembers, ?_, hadded, hadded.nodup_places_iff⟩
    exact hsorted.imp fun hlt heq => hlt.ne (congrArg _ heq)

end

/-! ### An item that mentions its own place -/

/-- A message at a time. -/
def invoiceMail (handle : String) (timestamp : ℤ) : ReviewMessage where
  provider := .microsoft
  input :=
    { handle
      message :=
        { subject := ⟨['A'], length_shortSubject⟩
          bodyBlocks := [⟨['S', 'e', 'n', 'd', ' ', 'i', 't', '.'], length_shortBlock⟩]
          quoteBlocks := []
          sender := none
          «to» := []
          cc := []
          attachmentNames := []
          linkLabels := [] }
      timestamp
      fromUser := false
      recipient := .«to»
      ownAddresses := []
      userDisplayName := none
      userGivenName := none
      team := false }
  source := "Inbox"
  id := handle
  account := "anna"
  conversation := handle
  dateLabel := ""
  webLink := ""
  ownAddresses := []
  ownDisplayName := none
  ownGivenName := none
  otherAddresses := []
  event := none

/-- An item that is stated in a message. -/
def invoiceItem (handle actionPhrase : String) (mentions : List Mention) : LoopItem where
  action := "Requested: " ++ actionPhrase
  actionPhrase
  owner := .you
  waitingParty := ""
  kind := "request"
  evidence := ⟨handle, 0, "Send it.", "Send it."⟩
  deadline := none
  deadlineKindHint := none
  event := none
  eventTime := none
  resolution := none
  resolutionKind := none
  uncertainty := ""
  unverifiedDeadline := false
  unverifiedResolution := false
  crossThread := false
  eventPassed := none
  suggestedUpdate := none
  handoffText := none
  fromCallSummary := false
  meetingTime := none
  meetingTimeApprox := false
  mentions

/-- Two items; the deadline of the first one, which stood beside it, was replaced by a later one. -/
def invoices : LoopItems where
  items :=
    [invoiceItem "m0" "a" [⟨"m0", 0, "Friday", 1, .rescheduled⟩], invoiceItem "m1" "b" []]
  rejected := 0
  rejectionReasons := []
  degraded := 0

/-- A key that only tells the action phrases apart. -/
def lastByteKey (_ : LoopKey) (bytes : Bytes) : LoopKey :=
  Vector.replicate 32 (bytes.getLastD 0)

/-- A review in which the two items are linked. -/
def invoiceReview : ReviewState :=
  { ofStores ⟨Vector.replicate 32 0, [], false, [], none⟩
      ⟨[⟨.sameLoop, Vector.replicate 32 97, Vector.replicate 32 98, 0⟩], false, [], none⟩ with
    messages := [invoiceMail "m0" 0, invoiceMail "m1" 1]
    analysis := some invoices }

theorem keysDistinct_invoiceReview :
  invoiceReview.KeysDistinct lastByteKey id invoices.items
  := by
  have hkeys : ∀ i j : Fin invoices.items.length,
      invoiceReview.cardKey lastByteKey id (invoices.items.get i)
        = invoiceReview.cardKey lastByteKey id (invoices.items.get j) → i = j := by
    decide
  exact fun i j key hi hj => hkeys i j (hi.trans hj.symm)

theorem invoiceReview_exact :
  invoiceReview.Linked lastByteKey id invoices.items ⟨0, by decide⟩ ⟨1, by decide⟩
    ∧ ∃ survivors : List (Fin invoices.items.length), ∃ folded,
      (invoiceReview.applyLoopLinks lastByteKey id).2.analysis
        = some { invoices with items := survivors.map folded }
      ∧ ∀ i, ∃! j, j ∈ survivors ∧ invoiceReview.SameLoop lastByteKey id invoices.items i j
  := by
  constructor
  · refine ⟨(Vector.replicate 32 97, Vector.replicate 32 98), ?_, ?_, ?_⟩ <;> decide
  · obtain ⟨survivors, folded, hanalysis, -, -, hunique, -⟩ :=
      applyLoopLinks_exact (show invoiceReview.analysis = some invoices from rfl)
        keysDistinct_invoiceReview
    exact ⟨survivors, folded, hanalysis, hunique⟩

/-- The mention that the first item had of its own place stays. -/
theorem invoiceReview_mentions_own_place :
  invoiceReview.KeysDistinct lastByteKey id invoices.items
    ∧ ∃ analysis, (invoiceReview.applyLoopLinks lastByteKey id).2.analysis = some analysis
      ∧ ∃ item ∈ analysis.items, ∃ m ∈ item.mentions, m.place = item.place
  := by
  use keysDistinct_invoiceReview
  obtain ⟨survivors, folded, hanalysis, -, hsurvivors, hfolded⟩ :=
    applyLoopLinks_spec (show invoiceReview.analysis = some invoices from rfl)
      keysDistinct_invoiceReview
  have hfirst : (⟨0, by decide⟩ : Fin invoices.items.length) ∈ survivors := by
    apply (hsurvivors _).mpr
    have hle : ∀ j : Fin invoices.items.length,
        foldOrder (fun i => invoiceReview.itemTimestamp (invoices.items.get i)) ⟨0, by decide⟩
          ≤ foldOrder (fun i => invoiceReview.itemTimestamp (invoices.items.get i)) j := by
      decide
    exact fun j _ => hle j
  obtain ⟨members, added, -, -, hadded⟩ := hfolded _ hfirst
  refine ⟨_, hanalysis, _, List.mem_map.mpr ⟨_, hfirst, rfl⟩, ?_⟩
  rw [hadded.eq]
  exact ⟨⟨"m0", 0, "Friday", 1, .rescheduled⟩, List.mem_append_left _ List.mem_cons_self, rfl⟩

end ReviewState

end Review
