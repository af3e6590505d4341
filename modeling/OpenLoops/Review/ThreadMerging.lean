import Mathlib.Data.Set.Card
import OpenLoops.Review.Threads

/-!
# Threads are connected components

The group of a conversation says what its messages have in common; it is the same in any order of
the messages, except for their places.  The conversations that are joined are those that a chain of
pairs connects, each pair of which is of one thread.
-/

namespace Review

/-! ### Groups of messages -/

section

variable (T : CharTable) (toLowercase : List Char → List Char)

/-! ### Messages of a group -/

/-- What the places of messages have made of a group. -/
theorem foldl_add (group : ThreadGroup) (places : List (ReviewMessage × ℕ)) :
  (places.foldl (ThreadGroup.add T toLowercase) group).authoritative =
      (group.authoritative || places.any fun place => place.1.provider ≠ .microsoft)
    ∧ (places.foldl (ThreadGroup.add T toLowercase) group).hasTeam =
      (group.hasTeam || places.any fun place => place.1.input.team)
    ∧ (places.foldl (ThreadGroup.add T toLowercase) group).hasCalendarPrefix =
      (group.hasCalendarPrefix || places.any fun place =>
        rawSubjectHasCalendarPrefix toLowercase place.1.rawSubject)
    ∧ (places.foldl (ThreadGroup.add T toLowercase) group).indices =
      group.indices ++ places.map Prod.snd
    ∧ (∀ subject, subject ∈ (places.foldl (ThreadGroup.add T toLowercase) group).subjects ↔
      subject ∈ group.subjects ∨ subject ≠ []
        ∧ ∃ place ∈ places, normalizeSubject T toLowercase place.1.rawSubject = subject)
    ∧ ∀ address, address ∈ (places.foldl (ThreadGroup.add T toLowercase) group).addresses ↔
      address ∈ group.addresses ∨ ∃ place ∈ places, address ∈ place.1.otherAddresses
  := by
  induction places generalizing group with
  | nil => simp
  | cons place places ih =>
      obtain ⟨hauthoritative, hteam, hcalendar, hindices, hsubjects, haddresses⟩ :=
        ih (group.add T toLowercase place)
      rw [List.foldl_cons, hauthoritative, hteam, hcalendar, hindices]
      refine ⟨?_, ?_, ?_, ?_, ?_, ?_⟩
      · rw [List.any_cons, ← Bool.or_assoc]
        rfl
      · rw [List.any_cons, ← Bool.or_assoc]
        rfl
      · rw [List.any_cons, ← Bool.or_assoc]
        rfl
      · rw [List.map_cons, List.append_cons]
        rfl
      · intro subject
        rw [hsubjects, ThreadGroup.add]
        dsimp only
        split_ifs with hempty
        · simp only [List.mem_cons, exists_eq_or_imp]
          constructor
          · rintro (h | ⟨hne, h⟩)
            · exact Or.inl h
            · exact Or.inr ⟨hne, Or.inr h⟩
          · rintro (h | ⟨hne, rfl | h⟩)
            · exact Or.inl h
            · exact absurd hempty hne
            · exact Or.inr ⟨hne, h⟩
        · simp only [Finset.mem_insert, List.mem_cons, exists_eq_or_imp]
          constructor
          · rintro ((rfl | h) | ⟨hne, h⟩)
            · exact Or.inr ⟨hempty, Or.inl rfl⟩
            · exact Or.inl h
            · exact Or.inr ⟨hne, Or.inr h⟩
          · rintro (h | ⟨hne, rfl | h⟩)
            · exact Or.inl (Or.inr h)
            · exact Or.inl (Or.inl rfl)
            · exact Or.inr ⟨hne, h⟩
      · intro address
        rw [haddresses, ThreadGroup.add]
        simp only [Finset.mem_union, List.mem_toFinset, List.mem_cons, exists_eq_or_imp, or_assoc]

/-- What the messages of a conversation have in common. -/
structure ThreadGroup.Of (messages : List ReviewMessage) (key : ConversationKey)
    (group : ThreadGroup) : Prop where
  authoritative : group.authoritative = true ↔
    ∃ message ∈ messages, message.key = key ∧ message.provider ≠ .microsoft
  hasTeam : group.hasTeam = true ↔ ∃ message ∈ messages, message.key = key ∧ message.input.team = true
  hasCalendarPrefix : group.hasCalendarPrefix = true ↔ ∃ message ∈ messages, message.key = key
    ∧ rawSubjectHasCalendarPrefix toLowercase message.rawSubject = true
  subjects : ∀ subject, subject ∈ group.subjects ↔ subject ≠ [] ∧ ∃ message ∈ messages,
    message.key = key ∧ normalizeSubject T toLowercase message.rawSubject = subject
  addresses : ∀ address, address ∈ group.addresses ↔
    ∃ message ∈ messages, message.key = key ∧ address ∈ message.otherAddresses
  indices : ∀ i, i ∈ group.indices ↔ ∃ message, messages[i]? = some message ∧ message.key = key

variable {T toLowercase} {messages : List ReviewMessage} {key : ConversationKey}

theorem mem_threadGroups_keys :
  key ∈ (threadGroups T toLowercase messages).keys ↔ ∃ message ∈ messages, message.key = key
  := by
  rw [threadGroups, Table.mem_keys_group]
  constructor
  · rintro ⟨⟨message, i⟩, hplace, rfl⟩
    exact ⟨message, (List.mem_iff_getElem?.mpr ⟨i, List.mem_zipIdx_iff_getElem?.mp hplace⟩), rfl⟩
  · rintro ⟨message, hmessage, rfl⟩
    obtain ⟨i, hi⟩ := List.mem_iff_getElem?.mp hmessage
    exact ⟨(message, i), List.mem_zipIdx_iff_getElem?.mpr hi, rfl⟩

/-- The group of a conversation is of its messages. -/
theorem group_of_get? {group : ThreadGroup}
    (h : (threadGroups T toLowercase messages).get? key = some group) :
  group.Of T toLowercase messages key
  := by
  rw [threadGroups, Table.get?_group] at h
  split_ifs at h
  have hgroup := Option.some.inj h
  obtain ⟨hauthoritative, hteam, hcalendar, hindices, hsubjects, haddresses⟩ :=
    foldl_add T toLowercase .empty (messages.zipIdx.filter fun place => place.1.key = key)
  rw [hgroup] at hauthoritative hteam hcalendar hindices hsubjects haddresses
  have hplaces : ∀ p : ReviewMessage → Prop,
      (∃ place ∈ messages.zipIdx.filter fun place => place.1.key = key, p place.1) ↔
        ∃ message ∈ messages, message.key = key ∧ p message := by
    intro p
    constructor
    · rintro ⟨⟨message, i⟩, hplace, hp⟩
      obtain ⟨hmem, hkey⟩ := List.mem_filter.mp hplace
      exact ⟨message, List.mem_iff_getElem?.mpr ⟨i, List.mem_zipIdx_iff_getElem?.mp hmem⟩,
        of_decide_eq_true hkey, hp⟩
    · rintro ⟨message, hmessage, hkey, hp⟩
      obtain ⟨i, hi⟩ := List.mem_iff_getElem?.mp hmessage
      exact ⟨(message, i), List.mem_filter.mpr ⟨List.mem_zipIdx_iff_getElem?.mpr hi,
        decide_eq_true hkey⟩, hp⟩
  constructor
  · rw [hauthoritative, ThreadGroup.empty, Bool.false_or, List.any_eq_true]
    simpa only [decide_eq_true_eq] using hplaces fun message => message.provider ≠ .microsoft
  · rw [hteam, ThreadGroup.empty, Bool.false_or, List.any_eq_true]
    exact hplaces fun message => message.input.team = true
  · rw [hcalendar, ThreadGroup.empty, Bool.false_or, List.any_eq_true]
    exact hplaces fun message => rawSubjectHasCalendarPrefix toLowercase message.rawSubject = true
  · intro subject
    rw [hsubjects, ThreadGroup.empty,
      ← hplaces fun message => normalizeSubject T toLowercase message.rawSubject = subject]
    simp
  · intro address
    rw [haddresses, ThreadGroup.empty, ← hplaces fun message => address ∈ message.otherAddresses]
    simp
  · intro i
    rw [hindices, ThreadGroup.empty, List.nil_append, List.mem_map]
    constructor
    · rintro ⟨⟨message, j⟩, hplace, rfl⟩
      obtain ⟨hmem, hkey⟩ := List.mem_filter.mp hplace
      exact ⟨message, List.mem_zipIdx_iff_getElem?.mp hmem, of_decide_eq_true hkey⟩
    · rintro ⟨message, hi, hkey⟩
      exact ⟨(message, i), List.mem_filter.mpr ⟨List.mem_zipIdx_iff_getElem?.mpr hi,
        decide_eq_true hkey⟩, rfl⟩

end

variable (T : CharTable) (toLowercase : List Char → List Char) (registry : Registry)

/-- The conversations are of one thread, looked at in their order. -/
def Linked (messages : List ReviewMessage) (rules : Option RuleDecisions)
    (key key' : ConversationKey) : Prop :=
  ∃ group group', (threadGroups T toLowercase messages).get? key = some group
    ∧ (threadGroups T toLowercase messages).get? key' = some group'
    ∧ key < key' ∧ (ofLex key).1 = (ofLex key').1
    ∧ shouldMergeWithRules registry (ofLex key).1 group group'
      (threadMergeContext T toLowercase messages rules) = true

/-- The conversations that a chain of pairs connects with this one. -/
def component (messages : List ReviewMessage) (rules : Option RuleDecisions)
    (key : ConversationKey) : Set ConversationKey :=
  {key' | Relation.EqvGen (Linked T toLowercase registry messages rules) key key'}

/-- The groups of the messages. -/
def groupRows (messages : List ReviewMessage) : List (ConversationKey × ThreadGroup) :=
  (threadGroups T toLowercase messages).rows

/-- The forest that the pairs of groups make. -/
def threadForest (messages : List ReviewMessage) (rules : Option RuleDecisions) :
    Forest (groupRows T toLowercase messages).length :=
  Forest.joinWhere (rowsMerge registry (threadMergeContext T toLowercase messages rules)
    (groupRows T toLowercase messages))

variable {T toLowercase registry} {messages : List ReviewMessage} {rules : Option RuleDecisions}

/-! ### Joined groups -/

/-- The conversation at a place of the groups. -/
def rowKey (i : Fin (groupRows T toLowercase messages).length) : ConversationKey :=
  ((groupRows T toLowercase messages).get i).1

theorem get?_rowKey (i : Fin (groupRows T toLowercase messages).length) :
  (threadGroups T toLowercase messages).get? (rowKey i) =
    some ((groupRows T toLowercase messages).get i).2
  := Table.mem_rows.mp (List.get_mem _ i)

theorem rowKey_strictMono :
  StrictMono (@rowKey T toLowercase messages)
  := by
  intro i j h
  exact List.pairwise_iff_get.mp (threadGroups T toLowercase messages).sorted i j h

theorem exists_rowKey {key : ConversationKey} {group : ThreadGroup}
    (h : (threadGroups T toLowercase messages).get? key = some group) :
  ∃ i : Fin (groupRows T toLowercase messages).length, rowKey i = key
    ∧ ((groupRows T toLowercase messages).get i).2 = group
  := by
  obtain ⟨i, hi⟩ := List.mem_iff_get.mp (Table.mem_rows.mpr h)
  exact ⟨i, congrArg Prod.fst hi, congrArg Prod.snd hi⟩

theorem linked_rowKey (i j : Fin (groupRows T toLowercase messages).length) :
  Linked T toLowercase registry messages rules (rowKey i) (rowKey j) ↔
    i < j ∧ rowsMerge registry (threadMergeContext T toLowercase messages rules)
      (groupRows T toLowercase messages) i j = true
  := by
  rw [rowsMerge, Bool.and_eq_true, decide_eq_true_eq]
  constructor
  · rintro ⟨group, group', hgroup, hgroup', hlt, haccount, hmerge⟩
    cases (get?_rowKey i).symm.trans hgroup
    cases (get?_rowKey j).symm.trans hgroup'
    exact ⟨rowKey_strictMono.lt_iff_lt.mp hlt, haccount, hmerge⟩
  · rintro ⟨hlt, haccount, hmerge⟩
    exact ⟨_, _, get?_rowKey i, get?_rowKey j, rowKey_strictMono hlt, haccount, hmerge⟩

/-- A chain of pairs connects conversations through places of the groups, or it is empty. -/
theorem connected_cases {key key' : ConversationKey}
    (h : key' ∈ component T toLowercase registry messages rules key) :
  key = key' ∨ ∃ i j : Fin (groupRows T toLowercase messages).length, rowKey i = key
    ∧ rowKey j = key' ∧ (threadForest T toLowercase registry messages rules).Joined i j
  := by
  have hinj := (@rowKey_strictMono T toLowercase messages).injective
  induction h with
  | rel k l hkl =>
      obtain ⟨group, group', hgroup, hgroup', -⟩ := id hkl
      obtain ⟨i, rfl, -⟩ := exists_rowKey hgroup
      obtain ⟨j, rfl, -⟩ := exists_rowKey hgroup'
      refine Or.inr ⟨i, j, rfl, rfl, ?_⟩
      rw [threadForest, Forest.joined_joinWhere]
      exact .rel _ _ ((linked_rowKey i j).mp hkl)
  | refl k => exact Or.inl rfl
  | symm k l _ ih =>
      rcases ih with rfl | ⟨i, j, hi, hj, h⟩
      · exact Or.inl rfl
      · exact Or.inr ⟨j, i, hj, hi, h.symm⟩
  | trans k l m _ _ ih ih' =>
      rcases ih with rfl | ⟨i, j, rfl, rfl, h⟩
      · exact ih'
      · rcases ih' with rfl | ⟨i', j', hi', hj', h'⟩
        · exact Or.inr ⟨i, j, rfl, rfl, h⟩
        · obtain rfl := hinj hi'
          exact Or.inr ⟨i, j', rfl, hj', h.trans h'⟩

/-- Groups are joined when a chain of pairs connects their conversations. -/
theorem joined_threadForest (i j : Fin (groupRows T toLowercase messages).length) :
  (threadForest T toLowercase registry messages rules).Joined i j ↔
    rowKey j ∈ component T toLowercase registry messages rules (rowKey i)
  := by
  constructor
  · intro h
    rw [threadForest, Forest.joined_joinWhere] at h
    induction h with
    | rel k l hkl => exact .rel _ _ ((linked_rowKey k l).mpr hkl)
    | refl k => exact .refl _
    | symm k l _ ih => exact .symm _ _ ih
    | trans k l m _ _ ih ih' => exact .trans _ _ _ ih ih'
  · have hinj := (@rowKey_strictMono T toLowercase messages).injective
    intro h
    rcases connected_cases h with heq | ⟨k, l, hk, hl, hjoined⟩
    · obtain rfl := hinj heq
      rfl
    · obtain rfl := hinj hk
      obtain rfl := hinj hl
      exact hjoined

/-! ### Clusters -/

/-- The clusters of a forest have the places with the same top. -/
theorem clusters_eq {n : ℕ} (forest : Forest n) :
  clusters forest =
    Table.group forest.top [] (fun members i => members ++ [i]) (List.finRange n)
  := by
  have hfold : ∀ (l : List (Fin n)) (state : Forest n × Table (Fin n) (List (Fin n))),
      state.1.top = forest.top →
      (l.foldl (fun (state : Forest n × Table (Fin n) (List (Fin n))) i =>
        ((state.1.root i).2, state.2.alter (state.1.root i).1 fun members =>
          members.getD [] ++ [i])) state).2 =
      l.foldl (fun t i => t.alter (forest.top i) fun row => row.getD [] ++ [i]) state.2 := by
    intro l
    induction l with
    | nil => exact fun state _ => rfl
    | cons i l ih =>
        intro state htop
        obtain ⟨hroot, hsame⟩ := state.1.root_spec i
        rw [List.foldl_cons, List.foldl_cons, ih]
        · dsimp only
          rw [hroot, htop]
        · exact hsame.trans htop
  exact hfold _ _ rfl

theorem mem_clusters {n : ℕ} {forest : Forest n} {root : Fin n} {members : List (Fin n)} :
  (root, members) ∈ (clusters forest).rows ↔
    (∃ i, forest.top i = root) ∧ members = (List.finRange n).filter fun i => forest.top i = root
  := by
  rw [Table.mem_rows, clusters_eq, Table.get?_group_members]
  split_ifs with h
  · rw [Option.some.injEq, eq_comm]
    constructor
    · obtain ⟨i, -, hi⟩ := h
      exact fun heq => ⟨⟨i, hi⟩, heq⟩
    · exact fun heq => heq.2
  · constructor
    · exact nofun
    · rintro ⟨⟨i, hi⟩, -⟩
      exact absurd ⟨i, List.mem_finRange i, hi⟩ h

/-! ### Rewriting -/

/-- The message of another conversation of the account. -/
def ReviewMessage.movedTo (message : ReviewMessage) (conversation : String) : ReviewMessage :=
  { message with conversation }

theorem movedTo_movedTo (message : ReviewMessage) (conversation conversation' : String) :
  (message.movedTo conversation).movedTo conversation' = message.movedTo conversation'
  := rfl

theorem movedTo_self (message : ReviewMessage) :
  message.movedTo message.conversation = message
  := rfl

/-- Messages are moved at the places and nowhere else. -/
theorem getElem?_rewriteConversation (winner : String) (indices : List ℕ)
    (moved : List ReviewMessage) (p : ℕ) :
  (rewriteConversation winner indices moved)[p]? =
    if p ∈ indices then moved[p]?.map (·.movedTo winner) else moved[p]?
  := by
  rw [rewriteConversation]
  induction indices generalizing moved with
  | nil => rfl
  | cons i indices ih =>
      have hmodify : (moved.modify i (·.movedTo winner))[p]? =
          if i = p then moved[p]?.map (·.movedTo winner) else moved[p]? := by
        rw [List.getElem?_modify]
        split_ifs
        · rfl
        · exact Option.map_id'
      rw [List.foldl_cons, ih]
      show (if p ∈ indices then (moved.modify i (·.movedTo winner))[p]?.map (·.movedTo winner)
        else (moved.modify i (·.movedTo winner))[p]?) = _
      rw [hmodify]
      by_cases hi : i = p
      · rw [if_pos hi, if_pos (List.mem_cons.mpr (Or.inl hi.symm)), Option.map_map]
        split_ifs
        · rfl
        · rfl
      · have hmem : p ∈ i :: indices ↔ p ∈ indices := by
          rw [List.mem_cons, or_iff_right (Ne.symm hi)]
        rw [if_neg hi]
        simp only [hmem]

theorem getElem?_foldl_rewrite {α : Type*} (winner : String) (indices : α → List ℕ) (l : List α)
    (moved : List ReviewMessage) (p : ℕ) :
  (l.foldl (fun messages a => rewriteConversation winner (indices a) messages) moved)[p]? =
    if ∃ a ∈ l, p ∈ indices a then moved[p]?.map (·.movedTo winner) else moved[p]?
  := by
  induction l generalizing moved with
  | nil => simp
  | cons a l ih =>
      rw [List.foldl_cons, ih, getElem?_rewriteConversation]
      by_cases ha : p ∈ indices a
      · have hexists : ∃ a' ∈ a :: l, p ∈ indices a' := ⟨a, List.mem_cons_self, ha⟩
        rw [if_pos ha, if_pos hexists, Option.map_map]
        split_ifs
        · rfl
        · rfl
      · have hiff : (∃ a' ∈ a :: l, p ∈ indices a') ↔ ∃ a' ∈ l, p ∈ indices a' := by
          simp [ha]
        rw [if_neg ha]
        simp only [hiff]

/-- The conversation that the messages of a cluster are given. -/
def clusterWinner (rows : List (ConversationKey × ThreadGroup)) (members : List (Fin rows.length)) :
    String :=
  ((members.map fun i => (ofLex (rows.get i).1).2).min?).getD ""

/-- A cluster moves the messages of its groups. -/
theorem getElem?_mergeCluster (rows : List (ConversationKey × ThreadGroup))
    (state : ℕ × List ReviewMessage) (members : List (Fin rows.length)) (p : ℕ) :
  (mergeCluster rows state members).2[p]? =
    if 1 < members.length ∧ ∃ i ∈ members, p ∈ (rows.get i).2.indices then
      state.2[p]?.map (·.movedTo (clusterWinner rows members)) else state.2[p]?
  := by
  rw [mergeCluster]
  by_cases h : members.length ≤ 1
  · rw [if_pos h, if_neg fun hand => absurd hand.1 (not_lt.mpr h)]
  · have hiff : (1 < members.length ∧ ∃ i ∈ members, p ∈ (rows.get i).2.indices) ↔
        ∃ i ∈ members, p ∈ (rows.get i).2.indices := and_iff_right (not_le.mp h)
    rw [if_neg h]
    simp only [hiff]
    apply (getElem?_foldl_rewrite _ (fun i => (rows.get i).2.indices) members state.2 p).trans
    congr

/-- When all clusters with a place agree, its message is moved where they say. -/
theorem getElem?_foldl_mergeCluster (rows : List (ConversationKey × ThreadGroup))
    (found : List (List (Fin rows.length))) (state : ℕ × List ReviewMessage) (p : ℕ)
    (winner : String)
    (hwinner : ∀ members ∈ found, (∃ i ∈ members, p ∈ (rows.get i).2.indices) →
      clusterWinner rows members = winner) :
  (found.foldl (mergeCluster rows) state).2[p]? =
    if ∃ members ∈ found, 1 < members.length ∧ ∃ i ∈ members, p ∈ (rows.get i).2.indices then
      state.2[p]?.map (·.movedTo winner) else state.2[p]?
  := by
  induction found generalizing state with
  | nil => simp
  | cons members found ih =>
      rw [List.foldl_cons, ih _ fun members' hmem => hwinner members' (List.mem_cons_of_mem _ hmem),
        getElem?_mergeCluster]
      by_cases h : 1 < members.length ∧ ∃ i ∈ members, p ∈ (rows.get i).2.indices
      · have hexists : ∃ members' ∈ members :: found, 1 < members'.length
            ∧ ∃ i ∈ members', p ∈ (rows.get i).2.indices := ⟨members, List.mem_cons_self, h⟩
        rw [if_pos h, if_pos hexists, hwinner members List.mem_cons_self h.2, Option.map_map]
        split_ifs
        · rfl
        · rfl
      · have hiff : (∃ members' ∈ members :: found, 1 < members'.length
            ∧ ∃ i ∈ members', p ∈ (rows.get i).2.indices) ↔ ∃ members' ∈ found,
              1 < members'.length ∧ ∃ i ∈ members', p ∈ (rows.get i).2.indices := by
          rw [List.exists_mem_cons_iff, or_iff_right h]
        rw [if_neg h]
        simp only [hiff]

/-! ### Conversations of threads -/

variable (T toLowercase registry messages rules) in
/-- The places of the groups of one thread. -/
def threadMembers (i : Fin (groupRows T toLowercase messages).length) :
    List (Fin (groupRows T toLowercase messages).length) :=
  (List.finRange _).filter fun j => (threadForest T toLowercase registry messages rules).top j =
    (threadForest T toLowercase registry messages rules).top i

theorem mem_threadMembers {i j : Fin (groupRows T toLowercase messages).length} :
  j ∈ threadMembers T toLowercase registry messages rules i ↔
    (threadForest T toLowercase registry messages rules).Joined i j
  := by
  rw [threadMembers, List.mem_filter, decide_eq_true_eq, and_iff_right (List.mem_finRange j)]
  exact eq_comm

/-- A component is made of the conversations of its groups. -/
theorem component_eq (i : Fin (groupRows T toLowercase messages).length) :
  component T toLowercase registry messages rules (rowKey i) =
    rowKey '' {j | j ∈ threadMembers T toLowercase registry messages rules i}
  := by
  ext key
  constructor
  · intro h
    rcases connected_cases h with rfl | ⟨k, l, hk, rfl, hjoined⟩
    · exact ⟨i, mem_threadMembers.mpr rfl, rfl⟩
    · obtain rfl := rowKey_strictMono.injective hk
      exact ⟨l, mem_threadMembers.mpr hjoined, rfl⟩
  · rintro ⟨j, hj, rfl⟩
    exact (joined_threadForest i j).mp (mem_threadMembers.mp hj)

/-- The messages of a cluster are given the least conversation of the component. -/
theorem isLeast_clusterWinner (i : Fin (groupRows T toLowercase messages).length) :
  IsLeast ((fun key => (ofLex key).2) '' component T toLowercase registry messages rules (rowKey i))
    (clusterWinner (groupRows T toLowercase messages)
      (threadMembers T toLowercase registry messages rules i))
  := by
  have hmem : i ∈ threadMembers T toLowercase registry messages rules i := mem_threadMembers.mpr rfl
  rw [component_eq, Set.image_image, clusterWinner]
  rcases hmin : ((threadMembers T toLowercase registry messages rules i).map fun j =>
      (ofLex ((groupRows T toLowercase messages).get j).1).2).min? with _ | winner
  · rw [List.min?_eq_none_iff, List.map_eq_nil_iff] at hmin
    rw [hmin] at hmem
    cases hmem
  · obtain ⟨hwinner, hle⟩ := List.min?_eq_some_iff.mp hmin
    constructor
    · obtain ⟨j, hj, rfl⟩ := List.mem_map.mp hwinner
      exact ⟨j, hj, rfl⟩
    · rintro conversation ⟨j, hj, rfl⟩
      exact hle _ (List.mem_map_of_mem hj)

/-- The least one of the conversations, if there is one. -/
noncomputable def leastOf (conversations : Set String) : String := by
  classical
  exact if h : ∃ conversation, IsLeast conversations conversation then h.choose else ""

theorem leastOf_eq {conversations : Set String} {conversation : String}
    (h : IsLeast conversations conversation) :
  leastOf conversations = conversation
  := by
  have hexists : ∃ conversation, IsLeast conversations conversation := ⟨_, h⟩
  rw [leastOf, dif_pos hexists]
  exact hexists.choose_spec.unique h

variable (T toLowercase registry messages rules) in
/-- The least conversation that is connected with this one. -/
noncomputable def leastConversation (key : ConversationKey) : String :=
  leastOf ((fun key => (ofLex key).2) '' component T toLowercase registry messages rules key)

theorem leastConversation_eq {key : ConversationKey} {conversation : String}
    (h : IsLeast ((fun key => (ofLex key).2) ''
      component T toLowercase registry messages rules key) conversation) :
  leastConversation T toLowercase registry messages rules key = conversation
  := leastOf_eq h

theorem mem_row_indices {i : Fin (groupRows T toLowercase messages).length} {p : ℕ} :
  p ∈ ((groupRows T toLowercase messages).get i).2.indices ↔
    ∃ message, messages[p]? = some message ∧ message.key = rowKey i
  := (group_of_get? (get?_rowKey i)).indices p

variable (T toLowercase registry messages rules) in
/-- The clusters of the groups. -/
def threadClusters : List (List (Fin (groupRows T toLowercase messages).length)) :=
  (clusters (threadForest T toLowercase registry messages rules)).rows.map Prod.snd

theorem mem_threadClusters {members : List (Fin (groupRows T toLowercase messages).length)} :
  members ∈ threadClusters T toLowercase registry messages rules ↔
    ∃ i, members = threadMembers T toLowercase registry messages rules i
  := by
  rw [threadClusters, List.mem_map]
  constructor
  · rintro ⟨⟨root, members⟩, hrow, rfl⟩
    obtain ⟨⟨i, rfl⟩, hmembers⟩ := mem_clusters.mp hrow
    exact ⟨i, hmembers⟩
  · rintro ⟨i, rfl⟩
    exact ⟨(_, _), mem_clusters.mpr ⟨⟨i, rfl⟩, rfl⟩, rfl⟩

theorem mergeThreadsWithRules_eq :
  mergeThreadsWithRules T toLowercase registry messages rules =
    (threadClusters T toLowercase registry messages rules).foldl
      (mergeCluster (groupRows T toLowercase messages)) (0, messages)
  := by
  rw [threadClusters, List.foldl_map]
  rfl

/-- A group is in one cluster. -/
theorem threadMembers_eq {i j : Fin (groupRows T toLowercase messages).length}
    (h : j ∈ threadMembers T toLowercase registry messages rules i) :
  threadMembers T toLowercase registry messages rules i =
    threadMembers T toLowercase registry messages rules j
  := by
  have hjoined : (threadForest T toLowercase registry messages rules).top i =
    (threadForest T toLowercase registry messages rules).top j := mem_threadMembers.mp h
  rw [threadMembers, threadMembers, hjoined]

/-- All messages are moved to the least conversation of their threads. -/
theorem mergeThreadsWithRules_snd :
  (mergeThreadsWithRules T toLowercase registry messages rules).2 = messages.map fun message =>
    message.movedTo (leastConversation T toLowercase registry messages rules message.key)
  := by
  rw [mergeThreadsWithRules_eq]
  apply List.ext_getElem?
  intro p
  rw [List.getElem?_map]
  rcases hp : messages[p]? with _ | message
  · rw [getElem?_foldl_mergeCluster _ _ _ p ""]
    · dsimp only
      rw [hp]
      split_ifs
      · rfl
      · rfl
    · rintro members - ⟨i, -, hi⟩
      obtain ⟨message, hmessage, -⟩ := mem_row_indices.mp hi
      rw [hp] at hmessage
      cases hmessage
  · obtain ⟨group, hgroup⟩ := Table.mem_keys.mp (mem_threadGroups_keys.mpr
      ⟨message, List.mem_of_getElem? hp, rfl⟩)
    obtain ⟨i, hi, -⟩ := exists_rowKey hgroup
    have hleast := leastConversation_eq (@isLeast_clusterWinner T toLowercase registry messages
      rules i)
    have hcluster : ∀ members ∈ threadClusters T toLowercase registry messages rules,
        (∃ j ∈ members, p ∈ ((groupRows T toLowercase messages).get j).2.indices) →
          members = threadMembers T toLowercase registry messages rules i := by
      rintro members hmembers ⟨j, hj, hplace⟩
      obtain ⟨k, rfl⟩ := mem_threadClusters.mp hmembers
      obtain ⟨message', hmessage', hkey⟩ := mem_row_indices.mp hplace
      rw [hp] at hmessage'
      cases hmessage'
      obtain rfl := rowKey_strictMono.injective (hi.trans hkey)
      exact threadMembers_eq hj
    rw [hi] at hleast
    rw [getElem?_foldl_mergeCluster _ _ _ p
      (leastConversation T toLowercase registry messages rules message.key)]
    · dsimp only
      rw [hp]
      split_ifs with hmoved
      · rfl
      · -- The group is alone in its cluster, and its conversation the only one.
        have hmem : i ∈ threadMembers T toLowercase registry messages rules i :=
          mem_threadMembers.mpr rfl
        have hplace : p ∈ ((groupRows T toLowercase messages).get i).2.indices :=
          mem_row_indices.mpr ⟨message, hp, hi.symm⟩
        have hlength : ¬ 1 < (threadMembers T toLowercase registry messages rules i).length :=
          fun hlt => hmoved ⟨_, mem_threadClusters.mpr ⟨i, rfl⟩, hlt, i, hmem, hplace⟩
        have halone : threadMembers T toLowercase registry messages rules i = [i] := by
          rcases hmembers : threadMembers T toLowercase registry messages rules i with
            _ | ⟨j, _ | ⟨k, members⟩⟩
          · rw [hmembers] at hmem
            cases hmem
          · rw [hmembers, List.mem_singleton] at hmem
            rw [hmem]
          · rw [hmembers] at hlength
            simp at hlength
        have hself : leastConversation T toLowercase registry messages rules message.key =
            message.conversation := by
          rw [hleast, halone]
          exact congrArg (fun key => (ofLex key).2) hi
        rw [Option.map_some, hself]
        rfl
    · intro members hmembers hplace
      rw [hcluster members hmembers hplace, hleast]

/-! ### Counting -/

theorem mergeCluster_fst (rows : List (ConversationKey × ThreadGroup))
    (state : ℕ × List ReviewMessage) (members : List (Fin rows.length)) :
  (mergeCluster rows state members).1 = state.1 + (members.length - 1)
  := by
  rw [mergeCluster]
  split_ifs
  · omega
  · rfl

/-- The clusters have all the groups. -/
theorem sum_threadClusters :
  ((threadClusters T toLowercase registry messages rules).map List.length).sum =
    (groupRows T toLowercase messages).length
  := by
  rw [threadClusters, List.map_map, clusters_eq]
  apply (Table.sum_length_group _ _).trans
  apply List.length_finRange

variable (T toLowercase registry messages rules) in
/-- The components of the conversations of the messages. -/
def components : Set (Set ConversationKey) :=
  {connected | ∃ message ∈ messages,
    connected = component T toLowercase registry messages rules message.key}

theorem ncard_components :
  (components T toLowercase registry messages rules).ncard =
    (threadClusters T toLowercase registry messages rules).length
  := by
  let forest := threadForest T toLowercase registry messages rules
  let roots := (clusters forest).keys
  have hroots : ∀ root, root ∈ roots ↔ ∃ i, forest.top i = root := by
    intro root
    rw [Table.mem_keys]
    constructor
    · rintro ⟨members, hmembers⟩
      exact (mem_clusters.mp (Table.mem_rows.mpr hmembers)).1
    · intro h
      exact ⟨_, Table.mem_rows.mp (mem_clusters.mpr ⟨h, rfl⟩)⟩
  have himage : components T toLowercase registry messages rules =
      (fun root => component T toLowercase registry messages rules (rowKey root)) ''
        {root | root ∈ roots} := by
    ext connected
    constructor
    · rintro ⟨message, hmessage, rfl⟩
      obtain ⟨group, hgroup⟩ := Table.mem_keys.mp (mem_threadGroups_keys.mpr ⟨message, hmessage, rfl⟩)
      obtain ⟨i, hi, -⟩ := exists_rowKey hgroup
      use forest.top i, (hroots _).mpr ⟨i, rfl⟩
      rw [← hi]
      have hjoined := (joined_threadForest i (forest.top i)).mp (forest.top_top i).symm
      ext key
      exact ⟨fun h => .trans _ _ _ hjoined h, fun h => .trans _ _ _ (.symm _ _ hjoined) h⟩
    · rintro ⟨root, -, rfl⟩
      obtain ⟨message, hmessage, hkey⟩ :=
        mem_threadGroups_keys.mp (Table.mem_keys.mpr ⟨_, get?_rowKey root⟩)
      exact ⟨message, hmessage, by rw [hkey]⟩
  have hinj : Set.InjOn (fun root => component T toLowercase registry messages rules (rowKey root))
      {root | root ∈ roots} := by
    intro root hroot root' hroot' heq
    obtain ⟨i, rfl⟩ := (hroots root).mp hroot
    obtain ⟨j, rfl⟩ := (hroots root').mp hroot'
    have hmem : rowKey (forest.top j) ∈
        component T toLowercase registry messages rules (rowKey (forest.top i)) := by
      have heq' : component T toLowercase registry messages rules (rowKey (forest.top i)) =
        component T toLowercase registry messages rules (rowKey (forest.top j)) := heq
      rw [heq']
      exact .refl _
    have hjoined : forest.top (forest.top i) = forest.top (forest.top j) :=
      (joined_threadForest _ _).mpr hmem
    rwa [forest.top_top, forest.top_top] at hjoined
  rw [himage, hinj.ncard_image, threadClusters, List.length_map, ← Table.length_keys]
  have hset : {root | root ∈ roots} = (roots.toFinset : Set _) := by
    ext root
    simp
  rw [hset, Set.ncard_coe_finset, List.toFinset_card_of_nodup (Table.nodup_keys _)]

variable (messages) in
/-- The conversations of the messages. -/
def conversationKeys : Set ConversationKey :=
  {key | ∃ message ∈ messages, message.key = key}

theorem ncard_conversationKeys :
  (conversationKeys messages).ncard = (groupRows T toLowercase messages).length
  := by
  have hset : conversationKeys messages = ((threadGroups T toLowercase messages).keys.toFinset : Set _)
      := by
    ext key
    rw [List.coe_toFinset]
    exact mem_threadGroups_keys.symm
  rw [hset, Set.ncard_coe_finset, List.toFinset_card_of_nodup (Table.nodup_keys _), Table.length_keys]
  rfl

/-- As many groups are joined to others as there are more groups than components. -/
theorem mergeThreadsWithRules_fst :
  (mergeThreadsWithRules T toLowercase registry messages rules).1
    + (components T toLowercase registry messages rules).ncard = (conversationKeys messages).ncard
  := by
  have hcount : ∀ (found : List (List (Fin (groupRows T toLowercase messages).length)))
      (state : ℕ × List ReviewMessage), (∀ members ∈ found, 1 ≤ members.length) →
      (found.foldl (mergeCluster (groupRows T toLowercase messages)) state).1 + found.length =
        state.1 + (found.map List.length).sum := by
    intro found
    induction found with
    | nil => exact fun state _ => rfl
    | cons members found ih =>
        intro state hlength
        have hrest := ih (mergeCluster (groupRows T toLowercase messages) state members)
          fun members' hmem => hlength members' (List.mem_cons_of_mem _ hmem)
        have hfirst := hlength members List.mem_cons_self
        rw [mergeCluster_fst] at hrest
        rw [List.foldl_cons, List.length_cons, List.map_cons, List.sum_cons]
        omega
  rw [ncard_components, mergeThreadsWithRules_eq, hcount, sum_threadClusters,
    @ncard_conversationKeys T toLowercase, Nat.zero_add]
  intro members hmembers
  obtain ⟨i, rfl⟩ := mem_threadClusters.mp hmembers
  exact List.length_pos_of_mem (mem_threadMembers.mpr rfl : i ∈ _)

/-! ### What is not joined -/

variable (toLowercase) in
/-- Threads of the message can be split: it is personal mail of the provider that does so, and no
answer to an invitation. -/
def ReviewMessage.Splittable (message : ReviewMessage) : Prop :=
  message.provider = .microsoft ∧ message.input.team = false
    ∧ rawSubjectHasCalendarPrefix toLowercase message.rawSubject = false

/-- Groups that are joined are of one account, and all their messages are of threads that can be
split. -/
theorem component_splittable {key key' : ConversationKey}
    (h : key' ∈ component T toLowercase registry messages rules key) :
  key = key' ∨ (ofLex key).1 = (ofLex key').1
    ∧ ∀ message ∈ messages, message.key = key ∨ message.key = key' →
      message.Splittable toLowercase
  := by
  have hfree : ∀ {key group}, (threadGroups T toLowercase messages).get? key = some group →
      group.authoritative = false → group.hasTeam = false → group.hasCalendarPrefix = false →
        ∀ message ∈ messages, message.key = key → message.Splittable toLowercase := by
    intro key group hgroup hauthoritative hteam hcalendar message hmessage hkey
    have hof := group_of_get? hgroup
    refine ⟨?_, ?_, ?_⟩
    · by_contra hne
      rw [hof.authoritative.mpr ⟨message, hmessage, hkey, hne⟩] at hauthoritative
      cases hauthoritative
    · by_contra hne
      rw [Bool.not_eq_false] at hne
      rw [hof.hasTeam.mpr ⟨message, hmessage, hkey, hne⟩] at hteam
      cases hteam
    · by_contra hne
      rw [Bool.not_eq_false] at hne
      rw [hof.hasCalendarPrefix.mpr ⟨message, hmessage, hkey, hne⟩] at hcalendar
      cases hcalendar
  induction h with
  | rel key key' hlinked =>
      obtain ⟨group, group', hgroup, hgroup', -, haccount, hmerge⟩ := hlinked
      rw [shouldMergeWithRules] at hmerge
      split_ifs at hmerge with hflags
      · simp only [Bool.or_eq_true, not_or, Bool.not_eq_true] at hflags
        obtain ⟨⟨⟨⟨⟨ha, ha'⟩, ht⟩, ht'⟩, hc⟩, hc'⟩ := hflags
        refine Or.inr ⟨haccount, ?_⟩
        rintro message hmessage (hkey | hkey)
        · exact hfree hgroup ha ht hc message hmessage hkey
        · exact hfree hgroup' ha' ht' hc' message hmessage hkey
  | refl key => exact Or.inl rfl
  | symm key key' _ ih =>
      rcases ih with rfl | ⟨haccount, hall⟩
      · exact Or.inl rfl
      · exact Or.inr ⟨haccount.symm, fun message hmessage hkey => hall message hmessage hkey.symm⟩
  | trans key key' key'' _ _ ih ih' =>
      rcases ih with rfl | ⟨haccount, hall⟩
      · exact ih'
      · rcases ih' with rfl | ⟨haccount', hall'⟩
        · exact Or.inr ⟨haccount, hall⟩
        · refine Or.inr ⟨haccount.trans haccount', ?_⟩
          rintro message hmessage (hkey | hkey)
          · exact hall message hmessage (Or.inl hkey)
          · exact hall' message hmessage (Or.inr hkey)

end Review
