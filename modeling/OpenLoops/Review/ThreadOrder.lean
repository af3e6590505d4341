import OpenLoops.Review.ThreadMerging

/-!
# Threads in any order

Without answers to rule questions, which conversations are joined depends on which messages there
are, and not on their order.
-/

namespace Review

variable {T : CharTable} {toLowercase : List Char → List Char} {registry : Registry}
variable {messages messages' : List ReviewMessage}

/-! ### Groups -/

/-- The groups have the same in common. -/
structure ThreadGroup.Same (group group' : ThreadGroup) : Prop where
  authoritative : group.authoritative = group'.authoritative
  subjects : group.subjects = group'.subjects
  addresses : group.addresses = group'.addresses
  hasCalendarPrefix : group.hasCalendarPrefix = group'.hasCalendarPrefix
  hasTeam : group.hasTeam = group'.hasTeam

theorem ThreadGroup.Of.same (hmem : ∀ message, message ∈ messages ↔ message ∈ messages')
    {key : ConversationKey} {group group' : ThreadGroup}
    (h : group.Of T toLowercase messages key) (h' : group'.Of T toLowercase messages' key) :
  group.Same group'
  := by
  constructor
  · rw [Bool.eq_iff_iff, h.authoritative, h'.authoritative]
    simp only [hmem]
  · ext subject
    rw [h.subjects, h'.subjects]
    simp only [hmem]
  · ext address
    rw [h.addresses, h'.addresses]
    simp only [hmem]
  · rw [Bool.eq_iff_iff, h.hasCalendarPrefix, h'.hasCalendarPrefix]
    simp only [hmem]
  · rw [Bool.eq_iff_iff, h.hasTeam, h'.hasTeam]
    simp only [hmem]

/-- The same conversations have groups. -/
theorem exists_same_group (hmem : ∀ message, message ∈ messages ↔ message ∈ messages')
    {key : ConversationKey} {group : ThreadGroup}
    (h : (threadGroups T toLowercase messages).get? key = some group) :
  ∃ group', (threadGroups T toLowercase messages').get? key = some group' ∧ group.Same group'
  := by
  have hkey : key ∈ (threadGroups T toLowercase messages').keys := by
    obtain ⟨message, hmessage, hkey⟩ := mem_threadGroups_keys.mp (Table.mem_keys.mpr ⟨group, h⟩)
    exact mem_threadGroups_keys.mpr ⟨message, (hmem message).mp hmessage, hkey⟩
  obtain ⟨group', h'⟩ := Table.mem_keys.mp hkey
  exact ⟨group', h', (group_of_get? h).same hmem (group_of_get? h')⟩

theorem map_groupRows_eq (hmem : ∀ message, message ∈ messages ↔ message ∈ messages') :
  ((threadGroups T toLowercase messages).rows.map fun row => (row.1, row.2.addresses)) =
    (threadGroups T toLowercase messages').rows.map fun row => (row.1, row.2.addresses)
  := by
  apply Table.map_rows_eq
  intro key
  rcases h : (threadGroups T toLowercase messages).get? key with _ | group
  · rcases h' : (threadGroups T toLowercase messages').get? key with _ | group'
    · rfl
    · obtain ⟨group, hgroup, -⟩ := exists_same_group (fun message => (hmem message).symm) h'
      rw [h] at hgroup
      cases hgroup
  · obtain ⟨group', h', hsame⟩ := exists_same_group hmem h
    rw [h', Option.map_some, Option.map_some, hsame.addresses]

/-- Two messages of the conversations are close in time. -/
theorem groupsWithin_iff {key key' : ConversationKey} {group group' : ThreadGroup}
    (h : group.Of T toLowercase messages key) (h' : group'.Of T toLowercase messages key') (gap : ℤ) :
  groupsWithin group group' messages gap = true ↔
    ∃ message ∈ messages, message.key = key ∧ ∃ message' ∈ messages, message'.key = key'
      ∧ |message.input.timestamp - message'.input.timestamp| ≤ gap
  := by
  simp only [groupsWithin, List.any_eq_true, h.indices, h'.indices]
  constructor
  · rintro ⟨i, ⟨message, hi, hkey⟩, j, ⟨message', hj, hkey'⟩, hgap⟩
    rw [hi, hj] at hgap
    exact ⟨message, List.mem_of_getElem? hi, hkey, message', List.mem_of_getElem? hj, hkey',
      of_decide_eq_true hgap⟩
  · rintro ⟨message, hmessage, hkey, message', hmessage', hkey', hgap⟩
    obtain ⟨i, hi⟩ := List.mem_iff_getElem?.mp hmessage
    obtain ⟨j, hj⟩ := List.mem_iff_getElem?.mp hmessage'
    refine ⟨i, ⟨message, hi, hkey⟩, j, ⟨message', hj, hkey'⟩, ?_⟩
    rw [hi, hj]
    exact decide_eq_true hgap

/-! ### Components -/

/-- The context of the pairs says the same of accounts and addresses. -/
theorem counts_eq (hmem : ∀ message, message ∈ messages ↔ message ∈ messages') :
  groupsPerAccount (threadGroups T toLowercase messages) =
      groupsPerAccount (threadGroups T toLowercase messages')
    ∧ addressGroupCounts (threadGroups T toLowercase messages) =
      addressGroupCounts (threadGroups T toLowercase messages')
  := by
  have hrows := @map_groupRows_eq T toLowercase _ _ hmem
  constructor
  · have hkeys := congrArg (List.map Prod.fst) hrows
    rw [List.map_map, List.map_map] at hkeys
    have hkeys' : (threadGroups T toLowercase messages).keys =
      (threadGroups T toLowercase messages').keys := hkeys
    rw [groupsPerAccount, groupsPerAccount, hkeys']
  · have haddresses := congrArg (List.flatMap fun row : ConversationKey × Finset String =>
      (row.2.sort (· ≤ ·)).map fun address => toLex ((ofLex row.1).1, address)) hrows
    rw [List.flatMap_map, List.flatMap_map] at haddresses
    rw [addressGroupCounts, addressGroupCounts]
    exact congrArg _ haddresses

theorem Linked.of_mem_iff (hmem : ∀ message, message ∈ messages ↔ message ∈ messages')
    {key key' : ConversationKey} (h : Linked T toLowercase registry messages none key key') :
  Linked T toLowercase registry messages' none key key'
  := by
  obtain ⟨a, b, ha, hb, hlt, haccount, hmerge⟩ := h
  obtain ⟨a', ha', hsame⟩ := exists_same_group hmem ha
  obtain ⟨b', hb', hsame'⟩ := exists_same_group hmem hb
  obtain ⟨hgroups, haddresses⟩ := @counts_eq T toLowercase _ _ hmem
  refine ⟨a', b', ha', hb', hlt, haccount, ?_⟩
  have hwithin : groupsWithin a b messages maxGapSeconds =
      groupsWithin a' b' messages' maxGapSeconds := by
    rw [Bool.eq_iff_iff, groupsWithin_iff (group_of_get? ha) (group_of_get? hb),
      groupsWithin_iff (group_of_get? ha') (group_of_get? hb')]
    simp only [hmem]
  rw [← hmerge]
  simp only [shouldMergeWithRules, threadMergeContext, hgroups, haddresses, hwithin,
    hsame.authoritative, hsame.subjects, hsame.addresses, hsame.hasCalendarPrefix, hsame.hasTeam,
    hsame'.authoritative, hsame'.subjects, hsame'.addresses, hsame'.hasCalendarPrefix,
    hsame'.hasTeam, Option.any_none]
  congr

theorem component_eq_of_mem_iff (hmem : ∀ message, message ∈ messages ↔ message ∈ messages')
    (key : ConversationKey) :
  component T toLowercase registry messages none key =
    component T toLowercase registry messages' none key
  := by
  ext key'
  constructor
  · exact fun h => h.mono fun _ _ hlinked => hlinked.of_mem_iff hmem
  · exact fun h => h.mono fun _ _ hlinked => hlinked.of_mem_iff fun message => (hmem message).symm

/-- Joining threads moves each message to the least conversation of its component, joins only groups
of one account whose threads can be split, and counts the groups that are joined to others.  Without
rules, where a message is moved does not depend on the order. -/
theorem mergeThreadsWithRules_components (T : CharTable) (toLowercase : List Char → List Char)
    (registry : Registry) (messages : List ReviewMessage) (rules : Option RuleDecisions) :
  let merged := mergeThreadsWithRules T toLowercase registry messages rules
  (∃ conversation : ReviewMessage → String,
      merged.2 = messages.map (fun message => { message with conversation := conversation message })
      ∧ (∀ message ∈ messages, IsLeast ((fun key => (ofLex key).2) ''
        component T toLowercase registry messages rules message.key) (conversation message))
      ∧ (rules = none → ∀ messages', messages.Perm messages' →
        (mergeThreads T toLowercase registry messages').2 =
          messages'.map fun message => { message with conversation := conversation message }))
    ∧ (∀ key key', key' ∈ component T toLowercase registry messages rules key → key = key'
      ∨ (ofLex key).1 = (ofLex key').1 ∧ ∀ message ∈ messages,
        message.key = key ∨ message.key = key' → message.Splittable toLowercase)
    ∧ merged.1 + (components T toLowercase registry messages rules).ncard =
      (conversationKeys messages).ncard
  := by
  refine ⟨⟨fun message => leastConversation T toLowercase registry messages rules message.key,
    mergeThreadsWithRules_snd, ?_, ?_⟩, fun _ _ h => component_splittable h,
    mergeThreadsWithRules_fst⟩
  · intro message hmessage
    obtain ⟨group, hgroup⟩ :=
      Table.mem_keys.mp (mem_threadGroups_keys.mpr ⟨message, hmessage, rfl⟩)
    obtain ⟨i, hi, -⟩ := exists_rowKey hgroup
    have hleast := @isLeast_clusterWinner T toLowercase registry messages rules i
    rw [hi] at hleast
    show IsLeast _ (leastConversation T toLowercase registry messages rules message.key)
    rwa [leastConversation_eq hleast]
  · rintro rfl messages' hperm
    rw [mergeThreads, mergeThreadsWithRules_snd]
    apply List.map_congr_left
    intro message _
    have hcomponent := @component_eq_of_mem_iff T toLowercase registry messages messages'
      (fun message => hperm.mem_iff) message.key
    have hleast : leastConversation T toLowercase registry messages' none message.key =
        leastConversation T toLowercase registry messages none message.key := by
      rw [leastConversation, leastConversation, hcomponent]
    rw [hleast]
    rfl

end Review
