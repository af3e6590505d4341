import OpenLoops.Review.Coverage

/-!
# Conversations that are analyzed

The conversations of the selected messages have different keys, and each of them holds the messages
of its key; those that the triage has not skipped are the conversations of the messages that are
left.
-/

namespace Review

variable (messages : List ReviewMessage) (conversationFilter : Option (Finset ConversationKey))

/-- The conversations of the messages, by their keys. -/
abbrev conversationRows (selected : List ReviewMessage) :
    Table ConversationKey (List ReviewMessage) :=
  Table.group ReviewMessage.key [] (fun members message => members ++ [message]) selected

/-- A conversation holds the messages of its key, and there is one. -/
theorem mem_conversationRows {selected : List ReviewMessage}
    {row : ConversationKey × List ReviewMessage} (hrow : row ∈ (conversationRows selected).rows) :
  row.2 = (selected.filter fun message => message.key = row.1) ∧ ∃ message ∈ row.2, message.key = row.1
  := by
  have hget := Table.mem_rows.mp hrow
  rw [Table.get?_group_members] at hget
  split_ifs at hget with hexists
  have hmembers := Option.some.inj hget
  constructor
  · exact hmembers.symm
  · obtain ⟨message, hmessage, hkey⟩ := hexists
    use message
    rw [← hmembers, List.mem_filter]
    exact ⟨⟨hmessage, by simpa using hkey⟩, hkey⟩

/-- A conversation that is not empty has the key of its messages. -/
theorem conversationKey_eq {conversation : List ReviewMessage} {key : ConversationKey}
    (hne : conversation ≠ []) (hkey : ∀ message ∈ conversation, message.key = key) :
  conversationKey conversation = key
  := by
  rcases conversation with _ | ⟨message, rest⟩
  · contradiction
  · apply hkey message List.mem_cons_self

theorem conversationKey_row {selected : List ReviewMessage}
    {row : ConversationKey × List ReviewMessage} (hrow : row ∈ (conversationRows selected).rows) :
  conversationKey row.2 = row.1
  := by
  obtain ⟨hmembers, message, hmessage, -⟩ := mem_conversationRows hrow
  apply conversationKey_eq (List.ne_nil_of_mem hmessage)
  intro message' hmessage'
  rw [hmembers, List.mem_filter] at hmessage'
  simpa using hmessage'.2

/-- Their order does not change the key of the messages. -/
theorem conversationKey_inTime_row {selected : List ReviewMessage}
    {row : ConversationKey × List ReviewMessage} (hrow : row ∈ (conversationRows selected).rows) :
  conversationKey (inTime row.2) = row.1
  := by
  obtain ⟨hmembers, message, hmessage, -⟩ := mem_conversationRows hrow
  have hperm := KeyOrder.sort_perm (fun message => message.input.timestamp) row.2
  apply conversationKey_eq (List.ne_nil_of_mem (hperm.mem_iff.mpr hmessage))
  intro message' hmessage'
  have hmem : message' ∈ row.2 := hperm.mem_iff.mp hmessage'
  rw [hmembers, List.mem_filter] at hmem
  simpa using hmem.2

variable {messages conversationFilter} in
/-- A conversation holds all messages that have its key. -/
theorem mem_conversation_iff {conversation : List ReviewMessage}
    (hconversation : conversation ∈ orderedConversations messages conversationFilter)
    {message : ReviewMessage} :
  message ∈ conversation ↔ message ∈ selectedMessages messages conversationFilter
    ∧ message.key = conversationKey conversation
  := by
  obtain ⟨members, hmembers, rfl⟩ := List.mem_map.mp hconversation
  obtain ⟨row, hrow, rfl⟩ := List.mem_map.mp ((KeyOrder.sort_perm _ _).mem_iff.mp hmembers)
  rw [conversationKey_inTime_row hrow, inTime, (KeyOrder.sort_perm _ _).mem_iff,
    (mem_conversationRows hrow).1, List.mem_filter, decide_eq_true_eq]

variable {messages conversationFilter} in
theorem exists_mem_conversation {conversation : List ReviewMessage}
    (hconversation : conversation ∈ orderedConversations messages conversationFilter) :
  ∃ message, message ∈ conversation
  := by
  obtain ⟨members, hmembers, rfl⟩ := List.mem_map.mp hconversation
  obtain ⟨row, hrow, rfl⟩ := List.mem_map.mp ((KeyOrder.sort_perm _ _).mem_iff.mp hmembers)
  obtain ⟨-, message, hmessage, -⟩ := mem_conversationRows hrow
  use message
  apply (KeyOrder.sort_perm _ _).mem_iff.mpr hmessage

/-- The keys of the conversations, in some order. -/
theorem conversationsBySize_keys :
  ((conversationsBySize messages conversationFilter).map conversationKey).Perm
    (conversationRows (selectedMessages messages conversationFilter)).keys
  := by
  have hperm := (KeyOrder.sort_perm List.length
    ((conversationRows (selectedMessages messages conversationFilter)).rows.map Prod.snd)).map
    conversationKey
  apply hperm.trans
  rw [List.map_map, Table.keys]
  apply List.Perm.of_eq
  apply List.map_congr_left
  intro row hrow
  apply conversationKey_row hrow

theorem orderedConversations_keys :
  ((orderedConversations messages conversationFilter).map conversationKey).Perm
    (conversationRows (selectedMessages messages conversationFilter)).keys
  := by
  have hperm := (KeyOrder.sort_perm List.length
    ((conversationRows (selectedMessages messages conversationFilter)).rows.map Prod.snd)).map
    (conversationKey ∘ inTime)
  rw [orderedConversations, List.map_map]
  apply hperm.trans
  rw [List.map_map, Table.keys]
  apply List.Perm.of_eq
  apply List.map_congr_left
  intro row hrow
  apply conversationKey_inTime_row hrow

/-- The smallest conversations are first. -/
theorem orderedConversations_sizes :
  ((orderedConversations messages conversationFilter).map List.length).SortedLE
  := by
  have hsizes : (orderedConversations messages conversationFilter).map List.length
      = (conversationsBySize messages conversationFilter).map List.length := by
    rw [orderedConversations, List.map_map]
    apply List.map_congr_left
    intro conversation _
    apply (KeyOrder.sort_perm _ conversation).length_eq
  rw [hsizes]
  apply KeyOrder.sortedLE_map_sort

/-- No two conversations have the same key. -/
theorem nodup_orderedConversations_keys :
  ((orderedConversations messages conversationFilter).map conversationKey).Nodup
  := by
  rw [(orderedConversations_keys messages conversationFilter).nodup_iff]
  apply Table.nodup_keys

/-! ### Conversations that were skipped -/

/-- No conversation is lost between those that are analyzed and those that were skipped: their keys
are all of them. -/
theorem conversationsBySize_keys_eq (triage : TriageResult) :
  ((conversationsBySize messages conversationFilter).map conversationKey).Perm
    ((orderedConversations (primaryMessages messages conversationFilter triage) none).map
        conversationKey
      ++ ((conversationsBySize messages conversationFilter).map conversationKey).filter
        (· ∈ triage.skipped))
  := by
  have hall := conversationsBySize_keys messages conversationFilter
  have hprimary := orderedConversations_keys
    (primaryMessages messages conversationFilter triage) none
  have hnodup := (hall.nodup_iff).mpr (Table.nodup_keys _)
  have hmem : ∀ key, key ∈ (orderedConversations
      (primaryMessages messages conversationFilter triage) none).map conversationKey ↔
      key ∈ (conversationsBySize messages conversationFilter).map conversationKey
        ∧ key ∉ triage.skipped := by
    intro key
    rw [hprimary.mem_iff, hall.mem_iff, Table.mem_keys_group, Table.mem_keys_group]
    simp only [selectedMessages, primaryMessages, Option.all_none, List.filter_true,
      List.mem_filter, decide_eq_true_eq]
    constructor
    · rintro ⟨message, ⟨hmessage, hskipped⟩, rfl⟩
      exact ⟨⟨message, hmessage, rfl⟩, hskipped⟩
    · rintro ⟨⟨message, hmessage, rfl⟩, hskipped⟩
      exact ⟨message, ⟨hmessage, hskipped⟩, rfl⟩
  apply (List.perm_ext_iff_of_nodup hnodup _).mpr
  · intro key
    rw [List.mem_append, hmem, List.mem_filter, decide_eq_true_eq]
    tauto
  · apply List.nodup_append'.mpr
    refine ⟨nodup_orderedConversations_keys _ none, hnodup.filter _, ?_⟩
    intro key hkey hskipped
    apply ((hmem key).mp hkey).2
    simpa using (List.mem_filter.mp hskipped).2

end Review
