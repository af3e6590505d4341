import OpenLoops.Library.Machine
import OpenLoops.Review.Sources
import OpenLoops.Review.ThreadMerging

/-!
# Runs of loading mail

Whatever sources are appended, replaced and removed, a handle stands for one message alone, also
after the message is gone, and what is returned are the conversations that have changed.
-/

namespace Review

open Graph (ConnectionError MailItem MailProvider SourceReview)

/-! ### Identities -/

/-- What a message is known by at its provider. -/
def ReviewMessage.identity (message : ReviewMessage) : String × String :=
  (message.account, message.id)

theorem messageHandle_injective :
  Function.Injective messageHandle
  := by
  intro m n h
  have hdigits := congrArg String.toList h
  rw [messageHandle, messageHandle, String.toList_append, String.toList_append] at hdigits
  have hrepr := List.append_cancel_left hdigits
  rw [Nat.toList_repr, Nat.toList_repr] at hrepr
  rw [← Nat.ofDigitChars_ten_toDigits (n := m), hrepr, Nat.ofDigitChars_ten_toDigits]

/-- The numbers of handles that were given out, with the messages that they were given to. -/
abbrev Given :=
  ℕ → Option (String × String)

/-- More handles may be given out. -/
def Given.Extends (given' given : Given) : Prop :=
  ∀ index identity, given index = some identity → given' index = some identity

/-- The message has the handle that it was given. -/
def Given.Names (given : Given) (message : ReviewMessage) : Prop :=
  ∃ index, given index = some message.identity ∧ message.input.handle = messageHandle index

theorem Given.Names.extends {given given' : Given} {message : ReviewMessage}
    (h : given.Names message) (hextends : given'.Extends given) :
  given'.Names message
  := by
  rcases h with ⟨index, hgiven, hhandle⟩
  exact ⟨index, hextends _ _ hgiven, hhandle⟩

/-- A handle was given to one message alone. -/
theorem Given.Names.identity_eq {given : Given} {message message' : ReviewMessage}
    (h : given.Names message) (h' : given.Names message')
    (hhandle : message.input.handle = message'.input.handle) :
  message.identity = message'.identity
  := by
  rcases h with ⟨index, hgiven, hindex⟩
  rcases h' with ⟨index', hgiven', hindex'⟩
  have heq : index = index' := by
    apply messageHandle_injective
    rw [← hindex, hhandle, hindex']
  subst heq
  apply Option.some.inj
  rw [← hgiven, hgiven']

/-- All messages have handles that they were given, and no message is there twice. -/
structure Given.Ledger (given : Given) (nextHandle : ℕ) (messages : List ReviewMessage) : Prop where
  below : ∀ index, (given index).isSome → index < nextHandle
  names : ∀ message ∈ messages, given.Names message
  identities : (messages.map ReviewMessage.identity).Nodup

namespace Given.Ledger

variable {given : Given} {nextHandle : ℕ} {messages : List ReviewMessage}

/-- The handles of the messages are different. -/
theorem handles (h : given.Ledger nextHandle messages) :
  (messages.map (·.input.handle)).Nodup
  := by
  rw [List.Nodup, List.pairwise_map]
  apply (List.pairwise_map.mp h.identities).imp_of_mem
  intro message message' hmessage hmessage' hne heq
  apply hne
  apply (h.names _ hmessage).identity_eq (h.names _ hmessage') heq

/-- Messages with the same handle are the same. -/
theorem eq_of_handle (h : given.Ledger nextHandle messages) {message message' : ReviewMessage}
    (hmessage : message ∈ messages) (hmessage' : message' ∈ messages)
    (hhandle : message.input.handle = message'.input.handle) :
  message = message'
  := List.inj_on_of_nodup_map h.handles hmessage hmessage' hhandle

/-- Messages may be removed. -/
theorem filter (h : given.Ledger nextHandle messages) (p : ReviewMessage → Bool) :
  given.Ledger nextHandle (messages.filter p)
  where
  below := h.below
  names := fun message hmessage => h.names message (List.mem_of_mem_filter hmessage)
  identities := h.identities.sublist (List.filter_sublist.map _)

/-- Messages may be given other places and other conversations. -/
theorem rearranged (h : given.Ledger nextHandle messages) {messages' : List ReviewMessage}
    (conversation : ReviewMessage → String)
    (hperm : messages'.Perm (messages.map fun message => message.movedTo (conversation message))) :
  given.Ledger nextHandle messages'
  where
  below := h.below
  names := by
    intro message hmessage
    rcases List.mem_map.mp (hperm.mem_iff.mp hmessage) with ⟨original, horiginal, rfl⟩
    apply h.names original horiginal
  identities := by
    apply (hperm.map ReviewMessage.identity).nodup_iff.mpr
    rw [List.map_map]
    exact h.identities

end Given.Ledger

/-! ### Appending -/

section

variable (toLowercase : List Char → List Char) (read : MailReader)

/-- A message that is prepared has its identity and the handle with its number. -/
theorem prepare_eq_ok {item : MailItem} {source : String} {index : ℕ} {message : ReviewMessage}
    (h : prepare toLowercase read item source index = .ok message) :
  message.identity = (item.account, item.id) ∧ message.input.handle = messageHandle index
  := by
  unfold prepare at h
  cases hread : read item with
  | error error =>
      rw [hread] at h
      cases h
  | ok text =>
      rw [hread] at h
      cases h
      exact ⟨rfl, rfl⟩

/-- What is appended has handles that were never given out. -/
structure Appended (messages : List ReviewMessage) (given : Given) (given' : Given)
    (nextHandle : ℕ) (messages' : List ReviewMessage) (handles : List String) : Prop where
  extended : given'.Extends given
  ledger : given'.Ledger nextHandle messages'
  appended : ∃ new, messages' = messages ++ new ∧ handles = new.map (·.input.handle)

/-- A message is appended, after others with some handles. -/
theorem appendMessage_appended {messages : List ReviewMessage} {given given' : Given}
    {s : Appending} (label : String) (item : MailItem) {earlier : List String}
    (h : Appended messages given given' s.nextHandle s.messages (earlier ++ s.appendedHandles)) :
  let s' := appendMessage toLowercase read label s item
  ∃ given'', Appended messages given given'' s'.nextHandle s'.messages
    (earlier ++ s'.appendedHandles)
  := by
  intro s'
  set index := max s.nextHandle s.messages.length with hindex
  by_cases hknown : s.messages.any fun message =>
      message.account = item.account && message.id = item.id
  · have hsame : s' = s := by
      simp only [s', appendMessage, if_pos hknown]
    rw [hsame]
    use given'
  · cases hprepare : prepare toLowercase read item label index with
    | error error =>
        have hsame : s' = { s with refused := s.refused ++ [error] } := by
          simp only [s', appendMessage, if_neg hknown, ← hindex, hprepare]
        rw [hsame]
        use given'
    | ok message =>
        have hnext : s' = { s with
            messages := s.messages ++ [message]
            nextHandle := index + 1
            appendedHandles := s.appendedHandles ++ [message.input.handle] } := by
          simp only [s', appendMessage, if_neg hknown, ← hindex, hprepare]
        obtain ⟨hidentity, hhandle⟩ := prepare_eq_ok toLowercase read hprepare
        have hfresh : given' index = none := by
          rw [← Option.not_isSome_iff_eq_none]
          intro hsome
          have hlt := h.ledger.below index hsome
          omega
        have hstays : ∀ identity index', given' index' = some identity →
            Function.update given' index (some message.identity) index' = some identity := by
          intro identity index' hgiven
          rw [Function.update_of_ne _]
          · exact hgiven
          · rintro rfl
            rw [hfresh] at hgiven
            cases hgiven
        rw [hnext]
        use Function.update given' index (some message.identity)
        constructor
        · intro index' identity hgiven
          apply hstays _ _ (h.extended _ _ hgiven)
        · constructor
          · intro index' hsome
            rw [Function.update_apply] at hsome
            dsimp only
            split_ifs at hsome with heq
            · omega
            · have hlt := h.ledger.below index' hsome
              omega
          · intro message' hmessage'
            rcases List.mem_append.mp hmessage' with hmessage' | hmessage'
            · apply (h.ledger.names message' hmessage').extends
              intro index' identity
              apply hstays
            · rw [List.mem_singleton.mp hmessage']
              use index
              rw [Function.update_self]
              exact ⟨rfl, hhandle⟩
          · dsimp only
            rw [List.map_append, List.map_singleton]
            apply List.Nodup.append h.ledger.identities (List.nodup_singleton _)
            rw [List.disjoint_singleton]
            intro hmem
            rcases List.mem_map.mp hmem with ⟨message', hmessage', heq⟩
            apply hknown
            obtain ⟨haccount, hid⟩ := Prod.mk.inj (heq.trans hidentity)
            apply List.any_eq_true.mpr
            use message', hmessage'
            simp [haccount, hid]
        · obtain ⟨new, hmessages, hhandles⟩ := h.appended
          use new ++ [message]
          constructor
          · rw [← List.append_assoc, ← hmessages]
          · rw [List.map_append, ← hhandles, List.append_assoc]
            rfl

/-- A source is appended. -/
theorem addSource_appended {messages : List ReviewMessage} {given given' : Given}
    {state : ReviewState × List String} (source : SourceReview)
    (h : Appended messages given given' state.1.nextHandle state.1.messages state.2) :
  let state' := ReviewState.addSource toLowercase read state source
  ∃ given'', Appended messages given given'' state'.1.nextHandle state'.1.messages state'.2
  := by
  have hfold : ∀ items : List MailItem,
      let s := items.foldl (appendMessage toLowercase read source.label)
        ⟨state.1.messages, state.1.nextHandle, [], []⟩
      ∃ given'', Appended messages given given'' s.nextHandle s.messages
        (state.2 ++ s.appendedHandles) := by
    intro items
    induction items using List.reverseRecOn with
    | nil =>
        use given'
        simpa using h
    | append_singleton items item ih =>
        obtain ⟨given₁, happended⟩ := ih
        rw [List.foldl_append, List.foldl_cons, List.foldl_nil]
        apply appendMessage_appended toLowercase read source.label item happended
  exact hfold source.messages

/-- Sources are appended. -/
theorem addSources_appended {s : ReviewState} {given : Given}
    (h : given.Ledger s.nextHandle s.messages) (sources : List SourceReview) :
  let state := sources.foldl (ReviewState.addSource toLowercase read) (s, [])
  ∃ given', Appended s.messages given given' state.1.nextHandle state.1.messages state.2
  := by
  induction sources using List.reverseRecOn with
  | nil =>
      use given
      constructor
      · intro index identity hgiven
        exact hgiven
      · exact h
      · use []
        simp
  | append_singleton sources source ih =>
      obtain ⟨given', happended⟩ := ih
      rw [List.foldl_append, List.foldl_cons, List.foldl_nil]
      apply addSource_appended toLowercase read source happended

/-! ### Merging -/

variable (T : CharTable) (registry : Registry)

/-- The messages are moved to conversations and put in the order of their times. -/
theorem mergedMessages_messages (s : ReviewState) :
  ∃ conversation : ReviewMessage → String,
    (s.mergedMessages toLowercase T registry).messages = KeyOrder.sort (·.input.timestamp)
      (s.messages.map fun message => message.movedTo (conversation message))
  := by
  use fun message => leastConversation T toLowercase registry s.messages none message.key
  rw [← mergeThreadsWithRules_snd]
  rfl

/-- The message is new, or its conversation has changed. -/
def ChangedSince (before : List ReviewMessage) (message : ReviewMessage) : Prop :=
  (∀ old ∈ before, old.identity ≠ message.identity)
    ∨ ∃ old ∈ before, old.identity = message.identity ∧ old.key ≠ message.key

/-- The conversation that a handle stands for. -/
theorem get?_conversationsByHandle {s : ReviewState} {given : Given}
    (h : given.Ledger s.nextHandle s.messages) {message : ReviewMessage}
    (hmessage : message ∈ s.messages) :
  s.conversationsByHandle.get? message.input.handle = some message.key
  := by
  have hfilter : (s.messages.filter fun other => other.input.handle = message.input.handle)
      = [message] := by
    apply List.perm_singleton.mp
    apply (List.perm_ext_iff_of_nodup ((List.Nodup.of_map _ h.handles).filter _)
      (List.nodup_singleton _)).mpr
    intro other
    rw [List.mem_filter, List.mem_singleton, decide_eq_true_eq]
    constructor
    · rintro ⟨hother, hhandle⟩
      apply h.eq_of_handle hother hmessage hhandle
    · rintro rfl
      exact ⟨hmessage, rfl⟩
  rw [ReviewState.conversationsByHandle, Table.get?_group, if_pos ⟨message, hmessage, rfl⟩, hfilter]
  rfl

theorem get?_conversationsByHandle_eq_none {s : ReviewState} {handle : String}
    (h : ∀ message ∈ s.messages, message.input.handle ≠ handle) :
  s.conversationsByHandle.get? handle = none
  := by
  rw [ReviewState.conversationsByHandle, Table.get?_group, if_neg]
  rintro ⟨message, hmessage, hhandle⟩
  apply h message hmessage hhandle

variable {s : ReviewState} {given : Given}

/-- The mail is accounted for after sources were appended. -/
theorem ledger_appendSources (h : given.Ledger s.nextHandle s.messages)
    (sources : List SourceReview) :
  let s' := (s.appendSources toLowercase read T registry sources).2
  (s'.messages.map (·.input.timestamp)).SortedLE
    ∧ ∃ given' : Given, given'.Extends given ∧ given'.Ledger s'.nextHandle s'.messages
  := by
  obtain ⟨given', happended⟩ := addSources_appended toLowercase read h sources
  obtain ⟨conversation, hmerged⟩ := mergedMessages_messages toLowercase T registry
    (sources.foldl (ReviewState.addSource toLowercase read) (s, [])).1
  constructor
  · simp only [ReviewState.appendSources, hmerged]
    apply KeyOrder.sortedLE_map_sort
  · use given', happended.extended
    apply happended.ledger.rearranged conversation
    simp only [ReviewState.appendSources, hmerged]
    apply KeyOrder.sort_perm

/-- What is returned are the conversations of the messages that are new or were moved. -/
theorem mem_appendSources (h : given.Ledger s.nextHandle s.messages) (sources : List SourceReview)
    (key : ConversationKey) :
  key ∈ (s.appendSources toLowercase read T registry sources).1
    ↔ ∃ message ∈ (s.appendSources toLowercase read T registry sources).2.messages,
      ChangedSince s.messages message ∧ message.key = key
  := by
  obtain ⟨given', happended⟩ := addSources_appended toLowercase read h sources
  obtain ⟨conversation, hmerged⟩ := mergedMessages_messages toLowercase T registry
    (sources.foldl (ReviewState.addSource toLowercase read) (s, [])).1
  set added := sources.foldl (ReviewState.addSource toLowercase read) (s, []) with hadded
  obtain ⟨new, hmessages, hhandles⟩ := happended.appended
  have hidentities := happended.ledger.identities
  have hnodup := happended.ledger.handles
  rw [hmessages, List.map_append, List.nodup_append'] at hidentities hnodup
  have hchanged : ∀ message ∈ (added.1.mergedMessages toLowercase T registry).messages,
      (message.input.handle ∈ added.2
        ∨ (s.conversationsByHandle.get? message.input.handle).any (· ≠ message.key))
      ↔ ChangedSince s.messages message := by
    intro message hmessage
    rw [hmerged, (KeyOrder.sort_perm _ _).mem_iff] at hmessage
    rcases List.mem_map.mp hmessage with ⟨original, horiginal, rfl⟩
    rw [hmessages] at horiginal
    rw [hhandles]
    rcases List.mem_append.mp horiginal with hold | hnew
    · have hnot : original.input.handle ∉ new.map (·.input.handle) := by
        intro hmem
        apply hnodup.2.2 (List.mem_map_of_mem hold) hmem
      have hkey := get?_conversationsByHandle h hold
      constructor
      · rintro (hmem | hany)
        · exact absurd hmem hnot
        · right
          use original, hold, rfl
          change (s.conversationsByHandle.get? original.input.handle).any _ = true at hany
          rw [hkey] at hany
          simpa using hany
      · rintro (hall | ⟨old, hmem, hidentity, hne⟩)
        · exact absurd rfl (hall original hold)
        · right
          have heq := List.inj_on_of_nodup_map hidentities.1 hmem hold hidentity
          subst heq
          change (s.conversationsByHandle.get? old.input.handle).any _ = true
          rw [hkey]
          simpa using hne
    · have hmem : (original.movedTo (conversation original)).input.handle
          ∈ new.map (·.input.handle) := List.mem_map_of_mem (f := (·.input.handle)) hnew
      have hall : ∀ old ∈ s.messages, old.identity ≠ original.identity := by
        intro old hold heq
        apply hidentities.2.2 (List.mem_map_of_mem hold)
        rw [heq]
        apply List.mem_map_of_mem hnew
      exact ⟨fun _ => Or.inl hall, fun _ => Or.inl hmem⟩
  simp only [ReviewState.appendSources, ← hadded, List.mem_toFinset, List.mem_map, List.mem_filter]
  constructor
  · rintro ⟨message, ⟨hmessage, hchange⟩, hkey⟩
    rw [Bool.or_eq_true, decide_eq_true_eq] at hchange
    exact ⟨message, hmessage, (hchanged message hmessage).mp hchange, hkey⟩
  · rintro ⟨message, hmessage, hchange, hkey⟩
    use message
    rw [Bool.or_eq_true, decide_eq_true_eq]
    exact ⟨⟨hmessage, (hchanged message hmessage).mpr hchange⟩, hkey⟩

/-! ### Runs -/

/-- What is done with the mail of a review. -/
inductive SourceCall where
  | append (sources : List SourceReview)
  | replace (sourceKeys : List (MailProvider × String)) (sources : List SourceReview)
  | remove (provider : MailProvider)

/-- A review whose mail changes, which tells the conversations that have changed. -/
def sourceMachine : Machine ReviewState SourceCall (Finset ConversationKey) where
  step s call :=
    match call with
    | .append sources => (s.appendSources toLowercase read T registry sources).swap
    | .replace sourceKeys sources =>
        (s.replaceSources toLowercase read T registry sourceKeys sources).swap
    | .remove provider => (s.removeProvider provider, ∅)

/-- What the event tells are the conversations of the messages that are new or were moved. -/
def TellsChanges (event : Machine.Event ReviewState SourceCall (Finset ConversationKey)) : Prop :=
  ∀ key, key ∈ event.output ↔ ∃ message ∈ event.after.messages,
    ChangedSince event.before.messages message ∧ message.key = key

/-- A call keeps the accounts, and tells the changes. -/
theorem ledger_step (h : given.Ledger s.nextHandle s.messages)
    (hsorted : (s.messages.map (·.input.timestamp)).SortedLE) (call : SourceCall) :
  let event := (sourceMachine toLowercase read T registry).event s call
  TellsChanges event ∧ (event.after.messages.map (·.input.timestamp)).SortedLE
    ∧ ∃ given' : Given, given'.Extends given
      ∧ given'.Ledger event.after.nextHandle event.after.messages
  := by
  intro event
  cases call with
  | append sources =>
      use mem_appendSources toLowercase read T registry h sources
      apply ledger_appendSources toLowercase read T registry h sources
  | replace sourceKeys sources =>
      use mem_appendSources toLowercase read T registry (s := s.withoutSources sourceKeys) h sources
      apply ledger_appendSources toLowercase read T registry (s := s.withoutSources sourceKeys) h
  | remove provider =>
      have hunchanged : ∀ message ∈ s.messages, ¬ChangedSince s.messages message := by
        rintro message hmessage (hall | ⟨old, hold, hidentity, hne⟩)
        · exact absurd rfl (hall message hmessage)
        · apply hne
          rw [List.inj_on_of_nodup_map h.identities hold hmessage hidentity]
      refine ⟨?_, ?_, given, fun _ _ hgiven => hgiven, h.filter _⟩
      · intro key
        constructor
        · intro hkey
          exact absurd hkey (Finset.notMem_empty key)
        · rintro ⟨message, hmessage, hchange, -⟩
          exact absurd hchange (hunchanged message (List.mem_of_mem_filter hmessage))
      · apply (hsorted.pairwise.sublist (List.filter_sublist.map _)).sortedLE

/-- However sources are appended, replaced and removed, the messages that are held have different
handles and different identities and are in the order of their times, a handle stands for one
message alone in all the run, and each call tells the conversations that have changed. -/
theorem sources_exact (decisions : Desktop.Decisions) (relations : Desktop.Relations)
    (calls : List SourceCall) :
  let run := (sourceMachine toLowercase read T registry).history
    (ReviewState.ofStores decisions relations) calls
  (∀ event ∈ run, (event.after.messages.map (·.input.handle)).Nodup
      ∧ (event.after.messages.map ReviewMessage.identity).Nodup
      ∧ (event.after.messages.map (·.input.timestamp)).SortedLE ∧ TellsChanges event)
    ∧ ∀ event ∈ run, ∀ event' ∈ run, ∀ message ∈ event.after.messages,
      ∀ message' ∈ event'.after.messages, message.input.handle = message'.input.handle →
        message.identity = message'.identity
  := by
  intro run
  have hrun := (sourceMachine toLowercase read T registry).run_induction
    (P := fun run s => ∃ given : Given, given.Ledger s.nextHandle s.messages
      ∧ (s.messages.map (·.input.timestamp)).SortedLE
      ∧ ∀ event ∈ run, (event.after.messages.map (·.input.handle)).Nodup
        ∧ (event.after.messages.map ReviewMessage.identity).Nodup
        ∧ (event.after.messages.map (·.input.timestamp)).SortedLE ∧ TellsChanges event
        ∧ ∀ message ∈ event.after.messages, given.Names message)
    (s := ReviewState.ofStores decisions relations)
  have hall := hrun ?_ ?_ calls
  · obtain ⟨given, -, -, hevents⟩ := hall
    constructor
    · intro event hevent
      obtain ⟨hhandles, hidentities, hsorted, htells, -⟩ := hevents event hevent
      exact ⟨hhandles, hidentities, hsorted, htells⟩
    · intro event hevent event' hevent' message hmessage message' hmessage' hhandle
      apply ((hevents event hevent).2.2.2.2 message hmessage).identity_eq
        ((hevents event' hevent').2.2.2.2 message' hmessage') hhandle
  · use fun _ => none
    refine ⟨⟨?_, ?_, ?_⟩, ?_, ?_⟩
    · simp
    · simp [ReviewState.ofStores]
    · simp [ReviewState.ofStores]
    · apply List.Pairwise.sortedLE
      apply List.Pairwise.nil
    · simp
  · rintro run s call ⟨given, hledger, hsorted, hevents⟩
    obtain ⟨htells, hsorted', given', hextends, hledger'⟩ :=
      ledger_step toLowercase read T registry hledger hsorted call
    use given', hledger', hsorted'
    intro event hevent
    rcases List.mem_append.mp hevent with hevent | hevent
    · obtain ⟨hhandles, hidentities, hsorted, htells, hnames⟩ := hevents event hevent
      use hhandles, hidentities, hsorted, htells
      intro message hmessage
      apply (hnames message hmessage).extends hextends
    · rw [List.mem_singleton.mp hevent]
      exact ⟨hledger'.handles, hledger'.identities, hsorted', htells, hledger'.names⟩

end

end Review
