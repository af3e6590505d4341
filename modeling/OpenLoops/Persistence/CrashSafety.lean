import OpenLoops.Library.Log
import OpenLoops.Persistence.Host

/-!
# Crash safety

In a run of a host every commitment that is kept, in the file or by the process, is one to
rows that were there when the anchor was last advanced.  Rows are never removed, so that a
start that accepts the rows of the database, by a commitment to them, finds the very rows
that were there at the last advance, and those are the rows of all transactions that were
committed.  An advance is completed when it has replaced the file, whatever it returns.
-/

namespace Persistence

/-! ### What a run has done -/

/-- An event of a run of a host. -/
abbrev HostEvent := Machine.Event Host HostCall HostAnswer

/-- The envelopes of the transaction an event commits. -/
def committedBy (event : HostEvent) : List Envelope :=
  match event.input, event.output with
  | .writeTransaction envelopes _, .wrote (.ok ()) => envelopes
  | _, _ => []

/-- The envelopes of all transactions that were committed. -/
def committedEnvelopes (history : List HostEvent) : List Envelope :=
  history.flatMap committedBy

namespace Device

variable (device : Device)

/-- Whether an event is an advance of the anchor that replaced the file. -/
def completesAdvance (event : HostEvent) : Bool :=
  match event.input with
  | .advanceAfterCommit bundle rows now access =>
      match event.before.held bundle rows with
      | none => false
      | some (bundle, rows) =>
          advanceReplaces device.hmac device.dpapi access event.before.file device.account
            bundle rows now
  | _ => false

/-- The rows that are in a database. -/
def presentRows (store : Store) : List Envelope :=
  match store.readAll device.engine device.account false with
  | .ok rows => rows
  | .error _ => []

/-- The rows that were in the database at the last completed advance, none before the
first. -/
def lastAnchored (history : List HostEvent) : List Envelope :=
  match (history.filter device.completesAdvance).getLast? with
  | some event => device.presentRows event.before.store
  | none => []

/-- The message of a commitment to rows, when there is one. -/
def messageOf (generation : NonZeroU64) (rows : List Envelope) : List Bytes :=
  (Anchor.message device.account generation rows).toOption.toList

/-- The messages whose HMAC an event computes with the key of the anchor. -/
def macInputs (event : HostEvent) : List Bytes :=
  match event.input, event.output with
  | .advanceAfterCommit bundle rows _ _, _ =>
      match event.before.held bundle rows with
      | none => []
      | some (bundle, rows) =>
          (Anchor.nextGeneration bundle.anchorGeneration).toList.flatMap fun generation =>
            device.messageOf generation rows
  | .startupReconcile _ access _, .started rows _ =>
      match readAndUnprotect device.dpapi access event.before.file with
      | .ok (some bundle) => device.messageOf bundle.anchorGeneration rows
      | _ => []
  | _, _ => []

/-- The messages whose HMAC a run computes, the first one when the state root is created. -/
def macMessages (history : List HostEvent) : List Bytes :=
  device.messageOf Anchor.firstGeneration [] ++ history.flatMap device.macInputs

/-- One more event moves the last completed advance when it completes one. -/
theorem lastAnchored_snoc (history : List HostEvent) (event : HostEvent) :
  device.lastAnchored (history ++ [event]) =
    if device.completesAdvance event then device.presentRows event.before.store
    else device.lastAnchored history
  := by
  rw [lastAnchored, List.filter_append]
  split_ifs with h
  · rw [List.filter_cons_of_pos h, List.filter_nil, List.getLast?_concat]
  · rw [List.filter_cons_of_neg h, List.filter_nil, List.append_nil, lastAnchored]

/-! ### The invariant -/

/-- A bundle has the key of the anchor and commits, with one of `messages`, to rows that are
among `anchored`. -/
def Commits (key : Vector UInt8 32) (messages : List Bytes) (anchored : List Envelope)
    (bundle : StateRootBundle) : Prop :=
  bundle.anchorKeyBytes = key
    ∧ ∃ rows message, rows.Subperm anchored ∧ message ∈ messages
      ∧ Anchor.message device.account bundle.anchorGeneration rows = .ok message
      ∧ bundle.anchorCommitment = device.hmac key message

/-- The database holds the committed envelopes, among them those that were there at the last
advance and all that were ever read, and every bundle commits to such that were there at
the last advance. -/
structure Consistent (key : Vector UInt8 32) (messages : List Bytes)
    (committed anchored : List Envelope) (host : Host) : Prop where
  holds : ∃ contents, Store.Holds host.store device.account contents
    ∧ (RecordType.ALL.flatMap contents).Perm committed
  among : anchored.Subperm committed
  reads : ∀ rows ∈ host.reads, rows.Subperm committed
  file : ∃ bundle seed, host.file = some (device.dpapi.protect seed bundle.encode)
    ∧ device.Commits key messages anchored bundle
  bundles : ∀ bundle ∈ host.bundles, device.Commits key messages anchored bundle

variable {device} {key : Vector UInt8 32} {messages : List Bytes}
variable {committed anchored : List Envelope} {host : Host}

/-- A commitment stays one when more messages and more rows are allowed. -/
theorem Commits.mono {messages' : List Bytes} {anchored' : List Envelope}
    {bundle : StateRootBundle} (h : device.Commits key messages anchored bundle)
    (hmessages : messages ⊆ messages') (hanchored : anchored.Subperm anchored') :
  device.Commits key messages' anchored' bundle
  := by
  obtain ⟨hkey, rows, message, hrows, hmessage, hframed, hcommitment⟩ := h
  exact ⟨hkey, rows, message, hrows.trans hanchored, hmessages hmessage, hframed,
    hcommitment⟩

/-- Whatever is read are the committed envelopes. -/
theorem Consistent.readAll_perm {rows : List Envelope} {fails : Bool}
    (h : device.Consistent key messages committed anchored host)
    (hread : host.store.readAll device.engine device.account fails = .ok rows) :
  rows.Perm committed
  := by
  obtain ⟨contents, hholds, hcontents⟩ := h.holds
  cases fails with
  | true => cases hread
  | false =>
      obtain ⟨order, horder, hread'⟩ := hholds.readAll device.engine
      rw [hread'] at hread
      cases hread
      apply List.Perm.trans _ hcontents
      apply List.Perm.flatMap_left
      intro rt _
      apply horder rt

/-- The rows that are in the database are the committed envelopes. -/
theorem Consistent.presentRows_perm
    (h : device.Consistent key messages committed anchored host) :
  (device.presentRows host.store).Perm committed
  := by
  obtain ⟨contents, hholds, _⟩ := h.holds
  obtain ⟨order, _, hread⟩ := hholds.readAll device.engine
  rw [presentRows, hread]
  apply h.readAll_perm hread

/-- More messages keep a host consistent. -/
theorem Consistent.mono {messages' : List Bytes}
    (h : device.Consistent key messages committed anchored host)
    (hmessages : messages ⊆ messages') :
  device.Consistent key messages' committed anchored host
  := by
  obtain ⟨bundle, seed, hfile, hbundle⟩ := h.file
  exact { h with
    file := ⟨bundle, seed, hfile, hbundle.mono hmessages (List.Subperm.refl _)⟩
    bundles := fun bundle hbundle =>
      (h.bundles bundle hbundle).mono hmessages (List.Subperm.refl _) }

/-- A process that is returned a bundle that commits to rows there were stays consistent. -/
theorem Consistent.hold {ε : Type} {result : Except ε StateRootBundle}
    (h : device.Consistent key messages committed anchored host)
    (hresult : ∀ bundle, result = .ok bundle → device.Commits key messages anchored bundle) :
  device.Consistent key messages committed anchored (host.hold result)
  := by
  refine { h with bundles := ?_ }
  intro bundle hbundle
  rcases List.mem_append.mp hbundle with hbundle | hbundle
  · apply h.bundles bundle hbundle
  · cases result with
    | error e => cases hbundle
    | ok returned =>
        rw [List.mem_singleton.mp hbundle]
        apply hresult returned rfl

/-! ### What a step preserves -/

/-- A transaction adds its envelopes to the committed ones. -/
theorem Consistent.write {envelopes : List Envelope} {fails : Bool} {store : Store}
    (h : device.Consistent key messages committed anchored host)
    (hwrite : host.store.writeTransaction device.account envelopes fails = .ok store) :
  device.Consistent key messages (committed ++ envelopes) anchored { host with store }
  := by
  obtain ⟨contents, hholds, hcontents⟩ := h.holds
  have hadded : committed.Subperm (committed ++ envelopes) :=
    (List.sublist_append_left _ _).subperm
  constructor
  · refine ⟨_, hholds.writeTransaction hwrite, ?_⟩
    apply (List.flatMap_append_perm _ _ _).symm.trans
    apply hcontents.append
    apply Log.perm_flatMap_filter (fun e : Envelope => e.aad.recordType) RecordType.nodup_ALL
    intro e _
    apply RecordType.mem_ALL
  · apply h.among.trans hadded
  · intro rows hrows
    apply (h.reads rows hrows).trans hadded
  · exact h.file
  · exact h.bundles

/-- The rows that are read are among the committed ones. -/
theorem Consistent.read {rows : List Envelope} {fails : Bool}
    (h : device.Consistent key messages committed anchored host)
    (hread : host.store.readAll device.engine device.account fails = .ok rows) :
  device.Consistent key messages committed anchored
    { host with reads := host.reads ++ [rows] }
  := by
  refine { h with reads := ?_ }
  intro rows' hrows
  rcases List.mem_append.mp hrows with hrows | hrows
  · apply h.reads rows' hrows
  · rw [List.mem_singleton.mp hrows]
    apply (h.readAll_perm hread).subperm

/-- A reservation keeps the commitment of the bundle, in the file and in the bundle it
returns. -/
theorem Consistent.reserve {bundle : StateRootBundle} {count : UInt32} {access : Access}
    {result : Except StateRootError (StateRootBundle × ReservationBatch)}
    {file : Option Bytes}
    (h : device.Consistent key messages committed anchored host)
    (hbundle : bundle ∈ host.bundles)
    (hreserve : reserveAeadBatch device.dpapi access host.file bundle count
      = (result, file)) :
  device.Consistent key messages committed anchored
    ({ host with file }.hold (result.map Prod.fst))
  := by
  have hcommits := h.bundles bundle hbundle
  rcases reserveAeadBatch_cases hreserve with
    ⟨⟨e, rfl⟩, rfl⟩ | ⟨usage, batch, _, rfl, rfl⟩
  · apply h.hold
    intro _ heq
    cases heq
  · apply Consistent.hold
    · exact { h with file := ⟨_, access.seed, rfl, hcommits⟩ }
    · intro _ heq
      cases heq
      exact hcommits

/-- The bundle of the next generation commits to the rows it was advanced over. -/
theorem Commits.advanced {bundle next : StateRootBundle} {rows : List Envelope} {now : UInt64}
    (h : device.Commits key messages anchored bundle)
    (hadvanced : bundle.advanced device.hmac device.account rows now = .ok next)
    (hrows : rows.Subperm anchored)
    (hmessages : ∀ generation, Anchor.nextGeneration bundle.anchorGeneration = some generation →
      device.messageOf generation rows ⊆ messages) :
  device.Commits key messages anchored next
  := by
  obtain ⟨generation, framed, hgeneration, hframed, rfl⟩ :=
    StateRootBundle.advanced_eq_ok hadvanced
  refine ⟨h.1, rows, framed, hrows, ?_, hframed, ?_⟩
  · apply hmessages generation hgeneration
    rw [messageOf, hframed]
    apply List.mem_singleton_self
  · rw [← h.1]

/-- An advance that replaces the file leaves commitments to rows that are there; any other
changes nothing. -/
theorem Consistent.advance {bundle : StateRootBundle} {rows : List Envelope} {now : UInt64}
    {access : Access} {result : Except StateRootError StateRootBundle} {file : Option Bytes}
    (h : device.Consistent key messages committed anchored host)
    (hbundle : bundle ∈ host.bundles) (hrows : rows ∈ host.reads)
    (hmessages : ∀ generation, Anchor.nextGeneration bundle.anchorGeneration = some generation →
      device.messageOf generation rows ⊆ messages)
    (hadvance : advanceAfterCommit device.hmac device.dpapi access host.file device.account
      bundle rows now = (result, file)) :
  device.Consistent key messages committed
    (if advanceReplaces device.hmac device.dpapi access host.file device.account bundle rows
      now then device.presentRows host.store else anchored)
    ({ host with file }.hold result)
  := by
  rcases advanceAfterCommit_cases hadvance with
    ⟨hreplaces, ⟨e, rfl⟩, rfl⟩ | ⟨hreplaces, next, hnext, rfl, hresult⟩
  · rw [hreplaces, if_neg Bool.false_ne_true]
    apply h.hold
    intro _ heq
    cases heq
  · rw [hreplaces, if_pos rfl]
    have hpresent := h.presentRows_perm
    have hmore : anchored.Subperm (device.presentRows host.store) :=
      h.among.trans hpresent.symm.subperm
    have hcommits := (h.bundles bundle hbundle).mono (List.Subset.refl messages) hmore
    have hnext := hcommits.advanced hnext
      ((h.reads rows hrows).trans hpresent.symm.subperm) hmessages
    apply Consistent.hold
    · exact {
        holds := h.holds
        among := hpresent.subperm
        reads := h.reads
        file := ⟨next, access.seed, rfl, hnext⟩
        bundles := fun bundle hbundle =>
          (h.bundles bundle hbundle).mono (List.Subset.refl _) hmore }
    · intro returned heq
      rw [hresult returned heq]
      apply hnext

/-- A start returns no other bundle than the one in the file. -/
theorem Consistent.start {rows : List Envelope} {now : UInt64} {access : Access}
    {outcome : Except FreezeCause StateRootBundle}
    (h : device.Consistent key messages committed anchored host)
    (hstart : startupReconcile device.hmac device.dpapi access host.file device.account rows
      now = .ok outcome) :
  device.Consistent key messages committed anchored (host.hold outcome)
  := by
  apply h.hold
  rintro accepted rfl
  obtain ⟨bundle, seed, hfile, hbundle⟩ := h.file
  have hread := (startupReconcile_accepted hstart).1
  rw [hfile] at hread
  rw [eq_of_readAndUnprotect hread]
  apply hbundle

/-- An event that neither commits envelopes nor advances the anchor adds only messages. -/
theorem Consistent.quiet {event : HostEvent} {host' : Host}
    (h : device.Consistent key (messages ++ device.macInputs event) committed anchored host')
    (hcommitted : committedBy event = []) (hadvance : device.completesAdvance event = false) :
  device.Consistent key (messages ++ device.macInputs event) (committed ++ committedBy event)
    (if device.completesAdvance event then device.presentRows event.before.store
      else anchored) host'
  := by
  rw [hcommitted, hadvance, List.append_nil, if_neg Bool.false_ne_true]
  apply h

/-- Every event keeps the host consistent with what it adds. -/
theorem Consistent.event (h : device.Consistent key messages committed anchored host)
    (call : HostCall) :
  device.Consistent key (messages ++ device.macInputs (device.host.event host call))
    (committed ++ committedBy (device.host.event host call))
    (if device.completesAdvance (device.host.event host call) then
      device.presentRows host.store else anchored)
    (device.host.next host call)
  := by
  have h := h.mono (List.subset_append_left _ (device.macInputs (device.host.event host call)))
  cases call with
  | reserveAeadBatch index count access =>
      apply Consistent.quiet _ rfl rfl
      show device.Consistent _ _ _ _ (device.reserve host index count access).1
      rw [Device.reserve]
      cases hbundle : host.bundles[index]? with
      | none => exact h
      | some bundle => apply h.reserve (List.mem_of_getElem? hbundle) rfl
  | writeTransaction envelopes fails =>
      cases hwrite : host.store.writeTransaction device.account envelopes fails with
      | error e =>
          have hstep : device.host.step host (.writeTransaction envelopes fails)
              = (host, .wrote (.error e)) := by
            show device.write host envelopes fails = _
            rw [Device.write, hwrite]
          apply Consistent.quiet
          · rw [Machine.next, hstep]
            apply h
          · rw [Machine.event, hstep]
            rfl
          · rfl
      | ok store =>
          have hstep : device.host.step host (.writeTransaction envelopes fails)
              = ({ host with store }, .wrote (.ok ())) := by
            show device.write host envelopes fails = _
            rw [Device.write, hwrite]
          rw [Machine.event, hstep] at h ⊢
          rw [Machine.next, hstep]
          apply h.write hwrite
  | readAll fails =>
      apply Consistent.quiet _ rfl rfl
      show device.Consistent _ _ _ _ (device.read host fails).1
      rw [Device.read]
      cases hread : host.store.readAll device.engine device.account fails with
      | error e => exact h
      | ok rows => apply h.read hread
  | advanceAfterCommit index rowsIndex now access =>
      cases hheld : host.held index rowsIndex with
      | none =>
          apply Consistent.quiet
          · show device.Consistent _ _ _ _ (device.advance host index rowsIndex now access).1
            rw [Device.advance, hheld]
            apply h
          · rfl
          · simp [completesAdvance, hheld]
      | some held =>
          obtain ⟨bundle, rows⟩ := held
          obtain ⟨hbundle, hrows⟩ := Host.held_eq_some hheld
          have hcompletes : device.completesAdvance
              (device.host.event host (.advanceAfterCommit index rowsIndex now access))
              = advanceReplaces device.hmac device.dpapi access host.file device.account bundle
                rows now := by
            simp [completesAdvance, hheld]
          show device.Consistent _ _ (_ ++ []) _
            (device.advance host index rowsIndex now access).1
          rw [hcompletes, List.append_nil, Device.advance, hheld]
          apply h.advance hbundle hrows _ rfl
          intro generation hgeneration
          apply List.subset_append_of_subset_right
          simp [macInputs, hheld, hgeneration]
  | startupReconcile now access readFails =>
      apply Consistent.quiet _ rfl rfl
      show device.Consistent _ _ _ _ (device.start host now access readFails).1
      rw [Device.start]
      cases hread : host.store.readAll device.engine device.account readFails with
      | error e => exact h
      | ok rows =>
          dsimp only
          cases hstart : startupReconcile device.hmac device.dpapi access host.file
              device.account rows now with
          | error e => exact h
          | ok outcome => apply h.start hstart
  | crash =>
      apply Consistent.quiet _ rfl rfl
      exact { h with
        reads := fun _ hrows => nomatch hrows
        bundles := fun _ hbundle => nomatch hbundle }

/-- Every event keeps the host consistent with what the run has done. -/
theorem Consistent.next {history : List HostEvent}
    (h : device.Consistent key (device.macMessages history) (committedEnvelopes history)
      (device.lastAnchored history) host) (call : HostCall) :
  device.Consistent key (device.macMessages (history ++ [device.host.event host call]))
    (committedEnvelopes (history ++ [device.host.event host call]))
    (device.lastAnchored (history ++ [device.host.event host call]))
    (device.host.next host call)
  := by
  rw [macMessages, committedEnvelopes, List.flatMap_append, List.flatMap_append,
    List.flatMap_singleton, List.flatMap_singleton, ← List.append_assoc, lastAnchored_snoc]
  apply h.event call

/-- A host is consistent when its state root was created. -/
theorem Consistent.created {draws : Draws} {bundle : StateRootBundle} {access : Access}
    {file : Option Bytes}
    (hfresh : (StateRootBundle.fresh device.hmac device.account).run' draws = .ok bundle)
    (hwrite : protectAndWrite device.dpapi access none bundle = (.ok (), file)) :
  device.Consistent bundle.anchorKeyBytes (device.macMessages []) (committedEnvelopes [])
    (device.lastAnchored []) (Host.created bundle file)
  := by
  obtain ⟨hgeneration, hcompute⟩ := StateRootBundle.fresh_eq_ok hfresh
  obtain ⟨framed, hframed, hcommitment⟩ := Anchor.compute_eq_ok hcompute
  have hcommits : device.Commits bundle.anchorKeyBytes (device.macMessages []) [] bundle := by
    refine ⟨rfl, [], framed, List.Subperm.refl [], ?_, hframed, hcommitment⟩
    rw [hgeneration] at hframed
    rw [macMessages, messageOf, hframed]
    apply List.mem_singleton_self
  constructor
  · exact ⟨_, Store.holds_open device.account, List.Perm.refl _⟩
  · exact List.Subperm.refl []
  · intro rows hrows
    cases hrows
  · rcases protectAndWrite_cases hwrite with ⟨e, h, _⟩ | ⟨_, rfl⟩
    · cases h
    · exact ⟨bundle, access.seed, rfl, hcommits⟩
  · intro returned hreturned
    rw [List.mem_singleton.mp hreturned]
    apply hcommits

/-- At the end of every run the host is consistent with what the run has done. -/
theorem Consistent.final {draws : Draws} {bundle : StateRootBundle} {access : Access}
    {file : Option Bytes}
    (hfresh : (StateRootBundle.fresh device.hmac device.account).run' draws = .ok bundle)
    (hwrite : protectAndWrite device.dpapi access none bundle = (.ok (), file))
    (calls : List HostCall) :
  device.Consistent bundle.anchorKeyBytes
    (device.macMessages (device.host.history (Host.created bundle file) calls))
    (committedEnvelopes (device.host.history (Host.created bundle file) calls))
    (device.lastAnchored (device.host.history (Host.created bundle file) calls))
    (device.host.final (Host.created bundle file) calls)
  := by
  apply device.host.run_induction (P := fun history host =>
    device.Consistent bundle.anchorKeyBytes (device.macMessages history)
      (committedEnvelopes history) (device.lastAnchored history) host)
  · exact Consistent.created hfresh hwrite
  · intro history host call h
    apply h.next call

/-! ### Starts -/

/-- A start reads the rows of the database and checks them against the file. -/
theorem start_eq_started {now : UInt64} {access : Access} {readFails : Bool}
    {rows : List Envelope}
    {result : Except StateRootError (Except FreezeCause StateRootBundle)}
    (h : (device.host.event host (.startupReconcile now access readFails)).output
      = .started rows result) :
  host.store.readAll device.engine device.account readFails = .ok rows
    ∧ startupReconcile device.hmac device.dpapi access host.file device.account rows now
      = result
  := by
  change (device.start host now access readFails).2 = _ at h
  rw [Device.start] at h
  split at h
  · cases h
  · rename_i read hread
    split at h
    · rename_i e hstart
      cases h
      exact ⟨hread, hstart⟩
    · rename_i outcome hstart
      cases h
      exact ⟨hread, hstart⟩

/-- When the HMAC does not collide, rows that verify against the commitment of a bundle are
all the rows that were there at the last advance, and nothing was committed since. -/
theorem Consistent.verified {bundle : StateRootBundle} {rows : List Envelope}
    (h : device.Consistent key messages committed anchored host)
    (hbundle : device.Commits key messages anchored bundle)
    (hrows : rows.Perm committed)
    (hmac : Set.InjOn (device.hmac key)
      {m | m ∈ messages ++ device.messageOf bundle.anchorGeneration rows})
    (hverify : Anchor.verify device.hmac ⟨bundle.anchorKeyBytes⟩
      ⟨bundle.anchorKeyId, bundle.anchorGeneration, bundle.anchorCommitment⟩ device.account rows
      = .ok ()) :
  anchored.Perm committed
  := by
  obtain ⟨hkey, among, message, hamong, hmessage, hframed, hcommitment⟩ := hbundle
  obtain ⟨framed, hframed', hcommitment'⟩ := Anchor.verify_eq_ok hverify
  dsimp only at hframed' hcommitment'
  rw [hkey, hcommitment] at hcommitment'
  have heq : message = framed := by
    apply hmac (List.mem_append_left _ hmessage) _ hcommitment'
    apply List.mem_append_right
    rw [messageOf, hframed']
    apply List.mem_singleton_self
  subst heq
  have hsame := (Anchor.message_inj hframed hframed').2
  -- the rows the bundle commits to are no more than those at the last advance, and these no
  -- more than the rows there are
  have hlength : committed.length ≤ anchored.length := by
    rw [← hrows.length_eq, ← hsame.length_eq]
    apply hamong.length_le
  apply h.among.perm_of_length_le hlength

end Device

/-- However a host was run since its state root was created, a start accepts the rows of the
database only if they are those that were there at the last completed advance, and then
they are those of all transactions that were committed; any other rows are not accepted, and
freeze the start whenever the file can be read. -/
theorem startup_accepts_anchored (device : Device) {draws : Draws} {bundle : StateRootBundle}
    {access : Access} {file : Option Bytes}
    (hfresh : (StateRootBundle.fresh device.hmac device.account).run' draws = .ok bundle)
    (hwrite : protectAndWrite device.dpapi access none bundle = (.ok (), file))
    (calls : List HostCall) (now : UInt64) (access' : Access) (readFails : Bool)
    (hmac : Set.InjOn (device.hmac bundle.anchorKeyBytes)
      {m | m ∈ device.macMessages (device.host.history (Host.created bundle file)
        (calls ++ [.startupReconcile now access' readFails]))})
    {rows : List Envelope}
    {result : Except StateRootError (Except FreezeCause StateRootBundle)}
    (hstart : (device.host.event (device.host.final (Host.created bundle file) calls)
      (.startupReconcile now access' readFails)).output = .started rows result) :
  ((∃ accepted, result = .ok (.ok accepted)) →
      rows.Perm (device.lastAnchored (device.host.history (Host.created bundle file) calls))
        ∧ rows.Perm (committedEnvelopes (device.host.history (Host.created bundle file) calls)))
    ∧ (¬rows.Perm (device.lastAnchored (device.host.history (Host.created bundle file) calls)) →
      (∀ accepted, result ≠ .ok (.ok accepted))
        ∧ (access'.Readable → ∃ cause, result = .ok (.error cause)))
  := by
  have hfinal := Device.Consistent.final hfresh hwrite calls
  obtain ⟨hread, hresult⟩ := Device.start_eq_started hstart
  have hcommitted := hfinal.readAll_perm hread
  have haccepts : (∃ accepted, result = .ok (.ok accepted)) →
      (device.lastAnchored (device.host.history (Host.created bundle file) calls)).Perm
        (committedEnvelopes (device.host.history (Host.created bundle file) calls)) := by
    rintro ⟨accepted, haccepted⟩
    rw [haccepted] at hresult
    obtain ⟨hfile, hverify⟩ := startupReconcile_accepted hresult
    obtain ⟨inFile, seed, hinFile, hcommits⟩ := hfinal.file
    have hsame := hfile
    rw [hinFile] at hsame
    rw [← eq_of_readAndUnprotect hsame] at hcommits
    apply hfinal.verified hcommits hcommitted _ hverify
    -- the start itself computes one more HMAC, to verify the rows
    have hmessages : device.macInputs (device.host.event
        (device.host.final (Host.created bundle file) calls)
        (.startupReconcile now access' readFails))
        = device.messageOf accepted.anchorGeneration rows := by
      rw [Device.macInputs, hstart, Machine.event_input, Machine.event_before]
      dsimp only
      rw [hfile]
    rw [Machine.history_snoc, Device.macMessages, List.flatMap_append, List.flatMap_singleton,
      hmessages, ← List.append_assoc] at hmac
    exact hmac
  constructor
  · intro h
    exact ⟨hcommitted.trans (haccepts h).symm, hcommitted⟩
  · intro hdiffers
    constructor
    · intro accepted haccepted
      apply hdiffers (hcommitted.trans (haccepts ⟨accepted, haccepted⟩).symm)
    · intro haccess
      obtain ⟨inFile, seed, hinFile, _⟩ := hfinal.file
      rw [hinFile] at hresult
      obtain ⟨outcome, houtcome⟩ := startupReconcile_decides haccess inFile seed rows now
      rw [houtcome] at hresult
      cases outcome with
      | error cause => exact ⟨cause, hresult.symm⟩
      | ok accepted =>
          exact (hdiffers (hcommitted.trans (haccepts ⟨accepted, hresult.symm⟩).symm)).elim

/-! ### A run -/

/-- A device on which everything is in the open; its HMAC is the remainder by a number of
thirty-two bytes. -/
def sampleDevice : Device where
  engine := ⟨id, fun rows => List.Perm.refl rows⟩
  hmac _ message := Vector.ofFn fun i =>
    (Wire.be 32 (Wire.ofBe message % (256 ^ 32 - 1))).getD i 0
  dpapi :=
    { protect _ plaintext := 0 :: plaintext
      unprotect blob := some blob.tail
      unprotect_protect _ _ := rfl
      length_protect _ plaintext := by
        simp [GENEROUS_PROTECTED_BOUND] }
  account := ⟨Vector.replicate 16 3, threes_ne_zeros⟩

/-- The bundle that is made of the draws of five arrays. -/
def sampleBundle : StateRootBundle where
  aeadKeyId := ⟨Vector.replicate 16 1, ones_ne_zeros⟩
  aeadKeyBytes := Vector.replicate 32 2
  aeadUsage := 0
  contentDigestKeyBytes := Vector.replicate 32 3
  anchorKeyId := ⟨Vector.replicate 16 4, fours_ne_zeros⟩
  anchorKeyBytes := Vector.replicate 32 5
  anchorGeneration := Anchor.firstGeneration
  anchorCommitment := sampleDevice.hmac (Vector.replicate 32 5)
    (Anchor.DOMAIN ++ List.replicate 16 3 ++ Wire.be 8 1 ++ Wire.be 4 0)
  lastObservedUnixSeconds := 0
  distinct := ones_ne_fours

/-- The host after this bundle was created. -/
def sampleHost : Host :=
  Host.created sampleBundle (some (0 :: sampleBundle.encode))

/-- A record to write. -/
def sampleEnvelope : Envelope where
  aad :=
    { keyId := sampleBundle.aeadKeyId
      accountBindingAad := sampleDevice.account
      recordType := .loop
      recordId := ⟨Vector.replicate 16 9, nines_ne_zeros⟩
      schemaVersion := ⟨1, firstSchema_ne_zero⟩ }
  nonce := Vector.replicate 12 9
  tag := Vector.replicate 16 0
  ciphertext := [1, 2, 3]

/-- Write a record after its attempt was reserved, advance the anchor over it, and crash. -/
def sampleCalls : List HostCall :=
  [.reserveAeadBatch 0 1 (Access.sound 0), .writeTransaction [sampleEnvelope] false,
    .readAll false, .advanceAfterCommit 1 0 100 (Access.sound 1), .crash]

/-- The bundle that this run leaves in the file. -/
def sampleAdvanced : StateRootBundle :=
  { sampleBundle with
    aeadUsage := 1
    anchorGeneration := ⟨2, NonZeroU64.two_ne_zero⟩
    anchorCommitment := sampleDevice.hmac (Vector.replicate 32 5)
      (Anchor.DOMAIN ++ List.replicate 16 3 ++ Wire.be 8 2 ++ Wire.be 4 1
        ++ Anchor.rowBytes sampleEnvelope)
    lastObservedUnixSeconds := 100 }

/-- After this run a start accepts the record that was written. -/
theorem sampleCalls_accepted :
  (sampleDevice.host.event (sampleDevice.host.final sampleHost sampleCalls)
      (.startupReconcile 200 (Access.sound 2) false)).output
      = .started [sampleEnvelope] (.ok (.ok sampleAdvanced))
    ∧ [sampleEnvelope].Perm
      (sampleDevice.lastAnchored (sampleDevice.host.history sampleHost sampleCalls))
    ∧ [sampleEnvelope].Perm
      (committedEnvelopes (sampleDevice.host.history sampleHost sampleCalls))
  := by
  have hfresh : (StateRootBundle.fresh sampleDevice.hmac sampleDevice.account).run'
      ([1, 2, 3, 4, 5].map fun byte => some fun _ => byte) = .ok sampleBundle := by
    decide
  have hwrite : protectAndWrite sampleDevice.dpapi (Access.sound 0) none sampleBundle
      = (.ok (), some (0 :: sampleBundle.encode)) := by
    decide +kernel
  have hmac : Set.InjOn (sampleDevice.hmac sampleBundle.anchorKeyBytes)
      {m | m ∈ sampleDevice.macMessages (sampleDevice.host.history sampleHost
        (sampleCalls ++ [.startupReconcile 200 (Access.sound 2) false]))} := by
    decide +kernel
  have hstart : (sampleDevice.host.event (sampleDevice.host.final sampleHost sampleCalls)
      (.startupReconcile 200 (Access.sound 2) false)).output
      = .started [sampleEnvelope] (.ok (.ok sampleAdvanced)) := by
    decide +kernel
  use hstart
  apply (startup_accepts_anchored sampleDevice hfresh hwrite sampleCalls 200 (Access.sound 2)
    false hmac hstart).1
  use sampleAdvanced

end Persistence
