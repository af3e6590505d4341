import OpenLoops.Persistence.Ids

/-!
# Purpose-separated digests

A digest is the HMAC of a frame that names its purpose, the account and the schema
version, followed by the length-prefixed components.  Frames of one purpose are told
apart by what they were made of; the HMAC itself is a parameter.
-/

namespace Persistence

/-- The key of the content digests. -/
structure ContentDigestKey where
  bytes : Vector UInt8 32
deriving DecidableEq

/-- HMAC-SHA-256, from a key and a message to thirty-two bytes. -/
abbrev Hmac := Vector UInt8 32 → Bytes → Vector UInt8 32

/-- The closed catalog of purposes. -/
inductive PurposeTag where
  | syncCheckpointQueryFingerprint
  | messageObservationSourceVersion
  | messageObservationObservedVersion
  | emailEvidenceRefMessageLocatorMailboxBinding
  | emailEvidenceRefContentDigest
  | emailEvidenceRefPrefixDigest
  | emailEvidenceRefSuffixDigest
  | calendarInvitationRefEventVersion
  | userAuthoredArtifactRefTitleDigest
  | userAuthoredArtifactRefBodyDigest
  | userAuthoredArtifactRefDueDigest
  | userAuthoredArtifactRefTitleVersion
  | userAuthoredArtifactRefBodyVersion
  | userAuthoredArtifactRefDueVersion
  | reminderLinkTitleDigest
  | reminderLinkBodyDigest
  | reminderLinkDueDigest
  | reminderLinkArtifactVersion
  | reminderLinkObservedRemoteVersion
  | reminderLinkRemoteCorrelation
  | operationLedgerOperationKey
  | operationLedgerExpectedRemoteVersion
  | operationLedgerRemoteCorrelation
deriving DecidableEq, Repr

namespace PurposeTag

/-- The text of a purpose. -/
def tagStr : PurposeTag → String
  | syncCheckpointQueryFingerprint => "openloops-hmac-v1/sync_checkpoint/query_fingerprint"
  | messageObservationSourceVersion => "openloops-hmac-v1/message_observation/source_version"
  | messageObservationObservedVersion =>
      "openloops-hmac-v1/message_observation/observed_version"
  | emailEvidenceRefMessageLocatorMailboxBinding =>
      "openloops-hmac-v1/email_evidence_ref.message_locator/mailbox_binding"
  | emailEvidenceRefContentDigest => "openloops-hmac-v1/email_evidence_ref/content_digest"
  | emailEvidenceRefPrefixDigest => "openloops-hmac-v1/email_evidence_ref/prefix_digest"
  | emailEvidenceRefSuffixDigest => "openloops-hmac-v1/email_evidence_ref/suffix_digest"
  | calendarInvitationRefEventVersion =>
      "openloops-hmac-v1/calendar_invitation_ref/event_version"
  | userAuthoredArtifactRefTitleDigest =>
      "openloops-hmac-v1/user_authored_artifact_ref/title_digest"
  | userAuthoredArtifactRefBodyDigest =>
      "openloops-hmac-v1/user_authored_artifact_ref/body_digest"
  | userAuthoredArtifactRefDueDigest =>
      "openloops-hmac-v1/user_authored_artifact_ref/due_digest"
  | userAuthoredArtifactRefTitleVersion =>
      "openloops-hmac-v1/user_authored_artifact_ref/title_version"
  | userAuthoredArtifactRefBodyVersion =>
      "openloops-hmac-v1/user_authored_artifact_ref/body_version"
  | userAuthoredArtifactRefDueVersion =>
      "openloops-hmac-v1/user_authored_artifact_ref/due_version"
  | reminderLinkTitleDigest => "openloops-hmac-v1/reminder_link/title_digest"
  | reminderLinkBodyDigest => "openloops-hmac-v1/reminder_link/body_digest"
  | reminderLinkDueDigest => "openloops-hmac-v1/reminder_link/due_digest"
  | reminderLinkArtifactVersion => "openloops-hmac-v1/reminder_link/artifact_version"
  | reminderLinkObservedRemoteVersion =>
      "openloops-hmac-v1/reminder_link/observed_remote_version"
  | reminderLinkRemoteCorrelation => "openloops-hmac-v1/reminder_link/remote_correlation"
  | operationLedgerOperationKey => "openloops-hmac-v1/operation_ledger/operation_key"
  | operationLedgerExpectedRemoteVersion =>
      "openloops-hmac-v1/operation_ledger/expected_remote_version"
  | operationLedgerRemoteCorrelation =>
      "openloops-hmac-v1/operation_ledger/remote_correlation"

/-- Whether the layout of the components is closed. -/
def isLayoutClosed : PurposeTag → Bool
  | syncCheckpointQueryFingerprint | messageObservationSourceVersion
  | messageObservationObservedVersion | emailEvidenceRefMessageLocatorMailboxBinding
  | emailEvidenceRefContentDigest | emailEvidenceRefPrefixDigest
  | emailEvidenceRefSuffixDigest => true
  | _ => false

/-- The purposes whose layout is closed, in the order of the catalog. -/
def closed : List PurposeTag :=
  [syncCheckpointQueryFingerprint, messageObservationSourceVersion,
    messageObservationObservedVersion, emailEvidenceRefMessageLocatorMailboxBinding,
    emailEvidenceRefContentDigest, emailEvidenceRefPrefixDigest, emailEvidenceRefSuffixDigest]

/-- The listed purposes are those whose layout is closed. -/
theorem mem_closed {p : PurposeTag} (hp : p.isLayoutClosed = true) :
  p ∈ closed
  := by
  cases p <;> simp_all [closed, isLayoutClosed]

/-- The texts of the purposes whose layout is closed are short, and no two are alike. -/
theorem closed_texts :
  (∀ text ∈ closed.map fun p => Wire.ascii p.tagStr, text.length < 256 ^ 2)
    ∧ (closed.map fun p => Wire.ascii p.tagStr).Nodup
  := by
  decide

end PurposeTag

inductive DigestError where
  | layoutNotYetOwned
  | tooManyComponents
  | componentTooLarge
  | mismatch
deriving DecidableEq, Repr

namespace Digest

/-- The fixed text that starts every frame. -/
def DOMAIN : Bytes :=
  Wire.ascii "openloops-hmac-v1"

/-- A component with its length in front. -/
def frameComponent (component : Bytes) : Except DigestError Bytes :=
  if component.length < 2 ^ 32 then .ok (Wire.be 4 component.length ++ component)
  else .error .componentTooLarge

/-- The message a digest is the HMAC of. -/
def frame (purpose : PurposeTag) (accountBinding : AccountBindingAad)
    (schemaVersion : SchemaVersion) (components : List Bytes) : Except DigestError Bytes :=
  if purpose.isLayoutClosed = false then .error .layoutNotYetOwned
  else if 2 ^ 16 ≤ components.length then .error .tooManyComponents
  else do
    let tagBytes := Wire.ascii purpose.tagStr
    let framed ← components.mapM frameComponent
    return DOMAIN
      ++ Wire.be 2 tagBytes.length
      ++ tagBytes
      ++ accountBinding.bytes.toList
      ++ Wire.be 4 schemaVersion.get.toNat
      ++ Wire.be 2 components.length
      ++ framed.flatten

/-- The digest of the components for a purpose. -/
def compute (hmac : Hmac) (key : ContentDigestKey) (purpose : PurposeTag)
    (accountBinding : AccountBindingAad) (schemaVersion : SchemaVersion)
    (components : List Bytes) : Except DigestError (Vector UInt8 32) := do
  let framed ← frame purpose accountBinding schemaVersion components
  return hmac key.bytes framed

/-- Framed components all fit, and their frames follow one another. -/
theorem mapM_frameComponent_eq_ok {components framed : List Bytes}
    (h : components.mapM frameComponent = .ok framed) :
  (∀ c ∈ components, c.length < 256 ^ 4)
    ∧ framed.flatten = components.flatMap fun c => Wire.be 4 c.length ++ c
  := by
  apply Wire.mapM_encode (S := {c | c.length < 256 ^ 4}) _ (Except.mapM_eq_ok.mp h)
  intro component bytes hcomponent
  rw [frameComponent] at hcomponent
  split_ifs at hcomponent with hlen
  cases hcomponent
  exact ⟨hlen, rfl⟩

/-- Equal frames are frames of the same purpose. -/
theorem frame_purpose_inj {purpose purpose' : PurposeTag} {a a' : AccountBindingAad}
    {v v' : SchemaVersion} {components components' : List Bytes} {framed : Bytes}
    (h : frame purpose a v components = .ok framed)
    (h' : frame purpose' a' v' components' = .ok framed) :
  purpose = purpose'
  := by
  rw [frame] at h h'
  split_ifs at h h' with hclosed hcount hclosed' hcount'
  obtain ⟨parts, -, h⟩ := Except.bind_eq_ok.mp h
  obtain ⟨parts', -, h'⟩ := Except.bind_eq_ok.mp h'
  have hmem := PurposeTag.mem_closed (eq_true_of_ne_false hclosed)
  have hmem' := PurposeTag.mem_closed (eq_true_of_ne_false hclosed')
  obtain ⟨hshort, hnodup⟩ := PurposeTag.closed_texts
  have heq := (Except.ok.inj h).trans (Except.ok.inj h').symm
  simp only [List.append_assoc] at heq
  obtain ⟨-, heq⟩ := List.append_inj heq rfl
  -- the text of the purpose is length-prefixed, so that what follows it is told apart
  obtain ⟨htext, -⟩ := Wire.prefixFreeOn_lengthPrefixed 2
    (hshort _ (List.mem_map_of_mem hmem)) (hshort _ (List.mem_map_of_mem hmem')) _ _
    (by simpa only [List.append_assoc] using heq)
  apply List.inj_on_of_nodup_map hnodup hmem hmem' htext

/-- Equal frames of one purpose are frames of the same account, schema version and
components. -/
theorem frame_inj {purpose : PurposeTag} {a a' : AccountBindingAad} {v v' : SchemaVersion}
    {components components' : List Bytes} {framed : Bytes}
    (h : frame purpose a v components = .ok framed)
    (h' : frame purpose a' v' components' = .ok framed) :
  a = a' ∧ v = v' ∧ components = components'
  := by
  rw [frame] at h h'
  split_ifs at h h' with hclosed hcount hcount'
  obtain ⟨parts, hparts, h⟩ := Except.bind_eq_ok.mp h
  obtain ⟨parts', hparts', h'⟩ := Except.bind_eq_ok.mp h'
  obtain ⟨hfit, hflat⟩ := mapM_frameComponent_eq_ok hparts
  obtain ⟨hfit', hflat'⟩ := mapM_frameComponent_eq_ok hparts'
  have heq := (Except.ok.inj h).trans (Except.ok.inj h').symm
  rw [hflat, hflat'] at heq
  -- the fields before the components take up the same bytes in both frames
  obtain ⟨hhead, hcomponents⟩ := List.append_inj heq (by simp)
  obtain ⟨hhead, hlength⟩ := List.append_inj' hhead (by simp)
  obtain ⟨hhead, hversion⟩ := List.append_inj' hhead (by simp)
  obtain ⟨-, haccount⟩ := List.append_inj' hhead (by simp)
  refine ⟨?_, ?_, ?_⟩
  · apply RandomId.ext
    apply Vector.toList_inj.mp haccount
  · apply SchemaVersion.ext
    apply UInt32.toNat_inj.mp
    apply Wire.be_inj v.get.toNat_lt v'.get.toNat_lt hversion
  · have hlength := Wire.be_inj (by omega) (by omega) hlength
    have hfree := (Wire.prefixFreeOn_lengthPrefixed 4).flatMap (r := []) (s := [])
      hfit hfit' hlength
    rw [List.append_nil, List.append_nil] at hfree
    apply (hfree hcomponents).1

/-- Equal frames are frames of the same purpose, account, schema version and components. -/
theorem frame_injective {purpose purpose' : PurposeTag} {a a' : AccountBindingAad}
    {v v' : SchemaVersion} {components components' : List Bytes} {framed framed' : Bytes}
    (h : frame purpose a v components = .ok framed)
    (h' : frame purpose' a' v' components' = .ok framed') (heq : framed = framed') :
  purpose = purpose' ∧ a = a' ∧ v = v' ∧ components = components'
  := by
  subst heq
  obtain rfl := frame_purpose_inj h h'
  exact ⟨rfl, frame_inj h h'⟩

/-- The frame of components for some account and schema version. -/
def sampleFrame (components : List Bytes) : Except DigestError Bytes :=
  frame .emailEvidenceRefContentDigest ⟨Vector.replicate 16 1, by decide⟩ ⟨1, by decide⟩ components

/-- A byte that moves from one component to the next changes the frame. -/
theorem movedByte_frames_apart :
  ∃ framed framed', sampleFrame [[1, 2], [3]] = .ok framed
    ∧ sampleFrame [[1], [2, 3]] = .ok framed' ∧ framed ≠ framed'
  := by
  obtain ⟨framed, h⟩ : ∃ framed, sampleFrame [[1, 2], [3]] = .ok framed := ⟨_, rfl⟩
  obtain ⟨framed', h'⟩ : ∃ framed', sampleFrame [[1], [2, 3]] = .ok framed' := ⟨_, rfl⟩
  use framed, framed', h, h'
  intro heq
  obtain ⟨-, -, -, hcomponents⟩ := frame_injective h h' heq
  revert hcomponents
  decide

end Digest

end Persistence
