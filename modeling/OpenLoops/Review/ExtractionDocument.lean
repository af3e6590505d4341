import OpenLoops.Contracts.ClosedSchema
import OpenLoops.Review.Extraction

/-!
# Documents of extracted claims

The document of the claims of a conversation is read back as they are.  It is accepted as long as it
has no more claims than an answer may have, and each of them cites a paragraph that is not empty.
-/

namespace Review

open Contracts Inference

/-- A claim that is put in a document. -/
structure ParagraphClaim where
  message : ConversationMessage
  ordinal : ℕ
  fields : ExtractedClaimFields

namespace ParagraphClaim

variable (claim : ParagraphClaim)

/-- The claim as it stands in the document. -/
def json : Json :=
  extractionClaimJson claim.message claim.ordinal claim.fields

/-- The length of the paragraph that is cited. -/
def length : ℕ :=
  (claim.message.message.bodyBlocks[claim.ordinal]?.map (·.scalarLen)).getD 0

/-- The claim as it is read back. -/
def parsed : Claim where
  claimType := claim.fields.claimType
  evidence := [{
    sourceHandle := claim.message.handle
    component := .bodyBlock
    blockOrdinal := UInt16.ofNat claim.ordinal
    rangeStart := 0
    rangeEnd := UInt32.ofNat claim.length }]
  waitingPartyHandle := (claim.fields.waitingPartyHandle.map .value).getD .null
  relatedLoopHandles := []
  temporal := (claim.fields.temporalValue.map fun value =>
    .value { textEvidenceIndex := 0, kind := .date, value }).getD .null
  confidenceMicros := UInt32.ofNat (confidenceMicros claim.fields.confidence)
  ambiguityCodes := extractionAmbiguityCodes claim.fields

/-- What the extraction makes sure of: the paragraph is one of those that are offered, and the
handles are those of messages and participants. -/
structure WellFormed : Prop where
  ordinal : claim.ordinal < maxBodyBlocks
  handle : isValidOpaqueHandle claim.message.handle
  waitingParty : ∀ handle ∈ claim.fields.waitingPartyHandle, isValidOpaqueHandle handle
  temporal : ∀ value ∈ claim.fields.temporalValue, value.length = 10

theorem length_lt :
  claim.length < UInt32.size
  := by
  rw [length]
  cases claim.message.message.bodyBlocks[claim.ordinal]? with
  | none => decide
  | some block =>
      have h := block.bounded
      have hmax : maxScalarsPerBlock < UInt32.size := by decide
      apply Nat.lt_of_le_of_lt h hmax

end ParagraphClaim

/-- A number up to a whole one is not rounded above it. -/
theorem roundHalfEven_le {q : ℚ} {n : ℤ} (h : q ≤ n) :
  roundHalfEven q ≤ n
  := by
  have hfloor : ⌊q⌋ ≤ n := Int.floor_le_iff.mpr (by linarith)
  rcases hfloor.lt_or_eq with hlt | heq
  · rw [roundHalfEven]
    split_ifs <;> omega
  · have hsmall : q - ⌊q⌋ < 1 / 2 := by
      rw [heq]
      linarith
    rw [roundHalfEven, if_pos hsmall]
    exact hfloor

theorem confidenceMicros_le (confidence : ℚ) :
  confidenceMicros confidence ≤ 1000000
  := by
  have hclamp : max 0 (min confidence 1) * 1000000 ≤ (1000000 : ℤ) := by
    have h : max 0 (min confidence 1) ≤ 1 := max_le (by decide) (min_le_right _ _)
    push_cast
    linarith
  have hround := roundHalfEven_le hclamp
  rw [confidenceMicros]
  omega

/-! ### Reading claims back -/

/-- A number that fits is read back. -/
theorem readUnsigned_unsigned {α : Type} {size n : ℕ} (ofNat : ℕ → α) (hsize : size ≤ UInt64.size)
    (hn : n < size) :
  (unsigned n).readUnsigned size ofNat = some (ofNat n)
  := by
  have hlt : n < UInt64.size := hn.trans_le hsize
  rw [unsigned, Json.readUnsigned, UInt64.toNat_ofNat_of_lt' hlt, if_pos hn]

theorem readEnum_name {α : Type} {variants : List α} {nameOf : α → String}
    (hname : ∀ a, variants.find? (nameOf · == nameOf a) = some a) (a : α) :
  (Json.string (nameOf a)).readEnum variants nameOf = some a
  := hname a

namespace ParagraphClaim

variable {claim : ParagraphClaim}

/-- The evidence of the claim is read back. -/
theorem evidence_deserialize (hwell : claim.WellFormed) :
  EvidenceRange.deserialize (.object [
      ("source_handle", .string claim.message.handle),
      ("component", .string "body_block"),
      ("block_ordinal", unsigned claim.ordinal),
      ("range_start", unsigned 0),
      ("range_end", unsigned claim.length)])
    = some {
      sourceHandle := claim.message.handle
      component := .bodyBlock
      blockOrdinal := UInt16.ofNat claim.ordinal
      rangeStart := 0
      rangeEnd := UInt32.ofNat claim.length }
  := by
  have hordinal : claim.ordinal < UInt16.size := hwell.ordinal.trans (by decide)
  have hcomponent : (Json.string "body_block").readEnum EvidenceComponent.all EvidenceComponent.name
      = some .bodyBlock := by decide
  have hzero : (unsigned 0).readUnsigned UInt32.size UInt32.ofNat = some 0 := rfl
  simp [EvidenceRange.deserialize, Json.readStruct, Json.readMember, List.lookup_cons,
    Json.readString, hcomponent, hzero, readUnsigned_unsigned UInt16.ofNat (by decide) hordinal,
    readUnsigned_unsigned UInt32.ofNat (by decide) claim.length_lt]

theorem temporal_deserialize (value : String) :
  TemporalHypothesis.deserialize (.object [
      ("text_evidence_index", unsigned 0),
      ("kind", .string "date"),
      ("value", .string value)])
    = some { textEvidenceIndex := 0, kind := .date, value }
  := by
  have hkind : (Json.string "date").readEnum TemporalKind.all TemporalKind.name
      = some .date := by decide
  have hzero : (unsigned 0).readUnsigned UInt8.size UInt8.ofNat = some 0 := rfl
  simp [TemporalHypothesis.deserialize, Json.readStruct, Json.readMember, List.lookup_cons,
    Json.readString, hkind, hzero]

/-- The claim is read back. -/
theorem deserialize_json (hwell : claim.WellFormed) :
  Claim.deserialize claim.json = some claim.parsed
  := by
  have htype : ∀ claimType : ClaimType,
      (Json.string claimType.name).readEnum ClaimType.all ClaimType.name = some claimType := by
    intro claimType
    cases claimType <;> decide
  have hcodes : Json.readSeq (Json.readEnum AmbiguityCode.all AmbiguityCode.name)
      (.array ((extractionAmbiguityCodes claim.fields).map fun code => .string code.name))
        = some (extractionAmbiguityCodes claim.fields) := by
    rw [extractionAmbiguityCodes]
    cases claim.fields.waitingPartyAmbiguous <;> cases claim.fields.temporalAmbiguous <;> decide
  have hparty : Nullable.deserialize Json.readString
      ((claim.fields.waitingPartyHandle.map Json.string).getD .null)
        = some ((claim.fields.waitingPartyHandle.map .value).getD .null) := by
    cases claim.fields.waitingPartyHandle <;> rfl
  have htemporal : Nullable.deserialize TemporalHypothesis.deserialize
      ((claim.fields.temporalValue.map fun value => Json.object [
        ("text_evidence_index", unsigned 0),
        ("kind", .string "date"),
        ("value", .string value)]).getD .null)
        = some ((claim.fields.temporalValue.map fun value =>
          .value { textEvidenceIndex := 0, kind := .date, value }).getD .null) := by
    cases claim.fields.temporalValue with
    | none => rfl
    | some value => simp [Nullable.deserialize, temporal_deserialize]
  have hmicros : confidenceMicros claim.fields.confidence < UInt32.size :=
    Nat.lt_of_le_of_lt (confidenceMicros_le _) (by decide)
  have hnone : Json.readSeq Json.readString (.array []) = some [] := rfl
  have hone : Json.readSeq EvidenceRange.deserialize (.array [.object [
      ("source_handle", .string claim.message.handle),
      ("component", .string "body_block"),
      ("block_ordinal", unsigned claim.ordinal),
      ("range_start", unsigned 0),
      ("range_end", unsigned claim.length)]]) = some claim.parsed.evidence := by
    simp [Json.readSeq, evidence_deserialize hwell, parsed]
  rw [ParagraphClaim.length] at hone
  simp [Claim.deserialize, json, extractionClaimJson, Json.readStruct, Json.readMember,
    List.lookup_cons, htype, hone, hnone, hparty, htemporal, hcodes,
    readUnsigned_unsigned UInt32.ofNat (by decide) hmicros]
  simp [parsed]

/-! ### Bounds -/

/-- A claim that is read back is within the bounds when its paragraph is not empty. -/
theorem parsed_satisfiesContractBounds (hwell : claim.WellFormed) :
  claim.parsed.satisfiesContractBounds = true ↔ claim.length ≠ 0
  := by
  have hend : UInt32.ofNat claim.length = 0 ↔ claim.length = 0 := by
    rw [← UInt32.toNat_inj, UInt32.toNat_ofNat_of_lt' claim.length_lt]
    rfl
  have hparty : (claim.parsed.waitingPartyHandle.isValueWith (!isValidOpaqueHandle ·)) = false := by
    have h := hwell.waitingParty
    simp only [parsed]
    cases hhandle : claim.fields.waitingPartyHandle with
    | none => rfl
    | some handle => simp [Nullable.isValueWith, h handle hhandle]
  have htemporal : (claim.parsed.temporal.isValueWith (!·.satisfiesContractBounds)) = false := by
    have h := hwell.temporal
    simp only [parsed]
    cases hvalue : claim.fields.temporalValue with
    | none => rfl
    | some value =>
        have hlength := h value hvalue
        simp [Nullable.isValueWith, TemporalHypothesis.satisfiesContractBounds, isBoundedText,
          hlength]
        decide
  have hmicros : ¬maximumConfidenceMicros < claim.parsed.confidenceMicros := by
    have hle := confidenceMicros_le claim.fields.confidence
    have hlt : confidenceMicros claim.fields.confidence < UInt32.size :=
      Nat.lt_of_le_of_lt hle (by decide)
    rw [UInt32.lt_iff_toNat_lt, parsed, UInt32.toNat_ofNat_of_lt' hlt]
    exact Nat.not_lt.mpr hle
  have hcodes : claim.parsed.ambiguityCodes.length ≤ maximumAmbiguityCodes
      ∧ hasNoDuplicateAmbiguityCodes claim.parsed.ambiguityCodes = true := by
    simp only [parsed, extractionAmbiguityCodes]
    cases claim.fields.waitingPartyAmbiguous <;> cases claim.fields.temporalAmbiguous <;> decide
  have hevidence : claim.parsed.evidence = [{
      sourceHandle := claim.message.handle
      component := .bodyBlock
      blockOrdinal := UInt16.ofNat claim.ordinal
      rangeStart := 0
      rangeEnd := UInt32.ofNat claim.length }] := rfl
  have hrelated : claim.parsed.relatedLoopHandles = [] := rfl
  simp [Claim.satisfiesContractBounds, hevidence, hrelated, hparty, htemporal, hmicros, hcodes.1,
    hcodes.2, EvidenceRange.satisfiesContractBounds, hwell.handle, hend, minimumEvidencePerClaim,
    maximumEvidencePerClaim, hasNoDuplicateStrings, hasNoDuplicates]

/-- The size of a claim is bounded. -/
theorem sizeBound_json_le (floatText : UInt64 → String) (hwell : claim.WellFormed) :
  claim.json.sizeBound floatText ≤ 4000
  := by
  have hunsigned : ∀ n, (unsigned n).sizeBound floatText ≤ 20 := fun n =>
    Json.byteSize_posInt_le floatText (UInt64.ofNat n)
  have htype : claim.fields.claimType.name.length ≤ 16 := by
    cases claim.fields.claimType <;> decide
  have hhandle : ∀ handle, isValidOpaqueHandle handle = true → handle.length ≤ 128 := by
    intro handle h
    simp only [isValidOpaqueHandle, Bool.and_eq_true, decide_eq_true_eq] at h
    exact h.1.2
  have hparty : ((claim.fields.waitingPartyHandle.map Json.string).getD .null).sizeBound floatText
      ≤ 770 := by
    have h := hwell.waitingParty
    cases hparty : claim.fields.waitingPartyHandle with
    | none =>
        show 5 ≤ 770
        decide
    | some handle =>
        have hlength := hhandle handle (h handle hparty)
        simp only [Option.map_some, Option.getD_some, Json.sizeBound]
        omega
  have htemporal : ((claim.fields.temporalValue.map fun value => Json.object [
      ("text_evidence_index", unsigned 0),
      ("kind", .string "date"),
      ("value", .string value)]).getD .null).sizeBound floatText ≤ 400 := by
    have h := hwell.temporal
    cases hvalue : claim.fields.temporalValue with
    | none =>
        show 5 ≤ 400
        decide
    | some value =>
        have hlength := h value hvalue
        have hnames : Json.sizeBoundNames ["text_evidence_index", "kind", "value"] = 180 := by decide
        have hdate : ("date" : String).length = 4 := rfl
        have hzero := hunsigned 0
        simp only [Option.map_some, Option.getD_some, Json.sizeBound, Json.sizeBoundMembers_eq,
          List.map_cons, List.map_nil, List.sum_cons, List.sum_nil, hnames]
        omega
  have hcodes : (Json.array ((extractionAmbiguityCodes claim.fields).map fun code =>
      .string code.name)).sizeBound floatText ≤ 120 := by
    rw [extractionAmbiguityCodes]
    cases claim.fields.waitingPartyAmbiguous <;> cases claim.fields.temporalAmbiguous <;>
      simp only [Bool.false_eq_true, if_true, if_false, List.nil_append, List.append_nil,
        List.cons_append, List.map_cons, List.map_nil, Json.sizeBound, Json.sizeBoundElements] <;>
      decide
  have hevidence : (Json.array [.object [
      ("source_handle", .string claim.message.handle),
      ("component", .string "body_block"),
      ("block_ordinal", unsigned claim.ordinal),
      ("range_start", unsigned 0),
      ("range_end", unsigned claim.length)]]).sizeBound floatText ≤ 1300 := by
    have hnames : Json.sizeBoundNames ["source_handle", "component", "block_ordinal", "range_start",
        "range_end"] = 350 := by decide
    have hcomponent : ("body_block" : String).length = 10 := rfl
    have hsource := hhandle claim.message.handle hwell.handle
    have hordinal := hunsigned claim.ordinal
    have hstart := hunsigned 0
    have hend := hunsigned claim.length
    simp only [Json.sizeBound, Json.sizeBoundElements, Json.sizeBoundMembers_eq,
      List.map_cons, List.map_nil, List.sum_cons, List.sum_nil, hnames]
    omega
  have hnames : Json.sizeBoundNames ["claim_type", "evidence", "waiting_party_handle",
      "related_loop_handles", "temporal", "confidence_micros", "ambiguity_codes"] = 616 := by decide
  have hmicros := hunsigned (confidenceMicros claim.fields.confidence)
  have hrelated : (Json.array []).sizeBound floatText = 2 := rfl
  rw [ParagraphClaim.length] at hevidence
  rw [json, extractionClaimJson, Json.sizeBound, Json.sizeBoundMembers_eq]
  simp only [List.map_cons, List.map_nil, List.sum_cons, List.sum_nil, hnames, hrelated]
  have hkind : (Json.string claim.fields.claimType.name).sizeBound floatText ≤ 98 := by
    rw [Json.sizeBound]
    omega
  omega

theorem strictJson_json :
  strictJson claim.json = true
  := by
  have hunsigned : ∀ n, strictJson (unsigned n) = true := fun _ => rfl
  have hparty : strictJson ((claim.fields.waitingPartyHandle.map Json.string).getD .null) = true := by
    cases claim.fields.waitingPartyHandle <;> rfl
  have htemporal : strictJson ((claim.fields.temporalValue.map fun value => Json.object [
      ("text_evidence_index", unsigned 0),
      ("kind", .string "date"),
      ("value", .string value)]).getD .null) = true := by
    cases claim.fields.temporalValue with
    | none => rfl
    | some value => simp [strictJson, strictMembers, hunsigned]
  have hcodes : strictElements ((extractionAmbiguityCodes claim.fields).map fun code =>
      Json.string code.name) = true := by
    simp [strictElements_iff, strictJson]
  simp [json, extractionClaimJson, strictJson, strictMembers, strictElements, hunsigned, hparty,
    htemporal, hcodes]

end ParagraphClaim

/-! ### Documents -/

section

variable (floatText : UInt64 → String) {fromStr : String → Option Json}
  {claims : List ParagraphClaim}

/-- The text of the document of the claims. -/
def documentText (claims : List ParagraphClaim) : String :=
  String.ofList ((extractionDocument (claims.map (·.json))).print floatText)

/-- A document of as many claims as an answer may have is not too large. -/
theorem length_documentBytes_le (hwell : ∀ claim ∈ claims, claim.WellFormed)
    (hlength : claims.length ≤ maximumClaims) :
  (documentBytes floatText (claims.map (·.json))).length ≤ maximumResponseBytes
  := by
  have hclaims : Json.sizeBoundElements floatText (claims.map (·.json)) ≤ claims.length * 4001 := by
    have hbound : ∀ d ∈ claims.map (·.json), d.sizeBound floatText ≤ 4000 := by
      simp only [List.forall_mem_map]
      intro claim hclaim
      apply ParagraphClaim.sizeBound_json_le floatText (hwell claim hclaim)
    have h := Json.sizeBoundElements_le hbound
    rw [List.length_map] at h
    exact h
  have hnames : Json.sizeBoundNames ["schema_version", "claims"] = 128 := by decide
  have hversion : (unsigned 1).sizeBound floatText ≤ 20 := Json.byteSize_posInt_le floatText _
  have hprint := @Json.byteSize_print_le floatText (extractionDocument (claims.map (·.json)))
  rw [documentBytes, Json.length_utf8_ofList]
  apply hprint.trans
  simp only [extractionDocument, Json.sizeBound, Json.sizeBoundMembers_eq, List.map_cons,
    List.map_nil, List.sum_cons, List.sum_nil, hnames]
  simp only [maximumClaims, maximumResponseBytes] at hlength ⊢
  omega

/-- The document is read back. -/
theorem deserialize_extractionDocument (hwell : ∀ claim ∈ claims, claim.WellFormed) :
  AnalysisOutput.deserialize (extractionDocument (claims.map (·.json)))
    = some ⟨1, claims.map (·.parsed)⟩
  := by
  have hclaims : Json.readSeq Claim.deserialize (.array (claims.map (·.json)))
      = some (claims.map (·.parsed)) := by
    rw [Json.readSeq]
    induction claims with
    | nil => rfl
    | cons claim claims ih =>
        rw [List.map_cons, List.mapM_cons,
          ParagraphClaim.deserialize_json (hwell claim List.mem_cons_self),
          ih fun claim hclaim => hwell claim (List.mem_cons_of_mem _ hclaim)]
        rfl
  have hversion : (unsigned 1).readUnsigned UInt32.size UInt32.ofNat = some 1 := rfl
  simp [AnalysisOutput.deserialize, extractionDocument, Json.readStruct, Json.readMember,
    List.lookup_cons, hversion, hclaims]

theorem strictJson_extractionDocument :
  strictJson (extractionDocument (claims.map (·.json))) = true
  := by
  have hunsigned : strictJson (unsigned 1) = true := rfl
  have hclaims : strictElements (claims.map (·.json)) = true := by
    simp [strictElements_iff, ParagraphClaim.strictJson_json]
  simp [extractionDocument, strictJson, strictMembers, hunsigned, hclaims]

/-- The document is accepted exactly when there are not too many claims, and none of them cites an
empty paragraph. -/
theorem parse_documentBytes (hwell : ∀ claim ∈ claims, claim.WellFormed)
    (hread : fromStr (documentText floatText claims)
      = some (extractionDocument (claims.map (·.json)))) (output : AnalysisOutput) :
  parseAnalysisOutput fromStr (documentBytes floatText (claims.map (·.json))) = .ok output
    ↔ (claims.length ≤ maximumClaims ∧ ∀ claim ∈ claims, claim.length ≠ 0)
      ∧ output = ⟨1, claims.map (·.parsed)⟩
  := by
  have hbounds : AnalysisOutput.satisfiesContractBounds ⟨1, claims.map (·.parsed)⟩ = true
      ↔ claims.length ≤ maximumClaims ∧ ∀ claim ∈ claims, claim.length ≠ 0 := by
    simp only [AnalysisOutput.satisfiesContractBounds, schemaVersion, beq_self_eq_true,
      Bool.true_and, Bool.and_eq_true, decide_eq_true_eq, List.length_map, List.all_map,
      List.all_eq_true, Function.comp_apply]
    apply and_congr_right
    intro _
    apply forall_congr'
    intro claim
    apply forall_congr'
    intro hclaim
    apply ParagraphClaim.parsed_satisfiesContractBounds (hwell claim hclaim)
  have htext : Wire.ofUtf8 (documentBytes floatText (claims.map (·.json)))
      = some (documentText floatText claims) := Wire.ofUtf8_eq_some.mpr rfl
  rw [← hbounds, parseAnalysisOutput]
  by_cases hlarge : maximumResponseBytes < (documentBytes floatText (claims.map (·.json))).length
  · have hnot : ¬AnalysisOutput.satisfiesContractBounds ⟨1, claims.map (·.parsed)⟩ = true := by
      intro h
      have hle := length_documentBytes_le floatText hwell (hbounds.mp h).1
      omega
    simp [hlarge, hnot]
  · simp only [hlarge, if_false, htext, hread, strictJson_extractionDocument, not_true,
      deserialize_extractionDocument hwell]
    split_ifs with h
    · simp [h, eq_comm]
    · simp [h]

/-- A document is not fenced. -/
theorem jsonDocument_documentBytes
    (hsize : (documentBytes floatText (claims.map (·.json))).length ≤ maxResponse) :
  jsonDocument (documentBytes floatText (claims.map (·.json)))
    = .ok (documentBytes floatText (claims.map (·.json)))
  := by
  have htext : Wire.ofUtf8 (documentBytes floatText (claims.map (·.json)))
      = some (documentText floatText claims) := Wire.ofUtf8_eq_some.mpr rfl
  obtain ⟨inner, hinner⟩ : ∃ inner, (extractionDocument (claims.map (·.json))).print floatText
      = Char.ofNat 0x7b :: inner ++ [Char.ofNat 0x7d] := ⟨_, rfl⟩
  have htrim : trim (Char.ofNat 0x7b :: inner ++ [Char.ofNat 0x7d])
      = Char.ofNat 0x7b :: inner ++ [Char.ofNat 0x7d] := by
    have hopen : isWhitespace (Char.ofNat 0x7b) = false := by decide
    have hclose : isWhitespace (Char.ofNat 0x7d) = false := by decide
    simp [trim, hopen, hclose]
  have hfence : stripFence (Char.ofNat 0x7b :: inner ++ [Char.ofNat 0x7d]) = none := by
    simp [stripFence]
  rw [jsonDocument, if_neg hsize.not_gt, htext]
  simp only [documentText, String.toList_ofList, hinner, htrim, hfence]
  rw [documentBytes, hinner]

end

end Review
