import OpenLoops.Contracts.AnalysisOutput
import OpenLoops.Library.Shape

/-!
# The closed schema of an output

The schema says which documents are written for which outputs, and which outputs are within the
bounds.  Parsing accepts the documents whose plain forms are written for outputs within the
bounds.  So it accepts exactly the schema, except for the documents that are not plain: those
with an array for an object, or an object for the name of a variant.
-/

namespace Contracts

open Shape (member)

/-! ### The schema -/

/-- Null, or a string or an object of the shape. -/
def nullableShape {T : Type*} (s : Shape T) : Shape (Nullable T) where
  plain
    | .string text => s.plain (.string text)
    | .object members => s.plain (.object members)
    | d => d
  Writes d
    | .null => d = .null
    | .value t => s.Writes d t

/-- An evidence range is written as an object with these members. -/
def EvidenceRange.shape : Shape EvidenceRange :=
  .struct [
    member "source_handle" .string (·.sourceHandle),
    member "component" (.enumeration EvidenceComponent.name) (·.component),
    member "block_ordinal" (.unsigned UInt16.toNat) (·.blockOrdinal),
    member "range_start" (.unsigned UInt32.toNat) (·.rangeStart),
    member "range_end" (.unsigned UInt32.toNat) (·.rangeEnd)]

/-- A temporal hypothesis is written as an object with these members. -/
def TemporalHypothesis.shape : Shape TemporalHypothesis :=
  .struct [
    member "text_evidence_index" (.unsigned UInt8.toNat) (·.textEvidenceIndex),
    member "kind" (.enumeration TemporalKind.name) (·.kind),
    member "value" .string (·.value)]

/-- A claim is written as an object with these members. -/
def Claim.shape : Shape Claim :=
  .struct [
    member "claim_type" (.enumeration ClaimType.name) (·.claimType),
    member "evidence" EvidenceRange.shape.list (·.evidence),
    member "waiting_party_handle" (nullableShape .string) (·.waitingPartyHandle),
    member "related_loop_handles" (Shape.list .string) (·.relatedLoopHandles),
    member "temporal" (nullableShape TemporalHypothesis.shape) (·.temporal),
    member "confidence_micros" (.unsigned UInt32.toNat) (·.confidenceMicros),
    member "ambiguity_codes" (Shape.list (.enumeration AmbiguityCode.name)) (·.ambiguityCodes)]

/-- An output is written as an object with these members. -/
def AnalysisOutput.shape : Shape AnalysisOutput :=
  .struct [
    member "schema_version" (.unsigned UInt32.toNat) (·.schemaVersion),
    member "claims" Claim.shape.list (·.claims)]

/-- A handle has between 1 and 128 letters, digits, underscores and hyphens. -/
structure IsOpaqueHandle (handle : String) : Prop where
  length : handle.length ∈ Set.Icc minimumOpaqueHandleChars maximumOpaqueHandleChars
  character : ∀ c ∈ handle.toList, isHandleCharacter c = true

structure EvidenceRange.WithinBounds (range : EvidenceRange) : Prop where
  sourceHandle : IsOpaqueHandle range.sourceHandle
  rangeEnd : range.rangeEnd ≠ 0

structure TemporalHypothesis.WithinBounds (temporal : TemporalHypothesis) : Prop where
  textEvidenceIndex : temporal.textEvidenceIndex ≤ maximumTextEvidenceIndex
  value : temporal.value.length ∈ Set.Icc minimumTemporalValueChars maximumTemporalValueChars

structure Claim.WithinBounds (claim : Claim) : Prop where
  evidence_length :
    claim.evidence.length ∈ Set.Icc minimumEvidencePerClaim maximumEvidencePerClaim
  evidence : ∀ range ∈ claim.evidence, range.WithinBounds
  relatedLoopHandles_length : claim.relatedLoopHandles.length ≤ maximumRelatedLoopHandles
  relatedLoopHandles : ∀ handle ∈ claim.relatedLoopHandles, IsOpaqueHandle handle
  relatedLoopHandles_nodup : claim.relatedLoopHandles.Nodup
  waitingPartyHandle : ∀ handle, claim.waitingPartyHandle = .value handle → IsOpaqueHandle handle
  temporal : ∀ temporal, claim.temporal = .value temporal → temporal.WithinBounds
  confidenceMicros : claim.confidenceMicros ≤ maximumConfidenceMicros
  ambiguityCodes_length : claim.ambiguityCodes.length ≤ maximumAmbiguityCodes
  ambiguityCodes_nodup : claim.ambiguityCodes.Nodup

structure AnalysisOutput.WithinBounds (output : AnalysisOutput) : Prop where
  schemaVersion : output.schemaVersion = Contracts.schemaVersion
  claims_length : output.claims.length ≤ maximumClaims
  claims : ∀ claim ∈ output.claims, claim.WithinBounds

/-- The document in an answer that is not too large. -/
def documentOf (fromStr : String → Option Json) (bytes : Bytes) : Option Json :=
  if bytes.length ≤ maximumResponseBytes then (Wire.ofUtf8 bytes).bind fromStr
  else none

/-- The answer is a document of distinct names that is written for the output, within the
bounds. -/
def Conforms (fromStr : String → Option Json) (bytes : Bytes) (output : AnalysisOutput) : Prop :=
  ∃ d, documentOf fromStr bytes = some d ∧ d.HasDistinctNames
    ∧ AnalysisOutput.shape.Writes d output ∧ output.WithinBounds

/-! ### What is read -/

theorem nullable_reads {T : Type*} {s : Shape T} {read : Json → Option T} (h : s.Reads read)
    (hform : ∀ d t, s.Writes d t → (∃ text, d = .string text) ∨ ∃ members, d = .object members)
    (hnull : ∀ d, s.plain d = .null → d = .null) :
  (nullableShape s).Reads (Nullable.deserialize read)
  := by
  -- What is taken from a string or an object is not null, and written for a value of the type.
  have hvalue : ∀ d n, d ≠ .null → ((read d).map Nullable.value = some n ↔
      (nullableShape s).Writes (s.plain d) n) := by
    intro d n hd
    rw [Option.map_eq_some_iff]
    cases n with
    | null =>
        simp only [reduceCtorEq, and_false, exists_false, false_iff]
        intro hplain
        apply hd (hnull d hplain)
    | value t =>
        simp only [Nullable.value.injEq, exists_eq_right, h.eq_some_iff]
        exact Iff.rfl
  have hother : ∀ d n, (∀ text, d ≠ .string text) → (∀ members, d ≠ .object members) →
      ((nullableShape s).Writes d n ↔ d = .null ∧ n = .null) := by
    intro d n hstring hobject
    cases n with
    | null => simp [nullableShape]
    | value t =>
        simp only [reduceCtorEq, and_false, iff_false]
        intro hwrites
        rcases hform d t hwrites with ⟨text, rfl⟩ | ⟨members, rfl⟩
        · apply hstring text rfl
        · apply hobject members rfl
  constructor
  · intro d n
    cases d with
    | string text => apply hvalue _ n (by simp)
    | object members => apply hvalue _ n (by simp)
    | null =>
        apply Iff.trans _ (hother .null n (by simp) (by simp)).symm
        simp [Nullable.deserialize, eq_comm]
    | bool b =>
        apply Iff.trans _ (hother (.bool b) n (by simp) (by simp)).symm
        simp [Nullable.deserialize]
    | number number =>
        apply Iff.trans _ (hother (.number number) n (by simp) (by simp)).symm
        simp [Nullable.deserialize]
    | array elements =>
        apply Iff.trans _ (hother (.array elements) n (by simp) (by simp)).symm
        simp [Nullable.deserialize]
  · intro d n hwrites
    cases n with
    | null =>
        obtain rfl : d = .null := hwrites
        rfl
    | value t =>
        rcases hform d t hwrites with ⟨text, rfl⟩ | ⟨members, rfl⟩
        · apply h.plain_eq hwrites
        · apply h.plain_eq hwrites

theorem EvidenceComponent.reads :
  (Shape.enumeration EvidenceComponent.name).Reads
    (Json.readEnum EvidenceComponent.all EvidenceComponent.name)
  := by
  apply Shape.enumeration_reads
  · intro component
    cases component <;> decide
  · decide

theorem TemporalKind.reads :
  (Shape.enumeration TemporalKind.name).Reads
    (Json.readEnum TemporalKind.all TemporalKind.name)
  := by
  apply Shape.enumeration_reads
  · intro kind
    cases kind <;> decide
  · decide

theorem ClaimType.reads :
  (Shape.enumeration ClaimType.name).Reads (Json.readEnum ClaimType.all ClaimType.name)
  := by
  apply Shape.enumeration_reads
  · intro claimType
    cases claimType <;> decide
  · decide

theorem AmbiguityCode.reads :
  (Shape.enumeration AmbiguityCode.name).Reads
    (Json.readEnum AmbiguityCode.all AmbiguityCode.name)
  := by
  apply Shape.enumeration_reads
  · intro code
    cases code <;> decide
  · decide

theorem EvidenceRange.reads :
  EvidenceRange.shape.Reads EvidenceRange.deserialize
  := by
  apply Shape.struct_reads
  · decide
  · simp only [List.forall_mem_cons, List.not_mem_nil, false_imp_iff, implies_true, and_true]
    use Shape.string_reads.isPlain, EvidenceComponent.reads.isPlain, Shape.uint16_reads.isPlain,
      Shape.uint32_reads.isPlain, Shape.uint32_reads.isPlain
  · intro d range
    simp only [List.map_cons, List.map_nil, Shape.member_name, List.forall_mem_cons,
      List.not_mem_nil, false_imp_iff, implies_true, and_true, Shape.string_reads.takenFrom_iff,
      EvidenceComponent.reads.takenFrom_iff, Shape.uint16_reads.takenFrom_iff,
      Shape.uint32_reads.takenFrom_iff, EvidenceRange.deserialize, Option.bind_eq_bind,
      Option.bind_eq_some_iff, Option.pure_def, Option.some.injEq]
    constructor
    · rintro ⟨members, hmembers, _, h₁, _, h₂, _, h₃, _, h₄, _, h₅, rfl⟩
      use members, hmembers, h₁, h₂, h₃, h₄, h₅
    · rintro ⟨members, hmembers, h₁, h₂, h₃, h₄, h₅⟩
      exact ⟨members, hmembers, _, h₁, _, h₂, _, h₃, _, h₄, _, h₅, rfl⟩

theorem TemporalHypothesis.reads :
  TemporalHypothesis.shape.Reads TemporalHypothesis.deserialize
  := by
  apply Shape.struct_reads
  · decide
  · simp only [List.forall_mem_cons, List.not_mem_nil, false_imp_iff, implies_true, and_true]
    use Shape.uint8_reads.isPlain, TemporalKind.reads.isPlain, Shape.string_reads.isPlain
  · intro d temporal
    simp only [List.map_cons, List.map_nil, Shape.member_name, List.forall_mem_cons,
      List.not_mem_nil, false_imp_iff, implies_true, and_true, Shape.string_reads.takenFrom_iff,
      TemporalKind.reads.takenFrom_iff, Shape.uint8_reads.takenFrom_iff,
      TemporalHypothesis.deserialize, Option.bind_eq_bind, Option.bind_eq_some_iff,
      Option.pure_def, Option.some.injEq]
    constructor
    · rintro ⟨members, hmembers, _, h₁, _, h₂, _, h₃, rfl⟩
      use members, hmembers, h₁, h₂, h₃
    · rintro ⟨members, hmembers, h₁, h₂, h₃⟩
      exact ⟨members, hmembers, _, h₁, _, h₂, _, h₃, rfl⟩

theorem Claim.reads :
  Claim.shape.Reads Claim.deserialize
  := by
  have hstring : (nullableShape .string).Reads (Nullable.deserialize Json.readString) := by
    apply nullable_reads Shape.string_reads
    · intro d text hwrites
      left
      use text, hwrites
    · intro d hplain
      apply hplain
  have htemporal : (nullableShape TemporalHypothesis.shape).Reads
      (Nullable.deserialize TemporalHypothesis.deserialize) := by
    apply nullable_reads TemporalHypothesis.reads
    · intro d temporal hwrites
      right
      apply Shape.struct_writes_object hwrites
    · intro d hplain
      apply Shape.struct_plain_eq_null hplain
  apply Shape.struct_reads
  · decide
  · simp only [List.forall_mem_cons, List.not_mem_nil, false_imp_iff, implies_true, and_true]
    use ClaimType.reads.isPlain, EvidenceRange.reads.list.isPlain, hstring.isPlain,
      Shape.string_reads.list.isPlain, htemporal.isPlain, Shape.uint32_reads.isPlain,
      AmbiguityCode.reads.list.isPlain
  · intro d claim
    simp only [List.map_cons, List.map_nil, Shape.member_name, List.forall_mem_cons,
      List.not_mem_nil, false_imp_iff, implies_true, and_true, ClaimType.reads.takenFrom_iff,
      EvidenceRange.reads.list.takenFrom_iff, hstring.takenFrom_iff,
      Shape.string_reads.list.takenFrom_iff, htemporal.takenFrom_iff,
      Shape.uint32_reads.takenFrom_iff, AmbiguityCode.reads.list.takenFrom_iff,
      Claim.deserialize, Option.bind_eq_bind, Option.bind_eq_some_iff, Option.pure_def,
      Option.some.injEq]
    constructor
    · rintro ⟨members, hmembers, _, h₁, _, h₂, _, h₃, _, h₄, _, h₅, _, h₆, _, h₇, rfl⟩
      use members, hmembers, h₁, h₂, h₃, h₄, h₅, h₆, h₇
    · rintro ⟨members, hmembers, h₁, h₂, h₃, h₄, h₅, h₆, h₇⟩
      exact ⟨members, hmembers, _, h₁, _, h₂, _, h₃, _, h₄, _, h₅, _, h₆, _, h₇, rfl⟩

theorem AnalysisOutput.reads :
  AnalysisOutput.shape.Reads AnalysisOutput.deserialize
  := by
  apply Shape.struct_reads
  · decide
  · simp only [List.forall_mem_cons, List.not_mem_nil, false_imp_iff, implies_true, and_true]
    use Shape.uint32_reads.isPlain, Claim.reads.list.isPlain
  · intro d output
    simp only [List.map_cons, List.map_nil, Shape.member_name, List.forall_mem_cons,
      List.not_mem_nil, false_imp_iff, implies_true, and_true,
      Shape.uint32_reads.takenFrom_iff, Claim.reads.list.takenFrom_iff,
      AnalysisOutput.deserialize, Option.bind_eq_bind, Option.bind_eq_some_iff,
      Option.pure_def, Option.some.injEq]
    constructor
    · rintro ⟨members, hmembers, _, h₁, _, h₂, rfl⟩
      use members, hmembers, h₁, h₂
    · rintro ⟨members, hmembers, h₁, h₂⟩
      exact ⟨members, hmembers, _, h₁, _, h₂, rfl⟩

/-! ### What is checked -/

/-- No value is repeated exactly when they are distinct, and none is among those seen. -/
theorem hasNoDuplicates_iff {α : Type*} [BEq α] [LawfulBEq α] {seen values : List α} :
  hasNoDuplicates seen values = true ↔ values.Nodup ∧ ∀ value ∈ values, value ∉ seen
  := by
  induction values generalizing seen with
  | nil => simp [hasNoDuplicates]
  | cons value values ih =>
      rw [hasNoDuplicates, Bool.and_eq_true, ih, List.nodup_cons, List.forall_mem_cons]
      simp only [Bool.not_eq_true', List.mem_cons, not_or, List.contains_eq_mem,
        decide_eq_false_iff_not]
      constructor
      · rintro ⟨hseen, hnodup, hvalues⟩
        refine ⟨⟨?_, hnodup⟩, hseen, fun other hother => (hvalues other hother).2⟩
        intro hmem
        apply (hvalues value hmem).1 rfl
      · rintro ⟨⟨hmem, hnodup⟩, hseen, hvalues⟩
        refine ⟨hseen, hnodup, fun other hother => ⟨?_, hvalues other hother⟩⟩
        rintro rfl
        apply hmem hother

/-- The elements are strict exactly when each of them is. -/
theorem strictElements_iff {elements : List Json} :
  strictElements elements = true ↔ ∀ d ∈ elements, strictJson d = true
  := by
  induction elements with
  | nil => simp [strictElements]
  | cons d elements ih => simp [strictElements, ih]

/-- The members are strict exactly when each of them is, and no name is repeated. -/
theorem strictMembers_iff {seenKeys : List String} {members : List (String × Json)} :
  strictMembers seenKeys members = true ↔
    hasNoDuplicates seenKeys (members.map (·.1)) = true
      ∧ ∀ entry ∈ members, strictJson entry.2 = true
  := by
  induction members generalizing seenKeys with
  | nil => simp [strictMembers, hasNoDuplicates]
  | cons entry members ih =>
      obtain ⟨key, d⟩ := entry
      simp only [strictMembers, List.map_cons, hasNoDuplicates, Bool.and_eq_true, ih,
        List.forall_mem_cons]
      tauto

/-- The pass over the names accepts a document exactly when they are distinct. -/
theorem strictJson_iff (d : Json) :
  strictJson d = true ↔ d.HasDistinctNames
  := by
  induction d with
  | null => simp [strictJson, Json.hasDistinctNames_of_leaf]
  | bool b => simp [strictJson, Json.hasDistinctNames_of_leaf]
  | number n => simp [strictJson, Json.hasDistinctNames_of_leaf]
  | string s => simp [strictJson, Json.hasDistinctNames_of_leaf]
  | array elements ih =>
      rw [strictJson, strictElements_iff, Json.hasDistinctNames_array]
      apply forall₂_congr ih
  | object members ih =>
      rw [strictJson, strictMembers_iff, hasNoDuplicates_iff, Json.hasDistinctNames_object]
      simp only [List.not_mem_nil, not_false_iff, implies_true, and_true]
      apply and_congr_right
      intro _
      apply forall₂_congr ih

theorem isValidOpaqueHandle_iff {handle : String} :
  isValidOpaqueHandle handle = true ↔ IsOpaqueHandle handle
  := by
  simp only [isValidOpaqueHandle, Bool.and_eq_true, decide_eq_true_eq, List.all_eq_true]
  constructor
  · rintro ⟨hlength, hcharacter⟩
    exact ⟨hlength, hcharacter⟩
  · rintro ⟨hlength, hcharacter⟩
    exact ⟨hlength, hcharacter⟩

theorem EvidenceRange.satisfiesContractBounds_iff {range : EvidenceRange} :
  range.satisfiesContractBounds = true ↔ range.WithinBounds
  := by
  simp only [satisfiesContractBounds, Bool.and_eq_true, isValidOpaqueHandle_iff, bne_iff_ne]
  constructor
  · rintro ⟨hhandle, hend⟩
    exact ⟨hhandle, hend⟩
  · rintro ⟨hhandle, hend⟩
    exact ⟨hhandle, hend⟩

theorem TemporalHypothesis.satisfiesContractBounds_iff {temporal : TemporalHypothesis} :
  temporal.satisfiesContractBounds = true ↔ temporal.WithinBounds
  := by
  simp only [satisfiesContractBounds, isBoundedText, Bool.and_eq_true, decide_eq_true_eq]
  constructor
  · rintro ⟨hindex, hvalue⟩
    exact ⟨hindex, hvalue⟩
  · rintro ⟨hindex, hvalue⟩
    exact ⟨hindex, hvalue⟩

theorem Nullable.isValueWith_eq_false {T : Type*} {condition : T → Bool} {n : Nullable T} :
  n.isValueWith condition = false ↔ ∀ t, n = .value t → condition t = false
  := by
  cases n with
  | null => simp [isValueWith]
  | value t => simp [isValueWith]

theorem Claim.satisfiesContractBounds_iff {claim : Claim} :
  claim.satisfiesContractBounds = true ↔ claim.WithinBounds
  := by
  simp only [satisfiesContractBounds, Bool.if_false_left, Bool.and_eq_true,
    Bool.not_eq_true', decide_eq_false_iff_not, Bool.not_eq_true, Bool.or_eq_false_iff,
    Bool.not_eq_false', Nullable.isValueWith_eq_false, not_lt, List.all_eq_true,
    hasNoDuplicateStrings, hasNoDuplicateAmbiguityCodes, hasNoDuplicates_iff,
    EvidenceRange.satisfiesContractBounds_iff, isValidOpaqueHandle_iff,
    TemporalHypothesis.satisfiesContractBounds_iff, List.not_mem_nil, not_false_iff,
    implies_true, and_true, decide_eq_true_eq]
  constructor
  · rintro ⟨⟨⟨hmin, hmax⟩, hevidence⟩, ⟨⟨hlength, hhandles⟩, hnodup⟩, hwaiting, htemporal,
      hconfidence, hcodes, hcodesNodup⟩
    exact ⟨⟨hmin, hmax⟩, hevidence, hlength, hhandles, hnodup, hwaiting, htemporal,
      UInt32.not_lt.mp hconfidence, hcodes, hcodesNodup⟩
  · rintro ⟨⟨hmin, hmax⟩, hevidence, hlength, hhandles, hnodup, hwaiting, htemporal,
      hconfidence, hcodes, hcodesNodup⟩
    exact ⟨⟨⟨hmin, hmax⟩, hevidence⟩, ⟨⟨hlength, hhandles⟩, hnodup⟩, hwaiting, htemporal,
      UInt32.not_lt.mpr hconfidence, hcodes, hcodesNodup⟩

theorem AnalysisOutput.satisfiesContractBounds_iff {output : AnalysisOutput} :
  output.satisfiesContractBounds = true ↔ output.WithinBounds
  := by
  simp only [satisfiesContractBounds, Bool.and_eq_true, beq_iff_eq, decide_eq_true_eq,
    List.all_eq_true, Claim.satisfiesContractBounds_iff]
  constructor
  · rintro ⟨⟨hversion, hlength⟩, hclaims⟩
    exact ⟨hversion, hlength, hclaims⟩
  · rintro ⟨hversion, hlength, hclaims⟩
    exact ⟨⟨hversion, hlength⟩, hclaims⟩

/-! ### What is accepted -/

/-- Parsing accepts the documents of distinct names whose plain forms are written for outputs
within the bounds. -/
theorem parseAnalysisOutput_eq_ok {fromStr : String → Option Json} {bytes : Bytes}
    {output : AnalysisOutput} :
  parseAnalysisOutput fromStr bytes = .ok output ↔ ∃ d, documentOf fromStr bytes = some d
    ∧ d.HasDistinctNames ∧ AnalysisOutput.shape.Writes (AnalysisOutput.shape.plain d) output
    ∧ output.WithinBounds
  := by
  rw [parseAnalysisOutput, documentOf]
  rcases Nat.lt_or_ge maximumResponseBytes bytes.length with hlarge | hsize
  · simp [hlarge, hlarge.not_ge]
  · simp only [hsize, hsize.not_gt, if_true, if_false]
    rcases Wire.ofUtf8 bytes with _ | text
    · simp
    · simp only [Option.bind_some]
      rcases fromStr text with _ | d
      · simp
      · simp only [Option.some.injEq, exists_eq_left', ← strictJson_iff,
          ← AnalysisOutput.reads.eq_some_iff, ← AnalysisOutput.satisfiesContractBounds_iff]
        rcases strictJson d with _ | _
        · simp
        · rcases AnalysisOutput.deserialize d with _ | found
          · simp
          · simp only [not_true, if_false, true_and, Option.some.injEq]
            split_ifs with hbounds
            · constructor
              · rintro ⟨⟩
                use rfl
              · rintro ⟨rfl, -⟩
                rfl
            · constructor
              · rintro ⟨⟩
              · rintro ⟨rfl, hwithin⟩
                exact absurd hwithin hbounds

/-- Strict parsing accepts the documents of distinct names. -/
theorem parseStrictJson_eq_ok {fromStr : String → Option Json} {bytes : Bytes} {d : Json} :
  parseStrictJson fromStr bytes = .ok d ↔
    documentOf fromStr bytes = some d ∧ d.HasDistinctNames
  := by
  rw [parseStrictJson, documentOf]
  rcases Nat.lt_or_ge maximumResponseBytes bytes.length with hlarge | hsize
  · simp [hlarge, hlarge.not_ge]
  · simp only [hsize, hsize.not_gt, if_true, if_false]
    rcases Wire.ofUtf8 bytes with _ | text
    · simp
    · simp only [Option.bind_some]
      rcases fromStr text with _ | found
      · simp
      · simp only [Option.some.injEq, ← strictJson_iff]
        split_ifs with hstrict
        · constructor
          · rintro ⟨⟩
            exact ⟨rfl, hstrict⟩
          · rintro ⟨rfl, -⟩
            rfl
        · constructor
          · rintro ⟨⟩
          · rintro ⟨rfl, h⟩
            exact absurd h hstrict

/-- For every answer, parsing accepts exactly what conforms to the schema if and only if its
document is plain, or its plain form is written for no output within the bounds. -/
theorem parseAnalysisOutput_iff_conforms_iff (fromStr : String → Option Json) (bytes : Bytes) :
  (∀ output, parseAnalysisOutput fromStr bytes = .ok output ↔ Conforms fromStr bytes output)
    ↔ ∀ d, documentOf fromStr bytes = some d → d.HasDistinctNames →
      AnalysisOutput.shape.plain d = d
        ∨ ∀ output, AnalysisOutput.shape.Writes (AnalysisOutput.shape.plain d) output →
          ¬output.WithinBounds
  := by
  simp only [parseAnalysisOutput_eq_ok]
  constructor
  · intro h d hd hnames
    by_contra hnot
    push Not at hnot
    obtain ⟨hplain, output, hwrites, hbounds⟩ := hnot
    obtain ⟨d', hd', -, hwrites', -⟩ := (h output).mp ⟨d, hd, hnames, hwrites, hbounds⟩
    obtain rfl : d = d' := Option.some.inj (hd.symm.trans hd')
    apply hplain (AnalysisOutput.reads.plain_eq hwrites')
  · intro h output
    constructor
    · rintro ⟨d, hd, hnames, hwrites, hbounds⟩
      use d, hd, hnames
      rcases h d hd hnames with hplain | hnone
      · rw [hplain] at hwrites
        use hwrites
      · exact absurd hbounds (hnone output hwrites)
    · rintro ⟨d, hd, hnames, hwrites, hbounds⟩
      use d, hd, hnames
      rw [AnalysisOutput.reads.plain_eq hwrites]
      use hwrites

/-! ### An array for an object -/

/-- The text of an array with a version and no claims. -/
def arrayText : String := "[1,[]]"

/-- The document of the text. -/
def arrayDocument : Json := .array [.number (.posInt 1), .array []]

/-- An array is accepted for the object of an output. -/
theorem arrayText_not_conforms :
  let fromStr := fun text => if text = arrayText then some arrayDocument else none
  let bytes := Wire.utf8 arrayText
  parseAnalysisOutput fromStr bytes = .ok ⟨1, []⟩
    ∧ ¬∀ output, parseAnalysisOutput fromStr bytes = .ok output ↔ Conforms fromStr bytes output
  := by
  have hparsed : parseAnalysisOutput
      (fun text => if text = arrayText then some arrayDocument else none)
      (Wire.utf8 arrayText) = .ok ⟨1, []⟩ := by
    decide
  use hparsed
  intro h
  obtain ⟨d, hd, -, ⟨members, rfl, -⟩, -⟩ := (h ⟨1, []⟩).mp hparsed
  rw [documentOf, if_pos (by decide), Wire.ofUtf8_eq_some.mpr rfl] at hd
  cases hd

end Contracts
