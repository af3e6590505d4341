import Mathlib.Data.Finset.Insert
import OpenLoops.Graph.Session
import OpenLoops.Library.Fallible
import OpenLoops.Library.Numerals
import OpenLoops.Library.Wire

/-!
# Saved settings

The settings of the setup are saved as one record: a mark, and fields with their lengths.  Later
versions added fields at the end, so that a record of an earlier version is the front of one of a
later version; the fields that it does not have take their defaults.
-/

namespace Desktop

namespace SavedSettings

open Graph (MailProvider)

def magic : Bytes :=
  Wire.ascii "OpenLoopsSetup" ++ [1]

def maxBytes : ℕ := 2560

inductive SettingsError where
  | unavailable
  | invalid
  | tooLarge
deriving DecidableEq, Repr

/-! ### Tags -/

inductive Provider where
  | ollamaCloud
  | openRouter
deriving DecidableEq, Repr

def Provider.tag : Provider → String
  | .ollamaCloud => "ollama_cloud"
  | .openRouter => "openrouter"

def Provider.parse (tag : String) : Except SettingsError Provider :=
  if tag = "ollama_cloud" then .ok .ollamaCloud
  else if tag = "openrouter" then .ok .openRouter
  else .error .invalid

inductive OllamaPlan where
  | free
  | pro
  | max
deriving DecidableEq, Repr

def OllamaPlan.tag : OllamaPlan → String
  | .free => "free"
  | .pro => "pro"
  | .max => "max"

def OllamaPlan.parse (tag : String) : Except SettingsError OllamaPlan :=
  if tag = "free" then .ok .free
  else if tag = "pro" then .ok .pro
  else if tag = "max" then .ok .max
  else .error .invalid

inductive ExtractionBackend where
  | chatModel
  | decisionModel
deriving DecidableEq, Repr

def ExtractionBackend.tag : ExtractionBackend → String
  | .chatModel => "chat"
  | .decisionModel => "decision"

def ExtractionBackend.parse (tag : String) : Except SettingsError ExtractionBackend :=
  if tag = "chat" then .ok .chatModel
  else if tag = "decision" then .ok .decisionModel
  else .error .invalid

def mailProvidersTag (providers : Finset MailProvider) : Except SettingsError String :=
  match decide (.microsoft ∈ providers), decide (.google ∈ providers) with
  | true, false => .ok "ms"
  | false, true => .ok "google"
  | true, true => .ok "ms,google"
  | false, false => .error .invalid

def parseMailProviders (tag : String) : Except SettingsError (Finset MailProvider) :=
  if tag = "ms" then .ok {.microsoft}
  else if tag = "google" then .ok {.google}
  else if tag = "ms,google" then .ok {.microsoft, .google}
  else .error .invalid

def parseBool (field : String) : Except SettingsError Bool :=
  if field = "true" then .ok true
  else if field = "false" then .ok false
  else .error .invalid

def minOpenrouterParallel : ℕ := 1

def maxOpenrouterParallel : ℕ := 100

def defaultOpenrouterParallel : UInt16 := 32

/-- The number is one that a record may have. -/
def inRange (n : ℕ) : Bool :=
  minOpenrouterParallel ≤ n && n ≤ maxOpenrouterParallel

def parseParallel (field : String) : Except SettingsError UInt16 :=
  (((Numerals.parse (2 ^ 16) field.toList).filter inRange).map UInt16.ofNat).okOr .invalid

/-! ### Records -/

structure Settings where
  clientId : String
  googleClientId : String
  googleClientSecret : String
  mailProviders : Finset MailProvider
  groups : String
  shared : String
  key : String
  selected : String
  provider : Provider
  openrouterKey : String
  openrouterSelected : String
  ollamaPlan : OllamaPlan
  openrouterParallel : UInt16
  useDecisionModel : Bool
  extractionBackend : ExtractionBackend
deriving DecidableEq

/-- The settings before anything is set. -/
def Settings.default : Settings where
  clientId := ""
  googleClientId := ""
  googleClientSecret := ""
  mailProviders := {.microsoft}
  groups := ""
  shared := ""
  key := ""
  selected := ""
  provider := .ollamaCloud
  openrouterKey := ""
  openrouterSelected := ""
  ollamaPlan := .free
  openrouterParallel := defaultOpenrouterParallel
  useDecisionModel := false
  extractionBackend := .chatModel

/-- The fields of a record, with the texts of the number and of the mail providers. -/
def Settings.fields (settings : Settings) (parallel mailProviders : String) : List String :=
  [settings.clientId, settings.groups, settings.shared, settings.key, settings.selected,
    settings.provider.tag, settings.openrouterKey, settings.openrouterSelected,
    settings.ollamaPlan.tag, parallel, toString settings.useDecisionModel,
    settings.extractionBackend.tag, settings.googleClientId, settings.googleClientSecret,
    mailProviders]

/-- The bytes of a field, with their number before them. -/
def frameField (field : String) : Bytes :=
  Wire.le 4 (Wire.utf8 field).length ++ Wire.utf8 field

def frame (fields : List String) : Bytes :=
  fields.flatMap frameField

def Settings.encode (settings : Settings) : Except SettingsError Bytes := do
  let mailProviders ← mailProvidersTag settings.mailProviders
  let fields := settings.fields (toString settings.openrouterParallel.toNat) mailProviders
  let size := fields.foldl (fun size field => size + 4 + (Wire.utf8 field).length) magic.length
  if maxBytes < size then throw .tooLarge
  fields.foldlM (fun bytes field =>
    if 2 ^ 32 ≤ (Wire.utf8 field).length then throw .tooLarge
    else return bytes ++ frameField field) magic

/-! ### Reading -/

def next : Wire.Reader SettingsError String := do
  let length ← Wire.readLe .invalid 4
  let field ← Wire.take .invalid length
  match Wire.ofUtf8 field with
  | none => throw .invalid
  | some text => return text

/-- A part of a record that it may end before. -/
def unlessDone (part : Settings → Wire.Reader SettingsError Settings) (settings : Settings) :
    Wire.Reader SettingsError Settings := do
  if (← get).isEmpty then return settings
  else part settings

namespace Settings

def readProvider (settings : Settings) : Wire.Reader SettingsError Settings := do
  let provider ← Provider.parse (← next)
  let openrouterKey ← next
  let openrouterSelected ← next
  return { settings with
    provider := provider
    openrouterKey := openrouterKey
    openrouterSelected := openrouterSelected }

def readConcurrency (settings : Settings) : Wire.Reader SettingsError Settings := do
  let ollamaPlan ← OllamaPlan.parse (← next)
  let openrouterParallel ← parseParallel (← next)
  return { settings with ollamaPlan := ollamaPlan, openrouterParallel := openrouterParallel }

def readDecision (settings : Settings) : Wire.Reader SettingsError Settings := do
  let useDecisionModel ← parseBool (← next)
  return { settings with useDecisionModel := useDecisionModel }

def readBackend (settings : Settings) : Wire.Reader SettingsError Settings := do
  let extractionBackend ← ExtractionBackend.parse (← next)
  return { settings with extractionBackend := extractionBackend }

def readGoogleClientId (settings : Settings) : Wire.Reader SettingsError Settings := do
  let googleClientId ← next
  return { settings with googleClientId := googleClientId }

def readGoogleClientSecret (settings : Settings) : Wire.Reader SettingsError Settings := do
  let googleClientSecret ← next
  return { settings with googleClientSecret := googleClientSecret }

def readMailProviders (settings : Settings) : Wire.Reader SettingsError Settings := do
  let mailProviders ← parseMailProviders (← next)
  return { settings with mailProviders := mailProviders }

/-- The fields of a record of any version. -/
def readFields : Wire.Reader SettingsError Settings := do
  let clientId ← next
  let groups ← next
  let shared ← next
  let key ← next
  let selected ← next
  let settings := { default with
    clientId := clientId
    groups := groups
    shared := shared
    key := key
    selected := selected }
  let settings ← unlessDone readProvider settings
  let settings ← unlessDone readConcurrency settings
  let settings ← unlessDone readDecision settings
  let settings ← unlessDone readBackend settings
  let settings ← unlessDone readGoogleClientId settings
  let settings ← unlessDone readGoogleClientSecret settings
  let settings ← unlessDone readMailProviders settings
  if ¬(← get).isEmpty then throw .invalid
  return settings

def decode (bytes : Bytes) : Except SettingsError Settings :=
  if maxBytes < bytes.length then .error .invalid
  else if magic <+: bytes then (readFields.run (bytes.drop magic.length)).map Prod.fst
  else .error .invalid

end Settings

/-! ### What is read -/

/-- The field fits behind its length. -/
def IsShort (field : String) : Prop :=
  (Wire.utf8 field).length < 2 ^ 32

/-- A field is read where its bytes stand in front. -/
theorem next_eq_ok {bytes rest : Bytes} {field : String} :
  next.run bytes = .ok (field, rest) ↔ IsShort field ∧ bytes = frameField field ++ rest
  := by
  rw [next, StateT.run_bind_eq_ok]
  constructor
  · rintro ⟨length, t, hlength, h⟩
    obtain ⟨text, t', htext, hfound⟩ := StateT.run_bind_eq_ok.mp h
    obtain ⟨hbound, rfl⟩ := Wire.readLe_eq_ok.mp hlength
    obtain ⟨rfl, rfl⟩ := Wire.take_eq_ok.mp htext
    cases hof : Wire.ofUtf8 text with
    | none =>
        rw [hof] at hfound
        cases hfound
    | some found =>
        rw [hof] at hfound
        cases hfound
        obtain rfl := Wire.ofUtf8_eq_some.mp hof
        use hbound
        rw [frameField, List.append_assoc]
  · rintro ⟨hshort, rfl⟩
    rw [frameField, List.append_assoc]
    use (Wire.utf8 field).length, Wire.utf8 field ++ rest, Wire.readLe_eq_ok.mpr ⟨hshort, rfl⟩
    apply StateT.run_bind_eq_ok.mpr
    use Wire.utf8 field, rest, Wire.take_eq_ok.mpr ⟨rfl, rfl⟩
    rw [Wire.ofUtf8_eq_some.mpr rfl]
    rfl

theorem provider_parse_eq_ok {tag : String} {provider : Provider} :
  Provider.parse tag = .ok provider ↔ tag = provider.tag
  := by
  constructor
  · intro h
    simp only [Provider.parse] at h
    split_ifs at h <;> cases h <;> assumption
  · rintro rfl
    cases provider <;> rfl

theorem ollamaPlan_parse_eq_ok {tag : String} {plan : OllamaPlan} :
  OllamaPlan.parse tag = .ok plan ↔ tag = plan.tag
  := by
  constructor
  · intro h
    simp only [OllamaPlan.parse] at h
    split_ifs at h <;> cases h <;> assumption
  · rintro rfl
    cases plan <;> rfl

theorem extractionBackend_parse_eq_ok {tag : String} {backend : ExtractionBackend} :
  ExtractionBackend.parse tag = .ok backend ↔ tag = backend.tag
  := by
  constructor
  · intro h
    simp only [ExtractionBackend.parse] at h
    split_ifs at h <;> cases h <;> assumption
  · rintro rfl
    cases backend <;> rfl

theorem parseBool_eq_ok {field : String} {value : Bool} :
  parseBool field = .ok value ↔ field = toString value
  := by
  constructor
  · intro h
    simp only [parseBool] at h
    split_ifs at h <;> cases h <;> assumption
  · rintro rfl
    cases value <;> rfl

theorem parseMailProviders_eq_ok {tag : String} {providers : Finset MailProvider} :
  parseMailProviders tag = .ok providers ↔ mailProvidersTag providers = .ok tag
  := by
  constructor
  · intro h
    simp only [parseMailProviders] at h
    split_ifs at h <;> cases h <;> subst tag <;> decide
  · intro h
    have hext : ∀ others : Finset MailProvider,
        (.microsoft ∈ providers ↔ .microsoft ∈ others) →
        (.google ∈ providers ↔ .google ∈ others) → providers = others := by
      intro others hmicrosoft hgoogle
      apply Finset.ext
      rintro (_ | _)
      · exact hmicrosoft
      · exact hgoogle
    rw [mailProvidersTag] at h
    by_cases hmicrosoft : .microsoft ∈ providers <;> by_cases hgoogle : .google ∈ providers <;>
      simp only [hmicrosoft, hgoogle, decide_true, decide_false] at h <;> cases h
    · rw [hext {.microsoft, .google} (by simp [hmicrosoft]) (by simp [hgoogle])]
      rfl
    · rw [hext {.microsoft} (by simp [hmicrosoft]) (by simp [hgoogle])]
      rfl
    · rw [hext {.google} (by simp [hmicrosoft]) (by simp [hgoogle])]
      rfl

/-- The text writes the number, with a plus and zeros in front of it or without them. -/
def Spells (text : String) (n : UInt16) : Prop :=
  1 ≤ n.toNat ∧ n.toNat ≤ 100 ∧ ∃ sign zeros, (sign = [] ∨ sign = ['+'])
    ∧ text.toList = sign ++ List.replicate zeros '0' ++ (toString n.toNat).toList

theorem parseParallel_eq_ok {field : String} {n : UInt16} :
  parseParallel field = .ok n ↔ Spells field n
  := by
  have hlt := n.toNat_lt
  rw [parseParallel, Option.okOr_eq_ok, Option.map_eq_some_iff, Spells, Numerals.toList_toString]
  constructor
  · rintro ⟨m, hm, rfl⟩
    obtain ⟨hparse, hrange⟩ := Option.filter_eq_some_iff.mp hm
    obtain ⟨hbound, hspells⟩ := Numerals.parse_eq_some_iff.mp hparse
    rw [inRange, Bool.and_eq_true, decide_eq_true_eq, decide_eq_true_eq] at hrange
    rw [UInt16.toNat_ofNat_of_lt' hbound]
    exact ⟨hrange.1, hrange.2, hspells⟩
  · rintro ⟨hlow, hhigh, hspells⟩
    use n.toNat, Option.filter_eq_some_iff.mpr ⟨Numerals.parse_eq_some_iff.mpr ⟨hlt, hspells⟩, ?_⟩
    · rw [UInt16.ofNat_toNat]
    · rw [inRange, Bool.and_eq_true, decide_eq_true_eq, decide_eq_true_eq]
      exact ⟨hlow, hhigh⟩

/-! ### Parts of records -/

theorem frame_cons (field : String) (fields : List String) :
  frame (field :: fields) = frameField field ++ frame fields
  := List.flatMap_cons

theorem frame_append (fields others : List String) :
  frame (fields ++ others) = frame fields ++ frame others
  := List.flatMap_append

theorem frame_eq_nil_iff {fields : List String} :
  frame fields = [] ↔ fields = []
  := by
  constructor
  · intro h
    cases fields with
    | nil => rfl
    | cons field fields =>
        have hlength := congrArg List.length h
        rw [frame_cons, frameField, List.length_append, List.length_append, Wire.length_le] at hlength
        exact absurd hlength (by simp)
  · rintro rfl
    rfl

/-- What a part of a record does to the settings, by its fields. -/
abbrev Part :=
  Settings → List String → Settings → Prop

/-- The reader reads the part where its fields stand in front. -/
structure ReadsPart (reader : Settings → Wire.Reader SettingsError Settings) (part : Part) :
    Prop where
  ne_nil {settings settings' : Settings} {fields : List String} :
    part settings fields settings' → fields ≠ []
  run {settings settings' : Settings} {bytes rest : Bytes} :
    (reader settings).run bytes = .ok (settings', rest) ↔
      ∃ fields, part settings fields settings' ∧ (∀ field ∈ fields, IsShort field)
        ∧ bytes = frame fields ++ rest

/-- A part that a record may end before. -/
theorem unlessDone_eq_ok {reader : Settings → Wire.Reader SettingsError Settings} {part : Part}
    (h : ReadsPart reader part) {settings settings' : Settings} {bytes rest : Bytes} :
  (unlessDone reader settings).run bytes = .ok (settings', rest) ↔
    (bytes = [] ∧ settings' = settings ∧ rest = []) ∨
    ∃ fields, part settings fields settings' ∧ (∀ field ∈ fields, IsShort field)
      ∧ bytes = frame fields ++ rest
  := by
  rcases eq_or_ne bytes [] with rfl | hne
  · have hnone : ¬∃ fields, part settings fields settings' ∧ (∀ field ∈ fields, IsShort field)
        ∧ [] = frame fields ++ rest := by
      rintro ⟨fields, hpart, -, hbytes⟩
      obtain ⟨hframe, -⟩ := List.append_eq_nil_iff.mp hbytes.symm
      exact h.ne_nil hpart (frame_eq_nil_iff.mp hframe)
    rw [or_iff_left hnone]
    constructor
    · rintro ⟨⟩
      exact ⟨rfl, rfl, rfl⟩
    · rintro ⟨-, rfl, rfl⟩
      rfl
  · rw [or_iff_right fun hdone => hne hdone.1, ← h.run]
    cases bytes with
    | nil => exact absurd rfl hne
    | cons byte bytes => rfl

/-- Parts of a record one after the other, of which the last ones may be missing. -/
def Follows : List Part → Settings → List String → Settings → Prop
  | [], settings, fields, settings' => fields = [] ∧ settings' = settings
  | part :: parts, settings, fields, settings' =>
      (fields = [] ∧ settings' = settings) ∨
      ∃ first others between, fields = first ++ others ∧ part settings first between
        ∧ Follows parts between others settings'

theorem follows_nil {parts : List Part} (settings : Settings) :
  Follows parts settings [] settings
  := by
  cases parts with
  | nil => exact ⟨rfl, rfl⟩
  | cons => exact Or.inl ⟨rfl, rfl⟩

theorem follows_cons {part : Part} {parts : List Part} {settings between settings' : Settings}
    {fields first others : List String} (hpart : part settings first between)
    (hfields : fields = first ++ others) (h : Follows parts between others settings') :
  Follows (part :: parts) settings fields settings'
  := Or.inr ⟨first, others, between, hfields, hpart, h⟩

/-- Parts that have no fields change nothing. -/
theorem Follows.eq_of_nil {readers : List (Settings → Wire.Reader SettingsError Settings)}
    {parts : List Part} (h : List.Forall₂ ReadsPart readers parts) {settings settings' : Settings}
    (hfollows : Follows parts settings [] settings') :
  settings' = settings
  := by
  cases h with
  | nil => exact hfollows.2
  | cons hreader _ =>
      obtain ⟨-, rfl⟩ | ⟨first, others, between, hnil, hpart, -⟩ := hfollows
      · rfl
      · exact absurd (List.append_eq_nil_iff.mp hnil.symm).1 (hreader.ne_nil hpart)

/-- The readers of some parts, up to the end of the record. -/
def readParts :
    List (Settings → Wire.Reader SettingsError Settings) → Settings →
      Wire.Reader SettingsError Settings
  | [], settings => do
      if ¬(← get).isEmpty then throw .invalid
      return settings
  | reader :: readers, settings => do
      let settings ← unlessDone reader settings
      readParts readers settings

theorem readParts_eq_ok {readers : List (Settings → Wire.Reader SettingsError Settings)}
    {parts : List Part} (h : List.Forall₂ ReadsPart readers parts)
    {settings settings' : Settings} {bytes rest : Bytes} :
  (readParts readers settings).run bytes = .ok (settings', rest) ↔
    ∃ fields, Follows parts settings fields settings' ∧ (∀ field ∈ fields, IsShort field)
      ∧ bytes = frame fields ∧ rest = []
  := by
  induction h generalizing settings bytes with
  | nil =>
      cases bytes with
      | nil =>
          constructor
          · rintro ⟨⟩
            exact ⟨[], ⟨rfl, rfl⟩, List.forall_mem_nil _, rfl, rfl⟩
          · rintro ⟨_, ⟨rfl, rfl⟩, -, -, rfl⟩
            rfl
      | cons byte bytes =>
          constructor
          · rintro ⟨⟩
          · rintro ⟨_, ⟨rfl, rfl⟩, -, hbytes, -⟩
            cases hbytes
  | cons hreader hreaders ih =>
      rw [readParts, StateT.run_bind_eq_ok]
      simp only [unlessDone_eq_ok hreader, ih]
      constructor
      · rintro ⟨between, left, ⟨rfl, rfl, rfl⟩ | ⟨first, hpart, hshort, rfl⟩, others, hfollows,
          hothers, hleft, rfl⟩
        · obtain rfl := frame_eq_nil_iff.mp hleft.symm
          exact ⟨[], Or.inl ⟨rfl, hfollows.eq_of_nil hreaders⟩, List.forall_mem_nil _, rfl, rfl⟩
        · refine ⟨first ++ others, Or.inr ⟨first, others, between, rfl, hpart, hfollows⟩, ?_, ?_,
            rfl⟩
          · intro field hfield
            rcases List.mem_append.mp hfield with hfirst | hother
            · exact hshort field hfirst
            · exact hothers field hother
          · rw [hleft, frame_append]
      · rintro ⟨fields, ⟨rfl, rfl⟩ | ⟨first, others, between, rfl, hpart, hfollows⟩, hshort, rfl,
          rfl⟩
        · exact ⟨settings', [], Or.inl ⟨rfl, rfl, rfl⟩, [], follows_nil settings',
            List.forall_mem_nil _, rfl, rfl⟩
        · rw [List.forall_mem_append] at hshort
          exact ⟨between, frame others, Or.inr ⟨first, hpart, hshort.1, frame_append first others⟩,
            others, hfollows, hshort.2, rfl, rfl⟩

/-! ### The parts -/

section

variable {α β : Type} {bytes rest : Bytes} {b : β}

/-- A field is read before what goes on with it. -/
theorem run_next_bind {f : String → Wire.Reader SettingsError β} :
  (next >>= f).run bytes = .ok (b, rest) ↔
    ∃ field tail, IsShort field ∧ bytes = frameField field ++ tail
      ∧ (f field).run tail = .ok (b, rest)
  := by
  simp only [StateT.run_bind_eq_ok, next_eq_ok, and_assoc]

/-- What a field stands for is computed before what goes on with it. -/
theorem run_lift_bind {x : Except SettingsError α} {f : α → Wire.Reader SettingsError β} :
  ((liftM x : Wire.Reader SettingsError α) >>= f).run bytes = .ok (b, rest) ↔
    ∃ a, x = .ok a ∧ (f a).run bytes = .ok (b, rest)
  := by
  simp only [StateT.run_bind_eq_ok, StateT.run_lift_eq_ok, and_assoc, exists_and_left,
    exists_eq_left]

theorem run_pure_eq_ok {a : β} :
  (pure a : Wire.Reader SettingsError β).run bytes = .ok (b, rest) ↔ b = a ∧ bytes = rest
  := by
  constructor
  · rintro ⟨⟩
    exact ⟨rfl, rfl⟩
  · rintro ⟨rfl, rfl⟩
    rfl

end

/-- A part that is a single field. -/
def fieldPart {α : Type} (Stands : String → α → Prop) (set : Settings → α → Settings) : Part :=
  fun settings fields settings' =>
    ∃ field value, fields = [field] ∧ Stands field value ∧ settings' = set settings value

/-- A field is read and computed with. -/
theorem readsPart_field {α : Type} {parse : String → Except SettingsError α}
    {Stands : String → α → Prop} (hparse : ∀ {field value}, parse field = .ok value ↔
      Stands field value) (set : Settings → α → Settings) :
  ReadsPart (fun settings => do
    let value ← parse (← next)
    return set settings value) (fieldPart Stands set)
  := by
  constructor
  · rintro _ _ _ ⟨_, _, rfl, -⟩
    exact List.cons_ne_nil _ _
  · intro settings settings' bytes rest
    simp only [run_next_bind, run_lift_bind, run_pure_eq_ok, hparse]
    constructor
    · rintro ⟨field, tail, hshort, rfl, value, hstands, rfl, rfl⟩
      refine ⟨[field], ⟨field, value, rfl, hstands, rfl⟩, List.forall_mem_singleton.mpr hshort, ?_⟩
      rw [frame_cons, frame, List.flatMap_nil, List.append_nil]
    · rintro ⟨_, ⟨field, value, rfl, hstands, rfl⟩, hshort, rfl⟩
      refine ⟨field, rest, hshort field List.mem_cons_self, ?_, value, hstands, rfl, rfl⟩
      rw [frame_cons, frame, List.flatMap_nil, List.append_nil]

/-- A field is read as it is. -/
theorem readsPart_text (set : Settings → String → Settings) :
  ReadsPart (fun settings => do
    let value ← next
    return set settings value) (fieldPart Eq set)
  := by
  constructor
  · rintro _ _ _ ⟨_, _, rfl, -⟩
    exact List.cons_ne_nil _ _
  · intro settings settings' bytes rest
    simp only [run_next_bind, run_pure_eq_ok]
    constructor
    · rintro ⟨field, tail, hshort, rfl, rfl, rfl⟩
      refine ⟨[field], ⟨field, field, rfl, rfl, rfl⟩, List.forall_mem_singleton.mpr hshort, ?_⟩
      rw [frame_cons, frame, List.flatMap_nil, List.append_nil]
    · rintro ⟨_, ⟨field, _, rfl, rfl, rfl⟩, hshort, rfl⟩
      refine ⟨field, rest, hshort field List.mem_cons_self, ?_, rfl, rfl⟩
      rw [frame_cons, frame, List.flatMap_nil, List.append_nil]

namespace Settings

def providerPart : Part := fun settings fields settings' =>
  ∃ provider openrouterKey openrouterSelected,
    fields = [Provider.tag provider, openrouterKey, openrouterSelected]
      ∧ settings' = { settings with
          provider := provider
          openrouterKey := openrouterKey
          openrouterSelected := openrouterSelected }

def concurrencyPart : Part := fun settings fields settings' =>
  ∃ ollamaPlan parallel openrouterParallel,
    fields = [OllamaPlan.tag ollamaPlan, parallel] ∧ Spells parallel openrouterParallel
      ∧ settings' = { settings with
          ollamaPlan := ollamaPlan
          openrouterParallel := openrouterParallel }

theorem readsPart_provider :
  ReadsPart readProvider providerPart
  := by
  constructor
  · rintro _ _ _ ⟨_, _, _, rfl, -⟩
    exact List.cons_ne_nil _ _
  · intro settings settings' bytes rest
    simp only [readProvider, run_next_bind, run_lift_bind, run_pure_eq_ok, provider_parse_eq_ok]
    constructor
    · rintro ⟨_, _, htag, rfl, provider, rfl, key, _, hkey, rfl, selected, _, hselected, rfl, rfl,
        rfl⟩
      refine ⟨_, ⟨provider, key, selected, rfl, rfl⟩, ?_, ?_⟩
      · simp [htag, hkey, hselected]
      · simp [frame]
    · rintro ⟨_, ⟨provider, key, selected, rfl, rfl⟩, hshort, rfl⟩
      simp only [List.forall_mem_cons] at hshort
      refine ⟨_, _, hshort.1, ?_, provider, rfl, key, _, hshort.2.1, rfl, selected, rest,
        hshort.2.2.1, rfl, rfl, rfl⟩
      simp [frame]

theorem readsPart_concurrency :
  ReadsPart readConcurrency concurrencyPart
  := by
  constructor
  · rintro _ _ _ ⟨_, _, _, rfl, -⟩
    exact List.cons_ne_nil _ _
  · intro settings settings' bytes rest
    simp only [readConcurrency, run_next_bind, run_lift_bind, run_pure_eq_ok,
      ollamaPlan_parse_eq_ok, parseParallel_eq_ok]
    constructor
    · rintro ⟨_, _, htag, rfl, plan, rfl, parallel, _, hparallel, rfl, n, hspells, rfl, rfl⟩
      refine ⟨_, ⟨plan, parallel, n, rfl, hspells, rfl⟩, ?_, ?_⟩
      · simp [htag, hparallel]
      · simp [frame]
    · rintro ⟨_, ⟨plan, parallel, n, rfl, hspells, rfl⟩, hshort, rfl⟩
      simp only [List.forall_mem_cons] at hshort
      refine ⟨_, _, hshort.1, ?_, plan, rfl, parallel, rest, hshort.2.1, rfl, n, hspells, rfl, rfl⟩
      simp [frame]

/-- The parts of a record after its first five fields. -/
def parts : List Part :=
  [providerPart, concurrencyPart,
    fieldPart (fun field value => field = toString value)
      fun settings value => { settings with useDecisionModel := value },
    fieldPart (fun field value => field = ExtractionBackend.tag value)
      fun settings value => { settings with extractionBackend := value },
    fieldPart Eq fun settings value => { settings with googleClientId := value },
    fieldPart Eq fun settings value => { settings with googleClientSecret := value },
    fieldPart (fun field value => mailProvidersTag value = .ok field)
      fun settings value => { settings with mailProviders := value }]

theorem readsParts :
  List.Forall₂ ReadsPart [readProvider, readConcurrency, readDecision, readBackend,
    readGoogleClientId, readGoogleClientSecret, readMailProviders] parts
  := by
  refine .cons readsPart_provider (.cons readsPart_concurrency ?_)
  refine .cons (readsPart_field parseBool_eq_ok _) ?_
  refine .cons (readsPart_field extractionBackend_parse_eq_ok _) ?_
  refine .cons (readsPart_text _) (.cons (readsPart_text _) ?_)
  exact .cons (readsPart_field parseMailProviders_eq_ok _) .nil

/-- The fields of a record of any version, and the settings that it is read as. -/
def IsFieldsOf (fields : List String) (settings : Settings) : Prop :=
  ∃ clientId groups shared key selected others,
    fields = clientId :: groups :: shared :: key :: selected :: others
      ∧ Follows parts { default with
          clientId := clientId
          groups := groups
          shared := shared
          key := key
          selected := selected } others settings

theorem readFields_eq_ok {settings : Settings} {bytes rest : Bytes} :
  readFields.run bytes = .ok (settings, rest) ↔
    ∃ fields, IsFieldsOf fields settings ∧ (∀ field ∈ fields, IsShort field)
      ∧ bytes = frame fields ∧ rest = []
  := by
  have hreaders : readFields = (do
      let clientId ← next
      let groups ← next
      let shared ← next
      let key ← next
      let selected ← next
      readParts [readProvider, readConcurrency, readDecision, readBackend, readGoogleClientId,
        readGoogleClientSecret, readMailProviders] { default with
          clientId := clientId
          groups := groups
          shared := shared
          key := key
          selected := selected }) := rfl
  simp only [hreaders, run_next_bind, readParts_eq_ok readsParts]
  constructor
  · rintro ⟨clientId, _, hclientId, rfl, groups, _, hgroups, rfl, shared, _, hshared, rfl, key, _,
      hkey, rfl, selected, _, hselected, rfl, others, hfollows, hothers, rfl, rfl⟩
    refine ⟨_, ⟨clientId, groups, shared, key, selected, others, rfl, hfollows⟩, ?_, ?_, rfl⟩
    · simp only [List.forall_mem_cons]
      exact ⟨hclientId, hgroups, hshared, hkey, hselected, hothers⟩
    · simp [frame]
  · rintro ⟨_, ⟨clientId, groups, shared, key, selected, others, rfl, hfollows⟩, hshort, rfl, rfl⟩
    simp only [List.forall_mem_cons] at hshort
    obtain ⟨hclientId, hgroups, hshared, hkey, hselected, hothers⟩ := hshort
    exact ⟨clientId, _, hclientId, frame_cons _ _, groups, _, hgroups, frame_cons _ _, shared, _,
      hshared, frame_cons _ _, key, _, hkey, frame_cons _ _, selected, _, hselected,
      frame_cons _ _, others, hfollows, hothers, rfl, rfl⟩

/-! ### Versions -/

/-- The numbers of fields that the versions of a record have. -/
def versions : List ℕ :=
  [5, 8, 10, 11, 12, 13, 14, 15]

/-- The fields of a record of the version with so many of them: those of the settings, as far as they
go, where what comes after them is as in the default settings. -/
def IsVersion (count : ℕ) (parallel : String) (fields : List String) (settings : Settings) : Prop :=
  ∃ mailProviders, mailProvidersTag settings.mailProviders = .ok mailProviders
    ∧ count ∈ versions ∧ fields = (settings.fields parallel mailProviders).take count
    ∧ (settings.fields parallel mailProviders).drop count = (default.fields "32" "ms").drop count
    ∧ Spells parallel settings.openrouterParallel

theorem spells_default :
  Spells "32" defaultOpenrouterParallel
  := parseParallel_eq_ok.mp (by decide)

theorem IsFieldsOf.isVersion {fields : List String} {settings : Settings}
    (h : IsFieldsOf fields settings) :
  ∃ count parallel, IsVersion count parallel fields settings
  := by
  obtain ⟨clientId, groups, shared, key, selected, others, rfl, hfollows⟩ := h
  -- one case for each place where the record may end
  obtain ⟨rfl, rfl⟩ | ⟨_, _, _, rfl, ⟨provider, openrouterKey, openrouterSelected, rfl, rfl⟩,
    hfollows⟩ := hfollows
  · exact ⟨5, "32", "ms", rfl, by decide, rfl, rfl, spells_default⟩
  obtain ⟨rfl, rfl⟩ | ⟨_, _, _, rfl, ⟨plan, parallel, n, rfl, hspells, rfl⟩, hfollows⟩ := hfollows
  · exact ⟨8, "32", "ms", rfl, by decide, rfl, rfl, spells_default⟩
  obtain ⟨rfl, rfl⟩ | ⟨_, _, _, rfl, ⟨_, decision, rfl, rfl, rfl⟩, hfollows⟩ := hfollows
  · exact ⟨10, parallel, "ms", rfl, by decide, rfl, rfl, hspells⟩
  obtain ⟨rfl, rfl⟩ | ⟨_, _, _, rfl, ⟨_, backend, rfl, rfl, rfl⟩, hfollows⟩ := hfollows
  · exact ⟨11, parallel, "ms", rfl, by decide, rfl, rfl, hspells⟩
  obtain ⟨rfl, rfl⟩ | ⟨_, _, _, rfl, ⟨_, clientId, rfl, rfl, rfl⟩, hfollows⟩ := hfollows
  · exact ⟨12, parallel, "ms", rfl, by decide, rfl, rfl, hspells⟩
  obtain ⟨rfl, rfl⟩ | ⟨_, _, _, rfl, ⟨_, secret, rfl, rfl, rfl⟩, hfollows⟩ := hfollows
  · exact ⟨13, parallel, "ms", rfl, by decide, rfl, rfl, hspells⟩
  obtain ⟨rfl, rfl⟩ | ⟨_, _, _, rfl, ⟨tag, mail, rfl, hmail, rfl⟩, rfl, rfl⟩ := hfollows
  · exact ⟨14, parallel, "ms", rfl, by decide, rfl, rfl, hspells⟩
  · exact ⟨15, parallel, tag, hmail, by decide, rfl, rfl, hspells⟩

/-- What the tags of the default settings stand for. -/
theorem eq_of_default_tags {settings : Settings} {parallel mailProviders : String}
    (hmail : mailProvidersTag settings.mailProviders = .ok mailProviders)
    (hspells : Spells parallel settings.openrouterParallel) :
  (settings.provider.tag = "ollama_cloud" → settings.provider = .ollamaCloud)
    ∧ (settings.ollamaPlan.tag = "free" → settings.ollamaPlan = .free)
    ∧ (parallel = "32" → settings.openrouterParallel = 32)
    ∧ (toString settings.useDecisionModel = "false" → settings.useDecisionModel = false)
    ∧ (settings.extractionBackend.tag = "chat" → settings.extractionBackend = .chatModel)
    ∧ (mailProviders = "ms" → settings.mailProviders = {.microsoft})
  := by
  refine ⟨?_, ?_, ?_, ?_, ?_, ?_⟩
  · intro h
    exact (Except.ok.inj (provider_parse_eq_ok.mpr h.symm)).symm
  · intro h
    exact (Except.ok.inj (ollamaPlan_parse_eq_ok.mpr h.symm)).symm
  · rintro rfl
    have hparse := parseParallel_eq_ok.mpr hspells
    rw [parseParallel_eq_ok.mpr spells_default] at hparse
    exact (Except.ok.inj hparse).symm
  · intro h
    exact (Except.ok.inj (parseBool_eq_ok.mpr h.symm)).symm
  · intro h
    exact (Except.ok.inj (extractionBackend_parse_eq_ok.mpr h.symm)).symm
  · rintro rfl
    exact (Except.ok.inj (parseMailProviders_eq_ok.mpr hmail)).symm

theorem IsVersion.isFieldsOf {count : ℕ} {parallel : String} {fields : List String}
    {settings : Settings} (h : IsVersion count parallel fields settings) :
  IsFieldsOf fields settings
  := by
  obtain ⟨mail, hmail, hcount, rfl, hdrop, hspells⟩ := h
  obtain ⟨hprovider, hplan, hparallel, hdecision, hbackend, hproviders⟩ :=
    eq_of_default_tags hmail hspells
  refine ⟨settings.clientId, settings.groups, settings.shared, settings.key, settings.selected, ?_⟩
  rcases settings with ⟨clientId, googleClientId, googleClientSecret, mailProviders, groups, shared,
    key, selected, provider, openrouterKey, openrouterSelected, ollamaPlan, openrouterParallel,
    useDecisionModel, extractionBackend⟩
  simp only [versions, List.mem_cons, List.not_mem_nil, or_false] at hcount
  simp only [fields, default] at hdrop
  rcases hcount with rfl | rfl | rfl | rfl | rfl | rfl | rfl | rfl <;>
    simp only [List.drop_succ_cons, List.drop_zero, List.cons.injEq, and_true] at hdrop
  · obtain ⟨hp, rfl, rfl, hl, hn, hd, hb, rfl, rfl, hm⟩ := hdrop
    obtain rfl := hprovider hp
    obtain rfl := hplan hl
    obtain rfl := hparallel hn
    obtain rfl := hdecision hd
    obtain rfl := hbackend hb
    obtain rfl := hproviders hm
    exact ⟨[], rfl, Or.inl ⟨rfl, rfl⟩⟩
  · obtain ⟨hl, hn, hd, hb, rfl, rfl, hm⟩ := hdrop
    obtain rfl := hplan hl
    obtain rfl := hparallel hn
    obtain rfl := hdecision hd
    obtain rfl := hbackend hb
    obtain rfl := hproviders hm
    refine ⟨_, rfl, ?_⟩
    refine follows_cons ⟨provider, openrouterKey, openrouterSelected, rfl, rfl⟩ rfl ?_
    apply follows_nil
  · obtain ⟨hd, hb, rfl, rfl, hm⟩ := hdrop
    obtain rfl := hdecision hd
    obtain rfl := hbackend hb
    obtain rfl := hproviders hm
    refine ⟨_, rfl, ?_⟩
    refine follows_cons ⟨provider, openrouterKey, openrouterSelected, rfl, rfl⟩ rfl ?_
    refine follows_cons ⟨ollamaPlan, parallel, openrouterParallel, rfl, hspells, rfl⟩ rfl ?_
    apply follows_nil
  · obtain ⟨hb, rfl, rfl, hm⟩ := hdrop
    obtain rfl := hbackend hb
    obtain rfl := hproviders hm
    refine ⟨_, rfl, ?_⟩
    refine follows_cons ⟨provider, openrouterKey, openrouterSelected, rfl, rfl⟩ rfl ?_
    refine follows_cons ⟨ollamaPlan, parallel, openrouterParallel, rfl, hspells, rfl⟩ rfl ?_
    refine follows_cons ⟨_, useDecisionModel, rfl, rfl, rfl⟩ rfl ?_
    apply follows_nil
  · obtain ⟨rfl, rfl, hm⟩ := hdrop
    obtain rfl := hproviders hm
    refine ⟨_, rfl, ?_⟩
    refine follows_cons ⟨provider, openrouterKey, openrouterSelected, rfl, rfl⟩ rfl ?_
    refine follows_cons ⟨ollamaPlan, parallel, openrouterParallel, rfl, hspells, rfl⟩ rfl ?_
    refine follows_cons ⟨_, useDecisionModel, rfl, rfl, rfl⟩ rfl ?_
    refine follows_cons ⟨_, extractionBackend, rfl, rfl, rfl⟩ rfl ?_
    apply follows_nil
  · obtain ⟨rfl, hm⟩ := hdrop
    obtain rfl := hproviders hm
    refine ⟨_, rfl, ?_⟩
    refine follows_cons ⟨provider, openrouterKey, openrouterSelected, rfl, rfl⟩ rfl ?_
    refine follows_cons ⟨ollamaPlan, parallel, openrouterParallel, rfl, hspells, rfl⟩ rfl ?_
    refine follows_cons ⟨_, useDecisionModel, rfl, rfl, rfl⟩ rfl ?_
    refine follows_cons ⟨_, extractionBackend, rfl, rfl, rfl⟩ rfl ?_
    refine follows_cons ⟨_, googleClientId, rfl, rfl, rfl⟩ rfl ?_
    apply follows_nil
  · have hm := hdrop
    obtain rfl := hproviders hm
    refine ⟨_, rfl, ?_⟩
    refine follows_cons ⟨provider, openrouterKey, openrouterSelected, rfl, rfl⟩ rfl ?_
    refine follows_cons ⟨ollamaPlan, parallel, openrouterParallel, rfl, hspells, rfl⟩ rfl ?_
    refine follows_cons ⟨_, useDecisionModel, rfl, rfl, rfl⟩ rfl ?_
    refine follows_cons ⟨_, extractionBackend, rfl, rfl, rfl⟩ rfl ?_
    refine follows_cons ⟨_, googleClientId, rfl, rfl, rfl⟩ rfl ?_
    refine follows_cons ⟨_, googleClientSecret, rfl, rfl, rfl⟩ rfl ?_
    apply follows_nil
  · refine ⟨_, rfl, ?_⟩
    refine follows_cons ⟨provider, openrouterKey, openrouterSelected, rfl, rfl⟩ rfl ?_
    refine follows_cons ⟨ollamaPlan, parallel, openrouterParallel, rfl, hspells, rfl⟩ rfl ?_
    refine follows_cons ⟨_, useDecisionModel, rfl, rfl, rfl⟩ rfl ?_
    refine follows_cons ⟨_, extractionBackend, rfl, rfl, rfl⟩ rfl ?_
    refine follows_cons ⟨_, googleClientId, rfl, rfl, rfl⟩ rfl ?_
    refine follows_cons ⟨_, googleClientSecret, rfl, rfl, rfl⟩ rfl ?_
    refine follows_cons ⟨_, mailProviders, rfl, hmail, rfl⟩ rfl ?_
    apply follows_nil

/-! ### Records of a version -/

/-- The bytes are a record with so many fields, which is read as the settings; if it has a number of
parallel requests it is written so. -/
def IsRecord (count : ℕ) (parallel : String) (bytes : Bytes) (settings : Settings) : Prop :=
  bytes.length ≤ 2560 ∧ ∃ fields, bytes = magic ++ frame fields
    ∧ IsVersion count parallel fields settings

theorem isShort_of_length {fields : List String}
    (h : (magic ++ frame fields).length ≤ maxBytes) :
  ∀ field ∈ fields, IsShort field
  := by
  intro field hfield
  obtain ⟨before, after, rfl⟩ := List.append_of_mem hfield
  rw [frame_append, frame_cons, frameField] at h
  simp only [List.length_append, maxBytes] at h
  rw [IsShort]
  omega

/-- A record is decoded as the settings that it is a record of. -/
theorem decode_eq_ok_iff {bytes : Bytes} {settings : Settings} :
  decode bytes = .ok settings ↔ ∃ count parallel, IsRecord count parallel bytes settings
  := by
  rw [decode]
  constructor
  · intro h
    split at h
    · cases h
    · next hsize =>
        split at h
        · next hmagic =>
            obtain ⟨rest, rfl⟩ := hmagic
            rw [List.drop_left] at h
            obtain ⟨⟨found, left⟩, hread, rfl⟩ := Except.map_eq_ok.mp h
            obtain ⟨fields, hfields, -, rfl, rfl⟩ := readFields_eq_ok.mp hread
            obtain ⟨count, parallel, hversion⟩ := hfields.isVersion
            exact ⟨count, parallel, not_lt.mp hsize, fields, rfl, hversion⟩
        · cases h
  · rintro ⟨count, parallel, hsize, fields, rfl, hversion⟩
    have hread : readFields.run (frame fields) = .ok (settings, []) :=
      readFields_eq_ok.mpr ⟨fields, hversion.isFieldsOf, isShort_of_length hsize, rfl, rfl⟩
    rw [if_neg (not_lt.mpr (show _ ≤ maxBytes from hsize)), if_pos (List.prefix_append _ _),
      List.drop_left, hread]
    rfl

theorem foldl_size (fields : List String) (size : ℕ) :
  fields.foldl (fun size field => size + 4 + (Wire.utf8 field).length) size =
    size + (frame fields).length
  := by
  induction fields generalizing size with
  | nil => rfl
  | cons field fields ih =>
      rw [List.foldl_cons, ih, frame_cons, frameField, List.length_append, List.length_append,
        Wire.length_le]
      omega

theorem foldlM_frame {fields : List String} (h : ∀ field ∈ fields, IsShort field)
    (bytes : Bytes) :
  fields.foldlM (fun bytes field =>
    if 2 ^ 32 ≤ (Wire.utf8 field).length then (throw .tooLarge : Except SettingsError Bytes)
    else return bytes ++ frameField field) bytes = .ok (bytes ++ frame fields)
  := by
  induction fields generalizing bytes with
  | nil =>
      rw [frame, List.flatMap_nil, List.append_nil]
      rfl
  | cons field fields ih =>
      rw [List.forall_mem_cons] at h
      rw [List.foldlM_cons, if_neg (not_le.mpr h.1), frame_cons, ← List.append_assoc]
      exact ih h.2 _

/-- Settings are encoded as a record with all the fields. -/
theorem encode_eq_ok_iff {settings : Settings} {bytes : Bytes} :
  settings.encode = .ok bytes ↔
    ∃ mailProviders, mailProvidersTag settings.mailProviders = .ok mailProviders
      ∧ bytes = magic ++ frame
          (settings.fields (toString settings.openrouterParallel.toNat) mailProviders)
      ∧ bytes.length ≤ maxBytes
  := by
  rw [encode]
  constructor
  · intro h
    obtain ⟨mail, hmail, h⟩ := Except.bind_eq_ok.mp h
    use mail, hmail
    simp only [foldl_size] at h
    split at h
    · cases h
    · next hsize =>
        rw [← List.length_append] at hsize
        have hshort := isShort_of_length (not_lt.mp hsize)
        rw [foldlM_frame hshort] at h
        cases h
        exact ⟨rfl, not_lt.mp hsize⟩
  · rintro ⟨mail, hmail, rfl, hsize⟩
    apply Except.bind_eq_ok.mpr
    use mail, hmail
    simp only [foldl_size]
    rw [← List.length_append, if_neg (not_lt.mpr hsize)]
    exact foldlM_frame (isShort_of_length hsize) magic

/-! ### Numbers that are not written as they are saved -/

/-- Fields are told by their bytes. -/
theorem frame_inj {fields others : List String} (h : ∀ field ∈ fields, IsShort field)
    (h' : ∀ field ∈ others, IsShort field) (heq : frame fields = frame others) :
  fields = others
  := by
  induction fields generalizing others with
  | nil => exact (frame_eq_nil_iff.mp heq.symm).symm
  | cons field fields ih =>
      cases others with
      | nil => exact frame_eq_nil_iff.mp heq
      | cons other others =>
          rw [List.forall_mem_cons] at h h'
          rw [frame_cons, frame_cons] at heq
          have hnext := next_eq_ok.mpr ⟨h.1, heq.symm⟩
          rw [next_eq_ok.mpr ⟨h'.1, rfl⟩] at hnext
          obtain ⟨rfl, hrest⟩ := Prod.mk.inj (Except.ok.inj hnext)
          rw [ih h.2 h'.2 hrest.symm]

example : frame ["no", "1"] = [2, 0, 0, 0, 110, 111, 1, 0, 0, 0, 49]
  := by decide +kernel

theorem getElem?_fields (settings : Settings) (parallel mailProviders : String) :
  (settings.fields parallel mailProviders)[9]? = some parallel
  := rfl

/-- A record with the number has it as its tenth field, and one without it is read as the default. -/
theorem IsVersion.parallel {count : ℕ} {parallel : String} {fields : List String}
    {settings : Settings} (h : IsVersion count parallel fields settings) :
  if 9 < count then fields[9]? = some parallel
  else fields[9]? = none ∧ parallel = toString settings.openrouterParallel.toNat
  := by
  obtain ⟨mail, hmail, hcount, rfl, hdrop, hspells⟩ := h
  split
  · next hlong => rw [List.getElem?_take_of_lt hlong, getElem?_fields]
  · next hshort =>
      have hnone : ((settings.fields parallel mail).take count)[9]? = none :=
        List.getElem?_eq_none (le_trans (List.length_take_le _ _) (not_lt.mp hshort))
      have hnumber := congrArg (fun l => l[9 - count]?) hdrop
      simp only [List.getElem?_drop, Nat.add_sub_cancel' (not_lt.mp hshort), getElem?_fields,
        Option.some.injEq] at hnumber
      rw [(eq_of_default_tags hmail hspells).2.2.1 hnumber]
      exact ⟨hnone, hnumber⟩

/-- The bytes are a record that has the number written with a plus, or with zeros in front. -/
def HasLooseParallel (bytes : Bytes) : Prop :=
  ∃ count parallel settings, IsRecord count parallel bytes settings ∧ 10 ≤ count
    ∧ parallel ≠ toString settings.openrouterParallel.toNat

/-- The bytes are decoded exactly when they are a record as it is saved, and a record with all the
fields is encoded again as the same bytes. -/
def IsExact (bytes : Bytes) : Prop :=
  (∀ settings, decode bytes = .ok settings ↔
      ∃ count, IsRecord count (toString settings.openrouterParallel.toNat) bytes settings)
    ∧ ∀ parallel settings, IsRecord 15 parallel bytes settings → decode bytes = .ok settings →
        settings.encode = .ok bytes

theorem exists_mailProvidersTag {providers : Finset MailProvider} (h : providers ≠ ∅) :
  ∃ tag, mailProvidersTag providers = .ok tag
  := by
  rw [mailProvidersTag]
  by_cases hmicrosoft : .microsoft ∈ providers <;> by_cases hgoogle : .google ∈ providers <;>
    simp only [hmicrosoft, hgoogle, decide_true, decide_false]
  · exact ⟨_, rfl⟩
  · exact ⟨_, rfl⟩
  · exact ⟨_, rfl⟩
  · exfalso
    apply h
    apply Finset.eq_empty_of_forall_notMem
    rintro (_ | _)
    · exact hmicrosoft
    · exact hgoogle

/-- Settings that are encoded are decoded; and bytes are decoded exactly as records when they do not
have a number that is written with a plus or with zeros in front. -/
theorem decode_exact_iff (bytes : Bytes) :
  (∀ settings : Settings, settings.mailProviders ≠ ∅ → 1 ≤ settings.openrouterParallel.toNat →
      settings.openrouterParallel.toNat ≤ 100 →
      (∀ mailProviders, mailProvidersTag settings.mailProviders = .ok mailProviders →
        (magic ++ frame (settings.fields (toString settings.openrouterParallel.toNat)
          mailProviders)).length ≤ 2560) →
      ∃ bytes, settings.encode = .ok bytes ∧ decode bytes = .ok settings)
    ∧ (IsExact bytes ↔ ¬ HasLooseParallel bytes)
  := by
  constructor
  · intro settings hproviders hlow hhigh hsize
    obtain ⟨mail, hmail⟩ := exists_mailProvidersTag hproviders
    use magic ++ frame (settings.fields (toString settings.openrouterParallel.toNat) mail)
    use encode_eq_ok_iff.mpr ⟨mail, hmail, rfl, hsize mail hmail⟩
    apply decode_eq_ok_iff.mpr
    use 15, toString settings.openrouterParallel.toNat, hsize mail hmail
    exact ⟨_, rfl, mail, hmail, by decide, rfl, rfl, hlow, hhigh, [], 0, Or.inl rfl, rfl⟩
  · constructor
    · rintro ⟨hdecode, -⟩ ⟨count, parallel, settings, hrecord, hcount, hne⟩
      obtain ⟨count', hplain⟩ :=
        (hdecode settings).mp (decode_eq_ok_iff.mpr ⟨count, parallel, hrecord⟩)
      obtain ⟨hsize, fields, rfl, hversion⟩ := hrecord
      obtain ⟨hsize', others, hbytes, hversion'⟩ := hplain
      obtain rfl : fields = others := by
        apply frame_inj (isShort_of_length hsize) _ (List.append_cancel_left hbytes)
        apply isShort_of_length
        rw [← hbytes]
        exact hsize
      have hloose := hversion.parallel
      have hplain := hversion'.parallel
      rw [if_pos (show 9 < count from hcount)] at hloose
      rw [hloose] at hplain
      split at hplain
      · exact hne (Option.some.inj hplain)
      · cases hplain.1
    · intro hloose
      have hplain : ∀ {count parallel settings}, IsRecord count parallel bytes settings →
          parallel = toString settings.openrouterParallel.toNat := by
        intro count parallel settings hrecord
        have hparallel := hrecord.2.choose_spec.2.parallel
        by_contra hne
        split at hparallel
        · next hlong => exact hloose ⟨count, parallel, settings, hrecord, hlong, hne⟩
        · exact hne hparallel.2
      constructor
      · intro settings
        rw [decode_eq_ok_iff]
        constructor
        · rintro ⟨count, parallel, hrecord⟩
          exact ⟨count, hplain hrecord ▸ hrecord⟩
        · rintro ⟨count, hrecord⟩
          exact ⟨count, _, hrecord⟩
      · intro parallel settings hrecord _
        obtain rfl := hplain hrecord
        obtain ⟨hsize, fields, rfl, mail, hmail, -, rfl, -⟩ := hrecord
        exact encode_eq_ok_iff.mpr ⟨mail, hmail, rfl, hsize⟩

/-- A record that has the number five written with a plus. -/
def plusRecord : Bytes :=
  magic ++ frame (default.fields "+5" "ms")

/-- The number is read, and written in another way. -/
theorem decode_plusRecord :
  decode plusRecord = .ok { default with openrouterParallel := 5 }
    ∧ IsRecord 15 "+5" plusRecord { default with openrouterParallel := 5 }
    ∧ ¬ IsExact plusRecord
  := by
  have hrecord : IsRecord 15 "+5" plusRecord { default with openrouterParallel := 5 } := by
    use by decide
    exact ⟨_, rfl, "ms", by decide, by decide, rfl, rfl, by decide, by decide, ['+'], 0, Or.inr rfl,
      by decide⟩
  have hdecode := decode_eq_ok_iff.mpr ⟨15, "+5", hrecord⟩
  use hdecode, hrecord
  rintro ⟨-, hencode⟩
  have hsame := hencode "+5" _ hrecord hdecode
  obtain ⟨mail, hmail, hbytes, -⟩ := encode_eq_ok_iff.mp hsame
  cases hmail
  exact absurd hbytes (by decide)

end Settings

end SavedSettings

end Desktop
