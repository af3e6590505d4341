import OpenLoops.Desktop.LoopState

/-!
# The bytes of the decisions

A record is read exactly where its bytes stand in front, and so are the secret and the records:
what was encoded is decoded to itself.
-/

namespace Desktop

namespace LoopState

open Wire (take_eq_ok readArray_eq_ok readByte_eq_ok readLe_eq_ok readRows_eq_ok require_eq_ok)

variable {bytes rest : Bytes}

/-! ### Identifiers -/

/-- The identifier fits behind one byte for its length. -/
def IsShort (id : String) : Prop :=
  (Wire.utf8 id).length ≤ maxReminderIdLen

/-- The bytes of an identifier. -/
def idBytes (id : String) : Bytes :=
  UInt8.ofNat (Wire.utf8 id).length :: Wire.utf8 id

/-- An identifier is encoded exactly when it is short. -/
theorem pushId_eq_ok {id : String} :
  pushId id = .ok bytes ↔ IsShort id ∧ bytes = idBytes id
  := by
  rw [pushId, IsShort, idBytes]
  split_ifs with h
  · simp [h.not_ge]
  · simp [not_lt.mp h, eq_comm]

/-- An identifier is read where its bytes stand in front. -/
theorem readId_eq_ok {id : String} :
  readId.run bytes = .ok (id, rest) ↔ IsShort id ∧ bytes = idBytes id ++ rest
  := by
  rw [readId, StateT.run_bind_eq_ok]
  constructor
  · rintro ⟨len, t, hlen, h⟩
    obtain ⟨text, t', htext, hfound⟩ := StateT.run_bind_eq_ok.mp h
    obtain ⟨hlength, rfl⟩ := take_eq_ok.mp htext
    rcases hof : Wire.ofUtf8 text with _ | found
    · rw [hof] at hfound
      cases hfound
    · rw [hof] at hfound
      cases hfound
      obtain rfl := Wire.ofUtf8_eq_some.mp hof
      rw [readByte_eq_ok.mp hlen, IsShort, idBytes, hlength, UInt8.ofNat_toNat]
      use Nat.le_of_lt_succ len.toNat_lt
      rfl
  · rintro ⟨hshort, rfl⟩
    have hlt : (Wire.utf8 id).length < 2 ^ 8 := Nat.lt_succ_of_le hshort
    use UInt8.ofNat (Wire.utf8 id).length, Wire.utf8 id ++ rest, readByte_eq_ok.mpr rfl
    apply StateT.run_bind_eq_ok.mpr
    use Wire.utf8 id, rest, take_eq_ok.mpr ⟨(UInt8.toNat_ofNat_of_lt' hlt).symm, rfl⟩
    rw [Wire.ofUtf8_eq_some.mpr rfl]
    rfl

/-! ### Reminders -/

/-- The identifiers of a reminder are short. -/
def IsShortReminder : Reminder → Prop
  | .created _ listId taskId | .completed _ listId taskId => IsShort listId ∧ IsShort taskId
  | .none | .attempted => True

/-- The bytes of the identifiers of a reminder. -/
def reminderIdBytes : Reminder → Bytes
  | .created _ listId taskId | .completed _ listId taskId => idBytes listId ++ idBytes taskId
  | .none | .attempted => []

/-- The identifiers of a reminder are encoded exactly when they are short. -/
theorem pushReminderIds_eq_ok {reminder : Reminder} :
  pushReminderIds reminder = .ok bytes ↔
    IsShortReminder reminder ∧ bytes = reminderIdBytes reminder
  := by
  have hids : ∀ listId taskId : String,
      (do return (← pushId listId) ++ (← pushId taskId)) = Except.ok bytes ↔
        (IsShort listId ∧ IsShort taskId) ∧ bytes = idBytes listId ++ idBytes taskId := by
    intro listId taskId
    simp only [Except.bind_eq_ok, pushId_eq_ok]
    constructor
    · rintro ⟨_, ⟨hlist, rfl⟩, _, ⟨htask, rfl⟩, ⟨⟩⟩
      exact ⟨⟨hlist, htask⟩, rfl⟩
    · rintro ⟨⟨hlist, htask⟩, rfl⟩
      exact ⟨_, ⟨hlist, rfl⟩, _, ⟨htask, rfl⟩, rfl⟩
  cases reminder with
  | none => simp [pushReminderIds, IsShortReminder, reminderIdBytes, eq_comm]
  | attempted => simp [pushReminderIds, IsShortReminder, reminderIdBytes, eq_comm]
  | created provider listId taskId => apply hids
  | completed provider listId taskId => apply hids

/-- A reminder is read where the bytes of its identifiers stand in front. -/
theorem readReminder_eq_ok {tag : UInt8} {reminder : Reminder} :
  (readReminder tag).run bytes = .ok (reminder, rest) ↔ tag = reminderTag reminder
    ∧ IsShortReminder reminder ∧ bytes = reminderIdBytes reminder ++ rest
  := by
  have hids : ∀ (make : String → String → Reminder) (found : Reminder),
      (do return make (← readId) (← readId) : Wire.Reader StoreFailure Reminder).run bytes
        = .ok (found, rest) ↔ ∃ listId taskId, found = make listId taskId
          ∧ (IsShort listId ∧ IsShort taskId)
          ∧ bytes = idBytes listId ++ idBytes taskId ++ rest := by
    intro make found
    simp only [StateT.run_bind_eq_ok, readId_eq_ok]
    constructor
    · rintro ⟨listId, _, ⟨hlist, rfl⟩, taskId, _, ⟨htask, rfl⟩, ⟨⟩⟩
      use listId, taskId, rfl, ⟨hlist, htask⟩
      rw [List.append_assoc]
    · rintro ⟨listId, taskId, rfl, ⟨hlist, htask⟩, rfl⟩
      rw [List.append_assoc]
      exact ⟨listId, _, ⟨hlist, rfl⟩, taskId, _, ⟨htask, rfl⟩, rfl⟩
  constructor
  · intro h
    unfold readReminder at h
    split at h
    · cases h
      simp [reminderTag, IsShortReminder, reminderIdBytes]
    · cases h
      simp [reminderTag, IsShortReminder, reminderIdBytes]
    · obtain ⟨listId, taskId, rfl, hshort, hbytes⟩ := (hids (.created .microsoft) reminder).mp h
      exact ⟨rfl, hshort, hbytes⟩
    · obtain ⟨listId, taskId, rfl, hshort, hbytes⟩ :=
        (hids (.completed .microsoft) reminder).mp h
      exact ⟨rfl, hshort, hbytes⟩
    · obtain ⟨listId, taskId, rfl, hshort, hbytes⟩ := (hids (.created .google) reminder).mp h
      exact ⟨rfl, hshort, hbytes⟩
    · obtain ⟨listId, taskId, rfl, hshort, hbytes⟩ := (hids (.completed .google) reminder).mp h
      exact ⟨rfl, hshort, hbytes⟩
    · cases h
  · rintro ⟨rfl, hshort, hbytes⟩
    rcases reminder with _ | _ | ⟨_ | _, listId, taskId⟩ | ⟨_ | _, listId, taskId⟩
    · rw [hbytes]
      rfl
    · rw [hbytes]
      rfl
    · apply (hids (.created .microsoft) _).mpr ⟨listId, taskId, rfl, hshort, hbytes⟩
    · apply (hids (.created .google) _).mpr ⟨listId, taskId, rfl, hshort, hbytes⟩
    · apply (hids (.completed .microsoft) _).mpr ⟨listId, taskId, rfl, hshort, hbytes⟩
    · apply (hids (.completed .google) _).mpr ⟨listId, taskId, rfl, hshort, hbytes⟩

/-! ### Records -/

/-- Every decision is read back from its byte, and from no other byte. -/
theorem ofDecisionTag_eq_ok {tag : UInt8} {decision : Decision} :
  ofDecisionTag tag = .ok decision ↔ tag = decisionTag decision
  := by
  constructor
  · intro h
    unfold ofDecisionTag at h
    split at h <;> cases h <;> rfl
  · rintro rfl
    cases decision <;> rfl

/-- The bytes of a record. -/
def recordBytes (r : Record) : Bytes :=
  r.key.toList ++ [decisionTag r.decision] ++ [reminderTag r.reminder]
    ++ Wire.le 8 r.updated.toUInt64.toNat ++ reminderIdBytes r.reminder

/-- A record is encoded exactly when the identifiers of its reminder are short. -/
theorem pushRecord_eq_ok {r : Record} :
  pushRecord r = .ok bytes ↔ IsShortReminder r.reminder ∧ bytes = recordBytes r
  := by
  simp only [pushRecord, Except.bind_eq_ok, pushReminderIds_eq_ok]
  constructor
  · rintro ⟨_, ⟨hshort, rfl⟩, ⟨⟩⟩
    exact ⟨hshort, rfl⟩
  · rintro ⟨hshort, rfl⟩
    exact ⟨_, ⟨hshort, rfl⟩, rfl⟩

/-- A record is read where its bytes stand in front, when no record before it has its key. -/
theorem readRecord_eq_ok {records : List Record} {r : Record} :
  (readRecord records).run bytes = .ok (r, rest) ↔ IsShortReminder r.reminder
    ∧ r.key ∉ records.map Record.key ∧ bytes = recordBytes r ++ rest
  := by
  have hany : ∀ key : LoopKey, (!records.any (·.key = key)) = true ↔
      key ∉ records.map Record.key := by
    simp
  simp only [readRecord, StateT.run_bind_eq_ok, StateT.run_lift_eq_ok, readArray_eq_ok,
    readByte_eq_ok, readLe_eq_ok, require_eq_ok, hany, ofDecisionTag_eq_ok, readReminder_eq_ok]
  constructor
  · rintro ⟨key, _, rfl, _, _, rfl, _, _, rfl, updated, _, ⟨hupdated, rfl⟩, _, _, ⟨hkey, rfl⟩,
      decision, _, ⟨rfl, rfl⟩, reminder, _, ⟨rfl, hshort, rfl⟩, ⟨⟩⟩
    use hshort, hkey
    rw [recordBytes, UInt64.toUInt64_toInt64, UInt64.toNat_ofNat_of_lt' hupdated]
    simp
  · rintro ⟨hshort, hkey, rfl⟩
    refine ⟨r.key, _, ?_, _, _, rfl, _, _, rfl, r.updated.toUInt64.toNat, _,
      ⟨r.updated.toUInt64.toNat_lt, rfl⟩, (), _, ⟨hkey, rfl⟩, r.decision, _, ⟨rfl, rfl⟩,
      r.reminder, rest, ⟨rfl, hshort, rfl⟩, ?_⟩
    · simp [recordBytes]
    · rw [UInt64.ofNat_toNat, Int64.toInt64_toUInt64]
      rfl

/-! ### The secret and the records -/

/-- The bytes of the secret and the records. -/
def storeBytes (secret : Vector UInt8 32) (records : List Record) : Bytes :=
  magic ++ secret.toList ++ [UInt8.ofNat records.length] ++ records.flatMap recordBytes

/-- The secret and the records are encoded exactly when there are not too many, their identifiers
are short and their bytes fit. -/
theorem encode_eq_ok {secret : Vector UInt8 32} {records : List Record} :
  encode secret records = .ok bytes ↔ records.length ≤ cap
    ∧ (∀ r ∈ records, IsShortReminder r.reminder)
    ∧ bytes = storeBytes secret records ∧ bytes.length ≤ maxCredentialBytes
  := by
  rw [encode]
  split_ifs with hcap
  · simp [hcap.not_ge]
  · simp only [Except.bind_eq_ok, Except.mapM_eq_ok_map pushRecord_eq_ok, not_lt.mp hcap,
      true_and]
    constructor
    · rintro ⟨_, ⟨hshort, rfl⟩, h⟩
      rw [← List.flatMap_def] at h
      split_ifs at h with hsize
      cases h
      use hshort, rfl, not_lt.mp hsize
    · rintro ⟨hshort, rfl, hsize⟩
      use records.map recordBytes, ⟨hshort, rfl⟩
      rw [← List.flatMap_def]
      apply if_neg hsize.not_gt

/-- The secret and the records are decoded exactly from their bytes, when there are not too many,
they have keys of their own and their identifiers are short. -/
theorem decode_eq_ok {secret : Vector UInt8 32} {records : List Record} :
  decode bytes = .ok (secret, records) ↔ KeyedRows.IsMap Record.key cap records
    ∧ (∀ r ∈ records, IsShortReminder r.reminder) ∧ bytes = storeBytes secret records
  := by
  have hrows : ∀ {n : ℕ} {found : List Record} {bytes rest : Bytes},
      (Wire.readRows readRecord n []).run bytes = .ok (found, rest) ↔ found.length = n
        ∧ (∀ r ∈ found, IsShortReminder r.reminder) ∧ (found.map Record.key).Nodup
        ∧ bytes = found.flatMap recordBytes ++ rest := by
    intro n found bytes rest
    rw [readRows_eq_ok readRecord_eq_ok]
    simp
  simp only [decode, Wire.readAll_eq_ok, readStore, StateT.run_bind_eq_ok,
    StateT.run_lift_eq_ok, take_eq_ok, readArray_eq_ok, readByte_eq_ok, require_eq_ok,
    decide_eq_true_eq, hrows]
  constructor
  · rintro ⟨_, _, ⟨-, rfl⟩, _, _, ⟨rfl, rfl⟩, secret, _, rfl, count, _, rfl, _, _,
      ⟨hcount, rfl⟩, records, _, ⟨hlength, hshort, hnodup, rfl⟩, ⟨⟩⟩
    rw [storeBytes, hlength, UInt8.ofNat_toNat]
    refine ⟨⟨hnodup, hlength ▸ hcount⟩, hshort, by simp⟩
  · rintro ⟨⟨hnodup, hcap⟩, hshort, rfl⟩
    have hcount : (UInt8.ofNat records.length).toNat = records.length :=
      UInt8.toNat_ofNat_of_lt' (Nat.lt_of_le_of_lt hcap (by decide))
    refine ⟨magic, _, ⟨rfl, ?_⟩, (), _, ⟨rfl, rfl⟩, secret, _, rfl,
      UInt8.ofNat records.length, _, rfl, (), _, ⟨?_, rfl⟩, records, [],
      ⟨hcount.symm, hshort, hnodup, rfl⟩, rfl⟩
    · simp [storeBytes]
    · rw [hcount]
      exact hcap

/-- What was encoded is decoded to itself, when the records have keys of their own. -/
theorem decode_of_encode {secret : Vector UInt8 32} {records : List Record}
    (hmap : KeyedRows.IsMap Record.key cap records) (h : encode secret records = .ok bytes) :
  decode bytes = .ok (secret, records)
  := by
  obtain ⟨-, hshort, hbytes, -⟩ := encode_eq_ok.mp h
  apply decode_eq_ok.mpr ⟨hmap, hshort, hbytes⟩

end LoopState

end Desktop
