import OpenLoops.Desktop.LinkStateRuns
import OpenLoops.Desktop.WindowRuns

/-!
# Decisions and links in several windows

The decisions and the links are kept by lawful programs: windows do not lose what other windows
have saved.
-/

namespace Desktop

/-! ### Decisions -/

/-- The bytes stand for the decisions; nothing is read from bytes of the format before. -/
def Decisions.Holds (bytes : Bytes) (d : Decisions) : Prop :=
  LoopState.decode bytes = .ok (d.secret, d.records)
    ∨ (bytes = [] ∨ LoopState.oldMagic.isPrefixOf bytes = true) ∧ d.records = []

/-- A record is put under its key, and only records that have expired by the clock are dropped. -/
def Decisions.Puts (clock : Set UInt64) (record : Record) (d d' : Decisions) : Prop :=
  d'.secret = d.secret ∧ ∃ retained, retained.Sublist d.records
    ∧ (∀ r ∈ d.records, r ∉ retained → r.decision.isTerminal = true ∧ r.reminder = .none
      ∧ ∃ reading ∈ clock, 180 * 86400 ≤ (epochSeconds reading).toInt - r.updated.toInt)
    ∧ KeyedRows.place Record.key LoopState.cap record retained = some d'.records

/-- What a call makes of the decisions. -/
def DecisionsCall.Changes (clock : Set UInt64) (d d' : Decisions) : DecisionsCall → Prop
  | .update record => Decisions.Puts clock record d d'
  | .beginReminder key => (d.get key).reminder = .none ∧ ∃ reading ∈ clock,
      Decisions.Puts clock
        { d.get key with reminder := .attempted, updated := epochSeconds reading } d d'

/-- How windows keep decisions. -/
def decisionsKept (testBuild : Bool) :
    Kept Decisions DecisionsCall (Option (Vector UInt8 32) × Bool) where
  «open» how := Decisions.open testBuild how.1 true how.2
  perform d call := d.perform testBuild call
  previous d := d.previous
  error d := d.error
  failure := LoopState.failure
  Holds := Decisions.Holds
  Starts d := d.records = []
  Changes clock call d d' := call.Changes clock d d'
  Sound d := d.error = none → d.entry = true ∧ Decisions.Holds d.previous d
    ∧ KeyedRows.IsMap Record.key LoopState.cap d.records

namespace Decisions

open LoopState

/-- Decisions that are decoded are sound in the window that remembers their bytes. -/
theorem holds_of_encode {d : Decisions} {bytes : Bytes}
    (hmap : KeyedRows.IsMap Record.key cap d.records)
    (hencode : encode d.secret d.records = .ok bytes) :
  Holds bytes d
  := Or.inl (decode_of_encode hmap hencode)

theorem isMap_nil :
  KeyedRows.IsMap Record.key cap []
  := ⟨List.nodup_nil, Nat.zero_le cap⟩

/-- To open the decisions reads them, or saves that there are none. -/
theorem open_runs {testBuild : Bool} {how : Option (Vector UInt8 32) × Bool} {d : Decisions}
    {steps : StoreSteps} (h : ((decisionsKept testBuild).open how).Runs steps d) :
  (decisionsKept testBuild).Sound d
    ∧ ∃ attempt, (steps = attempt ∨ ∃ loaded, steps = ⟨.getSecret, loaded⟩ :: attempt)
      ∧ (Attempt [] attempt none
        ∨ Attempt [] attempt (some d.previous) ∧ d.error = none ∧ d.records = [])
  := by
  obtain ⟨random, entryBuilds⟩ := how
  dsimp only [decisionsKept] at h ⊢
  rw [Decisions.open.eq_def] at h
  rcases random with _ | secret
  · obtain ⟨rfl, rfl⟩ := Program.runs_pure.mp h
    exact ⟨nofun, [], Or.inl rfl, Or.inl Attempt.nothing⟩
  dsimp only at h
  rw [if_neg (by simp)] at h
  rcases entryBuilds with _ | _
  · rw [if_pos (by simp)] at h
    obtain ⟨rfl, rfl⟩ := Program.runs_pure.mp h
    exact ⟨nofun, [], Or.inl rfl, Or.inl Attempt.nothing⟩
  rw [if_neg (by simp)] at h
  obtain ⟨loaded, rest, rfl, hrest⟩ := Program.runs_perform.mp h
  rcases loaded with e | _ | bytes
  · obtain ⟨rfl, rfl⟩ := Program.runs_pure.mp hrest
    exact ⟨nofun, [], Or.inr ⟨_, rfl⟩, Or.inl Attempt.nothing⟩
  · obtain ⟨first, ⟨saved, d'⟩, last, rfl, hsaved, hlast⟩ := Program.runs_bind.mp hrest
    rcases remembering_runs hsaved with ⟨hfailed, rfl, hattempt⟩
      | ⟨rfl, bytes, rfl, hbytes, hattempt⟩
    · rcases saved with e | u
      · obtain ⟨rfl, rfl⟩ := Program.runs_pure.mp hlast
        rw [List.append_nil]
        exact ⟨nofun, first, Or.inr ⟨_, rfl⟩, Or.inl (hattempt rfl)⟩
      · exact absurd rfl hfailed
    · obtain ⟨rfl, rfl⟩ := Program.runs_pure.mp hlast
      rw [List.append_nil]
      use fun _ => ⟨rfl, holds_of_encode isMap_nil hbytes, isMap_nil⟩
      exact ⟨first, Or.inr ⟨_, rfl⟩, Or.inr ⟨hattempt rfl, rfl, rfl⟩⟩
  · dsimp only at hrest
    rcases hdecode : decode bytes with e | ⟨secret', records⟩
    · rw [hdecode] at hrest
      dsimp only at hrest
      split_ifs at hrest with hold
      · obtain ⟨rfl, rfl⟩ := Program.runs_pure.mp hrest
        use fun _ => ⟨rfl, Or.inr ⟨Or.inr hold, rfl⟩, isMap_nil⟩
        exact ⟨[], Or.inr ⟨_, rfl⟩, Or.inl Attempt.nothing⟩
      · obtain ⟨rfl, rfl⟩ := Program.runs_pure.mp hrest
        exact ⟨nofun, [], Or.inr ⟨_, rfl⟩, Or.inl Attempt.nothing⟩
    · rw [hdecode] at hrest
      obtain ⟨rfl, rfl⟩ := Program.runs_pure.mp hrest
      use fun _ => ⟨rfl, Or.inl hdecode, (decode_eq_ok.mp hdecode).1⟩
      exact ⟨[], Or.inr ⟨_, rfl⟩, Or.inl Attempt.nothing⟩

/-- Records that have expired by the clock in some of the steps have done so in all of them. -/
theorem expired_readings {steps : StoreSteps} {r : Record} (h : Expired steps r) :
  r.decision.isTerminal = true ∧ r.reminder = .none ∧ ∃ reading ∈ readings steps,
    180 * 86400 ≤ (epochSeconds reading).toInt - r.updated.toInt
  := ⟨h.isTerminal, h.reminder, h.age⟩

/-- A call that puts a record ends as it should. -/
theorem update_ends {testBuild : Bool} {d d' : Decisions} {record : Record}
    {steps : StoreSteps} {result : Except String Unit}
    (hsound : (decisionsKept testBuild).Sound d)
    (h : (update testBuild d record).Runs steps (result, d')) :
  (decisionsKept testBuild).Sound d'
    ∧ ((result ≠ .ok () ∧ OnlyReadings steps ∧ d' = d)
      ∨ (result = .error failure ∧ d.error = none ∧ d'.error = some failure
        ∧ Attempt d.previous steps none)
      ∨ (result = .ok () ∧ d.error = none ∧ d'.error = none
        ∧ Attempt d.previous steps (some d'.previous) ∧ Puts (readings steps) record d d'))
  := by
  rcases update_runs h with ⟨hfailed, hreadings, rfl⟩ | ⟨rfl, herror, rfl, hattempt⟩
    | ⟨rfl, herror, retained, hsub, hdropped, records, hplace, bytes, rfl, hencode, hattempt⟩
  · exact ⟨hsound, Or.inl ⟨hfailed, hreadings, rfl⟩⟩
  · obtain ⟨hentry, -, -⟩ := hsound herror
    exact ⟨nofun, Or.inr (Or.inl ⟨rfl, herror, rfl, hattempt hentry⟩)⟩
  · obtain ⟨hentry, -, hmap⟩ := hsound herror
    have hmap' := (hmap.sublist hsub).place hplace
    use fun _ => ⟨hentry, holds_of_encode hmap' hencode, hmap'⟩
    right
    right
    use rfl, herror, herror, hattempt hentry, rfl, retained, hsub
    constructor
    · intro r hr hnot
      apply expired_readings (hdropped r hr hnot)
    · exact hplace

/-- The programs of the decisions are lawful. -/
theorem lawful (testBuild : Bool) :
  (decisionsKept testBuild).Lawful
  := by
  constructor
  · intro d hsound herror
    exact (hsound herror).2.1
  · apply open_runs
  · intro d call steps result d' hsound h
    cases call with
    | update record => apply update_ends hsound h
    | beginReminder key =>
        rcases beginReminder_runs h with ⟨hfailed, rfl, rfl⟩
          | ⟨-, hreminder, reading, rest, rfl, hupdate⟩
        · exact ⟨hsound, Or.inl ⟨hfailed, nofun, rfl⟩⟩
        · obtain ⟨hsound', hends⟩ := update_ends hsound hupdate
          have hreading : OnlyReadings [⟨.now, reading⟩] := by
            intro step hstep
            use reading, List.mem_singleton.mp hstep
          use hsound'
          rcases hends with ⟨hfailed, hreadings, rfl⟩ | ⟨rfl, herror, herror', hattempt⟩
            | ⟨rfl, herror, herror', hattempt, hputs⟩
          · exact Or.inl ⟨hfailed, hreading.append hreadings, rfl⟩
          · exact Or.inr (Or.inl ⟨rfl, herror, herror', hattempt.now reading⟩)
          · right
            right
            use rfl, herror, herror', hattempt.now reading, hreminder, reading,
              List.mem_cons_self
            obtain ⟨hsecret, retained, hsub, hdropped, hplace⟩ := hputs
            use hsecret, retained, hsub
            constructor
            · intro r hr hnot
              obtain ⟨hterminal, hnone, reading', hmem, hage⟩ := hdropped r hr hnot
              exact ⟨hterminal, hnone, reading', List.mem_cons_of_mem _ hmem, hage⟩
            · exact hplace

end Decisions

/-! ### Links -/

/-- How windows keep links. -/
def relationsKept (testBuild : Bool) : Kept Relations RelationsCall Bool where
  «open» entryBuilds := Relations.open testBuild true entryBuilds
  perform r call := r.perform testBuild call
  previous r := r.previous
  error r := r.error
  failure := LinkState.failure
  Holds bytes r := LinkState.decode bytes = .ok r.links
  Starts r := r.links = []
  Changes _ call r r' := call.Changes r.links r'.links
  Sound r := r.error = none → r.entry = true ∧ LinkState.decode r.previous = .ok r.links
    ∧ IsRelation r.links

namespace Relations

open LinkState

/-- To open the links reads them, or saves that there are none. -/
theorem open_runs {testBuild entryBuilds : Bool} {r : Relations} {steps : StoreSteps}
    (h : ((relationsKept testBuild).open entryBuilds).Runs steps r) :
  (relationsKept testBuild).Sound r
    ∧ ∃ attempt, (steps = attempt ∨ ∃ loaded, steps = ⟨.getSecret, loaded⟩ :: attempt)
      ∧ (Attempt [] attempt none
        ∨ Attempt [] attempt (some r.previous) ∧ r.error = none ∧ r.links = [])
  := by
  dsimp only [relationsKept] at h ⊢
  rw [Relations.open.eq_def] at h
  rw [if_neg (by simp)] at h
  rcases entryBuilds with _ | _
  · rw [if_pos (by simp)] at h
    obtain ⟨rfl, rfl⟩ := Program.runs_pure.mp h
    exact ⟨nofun, [], Or.inl rfl, Or.inl Attempt.nothing⟩
  rw [if_neg (by simp)] at h
  obtain ⟨loaded, rest, rfl, hrest⟩ := Program.runs_perform.mp h
  rcases loaded with e | _ | bytes
  · obtain ⟨rfl, rfl⟩ := Program.runs_pure.mp hrest
    exact ⟨nofun, [], Or.inr ⟨_, rfl⟩, Or.inl Attempt.nothing⟩
  · obtain ⟨first, ⟨saved, r'⟩, last, rfl, hsaved, hlast⟩ := Program.runs_bind.mp hrest
    rcases remembering_runs hsaved with ⟨hfailed, rfl, hattempt⟩
      | ⟨rfl, bytes, rfl, hbytes, hattempt⟩
    · rcases saved with e | u
      · obtain ⟨rfl, rfl⟩ := Program.runs_pure.mp hlast
        rw [List.append_nil]
        exact ⟨nofun, first, Or.inr ⟨_, rfl⟩, Or.inl (hattempt rfl)⟩
      · exact absurd rfl hfailed
    · obtain ⟨rfl, rfl⟩ := Program.runs_pure.mp hlast
      have hnothing : decode [] = .ok [] := rfl
      have hempty := isRelation_of_decode hnothing
      rw [List.append_nil]
      use fun _ => ⟨rfl, decode_eq_ok.mpr (Or.inr ⟨hempty, hbytes⟩), hempty⟩
      exact ⟨first, Or.inr ⟨_, rfl⟩, Or.inr ⟨hattempt rfl, rfl, rfl⟩⟩
  · dsimp only at hrest
    rcases hdecode : decode bytes with e | links
    · rw [hdecode] at hrest
      obtain ⟨rfl, rfl⟩ := Program.runs_pure.mp hrest
      exact ⟨nofun, [], Or.inr ⟨_, rfl⟩, Or.inl Attempt.nothing⟩
    · rw [hdecode] at hrest
      obtain ⟨rfl, rfl⟩ := Program.runs_pure.mp hrest
      use fun _ => ⟨rfl, hdecode, isRelation_of_decode hdecode⟩
      exact ⟨[], Or.inr ⟨_, rfl⟩, Or.inl Attempt.nothing⟩

/-- The programs of the links are lawful. -/
theorem lawful (testBuild : Bool) :
  (relationsKept testBuild).Lawful
  := by
  constructor
  · intro r hsound herror
    exact (hsound herror).2.1
  · apply open_runs
  · intro r call steps result r' hsound h
    rcases perform_ends h with ⟨hfailed, hreadings, rfl⟩ | ⟨rfl, herror, rfl, hattempt⟩
      | ⟨rfl, herror, links, hchanges, bytes, rfl, hbytes, hattempt⟩
    · exact ⟨hsound, Or.inl ⟨hfailed, hreadings, rfl⟩⟩
    · obtain ⟨hentry, -, -⟩ := hsound herror
      exact ⟨nofun, Or.inr (Or.inl ⟨rfl, herror, rfl, hattempt hentry⟩)⟩
    · obtain ⟨hentry, -, hrelation⟩ := hsound herror
      have hrelation' := isRelation_of_changes hrelation hchanges
      use fun _ => ⟨hentry, decode_eq_ok.mpr (Or.inr ⟨hrelation', hbytes⟩), hrelation'⟩
      exact Or.inr (Or.inr ⟨rfl, herror, herror, hattempt hentry, hchanges⟩)

end Relations

/-- Windows that keep decisions, and windows that keep links, lose nothing. -/
theorem windows_loseNothing (testBuild : Bool) :
  (decisionsKept testBuild).LosesNothing ∧ (relationsKept testBuild).LosesNothing
  := ⟨(Decisions.lawful testBuild).losesNothing, (Relations.lawful testBuild).losesNothing⟩

end Desktop
