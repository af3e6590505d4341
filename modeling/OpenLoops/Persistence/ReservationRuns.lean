import OpenLoops.Library.Ranges
import OpenLoops.Persistence.CrashSafety

/-!
# Runs of reservations

A process reserves attempts under the key of the bundle that it holds, one batch after another,
and may be restarted at any time, when it holds the bundle in the file from then on.  The batches
that are granted follow one another, and the attempts used never become fewer.  They stay below
the hard limit exactly when no batch is granted that brings them to the limit, which a batch that
is asked for just before the key must rotate can do.
-/

namespace Persistence

/-! ### The machine -/

/-- The file of the state root, and the bundle that the process holds. -/
structure Reserving where
  file : Option Bytes
  bundle : Option StateRootBundle
deriving DecidableEq

inductive ReservingCall where
  | reserveAeadBatch (count : UInt32) (access : Access)
  | restart (access : Access)

inductive ReservingAnswer where
  | reserved (result : Except StateRootError ReservationBatch)
  | ignored
deriving DecidableEq

/-- The first attempt of a batch and the number of its attempts. -/
def ReservationBatch.range (batch : ReservationBatch) : ℕ × ℕ :=
  (batch.firstAttempt.toNat, batch.count.toNat)

/-- The attempts for the records of a batch are in its range. -/
theorem ReservationBatch.attemptIndex_mem {batch : ReservationBatch} {i : UInt32} {x : UInt64}
    (h : batch.attemptIndex i = .ok x) :
  x.toNat ∈ Ranges.members batch.range
  := by
  rw [attemptIndex] at h
  split_ifs at h with hindex
  obtain ⟨hlt, hfits⟩ := hindex
  cases h
  have hsum : (batch.firstAttempt + i.toUInt64).toNat = batch.firstAttempt.toNat + i.toNat := by
    rw [UInt64.toNat_add, UInt32.toNat_toUInt64, Nat.mod_eq_of_lt hfits]
  rw [UInt32.lt_iff_toNat_lt] at hlt
  rw [hsum, Ranges.members, range, Finset.mem_Ico]
  omega

/-- The second record of a batch takes the attempt after the first. -/
example :
  (⟨⟨Vector.replicate 16 1, ones_ne_zeros⟩, 5, 2⟩ : ReservationBatch).attemptIndex 1 = .ok 6
  := by decide +kernel

/-- An event of a run of reservations. -/
abbrev ReservingEvent := Machine.Event Reserving ReservingCall ReservingAnswer

/-- The batch that an event grants. -/
def granted (event : ReservingEvent) : Option ReservationBatch :=
  match event.output with
  | .reserved (.ok batch) => some batch
  | _ => none

/-- A call does not bring the attempts used to the hard limit: it is not a batch of as many
attempts as are left below the limit, asked for before the key must rotate, that is then written
to the file. -/
def Reserving.SparesLimit (s : Reserving) : ReservingCall → Prop
  | .reserveAeadBatch count access =>
      ∀ bundle ∈ s.bundle, bundle.aeadUsage.toNat < APPLICATION_ROTATION_LIMIT →
        access.protectFault = none → access.writeFault = none →
          bundle.aeadUsage.toNat + count.toNat ≠ PER_KEY_INVOCATION_HARD_LIMIT
  | .restart _ => True

namespace Dpapi

variable (dpapi : Dpapi)

/-- The machine that answers reservations and restarts.  A process that is refused a batch still
holds the bundle it had. -/
def reserving : Machine Reserving ReservingCall ReservingAnswer where
  step s
    | .reserveAeadBatch count access =>
        match s.bundle with
        | none => (s, .ignored)
        | some bundle =>
            match reserveAeadBatch dpapi access s.file bundle count with
            | (.error e, file) => ({ s with file }, .reserved (.error e))
            | (.ok (bundle, batch), file) => (⟨file, some bundle⟩, .reserved (.ok batch))
    | .restart access =>
        ({ s with bundle := (readAndUnprotect dpapi access s.file).toOption.join }, .ignored)

/-- The attempts used, as the file has them. -/
def used (s : Reserving) : Option ℕ :=
  (bundleIn dpapi s.file).map (·.aeadUsage.toNat)

/-- The state of a process that has just written a bundle. -/
def written (bundle : StateRootBundle) (seed : ℕ) : Reserving :=
  ⟨some (dpapi.protect seed bundle.encode), some bundle⟩

/-- What is promised of a run of reservations that starts with a bundle and ends in a state. -/
structure NeverReused (bundle : StateRootBundle) (history : List ReservingEvent)
    (final : Reserving) : Prop where
  /-- Every batch is granted under the key of the bundle. -/
  one_key : ∀ batch ∈ history.filterMap granted, batch.keyId = bundle.aeadKeyId
  /-- No attempt is in two batches. -/
  disjoint : (history.filterMap granted).Pairwise fun first second =>
    Disjoint (Ranges.members first.range) (Ranges.members second.range)
  /-- The batches lead, without a gap, from the attempts used at the start up to those used in
  the end. -/
  contiguous : ∃ u ∈ dpapi.used final,
    Ranges.Tiles bundle.aeadUsage.toNat ((history.filterMap granted).map (·.range)) u
  /-- No event makes the attempts used fewer. -/
  never_decreases : ∀ event ∈ history,
    ∃ u ∈ dpapi.used event.before, ∃ v ∈ dpapi.used event.after, u ≤ v
  /-- A reservation that is refused changes nothing. -/
  refused_unchanged : ∀ event ∈ history, ∀ e, event.output = .reserved (.error e) →
    event.after = event.before
  /-- The attempts used stay below the hard limit. -/
  below_limit : ∀ event ∈ history, ∃ u ∈ dpapi.used event.after, u < PER_KEY_INVOCATION_HARD_LIMIT

/-! ### One event -/

/-- A bundle is the one in the file, and any bundle that the process holds is this one. -/
def Holds (s : Reserving) (inFile : StateRootBundle) : Prop :=
  (∃ seed, s.file = some (dpapi.protect seed inFile.encode)) ∧ ∀ held ∈ s.bundle, held = inFile

variable {dpapi}

/-- The attempts used are those of the bundle in the file. -/
theorem Holds.used_eq {s : Reserving} {inFile : StateRootBundle} (h : dpapi.Holds s inFile) :
  dpapi.used s = some inFile.aeadUsage.toNat
  := by
  obtain ⟨⟨seed, hfile⟩, -⟩ := h
  rw [used, hfile, bundleIn_protect]
  rfl

/-- What one call does: it grants nothing and leaves the bundle in the file, a reservation also
what the process holds; or it is a reservation that the system does not fail, grants a batch and
leaves the bundle with the attempts of the batch used up. -/
theorem Holds.event {s : Reserving} {inFile : StateRootBundle} (h : dpapi.Holds s inFile)
    (call : ReservingCall) :
  let event := dpapi.reserving.event s call
  (granted event = none ∧ dpapi.Holds event.after inFile
      ∧ ∀ e, event.output = .reserved (.error e) → event.after = s)
    ∨ ∃ count access usage batch, call = .reserveAeadBatch count access
      ∧ s.bundle = some inFile ∧ access.protectFault = none ∧ access.writeFault = none
      ∧ KeyUsageState.reserveBatch ⟨inFile.aeadKeyId, inFile.aeadUsage⟩ count = .ok (usage, batch)
      ∧ event.output = .reserved (.ok batch)
      ∧ dpapi.Holds event.after { inFile with aeadUsage := usage.used }
  := by
  obtain ⟨⟨seed, hfile⟩, hheld⟩ := h
  intro event
  have hevent : event = dpapi.reserving.event s call := rfl
  rw [Machine.event, reserving] at hevent
  cases call with
  | restart access =>
      left
      rw [hevent]
      refine ⟨rfl, ⟨⟨seed, hfile⟩, ?_⟩, by rintro e ⟨⟩⟩
      intro held hread
      dsimp only at hread
      cases hresult : readAndUnprotect dpapi access s.file with
      | error e =>
          rw [hresult] at hread
          cases hread
      | ok found =>
          rw [hresult] at hread
          obtain rfl : found = some held := hread
          rw [hfile] at hresult
          apply eq_of_readAndUnprotect hresult
  | reserveAeadBatch count access =>
      dsimp only at hevent
      split at hevent
      · left
        rw [hevent]
        exact ⟨rfl, ⟨⟨seed, hfile⟩, hheld⟩, by rintro e ⟨⟩⟩
      · rename_i bundle hbundle
        obtain rfl := hheld bundle hbundle
        split at hevent
        · rename_i e file hreserve
          left
          rcases reserveAeadBatch_cases hreserve with ⟨-, rfl⟩ | ⟨_, _, -, ⟨⟩, -⟩
          rw [hevent]
          exact ⟨rfl, ⟨⟨seed, hfile⟩, hheld⟩, fun _ _ => rfl⟩
        · rename_i next batch file hreserve
          right
          obtain ⟨usage, husage, hprotect, hwrite, rfl, rfl⟩ := reserveAeadBatch_eq_ok.mp hreserve
          rw [hevent]
          refine ⟨count, access, usage, batch, rfl, hbundle, hprotect, hwrite, husage, rfl,
            ⟨access.seed, rfl⟩, ?_⟩
          intro held hread
          cases hread
          rfl

/-- A reservation that is not refused is granted when the system does not fail. -/
theorem granted_reserve {s : Reserving} {bundle : StateRootBundle} {count : UInt32}
    {access : Access} {usage : KeyUsageState} {batch : ReservationBatch}
    (hbundle : s.bundle = some bundle)
    (husage : KeyUsageState.reserveBatch ⟨bundle.aeadKeyId, bundle.aeadUsage⟩ count
      = .ok (usage, batch))
    (hprotect : access.protectFault = none) (hwrite : access.writeFault = none) :
  granted (dpapi.reserving.event s (.reserveAeadBatch count access)) = some batch
  := by
  have hreserve : reserveAeadBatch dpapi access s.file bundle count = (.ok (_, batch), _) :=
    reserveAeadBatch_eq_ok.mpr ⟨usage, husage, hprotect, hwrite, rfl, rfl⟩
  rw [granted, Machine.event_output, reserving]
  simp only [hbundle, hreserve]

/-- Below the hard limit, a call stays below it exactly when it spares it. -/
theorem Holds.below_iff {s : Reserving} {inFile : StateRootBundle} (h : dpapi.Holds s inFile)
    (hbelow : inFile.aeadUsage.toNat < PER_KEY_INVOCATION_HARD_LIMIT) (call : ReservingCall) :
  (∃ u ∈ dpapi.used (dpapi.reserving.event s call).after, u < PER_KEY_INVOCATION_HARD_LIMIT)
    ↔ s.SparesLimit call
  := by
  rcases h.event call with ⟨hgranted, hafter, -⟩
    | ⟨count, access, usage, batch, rfl, hbundle, hprotect, hwrite, husage, -, hafter⟩
  · rw [hafter.used_eq]
    constructor
    · intro _
      cases call with
      | restart access => trivial
      | reserveAeadBatch count access =>
          intro bundle hbundle hused hprotect hwrite hsum
          -- such a batch would have been granted
          have hcount : count ≠ 0 := by
            rintro rfl
            rw [APPLICATION_ROTATION_LIMIT] at hused
            rw [PER_KEY_INVOCATION_HARD_LIMIT] at hsum
            change bundle.aeadUsage.toNat + 0 = 2 ^ 32 at hsum
            omega
          have hbatch :
              granted (dpapi.reserving.event s (.reserveAeadBatch count access)) = some _ :=
            granted_reserve hbundle
              (KeyUsageState.reserveBatch_eq_ok.mpr ⟨hused, hcount, hsum.le, rfl, rfl⟩)
              hprotect hwrite
          rw [hgranted] at hbatch
          cases hbatch
    · intro _
      exact ⟨_, rfl, hbelow⟩
  · have hnext := KeyUsageState.used_of_reserveBatch husage
    obtain ⟨hused, -, hsum, -⟩ := KeyUsageState.reserveBatch_eq_ok.mp husage
    rw [hafter.used_eq]
    dsimp only at hnext hused hsum ⊢
    constructor
    · rintro ⟨u, hu, hlt⟩ bundle hheld - - -
      obtain rfl : inFile = bundle := Option.some.inj (hbundle.symm.trans hheld)
      cases hu
      omega
    · intro hspares
      have hne := hspares inFile hbundle hused hprotect hwrite
      refine ⟨_, rfl, ?_⟩
      omega

/-- No call makes the attempts used fewer. -/
theorem Holds.used_le {s : Reserving} {inFile : StateRootBundle} (h : dpapi.Holds s inFile)
    (call : ReservingCall) :
  ∃ u ∈ dpapi.used s, ∃ v ∈ dpapi.used (dpapi.reserving.event s call).after, u ≤ v
  := by
  use inFile.aeadUsage.toNat, h.used_eq
  rcases h.event call with ⟨-, hafter, -⟩ | ⟨count, _, usage, _, -, -, -, -, husage, -, hafter⟩
  · exact ⟨_, hafter.used_eq, le_refl _⟩
  · have hnext := KeyUsageState.used_of_reserveBatch husage
    refine ⟨_, hafter.used_eq, ?_⟩
    dsimp only at hnext ⊢
    omega

/-- A reservation that is refused changes nothing. -/
theorem Holds.refused {s : Reserving} {inFile : StateRootBundle} (h : dpapi.Holds s inFile)
    {call : ReservingCall} {e : StateRootError}
    (he : (dpapi.reserving.event s call).output = .reserved (.error e)) :
  (dpapi.reserving.event s call).after = s
  := by
  rcases h.event call with ⟨-, -, hrefused⟩ | ⟨_, _, _, _, -, -, -, -, -, houtput, -⟩
  · apply hrefused e he
  · rw [houtput] at he
    cases he

/-! ### Runs -/

variable (dpapi) in
/-- What a run leaves behind: a bundle in the file, with the key of the bundle at the start, whose
attempts used are where the batches granted lead to. -/
structure Leaves (bundle : StateRootBundle) (history : List ReservingEvent) (final : Reserving)
    (inFile : StateRootBundle) : Prop where
  holds : dpapi.Holds final inFile
  key : inFile.aeadKeyId = bundle.aeadKeyId
  one_key : ∀ batch ∈ history.filterMap granted, batch.keyId = bundle.aeadKeyId
  tiles : Ranges.Tiles bundle.aeadUsage.toNat ((history.filterMap granted).map (·.range))
    inFile.aeadUsage.toNat

/-- The batches granted are those granted before and the one of the last event. -/
theorem filterMap_granted_snoc (history : List ReservingEvent) (event : ReservingEvent) :
  (history ++ [event]).filterMap granted = history.filterMap granted ++ (granted event).toList
  := by
  rw [List.filterMap_append, List.filterMap_cons, List.filterMap_nil]
  rcases granted event with _ | batch
  · rfl
  · rfl

/-- One more event adds the batch that it grants. -/
theorem Leaves.snoc {bundle inFile : StateRootBundle} {history : List ReservingEvent}
    {s : Reserving} (h : dpapi.Leaves bundle history s inFile) (call : ReservingCall) :
  ∃ inFile', dpapi.Leaves bundle (history ++ [dpapi.reserving.event s call])
    (dpapi.reserving.next s call) inFile'
  := by
  have hgrants := filterMap_granted_snoc history (dpapi.reserving.event s call)
  rcases h.holds.event call with ⟨hgranted, hafter, -⟩
    | ⟨count, access, usage, batch, -, -, -, -, husage, houtput, hafter⟩
  · use inFile
    rw [hgranted, Option.toList_none, List.append_nil] at hgrants
    use hafter, h.key
    · rw [hgrants]
      apply h.one_key
    · rw [hgrants]
      apply h.tiles
  · use { inFile with aeadUsage := usage.used }
    have hgranted : granted (dpapi.reserving.event s call) = some batch := by
      rw [granted, houtput]
    have hused := KeyUsageState.used_of_reserveBatch husage
    obtain ⟨-, -, -, -, hbatch⟩ := KeyUsageState.reserveBatch_eq_ok.mp husage
    rw [hgranted, Option.toList_some] at hgrants
    use hafter, h.key
    · rw [hgrants]
      intro other hother
      rcases List.mem_append.mp hother with hother | hother
      · apply h.one_key other hother
      · rw [List.mem_singleton.mp hother, hbatch]
        apply h.key
    · have htiles : Ranges.Tiles _ (_ ++ [(_, count.toNat)]) _ := h.tiles.snoc
      rw [hgrants, List.map_append, hused, List.map_singleton, hbatch]
      apply htiles

variable (dpapi) in
/-- A run from a state that was written leaves a bundle behind. -/
theorem leaves_run (bundle : StateRootBundle) (seed : ℕ) (calls : List ReservingCall) :
  ∃ inFile, dpapi.Leaves bundle (dpapi.reserving.history (dpapi.written bundle seed) calls)
    (dpapi.reserving.final (dpapi.written bundle seed) calls) inFile
  := by
  apply dpapi.reserving.run_induction (P := fun history final =>
    ∃ inFile, dpapi.Leaves bundle history final inFile)
  · use bundle
    constructor
    · use ⟨seed, rfl⟩
      intro held hheld
      exact (Option.some.inj hheld).symm
    · rfl
    · intro batch hbatch
      cases hbatch
    · rfl
  · rintro history s call ⟨inFile, h⟩
    apply h.snoc call

/-- What holds of every event at a state that holds a bundle holds of every event of a run. -/
theorem forall_events {Q : ReservingEvent → Prop}
    (h : ∀ s inFile call, dpapi.Holds s inFile → Q (dpapi.reserving.event s call))
    (bundle : StateRootBundle) (seed : ℕ) (calls : List ReservingCall) :
  ∀ event ∈ dpapi.reserving.history (dpapi.written bundle seed) calls, Q event
  := by
  intro event hevent
  obtain ⟨before, call, _, -, rfl⟩ := dpapi.reserving.mem_history hevent
  obtain ⟨inFile, hleaves⟩ := dpapi.leaves_run bundle seed before
  apply h _ _ _ hleaves.holds

/-- A run that starts below the hard limit stays below it exactly when all its calls spare it. -/
theorem below_limit_iff {bundle : StateRootBundle}
    (h : bundle.aeadUsage.toNat < PER_KEY_INVOCATION_HARD_LIMIT) (seed : ℕ)
    (calls : List ReservingCall) :
  (∀ event ∈ dpapi.reserving.history (dpapi.written bundle seed) calls,
      ∃ u ∈ dpapi.used event.after, u < PER_KEY_INVOCATION_HARD_LIMIT)
    ↔ dpapi.reserving.Admits Reserving.SparesLimit (dpapi.written bundle seed) calls
  := by
  obtain ⟨start, hstart⟩ := dpapi.leaves_run bundle seed []
  apply dpapi.reserving.forall_after_iff_admits (I := fun s => ∃ inFile, dpapi.Holds s inFile)
    (J := fun s => ∃ u ∈ dpapi.used s, u < PER_KEY_INVOCATION_HARD_LIMIT)
  · rintro s call ⟨inFile, hholds⟩
    rcases hholds.event call with ⟨-, hafter, -⟩ | ⟨_, _, _, _, -, -, -, -, -, -, hafter⟩
    · use inFile
      apply hafter
    · exact ⟨_, hafter⟩
  · rintro s call ⟨inFile, hholds⟩ ⟨u, hu, hlt⟩
    rw [hholds.used_eq] at hu
    cases hu
    apply hholds.below_iff hlt call
  · exact ⟨start, hstart.holds⟩
  · refine ⟨bundle.aeadUsage.toNat, ?_, h⟩
    rw [used, written, bundleIn_protect]
    rfl

/-- Where no attempt is granted twice, records of two batches have different attempts. -/
theorem NeverReused.attemptIndex_ne {bundle : StateRootBundle} {history : List ReservingEvent}
    {final : Reserving} (h : dpapi.NeverReused bundle history final) :
  (history.filterMap granted).Pairwise fun first second =>
    ∀ i j x, first.attemptIndex i = .ok x → second.attemptIndex j ≠ .ok x
  := by
  apply h.disjoint.imp
  intro first second hdisjoint i j x hfirst hsecond
  apply Finset.disjoint_left.mp hdisjoint (ReservationBatch.attemptIndex_mem hfirst)
    (ReservationBatch.attemptIndex_mem hsecond)

/-! ### Batches up to the limit -/

/-- A batch of one attempt, and one of the given number of attempts. -/
def twoBatches (count : UInt32) : List ReservingCall :=
  [.reserveAeadBatch 1 (Access.sound 0), .reserveAeadBatch count (Access.sound 0)]

end Dpapi

end Persistence
