import OpenLoops.Desktop.LinkState
import OpenLoops.Desktop.LoopStateRuns

/-!
# Runs of calls on the links

The saved links are a finite map on the unordered pairs of loops.  A run of calls changes that map
as it should, and it is encoded so that it is decoded to itself.
-/

namespace Desktop

/-! ### Links between loops in order -/

/-- The links are between loops in order, and they are a map of bounded size. -/
structure IsRelation (links : List Link) : Prop where
  ordered : ∀ link ∈ links, link.a.toList < link.b.toList
  isMap : KeyedRows.IsMap Link.pair LinkState.cap links

namespace LinkState

open Wire (take_eq_ok readArray_eq_ok readByte_eq_ok readLe_eq_ok readRows_eq_ok require_eq_ok)

variable {bytes rest : Bytes} {links : List Link}

/-! ### The bytes of the links -/

/-- Every kind is read back from its byte, and from no other byte. -/
theorem ofKindTag_eq_ok {tag : UInt8} {kind : LinkKind} :
  ofKindTag tag = .ok kind ↔ tag = kindTag kind
  := by
  constructor
  · intro h
    unfold ofKindTag at h
    split at h <;> cases h <;> rfl
  · rintro rfl
    cases kind <;> rfl

/-- A link is read where its bytes stand in front, when its loops are in order and no link before
it is between them. -/
theorem readLink_eq_ok {link : Link} :
  (readLink links).run bytes = .ok (link, rest) ↔ link.a.toList < link.b.toList
    ∧ link.pair ∉ links.map Link.pair ∧ bytes = pushLink link ++ rest
  := by
  have hcheck : ∀ a b : LoopKey,
      (a.toList < b.toList && !links.any fun link => link.a = a && link.b = b) = true ↔
        a.toList < b.toList ∧ (a, b) ∉ links.map Link.pair := by
    simp [Link.pair]
  simp only [readLink, StateT.run_bind_eq_ok, StateT.run_lift_eq_ok, readArray_eq_ok,
    readByte_eq_ok, readLe_eq_ok, require_eq_ok, hcheck, ofKindTag_eq_ok]
  constructor
  · rintro ⟨_, _, rfl, a, _, rfl, b, _, rfl, updated, _, ⟨hupdated, rfl⟩, kind, _, ⟨rfl, rfl⟩,
      _, _, ⟨⟨hlt, hnew⟩, rfl⟩, ⟨⟩⟩
    use hlt, hnew
    rw [pushLink, UInt64.toUInt64_toInt64, UInt64.toNat_ofNat_of_lt' hupdated]
    simp
  · rintro ⟨hlt, hnew, rfl⟩
    refine ⟨kindTag link.kind, link.a.toList ++ (link.b.toList ++
        (Wire.le 8 link.updated.toUInt64.toNat ++ rest)), ?_, link.a, _, rfl, link.b, _, rfl,
      link.updated.toUInt64.toNat, rest, ⟨link.updated.toUInt64.toNat_lt, rfl⟩, link.kind, _,
      ⟨rfl, rfl⟩, (), rest, ⟨⟨hlt, hnew⟩, rfl⟩, ?_⟩
    · simp [pushLink]
    · rw [UInt64.ofNat_toNat, Int64.toInt64_toUInt64]
      rfl

/-- The bytes of the links. -/
def linksBytes (links : List Link) : Bytes :=
  magic ++ [UInt8.ofNat links.length] ++ links.flatMap pushLink

/-- Every link takes up 73 bytes. -/
theorem length_flatMap_pushLink (links : List Link) :
  (links.flatMap pushLink).length = 73 * links.length
  := by
  induction links with
  | nil => rfl
  | cons link links ih =>
      rw [List.flatMap_cons, List.length_append, ih, List.length_cons, pushLink]
      simp only [List.length_append, List.length_singleton, Vector.length_toList, Wire.length_le]
      ring

/-- The bytes of as many links as there may be fit. -/
theorem length_linksBytes_le (h : links.length ≤ cap) :
  (linksBytes links).length ≤ maxCredentialBytes
  := by
  have hmagic : magic.length = 12 := by decide
  have hcap : links.length ≤ 34 := h
  rw [linksBytes, List.length_append, List.length_append, hmagic, List.length_singleton,
    length_flatMap_pushLink, maxCredentialBytes]
  omega

/-- Links are encoded exactly when there are not too many. -/
theorem encode_eq_ok :
  encode links = .ok bytes ↔ links.length ≤ cap ∧ bytes = linksBytes links
  := by
  rw [encode]
  split_ifs with hcap
  · simp [hcap.not_ge]
  · have hsize := length_linksBytes_le (not_lt.mp hcap)
    simp only [linksBytes] at hsize
    rw [if_neg hsize.not_gt]
    simp [not_lt.mp hcap, linksBytes, eq_comm]

/-- Links are decoded exactly from nothing, when there are none, or from what they are encoded to,
when they are between loops in order and a map. -/
theorem decode_eq_ok :
  decode bytes = .ok links ↔ bytes = [] ∧ links = []
    ∨ IsRelation links ∧ encode links = .ok bytes
  := by
  have hrows : ∀ {n : ℕ} {found : List Link} {bytes rest : Bytes},
      (Wire.readRows readLink n []).run bytes = .ok (found, rest) ↔ found.length = n
        ∧ (∀ link ∈ found, link.a.toList < link.b.toList) ∧ (found.map Link.pair).Nodup
        ∧ bytes = found.flatMap pushLink ++ rest := by
    intro n found bytes rest
    rw [readRows_eq_ok readLink_eq_ok]
    simp
  rw [decode]
  split_ifs with hnil hsize
  · subst hnil
    constructor
    · rintro ⟨⟩
      exact Or.inl ⟨rfl, rfl⟩
    · rintro (⟨-, rfl⟩ | ⟨-, hencode⟩)
      · rfl
      · cases (encode_eq_ok.mp hencode).2
  · constructor
    · exact nofun
    · rintro (⟨rfl, -⟩ | ⟨-, hencode⟩)
      · exact absurd rfl hnil
      · obtain ⟨hcap, rfl⟩ := encode_eq_ok.mp hencode
        exact absurd (length_linksBytes_le hcap) hsize.not_ge
  · simp only [Wire.readAll_eq_ok, readLinks, StateT.run_bind_eq_ok, StateT.run_lift_eq_ok,
      take_eq_ok, readByte_eq_ok, require_eq_ok, decide_eq_true_eq, hrows, hnil, false_and,
      false_or, encode_eq_ok]
    constructor
    · rintro ⟨_, _, ⟨-, rfl⟩, _, _, ⟨rfl, rfl⟩, count, _, rfl, _, _, ⟨hcount, rfl⟩, hlength,
        hordered, hnodup, rfl⟩
      rw [linksBytes, hlength, UInt8.ofNat_toNat]
      refine ⟨⟨hordered, hnodup, hlength ▸ hcount⟩, hcount, by simp⟩
    · rintro ⟨⟨hordered, hnodup, hcap⟩, -, rfl⟩
      have hcount : (UInt8.ofNat links.length).toNat = links.length :=
        UInt8.toNat_ofNat_of_lt' (Nat.lt_of_le_of_lt hcap (by decide))
      refine ⟨magic, _, ⟨rfl, ?_⟩, (), _, ⟨rfl, rfl⟩, UInt8.ofNat links.length, _, rfl, (), _,
        ⟨?_, rfl⟩, hcount.symm, hordered, hnodup, rfl⟩
      · simp [linksBytes]
      · rw [hcount]
        exact hcap

/-- Links that are decoded are between loops in order, and a map. -/
theorem isRelation_of_decode (h : decode bytes = .ok links) :
  IsRelation links
  := by
  rcases decode_eq_ok.mp h with ⟨-, rfl⟩ | ⟨hrelation, -⟩
  · exact ⟨nofun, List.nodup_nil, Nat.zero_le cap⟩
  · exact hrelation

/-- Links between loops in order that are a map are encoded, and decoded to themselves. -/
theorem exists_encode (hrelation : IsRelation links) :
  ∃ bytes, encode links = .ok bytes ∧ decode bytes = .ok links
  := by
  have hencode : encode links = .ok (linksBytes links) :=
    encode_eq_ok.mpr ⟨hrelation.isMap.bounded, rfl⟩
  use linksBytes links, hencode
  apply decode_eq_ok.mpr (Or.inr ⟨hrelation, hencode⟩)

end LinkState

/-! ### A map on unordered pairs -/

namespace IsRelation

open LinkState

variable {links : List Link}

/-- There is at most one link for two loops. -/
theorem nodup (h : IsRelation links) :
  (links.map fun link => s(link.a, link.b)).Nodup
  := by
  have hmap : (links.map fun link => s(link.a, link.b))
      = (links.map Link.pair).map fun pair => s(pair.1, pair.2) := by
    simp [Link.pair]
  rw [hmap]
  apply h.isMap.nodup.map_on
  intro p hp q hq heq
  obtain ⟨link, hlink, rfl⟩ := List.mem_map.mp hp
  obtain ⟨link', hlink', rfl⟩ := List.mem_map.mp hq
  have hcanonical : canonical link.a link.b = canonical link'.a link'.b :=
    canonical_eq_iff.mpr heq
  rw [canonical_of_lt (h.ordered link hlink), canonical_of_lt (h.ordered link' hlink')]
    at hcanonical
  exact hcanonical

/-- A link may be placed between two loops that differ. -/
theorem place (h : IsRelation links) {kind : LinkKind} {a b : LoopKey} {updated : Int64}
    (hne : a ≠ b) {links' : List Link} (hplace : KeyedRows.place Link.pair cap
      ⟨kind, (canonical a b).1, (canonical a b).2, updated⟩ links = some links') :
  IsRelation links'
  := by
  constructor
  · intro link hlink
    rcases KeyedRows.mem_of_place hplace hlink with rfl | hold
    · apply canonical_lt hne
    · apply h.ordered link hold
  · apply h.isMap.place hplace

/-- Links may be taken out. -/
theorem sublist (h : IsRelation links) {links' : List Link} (hsub : links'.Sublist links) :
  IsRelation links'
  := by
  constructor
  · intro link hlink
    apply h.ordered link (hsub.subset hlink)
  · apply h.isMap.sublist hsub

end IsRelation

namespace Relations

open LinkState

/-- The order in which two loops are given does not matter. -/
theorem get_comm (r : Relations) (a b : LoopKey) :
  r.get a b = r.get b a
  := by
  rw [get, canonical_comm, get]

/-- The kind of the link between each two loops. -/
def kindOf (r : Relations) : Sym2 LoopKey → Option LinkKind :=
  Sym2.lift ⟨r.get, r.get_comm⟩

/-- A kind is found exactly where there is a link of that kind between the loops. -/
theorem get_eq_some {r : Relations} (h : IsRelation r.links) {a b : LoopKey} {kind : LinkKind} :
  r.get a b = some kind ↔ ∃ link ∈ r.links, link.kind = kind ∧ s(link.a, link.b) = s(a, b)
  := by
  rw [get, Option.map_eq_some_iff]
  apply exists_congr
  intro link
  rw [h.isMap.find_eq_some, and_assoc]
  apply and_congr_right
  intro hlink
  rw [and_comm, ← canonical_eq_iff, canonical_of_lt (h.ordered link hlink), Link.pair]

/-- A loop is not linked to itself. -/
theorem get_self {r : Relations} (h : IsRelation r.links) (a : LoopKey) :
  r.get a a = none
  := by
  rcases hget : r.get a a with _ | kind
  · rfl
  · obtain ⟨link, hlink, -, hpair⟩ := (get_eq_some h).mp hget
    have hlt := h.ordered link hlink
    rcases Sym2.eq_iff.mp hpair with ⟨ha, hb⟩ | ⟨ha, hb⟩
    · rw [ha, hb] at hlt
      exact absurd hlt (List.lt_irrefl a.toList)
    · rw [ha, hb] at hlt
      exact absurd hlt (List.lt_irrefl a.toList)

/-- The pairs of a kind are the loops in order whose link is of that kind. -/
theorem mem_pairs_iff {r : Relations} (h : IsRelation r.links) {a b : LoopKey}
    {kind : LinkKind} :
  (a, b) ∈ r.pairs kind ↔ a.toList < b.toList ∧ r.get a b = some kind
  := by
  rw [get_eq_some h, pairs, List.mem_map]
  constructor
  · rintro ⟨link, hlink, hpair⟩
    obtain ⟨hmem, hkind⟩ := List.mem_filter.mp hlink
    cases hpair
    use h.ordered link hmem, link, hmem, of_decide_eq_true hkind
  · rintro ⟨hlt, link, hmem, hkind, hpair⟩
    use link, List.mem_filter.mpr ⟨hmem, decide_eq_true hkind⟩
    have hcanonical := canonical_eq_iff.mpr hpair
    rw [canonical_of_lt (h.ordered link hmem), canonical_of_lt hlt] at hcanonical
    exact hcanonical

/-- The loops linked to a loop are those whose link to it is of the kind. -/
theorem mem_linkedTo_iff {r : Relations} (h : IsRelation r.links) {key other : LoopKey}
    {kind : LinkKind} :
  other ∈ r.linkedTo key kind ↔ r.get key other = some kind
  := by
  rw [get_eq_some h, linkedTo, List.mem_map]
  apply exists_congr
  intro link
  rw [List.mem_filter, and_assoc]
  apply and_congr_right
  intro hmem
  rw [Sym2.eq_iff, Bool.and_eq_true, decide_eq_true_eq, and_assoc]
  apply and_congr_right
  intro hkind
  by_cases ha : link.a = key
  · have hne : link.b ≠ key := by
      rintro hb
      apply List.lt_irrefl key.toList
      have hlt := h.ordered link hmem
      rwa [ha, hb] at hlt
    simp [ha, hne]
  · simp [ha, and_comm]

/-- A link that is placed between two loops is the only change. -/
theorem kindOf_of_place {r r' : Relations} {kind : LinkKind} {a b : LoopKey} {updated : Int64}
    (hplace : KeyedRows.place Link.pair cap
      ⟨kind, (canonical a b).1, (canonical a b).2, updated⟩ r.links = some r'.links) :
  r'.kindOf = Function.update r.kindOf s(a, b) (some kind)
  := by
  funext pair
  induction pair using Sym2.ind with
  | _ c d =>
      show r'.get c d = _
      rw [get, KeyedRows.find_of_place hplace]
      show (if canonical a b = canonical c d then _ else _ : Option Link).map _ = _
      by_cases hpair : s(c, d) = s(a, b)
      · rw [if_pos (canonical_eq_iff.mpr hpair.symm), hpair, Function.update_self]
        rfl
      · rw [if_neg (fun h => hpair (canonical_eq_iff.mp h).symm), Function.update_of_ne hpair]
        rfl

/-- The links that are left when the link between two loops is removed. -/
def unlinked (links : List Link) (a b : LoopKey) : List Link :=
  links.filter fun link => link.pair ≠ canonical a b

/-- The link that is removed is the only change. -/
theorem kindOf_of_unlinked {r r' : Relations} {a b : LoopKey}
    (h : r'.links = unlinked r.links a b) :
  r'.kindOf = Function.update r.kindOf s(a, b) none
  := by
  funext pair
  induction pair using Sym2.ind with
  | _ c d =>
      show r'.get c d = _
      rw [get, h, unlinked, KeyedRows.find_filter_ne]
      by_cases hpair : s(c, d) = s(a, b)
      · rw [if_pos (canonical_eq_iff.mpr hpair), hpair, Function.update_self]
        rfl
      · rw [if_neg (fun h => hpair (canonical_eq_iff.mp h)), Function.update_of_ne hpair]
        rfl

end Relations

/-! ### Single calls -/

/-- A call that changes the links. -/
inductive RelationsCall where
  | set (kind : LinkKind) (a b : LoopKey)
  | remove (a b : LoopKey)

/-- What a call makes of the kinds: it sets or removes the one of its two loops, and a loop is not
linked to itself. -/
def RelationsCall.change (kinds : Sym2 LoopKey → Option LinkKind) :
    RelationsCall → Sym2 LoopKey → Option LinkKind
  | .set kind a b => if a = b then kinds else Function.update kinds s(a, b) (some kind)
  | .remove a b => Function.update kinds s(a, b) none

/-- What a call makes of the links. -/
def RelationsCall.Changes (links links' : List Link) : RelationsCall → Prop
  | .set kind a b =>
      if a = b then links' = Relations.unlinked links a b
      else ∃ updated : Int64, KeyedRows.place Link.pair LinkState.cap
        ⟨kind, (LinkState.canonical a b).1, (LinkState.canonical a b).2, updated⟩ links
          = some links'
  | .remove a b => links' = Relations.unlinked links a b

namespace Relations

open LinkState

variable {testBuild : Bool}

/-- The program of a call. -/
def perform (testBuild : Bool) (r : Relations) :
    RelationsCall → StoreProgram (Except String Unit × Relations)
  | .set kind a b => set testBuild r kind a b
  | .remove a b => remove testBuild r a b

/-- A call leaves the links between loops in order. -/
theorem isRelation_of_changes {links links' : List Link} (h : IsRelation links)
    {call : RelationsCall} (hchanges : call.Changes links links') :
  IsRelation links'
  := by
  have hunlinked : ∀ {a b}, links' = unlinked links a b → IsRelation links' := by
    rintro a b rfl
    apply h.sublist List.filter_sublist
  cases call with
  | set kind a b =>
      rw [RelationsCall.Changes] at hchanges
      split_ifs at hchanges with hab
      · apply hunlinked hchanges
      · obtain ⟨updated, hplace⟩ := hchanges
        apply h.place hab hplace
  | remove a b => apply hunlinked hchanges

/-- A call changes the links as it should change their kinds. -/
theorem kindOf_of_changes {r r' : Relations} (h : IsRelation r.links) {call : RelationsCall}
    (hchanges : call.Changes r.links r'.links) :
  r'.kindOf = call.change r.kindOf
  := by
  cases call with
  | set kind a b =>
      rw [RelationsCall.Changes] at hchanges
      rw [RelationsCall.change]
      split_ifs at hchanges ⊢ with hab
      · subst hab
        rw [kindOf_of_unlinked hchanges, Function.update_eq_self_iff]
        exact (get_self h a).symm
      · obtain ⟨updated, hplace⟩ := hchanges
        apply kindOf_of_place hplace
  | remove a b => apply kindOf_of_unlinked hchanges

/-- Changed links are saved, or else the old ones are put back and no further call changes
them. -/
theorem saveChanged_runs {r r' : Relations} {links : List Link} {steps : StoreSteps}
    {result : Except String Unit}
    (h : (saveChanged testBuild r links).Runs steps (result, r')) :
  (result = .error failure ∧ r' = { r with error := some failure }
      ∧ (r.entry = true → Attempt r.previous steps none))
    ∨ (result = .ok () ∧ ∃ bytes, r' = { r with links, previous := bytes }
      ∧ encode links = .ok bytes ∧ (r.entry = true → Attempt r.previous steps (some bytes)))
  := by
  obtain ⟨first, ⟨saved, r''⟩, rest, rfl, hsaved, h⟩ := Program.runs_bind.mp h
  rcases remembering_runs hsaved with ⟨hfailed, rfl, hattempt⟩
    | ⟨rfl, bytes, rfl, hbytes, hattempt⟩
  · left
    rcases saved with e | u
    · cases h
      rw [List.append_nil]
      exact ⟨rfl, rfl, hattempt⟩
    · exact absurd rfl hfailed
  · right
    cases h
    rw [List.append_nil]
    exact ⟨rfl, bytes, rfl, hbytes, hattempt⟩

/-- A call that is refused changes nothing, and at most reads the clock; one that cannot save
changes no link and lets no further call do so.  One that succeeds changes the links, and saves
them all. -/
def Ends (r : Relations) (call : RelationsCall) (steps : StoreSteps)
    (result : Except String Unit) (r' : Relations) : Prop :=
  (result ≠ .ok () ∧ OnlyReadings steps ∧ r' = r)
    ∨ (result = .error failure ∧ r.error = none ∧ r' = { r with error := some failure }
      ∧ (r.entry = true → Attempt r.previous steps none))
    ∨ (result = .ok () ∧ r.error = none ∧ ∃ links, call.Changes r.links links
      ∧ ∃ bytes, r' = { r with links, previous := bytes } ∧ encode links = .ok bytes
        ∧ (r.entry = true → Attempt r.previous steps (some bytes)))

/-- A call that changes the links and saves them ends as it should. -/
theorem ends_of_saveChanged {r r' : Relations} {call : RelationsCall} {links : List Link}
    {steps readings : StoreSteps} {result : Except String Unit} (herror : r.error = none)
    (hreadings : OnlyReadings readings) (hchanges : call.Changes r.links links)
    (h : (saveChanged testBuild r links).Runs steps (result, r')) :
  Ends r call (readings ++ steps) result r'
  := by
  right
  rcases saveChanged_runs h with ⟨rfl, rfl, hattempt⟩ | ⟨rfl, bytes, rfl, hbytes, hattempt⟩
  · left
    exact ⟨rfl, herror, rfl, fun hentry => (hattempt hentry).readings hreadings⟩
  · right
    exact ⟨rfl, herror, links, hchanges, bytes, rfl, hbytes,
      fun hentry => (hattempt hentry).readings hreadings⟩

/-- The links that a call keeps are those that are left. -/
theorem filter_eq_unlinked (links : List Link) (a b : LoopKey) :
  (links.filter fun link => link.a ≠ (canonical a b).1 || link.b ≠ (canonical a b).2)
    = unlinked links a b
  := by
  rw [unlinked]
  apply List.filter_congr
  intro link _
  rcases canonical a b with ⟨first, second⟩
  simp [Link.pair, imp_iff_not_or]

/-- A call that removes a link ends as it should. -/
theorem remove_ends {r r' : Relations} {a b : LoopKey} {call : RelationsCall} {steps : StoreSteps}
    {result : Except String Unit} (hchanges : call.Changes r.links (unlinked r.links a b))
    (h : (remove testBuild r a b).Runs steps (result, r')) :
  Ends r call steps result r'
  := by
  rw [remove] at h
  split at h
  · left
    obtain ⟨rfl, hpair⟩ := Program.runs_pure.mp h
    cases hpair
    exact ⟨nofun, nofun, rfl⟩
  · rename_i herror
    dsimp only at h
    rw [filter_eq_unlinked] at h
    have hnone : OnlyReadings [] := nofun
    have hends := ends_of_saveChanged herror hnone hchanges h
    exact hends

/-- A link that is put over the one that was found is placed. -/
theorem place_of_isSome {links : List Link} {link : Link}
    (h : (KeyedRows.replace Link.pair link links).isSome) :
  KeyedRows.place Link.pair cap link links
    = some ((KeyedRows.replace Link.pair link links).get h)
  := by
  obtain ⟨replaced, hreplaced⟩ := Option.isSome_iff_exists.mp h
  simp only [KeyedRows.place, hreplaced, Option.get_some]

/-- A link that is put behind the others is placed, when there is none between its loops and there
is room. -/
theorem place_of_not_isSome {r : Relations} {a b : LoopKey} {kind : LinkKind} {updated : Int64}
    (hget : ¬(r.get (canonical a b).1 (canonical a b).2).isSome) (hcap : ¬cap ≤ r.links.length) :
  let link : Link := ⟨kind, (canonical a b).1, (canonical a b).2, updated⟩
  KeyedRows.place Link.pair cap link r.links = some (r.links ++ [link])
  := by
  intro link
  have hnone : KeyedRows.replace Link.pair link r.links = none := by
    rw [get, Option.isSome_map, canonical_canonical, Option.not_isSome_iff_eq_none,
      KeyedRows.find_eq_none] at hget
    apply KeyedRows.replace_eq_none.mpr hget
  rw [KeyedRows.place, hnone]
  apply if_neg hcap

/-- Every call ends as it should. -/
theorem perform_ends {r r' : Relations} {call : RelationsCall} {steps : StoreSteps}
    {result : Except String Unit} (h : (r.perform testBuild call).Runs steps (result, r')) :
  Ends r call steps result r'
  := by
  cases call with
  | remove a b =>
      have hchanges : (RelationsCall.remove a b).Changes r.links (unlinked r.links a b) := rfl
      apply remove_ends hchanges h
  | set kind a b =>
      rw [perform, set] at h
      split at h
      · left
        obtain ⟨rfl, hpair⟩ := Program.runs_pure.mp h
        cases hpair
        exact ⟨by rintro ⟨⟩, fun _ h => absurd h List.not_mem_nil, rfl⟩
      · rename_i herror
        dsimp only at h
        split_ifs at h with hab hget hcap
        · apply remove_ends _ h
          rw [RelationsCall.Changes, if_pos hab]
        · obtain ⟨first, instant, rest, rfl, hnow, h⟩ := Program.runs_bind.mp h
          obtain ⟨reading, rfl, rfl⟩ := now_runs hnow
          apply ends_of_saveChanged herror _ _ h
          · intro step hstep
            use reading, List.mem_singleton.mp hstep
          · rw [RelationsCall.Changes, if_neg hab]
            use epochSeconds reading
            apply place_of_isSome
        · left
          obtain ⟨rfl, hpair⟩ := Program.runs_pure.mp h
          cases hpair
          exact ⟨by rintro ⟨⟩, fun _ h => absurd h List.not_mem_nil, rfl⟩
        · obtain ⟨first, instant, rest, rfl, hnow, h⟩ := Program.runs_bind.mp h
          obtain ⟨reading, rfl, rfl⟩ := now_runs hnow
          apply ends_of_saveChanged herror _ _ h
          · intro step hstep
            use reading, List.mem_singleton.mp hstep
          · rw [RelationsCall.Changes, if_neg hab]
            use epochSeconds reading
            apply place_of_not_isSome hget hcap

/-! ### Runs -/

/-- The calls on the links in one window; the output of a call is its steps and its result. -/
def calls (testBuild : Bool) :
    Machine Relations (ServedCall RelationsCall) (StoreSteps × Except String Unit) where
  step r c :=
    let (steps, result, r) := (r.perform testBuild c.call).eval c.serve
    (r, steps, result)

/-- A call on the links in a window. -/
abbrev CallEvent :=
  Machine.Event Relations (ServedCall RelationsCall) (StoreSteps × Except String Unit)

/-- What each call does: one that fails changes no kind; one that succeeds changes the kinds as it
should, remembers what the links are encoded to and writes that to the credential, if there is
one. -/
structure CallEvent.Spec (event : CallEvent) : Prop where
  of_error : ∀ error, event.output.2 = .error error → event.after.kindOf = event.before.kindOf
  of_ok : event.output.2 = .ok () →
    event.after.kindOf = event.input.call.change event.before.kindOf
  saved : event.output.2 = .ok () → encode event.after.links = .ok event.after.previous
    ∧ (event.before.entry = true → (⟨.setSecret event.after.previous, true⟩ :
      Performed StoreOperation.Answer) ∈ event.output.1)

variable (testBuild) in
/-- The event of a call ends as it should. -/
theorem event_ends (r : Relations) (c : ServedCall RelationsCall) :
  let event := (calls testBuild).event r c
  Ends r c.call event.output.1 event.output.2 event.after
  := perform_ends (Program.runs_eval (r.perform testBuild c.call) c.serve)

variable (testBuild) in
/-- A call leaves the links between loops in order, and does what it should. -/
theorem event_spec {r : Relations} (h : IsRelation r.links) (c : ServedCall RelationsCall) :
  IsRelation ((calls testBuild).next r c).links
    ∧ CallEvent.Spec ((calls testBuild).event r c)
  := by
  have hends := event_ends testBuild r c
  generalize hevent : (calls testBuild).event r c = event at hends
  obtain ⟨rfl, rfl, hafter⟩ :
      event.before = r ∧ event.input = c ∧ (calls testBuild).next r c = event.after := by
    rw [← hevent]
    exact ⟨rfl, rfl, rfl⟩
  rw [hafter]
  rcases hends with ⟨hfailed, -, hsame⟩ | ⟨hfailed, -, hsame, -⟩
    | ⟨hok, -, links, hchanges, bytes, hsaved, hbytes, hattempt⟩
  · rw [hsame]
    exact ⟨h, fun _ _ => by rw [hsame], fun hok => absurd hok hfailed,
      fun hok => absurd hok hfailed⟩
  · have hlinks : event.after.links = event.before.links := by rw [hsame]
    have hne : event.output.2 ≠ .ok () := by
      rw [hfailed]
      exact nofun
    rw [hlinks]
    use h
    constructor
    · intro error _
      rw [hsame]
      rfl
    · exact fun hok => absurd hok hne
    · exact fun hok => absurd hok hne
  · have hlinks : event.after.links = links := by rw [hsaved]
    have hprevious : event.after.previous = bytes := by rw [hsaved]
    rw [← hlinks] at hchanges
    use isRelation_of_changes h hchanges
    constructor
    · intro error herror
      rw [hok] at herror
      cases herror
    · exact fun _ => kindOf_of_changes h hchanges
    · intro _
      rw [hlinks, hprevious]
      use hbytes
      intro hentry
      apply (hattempt hentry).mem_of_written

/-- The links are a finite symmetric map that is encoded and decoded to itself. -/
structure IsSymmetricMap (r : Relations) : Prop where
  symm : ∀ a b, r.get a b = r.get b a
  irrefl : ∀ link ∈ r.links, link.a ≠ link.b
  nodup : (r.links.map fun link => s(link.a, link.b)).Nodup
  bounded : r.links.length ≤ 34
  decodes : ∃ bytes, encode r.links = .ok bytes ∧ decode bytes = .ok r.links

/-- Links between loops in order are a finite symmetric map. -/
theorem isSymmetricMap_of_isRelation {r : Relations} (h : IsRelation r.links) :
  r.IsSymmetricMap
  := by
  constructor
  · apply r.get_comm
  · intro link hlink heq
    have hlt := h.ordered link hlink
    rw [heq] at hlt
    apply List.lt_irrefl link.b.toList hlt
  · apply h.nodup
  · apply h.isMap.bounded
  · apply exists_encode h

end Relations

open LinkState

/-- From every store that is decoded, in every run of calls: the links are always a finite
symmetric map of at most 34 links that is encoded and decoded to itself, and every call changes
the kinds as it should.  Besides the empty string only what is encoded is decoded. -/
theorem relations_keepMap (testBuild : Bool) (r : Relations) {bytes : Bytes}
    (hdecode : decode bytes = .ok r.links) (cs : List (ServedCall RelationsCall)) :
  let run := Relations.calls testBuild
  (run.final r cs).IsSymmetricMap
    ∧ (∀ event ∈ run.history r cs, Relations.CallEvent.Spec event)
    ∧ ∀ bytes links, decode bytes = .ok links → bytes = [] ∨ encode links = .ok bytes
  := by
  intro run
  have hrelation := isRelation_of_decode hdecode
  have hstep : ∀ r c, IsRelation r.links → IsRelation (run.next r c).links := by
    intro r c h
    apply (Relations.event_spec testBuild h c).1
  constructor
  · apply Relations.isSymmetricMap_of_isRelation
    apply run.run_induction (P := fun _ r => IsRelation r.links) hrelation
    intro _ r c h
    apply hstep r c h
  constructor
  · apply run.forall_history (I := fun r => IsRelation r.links)
      (Q := Relations.CallEvent.Spec) hrelation
    · intro r c h
      apply hstep r c h
    · intro r c h
      apply (Relations.event_spec testBuild h c).2
  · intro bytes links h
    exact (decode_eq_ok.mp h).imp And.left And.right

/-- Two loops that are linked. -/
def sampleRelations : Relations :=
  let links := [⟨.sameLoop, Vector.replicate 32 1, Vector.replicate 32 2, 1⟩]
  ⟨links, true, linksBytes links, none⟩

/-- The link of two loops is replaced, whichever of them is given first. -/
theorem sampleRelations_keepMap :
  let run := Relations.calls false
  let cs : List (ServedCall RelationsCall) :=
    [⟨.set .notSameLoop (Vector.replicate 32 2) (Vector.replicate 32 1), fun
      | _, .now => (2 : UInt64)
      | _, .lock => true
      | _, .getSecret => .ok (some sampleRelations.previous)
      | _, .setSecret _ => true
      | _, .unlock => ()⟩]
  (run.final sampleRelations cs).links
      = [⟨.notSameLoop, Vector.replicate 32 1, Vector.replicate 32 2, 2⟩]
    ∧ (run.final sampleRelations cs).IsSymmetricMap
    ∧ (∀ event ∈ run.history sampleRelations cs, Relations.CallEvent.Spec event)
    ∧ ∀ bytes links, decode bytes = .ok links → bytes = [] ∨ encode links = .ok bytes
  := by
  intro run cs
  constructor
  · decide
  · have hdecode : decode sampleRelations.previous = .ok sampleRelations.links := by
      decide
    apply relations_keepMap false sampleRelations hdecode cs

end Desktop
