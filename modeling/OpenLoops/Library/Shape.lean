import OpenLoops.Library.Json
import OpenLoops.Library.Log

/-!
# Shapes of documents

A shape says which documents are written for which values, and how a document is rewritten into
the plain one that says the same: a structure is written as an object with its members, and a
variant of an enumeration as its name.  A reader `Reads` a shape when it takes from a document
exactly the values that its plain form is written for.
-/

/-- The documents written for values, and the plain form of a document. -/
structure Shape (α : Type*) where
  plain : Json → Json
  Writes : Json → α → Prop

namespace Shape

variable {α β : Type*}

/-- The reader takes from a document what its plain form is written for, and what is written is
plain. -/
structure Reads (s : Shape α) (read : Json → Option α) : Prop where
  eq_some_iff : ∀ {d a}, read d = some a ↔ s.Writes (s.plain d) a
  plain_eq : ∀ {d a}, s.Writes d a → s.plain d = d

/-! ### Strings, integers and lists -/

/-- A string. -/
def string : Shape String where
  plain d := d
  Writes d s := d = .string s

theorem string_reads :
  string.Reads Json.readString
  := by
  constructor
  · intro d s
    cases d with
    | string s => simp [Json.readString, string]
    | _ => simp [Json.readString, string]
  · intro d s _
    rfl

/-- A nonnegative integer. -/
def unsigned (toNat : α → ℕ) : Shape α where
  plain d := d
  Writes d a := ∃ n : UInt64, n.toNat = toNat a ∧ d = .number (.posInt n)

theorem unsigned_reads {size : ℕ} {ofNat : ℕ → α} {toNat : α → ℕ}
    (hsize : ∀ a, toNat a < size) (hofNat : ∀ a, ofNat (toNat a) = a)
    (htoNat : ∀ n < size, toNat (ofNat n) = n) :
  (unsigned toNat).Reads (Json.readUnsigned size ofNat)
  := by
  constructor
  · intro d a
    cases d with
    | number n =>
        cases n with
        | posInt n =>
            rw [Json.readUnsigned, Option.ite_none_right_eq_some, Option.some.injEq]
            constructor
            · rintro ⟨hlt, rfl⟩
              use n, (htoNat _ hlt).symm
              rfl
            · rintro ⟨n, hn, ⟨⟩⟩
              rw [hn]
              use hsize a, hofNat a
        | _ => simp [Json.readUnsigned, unsigned]
    | _ => simp [Json.readUnsigned, unsigned]
  · intro d a _
    rfl

theorem uint8_reads :
  (unsigned UInt8.toNat).Reads (Json.readUnsigned UInt8.size UInt8.ofNat)
  := by
  apply unsigned_reads
  · apply UInt8.toNat_lt_size
  · intro n
    apply UInt8.ofNat_toNat
  · intro n hn
    apply UInt8.toNat_ofNat_of_lt hn

theorem uint16_reads :
  (unsigned UInt16.toNat).Reads (Json.readUnsigned UInt16.size UInt16.ofNat)
  := by
  apply unsigned_reads
  · apply UInt16.toNat_lt_size
  · intro n
    apply UInt16.ofNat_toNat
  · intro n hn
    apply UInt16.toNat_ofNat_of_lt hn

theorem uint32_reads :
  (unsigned UInt32.toNat).Reads (Json.readUnsigned UInt32.size UInt32.ofNat)
  := by
  apply unsigned_reads
  · apply UInt32.toNat_lt_size
  · intro n
    apply UInt32.ofNat_toNat
  · intro n hn
    apply UInt32.toNat_ofNat_of_lt hn

/-- An array of documents of a shape. -/
def list (s : Shape α) : Shape (List α) where
  plain
    | .array elements => .array (elements.map s.plain)
    | d => d
  Writes d as := ∃ elements, d = .array elements ∧ List.Forall₂ s.Writes elements as

/-- What is computed from the elements one by one is there exactly when it is for each of
them. -/
theorem mapM_eq_some_iff_forall₂ {f : α → Option β} {as : List α} {bs : List β} :
  as.mapM f = some bs ↔ List.Forall₂ (fun a b => f a = some b) as bs
  := by
  induction as generalizing bs with
  | nil => simp [eq_comm]
  | cons a as ih =>
      rw [List.mapM_cons, List.forall₂_cons_left_iff]
      simp only [Option.bind_eq_bind, Option.bind_eq_some_iff, ih, Option.pure_def,
        Option.some.injEq]
      constructor
      · rintro ⟨b, hb, bs, hbs, rfl⟩
        use b, bs, hb, hbs
      · rintro ⟨b, bs, hb, hbs, rfl⟩
        use b, hb, bs, hbs

theorem Reads.list {s : Shape α} {read : Json → Option α} (h : s.Reads read) :
  s.list.Reads (Json.readSeq read)
  := by
  constructor
  · intro d as
    cases d with
    | array elements =>
        rw [Json.readSeq, mapM_eq_some_iff_forall₂]
        constructor
        · intro hall
          use elements.map s.plain, rfl
          rw [List.forall₂_map_left_iff]
          apply hall.imp
          intro d a hd
          apply h.eq_some_iff.mp hd
        · rintro ⟨_, ⟨⟩, hall⟩
          rw [List.forall₂_map_left_iff] at hall
          apply hall.imp
          intro d a hd
          apply h.eq_some_iff.mpr hd
    | _ => simp [Json.readSeq, Shape.list]
  · rintro _ as ⟨elements, rfl, hall⟩
    apply congrArg Json.array
    induction hall with
    | nil => rfl
    | cons hd _ ih => rw [List.map_cons, h.plain_eq hd, ih]

/-! ### Enumerations -/

/-- The name of a variant. -/
def enumeration (nameOf : α → String) : Shape α where
  plain d := d.variantName.elim d .string
  Writes d a := d = .string (nameOf a)

/-- An entry whose name is its own is the one that is found under it. -/
theorem find?_name {l : List α} {nameOf : α → String} {a : α} (ha : a ∈ l)
    (hname : ∀ b ∈ l, nameOf b = nameOf a → b = a) :
  l.find? (nameOf · == nameOf a) = some a
  := by
  have hsome : (l.find? (nameOf · == nameOf a)).isSome := by
    rw [List.find?_isSome]
    use a, ha
    apply beq_self_eq_true
  obtain ⟨b, hb⟩ := Option.isSome_iff_exists.mp hsome
  have hbeq : (nameOf b == nameOf a) = true := List.find?_some (p := (nameOf · == nameOf a)) hb
  rw [hb, hname b (List.mem_of_find?_eq_some hb) (beq_iff_eq.mp hbeq)]

theorem enumeration_reads {variants : List α} {nameOf : α → String}
    (hall : ∀ a, a ∈ variants) (hnames : (variants.map nameOf).Nodup) :
  (enumeration nameOf).Reads (Json.readEnum variants nameOf)
  := by
  constructor
  · intro d a
    simp only [Json.readEnum, enumeration]
    rcases hd : d.variantName with _ | name
    · simp only [Option.bind_none, reduceCtorEq, Option.elim_none, false_iff]
      rintro rfl
      cases hd
    · simp only [Option.bind_some, Option.elim_some, Json.string.injEq]
      constructor
      · intro h
        have hbeq : (nameOf a == name) = true := List.find?_some (p := (nameOf · == name)) h
        apply (beq_iff_eq.mp hbeq).symm
      · rintro rfl
        apply find?_name (hall a)
        intro b hb hname
        apply List.inj_on_of_nodup_map hnames hb (hall a) hname
  · rintro _ a rfl
    rfl

/-! ### Structures -/

/-- A member of a structure: its name, the plain form of its document, and the documents written
for the value that a structure has there. -/
structure Member (α : Type*) where
  name : String
  plain : Json → Json
  Writes : Json → α → Prop

/-- The member of a shape that a field of the structure is written as. -/
def member (name : String) (s : Shape β) (field : α → β) : Member α where
  name := name
  plain := s.plain
  Writes d a := s.Writes d (field a)

@[simp]
theorem member_name (name : String) (s : Shape β) (field : α → β) :
  (member name s field).name = name
  := rfl

/-- What is written for the member is plain. -/
def Member.IsPlain (m : Member α) : Prop :=
  ∀ v a, m.Writes v a → m.plain v = v

theorem Reads.isPlain {s : Shape β} {read : Json → Option β} (h : s.Reads read)
    {name : String} {field : α → β} :
  (member name s field).IsPlain
  := by
  intro v a hwrites
  apply h.plain_eq hwrites

/-- The plain form of the document under the name of the member is written for the value that
the structure has there. -/
def Member.TakenFrom (m : Member α) (members : List (String × Json)) (a : α) : Prop :=
  ∃ v, members.lookup m.name = some v ∧ m.Writes (m.plain v) a

theorem Reads.takenFrom_iff {s : Shape β} {read : Json → Option β} (h : s.Reads read)
    {name : String} {field : α → β} {members : List (String × Json)} {a : α} :
  (member name s field).TakenFrom members a ↔
    Json.readMember members name read = some (field a)
  := by
  rw [Json.readMember, Option.bind_eq_some_iff]
  apply exists_congr
  intro v
  rw [h.eq_some_iff]
  exact Iff.rfl

/-- The plain form of the member of a name. -/
def plainMember (ms : List (Member α)) (entry : String × Json) : String × Json :=
  (entry.1, ((ms.find? (·.name == entry.1)).elim entry.2 (·.plain entry.2)))

/-- The members that an object or an array is taken for. -/
def memberForm (names : List String) : Json → Option (List (String × Json))
  | .array values => if values.length = names.length then some (names.zip values) else none
  | .object members => some members
  | _ => none

/-- An object with a member for each of a list, written for the value at its field. -/
def struct (ms : List (Member α)) : Shape α where
  plain d :=
    (memberForm (ms.map (·.name)) d).elim d fun members => .object (members.map (plainMember ms))
  Writes d a := ∃ members, d = .object members
    ∧ (members.map (·.1)).Perm (ms.map (·.name))
    ∧ ∀ m ∈ ms, ∃ v, (m.name, v) ∈ members ∧ m.Writes v a

/-- The plain form of a member keeps its name. -/
theorem plainMember_name (ms : List (Member α)) (members : List (String × Json)) :
  (members.map (plainMember ms)).map (·.1) = members.map (·.1)
  := by
  rw [List.map_map]
  rfl

/-- The plain form of the member of a structure. -/
theorem plainMember_of_mem {ms : List (Member α)} (hnames : (ms.map (·.name)).Nodup)
    {m : Member α} (hm : m ∈ ms) (v : Json) :
  plainMember ms (m.name, v) = (m.name, m.plain v)
  := by
  have hfind : ms.find? (·.name == m.name) = some m := by
    apply find?_name hm
    intro b hb hname
    apply List.inj_on_of_nodup_map hnames hb hm hname
  rw [plainMember, hfind]
  rfl

/-- A structure is read from the members it is taken for, when their names are distinct and
among its own. -/
theorem readStruct_eq_some {names : List String} (hnames : names.Nodup) {d : Json}
    {members : List (String × Json)} :
  d.readStruct names = some members ↔ memberForm names d = some members
    ∧ (members.map (·.1)).Nodup ∧ ∀ member ∈ members, member.1 ∈ names
  := by
  cases d with
  | array values =>
      rw [Json.readStruct, memberForm]
      split_ifs with hlength
      · constructor
        · rintro ⟨⟩
          use rfl
          rw [List.map_fst_zip hlength.ge]
          use hnames
          intro member hmember
          apply (List.of_mem_zip hmember).1
        · intro h
          apply h.1
      · simp
  | object members' =>
      rw [Json.readStruct, memberForm, Option.ite_none_right_eq_some, Option.some.injEq]
      constructor
      · rintro ⟨hok, rfl⟩
        use rfl, hok.1, hok.2
      · rintro ⟨rfl, hok⟩
        use hok
  | _ => simp [Json.readStruct, memberForm]

/-- A reader that takes the members of a structure from a document, and their values from
them, reads its shape. -/
theorem struct_reads {ms : List (Member α)} {read : Json → Option α}
    (hnames : (ms.map (·.name)).Nodup)
    (hplain : ∀ m ∈ ms, m.IsPlain)
    (hread : ∀ d a, read d = some a ↔ ∃ members,
      d.readStruct (ms.map (·.name)) = some members ∧ ∀ m ∈ ms, m.TakenFrom members a) :
  (struct ms).Reads read
  := by
  constructor
  · intro d a
    simp only [hread, readStruct_eq_some hnames, struct]
    rcases hform : memberForm (ms.map (·.name)) d with _ | members
    · simp only [hform, reduceCtorEq, false_and, exists_false, Option.elim_none, false_iff]
      rintro ⟨members, rfl, -⟩
      cases hform
    · simp only [hform, Option.some.injEq, Option.elim_some, Json.object.injEq]
      constructor
      · rintro ⟨_, ⟨rfl, hnodup, hsubset⟩, hvalues⟩
        use members.map (plainMember ms), rfl
        rw [plainMember_name]
        constructor
        · apply (List.perm_ext_iff_of_nodup hnodup hnames).mpr
          intro name
          constructor
          · intro hname
            obtain ⟨member, hmember, rfl⟩ := List.mem_map.mp hname
            apply hsubset member hmember
          · intro hname
            obtain ⟨m, hm, rfl⟩ := List.mem_map.mp hname
            obtain ⟨v, hv, -⟩ := hvalues m hm
            apply List.mem_map_of_mem ((Log.lookup_eq_some_iff_mem hnodup).mp hv)
        · intro m hm
          obtain ⟨v, hv, hwrites⟩ := hvalues m hm
          use m.plain v
          rw [← plainMember_of_mem hnames hm]
          use List.mem_map_of_mem ((Log.lookup_eq_some_iff_mem hnodup).mp hv), hwrites
      · rintro ⟨_, rfl, hperm, hvalues⟩
        rw [plainMember_name] at hperm
        have hnodup := hperm.nodup_iff.mpr hnames
        use members
        constructor
        · use rfl, hnodup
          intro member hmember
          apply hperm.mem_iff.mp (List.mem_map_of_mem hmember)
        · intro m hm
          obtain ⟨v, hv, hwrites⟩ := hvalues m hm
          obtain ⟨⟨name, v'⟩, hmember, heq⟩ := List.mem_map.mp hv
          obtain rfl : name = m.name := congrArg Prod.fst heq
          rw [plainMember_of_mem hnames hm] at heq
          obtain rfl : m.plain v' = v := congrArg Prod.snd heq
          use v', (Log.lookup_eq_some_iff_mem hnodup).mpr hmember, hwrites
  · rintro _ a ⟨members, rfl, hperm, hvalues⟩
    have hnodup := hperm.nodup_iff.mpr hnames
    have hentry : ∀ entry ∈ members, plainMember ms entry = entry := by
      rintro ⟨name, v⟩ hentry
      obtain ⟨m, hm, rfl⟩ := List.mem_map.mp (hperm.mem_iff.mp (List.mem_map_of_mem hentry))
      obtain ⟨v', hv', hwrites⟩ := hvalues m hm
      obtain rfl : v' = v :=
        congrArg Prod.snd (List.inj_on_of_nodup_map hnodup hv' hentry rfl)
      rw [plainMember_of_mem hnames hm, hplain m hm v' a hwrites]
    apply congrArg Json.object
    apply (List.map_congr_left hentry).trans (List.map_id' members)

/-- What is written for a structure is an object. -/
theorem struct_writes_object {ms : List (Member α)} {d : Json} {a : α}
    (h : (struct ms).Writes d a) :
  ∃ members, d = .object members
  := by
  obtain ⟨members, rfl, -⟩ := h
  use members

/-- Only null has a plain form that is null. -/
theorem struct_plain_eq_null {ms : List (Member α)} {d : Json}
    (h : (struct ms).plain d = .null) :
  d = .null
  := by
  simp only [struct] at h
  rcases hform : memberForm (ms.map (·.name)) d with _ | members
  · rw [hform] at h
    exact h
  · simp [hform] at h

end Shape
