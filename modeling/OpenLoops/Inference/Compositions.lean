import OpenLoops.Inference.Scalars

/-!
# Compositions

What a scalar is composed with, and to what.  A scalar that is composed from a letter and a mark is
no letter of the table, and no jamo: it is composed no further.
-/

namespace Inference

/-! ### The table -/

/-- The letters of the table are no marks, and what they are composed with are marks. -/
theorem isMark_of_mem_compositions :
  ∀ entry ∈ compositions,
    isMark entry.1 = false ∧ isMark entry.2.1 = true ∧ isMark entry.2.2 = false
  := by decide +kernel

/-- What is composed is no letter of the table. -/
theorem result_ne_base :
  ∀ entry ∈ compositions, ∀ other ∈ compositions, entry.2.2 ≠ other.1
  := by
  have hall : (compositions.all fun entry => compositions.all fun other =>
      !Nat.beq entry.2.2.toNat other.1.toNat) = true := by
    decide +kernel
  intro entry hentry other hother heq
  have hne := List.all_eq_true.mp (List.all_eq_true.mp hall entry hentry) other hother
  rw [heq] at hne
  simp at hne

/-- Different letters and marks are composed to different scalars. -/
theorem eq_of_result_eq :
  ∀ entry ∈ compositions, ∀ other ∈ compositions, entry.2.2 = other.2.2 →
    entry.1 = other.1 ∧ entry.2.1 = other.2.1
  := by
  have hall : (compositions.all fun entry => compositions.all fun other =>
      !Nat.beq entry.2.2.toNat other.2.2.toNat
        || (Nat.beq entry.1.toNat other.1.toNat && Nat.beq entry.2.1.toNat other.2.1.toNat)) = true := by
    decide +kernel
  intro entry hentry other hother heq
  have hsame := List.all_eq_true.mp (List.all_eq_true.mp hall entry hentry) other hother
  rw [heq] at hsame
  simp only [Nat.beq_eq, Bool.or_eq_true, Bool.and_eq_true, Bool.not_eq_true', Nat.beq_refl,
    Bool.true_eq_false, false_or] at hsame
  exact ⟨Char.toNat_inj.mp hsame.1, Char.toNat_inj.mp hsame.2⟩

/-- No scalar of the table is a jamo or a syllable. -/
theorem toNat_of_mem_compositions :
  ∀ entry ∈ compositions, entry.1.toNat < hangulLBase ∧ entry.2.2.toNat < hangulLBase
  := by decide +kernel

variable {base mark result next : Char}

theorem mem_of_compose (h : compose base mark = some result) :
  (base, mark, result) ∈ compositions
  := by
  rw [compose, Option.map_eq_some_iff] at h
  obtain ⟨entry, hentry, rfl⟩ := h
  have hkeys := List.find?_some hentry
  rw [Bool.and_eq_true, decide_eq_true_iff, decide_eq_true_iff] at hkeys
  obtain ⟨rfl, rfl⟩ := hkeys
  apply List.mem_of_find?_eq_some hentry

/-- A scalar that is composed from a letter and a mark is composed with no other mark. -/
theorem compose_compose (h : compose base mark = some result) (other : Char) :
  compose result other = none
  := by
  rw [Option.eq_none_iff_forall_not_mem]
  intro further hfurther
  apply result_ne_base _ (mem_of_compose h) _ (mem_of_compose hfurther) rfl

/-! ### Syllables -/

/-- A leading jamo, or a syllable. -/
def startsSyllable (c : Char) : Bool :=
  (hangulLBase ≤ c.toNat && c.toNat < hangulLBase + hangulLCount)
    || (hangulSBase ≤ c.toNat && c.toNat < hangulSBase + hangulSCount)

/-- A jamo for a vowel or a trailing consonant. -/
def continuesSyllable (c : Char) : Bool :=
  (hangulVBase ≤ c.toNat && c.toNat < hangulVBase + hangulVCount)
    || (hangulTBase + 1 ≤ c.toNat && c.toNat < hangulTBase + hangulTCount)

theorem startsSyllable_iff {c : Char} :
  startsSyllable c = true ↔
    (0x1100 ≤ c.toNat ∧ c.toNat < 0x1113) ∨ (0xAC00 ≤ c.toNat ∧ c.toNat < 0xD7A4)
  := by
  rw [startsSyllable]
  simp only [Bool.or_eq_true, Bool.and_eq_true, decide_eq_true_eq]
  rfl

theorem continuesSyllable_iff {c : Char} :
  continuesSyllable c = true ↔
    (0x1161 ≤ c.toNat ∧ c.toNat < 0x1176) ∨ (0x11A8 ≤ c.toNat ∧ c.toNat < 0x11C3)
  := by
  rw [continuesSyllable]
  simp only [Bool.or_eq_true, Bool.and_eq_true, decide_eq_true_eq]
  rfl

theorem toNat_ofNat {n : ℕ} (h : n.isValidChar) :
  (Char.ofNat n).toNat = n
  := by
  rw [Char.ofNat, dif_pos h]
  rfl

theorem toNat_of_fromU32 {n : ℕ} {c : Char} (h : fromU32 n = some c) :
  c.toNat = n
  := by
  rw [fromU32] at h
  split_ifs at h with hvalid
  cases h
  apply toNat_ofNat hvalid

theorem fromU32_eq_some {n : ℕ} (h : n < hangulSBase + hangulSCount) :
  fromU32 n = some (Char.ofNat n)
  := by
  rw [fromU32, if_pos]
  left
  apply h.trans
  decide

/-- How a leading jamo and a vowel are composed, or a syllable and a trailing jamo. -/
theorem composeHangul_eq_some (h : composeHangul base next = some result) :
  (∃ l v, l < hangulLCount ∧ v < hangulVCount ∧ base.toNat = hangulLBase + l
      ∧ next.toNat = hangulVBase + v
      ∧ result.toNat = hangulSBase + (l * hangulNCount + v * hangulTCount))
    ∨ ∃ l v t, l < hangulLCount ∧ v < hangulVCount ∧ 0 < t ∧ t < hangulTCount
      ∧ base.toNat = hangulSBase + (l * hangulNCount + v * hangulTCount)
      ∧ next.toNat = hangulTBase + t ∧ result.toNat = base.toNat + t
  := by
  rw [composeHangul] at h
  dsimp only at h
  split_ifs at h with hlv ht
  · left
    have hresult := toNat_of_fromU32 h
    refine ⟨base.toNat - hangulLBase, next.toNat - hangulVBase, ?_, ?_, ?_, ?_, hresult⟩ <;> omega
  · right
    have hresult := toNat_of_fromU32 h
    obtain ⟨hbase, hmod, hnext⟩ := ht
    refine ⟨(base.toNat - hangulSBase) / hangulNCount,
      (base.toNat - hangulSBase) % hangulNCount / hangulTCount, next.toNat - hangulTBase, ?_, ?_, ?_,
      ?_, ?_, ?_, ?_⟩ <;>
    simp only [hangulSBase, hangulTBase, hangulLCount, hangulVCount, hangulTCount, hangulNCount,
      hangulSCount] at * <;> omega

/-- What composes to a syllable starts one and continues one. -/
theorem ranges_of_composeHangul (h : composeHangul base next = some result) :
  startsSyllable base = true ∧ continuesSyllable next = true
    ∧ 0xAC00 ≤ result.toNat ∧ result.toNat < 0xD7A4
  := by
  rw [startsSyllable_iff, continuesSyllable_iff]
  rcases composeHangul_eq_some h with ⟨l, v, hl, hv, hbase, hnext, hresult⟩ |
    ⟨l, v, t, hl, hv, hpos, ht, hbase, hnext, hresult⟩ <;>
  simp only [hangulSBase, hangulLBase, hangulVBase, hangulTBase, hangulLCount, hangulVCount,
    hangulTCount, hangulNCount] at * <;> omega

/-! ### Marks -/

/-- The marks are of one block. -/
theorem toNat_of_isMark {c : Char} (h : isMark c = true) :
  0x0300 ≤ c.toNat ∧ c.toNat ≤ 0x036F
  := by
  rw [isMark, decide_eq_true_iff, combiningClass] at h
  split_ifs at h with hbelow hdot hhorn hblock
  · rcases hbelow with rfl | rfl <;> decide
  · subst hdot
    decide
  · subst hhorn
    decide
  · exact hblock
  · exact absurd rfl h

/-- A mark is of no syllable. -/
theorem not_syllable_of_isMark {c : Char} (h : isMark c = true) :
  startsSyllable c = false ∧ continuesSyllable c = false
  := by
  have hblock := toNat_of_isMark h
  rw [← Bool.not_eq_true, ← Bool.not_eq_true, startsSyllable_iff, continuesSyllable_iff]
  omega

/-- What continues a syllable is no mark and starts none. -/
theorem not_starts_of_continuesSyllable {c : Char} (h : continuesSyllable c = true) :
  startsSyllable c = false ∧ isMark c = false
  := by
  have hjamo := continuesSyllable_iff.mp h
  rw [← Bool.not_eq_true, ← Bool.not_eq_true, startsSyllable_iff]
  refine ⟨by omega, ?_⟩
  intro hmark
  rw [(not_syllable_of_isMark hmark).2] at h
  cases h

theorem composeHangul_eq_none_of_base (h : startsSyllable base = false) :
  composeHangul base next = none
  := by
  rw [Option.eq_none_iff_forall_not_mem]
  intro syllable hsyllable
  rw [(ranges_of_composeHangul hsyllable).1] at h
  cases h

theorem composeHangul_eq_none_of_next (h : continuesSyllable next = false) :
  composeHangul base next = none
  := by
  rw [Option.eq_none_iff_forall_not_mem]
  intro syllable hsyllable
  rw [(ranges_of_composeHangul hsyllable).2.1] at h
  cases h

/-- A composed syllable is no mark, continues no syllable and is composed with no mark. -/
theorem of_composeHangul (h : composeHangul base next = some result) :
  isMark result = false ∧ continuesSyllable result = false ∧ ∀ m, compose result m = none
  := by
  obtain ⟨-, -, hlow, -⟩ := ranges_of_composeHangul h
  refine ⟨?_, ?_, ?_⟩
  · rw [← Bool.not_eq_true]
    intro hmark
    have := toNat_of_isMark hmark
    omega
  · rw [← Bool.not_eq_true, continuesSyllable_iff]
    omega
  · intro m
    rw [Option.eq_none_iff_forall_not_mem]
    intro further hfurther
    have hlow' : result.toNat < 0x1100 :=
      (toNat_of_mem_compositions _ (mem_of_compose hfurther)).1
    omega

/-- A letter and a mark are composed to a scalar that is no mark and of no syllable. -/
theorem of_compose (h : compose base mark = some result) :
  isMark mark = true ∧ isMark result = false ∧ startsSyllable result = false
    ∧ continuesSyllable result = false
  := by
  obtain ⟨-, hmark, hresult⟩ := isMark_of_mem_compositions _ (mem_of_compose h)
  have hlow : result.toNat < 0x1100 := (toNat_of_mem_compositions _ (mem_of_compose h)).2
  rw [← Bool.not_eq_true (startsSyllable result), ← Bool.not_eq_true (continuesSyllable result),
    startsSyllable_iff, continuesSyllable_iff]
  exact ⟨hmark, hresult, by omega, by omega⟩

end Inference
