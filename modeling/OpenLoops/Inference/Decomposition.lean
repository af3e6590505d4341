import OpenLoops.Inference.Normalization

/-!
# Canonical decompositions

Texts are equivalent when they have the same decomposition, in which every run of marks is sorted by
the classes, stably.  A composed text is equivalent to the text exactly when no mark is composed
with a starter across another mark of its class.
-/

namespace Inference

variable {c : Char}

/-! ### Decomposed scalars -/

/-- The letter and the mark, or the jamo, that a scalar is composed of; else the scalar. -/
def decompose (c : Char) : List Char :=
  match compositions.find? (·.2.2 = c) with
  | some (base, mark, _) => [base, mark]
  | none =>
      if hangulSBase ≤ c.toNat ∧ c.toNat < hangulSBase + hangulSCount then
        let sIndex := c.toNat - hangulSBase
        let leading := Char.ofNat (hangulLBase + sIndex / hangulNCount)
        let vowel := Char.ofNat (hangulVBase + sIndex % hangulNCount / hangulTCount)
        if sIndex % hangulTCount = 0 then [leading, vowel]
        else [leading, vowel, Char.ofNat (hangulTBase + sIndex % hangulTCount)]
      else [c]

/-- A mark goes before the first scalar that is a starter or of no lower class. -/
def insertMark (m : Char) : List Char → List Char
  | [] => [m]
  | c :: rest =>
      if isMark c ∧ combiningClass c < combiningClass m then c :: insertMark m rest
      else m :: c :: rest

/-- Sort each run of marks by the classes, stably. -/
def reorder (text : List Char) : List Char :=
  text.foldr (fun c rest => if isMark c then insertMark c rest else c :: rest) []

def canonicalDecomposition (text : List Char) : List Char :=
  reorder (text.flatMap decompose)

/-- The letter and the mark of a composition. -/
theorem decompose_of_compose {base mark result : Char} (h : compose base mark = some result) :
  decompose result = [base, mark]
  := by
  have hmem := mem_of_compose h
  rw [decompose]
  cases hfind : compositions.find? (·.2.2 = result) with
  | none =>
      rw [List.find?_eq_none] at hfind
      exact absurd (decide_eq_true rfl) (hfind _ hmem)
  | some entry =>
      have hresult := List.find?_some hfind
      rw [decide_eq_true_iff] at hresult
      obtain ⟨hbase, hmark⟩ := eq_of_result_eq entry (List.mem_of_find?_eq_some hfind) _ hmem hresult
      dsimp only
      rw [hbase, hmark]

example : canonicalDecomposition "é".toList = ['e', '\u0301']
  := by decide +kernel

/-- A scalar that no letter and mark are composed to, and that is no syllable, is its own
decomposition. -/
theorem decompose_eq_self (hresult : ∀ entry ∈ compositions, entry.2.2 ≠ c)
    (hsyllable : c.toNat < 0xAC00) :
  decompose c = [c]
  := by
  have hfind : compositions.find? (·.2.2 = c) = none := by
    rw [List.find?_eq_none]
    intro entry hentry
    rw [decide_eq_true_iff]
    apply hresult entry hentry
  rw [decompose, hfind]
  dsimp only
  rw [if_neg]
  rintro ⟨hle, -⟩
  exact absurd hsyllable (not_lt.mpr hle)

theorem decompose_of_isMark (h : isMark c = true) :
  decompose c = [c]
  := by
  apply decompose_eq_self
  · rintro entry hentry rfl
    rw [(isMark_of_mem_compositions entry hentry).2.2] at h
    cases h
  · have := toNat_of_isMark h
    omega

/-- A letter that is composed with a mark is its own decomposition. -/
theorem decompose_of_base {mark result : Char} (h : compose c mark = some result) :
  decompose c = [c]
  := by
  apply decompose_eq_self
  · intro entry hentry
    apply result_ne_base entry hentry _ (mem_of_compose h)
  · have hlow : c.toNat < 0x1100 := (toNat_of_mem_compositions _ (mem_of_compose h)).1
    omega

/-- A jamo is its own decomposition. -/
theorem decompose_of_jamo (hlow : 0x1100 ≤ c.toNat) (hhigh : c.toNat < 0xAC00) :
  decompose c = [c]
  := by
  apply decompose_eq_self _ hhigh
  rintro entry hentry rfl
  have hlow' : entry.2.2.toNat < 0x1100 := (toNat_of_mem_compositions entry hentry).2
  omega

theorem decompose_of_continuesSyllable (h : continuesSyllable c = true) :
  decompose c = [c]
  := by
  rw [continuesSyllable_iff] at h
  apply decompose_of_jamo <;> omega

/-- The parts of a syllable: which leading jamo, vowel and trailing jamo it is composed of. -/
theorem exists_syllable_parts
    (h : hangulSBase ≤ c.toNat ∧ c.toNat < hangulSBase + hangulSCount) :
  ∃ l v t, l < hangulLCount ∧ v < hangulVCount ∧ t < hangulTCount
    ∧ c.toNat = hangulSBase + (l * hangulNCount + v * hangulTCount + t)
  := by
  refine ⟨(c.toNat - hangulSBase) / hangulNCount,
    (c.toNat - hangulSBase) % hangulNCount / hangulTCount,
    (c.toNat - hangulSBase) % hangulTCount, ?_, ?_, ?_, ?_⟩ <;>
  simp only [hangulSBase, hangulLCount, hangulVCount, hangulTCount, hangulNCount,
    hangulSCount] at * <;> omega

/-- A syllable is decomposed to a leading jamo and a vowel, and the trailing jamo if there is one. -/
theorem decompose_syllable {l v t : ℕ} (hl : l < hangulLCount) (hv : v < hangulVCount)
    (ht : t < hangulTCount)
    (hc : c.toNat = hangulSBase + (l * hangulNCount + v * hangulTCount + t)) :
  decompose c = Char.ofNat (hangulLBase + l) :: Char.ofNat (hangulVBase + v)
    :: if t = 0 then [] else [Char.ofNat (hangulTBase + t)]
  := by
  have hfind : compositions.find? (·.2.2 = c) = none := by
    rw [List.find?_eq_none]
    intro entry hentry
    rw [decide_eq_true_iff]
    rintro rfl
    have hlow := (toNat_of_mem_compositions entry hentry).2
    simp only [hangulSBase, hangulLBase] at hlow hc
    omega
  have hindex : c.toNat - hangulSBase = l * hangulNCount + v * hangulTCount + t := by omega
  have hin : hangulSBase ≤ c.toNat ∧ c.toNat < hangulSBase + hangulSCount := by
    simp only [hangulSBase, hangulSCount, hangulLCount, hangulVCount, hangulTCount,
      hangulNCount] at *
    omega
  have hleading : (l * hangulNCount + v * hangulTCount + t) / hangulNCount = l := by
    simp only [hangulLCount, hangulVCount, hangulTCount, hangulNCount] at *
    omega
  have hvowel : (l * hangulNCount + v * hangulTCount + t) % hangulNCount / hangulTCount = v := by
    simp only [hangulLCount, hangulVCount, hangulTCount, hangulNCount] at *
    omega
  have htrailing : (l * hangulNCount + v * hangulTCount + t) % hangulTCount = t := by
    simp only [hangulLCount, hangulVCount, hangulTCount, hangulNCount] at *
    omega
  rw [decompose, hfind]
  dsimp only
  rw [if_pos hin, hindex, hleading, hvowel, htrailing]
  split_ifs <;> rfl

/-- The decomposition is full: its scalars are their own decompositions. -/
theorem decompose_of_mem_decompose {d : Char} (h : d ∈ decompose c) :
  decompose d = [d]
  := by
  have hjamo : ∀ {base n}, 0x1100 ≤ base → base ≤ 0x11A7 → n < 28 →
      decompose (Char.ofNat (base + n)) = [Char.ofNat (base + n)] := by
    intro base n hlow hhigh hn
    have hnat := toNat_ofNat (n := base + n) (Or.inl (by omega))
    apply decompose_of_jamo <;> omega
  cases hfind : compositions.find? (·.2.2 = c) with
  | some entry =>
      have hmem := List.mem_of_find?_eq_some hfind
      obtain ⟨-, hmark, -⟩ := isMark_of_mem_compositions entry hmem
      rw [decompose, hfind] at h
      rcases List.mem_pair.mp h with rfl | rfl
      · apply decompose_eq_self
        · intro other hother
          apply result_ne_base other hother entry hmem
        · have hlow : entry.1.toNat < 0x1100 := (toNat_of_mem_compositions entry hmem).1
          omega
      · apply decompose_of_isMark hmark
  | none =>
      by_cases hsyllable : hangulSBase ≤ c.toNat ∧ c.toNat < hangulSBase + hangulSCount
      · obtain ⟨l, v, t, hl, hv, ht, hc⟩ := exists_syllable_parts hsyllable
        rw [decompose_syllable hl hv ht hc] at h
        rcases List.mem_cons.mp h with heq | h
        · rw [heq]
          apply hjamo (by decide) (by decide) (hl.trans (by decide))
        · rcases List.mem_cons.mp h with heq | h
          · rw [heq]
            apply hjamo (by decide) (by decide) (hv.trans (by decide))
          · split_ifs at h
            · cases h
            · rw [List.mem_singleton.mp h]
              apply hjamo (by decide) (by decide) ht
      · have hself : decompose c = [c] := by
          rw [decompose, hfind]
          exact if_neg hsyllable
        rw [hself] at h
        rw [List.mem_singleton.mp h, hself]

/-- The jamo of a syllable that is composed. -/
theorem decompose_of_composeHangul {next result : Char}
    (h : composeHangul c next = some result) :
  decompose result = decompose c ++ [next]
  := by
  rcases composeHangul_eq_some h with ⟨l, v, hl, hv, hbase, hnext, hresult⟩ |
    ⟨l, v, t, hl, hv, hpos, ht, hbase, hnext, hresult⟩
  · rw [← Nat.add_zero (l * hangulNCount + v * hangulTCount)] at hresult
    rw [decompose_syllable hl hv (by decide) hresult, if_pos rfl, ← hbase, ← hnext,
      Char.ofNat_toNat, Char.ofNat_toNat, decompose_of_jamo]
    · rfl
    · exact hbase ▸ Nat.le_add_right _ _
    · simp only [hangulLBase, hangulLCount] at *
      omega
  · have hresult' : result.toNat
        = hangulSBase + (l * hangulNCount + v * hangulTCount + t) := by
      omega
    rw [← Nat.add_zero (l * hangulNCount + v * hangulTCount)] at hbase
    rw [decompose_syllable hl hv ht hresult', if_neg hpos.ne',
      decompose_syllable hl hv (by decide) hbase, if_pos rfl, ← hnext, Char.ofNat_toNat]
    rfl

/-- The scalars of a syllable, decomposed. -/
theorem Syllable.decompose_eq {jamo after : List Char} {syllable : Char}
    (h : Syllable c jamo after syllable) :
  decompose syllable = decompose c ++ jamo
  := by
  have hcomposed := h.composed
  clear h
  induction jamo generalizing c with
  | nil =>
      cases hcomposed
      exact (List.append_nil _).symm
  | cons d jamo ih =>
      rw [List.foldlM_cons] at hcomposed
      obtain ⟨next, hnext, hcomposed⟩ := Option.bind_eq_some_iff.mp hcomposed
      rw [ih hcomposed, decompose_of_composeHangul hnext, List.append_assoc, List.singleton_append]

/-- Scalars that are their own decompositions. -/
theorem flatMap_decompose_eq_self {text : List Char} (h : ∀ d ∈ text, decompose d = [d]) :
  text.flatMap decompose = text
  := by
  rw [List.flatMap_congr h, List.flatMap_singleton']

/-- The decomposition of a scalar that is no mark: scalars that are none, and a mark at most. -/
theorem exists_decompose_eq (h : isMark c = false) :
  ∃ starters marks, decompose c = starters ++ marks ∧ starters ≠ []
    ∧ (∀ d ∈ starters, isMark d = false) ∧ ∀ m ∈ marks, isMark m = true
  := by
  have hjamo : ∀ {base n}, 0x1100 ≤ base → base ≤ 0x11A7 → n < 28 →
      isMark (Char.ofNat (base + n)) = false := by
    intro base n hlow hhigh hn
    rw [← Bool.not_eq_true]
    intro hmark
    have hblock := toNat_of_isMark hmark
    have hnat := toNat_ofNat (n := base + n) (Or.inl (by omega))
    omega
  cases hfind : compositions.find? (·.2.2 = c) with
  | some entry =>
      obtain ⟨hbase, hmark, -⟩ :=
        isMark_of_mem_compositions entry (List.mem_of_find?_eq_some hfind)
      refine ⟨[entry.1], [entry.2.1], ?_, List.cons_ne_nil _ _, ?_, ?_⟩
      · rw [decompose, hfind]
        rfl
      · rintro d hd
        rwa [List.mem_singleton.mp hd]
      · rintro m hm
        rwa [List.mem_singleton.mp hm]
  | none =>
      refine ⟨decompose c, [], (List.append_nil _).symm, ?_, ?_,
        fun m hm => absurd hm List.not_mem_nil⟩
      · rw [decompose, hfind]
        dsimp only
        split_ifs <;> apply List.cons_ne_nil
      · intro d hd
        by_cases hsyllable : hangulSBase ≤ c.toNat ∧ c.toNat < hangulSBase + hangulSCount
        · obtain ⟨l, v, t, hl, hv, ht, hc⟩ := exists_syllable_parts hsyllable
          rw [decompose_syllable hl hv ht hc] at hd
          rcases List.mem_cons.mp hd with heq | hd
          · rw [heq]
            apply hjamo (by decide) (by decide) (hl.trans (by decide))
          · rcases List.mem_cons.mp hd with heq | hd
            · rw [heq]
              apply hjamo (by decide) (by decide) (hv.trans (by decide))
            · split_ifs at hd
              · cases hd
              · rw [List.mem_singleton.mp hd]
                apply hjamo (by decide) (by decide) ht
        · rw [decompose, hfind] at hd
          dsimp only at hd
          rw [if_neg hsyllable] at hd
          rwa [List.mem_singleton.mp hd]

/-! ### Sorted runs -/

theorem reorder_mark (h : isMark c = true) (text : List Char) :
  reorder (c :: text) = insertMark c (reorder text)
  := by rw [reorder, List.foldr_cons, if_pos h, reorder]

/-- Scalars that are no marks stay before what follows them. -/
theorem reorder_starters {starters : List Char} (h : ∀ d ∈ starters, isMark d = false)
    (text : List Char) :
  reorder (starters ++ text) = starters ++ reorder text
  := by
  induction starters with
  | nil => rfl
  | cons d starters ih =>
      rw [List.cons_append, reorder, List.foldr_cons, h d List.mem_cons_self,
        if_neg Bool.false_ne_true, ← reorder,
        ih fun d' hd' => h d' (List.mem_cons_of_mem d hd'), List.cons_append]

/-- In a run of marks a mark goes to its place by the order of the classes. -/
theorem insertMark_append {marks rest : List Char} (hmarks : ∀ m ∈ marks, isMark m = true)
    (hrest : rest.head?.any isMark = false) (m : Char) :
  insertMark m (marks ++ rest)
    = marks.orderedInsert (fun m m' => combiningClass m ≤ combiningClass m') m ++ rest
  := by
  induction marks with
  | nil =>
      cases rest with
      | nil => rfl
      | cons d rest =>
          have hd : isMark d = false := hrest
          rw [List.nil_append, insertMark, hd, if_neg (fun h => Bool.false_ne_true h.1)]
          rfl
  | cons m' marks ih =>
      rw [List.cons_append, insertMark, hmarks m' List.mem_cons_self, List.orderedInsert_cons]
      by_cases hle : combiningClass m ≤ combiningClass m'
      · rw [if_pos hle, if_neg (fun h => absurd hle (not_le.mpr h.2))]
        rfl
      · rw [if_neg hle, if_pos ⟨rfl, not_le.mp hle⟩,
          ih fun m'' hm'' => hmarks m'' (List.mem_cons_of_mem m' hm''), List.cons_append]

/-- What a text starts with after its decomposition is a mark exactly when it was. -/
theorem any_head?_flatMap_decompose (text : List Char) :
  (text.flatMap decompose).head?.any isMark = text.head?.any isMark
  := by
  cases text with
  | nil => rfl
  | cons c text =>
      rw [List.flatMap_cons, List.head?_cons, Option.any_some]
      by_cases hc : isMark c = true
      · rw [decompose_of_isMark hc, List.singleton_append, List.head?_cons, Option.any_some]
      · rw [Bool.not_eq_true] at hc
        obtain ⟨starters, marks, heq, hne, hstarters, -⟩ := exists_decompose_eq hc
        obtain ⟨d, starters, rfl⟩ := List.exists_cons_of_ne_nil hne
        rw [heq, List.cons_append, List.cons_append, List.head?_cons, Option.any_some, hc]
        apply hstarters d List.mem_cons_self

theorem any_head?_reorder {text : List Char} (h : text.head?.any isMark = false) :
  (reorder text).head?.any isMark = false
  := by
  cases text with
  | nil => rfl
  | cons d text =>
      have hd : isMark d = false := h
      rw [reorder, List.foldr_cons, hd, if_neg Bool.false_ne_true, List.head?_cons]
      exact hd

/-- A run of marks is sorted. -/
theorem reorder_marks {marks rest : List Char} (hmarks : ∀ m ∈ marks, isMark m = true)
    (hrest : rest.head?.any isMark = false) :
  reorder (marks ++ rest) = sortMarks marks ++ reorder rest
  := by
  induction marks with
  | nil => rfl
  | cons m marks ih =>
      have hall : ∀ m' ∈ marks, isMark m' = true :=
        fun m' hm' => hmarks m' (List.mem_cons_of_mem m hm')
      rw [List.cons_append, reorder_mark (hmarks m List.mem_cons_self), ih hall,
        insertMark_append _ (any_head?_reorder hrest)]
      · rfl
      · intro m' hm'
        apply hall m' ((List.mem_insertionSort _).mp hm')

/-- A mark is found again where it was inserted. -/
theorem insertMark_injective (m : Char) :
  Function.Injective (insertMark m)
  := by
  set lower : Char → Bool := fun d => isMark d ∧ combiningClass d < combiningClass m with hlower
  have hm : lower m = false := by
    rw [hlower, decide_eq_false_iff_not]
    exact fun h => lt_irrefl _ h.2
  apply Function.LeftInverse.injective (g := fun text =>
    text.takeWhile lower ++ (text.dropWhile lower).tail)
  intro text
  dsimp only
  induction text with
  | nil =>
      rw [insertMark, List.takeWhile_cons, List.dropWhile_cons, hm]
      rfl
  | cons d text ih =>
      rw [insertMark]
      by_cases hd : isMark d ∧ combiningClass d < combiningClass m
      · have hlow : lower d = true := decide_eq_true hd
        rw [if_pos hd, List.takeWhile_cons_of_pos hlow, List.dropWhile_cons_of_pos hlow,
          List.cons_append, ih]
      · rw [if_neg hd, List.takeWhile_cons, List.dropWhile_cons, hm]
        rfl

/-! ### Decomposed segments -/

theorem canonicalDecomposition_mark (h : isMark c = true) (text : List Char) :
  canonicalDecomposition (c :: text) = insertMark c (canonicalDecomposition text)
  := by
  rw [canonicalDecomposition, List.flatMap_cons, decompose_of_isMark h, List.singleton_append,
    reorder_mark h, canonicalDecomposition]

/-- A scalar that is decomposed to starters stays before the decomposition of the rest. -/
theorem canonicalDecomposition_starters (h : ∀ d ∈ decompose c, isMark d = false)
    (text : List Char) :
  canonicalDecomposition (c :: text) = decompose c ++ canonicalDecomposition text
  := by
  rw [canonicalDecomposition, List.flatMap_cons, reorder_starters h, canonicalDecomposition]

/-- A syllable and the jamo that it is composed of have the same decomposition. -/
theorem Syllable.canonicalDecomposition_eq {jamo after : List Char} {syllable : Char}
    (h : Syllable c jamo after syllable) (text : List Char) :
  canonicalDecomposition (c :: (jamo ++ text)) = decompose syllable ++ canonicalDecomposition text
    ∧ canonicalDecomposition (syllable :: text)
      = decompose syllable ++ canonicalDecomposition text
  := by
  have hjamo : ∀ d ∈ jamo, decompose d = [d] := by
    intro d hd
    apply decompose_of_continuesSyllable (continues_of_foldlM h.composed d hd)
  have hdecompose := h.decompose_eq
  have hstarters : ∀ d ∈ decompose syllable, isMark d = false := by
    obtain ⟨starters, marks, heq, -, hstarters, hmarks⟩ := exists_decompose_eq h.result.1
    -- a mark would be the last scalar, and that is a jamo
    have hnil : marks = [] := by
      rcases List.eq_nil_or_concat marks with hnil | ⟨others, m, hm⟩
      · exact hnil
      · obtain ⟨others', d, hd⟩ := (List.eq_nil_or_concat jamo).resolve_left h.nonempty
        have hlast : m = d := by
          rw [hdecompose, hm, hd, List.concat_eq_append, List.concat_eq_append,
            ← List.append_assoc, ← List.append_assoc] at heq
          exact (List.append_singleton_inj.mp heq).2.symm
        have hmark := hmarks m (by rw [hm]; simp)
        have hcontinues := continues_of_foldlM h.composed d (by rw [hd]; simp)
        rw [← hlast, (not_syllable_of_isMark hmark).2] at hcontinues
        cases hcontinues
    rw [heq, hnil, List.append_nil]
    exact hstarters
  constructor
  · rw [hdecompose] at hstarters
    rw [canonicalDecomposition_starters fun d hd => hstarters d (List.mem_append_left _ hd),
      canonicalDecomposition, List.flatMap_append, flatMap_decompose_eq_self hjamo,
      reorder_starters fun d hd => hstarters d (List.mem_append_right _ hd), hdecompose,
      List.append_assoc, canonicalDecomposition]
  · apply canonicalDecomposition_starters hstarters

/-- A starter with all marks after it: the marks that it is decomposed to are sorted with them. -/
theorem canonicalDecomposition_run {starters own marks after : List Char}
    (hdecompose : decompose c = starters ++ own) (hstarters : ∀ d ∈ starters, isMark d = false)
    (hown : ∀ m ∈ own, isMark m = true) (hmarks : ∀ m ∈ marks, isMark m = true)
    (hafter : after.head?.any isMark = false) :
  canonicalDecomposition (c :: (marks ++ after))
    = starters ++ (sortMarks (own ++ marks) ++ canonicalDecomposition after)
  := by
  have hall : ∀ m ∈ own ++ marks, isMark m = true := by
    intro m hm
    rcases List.mem_append.mp hm with hm | hm
    · apply hown m hm
    · apply hmarks m hm
  rw [canonicalDecomposition, List.flatMap_cons, List.flatMap_append, hdecompose,
    flatMap_decompose_eq_self fun m hm => decompose_of_isMark (hmarks m hm), List.append_assoc,
    reorder_starters hstarters, ← List.append_assoc own, reorder_marks hall,
    canonicalDecomposition]
  rw [any_head?_flatMap_decompose]
  exact hafter

/-! ### Blocked marks -/

/-- In the order of the classes, the first mark that is composed with the starter comes after
another mark of its class. -/
def Blocked (c : Char) (marks : List Char) : Prop :=
  ∃ before m after, sortMarks marks = before ++ m :: after
    ∧ (∀ m' ∈ before, compose c m' = none) ∧ (compose c m).isSome = true
    ∧ ∃ m' ∈ before, combiningClass m' = combiningClass m

/-- Of no scalar of the text is a mark blocked that follows it. -/
def Unblocked (text : List Char) : Prop :=
  ∀ c rest, c :: rest <:+ text → ¬ Blocked c (rest.takeWhile isMark)

theorem unblocked_cons {text : List Char} :
  Unblocked (c :: text) ↔ ¬ Blocked c (text.takeWhile isMark) ∧ Unblocked text
  := by
  constructor
  · intro h
    constructor
    · apply h c text (List.suffix_refl _)
    · intro c' rest hsuffix
      apply h c' rest (hsuffix.trans (List.suffix_cons c text))
  · rintro ⟨hhead, hrest⟩ c' rest hsuffix
    rcases List.suffix_cons_iff.mp hsuffix with heq | hsuffix
    · cases heq
      exact hhead
    · apply hrest c' rest hsuffix

/-- A scalar that is composed with no mark blocks none. -/
theorem not_blocked_of_none (h : ∀ m, compose c m = none) (marks : List Char) :
  ¬ Blocked c marks
  := by
  rintro ⟨before, m, after, -, -, hsome, -⟩
  rw [h m] at hsome
  cases hsome

/-- Scalars that are composed with no mark block none. -/
theorem unblocked_append {others text : List Char} (h : ∀ d ∈ others, ∀ m, compose d m = none) :
  Unblocked (others ++ text) ↔ Unblocked text
  := by
  induction others with
  | nil => rfl
  | cons d others ih =>
      rw [List.cons_append, unblocked_cons, ih fun d' hd' => h d' (List.mem_cons_of_mem d hd')]
      apply and_iff_right
      apply not_blocked_of_none (h d List.mem_cons_self)

/-- Neither a mark nor a scalar of a syllable is composed with a mark. -/
theorem compose_eq_none_of_not_letter (h : isMark c = true ∨ 0x1100 ≤ c.toNat) (m : Char) :
  compose c m = none
  := by
  rw [Option.eq_none_iff_forall_not_mem]
  intro result hresult
  have hmem := mem_of_compose hresult
  rcases h with hmark | hle
  · rw [(isMark_of_mem_compositions _ hmem).1] at hmark
    cases hmark
  · have hlow : c.toNat < 0x1100 := (toNat_of_mem_compositions _ hmem).1
    omega

/-- The marks up to the first one that is composed with the starter. -/
theorem blocked_iff {marks before after : List Char} {m : Char}
    (hsplit : sortMarks marks = before ++ m :: after)
    (hbefore : ∀ m' ∈ before, compose c m' = none) (hm : (compose c m).isSome = true) :
  Blocked c marks ↔ ∃ m' ∈ before, combiningClass m' = combiningClass m
  := by
  have hfirst : ∀ {before' after' : List Char} {m'' : Char},
      (∀ m' ∈ before', compose c m' = none) → (compose c m'').isSome = true →
      (before' ++ m'' :: after').takeWhile (fun m' => (compose c m').isNone) = before' := by
    intro before' after' m'' hnone hsome
    apply takeWhile_append_eq
    · intro m' hm'
      rw [hnone m' hm']
      rfl
    · rw [List.head?_cons, Option.any_some, Option.isNone_eq_false_iff]
      exact hsome
  constructor
  · rintro ⟨before', m'', after', hsplit', hbefore', hm'', m', hm', hsame⟩
    rw [hsplit] at hsplit'
    have heq := congrArg (List.takeWhile fun m' => (compose c m').isNone) hsplit'
    rw [hfirst hbefore hm, hfirst hbefore' hm''] at heq
    subst heq
    cases List.append_cancel_left hsplit'
    exact ⟨m', hm', hsame⟩
  · intro hsame
    exact ⟨before, m, after, hsplit, hbefore, hm, hsame⟩

/-- Sorted marks are sorted with others as the marks are. -/
theorem sortMarks_append_sortMarks (marks others : List Char) :
  sortMarks (marks ++ sortMarks others) = sortMarks (marks ++ others)
  := by
  induction marks with
  | nil => apply sortMarks_eq_self_iff.mpr (inClassOrder_sortMarks others)
  | cons m marks ih => exact congrArg (List.orderedInsert _ m) ih

/-- A mark goes back to its place among sorted marks exactly when none before it is of its class. -/
theorem orderedInsert_eq_iff {before after : List Char} {m : Char}
    (hordered : InClassOrder (before ++ m :: after)) (hnot : m ∉ before) :
  (before ++ after).orderedInsert (fun m m' => combiningClass m ≤ combiningClass m') m
      = before ++ m :: after
    ↔ ∀ m' ∈ before, combiningClass m' ≠ combiningClass m
  := by
  induction before with
  | nil =>
      apply iff_of_true _ fun m' hm' => absurd hm' List.not_mem_nil
      cases after with
      | nil => rfl
      | cons m' after =>
          have hle := List.rel_of_pairwise_cons hordered List.mem_cons_self
          exact if_pos hle
  | cons m' before ih =>
      obtain ⟨hall, hordered⟩ := List.pairwise_cons.mp hordered
      have hle := hall m (List.mem_append_right _ List.mem_cons_self)
      rw [List.mem_cons, not_or] at hnot
      rw [List.cons_append, List.orderedInsert_cons, List.forall_mem_cons, ← ih hordered hnot.2]
      by_cases hsame : combiningClass m ≤ combiningClass m'
      · rw [if_pos hsame]
        apply iff_of_false
        · intro heq
          exact hnot.1 (List.cons.inj heq).1
        · rintro ⟨hne, -⟩
          exact hne (Nat.le_antisymm hle hsame)
      · rw [if_neg hsame, List.cons_append, List.cons_inj_right]
        exact (and_iff_right fun heq => hsame heq.ge).symm

/-! ### Equivalent texts -/

/-- The normalized text has the decomposition of the text, and of the scalars of the text, decomposed,
none is lost and none is new. -/
structure PreservesEquivalence (text : List Char) : Prop where
  equivalent : canonicalDecomposition (nfc text) = canonicalDecomposition text
  kept : ((nfc text).flatMap decompose).Perm (text.flatMap decompose)

/-- Of the scalars of a text, decomposed, none is lost and none is new. -/
theorem perm_flatMap_decompose_nfc (text : List Char) :
  ((nfc text).flatMap decompose).Perm (text.flatMap decompose)
  := by
  induction text using text_induction with
  | hnil => rw [nfc]
  | hmark c text hc ih =>
      rw [nfc_mark hc, List.flatMap_cons, List.flatMap_cons]
      apply ih.append_left
  | hsyllable c jamo after syllable h ih =>
      have hjamo : ∀ d ∈ jamo, decompose d = [d] := by
        intro d hd
        apply decompose_of_continuesSyllable (continues_of_foldlM h.composed d hd)
      rw [nfc_syllable h, List.flatMap_cons, List.flatMap_cons, List.flatMap_append,
        flatMap_decompose_eq_self hjamo, h.decompose_eq, List.append_assoc]
      apply List.Perm.append_left
      apply ih.append_left
  | hrun c marks after h ih =>
      have hsort : (sortMarks marks).Perm marks := List.perm_insertionSort _ marks
      have hmarks : ∀ m ∈ sortMarks marks, decompose m = [m] := by
        intro m hm
        apply decompose_of_isMark (h.allMarks m (hsort.mem_iff.mp hm))
      rw [nfc_markRun h, List.cons_append, List.flatMap_cons, List.flatMap_cons,
        List.flatMap_append, List.flatMap_append,
        flatMap_decompose_eq_self fun m hm => decompose_of_isMark (h.allMarks m hm),
        ← List.append_assoc, ← List.append_assoc]
      apply List.Perm.append _ ih
      rcases composeMarks_cases c (sortMarks marks) with
        ⟨-, heq⟩ | ⟨before, m, others, composed, hsplit, -, hm, heq⟩
      · rw [heq, flatMap_decompose_eq_self hmarks]
        apply hsort.append_left
      · have hothers : ∀ m' ∈ before ++ others, decompose m' = [m'] := by
          intro m' hm'
          apply hmarks
          rw [hsplit]
          rcases List.mem_append.mp hm' with hm' | hm'
          · apply List.mem_append_left _ hm'
          · apply List.mem_append_right _ (List.mem_cons_of_mem m hm')
        rw [heq, flatMap_decompose_eq_self hothers, decompose_of_compose hm, decompose_of_base hm]
        apply List.Perm.append_left [c]
        rw [hsplit] at hsort
        exact (@List.perm_middle _ m before others).symm.trans hsort

/-- A run is equivalent to what it is composed to exactly when no mark of it is blocked. -/
theorem MarkRun.equivalent_iff {marks after : List Char} (h : MarkRun c marks after) :
  canonicalDecomposition (nfc (c :: (marks ++ after)))
      = canonicalDecomposition (c :: (marks ++ after))
    ↔ ¬ Blocked c marks ∧ canonicalDecomposition (nfc after) = canonicalDecomposition after
  := by
  have hstops : (nfc after).head?.any isMark = false := by
    rw [any_head?_nfc]
    exact h.stops
  have hsorted : ∀ m ∈ sortMarks marks, isMark m = true := by
    intro m hm
    apply h.allMarks m ((List.mem_insertionSort _).mp hm)
  rw [nfc_markRun h, List.cons_append]
  rcases composeMarks_cases c (sortMarks marks) with
    ⟨hnone, heq⟩ | ⟨before, m, others, composed, hsplit, hbefore, hm, heq⟩
  · obtain ⟨starters, own, hdecompose, -, hstarters, hown⟩ := exists_decompose_eq h.starter
    rw [heq, canonicalDecomposition_run hdecompose hstarters hown hsorted hstops,
      canonicalDecomposition_run hdecompose hstarters hown h.allMarks h.stops,
      sortMarks_append_sortMarks, List.append_cancel_left_eq, List.append_cancel_left_eq]
    apply (and_iff_right _).symm
    rintro ⟨before, m, others, hsplit, -, hsome, -⟩
    rw [hnone m (by rw [hsplit]; simp)] at hsome
    cases hsome
  · -- the letter and the mark of what is composed, and the marks that are kept
    have hmark := (of_compose hm).1
    have hkept : ∀ m' ∈ before ++ others, isMark m' = true := by
      intro m' hm'
      apply hsorted
      rw [hsplit]
      rcases List.mem_append.mp hm' with hm' | hm'
      · apply List.mem_append_left _ hm'
      · apply List.mem_append_right _ (List.mem_cons_of_mem m hm')
    have hletter : ∀ d ∈ [c], isMark d = false := by
      intro d hd
      rw [List.mem_singleton.mp hd]
      exact h.starter
    have hown : ∀ m' ∈ [m], isMark m' = true := by
      intro m' hm'
      rw [List.mem_singleton.mp hm']
      exact hmark
    have hordered := inClassOrder_sortMarks marks
    rw [hsplit] at hordered
    have hnot : m ∉ before := by
      intro hmem
      rw [hbefore m hmem] at hm
      cases hm
    have hothers : sortMarks (before ++ others) = before ++ others := by
      apply sortMarks_eq_self_iff.mpr
      apply List.Pairwise.sublist _ hordered
      apply List.Sublist.append_left
      apply List.sublist_cons_self
    have hinsert : sortMarks ([m] ++ (before ++ others))
        = (before ++ others).orderedInsert (fun m m' => combiningClass m ≤ combiningClass m') m :=
      congrArg (List.orderedInsert _ m) hothers
    rw [heq, canonicalDecomposition_run (decompose_of_compose hm) hletter hown hkept hstops,
      canonicalDecomposition_run (decompose_of_base hm) hletter
        (fun m' hm' => absurd hm' List.not_mem_nil) h.allMarks h.stops,
      List.append_cancel_left_eq, List.nil_append, hinsert, hsplit,
      blocked_iff hsplit hbefore (by rw [hm]; rfl)]
    have hiff := orderedInsert_eq_iff hordered hnot
    constructor
    · intro happend
      obtain ⟨hplace, hrest⟩ := List.append_inj happend (by
        rw [List.orderedInsert_length, List.length_append, List.length_append, List.length_cons]
        rfl)
      refine ⟨?_, hrest⟩
      rintro ⟨m', hm', hsame⟩
      exact hiff.mp hplace m' hm' hsame
    · rintro ⟨hnone, hrest⟩
      rw [hrest, hiff.mpr fun m' hm' hsame => hnone ⟨m', hm', hsame⟩]

/-- A text is equivalent to its normalized one exactly when no mark of it is blocked. -/
theorem nfc_preservesEquivalence_iff (text : List Char) :
  PreservesEquivalence text ↔ Unblocked text
  := by
  have hequivalent : canonicalDecomposition (nfc text) = canonicalDecomposition text
      ↔ Unblocked text := by
    induction text using text_induction with
    | hnil =>
        apply iff_of_true
        · rw [nfc]
        · intro c rest hsuffix
          exact absurd (List.suffix_nil.mp hsuffix) (List.cons_ne_nil c rest)
    | hmark c text hc ih =>
        rw [nfc_mark hc, canonicalDecomposition_mark hc, canonicalDecomposition_mark hc,
          (insertMark_injective c).eq_iff, ih, unblocked_cons]
        apply (and_iff_right _).symm
        apply not_blocked_of_none (compose_eq_none_of_not_letter (Or.inl hc))
    | hsyllable c jamo after syllable h ih =>
        have hjamo : ∀ d ∈ jamo, ∀ m, compose d m = none := by
          intro d hd
          have hcontinues := continuesSyllable_iff.mp (continues_of_foldlM h.composed d hd)
          apply compose_eq_none_of_not_letter (Or.inr (by omega))
        have hstarts := startsSyllable_iff.mp h.starts
        rw [nfc_syllable h, (h.canonicalDecomposition_eq after).1,
          (h.canonicalDecomposition_eq (nfc after)).2, List.append_cancel_left_eq, ih,
          unblocked_cons, unblocked_append hjamo]
        apply (and_iff_right _).symm
        apply not_blocked_of_none (compose_eq_none_of_not_letter (Or.inr (by omega)))
    | hrun c marks after h ih =>
        have hmarks : ∀ m ∈ marks, ∀ m', compose m m' = none := by
          intro m hm
          apply compose_eq_none_of_not_letter (Or.inl (h.allMarks m hm))
        rw [h.equivalent_iff, ih, unblocked_cons, takeWhile_append_eq h.allMarks h.stops,
          unblocked_append hmarks]
  constructor
  · intro h
    apply hequivalent.mp h.equivalent
  · intro h
    exact ⟨hequivalent.mpr h, perm_flatMap_decompose_nfc text⟩

/-- An acute accent is composed with the letter across an overline, which is of its class. -/
theorem overlinedAcute_not_equivalent :
  ¬ PreservesEquivalence "a\u0305\u0301".toList
  := by
  intro h
  have hne : canonicalDecomposition (nfc "a\u0305\u0301".toList)
      ≠ canonicalDecomposition "a\u0305\u0301".toList := by
    decide +kernel
  exact hne h.equivalent

end Inference
