import OpenLoops.Review.RelativeDates

/-!
# What phrases are found

The phrases for relative dates that are found in a text are the leftmost longest ones, each is the
text of consecutive words, and the parser of deadlines accepts its value.
-/

namespace Review

open Domain Selection

/-! ### Whole words -/

section

variable (T : CharTable) (text : List Char)

/-- A word stands between the places: characters of words, with none before or after. -/
structure IsWord (start stop : ℕ) : Prop where
  pos : start < stop
  le : stop ≤ text.length
  inside : ∀ i c, start ≤ i → i < stop → text[i]? = some c → isTokenCharacter T c = true
  after : ∀ c, text[stop]? = some c → isTokenCharacter T c = false
  before : ∀ i c, i + 1 = start → text[i]? = some c → isTokenCharacter T c = false

/-- The tokens are the words of the text, in their order. -/
structure WholeWords (tokens : List Token) : Prop where
  ordered : tokens.Pairwise fun a b => a.end < b.start
  isWord : ∀ token ∈ tokens, IsWord T text token.start token.end
    ∧ token = tokenAt text token.start token.end
  complete : ∀ start stop, IsWord T text start stop → tokenAt text start stop ∈ tokens

/-- The state of the tokenizer after the first characters. -/
structure Tokenized (n : ℕ) (state : List Token × Option ℕ) : Prop where
  ordered : state.1.Pairwise fun a b => a.end < b.start
  isWord : ∀ token ∈ state.1, IsWord T text token.start token.end ∧ token.end < n
    ∧ token = tokenAt text token.start token.end
  complete : ∀ start stop, IsWord T text start stop → stop < n → tokenAt text start stop ∈ state.1
  begun : ∀ start, state.2 = some start → start < n
    ∧ (∀ i c, start ≤ i → i < n → text[i]? = some c → isTokenCharacter T c = true)
    ∧ ∀ i c, i + 1 = start → text[i]? = some c → isTokenCharacter T c = false
  notBegun : state.2 = none → ∀ i c, i + 1 = n → text[i]? = some c → isTokenCharacter T c = false

variable {T text}

/-- Words that stop together start together. -/
theorem IsWord.start_unique {start start' stop : ℕ} (h : IsWord T text start stop)
    (h' : IsWord T text start' stop) :
  start = start'
  := by
  have hle : ∀ {a b : ℕ}, IsWord T text a stop → IsWord T text b stop → a ≤ b := by
    intro a b ha hb
    by_contra hlt
    obtain ⟨i, rfl⟩ : ∃ i, a = i + 1 := Nat.exists_eq_succ_of_ne_zero (by omega)
    have hpos := ha.pos
    have hstop := ha.le
    have hi : i < text.length := by omega
    have hat := List.getElem?_eq_getElem hi
    have hfalse := ha.before i _ rfl hat
    rw [hb.inside i _ (by omega) (by omega) hat] at hfalse
    cases hfalse
  exact le_antisymm (hle h h') (hle h' h)

/-- A word that is finished by the next character comes after the ones so far. -/
theorem Tokenized.end_lt {n : ℕ} {state : List Token × Option ℕ} (h : Tokenized T text n state)
    (hn : n ≤ text.length) {start : ℕ} (hstart : state.2 = some start) {token : Token} (htoken : token ∈ state.1) :
  token.end < start
  := by
  obtain ⟨hword, hlt, -⟩ := h.isWord token htoken
  obtain ⟨-, hinside, -⟩ := h.begun start hstart
  by_contra hle
  -- the character after the word would be one of the unfinished word
  have hat := List.getElem?_eq_getElem (hlt.trans_le hn)
  have hfalse := hword.after _ hat
  rw [hinside token.end _ (by omega) hlt hat] at hfalse
  cases hfalse

theorem tokenized_zero :
  Tokenized T text 0 ([], none)
  := by
  constructor
  · exact List.Pairwise.nil
  · nofun
  · nofun
  · nofun
  · intro _ i c hi
    omega

/-- One more character is tokenized. -/
theorem Tokenized.step {n : ℕ} {state : List Token × Option ℕ} (h : Tokenized T text n state)
    (hn : n < text.length) :
  Tokenized T text (n + 1) (tokenizeStep T text state (text[n], n))
  := by
  obtain ⟨tokens, start⟩ := state
  have hat : text[n]? = some text[n] := List.getElem?_eq_getElem hn
  dsimp only [tokenizeStep]
  split_ifs with hcharacter
  · -- the word goes on, or begins
    constructor
    · exact h.ordered
    · intro token htoken
      obtain ⟨hword, hlt, heq⟩ := h.isWord token htoken
      exact ⟨hword, by omega, heq⟩
    · intro s e hword he
      rcases Nat.lt_or_ge e n with hlt | hge
      · exact h.complete s e hword hlt
      · obtain rfl : e = n := by omega
        have hfalse := hword.after _ hat
        rw [hcharacter] at hfalse
        cases hfalse
    · rintro s ⟨⟩
      cases start with
      | none =>
          refine ⟨Nat.lt_succ_self n, ?_, ?_⟩
          · intro i c hle hlt hi
            obtain rfl : i = n := by
              rw [Option.getD_none] at hle
              omega
            rw [hat] at hi
            cases hi
            exact hcharacter
          · intro i c hi hic
            exact h.notBegun rfl i c hi hic
      | some s =>
          obtain ⟨hlt, hinside, hbefore⟩ := h.begun s rfl
          refine ⟨by rw [Option.getD_some]; omega, ?_, hbefore⟩
          intro i c hle hi hic
          rcases Nat.lt_or_ge i n with hin | hge
          · exact hinside i c hle hin hic
          · obtain rfl : i = n := by omega
            rw [hat] at hic
            cases hic
            exact hcharacter
    · nofun
  · rw [Bool.not_eq_true] at hcharacter
    have hlast : ∀ i c, i + 1 = n + 1 → text[i]? = some c → isTokenCharacter T c = false := by
      intro i c hi hic
      obtain rfl : i = n := by omega
      rw [hat] at hic
      cases hic
      exact hcharacter
    cases start with
    | none =>
        constructor
        · exact h.ordered
        · intro token htoken
          obtain ⟨hword, hlt, heq⟩ := h.isWord token htoken
          exact ⟨hword, by omega, heq⟩
        · intro s e hword he
          rcases Nat.lt_or_ge e n with hlt | hge
          · exact h.complete s e hword hlt
          · obtain rfl : e = n := by omega
            -- the character before is in the word, but none
            have hpos := hword.pos
            obtain ⟨i, rfl⟩ : ∃ i, e = i + 1 := Nat.exists_eq_succ_of_ne_zero (by omega)
            have hi := List.getElem?_eq_getElem (show i < text.length by omega)
            have hfalse := h.notBegun rfl i _ rfl hi
            rw [hword.inside i _ (by omega) (by omega) hi] at hfalse
            cases hfalse
        · nofun
        · intro _
          exact hlast
    | some s =>
        obtain ⟨hlt, hinside, hbefore⟩ := h.begun s rfl
        have hnew : IsWord T text s n := by
          constructor
          · exact hlt
          · exact hn.le
          · exact hinside
          · intro c hc
            rw [hat] at hc
            cases hc
            exact hcharacter
          · exact hbefore
        constructor
        · rw [List.pairwise_append]
          refine ⟨h.ordered, List.pairwise_singleton _ _, ?_⟩
          intro token htoken other hother
          rw [List.mem_singleton.mp hother]
          exact h.end_lt hn.le rfl htoken
        · intro token htoken
          rcases List.mem_append.mp htoken with hin | hin
          · obtain ⟨hword, hlt', heq⟩ := h.isWord token hin
            exact ⟨hword, by omega, heq⟩
          · rw [List.mem_singleton.mp hin]
            exact ⟨hnew, Nat.lt_succ_self n, rfl⟩
        · intro s' e hword he
          rcases Nat.lt_or_ge e n with hlt' | hge
          · exact List.mem_append_left _ (h.complete s' e hword hlt')
          · obtain rfl : e = n := by omega
            rw [hword.start_unique hnew]
            exact List.mem_append_right _ (List.mem_singleton_self _)
        · nofun
        · intro _
          exact hlast

/-- The tokens of a text are its words. -/
theorem tokenize_wholeWords (T : CharTable) (text : List Char) :
  WholeWords T text (tokenize T text)
  := by
  have hprefix : ∀ n ≤ text.length, Tokenized T text n
      ((text.zipIdx.take n).foldl (tokenizeStep T text) ([], none)) := by
    intro n
    induction n with
    | zero =>
        intro _
        exact tokenized_zero
    | succ n ih =>
        intro hn
        have hlt : n < text.zipIdx.length := by
          rw [List.length_zipIdx]
          exact hn
        rw [List.take_succ_eq_append_getElem hlt, List.foldl_append, List.getElem_zipIdx,
          Nat.zero_add]
        exact (ih (by omega)).step hn
  have hall := hprefix text.length le_rfl
  rw [List.take_of_length_le (by rw [List.length_zipIdx])] at hall
  rw [tokenize]
  generalize text.zipIdx.foldl (tokenizeStep T text) ([], none) = state at hall
  obtain ⟨tokens, start⟩ := state
  have hnone : text[text.length]? = none := List.getElem?_eq_none le_rfl
  cases start with
  | none =>
      constructor
      · exact hall.ordered
      · intro token htoken
        obtain ⟨hword, -, heq⟩ := hall.isWord token htoken
        exact ⟨hword, heq⟩
      · intro s e hword
        apply hall.complete s e hword
        by_contra hge
        have hle := hword.le
        have hpos := hword.pos
        obtain ⟨i, hi⟩ : ∃ i, text.length = i + 1 := Nat.exists_eq_succ_of_ne_zero (by omega)
        have hat := List.getElem?_eq_getElem (show i < text.length by omega)
        have hfalse := hall.notBegun rfl i _ hi.symm hat
        rw [hword.inside i _ (by omega) (by omega) hat] at hfalse
        cases hfalse
  | some s =>
      obtain ⟨hlt, hinside, hbefore⟩ := hall.begun s rfl
      have hnew : IsWord T text s text.length := by
        constructor
        · exact hlt
        · exact le_rfl
        · exact hinside
        · intro c hc
          rw [hnone] at hc
          cases hc
        · exact hbefore
      constructor
      · rw [List.pairwise_append]
        refine ⟨hall.ordered, List.pairwise_singleton _ _, ?_⟩
        intro token htoken other hother
        rw [List.mem_singleton.mp hother]
        exact hall.end_lt le_rfl rfl htoken
      · intro token htoken
        rcases List.mem_append.mp htoken with hin | hin
        · obtain ⟨hword, -, heq⟩ := hall.isWord token hin
          exact ⟨hword, heq⟩
        · rw [List.mem_singleton.mp hin]
          exact ⟨hnew, rfl⟩
      · intro s' e hword
        rcases Nat.lt_or_ge e text.length with hlt' | hge
        · exact List.mem_append_left _ (hall.complete s' e hword hlt')
        · obtain rfl : e = text.length := le_antisymm hword.le hge
          rw [hword.start_unique hnew]
          exact List.mem_append_right _ (List.mem_singleton_self _)

end

/-! ### Recognized phrases -/

/-- A phrase for a relative date stands from one word to another: the words of a pattern, or a
number of days or business days from today. -/
inductive Recognized (tokens : List Token) : PhraseMatch → Prop where
  | phrase {start : ℕ} {pattern : Pattern} (hpattern : pattern ∈ phrasePatterns)
      (hwords : ((tokens.drop start).take pattern.words.length).map (·.word) = pattern.words) :
      Recognized tokens ⟨start, start + pattern.words.length, pattern.value⟩
  | days {start count : ℕ} {first number unit : Token} (hfirst : tokens[start]? = some first)
      (hin : first.word ∈ ["in", "within"]) (hnumber : tokens[start + 1]? = some number)
      (hcount : numberValue number.word = some count) (hunit : tokens[start + 2]? = some unit)
      (hdays : unit.word = "days") :
      Recognized tokens ⟨start, start + 3, "in " ++ toString count ++ " " ++ "days"⟩
  | businessDays {start count : ℕ} {first number kind unit : Token}
      (hfirst : tokens[start]? = some first) (hin : first.word ∈ ["in", "within"])
      (hnumber : tokens[start + 1]? = some number) (hcount : numberValue number.word = some count)
      (hkind : tokens[start + 2]? = some kind) (hbusiness : kind.word ∈ ["business", "working"])
      (hunit : tokens[start + 3]? = some unit) (hdays : unit.word = "days") :
      Recognized tokens ⟨start, start + 4, "in " ++ toString count ++ " " ++ "business days"⟩

variable {tokens : List Token}

theorem patternMatch_eq_some_iff {start : ℕ} {pattern : Pattern} {m : PhraseMatch}
    (hne : pattern.words ≠ []) :
  patternMatch tokens start pattern = some m ↔
    ((tokens.drop start).take pattern.words.length).map (·.word) = pattern.words
      ∧ m = ⟨start, start + pattern.words.length, pattern.value⟩
  := by
  have hslice : (tokens.take (start + pattern.words.length)).drop start
      = (tokens.drop start).take pattern.words.length := by
    rw [List.drop_take, Nat.add_sub_cancel_left]
  rw [patternMatch, hslice]
  constructor
  · intro h
    split_ifs at h with hboth
    cases h
    exact ⟨hboth.2, rfl⟩
  · rintro ⟨hwords, rfl⟩
    rw [if_pos]
    refine ⟨?_, hwords⟩
    have hlength := congrArg List.length hwords
    rw [List.length_map, List.length_take, List.length_drop] at hlength
    have hpos := List.length_pos_iff.mpr hne
    omega

/-- The unit is days, or business days. -/
theorem countUnit_eq_some_iff {start stop : ℕ} {unit : String} :
  countUnit tokens start = some (stop, unit) ↔
    (∃ kind last, tokens[start + 2]? = some kind ∧ kind.word ∈ ["business", "working"]
        ∧ tokens[start + 3]? = some last ∧ last.word = "days"
        ∧ stop = start + 4 ∧ unit = "business days")
      ∨ ∃ last, tokens[start + 2]? = some last ∧ last.word = "days"
        ∧ stop = start + 3 ∧ unit = "days"
  := by
  rw [countUnit]
  constructor
  · intro h
    obtain ⟨kind, hkind, h⟩ := Option.bind_eq_some_iff.mp h
    split_ifs at h with hbusiness hdays
    · cases h
      obtain ⟨hin, hlast⟩ := hbusiness
      cases hunit : tokens[start + 3]? with
      | none =>
          rw [hunit] at hlast
          cases hlast
      | some last =>
          rw [hunit, Option.any_some, decide_eq_true_iff] at hlast
          exact Or.inl ⟨kind, last, hkind, hin, rfl, hlast, rfl, rfl⟩
    · cases h
      exact Or.inr ⟨kind, hkind, hdays, rfl, rfl⟩
  · rintro (⟨kind, last, hkind, hin, hlast, hdays, rfl, rfl⟩ | ⟨last, hlast, hdays, rfl, rfl⟩)
    · apply Option.bind_eq_some_iff.mpr
      refine ⟨kind, hkind, ?_⟩
      rw [if_pos ⟨hin, by rw [hlast, Option.any_some, decide_eq_true_iff]; exact hdays⟩]
    · apply Option.bind_eq_some_iff.mpr
      refine ⟨last, hlast, ?_⟩
      rw [if_neg, if_pos hdays]
      rintro ⟨hin, -⟩
      rw [hdays] at hin
      revert hin
      decide

theorem countMatch_eq_some_iff {start : ℕ} {m : PhraseMatch} :
  countMatch tokens start = some m ↔ ∃ first number count stop unit,
    tokens[start]? = some first ∧ first.word ∈ ["in", "within"]
      ∧ tokens[start + 1]? = some number ∧ numberValue number.word = some count
      ∧ countUnit tokens start = some (stop, unit)
      ∧ m = ⟨start, stop, "in " ++ toString count ++ " " ++ unit⟩
  := by
  rw [countMatch]
  constructor
  · intro h
    obtain ⟨count, hcount, h⟩ := Option.bind_eq_some_iff.mp h
    obtain ⟨number, hnumber, hcount⟩ := Option.bind_eq_some_iff.mp hcount
    obtain ⟨⟨stop, unit⟩, hunit, h⟩ := Option.bind_eq_some_iff.mp h
    obtain ⟨first, hfirst, h⟩ := Option.bind_eq_some_iff.mp h
    split_ifs at h with hin
    cases h
    exact ⟨first, number, count, stop, unit, hfirst, hin, hnumber, hcount, hunit, rfl⟩
  · rintro ⟨first, number, count, stop, unit, hfirst, hin, hnumber, hcount, hunit, rfl⟩
    apply Option.bind_eq_some_iff.mpr
    refine ⟨count, Option.bind_eq_some_iff.mpr ⟨number, hnumber, hcount⟩, ?_⟩
    apply Option.bind_eq_some_iff.mpr
    refine ⟨(stop, unit), hunit, ?_⟩
    apply Option.bind_eq_some_iff.mpr
    refine ⟨first, hfirst, ?_⟩
    rw [if_pos hin]

/-- A phrase that is not white space has words. -/
theorem words_pattern_ne_nil {phrase : String} {c : Char} (hc : c ∈ phrase.toList)
    (hplain : isWhitespace c = false) (value : String) :
  (pattern phrase value).words ≠ []
  := by
  obtain ⟨word, hword, -⟩ := exists_mem_splitWhitespace hc hplain
  apply List.ne_nil_of_mem (List.mem_map_of_mem hword)

theorem words_weekdayPatterns_ne_nil {weekday : String} {c : Char} (hc : c ∈ weekday.toList)
    (hplain : isWhitespace c = false) :
  ∀ pattern ∈ weekdayPatterns weekday, pattern.words ≠ []
  := by
  have hphrase : ∀ before after : String,
      (pattern (before ++ weekday ++ after) weekday).words ≠ [] := by
    intro before after
    apply words_pattern_ne_nil (c := c) _ hplain
    rw [String.toList_append, String.toList_append]
    exact List.mem_append_left _ (List.mem_append_right _ hc)
  intro p hp
  obtain ⟨before, after, rfl⟩ : ∃ before after, p = pattern (before ++ weekday ++ after) weekday := by
    simp only [weekdayPatterns, List.mem_append, List.mem_cons, List.mem_map, List.mem_flatMap,
      List.not_mem_nil, or_false] at hp
    rcases hp with (rfl | ⟨before, -, rfl⟩) | ⟨suffix, -, rfl | rfl | ⟨before, -, rfl | rfl⟩⟩
    · exact ⟨"", "", by rw [String.empty_append, String.append_empty]⟩
    · exact ⟨before ++ " ", "", by rw [String.append_empty]⟩
    · exact ⟨"", " " ++ suffix, by rw [String.empty_append, String.append_assoc]⟩
    · exact ⟨suffix ++ " ", "", by rw [String.append_empty]⟩
    · exact ⟨before ++ " ", " " ++ suffix, by simp only [String.append_assoc]⟩
    · exact ⟨before ++ " " ++ suffix ++ " ", "", by rw [String.append_empty]⟩
  apply hphrase

/-- Patterns have words. -/
theorem words_ne_nil :
  ∀ pattern ∈ phrasePatterns, pattern.words ≠ []
  := by
  have hphrase : ∀ {phrases : List String} {value : String} {p : Pattern},
      (∀ phrase ∈ phrases, ∃ c ∈ phrase.toList, isWhitespace c = false) →
      p ∈ phrases.map (pattern · value) → p.words ≠ [] := by
    intro phrases value p hletter hp
    obtain ⟨phrase, hmem, rfl⟩ := List.mem_map.mp hp
    obtain ⟨c, hc, hplain⟩ := hletter phrase hmem
    apply words_pattern_ne_nil hc hplain
  have hletter : ∀ weekday ∈ weekdays, ∃ c ∈ weekday.toList, isWhitespace c = false := by decide
  intro p hp
  simp only [phrasePatterns, List.mem_append] at hp
  rcases hp with ((((hp | hp) | hp) | hp) | hp) | hp
  · exact hphrase (by decide) hp
  · exact hphrase (by decide) hp
  · exact hphrase (by decide) hp
  · exact hphrase (by decide) hp
  · exact hphrase (by decide) hp
  · obtain ⟨weekday, hweekday, hp⟩ := List.mem_flatMap.mp hp
    obtain ⟨c, hc, hplain⟩ := hletter weekday hweekday
    apply words_weekdayPatterns_ne_nil hc hplain _ hp

/-- What is recognized is what is collected. -/
theorem mem_collectMatches_iff {m : PhraseMatch} :
  m ∈ collectMatches tokens phrasePatterns ↔ Recognized tokens m
  := by
  rw [collectMatches, List.mem_flatMap]
  constructor
  · rintro ⟨start, -, hm⟩
    rcases List.mem_append.mp hm with hm | hm
    · obtain ⟨pattern, hpattern, hm⟩ := List.mem_filterMap.mp hm
      obtain ⟨hwords, rfl⟩ := (patternMatch_eq_some_iff (words_ne_nil pattern hpattern)).mp hm
      exact .phrase hpattern hwords
    · obtain ⟨first, number, count, stop, unit, hfirst, hin, hnumber, hcount, hunit, rfl⟩ :=
        countMatch_eq_some_iff.mp (Option.mem_toList.mp hm)
      rcases countUnit_eq_some_iff.mp hunit with
        ⟨kind, last, hkind, hbusiness, hlast, hdays, rfl, rfl⟩ | ⟨last, hlast, hdays, rfl, rfl⟩
      · exact .businessDays hfirst hin hnumber hcount hkind hbusiness hlast hdays
      · exact .days hfirst hin hnumber hcount hlast hdays
  · have hcounted : ∀ {start : ℕ} {first : Token}, tokens[start]? = some first →
        countMatch tokens start = some m →
        ∃ start ∈ List.range tokens.length, m ∈ phrasePatterns.filterMap (patternMatch tokens start)
          ++ (countMatch tokens start).toList := by
      intro start first hfirst hm
      refine ⟨start, List.mem_range.mpr (List.getElem?_eq_some_iff.mp hfirst).1,
        List.mem_append_right _ (Option.mem_toList.mpr hm)⟩
    intro hm
    cases hm with
    | @phrase start pattern hpattern hwords =>
        refine ⟨start, ?_, List.mem_append_left _ (List.mem_filterMap.mpr ⟨pattern, hpattern,
          (patternMatch_eq_some_iff (words_ne_nil pattern hpattern)).mpr ⟨hwords, rfl⟩⟩)⟩
        rw [List.mem_range]
        have hlength := congrArg List.length hwords
        rw [List.length_map, List.length_take, List.length_drop] at hlength
        have hpos := List.length_pos_iff.mpr (words_ne_nil pattern hpattern)
        omega
    | days hfirst hin hnumber hcount hunit hdays =>
        apply hcounted hfirst
        exact countMatch_eq_some_iff.mpr ⟨_, _, _, _, _, hfirst, hin, hnumber, hcount,
          countUnit_eq_some_iff.mpr (Or.inr ⟨_, hunit, hdays, rfl, rfl⟩), rfl⟩
    | businessDays hfirst hin hnumber hcount hkind hbusiness hunit hdays =>
        apply hcounted hfirst
        exact countMatch_eq_some_iff.mpr ⟨_, _, _, _, _, hfirst, hin, hnumber, hcount,
          countUnit_eq_some_iff.mpr
            (Or.inl ⟨_, _, hkind, hbusiness, hunit, hdays, rfl, rfl⟩), rfl⟩

/-- What is recognized has words, and all of them are there. -/
theorem Recognized.bounds {m : PhraseMatch} (h : Recognized tokens m) :
  m.start < m.end ∧ m.end ≤ tokens.length
  := by
  cases h with
  | @phrase start pattern hpattern hwords =>
      have hlength := congrArg List.length hwords
      rw [List.length_map, List.length_take, List.length_drop] at hlength
      have hpos := List.length_pos_iff.mpr (words_ne_nil pattern hpattern)
      dsimp only
      omega
  | days hfirst hin hnumber hcount hunit hdays =>
      have hlt := (List.getElem?_eq_some_iff.mp hunit).1
      dsimp only
      omega
  | businessDays hfirst hin hnumber hcount hkind hbusiness hunit hdays =>
      have hlt := (List.getElem?_eq_some_iff.mp hunit).1
      dsimp only
      omega

/-! ### Accepted values -/

/-- The values of the patterns are of the calendar. -/
theorem calendarTokens_pattern {pattern : Pattern} (h : pattern ∈ phrasePatterns) :
  CalendarTokens (relativeTokens pattern.value)
  := by
  have hvalue : ∀ pattern ∈ phrasePatterns, pattern.value ∈
      ["today", "tomorrow", "next week", "end of week", "next business day"] ++ weekdays := by
    decide +kernel
  have hwords : ∀ value ∈
      ["today", "tomorrow", "next week", "end of week", "next business day"] ++ weekdays,
      relativeTokens value ∈
        [["today"], ["tomorrow"], ["next", "week"], ["end", "of", "week"],
          ["next", "business", "day"], ["sunday"], ["monday"], ["tuesday"], ["wednesday"],
          ["thursday"], ["friday"], ["saturday"]] := by
    decide
  have hmem := hwords _ (hvalue pattern h)
  simp only [List.mem_cons, List.not_mem_nil, or_false] at hmem
  rcases hmem with h | h | h | h | h | h | h | h | h | h | h | h
  · exact h ▸ .today
  · exact h ▸ .tomorrow
  · exact h ▸ .nextWeek
  · exact h ▸ .endOfWeek
  · exact h ▸ .nextBusinessDay
  · exact h ▸ .sunday
  · exact h ▸ .monday
  · exact h ▸ .tuesday
  · exact h ▸ .wednesday
  · exact h ▸ .thursday
  · exact h ▸ .friday
  · exact h ▸ .saturday

/-- The number of a word is within the bound of the parser. -/
theorem numberValue_le {word : String} {count : ℕ} (h : numberValue word = some count) :
  count ≤ maximumRelativeDayCount
  := by
  rw [numberValue, Option.filter_eq_some_iff, decide_eq_true_iff] at h
  exact h.2

/-- A count within the bound is accepted as it is written. -/
theorem parseBoundedCount_toString {count : ℕ} (h : count ≤ maximumRelativeDayCount) :
  parseBoundedCount (toString count) = .ok count
  := by
  have hdigits : isAsciiDigits (toString count).toList = true := by
    rw [isAsciiDigits, Nat.toString_eq_repr, Nat.toList_repr]
    simp only [Bool.and_eq_true, decide_eq_true_eq, List.all_eq_true]
    refine ⟨Nat.toDigits_ne_nil, ?_⟩
    intro c hc
    exact Nat.isDigit_of_mem_toDigits (by decide) le_rfl hc
  have hparse : parseBelow (2 ^ 32) (toString count).toList = some count := by
    rw [parseBelow, Nat.toString_eq_repr, Nat.toList_repr, Nat.ofDigitChars_ten_toDigits]
    rw [maximumRelativeDayCount] at h
    exact if_pos (by omega)
  rw [parseBoundedCount, if_neg (not_not.mpr hdigits), hparse]
  exact if_neg (Nat.not_lt.mpr h)

/-- Words that are written with small letters and without white space. -/
def Plain (word : List Char) : Prop :=
  word ≠ [] ∧ ∀ c ∈ word, isWhitespace c = false ∧ c.toLower = c

theorem plain_toString (count : ℕ) :
  Plain (toString count).toList
  := by
  rw [Nat.toString_eq_repr, Nat.toList_repr]
  refine ⟨Nat.toDigits_ne_nil, ?_⟩
  intro c hc
  have hdigit := Nat.isDigit_of_mem_toDigits (by decide) le_rfl hc
  refine ⟨?_, toLower_of_isDigit hdigit⟩
  have hnat : c.toNat = c.val.toNat := rfl
  simp only [Char.isDigit, Bool.and_eq_true, decide_eq_true_eq, ge_iff_le,
    UInt32.le_iff_toNat_le] at hdigit
  have hzero : '0'.val.toNat = 48 := rfl
  have hnine : '9'.val.toNat = 57 := rfl
  simp only [isWhitespace, Bool.or_eq_false_iff, Bool.and_eq_false_iff, decide_eq_false_iff_not]
  omega

/-- The words of an expression are read as they are written. -/
theorem relativeTokens_joinWords {words : List (List Char)} (h : ∀ word ∈ words, Plain word) :
  relativeTokens (String.ofList (joinWords words)) = words.map String.ofList
  := by
  have hplain : ∀ word ∈ words, word ≠ [] ∧ ∀ c ∈ word, isWhitespace c = false := by
    intro word hword
    obtain ⟨hne, hall⟩ := h word hword
    exact ⟨hne, fun c hc => (hall c hc).1⟩
  have hlower : toAsciiLowercase (joinWords words) = joinWords words := by
    have hmem : ∀ c ∈ joinWords words, c.toLower = c := by
      intro c hc
      rcases mem_joinWords hc with rfl | ⟨word, hword, hc⟩
      · rfl
      · exact ((h word hword).2 c hc).2
    calc (joinWords words).map Char.toLower = (joinWords words).map id := List.map_congr_left hmem
      _ = joinWords words := List.map_id _
  rw [relativeTokens, String.toList_ofList, trim_joinWords hplain, hlower,
    splitWhitespace_joinWords hplain]

/-- The values of numbers of days are of the calendar. -/
theorem calendarTokens_count {count : ℕ} (h : count ≤ maximumRelativeDayCount) :
  CalendarTokens (relativeTokens ("in " ++ toString count ++ " " ++ "days"))
    ∧ CalendarTokens (relativeTokens ("in " ++ toString count ++ " " ++ "business days"))
  := by
  have hparse := parseBoundedCount_toString h
  have hplain : ∀ words ∈ [["days".toList], ["business".toList, "days".toList]],
      ∀ word ∈ "in".toList :: (toString count).toList :: words, Plain word := by
    intro words hwords word hword
    have hclosed : ∀ word ∈ ["in".toList, "days".toList, "business".toList], Plain word := by
      simp only [Plain]
      decide
    have hunits : ∀ words ∈ [["days".toList], ["business".toList, "days".toList]],
        ∀ word ∈ words, word ∈ ["in".toList, "days".toList, "business".toList] := by
      decide
    rcases List.mem_cons.mp hword with rfl | hword
    · exact hclosed _ (by decide)
    · rcases List.mem_cons.mp hword with rfl | hword
      · exact plain_toString count
      · exact hclosed word (hunits words hwords word hword)
  constructor
  · have hwords : "in " ++ toString count ++ " " ++ "days"
        = String.ofList (joinWords ["in".toList, (toString count).toList, "days".toList]) := by
      rw [← String.toList_inj]
      simp [joinWords, List.intercalate]
    rw [hwords, relativeTokens_joinWords (hplain ["days".toList] (by decide))]
    exact .days (by rwa [String.ofList_toList])
  · have hwords : "in " ++ toString count ++ " " ++ "business days"
        = String.ofList (joinWords ["in".toList, (toString count).toList, "business".toList,
          "days".toList]) := by
      rw [← String.toList_inj]
      simp [joinWords, List.intercalate]
    rw [hwords,
      relativeTokens_joinWords (hplain ["business".toList, "days".toList] (by decide))]
    exact .businessDays (by rwa [String.ofList_toList])

/-- The value of what is recognized is accepted. -/
theorem Recognized.calendarTokens {m : PhraseMatch} (h : Recognized tokens m) :
  CalendarTokens (relativeTokens m.value)
  := by
  cases h with
  | phrase hpattern hwords => exact calendarTokens_pattern hpattern
  | days hfirst hin hnumber hcount hunit hdays =>
      exact (calendarTokens_count (numberValue_le hcount)).1
  | businessDays hfirst hin hnumber hcount hkind hbusiness hunit hdays =>
      exact (calendarTokens_count (numberValue_le hcount)).2

/-! ### Taken words -/

/-- The words that are taken are those of the matches that took them. -/
structure Marks (n : ℕ) (taken : Taken) : Prop where
  length_eq : taken.1.length = n
  bounds : ∀ m ∈ taken.2, m.start < m.end ∧ m.end ≤ n
  marks : ∀ k, taken.1[k]? = some true ↔ ∃ m ∈ taken.2, m.start ≤ k ∧ k < m.end

/-- A word of the match is taken exactly when the match overlaps with one that took words. -/
theorem Marks.any_iff {n : ℕ} {taken : Taken} (h : Marks n taken) {candidate : PhraseMatch}
    (hpos : candidate.start < candidate.end) :
  ((taken.1.take candidate.end).drop candidate.start).any id = true ↔
    ∃ m ∈ taken.2, Overlap PhraseMatch.start PhraseMatch.end m candidate
  := by
  rw [List.any_eq_true]
  constructor
  · rintro ⟨mark, hmark, htrue⟩
    rw [id_eq] at htrue
    subst htrue
    obtain ⟨k, hstart, hstop, hk⟩ := mem_drop_take_iff.mp hmark
    obtain ⟨m, hm, hle, hlt⟩ := (h.marks k).mp hk
    exact ⟨m, hm, by rw [Overlap]; omega⟩
  · rintro ⟨m, hm, hstart, hstop⟩
    obtain ⟨hmpos, -⟩ := h.bounds m hm
    refine ⟨true, mem_drop_take_iff.mpr ⟨max m.start candidate.start, le_max_right _ _, ?_, ?_⟩, rfl⟩
    · exact max_lt hstart hpos
    · exact (h.marks _).mpr ⟨m, hm, le_max_left _ _, max_lt hmpos hstop⟩

/-- The words of one more match are marked as taken. -/
theorem Marks.takeMatch {n : ℕ} {taken : Taken} (h : Marks n taken) {candidate : PhraseMatch}
    (hpos : candidate.start < candidate.end) (hle : candidate.end ≤ n) :
  Marks n (Review.takeMatch taken candidate)
    ∧ (Review.takeMatch taken candidate).2
      = Selection.select PhraseMatch.start PhraseMatch.end taken.2 candidate
  := by
  obtain ⟨used, matched⟩ := taken
  rw [Selection.select]
  have hany := h.any_iff hpos
  dsimp only [Review.takeMatch] at hany ⊢
  split_ifs with htaken hoverlap hoverlap
  · exact ⟨h, rfl⟩
  · exact absurd (hany.mp htaken) hoverlap
  · exact absurd (hany.mpr hoverlap) htaken
  · refine ⟨?_, rfl⟩
    have hlength : used.length = n := h.length_eq
    constructor
    · simp only [List.length_append, List.length_take, List.length_replicate, List.length_drop]
      omega
    · intro m hm
      rcases List.mem_append.mp hm with hm | hm
      · exact h.bounds m hm
      · rw [List.mem_singleton.mp hm]
        exact ⟨hpos, hle⟩
    · intro k
      have hmarks := h.marks k
      dsimp only at hmarks ⊢
      have hsplit : (∃ m ∈ matched ++ [candidate], m.start ≤ k ∧ k < m.end) ↔
          (∃ m ∈ matched, m.start ≤ k ∧ k < m.end) ∨ candidate.start ≤ k ∧ k < candidate.end := by
        constructor
        · rintro ⟨m, hm, hin⟩
          rcases List.mem_append.mp hm with hm | hm
          · exact Or.inl ⟨m, hm, hin⟩
          · rw [List.mem_singleton.mp hm] at hin
            exact Or.inr hin
        · rintro (⟨m, hm, hin⟩ | hin)
          · exact ⟨m, List.mem_append_left _ hm, hin⟩
          · exact ⟨candidate, List.mem_append_right _ (List.mem_singleton_self _), hin⟩
      rw [hsplit, ← hmarks]
      rcases Nat.lt_or_ge k candidate.start with hbefore | hfrom
      · rw [List.append_assoc, List.getElem?_append_left (by rw [List.length_take]; omega),
          List.getElem?_take_of_lt hbefore]
        exact (or_iff_left (by omega)).symm
      · rcases Nat.lt_or_ge k candidate.end with hin | hafter
        · rw [List.getElem?_append_left (by
              rw [List.length_append, List.length_take, List.length_replicate]; omega),
            List.getElem?_append_right (by rw [List.length_take]; omega), List.length_take,
            List.getElem?_replicate, if_pos (by omega)]
          exact iff_of_true rfl (Or.inr ⟨hfrom, hin⟩)
        · rw [List.getElem?_append_right (by
              rw [List.length_append, List.length_take, List.length_replicate]; omega),
            List.getElem?_drop, List.length_append, List.length_take, List.length_replicate]
          rw [show candidate.end + (k - (min candidate.start used.length
            + (candidate.end - candidate.start))) = k by omega]
          exact (or_iff_left (by omega)).symm

/-- The matches that are taken are the leftmost longest ones of what is recognized. -/
theorem takenMatches_leftmostLongest (tokens : List Token) :
  LeftmostLongest PhraseMatch.start PhraseMatch.end (Recognized tokens) (takenMatches tokens)
  := by
  have hmem : Recognized tokens = (· ∈ collectMatches tokens phrasePatterns) := by
    funext m
    rw [mem_collectMatches_iff]
  have hselected := @leftmostLongest_foldl _ PhraseMatch.start PhraseMatch.end
    (collectMatches tokens phrasePatterns) fun m hm => (mem_collectMatches_iff.mp hm).bounds.1
  have hsame : ∀ candidates : List PhraseMatch, (∀ m ∈ candidates, Recognized tokens m) →
      ∀ taken : Taken, Marks tokens.length taken →
        (candidates.foldl takeMatch taken).2
          = candidates.foldl (Selection.select PhraseMatch.start PhraseMatch.end) taken.2 := by
    intro candidates
    induction candidates with
    | nil =>
        intro _ taken _
        rfl
    | cons candidate candidates ih =>
        intro hall taken htaken
        obtain ⟨hpos, hle⟩ := (hall candidate List.mem_cons_self).bounds
        obtain ⟨hmarks, hselect⟩ := htaken.takeMatch hpos hle
        rw [List.foldl_cons, List.foldl_cons,
          ih (fun m hm => hall m (List.mem_cons_of_mem candidate hm)) _ hmarks, hselect]
  rw [hmem, takenMatches, hsame]
  · exact hselected
  · intro m hm
    apply mem_collectMatches_iff.mp
    exact (KeyOrder.sort_perm _ _).mem_iff.mp hm
  · constructor
    · apply List.length_replicate
    · nofun
    · intro k
      apply iff_of_false
      · rw [List.getElem?_replicate]
        split_ifs <;> simp
      · rintro ⟨m, hm, -⟩
        cases hm

/-! ### Phrases that are found -/

/-- The text of a match: that of the words from its first to its last one, with single spaces for
white space. -/
def IsTextOf (text : List Char) (tokens : List Token) (m : PhraseMatch) (matched : String) : Prop :=
  ∃ first last, tokens[m.start]? = some first ∧ tokens[m.end - 1]? = some last
    ∧ matched = String.ofList (joinWords (splitWhitespace (slice text first.start last.end)))

/-- The relative dates of a text are found exactly.  They are the leftmost longest of the phrases
that its words have; each is found with the text of its words; and its value is accepted in every
context in range. -/
theorem findRelativeDatePhrases_exact (T : CharTable) (text : List Char) :
  ∃ tokens selected phrases, WholeWords T text tokens
    ∧ LeftmostLongest PhraseMatch.start PhraseMatch.end (Recognized tokens) selected
    ∧ findRelativeDatePhrases T text = some phrases
    ∧ List.Forall₂ (fun m phrase => phrase.1 = m.value ∧ IsTextOf text tokens m phrase.2)
      selected phrases
    ∧ ∀ phrase ∈ phrases, ∀ context : ParseContext, context.InRange →
      ∃ parsed, reparse .relative phrase.1 context = .ok parsed
  := by
  have hselected := takenMatches_leftmostLongest (tokenize T text)
  have hphrase : ∀ m ∈ takenMatches (tokenize T text), ∃ phrase : String × String,
      (phraseText text (tokenize T text) m).map (fun matched => (m.value, matched)) = some phrase
        ∧ phrase.1 = m.value ∧ IsTextOf text (tokenize T text) m phrase.2 := by
    intro m hm
    obtain ⟨hpos, hle⟩ := (hselected.present m hm).bounds
    have hfirst := List.getElem?_eq_getElem (show m.start < (tokenize T text).length by omega)
    have hlast := List.getElem?_eq_getElem (show m.end - 1 < (tokenize T text).length by omega)
    refine ⟨(m.value, String.ofList (joinWords (splitWhitespace
      (slice text (tokenize T text)[m.start].start (tokenize T text)[m.end - 1].end)))), ?_, rfl,
      _, _, hfirst, hlast, rfl⟩
    rw [phraseText, hfirst, hlast]
    rfl
  obtain ⟨phrases, hphrases, hforall⟩ := Option.exists_mapM_eq_some hphrase
  refine ⟨tokenize T text, takenMatches (tokenize T text), phrases, tokenize_wholeWords T text,
    hselected, ?_, hforall, ?_⟩
  · rw [findRelativeDatePhrases]
    split_ifs with hnone
    · -- without words there is nothing to take
      have hempty : takenMatches (tokenize T text) = [] := by
        rw [hnone]
        rfl
      rw [hempty] at hphrases
      rw [← hphrases]
      rfl
    · exact hphrases
  · intro phrase hphrase context hcontext
    obtain ⟨m, hm, hvalue, -⟩ := hforall.exists_mem_left hphrase
    rw [hvalue]
    exact (hselected.present m hm).calendarTokens.reparse_eq_ok hcontext

end Review
