import Mathlib.Data.List.DropRight
import OpenLoops.Desktop.NameForms
import OpenLoops.Library.Scanning

/-!
# Matches

Of all the known forms that stand at a place as whole words, the best one is found; it is only
passed over when it is a given name that is also a word of English and starts a sentence.
-/

namespace Desktop

variable {T : CharTable}

/-! ### Whole words -/

/-- The term stands at the place, between characters that are not part of words. -/
theorem wholeWordMatchAt_iff {before rest term : Text} :
  wholeWordMatchAt T before rest term = true ↔ term ≠ [] ∧ ∃ after, rest = term ++ after
    ∧ before.head?.any (isWordCharacter T) = false
    ∧ after.head?.any (isWordCharacter T) = false
  := by
  simp only [wholeWordMatchAt, Bool.and_eq_true, decide_eq_true_eq, List.isPrefixOf_iff_prefix,
    Bool.not_eq_true']
  constructor
  · rintro ⟨⟨⟨hne, after, rfl⟩, hbefore⟩, hafter⟩
    rw [List.drop_left] at hafter
    exact ⟨hne, after, rfl, hbefore, hafter⟩
  · rintro ⟨hne, after, rfl, hbefore, hafter⟩
    rw [List.drop_left]
    exact ⟨⟨⟨hne, List.prefix_append term after⟩, hbefore⟩, hafter⟩

/-- Of two terms that stand at a place as whole words, the longer one is no single word. -/
theorem exists_not_word_of_length_lt {before rest term term' : Text}
    (h : wholeWordMatchAt T before rest term = true)
    (h' : wholeWordMatchAt T before rest term' = true) (hlt : term.length < term'.length) :
  ∃ c ∈ term', isWordCharacter T c = false
  := by
  obtain ⟨-, after, rfl, -, hafter⟩ := wholeWordMatchAt_iff.mp h
  obtain ⟨-, after', heq, -, -⟩ := wholeWordMatchAt_iff.mp h'
  have hget : (term ++ after)[term.length]? = term'[term.length]? := by
    rw [heq, List.getElem?_append_left hlt]
  rw [List.getElem?_append_right le_rfl, Nat.sub_self, List.getElem?_eq_getElem hlt] at hget
  use term'[term.length], List.getElem_mem hlt
  rw [← List.head?_eq_getElem?] at hget
  simpa [hget] using hafter

/-- Terms of one length that stand at a place are the same. -/
theorem eq_of_length_eq {before rest term term' : Text}
    (h : wholeWordMatchAt T before rest term = true)
    (h' : wholeWordMatchAt T before rest term' = true) (hlength : term.length = term'.length) :
  term = term'
  := by
  obtain ⟨-, after, rfl, -, -⟩ := wholeWordMatchAt_iff.mp h
  obtain ⟨-, after', heq, -, -⟩ := wholeWordMatchAt_iff.mp h'
  exact (List.append_inj heq hlength).1

/-- The given names that are words of English are single words. -/
theorem isWordCharacter_of_englishGivenName {name : Text}
    (h : toAsciiLowercase name ∈ englishGivenNames) :
  ∀ c ∈ name, isWordCharacter T c = true
  := by
  intro c hc
  have hletters : ∀ word ∈ englishGivenNames, ∀ c ∈ word, c.isLower = true := by decide
  have hlower : c.toLower.isLower = true :=
    hletters _ h c.toLower (List.mem_map_of_mem hc)
  have halphanum : c.isAlphanum = true := by
    rw [Char.isAlphanum, isAlpha_of_isLower_toLower hlower]
    rfl
  rw [isWordCharacter, T.isAlphanumeric_ascii (toNat_lt_of_isAlphanum halphanum), halphanum]
  rfl

/-! ### The best match -/

def MatchKind.rank : MatchKind → ℕ
  | full => 2
  | family => 1
  | given => 0

/-- The match is longer, or as long and of a kind that comes first, or of a person that does. -/
def NameMatch.Beats (m m' : NameMatch) : Prop :=
  m'.length < m.length ∨ (m.length = m'.length ∧ (m'.kind.rank < m.kind.rank
    ∨ (m.kind.rank = m'.kind.rank ∧ m.personIndex < m'.personIndex)))

theorem isBetterMatch_iff {m m' : NameMatch} :
  isBetterMatch m (some m') = true ↔ m.Beats m'
  := by
  obtain ⟨length, personIndex, kind⟩ := m
  obtain ⟨length', personIndex', kind'⟩ := m'
  cases kind with
  | full => cases kind' <;> simp [isBetterMatch, NameMatch.Beats, MatchKind.rank]
  | family => cases kind' <;> simp [isBetterMatch, NameMatch.Beats, MatchKind.rank]
  | given => cases kind' <;> simp [isBetterMatch, NameMatch.Beats, MatchKind.rank]

/-- The best one of the matches so far; there is none when there are no matches. -/
structure IsBest (seen : List NameMatch) (best : Option NameMatch) : Prop where
  none : best = none → seen = []
  mem : ∀ m, best = some m → m ∈ seen
  best : ∀ m, best = some m → ∀ m' ∈ seen, ¬ m'.Beats m

/-- Another match may be the best one. -/
theorem IsBest.concat {seen : List NameMatch} {best : Option NameMatch} (h : IsBest seen best)
    (m : NameMatch) :
  IsBest (seen ++ [m]) (if isBetterMatch m best then some m else best)
  := by
  rcases best with _ | current
  · obtain rfl := h.none rfl
    constructor
    · exact nofun
    · rintro _ ⟨⟩
      apply List.mem_singleton_self
    · rintro _ ⟨⟩ m' hm'
      obtain rfl := List.mem_singleton.mp hm'
      simp [NameMatch.Beats]
  · split_ifs with hbetter
    · rw [isBetterMatch_iff] at hbetter
      constructor
      · exact nofun
      · rintro _ ⟨⟩
        apply List.mem_append_right
        apply List.mem_singleton_self
      · rintro _ ⟨⟩ m' hm'
        rcases List.mem_append.mp hm' with hm' | hm'
        · have hworse := h.best current rfl m' hm'
          simp only [NameMatch.Beats] at hbetter hworse ⊢
          omega
        · obtain rfl := List.mem_singleton.mp hm'
          simp [NameMatch.Beats]
    · rw [isBetterMatch_iff] at hbetter
      constructor
      · exact nofun
      · exact fun m' hm' => List.mem_append_left _ (h.mem m' hm')
      · rintro _ ⟨⟩ m' hm'
        rcases List.mem_append.mp hm' with hm' | hm'
        · exact h.best current rfl m' hm'
        · obtain rfl := List.mem_singleton.mp hm'
          exact hbetter

namespace NameCipher

/-- The best one of the matches of the forms is found. -/
theorem foldl_betterMatch_isBest {cipher : NameCipher} {before rest : Text}
    (lookups : List NameLookup) {seen : List NameMatch} {best : Option NameMatch}
    (h : IsBest seen best) :
  IsBest (seen ++ lookups.filterMap (cipher.matchOf T before rest))
    (lookups.foldl (cipher.betterMatch T before rest) best)
  := by
  induction lookups generalizing seen best with
  | nil => simpa using h
  | cons lookup lookups ih =>
      rw [List.foldl_cons, betterMatch]
      rcases hmatch : cipher.matchOf T before rest lookup with _ | m
      · rw [List.filterMap_cons_none hmatch]
        apply ih h
      · rw [List.filterMap_cons_some hmatch, List.append_cons]
        apply ih (h.concat m)

/-- The matches of forms that are found by the first character. -/
theorem matchOf_eq_some {cipher : NameCipher} {before rest : Text} {lookup : NameLookup}
    {m : NameMatch} :
  cipher.matchOf T before rest lookup = some m ↔ ∃ form, cipher.form lookup = some form
    ∧ wholeWordMatchAt T before rest form = true
    ∧ ¬ (lookup.part = .given ∧ toAsciiLowercase form ∈ englishGivenNames
      ∧ startsSentence before = true)
    ∧ m = ⟨form.length, lookup.personIndex, lookup.part.matchKind⟩
  := by
  rw [matchOf, Option.bind_eq_some_iff]
  constructor
  · rintro ⟨form, hform, hmatch⟩
    split_ifs at hmatch with hreject
    · simp only [Bool.or_eq_true, Bool.not_eq_true', Bool.and_eq_true, decide_eq_true_eq,
        not_or, Bool.not_eq_false, and_assoc] at hreject
      exact ⟨form, hform, hreject.1, hreject.2, (Option.some.inj hmatch).symm⟩
  · rintro ⟨form, hform, hword, hreject, rfl⟩
    use form, hform
    rw [if_neg]
    simpa [hword] using hreject

/-- The form stands at the place as a whole word. -/
def StandsAt (T : CharTable) (cipher : NameCipher) (before rest : Text) (lookup : NameLookup)
    (form : Text) : Prop :=
  cipher.Knows lookup form ∧ wholeWordMatchAt T before rest form = true

/-- The form is a given name that is also a word of English, at the start of a sentence. -/
def PassedOver (before : Text) (lookup : NameLookup) (form : Text) : Prop :=
  lookup.part = .given ∧ toAsciiLowercase form ∈ englishGivenNames
    ∧ startsSentence before = true

/-- The match of a form. -/
def formMatch (lookup : NameLookup) (form : Text) : NameMatch :=
  ⟨form.length, lookup.personIndex, lookup.part.matchKind⟩

variable {cipher : NameCipher} {before rest : Text}

/-- The forms that are found by the first character are those that may stand at the place. -/
theorem bestNameMatch_isBest (cipher : NameCipher) (before : Text) (first : Char) (rest : Text) :
  IsBest (((cipher.nameForms.filter fun entry => entry.1 = first).map Prod.snd).filterMap
      (cipher.matchOf T before (first :: rest)))
    (cipher.bestNameMatch T before (first :: rest))
  := by
  have hnone : IsBest ([] : List NameMatch) none := ⟨fun _ => rfl, nofun, nofun⟩
  exact foldl_betterMatch_isBest
    ((cipher.nameForms.filter fun entry => entry.1 = first).map Prod.snd) hnone

/-- A form that stands at the place is among those that are found by the first character. -/
theorem StandsAt.mem (hindexed : cipher.Indexed) {first : Char} {lookup : NameLookup} {form : Text}
    (h : cipher.StandsAt T before (first :: rest) lookup form) :
  lookup ∈ (cipher.nameForms.filter fun entry => entry.1 = first).map Prod.snd
  := by
  obtain ⟨hknows, hword⟩ := h
  obtain ⟨hne, after, heq, -, -⟩ := wholeWordMatchAt_iff.mp hword
  have hfirst : form.head? = some first := by
    rcases form with _ | ⟨c, form⟩
    · exact absurd rfl hne
    · cases heq
      rfl
  rw [List.mem_map]
  use (first, lookup)
  rw [List.mem_filter]
  exact ⟨⟨(hindexed.mem_iff first lookup).mpr ⟨form, hknows, hfirst⟩, by simp⟩, rfl⟩

/-- The match of a form that stands at the place and is not passed over. -/
theorem StandsAt.matchOf {lookup : NameLookup} {form : Text}
    (h : cipher.StandsAt T before rest lookup form) (hkept : ¬ PassedOver before lookup form) :
  cipher.matchOf T before rest lookup = some (formMatch lookup form)
  := matchOf_eq_some.mpr ⟨form, h.1.1, h.2, hkept, rfl⟩

/-- Where nothing is found, only given names stand that are passed over. -/
theorem passedOver_of_bestNameMatch_eq_none (hindexed : cipher.Indexed)
    (h : cipher.bestNameMatch T before rest = none) {lookup : NameLookup} {form : Text}
    (hstands : cipher.StandsAt T before rest lookup form) :
  PassedOver before lookup form
  := by
  rcases rest with _ | ⟨first, rest⟩
  · obtain ⟨hne, after, heq, -, -⟩ := wholeWordMatchAt_iff.mp hstands.2
    exact absurd (List.append_eq_nil_iff.mp heq.symm).1 hne
  by_contra hkept
  have hbest := bestNameMatch_isBest (T := T) cipher before first rest
  have hmem := List.mem_filterMap.mpr ⟨lookup, hstands.mem hindexed, hstands.matchOf hkept⟩
  rw [hbest.none h] at hmem
  cases hmem

/-- A form that is passed over does not beat one that is found at the place. -/
theorem not_beats_of_passedOver {lookup lookup' : NameLookup} {form form' : Text}
    (h : cipher.StandsAt T before rest lookup form) (hkept : ¬ PassedOver before lookup form)
    (h' : cipher.StandsAt T before rest lookup' form') (hpassed : PassedOver before lookup' form') :
  ¬ (formMatch lookup' form').Beats (formMatch lookup form)
  := by
  obtain ⟨hgiven, henglish, hstarts⟩ := hpassed
  have hkind : (formMatch lookup' form').kind = .given := by
    rw [formMatch, hgiven]
    rfl
  rintro (hlonger | ⟨hlength, hfirst | ⟨hsame, -⟩⟩)
  · obtain ⟨c, hc, hother⟩ := exists_not_word_of_length_lt h.2 h'.2 hlonger
    rw [isWordCharacter_of_englishGivenName henglish c hc] at hother
    cases hother
  · rw [hkind] at hfirst
    cases hfirst
  · -- The form that is found is the same given name.
    have heq : form' = form := eq_of_length_eq h'.2 h.2 hlength
    apply hkept
    refine ⟨?_, heq ▸ henglish, hstarts⟩
    rw [hkind] at hsame
    rcases lookup with ⟨i, j, index | _ | _⟩
    · cases hsame
    · cases hsame
    · rfl

/-- What is found is the best one of all forms that stand at the place. -/
theorem bestNameMatch_eq_some (hindexed : cipher.Indexed) {m : NameMatch}
    (h : cipher.bestNameMatch T before rest = some m) :
  ∃ lookup form, cipher.StandsAt T before rest lookup form ∧ ¬ PassedOver before lookup form
    ∧ m = formMatch lookup form ∧ ∀ lookup' form', cipher.StandsAt T before rest lookup' form' →
      ¬ (formMatch lookup' form').Beats m
  := by
  rcases rest with _ | ⟨first, rest⟩
  · cases h
  have hbest := bestNameMatch_isBest (T := T) cipher before first rest
  obtain ⟨lookup, hlookup, hmatch⟩ := List.mem_filterMap.mp (hbest.mem m h)
  obtain ⟨form, hform, hword, hkept, rfl⟩ := matchOf_eq_some.mp hmatch
  have hknows : cipher.Knows lookup form := by
    obtain ⟨⟨first', lookup'⟩, hentry, rfl⟩ := List.mem_map.mp hlookup
    obtain ⟨form', hknows, -⟩ := (hindexed.mem_iff _ _).mp (List.mem_filter.mp hentry).1
    obtain rfl : form' = form := Option.some.inj (hknows.1.symm.trans hform)
    exact hknows
  refine ⟨lookup, form, ⟨hknows, hword⟩, hkept, rfl, ?_⟩
  intro lookup' form' hstands
  by_cases hpassed : PassedOver before lookup' form'
  · exact not_beats_of_passedOver ⟨hknows, hword⟩ hkept hstands hpassed
  · apply hbest.best _ h
    exact List.mem_filterMap.mpr ⟨lookup', hstands.mem hindexed, hstands.matchOf hpassed⟩

end NameCipher

end Desktop
