import OpenLoops.Inference.Normalization
import OpenLoops.Library.Runs

/-!
# White space of blocks

The text of a block is finalized in passes: spaces beside a line feed are taken away, then runs of
spaces and of line feeds are shortened, and the ends are trimmed.  Whether a space is beside a line
feed is judged before any is taken away: of two spaces beside a line feed one is left beside it.
-/

namespace Inference

open Runs

/-! ### Finalized texts -/

/-- A tab or a form feed is a space. -/
def foldSpace (c : Char) : Char :=
  if c = '\t' ∨ c = '\u000C' then ' ' else c

/-- Take away the spaces directly before or after a line feed, as the text is; the scalar before
the text, if there is one. -/
def stripSpaces (before : Option Char) : List Char → List Char
  | [] => []
  | c :: rest =>
      let touchesBefore := before = some '\n'
      let touchesAfter := rest.head? = some '\n'
      if c = ' ' ∧ (touchesBefore ∨ touchesAfter) then stripSpaces (some c) rest
      else c :: stripSpaces (some c) rest

/-- The scalar is a space or a line feed. -/
def isBlank (c : Char) : Bool :=
  c = ' ' || c = '\n'

def finalize (input : List Char) : List Char :=
  let step1 := input.map foldSpace
  let step2 := stripSpaces none step1
  let step3 := limitRuns ' ' 1 step2
  let step4 := limitRuns '\n' 2 step3
  trimMatches isBlank step4

/-- Line feeds that are merged by the spaces between them are shortened together. -/
example : finalize "A\n\n  \nB".toList = "A\n\nB".toList := by decide

/-- A space may stand beside the other scalar, unless the other is a line feed. -/
def Apart (c d : Char) : Prop :=
  ¬ (c = ' ' ∧ d = '\n') ∧ ¬ (c = '\n' ∧ d = ' ')

/-- No space is beside a line feed or a space, no three line feeds are in a row, and neither a space
nor a line feed is at an end. -/
structure IsNormal (text : List Char) : Prop where
  apart : text.IsChain Apart
  spaces : AtMost ' ' 1 text
  lineFeeds : AtMost '\n' 2 text
  head : ∀ c, text.head? = some c → isBlank c = false
  last : ∀ c, text.getLast? = some c → isBlank c = false

/-! ### Spaces beside line feeds -/

theorem stripSpaces_sublist (before : Option Char) (text : List Char) :
  (stripSpaces before text).Sublist text
  := by
  induction text generalizing before with
  | nil => exact List.Sublist.refl []
  | cons c text ih =>
      rw [stripSpaces]
      split_ifs
      · apply (ih (some c)).cons
      · apply (ih (some c)).cons_cons

/-- Of the scalar before a text only whether it is a line feed counts. -/
theorem stripSpaces_congr {before before' : Option Char}
    (h : before = some '\n' ↔ before' = some '\n') (text : List Char) :
  stripSpaces before text = stripSpaces before' text
  := by
  cases text with
  | nil => rfl
  | cons c text =>
      simp only [stripSpaces, h]

/-- The spaces before a scalar that is not blank and after it are taken away by themselves. -/
theorem stripSpaces_append_cons {c : Char} (hc : isBlank c = false) (before : Option Char)
    (text rest : List Char) :
  stripSpaces before (text ++ c :: rest) = stripSpaces before text ++ c :: stripSpaces none rest
  := by
  rw [isBlank, Bool.or_eq_false_iff, decide_eq_false_iff_not, decide_eq_false_iff_not] at hc
  induction text generalizing before with
  | nil =>
      rw [List.nil_append, stripSpaces.eq_2, if_neg fun h => hc.1 h.1]
      apply congrArg (c :: ·)
      apply stripSpaces_congr
      exact iff_of_false (fun h => hc.2 (Option.some_inj.mp h)) nofun
  | cons d text ih =>
      have hhead : (text ++ c :: rest).head? = some '\n' ↔ text.head? = some '\n' := by
        cases text with
        | nil => exact iff_of_false (fun h => hc.2 (Option.some_inj.mp h)) nofun
        | cons e text => rfl
      simp only [List.cons_append, stripSpaces, hhead, ih]
      split_ifs
      · rfl
      · rfl

/-- Nothing is taken away where no space is beside a line feed. -/
theorem stripSpaces_eq_self {before : Option Char} {text : List Char} (h : text.IsChain Apart)
    (hbefore : before = some '\n' → text.head? ≠ some ' ') :
  stripSpaces before text = text
  := by
  induction text generalizing before with
  | nil => rfl
  | cons c text ih =>
      obtain ⟨hhead, hrest⟩ := List.isChain_cons.mp h
      rw [stripSpaces]
      rw [if_neg, ih hrest]
      · rintro heq hspace
        exact (hhead ' ' hspace).2 ⟨Option.some_inj.mp heq, rfl⟩
      · rintro ⟨rfl, htouches | htouches⟩
        · exact hbefore htouches rfl
        · exact (hhead '\n' htouches).1 ⟨rfl, rfl⟩

/-- What is left of a text after some of it. -/
theorem exists_stripSpaces_append (before : Option Char) (text rest : List Char) :
  ∃ kept before', stripSpaces before (text ++ rest) = kept ++ stripSpaces before' rest
  := by
  induction text generalizing before with
  | nil => exact ⟨[], before, rfl⟩
  | cons c text ih =>
      obtain ⟨kept, before', heq⟩ := ih (some c)
      rw [List.cons_append, stripSpaces]
      rw [heq]
      split_ifs
      · exact ⟨kept, before', rfl⟩
      · exact ⟨c :: kept, before', rfl⟩

/-- A scalar that is left is of the text, and if it is a space, no line feed is beside it. -/
theorem exists_of_stripSpaces_eq {before : Option Char} {text kept rest : List Char} {c : Char}
    (h : stripSpaces before text = kept ++ c :: rest) :
  ∃ front back, text = front ++ c :: back ∧ stripSpaces (some c) back = rest
    ∧ (c = ' ' → front.getLast?.or before ≠ some '\n' ∧ back.head? ≠ some '\n')
  := by
  induction text generalizing before kept with
  | nil => exact absurd h.symm (List.append_ne_nil_of_right_ne_nil _ (List.cons_ne_nil _ _))
  | cons d text ih =>
      have hlast : ∀ front : List Char,
          (d :: front).getLast?.or before = front.getLast?.or (some d) := by
        intro front
        cases front with
        | nil => rfl
        | cons e front => rw [List.getLast?_cons_cons, List.getLast?_cons, Option.some_or,
            Option.some_or]
      rw [stripSpaces] at h
      split_ifs at h with htouches
      · obtain ⟨front, back, rfl, hback, hspace⟩ := ih h
        refine ⟨d :: front, back, rfl, hback, ?_⟩
        rw [hlast]
        exact hspace
      · cases kept with
        | nil =>
            cases h
            refine ⟨[], text, rfl, rfl, ?_⟩
            rintro rfl
            rw [not_and, not_or] at htouches
            exact htouches rfl
        | cons e kept =>
            obtain ⟨rfl, hrest⟩ := List.cons.inj h
            obtain ⟨front, back, rfl, hback, hspace⟩ := ih hrest
            refine ⟨d :: front, back, rfl, hback, ?_⟩
            rw [hlast]
            exact hspace

/-- Two spaces in a row beside a line feed are all that is between two. -/
def SpacesFit (text : List Char) : Prop :=
  ∀ c, c ≠ '\n' → ¬ ['\n', ' ', ' ', c] <:+: text ∧ ¬ [c, ' ', ' ', '\n'] <:+: text

/-- No space is left beside a line feed exactly when two spaces in a row beside one are all that is
between two. -/
theorem isChain_stripSpaces_iff {text : List Char}
    (hhead : ∀ c, text.head? = some c → isBlank c = false)
    (hlast : ∀ c, text.getLast? = some c → isBlank c = false) :
  (stripSpaces none text).IsChain Apart ↔ SpacesFit text
  := by
  constructor
  · intro h c hc
    constructor
    · -- the first space is taken away, and the second is left
      rintro ⟨front, back, rfl⟩
      obtain ⟨kept, before, heq⟩ :=
        exists_stripSpaces_append none front ('\n' :: ' ' :: ' ' :: c :: back)
      have hleft : stripSpaces before ('\n' :: ' ' :: ' ' :: c :: back)
          = '\n' :: ' ' :: stripSpaces (some ' ') (c :: back) := by
        simp [stripSpaces, hc]
      have happend : front ++ ['\n', ' ', ' ', c] ++ back
          = front ++ '\n' :: ' ' :: ' ' :: c :: back := by
        simp
      rw [happend, heq, hleft] at h
      exact (List.isChain_append_cons_cons.mp h).2.1.2 ⟨rfl, rfl⟩
    · -- the second space is taken away, and the first is left
      rintro ⟨front, back, rfl⟩
      obtain ⟨kept, before, heq⟩ :=
        exists_stripSpaces_append none front (c :: ' ' :: ' ' :: '\n' :: back)
      have hleft : ∃ own, stripSpaces before (c :: ' ' :: ' ' :: '\n' :: back)
          = own ++ ' ' :: '\n' :: stripSpaces (some '\n') back := by
        rw [stripSpaces]
        split_ifs
        · exact ⟨[], by simp [stripSpaces, hc]⟩
        · exact ⟨[c], by simp [stripSpaces, hc]⟩
      obtain ⟨own, hleft⟩ := hleft
      have happend : front ++ [c, ' ', ' ', '\n'] ++ back
          = front ++ c :: ' ' :: ' ' :: '\n' :: back := by
        simp
      rw [happend, heq, hleft, ← List.append_assoc] at h
      exact (List.isChain_append_cons_cons.mp h).2.1.1 ⟨rfl, rfl⟩
  · intro h
    rw [List.isChain_iff_forall_rel_of_append_cons_cons]
    intro a b kept rest heq
    obtain ⟨front, back, rfl, hback, hspace⟩ := exists_of_stripSpaces_eq heq
    constructor
    · rintro ⟨rfl, rfl⟩
      obtain ⟨hfront, hnext⟩ := hspace rfl
      -- the scalar after the space is another one, that was taken away before the line feed
      cases back with
      | nil => cases hback
      | cons d back =>
          rw [stripSpaces] at hback
          split_ifs at hback with htouches
          · obtain ⟨rfl, hlineFeed | hlineFeed⟩ := htouches
            · cases hlineFeed
            · obtain ⟨back, rfl⟩ := List.head?_eq_some_iff.mp hlineFeed
              rcases List.eq_nil_or_concat front with rfl | ⟨front, c, rfl⟩
              · cases hhead ' ' rfl
              · rw [List.concat_eq_append, List.getLast?_append, List.getLast?_singleton,
                  Option.some_or, Option.some_or] at hfront
                apply (h c fun hc => hfront (congrArg some hc)).2
                exact ⟨front, back, by simp⟩
          · cases hback
            exact hnext rfl
    · rintro ⟨rfl, rfl⟩
      -- the scalar after the line feed is a space, and the one that is left is the next
      cases back with
      | nil => cases hback
      | cons d back =>
          rw [stripSpaces] at hback
          split_ifs at hback with htouches
          · obtain ⟨rfl, -⟩ := htouches
            cases back with
            | nil => cases hback
            | cons e back =>
                rw [stripSpaces] at hback
                split_ifs at hback with htouches
                · obtain ⟨rfl, hlineFeed | hlineFeed⟩ := htouches
                  · cases hlineFeed
                  · obtain ⟨back, rfl⟩ := List.head?_eq_some_iff.mp hlineFeed
                    simp [stripSpaces] at hback
                · obtain ⟨rfl, -⟩ := List.cons.inj hback
                  cases back with
                  | nil =>
                      have hblank := hlast ' ' (by simp)
                      cases hblank
                  | cons c back =>
                      have hc : c ≠ '\n' := by
                        rintro rfl
                        exact htouches ⟨rfl, Or.inr rfl⟩
                      apply (h c hc).1
                      exact ⟨front, back, by simp⟩
          · obtain ⟨rfl, -⟩ := List.cons.inj hback
            exact htouches ⟨rfl, Or.inl rfl⟩

/-! ### Normal forms -/

/-- The passes on a text that has no blanks around it. -/
def tidy (text : List Char) : List Char :=
  limitRuns '\n' 2 (limitRuns ' ' 1 (stripSpaces none text))

theorem tidy_sublist (text : List Char) :
  (tidy text).Sublist text
  := (limitRuns_sublist _).trans ((limitRuns_sublist _).trans (stripSpaces_sublist none text))

/-- What is before a scalar that is not blank and after it is tidied by itself. -/
theorem tidy_append_cons {c : Char} (hc : isBlank c = false) (text rest : List Char) :
  tidy (text ++ c :: rest) = tidy text ++ c :: tidy rest
  := by
  have hne : c ≠ ' ' ∧ c ≠ '\n' := by
    rw [isBlank, Bool.or_eq_false_iff, decide_eq_false_iff_not, decide_eq_false_iff_not] at hc
    exact hc
  rw [tidy, stripSpaces_append_cons hc, limitRuns_append_cons hne.1, limitRuns_append_cons hne.2,
    tidy, tidy]

/-- The blanks around a text are tidied by themselves. -/
theorem tidy_blanks {before text after : List Char} (hne : text ≠ [])
    (hhead : ∀ c, text.head? = some c → isBlank c = false)
    (hlast : ∀ c, text.getLast? = some c → isBlank c = false) :
  tidy (before ++ (text ++ after)) = tidy before ++ (tidy text ++ tidy after)
  := by
  have hafter : tidy (text ++ after) = tidy text ++ tidy after := by
    rcases List.eq_nil_or_concat text with rfl | ⟨front, c, rfl⟩
    · exact absurd rfl hne
    · have hc := hlast c (by simp)
      rw [List.concat_eq_append, List.append_assoc, List.singleton_append, tidy_append_cons hc,
        tidy_append_cons hc, List.append_assoc]
      rfl
  obtain ⟨c, rest, rfl⟩ := List.exists_cons_of_ne_nil hne
  have hc := hhead c rfl
  have hfirst : tidy (c :: (rest ++ after)) = c :: tidy (rest ++ after) :=
    tidy_append_cons hc [] (rest ++ after)
  calc tidy (before ++ (c :: rest ++ after))
      = tidy before ++ c :: tidy (rest ++ after) := tidy_append_cons hc before (rest ++ after)
    _ = tidy before ++ (tidy (c :: rest) ++ tidy after) := by rw [← hfirst, ← hafter]; rfl

/-- The ends of a text that are not blank stay. -/
theorem ends_tidy {text : List Char} (hhead : ∀ c, text.head? = some c → isBlank c = false)
    (hlast : ∀ c, text.getLast? = some c → isBlank c = false) :
  (tidy text).head? = text.head? ∧ (tidy text).getLast? = text.getLast?
  := by
  constructor
  · cases text with
    | nil => rfl
    | cons c rest =>
        have hfirst : tidy (c :: rest) = c :: tidy rest := tidy_append_cons (hhead c rfl) [] rest
        rw [hfirst]
        rfl
  · rcases List.eq_nil_or_concat text with rfl | ⟨front, c, rfl⟩
    · rfl
    · rw [List.concat_eq_append, tidy_append_cons (hlast c (by simp)), List.getLast?_append,
        List.getLast?_append]
      rfl

/-- The white space within a text is tidied, and the blanks around it are trimmed. -/
theorem finalize_eq (text : List Char) :
  finalize text = tidy (trimMatches isBlank (text.map foldSpace))
  := by
  have hsteps : finalize text = trimMatches isBlank (tidy (text.map foldSpace)) := rfl
  have hblank : ∀ blanks : List Char, (∀ c ∈ blanks, isBlank c = true) →
      ∀ c ∈ tidy blanks, isBlank c = true :=
    fun blanks hblanks c hc => hblanks c ((tidy_sublist blanks).mem hc)
  obtain ⟨before, after, hsplit, hbefore, hafter, hhead, hlast⟩ :=
    trimMatches_split isBlank (text.map foldSpace)
  set core := trimMatches isBlank (text.map foldSpace)
  rw [hsteps, hsplit]
  rcases eq_or_ne core [] with hnil | hne
  · rw [hnil, List.nil_append]
    apply trimMatches_eq_nil
    apply hblank
    intro c hc
    rcases List.mem_append.mp hc with hc | hc
    · apply hbefore c hc
    · apply hafter c hc
  · obtain ⟨hheads, hlasts⟩ := ends_tidy hhead hlast
    rw [tidy_blanks hne hhead hlast, trimMatches_append _ (hblank before hbefore)
      (hblank after hafter)]
    · rw [hheads]
      exact hhead
    · rw [hlasts]
      exact hlast
    · intro hnil
      rw [hnil] at hheads
      exact hne (List.head?_eq_none_iff.mp hheads.symm)

/-- A tidied text is in normal form exactly when no space is left beside a line feed. -/
theorem isNormal_tidy_iff {text : List Char}
    (hhead : ∀ c, text.head? = some c → isBlank c = false)
    (hlast : ∀ c, text.getLast? = some c → isBlank c = false) :
  IsNormal (tidy text) ↔ SpacesFit text
  := by
  have hspace : Apart ' ' ' ' := by
    constructor
    · rintro ⟨-, ⟨⟩⟩
    · rintro ⟨⟨⟩, -⟩
  have hlineFeed : Apart '\n' '\n' := by
    constructor
    · rintro ⟨⟨⟩, -⟩
    · rintro ⟨-, ⟨⟩⟩
  have hchain : (tidy text).IsChain Apart ↔ SpacesFit text := by
    rw [tidy, isChain_limitRuns_iff hlineFeed (by decide), isChain_limitRuns_iff hspace (by decide),
      isChain_stripSpaces_iff hhead hlast]
  obtain ⟨hheads, hlasts⟩ := ends_tidy hhead hlast
  constructor
  · intro h
    apply hchain.mp h.apart
  · intro h
    refine ⟨hchain.mpr h, ?_, atMost_limitRuns _ _ _, ?_, ?_⟩
    · rw [tidy, atMost_one_iff, isChain_limitRuns_iff _ (by decide), ← atMost_one_iff]
      · apply atMost_limitRuns
      · rintro ⟨⟨⟩, -⟩
    · rw [hheads]
      exact hhead
    · rw [hlasts]
      exact hlast

/-- A text in normal form without tabs and form feeds is its own finalized text. -/
theorem IsNormal.finalize_eq_self {text : List Char} (h : IsNormal text)
    (hfold : ∀ c ∈ text, foldSpace c = c) :
  finalize text = text
  := by
  have hmap : text.map foldSpace = text := (List.map_congr_left hfold).trans (List.map_id text)
  have hstrip : stripSpaces none text = text := by
    apply stripSpaces_eq_self h.apart
    rintro ⟨⟩
  rw [finalize_eq, hmap, trimMatches_eq_self h.head h.last, tidy, hstrip,
    limitRuns_eq_self h.spaces, limitRuns_eq_self h.lineFeeds]

/-- A finalized text has no tabs and form feeds. -/
theorem foldSpace_of_mem_finalize {text : List Char} {c : Char} (h : c ∈ finalize text) :
  foldSpace c = c
  := by
  rw [finalize_eq] at h
  obtain ⟨before, after, hsplit, -⟩ := trimMatches_split isBlank (text.map foldSpace)
  have hmem : c ∈ text.map foldSpace := by
    rw [hsplit]
    apply List.mem_append_right
    apply List.mem_append_left
    apply (tidy_sublist _).mem h
  obtain ⟨d, -, rfl⟩ := List.mem_map.mp hmem
  rw [foldSpace, foldSpace]
  split_ifs with hd hspace
  · rfl
  · rfl
  · rfl

/-- Finalized texts are in normal form, and their own finalized texts, exactly when two spaces in a
row beside a line feed are all that is between two, in the text without the blanks around it. -/
theorem finalize_exact (text : List Char) :
  IsNormal (finalize text) ∧ finalize (finalize text) = finalize text
    ↔ SpacesFit (trimMatches isBlank (text.map foldSpace))
  := by
  obtain ⟨before, after, -, -, -, hhead, hlast⟩ :=
    trimMatches_split isBlank (text.map foldSpace)
  rw [← isNormal_tidy_iff hhead hlast, ← finalize_eq]
  constructor
  · rintro ⟨hnormal, -⟩
    exact hnormal
  · intro hnormal
    refine ⟨hnormal, hnormal.finalize_eq_self ?_⟩
    intro c hc
    apply foldSpace_of_mem_finalize hc

/-- One of the two spaces before a line feed is left before it, and goes the next time. -/
theorem twoSpaces_not_final :
  ¬ IsNormal (finalize "A  \nB".toList)
    ∧ finalize (finalize "A  \nB".toList) ≠ finalize "A  \nB".toList
  := by
  have hleft : finalize "A  \nB".toList = "A \nB".toList := by decide
  constructor
  · intro h
    have hapart : (['A'] ++ ' ' :: '\n' :: ['B']).IsChain Apart := by
      rw [show ['A'] ++ ' ' :: '\n' :: ['B'] = "A \nB".toList from rfl, ← hleft]
      exact h.apart
    exact (List.isChain_append_cons_cons.mp hapart).2.1.1 ⟨rfl, rfl⟩
  · decide

end Inference
