import OpenLoops.Library.Packing
import OpenLoops.Library.Paragraphs

/-!
# Reply history

A paragraph that looks like the header of an earlier message starts the history of a reply.  The
body of a message is divided there: what follows in the same block is packed to quotes, of which
there are only so many, and the other blocks stay as they are.
-/

namespace Inference

open Lines (lines splitBlank joinParagraphs)
open Packing (Packer IsPacked)

/-! ### Markers -/

/-- The text starts with another one, but for capital letters of ASCII. -/
def startsWithAsciiCi (text start : List Char) : Bool :=
  toAsciiLowercase (text.take start.length) = toAsciiLowercase start

/-- The line is a rule of ten or more underscores. -/
def isUnderscoreSeparator (line : List Char) : Bool :=
  let trimmed := trim line
  10 ≤ trimmed.length && trimmed.all (· = '_')

/-- The text without the white space in front of it. -/
def trimStart (text : List Char) : List Char :=
  text.dropWhile isWhitespace

def originalMessage : List Char := "-----Original Message-----".toList

def hasSubjectAndSentLines (lines : List (List Char)) : Bool :=
  let hasSubject := lines.any fun line => startsWithAsciiCi (trimStart line) "Subject:".toList
  let hasSentOrDate := lines.any fun line =>
    let text := trimStart line
    startsWithAsciiCi text "Sent:".toList || startsWithAsciiCi text "Date:".toList
  hasSubject && hasSentOrDate

/-- The paragraph with a number starts the history of a reply: its first line says so, or the first
one that is no rule names a sender, and a subject and a date follow within three paragraphs. -/
def isReplyHistoryStart (paragraphs : List (List Char)) (index : ℕ) : Bool :=
  match paragraphs[index]? with
  | none => false
  | some paragraph =>
      match (lines paragraph).filter fun line => trim line ≠ [] with
      | [] => false
      | firstLine :: others =>
          if trim firstLine = originalMessage then true
          else
            let significant := (firstLine :: others).find? fun line =>
              !(decide (trim line = originalMessage) || isUnderscoreSeparator (trim line))
            match significant with
            | none => false
            | some firstSignificant =>
                if startsWithAsciiCi (trimStart firstSignificant) "From:".toList then
                  hasSubjectAndSentLines (((paragraphs.drop index).take 4).flatMap lines)
                else false

/-! ### Chunks -/

def replyHistoryChunkMaxChars : ℕ := 4096

def replyHistoryMaxChunks : ℕ := 8

/-- How paragraphs of history are packed. -/
def historyPacker : Packer where
  separator := ['\n', '\n']
  limit := replyHistoryChunkMaxChars
  room chunks := chunks < replyHistoryMaxChunks

def chunkReplyHistory (paragraphs : List (List Char)) : List (List Char) :=
  Packing.pack historyPacker paragraphs

/-- The chunks of paragraphs. -/
theorem exists_chunkReplyHistory (paragraphs : List (List Char)) :
  ∃ groups, IsPacked historyPacker 0 paragraphs groups
    ∧ chunkReplyHistory paragraphs = groups.map joinParagraphs
  := Packing.exists_isPacked_pack paragraphs rfl

/-- There are eight chunks at most. -/
theorem length_le_of_isPacked {paragraphs : List (List Char)} {groups : List (List (List Char))}
    (h : IsPacked historyPacker 0 paragraphs groups) :
  groups.length ≤ 8
  := by
  rcases Nat.eq_zero_or_pos groups.length with hzero | hpos
  · omega
  · have hroom := h.room (groups.length - 1) (Nat.sub_one_lt hpos.ne')
    rw [historyPacker] at hroom
    have hlt := of_decide_eq_true hroom
    rw [replyHistoryMaxChunks] at hlt
    omega

/-- Where there is no room for one more chunk, there are eight. -/
theorem length_eq_of_isPacked {paragraphs : List (List Char)} {groups : List (List (List Char))}
    (h : IsPacked historyPacker 0 paragraphs groups)
    (hroom : historyPacker.room (0 + groups.length) = false) :
  groups.length = 8
  := by
  rw [historyPacker] at hroom
  have hge := of_decide_eq_false hroom
  rw [replyHistoryMaxChunks] at hge
  have hle := length_le_of_isPacked h
  omega

/-- The chunks of paragraphs that are not empty are at most eight, each is within the limit or a
single longer paragraph, and together they are the first of the paragraphs, or all of them when
there are fewer than eight chunks. -/
theorem chunkReplyHistory_spec (paragraphs : List (List Char)) (hne : [] ∉ paragraphs) :
  (chunkReplyHistory paragraphs).length ≤ 8
    ∧ (∀ chunk ∈ chunkReplyHistory paragraphs, chunk.length ≤ 4096
      ∨ (chunk ∈ paragraphs ∧ 4096 < chunk.length))
    ∧ ∃ count ≤ paragraphs.length,
      joinParagraphs (chunkReplyHistory paragraphs) = joinParagraphs (paragraphs.take count)
      ∧ (count = paragraphs.length ∨ (chunkReplyHistory paragraphs).length = 8)
  := by
  obtain ⟨groups, hpacked, heq⟩ := exists_chunkReplyHistory paragraphs
  obtain ⟨rest, hsplit, hrest⟩ := hpacked.flatten_eq hne
  rw [heq, List.length_map]
  refine ⟨length_le_of_isPacked hpacked, ?_, groups.flatten.length, ?_, ?_, ?_⟩
  · intro chunk hchunk
    obtain ⟨group, hgroup, rfl⟩ := List.mem_map.mp hchunk
    rcases (hpacked.pieces group hgroup).2.sized with hle | ⟨item, rfl, hlt⟩
    · exact Or.inl hle
    · right
      rw [joinParagraphs, List.intercalate_singleton]
      refine ⟨?_, hlt⟩
      rw [hsplit]
      apply List.mem_append_left
      exact List.mem_flatten.mpr ⟨_, hgroup, List.mem_singleton_self item⟩
  · conv => rhs; rw [hsplit]
    rw [List.length_append]
    omega
  · have htake : paragraphs.take groups.flatten.length = groups.flatten := by
      conv => lhs; rw [hsplit]
      exact List.take_left
    rw [htake]
    apply Packing.intercalate_map_intercalate
    exact fun hmem => (hpacked.pieces [] hmem).1 rfl
  · rcases hrest with hnil | hroom
    · left
      conv => rhs; rw [hsplit, hnil]
      rw [List.append_nil]
    · exact Or.inr (length_eq_of_isPacked hpacked hroom)

/-- The first of two short paragraphs is in the first chunk. -/
theorem chunkReplyHistory_two :
  (chunkReplyHistory ["Hello".toList, "Bye".toList]).length ≤ 8
  := (chunkReplyHistory_spec ["Hello".toList, "Bye".toList] (by decide)).1

/-! ### Dividing a body -/

/-- The group and the place in it of each paragraph of groups, which are numbered from a number
on. -/
def positions : List (List (List Char)) → ℕ → List (ℕ × ℕ)
  | [], _ => []
  | group :: groups, index =>
      (List.range group.length).map (fun within => (index, within)) ++ positions groups (index + 1)

/-- The blocks of the groups, the matched one as far as the match. -/
def keptBlocks (matchGroup matchWithin : ℕ) : List (List (List Char)) → ℕ → List (List Char)
  | [], _ => []
  | group :: groups, index =>
      let blocks :=
        if index = matchGroup then
          let kept := group.take matchWithin
          if kept = [] then [] else [joinParagraphs kept]
        else [joinParagraphs group]
      blocks ++ keptBlocks matchGroup matchWithin groups (index + 1)

/-- The position of a paragraph of groups. -/
def position (groups : List (List (List Char))) (k : ℕ) : ℕ × ℕ :=
  (positions groups 0).getD k (0, 0)

/-- The place where a body is divided: the one that was found, or the one of the rule right before
it in the group. -/
def lookBack (groups : List (List (List Char))) (found : ℕ) : ℕ :=
  if 0 < found ∧ (position groups (found - 1)).1 = (position groups found).1
      ∧ isUnderscoreSeparator (groups.flatten.getD (found - 1) []) = true then found - 1
  else found

/-- The blocks of the body and of the quotes, with the history of a reply moved from the one to the
other. -/
def splitReplyHistory (bodyBlocks quoteBlocks : List (List Char)) :
    List (List Char) × List (List Char) :=
  let groups := bodyBlocks.map splitBlank
  let flat := groups.flatten
  match (List.range flat.length).find? (isReplyHistoryStart flat) with
  | none => (bodyBlocks, quoteBlocks)
  | some found =>
      let flatK := lookBack groups found
      if flatK = 0 then (bodyBlocks, quoteBlocks)
      else
        let (matchGroup, matchWithin) := position groups flatK
        let moved := (groups.getD matchGroup []).drop matchWithin
        (keptBlocks matchGroup matchWithin groups 0, quoteBlocks ++ chunkReplyHistory moved)

section

variable {before after : List (List (List Char))} {group kept rest : List (List Char)}
  {first : List Char}

theorem length_positions (groups : List (List (List Char))) (index : ℕ) :
  (positions groups index).length = groups.flatten.length
  := by
  induction groups generalizing index with
  | nil => rfl
  | cons group groups ih =>
      rw [positions, List.length_append, List.length_map, List.length_range, ih, List.flatten_cons,
        List.length_append]

theorem positions_append (before after : List (List (List Char))) (index : ℕ) :
  positions (before ++ after) index
    = positions before index ++ positions after (index + before.length)
  := by
  induction before generalizing index with
  | nil => rfl
  | cons group before ih =>
      rw [List.cons_append, positions, ih, positions, List.append_assoc, List.length_cons,
        Nat.add_assoc, Nat.add_comm 1]

/-- The position of a paragraph is its group and its place in it. -/
theorem position_eq (before after : List (List (List Char))) (kept rest : List (List Char))
    (first : List Char) :
  position (before ++ (kept ++ first :: rest) :: after) (before.flatten.length + kept.length)
    = (before.length, kept.length)
  := by
  have hlength := length_positions before 0
  rw [position, List.getD_eq_getElem?_getD, positions_append, List.getElem?_append_right (by omega), hlength,
    Nat.add_sub_cancel_left, positions, List.getElem?_append_left (by simp), List.getElem?_map,
    List.getElem?_range (by simp), Nat.zero_add]
  rfl

theorem getD_flatten (before after : List (List (List Char))) (kept rest : List (List Char))
    (first default : List Char) :
  (before ++ (kept ++ first :: rest) :: after).flatten.getD
      (before.flatten.length + kept.length) default = first
  := by
  rw [List.getD_eq_getElem?_getD, List.flatten_append, List.getElem?_append_right (by omega),
    Nat.add_sub_cancel_left, List.flatten_cons, List.append_assoc,
    List.getElem?_append_right (le_refl _), Nat.sub_self]
  rfl

/-- Each paragraph of groups stands in one of them. -/
theorem exists_of_lt_flatten {groups : List (List (List Char))} {k : ℕ}
    (h : k < groups.flatten.length) :
  ∃ before after kept first rest, groups = before ++ (kept ++ first :: rest) :: after
    ∧ k = before.flatten.length + kept.length
  := by
  induction groups generalizing k with
  | nil => exact absurd h (Nat.not_lt_zero k)
  | cons group groups ih =>
      rcases Nat.lt_or_ge k group.length with hlt | hge
      · refine ⟨[], groups, group.take k, group.get ⟨k, hlt⟩, group.drop (k + 1), ?_, ?_⟩
        · rw [List.nil_append, List.get_eq_getElem, ← List.drop_eq_getElem_cons,
            List.take_append_drop]
        · rw [List.flatten_nil, List.length_take_of_le hlt.le, List.length_nil, Nat.zero_add]
      · rw [List.flatten_cons, List.length_append] at h
        obtain ⟨before, after, kept, first, rest, rfl, hk⟩ :=
          ih (k := k - group.length) (by omega)
        refine ⟨group :: before, after, kept, first, rest, rfl, ?_⟩
        rw [List.flatten_cons, List.length_append]
        omega

theorem keptBlocks_of_lt {matchGroup matchWithin : ℕ} (blocks : List (List Char)) (index : ℕ)
    (h : matchGroup < index) :
  keptBlocks matchGroup matchWithin (blocks.map splitBlank) index = blocks
  := by
  induction blocks generalizing index with
  | nil => rfl
  | cons block blocks ih =>
      rw [List.map_cons, keptBlocks, ih (index + 1) (by omega), if_neg (by omega),
        Lines.joinParagraphs_splitBlank]
      rfl

/-- The blocks that are kept are the matched one as far as the match, and all others. -/
theorem keptBlocks_eq (before after : List (List Char)) (entry : List Char) (matchWithin index : ℕ) :
  keptBlocks (index + before.length) matchWithin ((before ++ entry :: after).map splitBlank) index
    = before ++ (if (splitBlank entry).take matchWithin = [] then []
        else [joinParagraphs ((splitBlank entry).take matchWithin)]) ++ after
  := by
  induction before generalizing index with
  | nil =>
      rw [List.nil_append, List.map_cons, keptBlocks, keptBlocks_of_lt _ _ (by simp), List.length_nil,
        if_pos (Nat.add_zero index).symm]
      rfl
  | cons block before ih =>
      have hnext := ih (index + 1)
      rw [Nat.add_assoc, Nat.add_comm 1] at hnext
      rw [List.cons_append, List.map_cons, keptBlocks, List.length_cons, hnext, if_neg (by omega),
        Lines.joinParagraphs_splitBlank]
      rfl

end

/-- A paragraph is the first that starts the history of a reply. -/
structure IsFirstStart (paragraphs : List (List Char)) (k : ℕ) : Prop where
  starts : isReplyHistoryStart paragraphs k = true
  first : ∀ j < k, isReplyHistoryStart paragraphs j = false

/-- A body is divided in an entry of it: at the first paragraph that starts history, or at a rule
right before that paragraph in the entry. -/
structure IsDivision (body before after : List (List Char)) (entry : List Char)
    (kept moved : List (List Char)) : Prop where
  body_eq : body = before ++ entry :: after
  entry_eq : splitBlank entry = kept ++ moved
  marker : ∃ rule first rest, moved = rule ++ first :: rest
    ∧ IsFirstStart (body.flatMap splitBlank)
      ((before.flatMap splitBlank).length + kept.length + rule.length)
    ∧ ((rule = [] ∧ ∀ last, kept.getLast? = some last → isUnderscoreSeparator last = false)
      ∨ ∃ line, rule = [line] ∧ isUnderscoreSeparator line = true)

/-- The quotes have what is moved to them: paragraphs that are not empty, in order, joined to
chunks, and all of them when there are fewer than eight chunks. -/
structure IsMoved (moved quotes : List (List Char)) : Prop where
  exists_groups : ∃ (groups : List (List (List Char))) (taken rest : List (List Char)),
    quotes = groups.map joinParagraphs ∧ moved = taken ++ rest ∧ groups.flatten.Sublist taken
    ∧ groups.flatten.filter (· ≠ []) = taken.filter (· ≠ []) ∧ groups.length ≤ 8
    ∧ (rest = [] ∨ groups.length = 8)

theorem isMoved_chunkReplyHistory (moved : List (List Char)) :
  IsMoved moved (chunkReplyHistory moved)
  := by
  obtain ⟨groups, hpacked, heq⟩ := exists_chunkReplyHistory moved
  obtain ⟨taken, rest, hsplit, hsublist, hfilter, hrest⟩ := hpacked.taken
  refine ⟨groups, taken, rest, heq, hsplit, hsublist, hfilter, length_le_of_isPacked hpacked, ?_⟩
  exact hrest.imp_right (length_eq_of_isPacked hpacked)

theorem lt_length_of_isReplyHistoryStart {paragraphs : List (List Char)} {k : ℕ}
    (h : isReplyHistoryStart paragraphs k = true) :
  k < paragraphs.length
  := by
  by_contra hge
  rw [isReplyHistoryStart, List.getElem?_eq_none (Nat.le_of_not_lt hge)] at h
  cases h

theorem IsFirstStart.find?_eq {paragraphs : List (List Char)} {k : ℕ}
    (h : IsFirstStart paragraphs k) :
  (List.range paragraphs.length).find? (isReplyHistoryStart paragraphs) = some k
  := by
  rw [List.find?_range_eq_some]
  refine ⟨h.starts, List.mem_range.mpr (lt_length_of_isReplyHistoryStart h.starts), ?_⟩
  intro j hj
  rw [h.first j hj]
  rfl

/-- A place in the groups is the first one when nothing comes before it. -/
theorem length_add_eq_zero_iff {before kept : List (List Char)} :
  (before.map splitBlank).flatten.length + kept.length = 0 ↔ before = [] ∧ kept = []
  := by
  rw [Nat.add_eq_zero_iff, List.length_eq_zero_iff, List.length_eq_zero_iff]
  apply and_congr_left'
  constructor
  · intro h
    cases before with
    | nil => rfl
    | cons block before =>
        rw [List.map_cons, List.flatten_cons, List.append_eq_nil_iff] at h
        exact absurd h.1 (Lines.splitBlankFrom_ne_nil [] block)
  · rintro rfl
    rfl

/-- A body is divided at the rule before the paragraph that was found. -/
theorem lookBack_rule (before after : List (List (List Char))) (kept rest : List (List Char))
    {line first : List Char} (h : isUnderscoreSeparator line = true) :
  lookBack (before ++ (kept ++ line :: first :: rest) :: after)
    (before.flatten.length + kept.length + 1) = before.flatten.length + kept.length
  := by
  have hfound := position_eq before after (kept ++ [line]) rest first
  rw [List.append_assoc, List.singleton_append, List.length_append, List.length_singleton,
    ← Nat.add_assoc] at hfound
  rw [lookBack, if_pos]
  · rfl
  · rw [Nat.add_sub_cancel, hfound, position_eq, getD_flatten]
    exact ⟨Nat.succ_pos _, rfl, h⟩

/-- A body is divided at the paragraph that was found when no rule stands before it in its block. -/
theorem lookBack_first {before after : List (List (List Char))} {kept : List (List Char)}
    (hnonempty : [] ∉ before)
    (h : ∀ last, kept.getLast? = some last → isUnderscoreSeparator last = false)
    (first : List Char) (rest : List (List Char)) :
  lookBack (before ++ (kept ++ first :: rest) :: after) (before.flatten.length + kept.length)
    = before.flatten.length + kept.length
  := by
  rw [lookBack, if_neg]
  rintro ⟨hpos, hsame, hrule⟩
  rw [position_eq] at hsame
  rcases kept.eq_nil_or_concat with rfl | ⟨kept, last, rfl⟩
  · rcases before.eq_nil_or_concat with rfl | ⟨before, group, rfl⟩
    · exact Nat.lt_irrefl 0 hpos
    · -- the paragraph before is in the group before
      rw [List.concat_eq_append] at hsame hnonempty
      have hgroup : group ≠ [] := by
        rintro rfl
        exact hnonempty (List.mem_append_right _ (List.mem_singleton_self _))
      obtain ⟨others, final, hfinal⟩ := (List.eq_nil_or_concat group).resolve_left hgroup
      rw [List.concat_eq_append] at hfinal
      subst hfinal
      have hindex : (before ++ [others ++ [final]]).flatten.length + ([] : List (List Char)).length - 1
          = before.flatten.length + others.length := by
        rw [List.flatten_append, List.flatten_singleton, List.length_append, List.length_append,
          List.length_nil, List.length_singleton]
        omega
      rw [List.append_assoc, List.singleton_append] at hsame
      rw [hindex, position_eq, List.length_append, List.length_singleton] at hsame
      exact absurd hsame (Nat.lt_succ_self _).ne
  · rw [List.concat_eq_append] at h hrule hsame
    rw [List.append_assoc, List.singleton_append, List.length_append, List.length_singleton,
      ← Nat.add_assoc, Nat.add_sub_cancel, getD_flatten, h last List.getLast?_concat] at hrule
    cases hrule

/-- What becomes of a body that is divided where the groups say. -/
theorem splitReplyHistory_of_isDivision {body before after kept moved : List (List Char)}
    {entry : List Char} (h : IsDivision body before after entry kept moved)
    (quotes : List (List Char)) :
  (before = [] ∧ kept = [] → splitReplyHistory body quotes = (body, quotes))
    ∧ (¬ (before = [] ∧ kept = []) →
      splitReplyHistory body quotes
        = (before ++ (if kept = [] then [] else [joinParagraphs kept]) ++ after,
          quotes ++ chunkReplyHistory moved))
  := by
  obtain ⟨rule, first, rest, rfl, hfirst, hrule⟩ := h.marker
  have hgroups : body.map splitBlank = before.map splitBlank
      ++ (kept ++ (rule ++ first :: rest)) :: after.map splitBlank := by
    rw [h.body_eq, List.map_append, List.map_cons, h.entry_eq]
  have hnonempty : [] ∉ before.map splitBlank := by
    intro hmem
    obtain ⟨block, -, hnil⟩ := List.mem_map.mp hmem
    exact Lines.splitBlankFrom_ne_nil [] block hnil
  have hback : lookBack (body.map splitBlank)
      ((before.flatMap splitBlank).length + kept.length + rule.length)
        = (before.map splitBlank).flatten.length + kept.length := by
    rw [hgroups, List.flatMap_def]
    rcases hrule with ⟨rfl, hlast⟩ | ⟨line, rfl, hline⟩
    · apply lookBack_first hnonempty hlast
    · apply lookBack_rule _ _ _ _ hline
  have hposition : position (body.map splitBlank)
      ((before.map splitBlank).flatten.length + kept.length) = (before.length, kept.length) := by
    obtain ⟨next, others, hnext⟩ := List.exists_cons_of_ne_nil (show rule ++ first :: rest ≠ [] by simp)
    rw [hgroups, hnext, position_eq, List.length_map]
  have hfind := hfirst.find?_eq
  rw [List.flatMap_def] at hfind
  rw [splitReplyHistory]
  dsimp only
  rw [hfind]
  dsimp only
  rw [hback]
  constructor
  · intro hstart
    rw [if_pos (length_add_eq_zero_iff.mpr hstart)]
  · intro hne
    rw [if_neg fun hzero => hne (length_add_eq_zero_iff.mp hzero), hposition]
    have htake : (splitBlank entry).take kept.length = kept := by
      rw [h.entry_eq]
      exact List.take_left
    have hblocks := keptBlocks_eq before after entry kept.length 0
    rw [Nat.zero_add, htake, ← h.body_eq] at hblocks
    have hmoved : ((body.map splitBlank).getD before.length []).drop kept.length
        = rule ++ first :: rest := by
      rw [hgroups, List.getD_eq_getElem?_getD, List.getElem?_append_right (by simp),
        List.length_map, Nat.sub_self]
      exact List.drop_left
    rw [hblocks, hmoved]

/-- Bodies stay as they are when no paragraph starts history.  Otherwise they are divided where it
starts, unless that is at their start: blocks before and after stay, and what is moved goes to the
end of the quotes. -/
theorem splitReplyHistory_spec (body quotes : List (List Char)) :
  ((∀ k, isReplyHistoryStart (body.flatMap splitBlank) k = false) →
      splitReplyHistory body quotes = (body, quotes))
    ∧ ∀ k, IsFirstStart (body.flatMap splitBlank) k →
      ∃ before entry after kept moved, IsDivision body before after entry kept moved
        ∧ (before = [] ∧ kept = [] → splitReplyHistory body quotes = (body, quotes))
        ∧ (¬ (before = [] ∧ kept = []) →
          ∃ chunks, IsMoved moved chunks
            ∧ splitReplyHistory body quotes
              = (before ++ (if kept = [] then [] else [joinParagraphs kept]) ++ after,
                quotes ++ chunks))
  := by
  constructor
  · intro hnone
    have hfind : (List.range (body.map splitBlank).flatten.length).find?
        (isReplyHistoryStart (body.map splitBlank).flatten) = none := by
      rw [List.find?_eq_none]
      intro k _
      rw [← List.flatMap_def, hnone k]
      exact Bool.false_ne_true
    rw [splitReplyHistory]
    dsimp only
    rw [hfind]
  · intro k hk
    have hlt := lt_length_of_isReplyHistoryStart hk.starts
    rw [List.flatMap_def] at hlt
    obtain ⟨above, below, kept, first, rest, hgroups, hplace⟩ := exists_of_lt_flatten hlt
    obtain ⟨before, others, rfl, rfl, hothers⟩ := List.map_eq_append_iff.mp hgroups
    obtain ⟨entry, after, rfl, hentry, rfl⟩ := List.map_eq_cons_iff.mp hothers
    rw [← List.flatMap_def] at hplace
    -- the division is one line above when a rule stands there
    have hdivision : ∃ kept' moved, IsDivision (before ++ entry :: after) before after entry kept'
        moved := by
      by_cases hrule : ∃ rule, kept.getLast? = some rule ∧ isUnderscoreSeparator rule = true
      · obtain ⟨rule, hlast, hrule⟩ := hrule
        obtain ⟨kept, rfl⟩ := List.getLast?_eq_some_iff.mp hlast
        rw [List.length_append, ← Nat.add_assoc] at hplace
        refine ⟨kept, rule :: first :: rest, rfl, ?_, [rule], first, rest, rfl, ?_, ?_⟩
        · rw [hentry, List.append_assoc, List.singleton_append]
        · rwa [hplace] at hk
        · exact Or.inr ⟨rule, rfl, hrule⟩
      · refine ⟨kept, first :: rest, rfl, hentry, [], first, rest, rfl, ?_, Or.inl ⟨rfl, ?_⟩⟩
        · rwa [hplace] at hk
        · intro last hlast
          rw [← Bool.not_eq_true]
          exact fun hmem => hrule ⟨last, hlast, hmem⟩
    obtain ⟨kept', moved, hdivision⟩ := hdivision
    have hsplit := splitReplyHistory_of_isDivision hdivision quotes
    refine ⟨before, entry, after, kept', moved, hdivision, hsplit.1, ?_⟩
    intro hne
    exact ⟨chunkReplyHistory moved, isMoved_chunkReplyHistory moved, hsplit.2 hne⟩

end Inference
