import OpenLoops.Inference.Markup
import OpenLoops.Inference.ReplyHistory
import OpenLoops.Inference.Whitespace

/-!
# The walker of hypertext

A hypertext is scanned from its start to its end.  The text between tags is pushed to the block that
is active and to the anchors that are open, and tags close and open elements, at whose ends blocks
are finalized.  Texts that differ in nothing but comments, attributes and the content of dropped
elements have the same blocks, and no block is empty or has a forbidden scalar.
-/

namespace Inference

/-! ### Blocks -/

/-- An open element; an anchor has the text within it. -/
inductive Frame where
  | block
  | cell
  | quote (wasOutermost : Bool)
  | anchor (capture : List Char)
  | other
deriving DecidableEq, Repr

/-- The blocks so far, and the text and the elements that are not finished. -/
structure Walker where
  bodyBlocks : List (List Char) := []
  quoteBlocks : List (List Char) := []
  linkLabels : List (List Char) := []
  active : List Char := []
  inQuote : Bool := false
  blockquoteDepth : ℕ := 0
  /-- The open elements, the last one first. -/
  stack : List Frame := []
deriving DecidableEq, Repr

/-- The blocks of a hypertext. -/
structure WalkOutput where
  bodyBlocks : List (List Char)
  quoteBlocks : List (List Char)
  linkLabels : List (List Char)
deriving DecidableEq, Repr

def Frame.push (chunk : List Char) : Frame → Frame
  | .anchor capture => .anchor (capture ++ chunk)
  | frame => frame

namespace Walker

variable (walker : Walker)

/-- The text goes to the active block and to each anchor that is open. -/
def push (chunk : List Char) : Walker :=
  { walker with
    active := walker.active ++ chunk
    stack := walker.stack.map (Frame.push chunk) }

def appendText (chunk : List Char) : Except ScalarError Walker :=
  let wsReplaced := (normalizeLineEndings chunk).map foldSpace
  if wsReplaced.any isForbiddenScalar then .error .forbiddenScalar
  else .ok (walker.push wsReplaced)

def emitLf : Walker :=
  walker.push ['\n']

/-- The block of a text, with the blocks before it, unless nothing of it is left. -/
def addBlock (blocks : List (List Char)) (text : List Char) : List (List Char) :=
  let finalized := finalize text
  if finalized = [] then blocks else blocks ++ [nfc finalized]

def flushBodyIfNonempty : Walker :=
  { walker with bodyBlocks := addBlock walker.bodyBlocks walker.active, active := [] }

def flushQuoteIfNonempty : Walker :=
  { walker with quoteBlocks := addBlock walker.quoteBlocks walker.active, active := [] }

def pushFrame (frame : Frame) : Walker :=
  { walker with stack := frame :: walker.stack }

def «open» (category : Category) : Walker :=
  match category with
  | .block => walker.emitLf.pushFrame .block
  | .cell => walker.emitLf.pushFrame .cell
  | .quote =>
      let wasOutermost := walker.blockquoteDepth = 0
      let walker := { walker with blockquoteDepth := walker.blockquoteDepth + 1 }
      let walker :=
        if wasOutermost then { walker.flushBodyIfNonempty with inQuote := true }
        else walker.emitLf
      walker.pushFrame (.quote wasOutermost)
  | .anchor => walker.pushFrame (.anchor [])
  | .other | .lineBreak | .drop => walker.pushFrame .other

def closeTop : Walker :=
  match walker.stack with
  | [] => walker
  | frame :: stack =>
      let walker := { walker with stack }
      match frame with
      | .block | .cell => walker.emitLf
      | .quote wasOutermost =>
          let walker := { walker with blockquoteDepth := walker.blockquoteDepth - 1 }
          if wasOutermost then { walker.flushQuoteIfNonempty with inQuote := false }
          else walker.emitLf
      | .anchor capture => { walker with linkLabels := addBlock walker.linkLabels capture }
      | .other => walker

end Walker

/-- How many open elements are closed by an end tag: down to the last one of its name, or none. -/
def closeCount (openNames : List String) (name : String) : ℕ :=
  match openNames.findIdx? fun openName =>
      toAsciiLowercase openName.toList = toAsciiLowercase name.toList with
  | some depth => depth + 1
  | none => 0

namespace Walker

variable (walker : Walker)

def closeMatching (openNames : List String) (name : String) : Walker :=
  closeTop^[closeCount openNames name] walker

/-- Close all elements that are open, and end the last block. -/
def finish : WalkOutput :=
  let walker := closeTop^[walker.stack.length] walker
  let walker :=
    if walker.inQuote then walker.flushQuoteIfNonempty else walker.flushBodyIfNonempty
  let (bodyBlocks, quoteBlocks) := splitReplyHistory walker.bodyBlocks walker.quoteBlocks
  { bodyBlocks, quoteBlocks, linkLabels := walker.linkLabels }

end Walker

/-! ### Scanning -/

/-- What comes after a tag, whose name the text starts with. -/
def tagRest (text : List Char) : List Char :=
  skipToTagEnd none (text.dropWhile isTagNameChar)

/-- What comes after an end tag, of which `</` is taken, and what is open then. -/
def handleEndTag (text : List Char) (walker : Walker) (openNames : List String) :
    List Char × Walker × List String :=
  if text.head?.any isTagNameStart then
    let name := tagName text
    (tagRest text, walker.closeMatching openNames name, openNames.drop (closeCount openNames name))
  else (skipToTagEnd none text, walker, openNames)

/-- Close the last open elements as long as the start tag of the name closes them. -/
def applyImpliedEndTags (name : String) (walker : Walker) :
    List String → Walker × List String
  | [] => (walker, [])
  | top :: openNames =>
      if shouldAutoClose top name then applyImpliedEndTags name walker.closeTop openNames
      else (walker, top :: openNames)

/-- What is open after the start tag of the name. -/
def openElement (name : String) (walker : Walker) (openNames : List String) :
    Walker × List String :=
  let (walker, openNames) := applyImpliedEndTags name walker openNames
  let category := categorize name
  if isVoid name then (if category = .lineBreak then walker.emitLf else walker, openNames)
  else
    match category with
    | .drop => (walker, openNames)
    | .lineBreak => (walker.emitLf, openNames)
    | category => (walker.open category, name :: openNames)

/-- The content of the element is dropped. -/
def isDropped (name : String) : Bool :=
  !isVoid name && categorize name = .drop

/-- What comes after a start tag, of which `<` is taken, and after the content of an element that is
dropped, and what is open then. -/
def handleStartTag (text : List Char) (walker : Walker) (openNames : List String) :
    List Char × Walker × List String :=
  let name := tagName text
  let after := tagRest text
  let rest :=
    if isDropped name then (findCaseInsensitiveClose name.toList after).getD [] else after
  (rest, openElement name walker openNames)

/-- The state of a scan: the names of the open elements, the text since the last tag, and what is
left of the hypertext. -/
structure Scanner where
  walker : Walker := {}
  openNames : List String := []
  textRun : List Char := []
  rest : List Char

namespace Scanner

variable (s : Scanner)

def flushRun : Except ScalarError Walker :=
  if s.textRun = [] then .ok s.walker else s.walker.appendText s.textRun

/-- The text between tags goes on with a character. -/
def pushChar (c : Char) (rest : List Char) : Scanner :=
  { s with textRun := s.textRun ++ [c], rest }

/-- The state after a tag, before which the text is flushed. -/
def handleTag (handled : Walker → List String → List Char × Walker × List String) :
    Except ScalarError Scanner :=
  s.flushRun.map fun walker =>
    let (rest, walker, openNames) := handled walker s.openNames
    { walker, openNames, textRun := [], rest }

/-- A step of the scan at a `<`, before a text. -/
def stepMarkup (text : List Char) : Except ScalarError Scanner :=
  match text with
  | [] => .ok (s.pushChar '<' [])
  | c :: after =>
      if c = '!' then .ok { s with rest := skipMarkupDeclaration after }
      else if c = '?' then .ok { s with rest := skipToTagEnd none after }
      else if c = '/' then s.handleTag (handleEndTag after)
      else if isTagNameStart c then s.handleTag (handleStartTag (c :: after))
      else .ok (s.pushChar '<' (c :: after))

/-- A step of the scan. -/
def step : Except ScalarError Scanner :=
  match s.rest with
  | [] => .ok s
  | c :: text =>
      if c = '<' then s.stepMarkup text
      else
        match if c = '&' then decodeEntity text else none with
        | some (decoded, after) => .ok (s.pushChar decoded after)
        | none => .ok (s.pushChar c text)

end Scanner

theorem skipMarkupDeclaration_suffix (text : List Char) :
  skipMarkupDeclaration text <:+ text
  := by
  rw [skipMarkupDeclaration]
  split_ifs
  · cases hfound : findSubsequence ['-', '-', '>'] (text.drop 2) with
    | none => apply List.nil_suffix
    | some after => exact (findSubsequence_suffix hfound).trans (List.drop_suffix 2 text)
  · apply skipToTagEnd_suffix

theorem tagRest_suffix (text : List Char) :
  tagRest text <:+ text
  := (skipToTagEnd_suffix none _).trans (List.dropWhile_suffix _)

theorem handleEndTag_suffix (text : List Char) (walker : Walker) (openNames : List String) :
  (handleEndTag text walker openNames).1 <:+ text
  := by
  rw [handleEndTag]
  split_ifs
  · apply tagRest_suffix
  · apply skipToTagEnd_suffix

theorem handleStartTag_suffix (text : List Char) (walker : Walker) (openNames : List String) :
  (handleStartTag text walker openNames).1 <:+ text
  := by
  rw [handleStartTag]
  dsimp only
  split_ifs
  · cases hfound : findCaseInsensitiveClose (tagName text).toList (tagRest text) with
    | none => apply List.nil_suffix
    | some rest => exact (findCaseInsensitiveClose_suffix hfound).trans (tagRest_suffix text)
  · apply tagRest_suffix

namespace Scanner

variable {s next : Scanner}

theorem rest_suffix_of_handleTag {text : List Char}
    {handled : Walker → List String → List Char × Walker × List String}
    (hrest : ∀ walker openNames, (handled walker openNames).1 <:+ text)
    (h : s.handleTag handled = .ok next) :
  next.rest <:+ text
  := by
  rw [handleTag] at h
  cases hflush : s.flushRun with
  | error e =>
      rw [hflush] at h
      cases h
  | ok walker =>
      rw [hflush] at h
      cases h
      apply hrest

theorem rest_suffix_of_stepMarkup {text : List Char} (h : s.stepMarkup text = .ok next) :
  next.rest <:+ text
  := by
  cases text with
  | nil =>
      cases h
      apply List.suffix_refl
  | cons c after =>
      have hafter := List.suffix_cons c after
      rw [stepMarkup] at h
      split_ifs at h
      · cases h
        exact (skipMarkupDeclaration_suffix after).trans hafter
      · cases h
        exact (skipToTagEnd_suffix none after).trans hafter
      · exact (rest_suffix_of_handleTag (handleEndTag_suffix after) h).trans hafter
      · apply rest_suffix_of_handleTag (handleStartTag_suffix _) h
      · cases h
        apply List.suffix_refl

/-- A step goes on after the character where it stands. -/
theorem rest_suffix_of_step {c : Char} {text : List Char} (hrest : s.rest = c :: text)
    (h : s.step = .ok next) :
  next.rest <:+ text
  := by
  rw [step, hrest] at h
  dsimp only at h
  split_ifs at h with hc hc'
  · apply rest_suffix_of_stepMarkup h
  · cases hdecoded : decodeEntity text with
    | none =>
        rw [hdecoded] at h
        cases h
        apply List.suffix_refl
    | some decoded =>
        rw [hdecoded] at h
        cases h
        apply decodeEntity_suffix hdecoded
  · cases h
    apply List.suffix_refl

/-- Each step takes something of the text. -/
theorem length_step_lt (hne : s.rest ≠ []) (h : s.step = .ok next) :
  next.rest.length < s.rest.length
  := by
  obtain ⟨c, text, hrest⟩ := List.exists_cons_of_ne_nil hne
  rw [hrest, List.length_cons]
  exact Nat.lt_succ_of_le (rest_suffix_of_step hrest h).length_le

/-- Scan the text to its end. -/
def walk (s : Scanner) : Except ScalarError Walker :=
  if _ : s.rest = [] then s.flushRun
  else
    match _ : s.step with
    | .error e => .error e
    | .ok next => next.walk
termination_by s.rest.length
decreasing_by exact length_step_lt ‹_› ‹_›

end Scanner

def canonicalizeHtml (input : List Char) : Except ScalarError WalkOutput := do
  rejectForbiddenScalars input
  let walker ← Scanner.walk { rest := input }
  return walker.finish

end Inference
