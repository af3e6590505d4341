import OpenLoops.Review.Closure

/-!
# Recaps of meetings

A service that listens to a meeting sends a recap of it.  Such a message is recognised by its sender,
or by its subject with its text; what it states was said by others, at the time of the meeting.
-/

namespace Review

open Inference

/-! ### Recognising recaps -/

def recapSenderDomains : List String :=
  ["fathom.video", "fathom.ai", "otter.ai", "fireflies.ai", "read.ai", "tactiq.io", "tldv.io",
    "grain.com", "grain.co", "avoma.com", "gong.io", "chorus.ai"]

def recapSenderNameHints : List String :=
  ["ai companion", "gemini", "copilot"]

/-- Addresses from which recaps are sent, and invitations as well. -/
def recapSenderPlatformAddresses : List String :=
  ["no-reply@zoom.us", "noreply@teams.microsoft.com", "meetings-noreply@google.com"]

def recapSubjectHints : List String :=
  ["meeting summary", "meeting notes", "meeting recap", "recap", "notes:", "summary:",
    "call summary", "call notes", "your meeting", "transcript", "highlights", "action items",
    "key takeaways"]

def recapBodyMarkers : List String :=
  ["action items", "key takeaways", "next steps", "meeting purpose", "summary", "attendees",
    "transcript"]

/-- How much of the first paragraph is looked at. -/
def recapBodyScanChars : ℕ := 600

def ruleRecap : String :=
  "rules.recap"

/-- One of the texts stands in the other. -/
def containsAny (hints : List String) (text : List Char) : Bool :=
  hints.any fun hint => hint.toList <:+: text

/-- The text of a block that there may be. -/
def blockText (block : Option CanonicalBlock) : List Char :=
  (block.map (·.scalars)).getD []

/-- The case that a decision model is asked about. -/
def recapState (message : ReviewMessage) : Json :=
  .object [
    ("sender", .string (String.ofList (blockText message.input.message.sender))),
    ("subject", .string message.input.message.subject.asString),
    ("first_paragraph", .string (String.ofList (blockText message.input.message.bodyBlocks.head?)))]

section

variable (toLowercase : List Char → List Char)

def isMeetingRecapArtifactFast (message : ReviewMessage) : Bool :=
  let sender := toLowercase (blockText message.input.message.sender)
  let subject := toLowercase message.rawSubject
  let bodyPrefix := toLowercase
    ((blockText message.input.message.bodyBlocks.head?).take recapBodyScanChars)
  containsAny (recapSenderDomains.map ("@" ++ ·)) sender
    || containsAny recapSenderNameHints sender
    || (containsAny recapSubjectHints subject
      && (containsAny recapSenderPlatformAddresses sender
        || containsAny recapBodyMarkers bodyPrefix))

/-- The message may be a recap, though it is not recognised as one. -/
def recapResidueCandidate (message : ReviewMessage) : Bool :=
  !isMeetingRecapArtifactFast toLowercase message
    && (containsAny recapSubjectHints (toLowercase message.rawSubject)
      || containsAny recapBodyMarkers
        (toLowercase (blockText message.input.message.bodyBlocks.head?)))

def isMeetingRecapArtifactWithRules (registry : Registry) (message : ReviewMessage)
    (rules : Option RuleDecisions) : Bool :=
  isMeetingRecapArtifactFast toLowercase message
    || (recapResidueCandidate toLowercase message
      && rules.any fun rules => rules.noul registry ruleRecap (recapState message))

end

/-! ### Times of meetings -/

/-- How times are read from texts: from a subject, and from a text written at a time with an offset
of the local time, which is known for each time. -/
structure TimeReader where
  subject : String → Option (ℤ × ℤ)
  prose : String → ℤ → ℤ → Option (ℤ × ℤ)
  localOffset : ℤ → ℤ

/-- The start of the meeting that the recap is of, and whether it is only known to be before the
recap was sent. -/
def recapMeetingTime (reader : TimeReader) (message : ReviewMessage) : Option (ℤ × Bool) :=
  let time := message.input.timestamp
  match message.event with
  | some (start, _, false) => some (start, false)
  | _ =>
      match reader.subject message.input.message.subject.asString with
      | some (start, _) => some (start, false)
      | none =>
          match message.input.message.bodyBlocks.head?.bind fun body =>
              reader.prose body.asString time (reader.localOffset time) with
          | some (start, _) => some (start, false)
          | none => some (time, true)

/-! ### Items of recaps -/

def participantDisplayName (label : List Char) : Option (List Char) :=
  ((splitOnce '<' label).map fun parts => trim parts.1).filter (· ≠ [])

/-- The texts are the same, but for capital letters of ASCII. -/
def eqIgnoreAsciiCase (text text' : List Char) : Bool :=
  toAsciiLowercase text = toAsciiLowercase text'

section

variable (toLowercase : List Char → List Char) (registry : Registry)

/-- The item waits for someone else whom the sender's address stands for. -/
def waitsForAnother (waitingParty sender : List Char) : Bool :=
  (participantDisplayName waitingParty).any fun waitingName =>
    !eqIgnoreAsciiCase waitingName "you".toList
      && (participantDisplayName sender).all fun senderName =>
        !eqIgnoreAsciiCase waitingName senderName

/-- An item of a recap waits for the user or for the service: neither is meant. -/
def waitsForRecap (source : ReviewMessage) (waitingParty : String) : Bool :=
  (waitingPartyAddress toLowercase waitingParty).any fun waiting =>
    let sender := source.input.message.sender.map (·.asString)
    let onOwner := source.ownAddresses.any fun address =>
      eqIgnoreAsciiCase address.toList waiting.toList
    let onService := (sender.bind (waitingPartyAddress toLowercase)).any fun address =>
      eqIgnoreAsciiCase address.toList waiting.toList
    (onOwner || onService)
      && !(onService && waitsForAnother waitingParty.toList ((sender.getD "").toList))

/-- The message of the conversation that states the item, when it is a recap. -/
def recapSource (conversation : List ReviewMessage) (rules : Option RuleDecisions)
    (item : LoopItem) : Option ReviewMessage :=
  (messageOf conversation item.evidence.message).filter fun source =>
    isMeetingRecapArtifactWithRules toLowercase registry source rules

def correctRecapAttribution (analysis : LoopItems) (conversation : List ReviewMessage)
    (rules : Option RuleDecisions) : LoopItems :=
  { analysis with
    items := analysis.items.map fun item =>
      if item.waitingParty ≠ "Not established"
          && (recapSource toLowercase registry conversation rules item).any fun source =>
            waitsForRecap toLowercase source item.waitingParty then
        { item with
          waitingParty := "Not established"
          owner := .you }
      else item }

def tagCallSummaries (reader : TimeReader) (analysis : LoopItems)
    (conversation : List ReviewMessage) (rules : Option RuleDecisions) : LoopItems :=
  { analysis with
    items := analysis.items.map fun item =>
      match recapSource toLowercase registry conversation rules item with
      | some source =>
          match recapMeetingTime reader source with
          | some (meetingTime, approx) =>
              { item with
                fromCallSummary := true
                meetingTime := some meetingTime
                meetingTimeApprox := approx }
          | none => { item with fromCallSummary := true }
      | none => item }

end

end Review
