import OpenLoops.Library.Wire

/-!
# Ports

What the mail source and the reminder adapter hand to the application.
-/

namespace Application

/-- Which way a message goes. -/
inductive Direction where
  | incoming
  | outgoingSavedSentCopy
  | draftOrCompose
deriving DecidableEq, Repr

/-- What was observed of the read mark of an incoming message. -/
inductive ObservedReadState where
  | unreadToRead
  | firstObservedRead
  | firstObservedUnread
  | stillUnread
deriving DecidableEq, Repr

/-- One item of a delta page. -/
structure DeltaPageItem where
  testedLocator : Bytes
  observedVersion : Bytes
  direction : Direction
  readState : ObservedReadState
  firstObserved : Bool
  inBackfillBatch : Bool
  reFetchLocator : Bytes
deriving DecidableEq, Repr

/-- One page of changes, with the cursor that continues after it. -/
structure DeltaPage where
  items : List DeltaPageItem
  nextCursor : Bytes
  /-- Whether the cursor closes a round. -/
  closesRound : Bool
deriving DecidableEq, Repr

/-- Why a whole page could not be fetched. -/
inductive MailSourceError where
  | transport
  | parse
  | schema
deriving DecidableEq, Repr

/-- How the adapter answered the one request of an attempt. -/
inductive AdapterOutcome where
  | succeeded (destinationLocator : Bytes)
  | knownNoSend
  | ambiguous
  | definitiveFailure
deriving DecidableEq, Repr

end Application
