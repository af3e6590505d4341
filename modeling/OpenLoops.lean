import OpenLoops.Library.Text
import OpenLoops.Library.Machine
import OpenLoops.Library.Fallible
import OpenLoops.Library.Wire
import OpenLoops.Library.Cursor
import OpenLoops.Library.Log
import OpenLoops.Library.KeyOrder
import OpenLoops.Library.Ranges
import OpenLoops.Library.Bounded
import OpenLoops.Library.Instrument
import OpenLoops.Library.Json
import OpenLoops.Library.Shape
import OpenLoops.Library.Program
import OpenLoops.Library.Paging
import OpenLoops.Library.Scanning
import OpenLoops.Library.Forest
import OpenLoops.Library.Table
import OpenLoops.Library.Best
import OpenLoops.Library.JsonText
import OpenLoops.Library.PairingOff
import OpenLoops.Library.Selection
import OpenLoops.Library.Pointers
import OpenLoops.Library.Workers
import OpenLoops.Library.Lines
import OpenLoops.Library.Paragraphs
import OpenLoops.Library.JsonReading
import OpenLoops.Library.Bits
import OpenLoops.Library.Blocks
import OpenLoops.Library.KeyedRows
import OpenLoops.Library.Numerals
import OpenLoops.Library.Packing
import OpenLoops.Library.Runs
import OpenLoops.Library.Utf8
import OpenLoops.Library.Utf8Decoding
import OpenLoops.Domain.Ids
import OpenLoops.Domain.Facets
import OpenLoops.Domain.Hypothesis
import OpenLoops.Domain.Transition
import OpenLoops.Domain.Command
import OpenLoops.Domain.CommandPolicy
import OpenLoops.Domain.TwoLoop
import OpenLoops.Domain.Terminalization
import OpenLoops.Domain.KeepOpen
import OpenLoops.Domain.CommandRuns
import OpenLoops.Domain.CommandHistory
import OpenLoops.Domain.Reminders
import OpenLoops.Domain.LocalTime
import OpenLoops.Domain.Deadline
import OpenLoops.Domain.Record
import OpenLoops.Domain.DeadlineParse
import OpenLoops.Domain.Calendar
import OpenLoops.Domain.Weekdays
import OpenLoops.Domain.BusinessDays
import OpenLoops.Domain.DeadlineBytes
import OpenLoops.Domain.DeadlineExactness
import OpenLoops.Domain.DeadlineGrammar
import OpenLoops.Persistence.Ids
import OpenLoops.Persistence.Digest
import OpenLoops.Persistence.Envelope
import OpenLoops.Persistence.Reservation
import OpenLoops.Persistence.Store
import OpenLoops.Persistence.Anchor
import OpenLoops.Persistence.ProtectedFile
import OpenLoops.Persistence.StateRoot
import OpenLoops.Persistence.Canonical
import OpenLoops.Persistence.Host
import OpenLoops.Persistence.CrashSafety
import OpenLoops.Persistence.Clock
import OpenLoops.Persistence.ReservationRuns
import OpenLoops.Application.Codec
import OpenLoops.Application.Ports
import OpenLoops.Application.Seal
import OpenLoops.Application.Ingestion
import OpenLoops.Application.IngestionPlan
import OpenLoops.Application.IngestionRuns
import OpenLoops.Application.Deduplication
import OpenLoops.Application.Ledger
import OpenLoops.Application.LedgerLog
import OpenLoops.Application.LedgerOrder
import OpenLoops.Application.LedgerRuns
import OpenLoops.Application.LedgerDiscipline
import OpenLoops.Application.Canonical
import OpenLoops.Application.Quarantine
import OpenLoops.Application.Scheduler
import OpenLoops.Contracts.AnalysisOutput
import OpenLoops.Contracts.ClosedSchema
import OpenLoops.Inference.Projection
import OpenLoops.Inference.ProjectionRuns
import OpenLoops.Inference.Validation
import OpenLoops.Inference.ValidationSteps
import OpenLoops.Inference.Consistency
import OpenLoops.Inference.ValidationRuns
import OpenLoops.Inference.Duplicates
import OpenLoops.Inference.Scalars
import OpenLoops.Inference.Compositions
import OpenLoops.Inference.Normalization
import OpenLoops.Inference.Decomposition
import OpenLoops.Inference.Whitespace
import OpenLoops.Inference.CanonicalSize
import OpenLoops.Inference.ReplyHistory
import OpenLoops.Inference.Markup
import OpenLoops.Inference.Walker
import OpenLoops.Inference.HiddenMarkup
import OpenLoops.Inference.Questions
import OpenLoops.Inference.Decision
import OpenLoops.Inference.WalkerRuns
import OpenLoops.Graph.Transaction
import OpenLoops.Graph.TransactionRuns
import OpenLoops.Graph.Fetch
import OpenLoops.Graph.Reminders
import OpenLoops.Graph.SessionRuns
import OpenLoops.Graph.WriteOnce
import OpenLoops.Graph.ReminderRuns
import OpenLoops.Graph.SessionDiscipline
import OpenLoops.Graph.Listing
import OpenLoops.Graph.Coverage
import OpenLoops.Graph.Hydration
import OpenLoops.Graph.HydrationRuns
import OpenLoops.Graph.Encoding
import OpenLoops.Graph.Mime
import OpenLoops.Graph.EncodedWords
import OpenLoops.Graph.AddressLists
import OpenLoops.Graph.Callback
import OpenLoops.Graph.CheckedEncoding
import OpenLoops.Graph.MarkerEnumeration
import OpenLoops.Graph.Transport
import OpenLoops.Graph.Session
import OpenLoops.Desktop.Credential
import OpenLoops.Desktop.LoopState
import OpenLoops.Desktop.LoopCodec
import OpenLoops.Desktop.LoopStateRuns
import OpenLoops.Desktop.LinkState
import OpenLoops.Desktop.LinkStateRuns
import OpenLoops.Desktop.Windows
import OpenLoops.Desktop.SharedState
import OpenLoops.Desktop.NameCipher
import OpenLoops.Desktop.NameCoding
import OpenLoops.Desktop.NameForms
import OpenLoops.Desktop.NameMatching
import OpenLoops.Desktop.NameEncoding
import OpenLoops.Desktop.KnownNames
import OpenLoops.Desktop.RequestEncoding
import OpenLoops.Desktop.Pseudonyms
import OpenLoops.Desktop.KnownAddresses
import OpenLoops.Desktop.InventedWords
import OpenLoops.Desktop.PlainWords
import OpenLoops.Desktop.NameDecoding
import OpenLoops.Desktop.NameRoundTrip
import OpenLoops.Desktop.SavedSettings
import OpenLoops.Desktop.WindowRuns
import OpenLoops.Review.Item
import OpenLoops.Review.Rules
import OpenLoops.Review.Subject
import OpenLoops.Review.Threads
import OpenLoops.Review.ThreadMerging
import OpenLoops.Review.ThreadOrder
import OpenLoops.Review.ParallelPass
import OpenLoops.Review.PassRuns
import OpenLoops.Review.Triage
import OpenLoops.Review.TriageResults
import OpenLoops.Review.TriagePass
import OpenLoops.Review.Closure
import OpenLoops.Review.ClosureRequests
import OpenLoops.Review.ChatClosure
import OpenLoops.Review.ChatClosureRuns
import OpenLoops.Review.Coverage
import OpenLoops.Review.Conversations
import OpenLoops.Review.CoverageTally
import OpenLoops.Review.PassAnswers
import OpenLoops.Review.CoverageRuns
import OpenLoops.Review.Extraction
import OpenLoops.Review.ExtractionDocument
import OpenLoops.Review.ExtractionClaims
import OpenLoops.Review.ExtractionAssembly
import OpenLoops.Review.ExtractionRuns
import OpenLoops.Review.RelativeDates
import OpenLoops.Review.RelativeDateRuns
import OpenLoops.Review.LoopLinks
import OpenLoops.Review.LoopLinkRuns
import OpenLoops.Review.UnlinkingRuns
import OpenLoops.Review.DeadlineView
import OpenLoops.Review.PassedEvents
import OpenLoops.Review.Sources
import OpenLoops.Review.Merging
import OpenLoops.Review.SourceRuns
import OpenLoops.Review.StoppedScans
import OpenLoops.Review.GovernedDeadlines
import OpenLoops.Review.BodyText
import OpenLoops.Review.Preparing
import OpenLoops.Review.LongMessages
import OpenLoops.Review.DuplicateActions
import OpenLoops.Review.ClosureWalk
import OpenLoops.Review.StepVerdicts
import OpenLoops.Review.EventTimes
import OpenLoops.Review.PassAccounts
import OpenLoops.Review.Recap
import OpenLoops.Review.State
