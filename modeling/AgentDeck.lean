import AgentDeck.Lib.SortedMap
import AgentDeck.Lib.History
import AgentDeck.Lib.Pattern
import AgentDeck.Lib.Split
import AgentDeck.Time
import AgentDeck.Text
import AgentDeck.Attempts.Types
import AgentDeck.Attempts.Model
import AgentDeck.Attempts.Record
import AgentDeck.Attempts.Evolves
import AgentDeck.Attempts.Moves
import AgentDeck.Attempts.Operations
import AgentDeck.Attempts.Runs
import AgentDeck.Attempts.Safety
import AgentDeck.Attempts.Identity
import AgentDeck.Attempts.Evidence
import AgentDeck.Attempts.Clearance
import AgentDeck.Attempts.Repeats
import AgentDeck.Attempts.Receivers
import AgentDeck.Attempts.Actions
import AgentDeck.Attempts.Cancellation
import AgentDeck.Attempts.Corrections
import AgentDeck.Doorbell.Latch
import AgentDeck.Doorbell.LatchRace
import AgentDeck.Doorbell.Token
import AgentDeck.Doorbell.Txn
import AgentDeck.Doorbell.Steps
import AgentDeck.Doorbell.Handlers
import AgentDeck.Doorbell.Steady
import AgentDeck.Doorbell.Runs
import AgentDeck.Doorbell.Lines
import AgentDeck.Doorbell.Enter
import AgentDeck.Doorbell.Jobs
import AgentDeck.Inbox.Types
import AgentDeck.Inbox.Store
import AgentDeck.Inbox.Operations
import AgentDeck.Inbox.Steps
import AgentDeck.Inbox.Effects
import AgentDeck.Inbox.Runs
import AgentDeck.Inbox.LifeCycle
import AgentDeck.Inbox.Offers
import AgentDeck.Inbox.History
import AgentDeck.Inbox.Posts
import AgentDeck.Inbox.Bounds
import AgentDeck.Inbox.Dedup
import AgentDeck.Inbox.Scopes
import AgentDeck.Inbox.Framing
import AgentDeck.Inbox.Render
import AgentDeck.Inbox.Blocks
import AgentDeck.Inbox.RoundTrip
import AgentDeck.Retained.Names
import AgentDeck.Retained.State
import AgentDeck.Retained.Inventory
import AgentDeck.Retained.Machine
import AgentDeck.Retained.Steps
import AgentDeck.Retained.Rooms
import AgentDeck.Retained.Sections
import AgentDeck.Retained.Filed
import AgentDeck.Retained.Recount
import AgentDeck.Retained.Bounds
import AgentDeck.Retained.Admission
import AgentDeck.Retained.Lifetimes
import AgentDeck.Retained.Touches
import AgentDeck.Retained.Covered
import AgentDeck.Retained.Exact
import AgentDeck.Lib.Runs
import AgentDeck.Lib.Repay
import AgentDeck.Probe.Hazard
import AgentDeck.Probe.HazardWatch
import AgentDeck.Probe.HazardRuns
import AgentDeck.Probe.Epoch
import AgentDeck.Probe.Pairs
import AgentDeck.Probe.Gate
import AgentDeck.Probe.GateBytes
import AgentDeck.Probe.GateRuns
import AgentDeck.Probe.Record
import AgentDeck.Probe.RecordSteps
import AgentDeck.Probe.RecordLedger
import AgentDeck.Probe.RecordOps
import AgentDeck.Probe.RecordEffects
import AgentDeck.Probe.RecordRuns
import AgentDeck.Probe.Line
import AgentDeck.Probe.LineSteps
import AgentDeck.Probe.LineRuns
import AgentDeck.Lib.Serial
import AgentDeck.Probe.Segments
import AgentDeck.Probe.SegmentSteps
import AgentDeck.Probe.SegmentOps
import AgentDeck.Probe.SegmentRuns
import AgentDeck.Probe.EpochRuns
import AgentDeck.Probe.Settlement
import AgentDeck.Probe.SettlementSteps
import AgentDeck.Probe.SettlementRuns
import AgentDeck.Dispatch.Cron
import AgentDeck.Dispatch.Claims
import AgentDeck.Dispatch.Upkeep
import AgentDeck.Spills.Ledger
import AgentDeck.Spills.Manifest
import AgentDeck.Spills.Steps
import AgentDeck.Spills.Books
import AgentDeck.Spills.Restarts
import AgentDeck.HookOrder.Order
import AgentDeck.HookOrder.Turns
import AgentDeck.HookOrder.Accepted
import AgentDeck.Ingress.Ledger
import AgentDeck.Ingress.Steps
import AgentDeck.Ingress.Accounts
import AgentDeck.OneShot.Batch
import AgentDeck.OneShot.Emits
import AgentDeck.OneShot.Json
import AgentDeck.OneShot.Envelope
import AgentDeck.OneShot.Exact
import AgentDeck.OneShot.Reported
import AgentDeck.OneShot.Unmissed
import AgentDeck.Evidence.Frames
import AgentDeck.Usage.CodexReport
import AgentDeck.Lib.Debts
import AgentDeck.Lib.KeySets
import AgentDeck.Collector.Aggregate
import AgentDeck.Collector.Attribution
import AgentDeck.Collector.Credit
import AgentDeck.Collector.Orders
import AgentDeck.Collector.Reaping
import AgentDeck.Collector.Balance
import AgentDeck.Collector.Conserved
import AgentDeck.Collector.Once
import AgentDeck.Lib.PartialEq
import AgentDeck.Keymap.CodexSources
import AgentDeck.Keymap.CodexReads
import AgentDeck.Keymap.Forward
import AgentDeck.Keymap.Followed
import AgentDeck.Keymap.Latched
import AgentDeck.Ci.Rounds
import AgentDeck.Ci.Tracker
import AgentDeck.Ci.Observed
import AgentDeck.Ci.Accounted
import AgentDeck.Ci.Folded
import AgentDeck.Ci.Cards
import AgentDeck.Ci.RecordedOnce
import AgentDeck.Handoff.Handoffs
import AgentDeck.Handoff.Sound
import AgentDeck.Handoff.Applied
import AgentDeck.Handoff.Follows
import AgentDeck.Handoff.Calls
import AgentDeck.Handoff.Posts
import AgentDeck.Handoff.Aside
import AgentDeck.Handoff.Overtaken
import AgentDeck.Handoff.Beside
import AgentDeck.Handoff.Replayed
import AgentDeck.Handoff.OnceEach
import AgentDeck.Inbox.Addresses
import AgentDeck.Lib.WaitFor
import AgentDeck.Locks.Ranked
import AgentDeck.Locks.Sound
import AgentDeck.Locks.Deadlock
import AgentDeck.Lib.Recent
import AgentDeck.Recovery.Ledger
import AgentDeck.Recovery.Units
import AgentDeck.Recovery.Tombstones
import AgentDeck.Recovery.Bounded
import AgentDeck.Lib.SlidingWindow
import AgentDeck.Inbox.Rate
import AgentDeck.Inbox.RateRuns
import AgentDeck.Schedule.FireGap
import AgentDeck.Schedule.LongestGap
import AgentDeck.Schedule.StepBound
import AgentDeck.Probe.HazardReads
import AgentDeck.Probe.HazardReadRuns
import AgentDeck.Probe.Intervals
import AgentDeck.Probe.IntervalRuns
import AgentDeck.Probe.FrontierQueue
import AgentDeck.Schedule.Catchup
import AgentDeck.Lib.Lines
import AgentDeck.OneShot.Sends
import AgentDeck.Bounded.CappedLine
import AgentDeck.Attempts.Onward
import AgentDeck.Attempts.Watermark
