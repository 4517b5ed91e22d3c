import Dagq.Broker.DenialLimiter
import Dagq.Broker.DenialAccounting
import Dagq.Lib.Transition
import Dagq.Oidc.Token
import Dagq.Oidc.Verifier
import Dagq.Oidc.Safety
import Dagq.Turns.Event
import Dagq.Turns.Request
import Dagq.Turns.Session
import Dagq.Turns.Awaited
import Dagq.Turns.Planner
import Dagq.Turns.PlannerInvariant
import Dagq.Turns.PlannerReads
import Dagq.Turns.Wall
import Dagq.Turns.WallAnswers
import Dagq.Lib.Keyed
import Dagq.Memory.Ask
import Dagq.Memory.Host
import Dagq.Memory.Budget
import Dagq.Memory.Waits
import Dagq.Queue.TaskStatus
import Dagq.Replan.Operation
import Dagq.Replan.Store
import Dagq.Replan.Edits
import Dagq.Replan.Writes
import Dagq.Replan.Runs
import Dagq.Replan.OneOpen
import Dagq.Replan.Requests
import Dagq.Sessions.SpanInvariant
import Dagq.Resume.Count
import Dagq.Resume.Limits
import Dagq.Priorities.Kept
import Dagq.Runs.Lifecycle
import Dagq.PreClaim.Alike
import Dagq.PreClaim.Closing
import Dagq.Ledger.Event
import Dagq.PreClaim.Spans
import Dagq.PreClaim.Held
import Dagq.PreClaim.Ends
import Dagq.Defer.Supervisor
import Dagq.Defer.Limit
import Dagq.Defer.Restarts
import Dagq.Fold.Run
import Dagq.Lib.Tiles
import Dagq.Fold.Task
import Dagq.Fold.Tiling
import Dagq.Clone.Protocol
import Dagq.Clone.Restore
import Dagq.Lib.Loop
import Dagq.Shape.Group
import Dagq.Shape.Lexer
import Dagq.Shape.Known
import Dagq.Shape.Part
import Dagq.Shape.Plain
import Dagq.Fold.Settled
import Dagq.Lib.Utf8
import Dagq.Lib.Wildcard
import Dagq.Scope.Glob
import Dagq.Scope.Sharing
import Dagq.Scope.Exact
import Dagq.Lib.Least
import Dagq.Work.Breakdown
import Dagq.Work.Retarget
import Dagq.PreClaim.SlotsFull
import Dagq.PreClaim.SlotsRun
import Dagq.Replan.Places
import Dagq.Replan.Continuation
import Dagq.Replan.ContinuationRun
import Dagq.Replan.Decided
import Dagq.Clone.TurnEnd
import Dagq.Sccache.Gate
import Dagq.Sccache.Turn
import Dagq.Resend.Records
import Dagq.Resend.Threads
import Dagq.Resend.Change
import Dagq.Resend.Kept
import Dagq.Resend.Order
import Dagq.Lib.Rewire
import Dagq.Replan.Plan
import Dagq.Replan.CheckPlan
import Dagq.Replan.PlanChecked
import Dagq.Replan.Replaced
import Dagq.Lib.Search
import Dagq.Replan.ClosesLoop
import Dagq.Replan.Unresolved
import Dagq.Replan.Resolved
import Dagq.Clone.GuardHolds
import Dagq.Clone.Pack
import Dagq.Clone.GuardOverrides
import Dagq.Claim.Order
import Dagq.Work.Windows
import Dagq.Runs.Landable
import Dagq.Resume.Plan
import Dagq.Shape.Advance
import Dagq.Shape.Whole
import Dagq.Lib.Drift
import Dagq.Updates.JobOrder
import Dagq.Tokens.Span
import Dagq.Tokens.SpanTokens
import Dagq.Tokens.Prepared
import Dagq.Tokens.Cuts
import Dagq.Lib.Digits
import Dagq.Ledger.Calendar
import Dagq.Stats.Cursor
import Dagq.Stats.ReadsBack
import Dagq.Lib.Slices
import Dagq.Lib.Debug
import Dagq.Turns.ResetAt
import Dagq.Turns.ResetReads
import Dagq.Lib.Paragraphs
import Dagq.Recheck.Note
import Dagq.Recheck.Latest
import Dagq.Lib.Reach
import Dagq.Lib.Grouped
import Dagq.Graph.Dependency
import Dagq.Graph.Waiters
import Dagq.Graph.View
import Dagq.Lib.Fresh
import Dagq.Headless.Span
import Dagq.Headless.Readings
import Dagq.Tokens.Execution
import Dagq.Tokens.Totals
import Dagq.Tokens.OwnTokens
import Dagq.Lib.Along
import Dagq.Tokens.TurnTokens
import Dagq.Tokens.SessionSums
import Dagq.Tokens.ThreadSums
import Dagq.Tokens.TurnSums
import Dagq.Lib.Lossy
import Dagq.Secrets.LineKind
import Dagq.Secrets.Scan
import Dagq.Secrets.Diff
import Dagq.Secrets.Quoted
import Dagq.Secrets.Printed
import Dagq.Secrets.Findings
import Dagq.Queue.Event
import Dagq.Queue.ClaimFacts
import Dagq.Queue.View
import Dagq.Queue.Ended
import Dagq.Queue.Waits
import Dagq.Queue.Store
import Dagq.Queue.Writes
import Dagq.Queue.Refines
import Dagq.Queue.Steps
import Dagq.Queue.Applied
import Dagq.Queue.Runs
import Dagq.Queue.ReadyAt
import Dagq.Queue.Told
import Dagq.Replan.Apply
import Dagq.Leader.WriteLeader
import Dagq.Lib.Journal
import Dagq.Ledger.Codec
import Dagq.Alerts.Inputs
import Dagq.Alerts.Record
import Dagq.Alerts.Fold
import Dagq.Alerts.ReadsBack
import Dagq.Alerts.Standing
import Dagq.Alerts.Lossy
