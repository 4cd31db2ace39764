import GhostText.Number.Fixed
import GhostText.Text.Bound
import GhostText.Text.Word
import GhostText.Text.Distance
import GhostText.Text.Lines
import GhostText.Text.Quoted
import GhostText.Text.Search
import GhostText.Buffer.Document
import GhostText.Cache
import GhostText.Prediction.Basic
import GhostText.Match.Bounds
import GhostText.Shown.Brackets
import GhostText.Shown.Repeat
import GhostText.Shown.Completion
import GhostText.Request.Options
import GhostText.Answer
import GhostText.Hints.Gather
import GhostText.Hints.Header
import GhostText.Model.Backend
import GhostText.Notice
import GhostText.Json.Reader
import GhostText.Settings.Basic
import GhostText.Settings.Reading
import GhostText.Log
import GhostText.Service.Editor
import GhostText.Service.Settling
import GhostText.Number.Integer
import GhostText.Prediction.Waiting
import GhostText.Replay.Report
import GhostText.Replay.Samples
import GhostText.Replay.CommandLine
import GhostText.Main
import GhostText.Proofs.Answer.Projection
import GhostText.Proofs.Buffer.Offsets
import GhostText.Proofs.Buffer.Splitting
import GhostText.Proofs.Buffer.Undo
import GhostText.Proofs.Cache.Refusal
import GhostText.Proofs.Hints.Gather
import GhostText.Proofs.Match.Column
import GhostText.Proofs.Match.Coordinates
import GhostText.Proofs.Match.Indentation
import GhostText.Proofs.Prediction.Budget
import GhostText.Proofs.Prediction.Waiters
import GhostText.Proofs.Replay.Typing
import GhostText.Proofs.Request.Streaming
import GhostText.Proofs.Request.View
import GhostText.Proofs.Service.Acceptance
import GhostText.Proofs.Service.Again
import GhostText.Proofs.Service.Closing
import GhostText.Proofs.Service.Deadlines
import GhostText.Proofs.Service.Debounce
import GhostText.Proofs.Service.Distinct
import GhostText.Proofs.Service.Failures
import GhostText.Proofs.Service.Isolation
import GhostText.Proofs.Service.Joining
import GhostText.Proofs.Service.PendingLimit
import GhostText.Proofs.Service.Stored
import GhostText.Proofs.Service.Unasked
import GhostText.Proofs.Shown.Accepting
import GhostText.Proofs.Shown.Framing
import GhostText.Proofs.Shown.Repeats
import GhostText.Proofs.Shown.Rewriting
import GhostText.Proofs.Shown.Typing
import GhostText.Proofs.Shown.Window
import GhostText.Proofs.Text.Canonical
