import DevMode.Text.Cut
import DevMode.Text.Utf8
import DevMode.RemotePath
import DevMode.Environment
import DevMode.Console
import DevMode.FileTree
import DevMode.Source
import DevMode.Change
import DevMode.Ignore.Rules
import DevMode.Recipe.Resolve
import DevMode.Manifest
import DevMode.FileEvent
import DevMode.Log.Shown
import DevMode.Pipe
import DevMode.Cancellation
import DevMode.Report
import DevMode.BatchLoop
import DevMode.Platform.Codec
import DevMode.Recipe.Command
import DevMode.Registry
import DevMode.Build.Context
import DevMode.Sync.Message
import DevMode.Sync.Script
import DevMode.Sync.Engine
import DevMode.Platform.Memory
import DevMode.Platform.Outage
import DevMode.Session.Run
import DevMode.Proofs.Location
import DevMode.Proofs.LocalPath
import DevMode.Proofs.World
import DevMode.Proofs.Delivery
import DevMode.Proofs.Pipe
import DevMode.Proofs.Stream
import DevMode.Proofs.Transfer
import DevMode.Proofs.Upload
import DevMode.Proofs.Trace
import DevMode.Proofs.Parts
import DevMode.Proofs.Teardown
import DevMode.Proofs.LogLines
import DevMode.Proofs.CleanPath
import DevMode.Proofs.Containment
import DevMode.Proofs.Ignored
import DevMode.Proofs.ContextFiles
import DevMode.Proofs.LastChange
import DevMode.Proofs.Exchange
import DevMode.Proofs.Flushes
import DevMode.Proofs.Edits
import DevMode.Proofs.Told
import DevMode.Proofs.Comeback
import DevMode.Proofs.References
import DevMode.Proofs.Instructions
import DevMode.Proofs.Gaps
import DevMode.Proofs.Stages
import DevMode.Proofs.Destinations
import DevMode.Proofs.Polling
import DevMode.Proofs.Cancelled
import DevMode.Proofs.LogCopy
import DevMode.Proofs.BuildLog
import DevMode.Proofs.Markup
import DevMode.Proofs.RemoteFile
import DevMode.Proofs.Reports
import DevMode.Proofs.Setup
import DevMode.Proofs.Vanished
import DevMode.Proofs.Routing
import DevMode.Proofs.Descent
import DevMode.Proofs.Covering
import DevMode.Proofs.Address
import DevMode.Proofs.Login
import DevMode.Proofs.LogFormat
import DevMode.Proofs.Looks
import DevMode.Proofs.Processes
import DevMode.Proofs.Resolved
import DevMode.Proofs.Expansion
import DevMode.Proofs.DottedRules
import DevMode.Proofs.IgnoreLines
import DevMode.Proofs.Tails
import DevMode.Proofs.Turns
import DevMode.Proofs.Following
import DevMode.Proofs.Matching
import DevMode.Proofs.Depth
import DevMode.Proofs.Accepted
import DevMode.Proofs.EscapeCode
import DevMode.Proofs.ScreenCommands
import DevMode.Proofs.Colors
import DevMode.Proofs.Canonical
import DevMode.Proofs.Grouping
import DevMode.Proofs.Beneath
