import RequestWindows.Main
import RequestWindows.Proofs.Collection.Bindings
import RequestWindows.Proofs.Store.Feed
import RequestWindows.Proofs.Store.Carry
import RequestWindows.Proofs.Reader.Timeline
import RequestWindows.Proofs.Reader.Build
import RequestWindows.Proofs.Reader.Run
import RequestWindows.Proofs.Reader.Completion
import RequestWindows.Proofs.EventLog.Scan
import RequestWindows.Proofs.Reader.Chain
import RequestWindows.Proofs.Reader.Kept
import RequestWindows.Proofs.Reader.Loading
import RequestWindows.Proofs.Reader.BadEntry
import RequestWindows.Proofs.EventLog.Orderly
import RequestWindows.Proofs.Reader.Provenance
import RequestWindows.Proofs.Reader.Horizon
import RequestWindows.Proofs.Reader.History
import RequestWindows.Proofs.Reader.Ascending
import RequestWindows.Proofs.EventLog.Files
import RequestWindows.Proofs.Writer.Run
import RequestWindows.Proofs.Writer.Placement
import RequestWindows.Proofs.Writer.Sealing
import RequestWindows.Proofs.Writer.Retention
import RequestWindows.Proofs.Text.Utf8
import RequestWindows.Proofs.Json.RoundTrip
import RequestWindows.Proofs.Number.Rounding
import RequestWindows.Proofs.Number.Shortest
import RequestWindows.Proofs.Json.Numbers
import RequestWindows.Proofs.Event.Line
import RequestWindows.Proofs.Event.Lossless
import RequestWindows.Proofs.EventLog.Plain
import RequestWindows.Proofs.EventLog.Canonical
import RequestWindows.Proofs.EventLog.Wipe
import RequestWindows.Proofs.EventLog.Alike
import RequestWindows.Proofs.EventLog.Faithful
import RequestWindows.Proofs.Writer.Faithful
import RequestWindows.Proofs.Reader.Direct
import RequestWindows.Proofs.EndToEnd
import RequestWindows.Proofs.Writer.Immutable
import RequestWindows.Proofs.Writer.OpenLogs
import RequestWindows.Proofs.Writer.Timely
import RequestWindows.Proofs.Counters
import RequestWindows.Proofs.Writer.Accounts
import RequestWindows.Proofs.Writer.Ledger
import RequestWindows.Proofs.Reader.Failures
import RequestWindows.Proofs.Reader.Recency
import RequestWindows.Proofs.Reader.Sharing
import RequestWindows.Proofs.Reader.Service
import RequestWindows.Proofs.Reader.Leftover
import RequestWindows.Proofs.Text.ByteOrder
import RequestWindows.Proofs.Store.Columns
import RequestWindows.Proofs.Store.History
import RequestWindows.Proofs.Store.LastWrite
import RequestWindows.Proofs.EventLog.RoundTrip
import RequestWindows.Proofs.Store.Groups
import RequestWindows.Proofs.Store.Rollovers
import RequestWindows.Proofs.Store.Statements
import RequestWindows.Proofs.Store.Frame
import RequestWindows.Proofs.Store.Isolation
import RequestWindows.Proofs.Writer.Settled
import RequestWindows.Proofs.Writer.Routing
import RequestWindows.Proofs.Writer.Batching
import RequestWindows.Proofs.Writer.Retry
import RequestWindows.Proofs.Writer.Restart
import RequestWindows.Proofs.Store.Times
import RequestWindows.Proofs.Settings.Path
import RequestWindows.Proofs.Settings.Accepted
import RequestWindows.Proofs.Store.Coercion
import RequestWindows.Proofs.EventLog.Newest
import RequestWindows.Proofs.Writer.Forward
import RequestWindows.Proofs.Reader.Reporting
