import Boveda.Lib.Runs
import Boveda.Lib.Bytes
import Boveda.Lib.Cutter
import Boveda.Lib.Table
import Boveda.Lib.Backlog
import Boveda.Lib.Tries
import Boveda.Lib.Merkle
import Boveda.Lib.SplitTree
import Boveda.Lib.Hex
import Boveda.Lib.Hmac
import Boveda.Lib.JsonTokens
import Boveda.Lib.Json
import Boveda.Lib.JsonDict
import Boveda.Lib.EventStream
import Boveda.Lib.KernelPipe
import Boveda.Lib.StreamReader
import Boveda.Lib.Utf8
import Boveda.Lib.Jcs
import Boveda.Lib.Base64
import Boveda.Lib.OptionFile
import Boveda.Lib.Paths
import Boveda.Lib.Pattern
import Boveda.Lib.Calendar
import Boveda.Lib.Digits
import Boveda.Lib.Slots
import Boveda.Lib.Window
import Boveda.Lib.Scan
import Boveda.Lib.Rolling
import Boveda.Lib.Loop
import Boveda.Catalog.Schema
import Boveda.Catalog.Transactions
import Boveda.Catalog.RefCount
import Boveda.Catalog.Upload
import Boveda.Catalog.Interleaving
import Boveda.Catalog.History
import Boveda.Catalog.Faults
import Boveda.Catalog.Failures
import Boveda.Catalog.Frames
import Boveda.Catalog.Contents
import Boveda.Retention.Purge
import Boveda.Retention.Deletes
import Boveda.Retention.Overlap
import Boveda.Retention.Rounds
import Boveda.Retention.Stages
import Boveda.Retention.Counts
import Boveda.Retention.Expiry
import Boveda.Retention.Behind
import Boveda.Retention.Recovery
import Boveda.Retention.Classify
import Boveda.Retention.Restorable
import Boveda.Lifecycle.Fsm
import Boveda.Catalog.Tamper
import Boveda.Catalog.Tenants
import Boveda.Lifecycle.Commands
import Boveda.Lifecycle.Cleanup
import Boveda.Lifecycle.Turns
import Boveda.Lifecycle.Transitions
import Boveda.Crypto.Envelope
import Boveda.Crypto.Rotation
import Boveda.Crypto.Rollback
import Boveda.Crypto.Chunk
import Boveda.Crypto.Aads
import Boveda.Crypto.Convergent
import Boveda.Crypto.Signature
import Boveda.Pipeline.FastCDC
import Boveda.Pipeline.Boundary
import Boveda.Pipeline.Window
import Boveda.Pipeline.Seal
import Boveda.Crypto.Nonces
import Boveda.Pipeline.Partition
import Boveda.Pipeline.Sizes
import Boveda.Pipeline.Linear
import Boveda.Pipeline.Streaming
import Boveda.Pipeline.Steps
import Boveda.Pipeline.Memory
import Boveda.Pipeline.Child
import Boveda.Pipeline.Progress
import Boveda.Pipeline.Shift
import Boveda.Pipeline.Dedup
import Boveda.Pipeline.Completion
import Boveda.Pipeline.Tasks
import Boveda.Restore.Loop
import Boveda.Restore.Blocks
import Boveda.Restore.Genuine
import Boveda.Restore.RoundTrip
import Boveda.Restore.Verify
import Boveda.Restore.Archive
import Boveda.Restore.Concurrent
import Boveda.Restore.SideBySide
import Boveda.Restore.Quick
import Boveda.Breaker.Circuit
import Boveda.Breaker.Probes
import Boveda.Breaker.Cooldown
import Boveda.Breaker.Reference
import Boveda.Breaker.Router
import Boveda.Breaker.Failover
import Boveda.Outbox.Queue
import Boveda.Outbox.Effects
import Boveda.Outbox.Enqueue
import Boveda.Outbox.Promise
import Boveda.Outbox.NoLoss
import Boveda.Outbox.Fidelity
import Boveda.Outbox.Stamps
import Boveda.Outbox.Schedule
import Boveda.Outbox.Service
import Boveda.Outbox.Outcomes
import Boveda.Manifest.Merkle
import Boveda.Manifest.Rfc6962
import Boveda.Logging.Redact
import Boveda.Logging.Urls
import Boveda.Manifest.Canonical
import Boveda.Manifest.Jcs
import Boveda.Connectors.Stream
import Boveda.Connectors.Commands
import Boveda.Connectors.Blocks
import Boveda.Connectors.Watchdog
import Boveda.Connectors.Pipes
import Boveda.Connectors.Flow
import Boveda.Connectors.Report
import Boveda.Auth.Claims
import Boveda.Auth.Api
import Boveda.Auth.Events
import Boveda.Auth.ServerKeys
import Boveda.Auth.CurrentClaims
import Boveda.Auth.Token
import Boveda.Auth.Tickets
