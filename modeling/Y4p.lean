import Y4p.Lib.Program
import Y4p.Lib.Ranking
import Y4p.Lib.Ensures
import Y4p.Core.Utils
import Y4p.Core.Cdc
import Y4p.Core.Payload
import Y4p.Core.Config
import Y4p.Storage.Db
import Y4p.Storage.Transaction
import Y4p.Storage.Effects
import Y4p.Storage.Chunks
import Y4p.Storage.Payloads
import Y4p.Storage.Store
import Y4p.Storage.ChunkInvariant
import Y4p.Storage.Rotation
import Y4p.Storage.Atomicity
import Y4p.Storage.Progress
import Y4p.Storage.Facade
import Y4p.Storage.Survival
import Y4p.Storage.Agreement
import Y4p.Storage.Tenants
import Y4p.Storage.Concurrency
import Y4p.Storage.SpooledInsert
import Y4p.Wayland.State
import Y4p.Daemon.Restore
import Y4p.Daemon.Echoes
import Y4p.Core.Splice
import Y4p.Core.Sniff
import Y4p.Core.Mimes
import Y4p.Core.UriList
import Y4p.Core.Xml
import Y4p.Core.Reader
import Y4p.Core.Bounded
import Y4p.Wayland.Ingestion
import Y4p.Image.Breaker
import Y4p.Image.Transcode
import Y4p.Image.Route
import Y4p.Daemon.Spool
import Y4p.Daemon.Workshop
import Y4p.Daemon.Worker
import Y4p.Daemon.Pipeline
import Y4p.Daemon.Custody
import Y4p.Lib.Precedence
import Y4p.Daemon.History
import Y4p.Daemon.Convert
import Y4p.Lib.Gauge
import Y4p.Lib.Ownership
import Y4p.Wayland.Ingest
import Y4p.Wayland.Admission
import Y4p.Image.Circuit
import Y4p.Image.Routing
import Y4p.Image.Pipeline
import Y4p.Image.Watchdog
import Y4p.Image.Deadline
import Y4p.Core.Decimal
import Y4p.Daemon.Ipc
import Y4p.Daemon.Handover
import Y4p.Wayland.Source
import Y4p.Wayland.Compatibility
import Y4p.Wayland.Egress
import Y4p.Lib.Preference
import Y4p.Wayland.Selecting
import Y4p.Daemon.Paste
import Y4p.Core.FastCdc
import Y4p.Storage.Expiry
import Y4p.Storage.Search
import Y4p.Cli.Target
import Y4p.Daemon.Spooling
import Y4p.Daemon.Globals
import Y4p.Storage.Migrations
import Y4p.Storage.Versions
import Y4p.Storage.Upgrade
import Y4p.Storage.Recovery
import Y4p.Storage.Openings
import Y4p.Cli.Args
import Y4p.Cli.Range
import Y4p.Cli.List
import Y4p.Cli.Store
import Y4p.Storage.TextMimes
import Y4p.Daemon.Bypass
import Y4p.Daemon.Markup
import Y4p.Core.Tags
import Y4p.Core.Number
import Y4p.Lib.Latest
import Y4p.Core.StrIndex
import Y4p.Core.Settings
import Y4p.Core.GearWindow
import Y4p.Daemon.SpoolNames
import Y4p.Cli.Render
import Y4p.Image.Throttle
import Y4p.Lib.FileTree
import Y4p.Image.Sandbox
import Y4p.Image.Scratch
import Y4p.Lib.Recency
import Y4p.Storage.Deduplication
import Y4p.Storage.Identity
import Y4p.Storage.Mru
import Y4p.Storage.Retention
import Y4p.Cli.Commands
import Y4p.Cli.Console
import Y4p.Cli.Acts
import Y4p.Cli.Clipboard
import Y4p.Wayland.Selection
import Y4p.Daemon.Loop
import Y4p.Daemon.Readers
import Y4p.Daemon.Accounts
import Y4p.Daemon.Turns
import Y4p.Daemon.Promises
