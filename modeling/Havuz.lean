import Havuz.Lib.Run
import Havuz.Lib.SortedMap
import Havuz.Protocol
import Havuz.Flow
import Havuz.Sql.Scan
import Havuz.Sql.Params
import Havuz.Sql.Classify
import Havuz.Prepared
import Havuz.Routing
import Havuz.Backend
import Havuz.Relay
import Havuz.Relay.Turn
import Havuz.Relay.Queue
import Havuz.Relay.CleanReturn
import Havuz.Server.Mini
import Havuz.Relay.Waiting
import Havuz.Relay.InStep
import Havuz.Relay.Cache
import Havuz.Relay.Binding
import Havuz.Relay.Conserve
import Havuz.Lib.Interleave
import Havuz.Pool.Bounds
import Havuz.Breaker.Model
import Havuz.Breaker.OneProbe
import Havuz.Routing.Probe
import Havuz.Pool.Drain
import Havuz.Cancel.Keys
import Havuz.Relay.Failover
import Havuz.Relay.Executed
import Havuz.Relay.Writes
import Havuz.Relay.OneTarget
import Havuz.Relay.Delivery
import Havuz.Relay.Sticky
import Havuz.Wire
import Havuz.Shovel.Model
import Havuz.Shovel.Scanner
import Havuz.Shovel.Recycle
import Havuz.Lib.Fallible
import Havuz.Registry
import Havuz.State
import Havuz.Listeners
import Havuz.Handshake
import Havuz.Families.Model
import Havuz.Families.Rebuild
import Havuz.Families.Requests
import Havuz.Families.Converge
import Havuz.Store.Model
import Havuz.Store.Agree
import Havuz.Admission.Model
import Havuz.Admission.Revoke
import Havuz.Lib.Base64
import Havuz.Scram.Attributes
import Havuz.Scram.Verifier
import Havuz.Scram.Exchange
import Havuz.Scram.Sound
import Havuz.Admission.Passthrough
import Havuz.PerUser.Model
import Havuz.PerUser.InUse
import Havuz.PerUser.Total
import Havuz.Lib.Triple
import Havuz.Jdbc.Rewrite
import Havuz.Jdbc.Agent
import Havuz.Jdbc.Session
import Havuz.Jdbc.Serve
import Havuz.Jdbc.Turn
import Havuz.Jdbc.Clean
import Havuz.Jdbc.Driver
import Havuz.Jdbc.Guard
import Havuz.Jdbc.Undone
import Havuz.Jdbc.Replies
import Havuz.Jdbc.Contract
import Havuz.Jdbc.Marks
import Havuz.Jdbc.Portals
import Havuz.Jdbc.Queue
import Havuz.Pool.Retire
import Havuz.Jdbc.Owned
import Havuz.Secrets.Store
import Havuz.Secrets.Owners
import Havuz.Server.Pooler
import Havuz.Server.Ports
import Havuz.Postgres.Lexer
import Havuz.Words
import Havuz.Postgres.Statement
import Havuz.Sql.Walk
import Havuz.Sql.Cuts
import Havuz.Sql.Pieces
import Havuz.Sql.Noise
import Havuz.Sql.Pins
import Havuz.Sql.Shown
import Havuz.Sql.Routes
import Havuz.Shovel.Goodbye
import Havuz.Sql.ReadOnly
import Havuz.Sql.Permissions
import Havuz.Jdbc.Control
import Havuz.Jdbc.Calls
import Havuz.Utf8
import Havuz.Jdbc.Bind
import Havuz.Jdbc.Types
import Havuz.Jdbc.Placeholders
import Havuz.Jdbc.Strict
import Havuz.Json.Model
import Havuz.Json.Document
import Havuz.Json.Complete
import Havuz.Json.Reject
import Havuz.Json.Pipe
import Havuz.Pool.Reap
import Havuz.Routing.RoundRobin
import Havuz.Trace.Capture
import Havuz.Sql.Patch
import Havuz.Prepared.Fifo
import Havuz.Startup
import Havuz.Codec
import Havuz.Prepared.Rename
import Havuz.Trace.Session
import Havuz.Postgres.Along
import Havuz.Postgres.Settings
import Havuz.Sql.Tokens
import Havuz.Sql.Named
import Havuz.Sql.Misread
import Havuz.Pool.Snapshot
import Havuz.Pins
import Havuz.Trace.Store
import Havuz.Login.Password
import Havuz.Login.Agree
import Havuz.Metrics
