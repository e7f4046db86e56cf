import Konsul.Lib.Greatest
import Konsul.Lib.GoMap
import Konsul.Lib.Machine
import Konsul.Lib.Utf8
import Konsul.Lib.Decimal
import Konsul.Lib.Json
import Konsul.Lib.JsonRoundTrip
import Konsul.Lib.JsonSize
import Konsul.Store.Errors
import Konsul.Persistence.Memory
import Konsul.Store.KVEntry
import Konsul.Store.KV
import Konsul.Store.KVSpec
import Konsul.Store.Reload
import Konsul.Store.LocalWrites
import Konsul.Store.Aba
import Konsul.Lib.LastWrite
import Konsul.Store.Converge
import Konsul.HealthCheck.Manager
import Konsul.Store.Validation
import Konsul.Store.ServiceIndex
import Konsul.Store.Service
import Konsul.Store.Atomicity
import Konsul.Lib.JsonMap
import Konsul.Raft.Commands
import Konsul.Raft.FSM
import Konsul.Raft.Determinism
import Konsul.Raft.Replica
import Konsul.Raft.SnapshotReplay
import Konsul.Raft.Cleanup
import Konsul.Lib.Program
import Konsul.Raft.Node
import Konsul.Handlers.Endpoints
import Konsul.Handlers.Batch
import Konsul.Handlers.Requests
import Konsul.Handlers.LogOnly
import Konsul.Handlers.Committed
import Konsul.Handlers.CasFidelity
import Konsul.Raft.Effects
import Konsul.Handlers.WriteFidelity
import Konsul.Lib.First
import Konsul.Lib.Strings
import Konsul.Lib.PrefixMap
import Konsul.Lib.Path
import Konsul.Lib.Chan
import Konsul.Acl.Types
import Konsul.Acl.Evaluator
import Konsul.Acl.DenyWins
import Konsul.Watch.Manager
import Konsul.Watch.Registry
import Konsul.Watch.Delivery
import Konsul.Watch.Following
import Konsul.Store.KVEvents
import Konsul.Watch.CommitOrder
import Konsul.Lib.Versions
import Konsul.Raft.Slots
import Konsul.Handlers.OwnIndex
import Konsul.Store.Indexed
import Konsul.Store.ServiceQuery
import Konsul.Store.Expired
import Konsul.HealthCheck.Listing
import Konsul.Store.ServiceChecks
import Konsul.Lib.JsonRecord
import Konsul.Persistence.Engines
import Konsul.Auth.APIKey
import Konsul.Auth.APIKeyLifecycle
import Konsul.Auth.JWT
import Konsul.Middleware.JWT
import Konsul.Handlers.Auth
import Konsul.Auth.Sessions
import Konsul.Acl.PolicyJson
import Konsul.Handlers.Policies
import Konsul.Handlers.PolicyReload
import Konsul.Handlers.Reads
import Konsul.Middleware.Acl
import Konsul.Graphql.Resolver
import Konsul.Handlers.Touches
import Konsul.Cmd.Routes
import Konsul.Cmd.Reach
import Konsul.Cmd.Mediation
import Konsul.Watch.Replay
import Konsul.Store.CasSafety
import Konsul.Store.ServiceCasSafety
import Konsul.Lib.Rfc3339
import Konsul.Lib.Base64
import Konsul.Lib.JsonValues
import Konsul.Store.ServiceJson
import Konsul.Store.ServiceLoad
import Konsul.Store.IndexInvariant
import Konsul.Store.ServiceRecords
import Konsul.Store.QueryExact
import Konsul.Store.ServiceReload
import Konsul.Raft.StartUp
import Konsul.Raft.Registering
import Konsul.Raft.Wire
import Konsul.Raft.LocalCalls
import Konsul.Raft.KVFaithful
import Konsul.Raft.CodecFaithful
import Konsul.Ratelimit.Limiter
import Konsul.Ratelimit.Store
import Konsul.Ratelimit.Cleanup
import Konsul.Agent.Protocol
import Konsul.Agent.Sync
import Konsul.Agent.Cache
import Konsul.Agent.Services
import Konsul.Agent.KV
import Konsul.Lib.Float64
import Konsul.Lib.Rounding
import Konsul.Lib.JsonUntyped
import Konsul.Persistence.Badger
import Konsul.Persistence.Export
import Konsul.Persistence.Backup
import Konsul.Store.Alike
import Konsul.Store.Uses
import Konsul.Persistence.Opened
import Konsul.Handlers.Restore
import Konsul.Handlers.Leadership
import Konsul.Handlers.NotLeader
import Konsul.Store.Snapshot
import Konsul.Agent.Liveness
import Konsul.Lib.Pages
import Konsul.Lib.ParseIP
import Konsul.Dns.Addresses
import Konsul.Agent.Wire
import Konsul.Graphql.Paging
import Konsul.Lib.RWMutex
import Konsul.Store.Locking
import Konsul.Store.QueryPhases
import Konsul.Audit.Manager
import Konsul.Audit.LogFile
import Konsul.Graphql.Dataloader
import Konsul.Graphql.DispatchOnce
import Konsul.Graphql.DepthLimit
import Konsul.Handlers.KVWatch
import Konsul.Handlers.WatchOrder
import Konsul.Handlers.WatchStream
import Konsul.Dns.Server
import Konsul.Dns.Forms
import Konsul.Agent.Health
import Konsul.Agent.HealthReports
import Konsul.Store.BatchDeletes
import Konsul.Ratelimit.Service
import Konsul.Lib.Duration
import Konsul.HealthCheck.TTL
import Konsul.HealthCheck.Monitors
import Konsul.HealthCheck.Tickers
import Konsul.Lib.CleanPath
import Konsul.Handlers.PolicyFiles
import Konsul.Lib.Glob
import Konsul.Lib.MatchPath
import Konsul.Watch.Patterns
import Konsul.Lib.Replace
import Konsul.Lib.Regexp
import Konsul.Lib.Chars
import Konsul.Lib.RegexpTokens
import Konsul.Lib.RegexpStates
import Konsul.Lib.GlobChars
import Konsul.Acl.Expressions
import Konsul.Acl.Patterns
import Konsul.Acl.PatternMeaning
import Konsul.Acl.Readable
import Konsul.Acl.NoPanic
import Konsul.Cmd.CleanKeys
import Konsul.Ratelimit.Timeline
import Konsul.Ratelimit.Quota
import Konsul.Ratelimit.Accrual
import Konsul.Ratelimit.AccessList
import Konsul.Ratelimit.Middleware
import Konsul.Ratelimit.RetryAfter
import Konsul.Ratelimit.Treatment
import Konsul.Lib.Interference
import Konsul.Ratelimit.Concurrent
import Konsul.Lib.RoundRobin
import Konsul.Loadbalancer.Balancer
import Konsul.Loadbalancer.Weights
import Konsul.Loadbalancer.Proportion
import Konsul.Loadbalancer.Overflow
import Konsul.Lib.Circle
import Konsul.Loadbalancer.RingHash
import Konsul.Loadbalancer.Connections
import Konsul.Loadbalancer.EntryPoints
import Konsul.Template.Renderer
import Konsul.Template.RenderedFile
import Konsul.Template.Watcher
import Konsul.Loadbalancer.Fairness
import Konsul.Raft.Membership
import Konsul.Lib.Routing
import Konsul.Cmd.RouteTable
import Konsul.Cmd.Shadowing
import Konsul.Cmd.AuditTrail
import Konsul.Handlers.MonotoneReads
import Konsul.Lib.Linearizable
import Konsul.Handlers.Linearizable
import Konsul.Handlers.EventStream
import Konsul.Agent.Staleness
