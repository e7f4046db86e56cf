import Konsul.Graphql.Resolver
import Konsul.Handlers.Touches

/-!
# The HTTP routes (cmd/konsul/main.go)

A server with authentication and access control enabled. `serve` is what becomes
of a request: the middleware in the order of registration, then the handler. A
`Target` is a route with what its handler takes from the request; a body of
`none` is one that does not parse.
-/

namespace Konsul

open GoLib

inductive Target where
  | kvList (consistent : Bool)
  | kvGet (key : GoString) (consistent includeMetadata : Bool)
  | kvSet (key : GoString) (body : Option KVSetBody)
  | kvDelete (key : GoString) (cas : CasParam)
  | register (body : Option RegisterBody)
  | deregister (name : GoString) (cas : CasParam)
  | heartbeat (name : GoString)
  | serviceList
  | serviceGet (name : GoString) (includeMetadata : Bool)
  | queryByTags (args : QueryArgs)
  | queryByMetadata (args : QueryArgs)
  | queryByTagsAndMetadata (args : QueryArgs)
  | agentRegister (id : Option GoString)
  | agentSync (body : Option SyncRequest)
  | agentBatchUpdate (body : Option BatchUpdate)
  | agentHealthUpdate (parses : Bool)
  | selectService (name : GoString)
  | selectServiceByTags (args : QueryArgs)
  | selectServiceByMetadata (args : QueryArgs)
  | selectServiceByQuery (args : QueryArgs)
  | batchKVGet (consistent : Bool) (body : Option (List GoString))
  | batchKVSet (body : Option (GoMap GoString GoString))
  | batchKVDelete (body : Option (List GoString))
  | batchKVSetCAS (body : Option BatchHandler.BatchKVSetCASRequest)
  | batchKVDeleteCAS (body : Option BatchHandler.BatchKVDeleteCASRequest)
  | batchServiceGet (body : Option (List GoString))
  | batchServiceRegister (body : Option (List Service))
  | batchServiceDeregister (body : Option (List GoString))
  | healthCheck
  | liveness
  | listChecks
  | serviceChecks (name : GoString)
  | updateTTLCheck (checkID : GoString)
  | createBackup
  | restoreBackup (body : Option GoString)
  | exportData
  | importData (body : Option (List (Bytes × Json)))
  | listBackups
  /-- `none` is a document that is refused. -/
  | graphql (operation : Option Operation)
  /-- Logins, policies, rate limits, the registry of agents, the strategy of the balancer, the
  cluster, the metrics and the admin interface: their handlers call no store. -/
  | other

/-! ### What the router matches -/

/-- A path that the patterns `/kv/`, `/kv/:key` and `/kv/*` match with this key: the
constant part in either case, and slashes at the end that do not count. -/
def KVPath (path key : GoString) : Prop :=
  ∃ base ∈ [str "/kv", str "/KV", str "/kV", str "/Kv"], ∃ n : ℕ,
    path = base ++ (if key = [] then [] else Path.slash :: key) ++ List.replicate n Path.slash

/-- A route for GET answers HEAD too. -/
def Gets (method : GoString) : Prop := method = str "GET" ∨ method = str "HEAD"

/-- What the router promises the routes below `/kv`. The routes for GET begin with the list,
so that a key read is not empty. -/
def Routed (method path : GoString) : Target → Prop
  | .kvList _ => Gets method ∧ KVPath path []
  | .kvGet key _ _ => Gets method ∧ key ≠ [] ∧ KVPath path key
  | .kvSet key _ => method = str "PUT" ∧ KVPath path key
  | .kvDelete key _ => method = str "DELETE" ∧ KVPath path key
  | _ => True

structure HttpRequest where
  method : GoString
  path : GoString
  authHeader : GoString
  /-- The time at which its token is looked at. -/
  now : Time
  /-- The reply of the rate limiter, if it turns the request away. -/
  limited : Option Response
  target : Target
  routed : Routed method path target

/-- A server; `auth` and `evaluator` are there, as both are enabled. -/
structure Server where
  requireAuth : Bool
  auth : JWTAuth
  re : Regexp
  evaluator : Evaluator
  raft : Bool
  engine : Option EngineKind

inductive HttpReply where
  | display (d : Display)
  | data (fields : List FieldResult)

/-! ### The handlers -/

/-- A handler that writes. -/
def writes (h : Handler Response) : Reader Display := do
  return .response (← Reader.ofHandler h)

/-- The handler of a route other than GraphQL. -/
def Target.handler (S : Server) : Target → Reader Display
  | .kvList consistent => KVHandler.list S.raft consistent
  | .kvGet key consistent includeMetadata => KVHandler.get S.raft consistent includeMetadata key
  | .kvSet key body => writes (KVHandler.set S.raft key body)
  | .kvDelete key cas => writes (KVHandler.delete S.raft key cas)
  | .register body => writes (ServiceHandler.register S.raft body)
  | .deregister name cas => writes (ServiceHandler.deregister S.raft name cas)
  | .heartbeat name => writes (ServiceHandler.heartbeat S.raft name)
  | .serviceList => ServiceHandler.list
  | .serviceGet name includeMetadata => ServiceHandler.get includeMetadata name
  | .queryByTags args => ServiceHandler.queryByTags args
  | .queryByMetadata args => ServiceHandler.queryByMetadata args
  | .queryByTagsAndMetadata args => ServiceHandler.queryByTagsAndMetadata args
  | .agentRegister id => writes (AgentHandlers.handleAgentRegister id)
  | .agentSync body => AgentHandlers.handleAgentSync body
  | .agentBatchUpdate body => writes (AgentHandlers.handleBatchUpdate body)
  | .agentHealthUpdate parses => writes (AgentHandlers.handleHealthUpdate parses)
  | .selectService name => LoadBalancerHandler.selectService name
  | .selectServiceByTags args => LoadBalancerHandler.selectServiceByTags args
  | .selectServiceByMetadata args => LoadBalancerHandler.selectServiceByMetadata args
  | .selectServiceByQuery args => LoadBalancerHandler.selectServiceByQuery args
  | .batchKVGet consistent body => BatchHandler.batchKVGet S.raft consistent body
  | .batchKVSet body => writes (BatchHandler.batchKVSet S.raft body)
  | .batchKVDelete body => writes (BatchHandler.batchKVDelete S.raft body)
  | .batchKVSetCAS body => writes (BatchHandler.batchKVSetCAS S.raft body)
  | .batchKVDeleteCAS body => writes (BatchHandler.batchKVDeleteCAS S.raft body)
  | .batchServiceGet body => BatchHandler.batchServiceGet body
  | .batchServiceRegister body => writes (BatchHandler.batchServiceRegister S.raft body)
  | .batchServiceDeregister body => writes (BatchHandler.batchServiceDeregister S.raft body)
  | .healthCheck => HealthHandler.check
  | .liveness => HealthHandler.liveness
  | .listChecks => HealthCheckHandler.listChecks
  | .serviceChecks name => HealthCheckHandler.getServiceChecks name
  | .updateTTLCheck checkID => writes (HealthCheckHandler.updateTTLCheck S.raft checkID)
  | .createBackup => BackupHandler.createBackup S.engine
  | .restoreBackup body => BackupHandler.restoreBackup S.engine body
  | .exportData => BackupHandler.exportData S.engine
  | .importData body => BackupHandler.importData S.engine body
  | .listBackups => BackupHandler.listBackups S.engine
  | .graphql _ => return .status
  | .other => return .status

/-- The routes of the group on which the access control is mounted. -/
def Target.underKV : Target → Bool
  | .kvList _ => true
  | .kvGet _ _ _ => true
  | .kvSet _ _ => true
  | .kvDelete _ _ => true
  | _ => false

/-! ### The chain -/

namespace Server

variable (S : Server) (req : HttpRequest)

/-- The middleware of all routes: the claims that go on with the request, if it does. -/
def middleware : Except Response (Option Claims) :=
  match req.limited with
  | some response => .error response
  | none =>
    if S.requireAuth then
      match S.auth.handle req.now req.path req.authHeader with
      | .stop status error => .error (json status [(str "error", .text error)])
      | .next claims => .ok claims
    else .ok none

/-- The access control sees the method and the path: its own pattern has no parameters. -/
def ctx : Ctx := ⟨req.method, req.path, []⟩

def handle (claims : Option Claims) : Web HttpReply :=
  match req.target with
  | .graphql (some (.query fields)) => do
    return .data (← Reader.under StoreCall.capability (answerAll Resolver.queryField fields))
  | .graphql (some (.mutation fields)) => do
    let claims := claimsFromGraphQLContext S.auth req.now req.authHeader
    return .data (← answerAll (mutationField S.raft claims) fields)
  | .graphql _ => return .data []
  | target => do
    let handler := Reader.under StoreCall.capability (target.handler S)
    return .display (← if target.underKV then dynamicACL claims (ctx req) handler else handler)

def serve : Web HttpReply :=
  match S.middleware req with
  | .error response => return .display (.response response)
  | .ok claims => S.handle req claims

end Server

end Konsul
