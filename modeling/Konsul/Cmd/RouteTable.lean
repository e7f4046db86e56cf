import Konsul.Lib.Path
import Konsul.Lib.Routing
import Konsul.Store.Errors
import Mathlib.Data.List.DropRight

/-!
# The routes of the server (cmd/konsul/main.go)

The routes in the order of registration, each with the methods it answers and its
handler. Middleware is left out: it calls the next route for every request it lets
through. So does the file server of the admin interface when the method is neither
GET nor HEAD, and it answers every path under its own.
-/

namespace Konsul

open GoLib

namespace Router

inductive Method where
  | get | head | post | put | delete | connect | options | trace | patch
  deriving DecidableEq

/-- The handlers the routes are registered for. -/
inductive Action where
  | login | refresh | verify
  | createAPIKey | listAPIKeys | getAPIKey | updateAPIKey | deleteAPIKey | revokeAPIKey
  | createPolicy | listPolicies | getPolicy | updatePolicy | deletePolicy | testPolicy
  | getStats | getConfig | getActiveClients | getClientStatus
  | resetIP | resetAPIKey | resetAll | updateConfig
  | kvList | kvGet | kvSet | kvDelete
  /-- WebSocket or server-sent events. -/
  | kvWatch
  | register | deregister | heartbeat
  | serviceList | serviceGet | queryByTags | queryByMetadata | queryByTagsAndMetadata
  | agentRegister | agentSync | batchUpdate | healthUpdate | listAgents | getAgent
  | selectService | selectServiceByTags | selectServiceByMetadata | selectServiceByQuery
  | getStrategy | updateStrategy
  | batchKVGet | batchKVSet | batchKVDelete | batchKVSetCAS | batchKVDeleteCAS
  | batchServiceGet | batchServiceRegister | batchServiceDeregister
  | check | liveness | readiness | listChecks | getServiceChecks | updateTTLCheck
  | createBackup | restoreBackup | exportData | importData | listBackups
  | clusterStatus | clusterLeader | clusterPeers | clusterJoin | clusterLeave | clusterSnapshot
  | metrics
  | adminUI | redirectToUI
  | graphql | playground
  deriving DecidableEq

structure Route where
  methods : List Method
  path : GoString
  /-- Whether it takes every path that begins with its own. -/
  use : Bool
  action : Action
  deriving DecidableEq

/-- A route for GET is one for HEAD too. -/
def get (path : String) (action : Action) : Route := ⟨[.head, .get], str path, false, action⟩
def post (path : String) (action : Action) : Route := ⟨[.post], str path, false, action⟩
def put (path : String) (action : Action) : Route := ⟨[.put], str path, false, action⟩
def delete (path : String) (action : Action) : Route := ⟨[.delete], str path, false, action⟩
def all (path : String) (action : Action) : Route :=
  ⟨[.get, .head, .post, .put, .delete, .connect, .options, .trace, .patch], str path, false, action⟩

def group (path : String) (routes : List Route) : List Route :=
  routes.map fun r => { r with path := str path ++ r.path }

/-! ### The table -/

def authRoutes : List Route :=
  [post "/auth/login" .login,
    post "/auth/refresh" .refresh,
    get "/auth/verify" .verify] ++
  group "/auth/apikeys"
    [post "/" .createAPIKey,
      get "/" .listAPIKeys,
      get "/:id" .getAPIKey,
      put "/:id" .updateAPIKey,
      delete "/:id" .deleteAPIKey,
      post "/:id/revoke" .revokeAPIKey]

def aclRoutes : List Route :=
  group "/acl"
    [post "/policies" .createPolicy,
      get "/policies" .listPolicies,
      get "/policies/:name" .getPolicy,
      put "/policies/:name" .updatePolicy,
      delete "/policies/:name" .deletePolicy,
      post "/test" .testPolicy]

def adminRateLimitRoutes : List Route :=
  group "/admin/ratelimit"
    [get "/stats" .getStats,
      get "/config" .getConfig,
      get "/clients" .getActiveClients,
      get "/client/:identifier" .getClientStatus,
      post "/reset/ip/:ip" .resetIP,
      post "/reset/apikey/:key_id" .resetAPIKey,
      post "/reset/all" .resetAll,
      put "/config" .updateConfig]

def kvRoutes : List Route :=
  group "/kv"
    [get "/" .kvList,
      get "/:key" .kvGet,
      get "/*" .kvGet,
      put "/:key" .kvSet,
      put "/*" .kvSet,
      delete "/:key" .kvDelete,
      delete "/*" .kvDelete]

def watchRoute : Route := get "/kv/watch/:key" .kvWatch

def registryRoutes : List Route :=
  [put "/register" .register,
    delete "/deregister/:name" .deregister,
    put "/heartbeat/:name" .heartbeat,
    get "/services/" .serviceList,
    get "/services/:name" .serviceGet,
    get "/services/query/tags" .queryByTags,
    get "/services/query/metadata" .queryByMetadata]

def queryRoute : Route := get "/services/query" .queryByTagsAndMetadata

def agentRoutes : List Route :=
  group "/v1/agent"
    [post "/register" .agentRegister,
      post "/sync" .agentSync,
      post "/batch-update" .batchUpdate,
      post "/health-update" .healthUpdate,
      get "/list" .listAgents,
      get "/:id" .getAgent]

def loadBalancerRoutes : List Route :=
  [get "/lb/service/:name" .selectService,
    get "/lb/tags" .selectServiceByTags,
    get "/lb/metadata" .selectServiceByMetadata,
    get "/lb/query" .selectServiceByQuery,
    get "/lb/strategy" .getStrategy,
    put "/lb/strategy" .updateStrategy]

def batchRoutes : List Route :=
  group "/batch"
    [post "/kv/get" .batchKVGet,
      post "/kv/set" .batchKVSet,
      post "/kv/delete" .batchKVDelete,
      post "/kv/set-cas" .batchKVSetCAS,
      post "/kv/delete-cas" .batchKVDeleteCAS,
      post "/services/get" .batchServiceGet,
      post "/services/register" .batchServiceRegister,
      post "/services/deregister" .batchServiceDeregister]

def healthRoutes : List Route :=
  [get "/health" .check,
    get "/health/live" .liveness,
    get "/health/ready" .readiness,
    get "/health/checks" .listChecks,
    get "/health/service/:name" .getServiceChecks,
    put "/health/check/:id" .updateTTLCheck]

def backupRoutes : List Route :=
  group ""
    [post "/backup" .createBackup,
      post "/restore" .restoreBackup,
      get "/export" .exportData,
      post "/import" .importData,
      get "/backups" .listBackups]

def clusterRoutes : List Route :=
  group "/cluster"
    [get "/status" .clusterStatus,
      get "/leader" .clusterLeader,
      get "/peers" .clusterPeers,
      post "/join" .clusterJoin,
      delete "/leave/:id" .clusterLeave,
      post "/snapshot" .clusterSnapshot]

/-- What of the configuration decides the routes. -/
structure Config where
  authEnabled : Bool
  aclEnabled : Bool
  rateLimitEnabled : Bool
  watchEnabled : Bool
  adminUIEnabled : Bool
  adminUIPath : GoString
  graphQLEnabled : Bool
  playgroundEnabled : Bool

/-- The routes of a part that may be disabled. -/
def part (enabled : Bool) (routes : List Route) : List Route := if enabled then routes else []

namespace Config

variable (cfg : Config)

def uiRoute : Route := ⟨[.get, .head], cfg.adminUIPath, true, .adminUI⟩

/-- Up to `/kv/*`. -/
def beforeWatch : List Route :=
  part cfg.authEnabled authRoutes ++ part cfg.aclEnabled aclRoutes ++
    part cfg.rateLimitEnabled adminRateLimitRoutes ++ kvRoutes

def beforeQuery : List Route :=
  cfg.beforeWatch ++ part cfg.watchEnabled [watchRoute] ++ registryRoutes

def beforeUI : List Route :=
  cfg.beforeQuery ++ queryRoute :: (agentRoutes ++ loadBalancerRoutes ++ batchRoutes ++
    healthRoutes ++ backupRoutes ++ clusterRoutes ++ [get "/metrics" .metrics])

/-- Behind the admin interface. -/
def afterUI : List Route :=
  part cfg.adminUIEnabled [get "/" .redirectToUI] ++
    part cfg.graphQLEnabled
      ([all "/graphql" .graphql] ++
        part cfg.playgroundEnabled [get "/graphql/playground" .playground])

def routes : List Route := cfg.beforeUI ++ part cfg.adminUIEnabled [cfg.uiRoute] ++ cfg.afterUI

end Config

/-! ### Matching -/

/-- What the router compares: case and slashes at the end do not count. -/
def detectionPath (path : GoString) : GoString :=
  (path.map lowerByte).rdropWhile (· = Path.slash)

/-- A registered path begins with a slash. -/
def rooted (path : GoString) : GoString :=
  if hasPrefix path [Path.slash] then path else Path.slash :: path

def toPart : GoString → Part
  | [] => .literal []
  | b :: name => if b = 0x3A then .param else .literal (b :: name)

def toPattern : List GoString → PathPattern
  | [] => ⟨[], false⟩
  | segment :: segments =>
    if segment = [0x2A] then ⟨[], true⟩
    else ⟨toPart segment :: (toPattern segments).parts, (toPattern segments).rest⟩

def segments (path : GoString) : List GoString := split Path.slash (detectionPath path)

namespace Route

def pattern (r : Route) : PathPattern := toPattern (segments (rooted r.path))

def takes (r : Route) (path : GoString) : Bool :=
  if r.use then hasPrefix (detectionPath path) (detectionPath (rooted r.path))
  else r.pattern.takes (segments path)

end Route

/-- The routes of one method, which are searched in order. -/
def Config.stack (cfg : Config) (m : Method) : List Route :=
  cfg.routes.filter (m ∈ ·.methods)

/-- The handler that answers, if any does. -/
def Config.answer (cfg : Config) (m : Method) (path : GoString) : Option Action :=
  ((cfg.stack m).find? (·.takes path)).map Route.action

end Router

end Konsul
