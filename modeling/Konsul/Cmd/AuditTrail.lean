import Konsul.Cmd.Routes
import Konsul.Cmd.Shadowing
import Konsul.Middleware.Audit

/-!
# The audit trail of the server (cmd/konsul/main.go)

The middleware between the routes, in the order of registration. `serve` is what becomes of
a request and which events it leaves: none where a guard turns it away, and otherwise those
its answer is audited for. `trail_exact` says which these are.
-/

namespace Konsul

open GoLib

namespace Router

/-! ### The middleware -/

/-- The handlers that may answer in the place of those behind them. -/
inductive Guard where
  | cors
  | rateLimit
  | jwt
  | adminACL
  | dynamicACL
  deriving DecidableEq

/-- The configurations `AuditMiddleware` is made with. -/
inductive Trail where
  | auth | acl | admin | kv | service | batch | backup
  deriving DecidableEq

def Trail.config : Trail → AuditConfig
  | auth => ⟨str "auth", none⟩
  | acl => ⟨str "acl", some aclActionMapper⟩
  | admin => ⟨str "admin", some adminActionMapper⟩
  | kv => ⟨str "kv", some kvActionMapper⟩
  | service => ⟨str "service", some serviceActionMapper⟩
  | batch => ⟨str "batch", none⟩
  | backup => ⟨str "backup", some backupActionMapper⟩

inductive Layer where
  | guard (g : Guard)
  | audit (t : Trail)
  | handle (a : Action)
  deriving DecidableEq

/-- The groups with a path; that of the backups is the root. -/
inductive Group where
  | apiKeys | acl | rateLimit | kv | batch
  deriving DecidableEq

def Group.all : List Group := [.apiKeys, .acl, .rateLimit, .kv, .batch]

def Group.path : Group → GoString
  | apiKeys => str "/auth/apikeys"
  | acl => str "/acl"
  | rateLimit => str "/admin/ratelimit"
  | kv => str "/kv"
  | batch => str "/batch"

/-- What is registered on a group, or on the server itself: middleware by `Use`, then routes,
each with the handlers in front of its own. -/
structure Block where
  group : Option Group
  middleware : List Layer
  routes : List (List Layer × Route)

/-- Routes with no handler in front of their own. -/
def bare (routes : List Route) : List (List Layer × Route) := routes.map fun r => ([], r)

structure ServerConfig extends Config where
  requireAuth : Bool
  auditEnabled : Bool

namespace ServerConfig

variable (cfg : ServerConfig)

def guarded (enabled : Bool) (gs : List Guard) : List Layer := if enabled then gs.map .guard else []

/-- `AuditMiddleware`, which is registered when the manager is enabled. -/
def audited (t : Trail) : List Layer := if cfg.auditEnabled then [.audit t] else []

def sessionBlock : Block :=
  ⟨none, [], if cfg.authEnabled then
    [([], post "/auth/login" .login), ([], post "/auth/refresh" .refresh),
      ([.guard .jwt], get "/auth/verify" .verify)] else []⟩

def apiKeyBlock : Block :=
  ⟨some .apiKeys, if cfg.authEnabled then .guard .jwt :: cfg.audited .auth else [],
    bare (part cfg.authEnabled (authRoutes.drop 3))⟩

def aclBlock : Block :=
  ⟨some .acl, if cfg.aclEnabled then guarded cfg.authEnabled [.jwt, .adminACL] ++ cfg.audited .acl else [],
    bare (part cfg.aclEnabled aclRoutes)⟩

def rateLimitBlock : Block :=
  ⟨some .rateLimit, if cfg.rateLimitEnabled then guarded cfg.authEnabled [.jwt] ++
      guarded (cfg.authEnabled && cfg.aclEnabled) [.adminACL] ++ cfg.audited .admin else [],
    bare (part cfg.rateLimitEnabled adminRateLimitRoutes)⟩

def kvBlock : Block :=
  ⟨some .kv, guarded cfg.aclEnabled [.dynamicACL] ++ cfg.audited .kv, bare kvRoutes⟩

def registryBlock : Block :=
  ⟨none, [], [(cfg.audited .service, put "/register" .register),
    (cfg.audited .service, delete "/deregister/:name" .deregister),
    (cfg.audited .service, put "/heartbeat/:name" .heartbeat)] ++ bare (registryRoutes.drop 3)⟩

/-- Everything that is registered, in order. Logging, metrics and tracing let every request
pass. -/
def blocks : List Block :=
  [⟨none, [.guard .cors], []⟩,
    ⟨none, guarded cfg.rateLimitEnabled [.rateLimit], []⟩,
    cfg.sessionBlock,
    cfg.apiKeyBlock,
    ⟨none, guarded (cfg.requireAuth && cfg.authEnabled) [.jwt], []⟩,
    cfg.aclBlock,
    cfg.rateLimitBlock,
    cfg.kvBlock,
    ⟨none, [], bare (part cfg.watchEnabled [watchRoute])⟩,
    cfg.registryBlock,
    ⟨none, [], bare (queryRoute :: (agentRoutes ++ loadBalancerRoutes))⟩,
    ⟨some .batch, cfg.audited .batch, bare batchRoutes⟩,
    ⟨none, [], bare healthRoutes⟩,
    ⟨none, cfg.audited .backup, bare backupRoutes⟩,
    ⟨none, [], bare (clusterRoutes ++ [get "/metrics" .metrics])⟩,
    ⟨none, [], bare (part cfg.adminUIEnabled [cfg.uiRoute])⟩,
    ⟨none, [], bare cfg.afterUI⟩]

/-- The routes among it are those of the table. -/
theorem routes_blocks : (cfg.blocks.flatMap fun b => b.routes.map Prod.snd) = cfg.routes := by
  have hbare (routes : List Route) : (bare routes).map Prod.snd = routes := by
    rw [bare, List.map_map]
    exact List.map_id routes
  have hsession : cfg.sessionBlock.routes.map Prod.snd ++ part cfg.authEnabled (authRoutes.drop 3) =
      part cfg.authEnabled authRoutes := by
    unfold sessionBlock part
    cases cfg.authEnabled <;> rfl
  have hregistry : cfg.registryBlock.routes.map Prod.snd = registryRoutes := by
    rw [registryBlock, List.map_append, hbare]
    rfl
  simp only [blocks, List.flatMap_cons, List.flatMap_nil, List.map_nil, List.nil_append,
    List.append_nil, apiKeyBlock, aclBlock, rateLimitBlock, kvBlock, hbare, hregistry,
    Config.routes, Config.beforeUI, Config.beforeQuery, Config.beforeWatch, ← hsession,
    List.append_assoc, List.cons_append]

end ServerConfig

/-! ### A request on its way -/

def Method.name : Method → GoString
  | get => str "GET"
  | head => str "HEAD"
  | post => str "POST"
  | put => str "PUT"
  | delete => str "DELETE"
  | connect => str "CONNECT"
  | options => str "OPTIONS"
  | trace => str "TRACE"
  | patch => str "PATCH"

/-- The parameters of a registered path: names and the segments they stand for. -/
def paramsOf : List GoString → List GoString → List (GoString × GoString)
  | [], _ => []
  | name :: _, [] => if name = str "*" then [(name, [])] else []
  | name :: names, segment :: segments =>
    if name = str "*" then [(name, join Path.slash (segment :: segments))]
    else (if name.head? = some 0x3A then [(name.tail, segment)] else []) ++ paramsOf names segments

def trimSlashes (path : GoString) : GoString := path.rdropWhile (· = Path.slash)

def Route.params (r : Route) (path : GoString) : List (GoString × GoString) :=
  paramsOf (split Path.slash (trimSlashes (rooted r.path))) (split Path.slash (trimSlashes path))

/-- What the guards look at. -/
structure Keepers where
  auth : JWTAuth
  re : Regexp
  evaluator : Evaluator

/-- A request, with what is decided about it elsewhere: the clock as each of the layers reads
it, whether it is a preflight request, what the rate limiter answers it with, its trace, and
the status its handler leaves. -/
structure Arrival where
  method : Method
  path : GoString
  query : GoString → GoString
  body : Bytes
  ip : GoString
  authHeader : GoString
  time : Time
  now : ℕ → Time
  preflight : Bool
  limited : Option ℤ
  traceID : Option GoString
  status : Action → ℤ

def Arrival.context (q : Arrival) : HttpContext where
  method := q.method.name
  path := q.path
  params := []
  query := q.query
  body := q.body
  ip := q.ip
  time := q.time
  locals := { Locals.empty with traceID := q.traceID }

/-- What is answered when no route is left, before the error handler sees it. -/
inductive Outcome where
  | refused (g : Guard)
  | answered (a : Action)
  | notFound
  deriving DecidableEq

/-- `events` in the order in which they are recorded. -/
structure Served where
  outcome : Outcome
  context : HttpContext
  status : ℤ
  events : List (Audit.Event × Audit.EventBody)

section

variable (sha256 : Bytes → Bytes) (S : Keepers) (q : Arrival)

/-- `ACLMiddleware` and `DynamicACLMiddleware`: the status they refuse with. -/
def aclRefusal (claims : Option Claims) (resource : Resource) (capability : Capability) : Option ℤ :=
  match claims with
  | none => some 401
  | some claims =>
    if claims.policies = [] then some 403
    else if S.evaluator.evaluate S.re claims.policies resource capability then none
    else some 403

/-- The status a guard refuses the request with, or the locals it goes on with. -/
def verdict (now : Time) (c : HttpContext) : Guard → Except ℤ Locals
  | .cors => if q.preflight then .error 204 else .ok c.locals
  | .rateLimit =>
    match q.limited with
    | some status => .error status
    | none => .ok c.locals
  | .jwt =>
    match S.auth.handle now q.path q.authHeader with
    | .stop status _ => .error status
    | .next none => .ok c.locals
    | .next (some claims) =>
      .ok { c.locals with
        userID := some claims.userID
        username := some claims.username
        roles := some claims.roles
        claims := some claims }
  | .adminACL =>
    match aclRefusal S c.locals.claims newAdminResource .write with
    | some status => .error status
    | none => .ok c.locals
  | .dynamicACL =>
    let (resource, capability) := c.toCtx.inferResourceAndCapability
    match aclRefusal S c.locals.claims resource capability with
    | some status => .error status
    | none => .ok c.locals

/-- The layers in turn from the `n`th on, each with the parameters of its path. A handler or a
guard that answers is the last; a response nobody has answered has the status 200. -/
def chain : ℕ → HttpContext → List (Layer × List (GoString × GoString)) → Served
  | _, c, [] => ⟨.notFound, c, 200, []⟩
  | n, c, (.guard g, params) :: rest =>
    let c : HttpContext := { c with params }
    match verdict S q (q.now n) c g with
    | .error status => ⟨.refused g, c, status, []⟩
    | .ok locals => chain (n + 1) { c with locals } rest
  | n, c, (.audit t, params) :: rest =>
    let c : HttpContext := { c with params }
    let action := deriveAction c t.config.resourceType t.config.actionMapper
    let s := chain (n + 1) c rest
    { s with
      events := s.events ++
        [Audit.recordHTTPEvent sha256 s.context action t.config.resourceType s.status] }
  | _, c, (.handle a, params) :: _ => ⟨.answered a, { c with params }, q.status a, []⟩

/-- Whether the middleware of a group is on the way of a path. -/
def Group.takes (g : Group) (path : GoString) : Bool :=
  hasPrefix (detectionPath path) (detectionPath (rooted g.path))

namespace Block

/-- Whether a request passes the middleware of the block. -/
def covers (b : Block) (path : GoString) : Bool :=
  match b.group with
  | some g => g.takes path
  | none => true

def layers (b : Block) (m : Method) (path : GoString) : List (Layer × List (GoString × GoString)) :=
  (if b.covers path then b.middleware.map fun l => (l, []) else []) ++
    (b.routes.filter fun e => m ∈ e.2.methods ∧ e.2.takes path).flatMap fun e =>
      (e.1 ++ [.handle e.2.action]).map fun l => (l, e.2.params path)

end Block

def ServerConfig.serve (cfg : ServerConfig) : Served :=
  chain sha256 S q 0 q.context (cfg.blocks.flatMap fun b => b.layers q.method q.path)

end

/-! ### What a chain of layers records -/

/-- The events of layers in front of a handler, the innermost first. -/
def trails : List Layer → List Trail
  | [] => []
  | .audit t :: ls => trails ls ++ [t]
  | _ :: ls => trails ls

/-- No guard, or one that looks at a token that has been `seen`. -/
def lets (seen : Bool) : Layer → Bool
  | .guard g => seen && g = .jwt
  | _ => true

/-- Behind an audit nothing turns a request away but a second look at its token. -/
def calm : Bool → List Layer → Bool
  | _, [] => true
  | seen, .guard g :: ls => calm (seen || g = .jwt) ls
  | seen, .audit _ :: ls => ls.all (lets seen)
  | seen, .handle _ :: ls => calm seen ls

section

variable {sha256 : Bytes → Bytes} {S : Keepers} {q : Arrival}

/-- The action the request is recorded under. -/
def Arrival.action (q : Arrival) (t : Trail) : GoString :=
  deriveAction q.context t.config.resourceType t.config.actionMapper

/-- The event of a request that came back with this response. -/
def Arrival.event (q : Arrival) (sha256 : Bytes → Bytes) (s : Served) (t : Trail) :
    Audit.Event × Audit.EventBody :=
  Audit.recordHTTPEvent sha256 s.context (q.action t) t.config.resourceType s.status

/-- The request after some of the middleware. -/
def Arrival.at (q : Arrival) (params : List (GoString × GoString)) (locals : Locals) : HttpContext :=
  { q.context with params, locals }

variable {middle tail : List (Layer × List (GoString × GoString))} {outcome : Outcome}

/-- A token that was let through is not when it is looked at again. -/
def Arrival.Lapses (S : Keepers) (q : Arrival) : Prop :=
  ∃ n n' claims status error, n < n' ∧ S.auth.handle (q.now n) q.path q.authHeader = .next claims ∧
    S.auth.handle (q.now n') q.path q.authHeader = .stop status error

end

/-! ### The middleware on the way -/

/-- The group an action is registered in. -/
def Action.group : Action → Option Group
  | createAPIKey | listAPIKeys | getAPIKey | updateAPIKey | deleteAPIKey | revokeAPIKey =>
    some .apiKeys
  | createPolicy | listPolicies | getPolicy | updatePolicy | deletePolicy | testPolicy => some .acl
  | getStats | getConfig | getActiveClients | getClientStatus
  | resetIP | resetAPIKey | resetAll | updateConfig => some .rateLimit
  | kvList | kvGet | kvSet | kvDelete | kvWatch => some .kv
  | batchKVGet | batchKVSet | batchKVDelete | batchKVSetCAS | batchKVDeleteCAS
  | batchServiceGet | batchServiceRegister | batchServiceDeregister => some .batch
  | _ => none

/-- What an action is audited as. -/
def Action.trail : Action → Option Trail
  | createAPIKey | listAPIKeys | getAPIKey | updateAPIKey | deleteAPIKey | revokeAPIKey => some .auth
  | createPolicy | listPolicies | getPolicy | updatePolicy | deletePolicy | testPolicy => some .acl
  | getStats | getConfig | getActiveClients | getClientStatus
  | resetIP | resetAPIKey | resetAll | updateConfig => some .admin
  | kvList | kvGet | kvSet | kvDelete | kvWatch => some .kv
  | register | deregister | heartbeat => some .service
  | batchKVGet | batchKVSet | batchKVDelete | batchKVSetCAS | batchKVDeleteCAS
  | batchServiceGet | batchServiceRegister | batchServiceDeregister => some .batch
  | createBackup | restoreBackup | exportData | importData | listBackups
  | clusterStatus | clusterLeader | clusterPeers | clusterJoin | clusterLeave | clusterSnapshot
  | metrics | adminUI | redirectToUI | graphql | playground => some .backup
  | login | refresh | verify
  | serviceList | serviceGet | queryByTags | queryByMetadata | queryByTagsAndMetadata
  | agentRegister | agentSync | batchUpdate | healthUpdate | listAgents | getAgent
  | selectService | selectServiceByTags | selectServiceByMetadata | selectServiceByQuery
  | getStrategy | updateStrategy
  | check | liveness | readiness | listChecks | getServiceChecks | updateTTLCheck => none

/-- The group whose middleware a path passes. -/
def groupOf (path : GoString) : Option Group := Group.all.find? (·.takes path)

/-- The middleware of these blocks on the way of a path of this group. -/
def passes (g : Option Group) (bs : List Block) : List Layer :=
  bs.flatMap fun b => if b.group = none ∨ b.group = g then b.middleware else []

/-! ### Which group a path belongs to -/

namespace Route

/-- What the paths of a route begin with. -/
def front (r : Route) : GoString := join Path.slash r.pattern.leading

/-- The paths of a route are all in the group, or none is. -/
def settles (r : Route) (g : Group) : Bool :=
  if r.action.group = some g then hasPrefix r.front (detectionPath (rooted g.path))
  else !hasPrefix r.front (detectionPath (rooted g.path)) &&
    (r.pattern.isLiteral || !hasPrefix (detectionPath (rooted g.path)) r.front)

theorem front_le {r : Route} (hr : r.use = false) {path : GoString} (h : r.takes path = true) :
    r.front <+: detectionPath path := by
  rw [takes_eq hr] at h
  have hsegments := join_mono Path.slash (PathPattern.leading_le h)
  rwa [segments, join_split] at hsegments

end Route

theorem settled : ∀ r ∈ Config.full.beforeUI ++ Config.full.afterUI, ∀ g ∈ Group.all,
    r.settles g = true := by
  decide +kernel

section

variable (m : Method) (path : GoString)

def Route.suits (r : Route) : Bool := m ∈ r.methods && r.takes path

end

namespace ServerConfig

variable (cfg : ServerConfig)

theorem answer_eq (m : Method) (path : GoString) :
    cfg.answer m path =
      ((cfg.blocks.flatMap fun b => b.routes.map Prod.snd).find? (·.suits m path)).map Route.action := by
  have hsuits (r : Route) : decide (decide (m ∈ r.methods) = true ∧ r.takes path = true) =
      r.suits m path := by
    rw [Route.suits, Bool.decide_and, Bool.decide_eq_true, Bool.decide_eq_true]
  rw [routes_blocks, Config.answer, Config.stack, List.find?_filter]
  simp only [hsuits]

/-! ### What the table registers -/

/-- `P` of every block, with the blocks up to it. -/
def Walk (P : List Block → Block → Prop) : List Block → List Block → Prop
  | _, [] => True
  | front, b :: bs => P (front ++ [b]) b ∧ Walk P (front ++ [b]) bs

theorem Walk.at {P : List Block → Block → Prop} {start front : List Block} {b : Block}
    {back : List Block} (h : Walk P start (front ++ b :: back)) : P (start ++ front ++ [b]) b := by
  induction front generalizing start with
  | nil =>
    rw [List.append_nil]
    exact h.1
  | cons c front ih =>
    have hrest := ih h.2
    simpa only [List.append_assoc, List.singleton_append] using hrest

/-- Layers that leave these events, in front of which nothing turns a request away later. -/
def Leaves (ls : List Layer) (ts : List Trail) : Prop :=
  calm false ls = true ∧ trails ls = if cfg.auditEnabled then ts else []

def groupTrail : Group → Option Trail
  | .apiKeys => if cfg.authEnabled then some .auth else none
  | .acl => if cfg.aclEnabled then some .acl else none
  | .rateLimit => if cfg.rateLimitEnabled then some .admin else none
  | .kv => some .kv
  | .batch => some .batch

/-- What a path is audited as that nothing but the admin interface answers. -/
def otherTrails (g : Option Group) : List Trail := .backup :: (g.bind cfg.groupTrail).toList

@[simp] theorem trails_append (ls ls' : List Layer) : trails (ls ++ ls') = trails ls' ++ trails ls := by
  induction ls with
  | nil => exact (List.append_nil _).symm
  | cons l ls ih =>
    cases l with
    | audit t => rw [List.cons_append, trails, trails, ih, List.append_assoc]
    | guard g => exact ih
    | handle a => exact ih

@[simp] theorem trails_guarded (enabled : Bool) (gs : List Guard) : trails (guarded enabled gs) = [] := by
  rw [guarded]
  split_ifs
  · induction gs with
    | nil => rfl
    | cons g gs ih => exact ih
  · rfl

@[simp] theorem trails_audited (t : Trail) : trails (cfg.audited t) = if cfg.auditEnabled then [t] else [] := by
  rw [audited]
  split_ifs <;> rfl

@[simp] theorem calm_guarded (seen enabled : Bool) (gs : List Guard) (ls : List Layer) :
    calm seen (guarded enabled gs ++ ls) = calm (seen || (enabled && decide (.jwt ∈ gs))) ls := by
  cases enabled with
  | false => rw [Bool.false_and, Bool.or_false]; rfl
  | true =>
    rw [Bool.true_and]
    show calm seen (gs.map .guard ++ ls) = _
    induction gs generalizing seen with
    | nil => rw [decide_eq_false List.not_mem_nil, Bool.or_false]; rfl
    | cons g gs ih =>
      show calm (seen || decide (g = .jwt)) (gs.map .guard ++ ls) = _
      have hmem : decide (Guard.jwt ∈ g :: gs) = (decide (g = .jwt) || decide (.jwt ∈ gs)) := by
        rw [← Bool.decide_or, decide_eq_decide, List.mem_cons, eq_comm]
      rw [ih, hmem, Bool.or_assoc]

@[simp] theorem calm_audited (seen : Bool) (t : Trail) (ls : List Layer) :
    calm seen (cfg.audited t ++ ls) = if cfg.auditEnabled then ls.all (lets seen) else calm seen ls := by
  rw [audited]
  split_ifs <;> rfl

@[simp] theorem calm_guards (enabled : Bool) (gs : List Guard) : calm false (guarded enabled gs) = true := by
  rw [← List.append_nil (guarded enabled gs), calm_guarded]
  rfl

@[simp] theorem calm_audit (seen : Bool) (t : Trail) : calm seen (cfg.audited t) = true := by
  rw [audited]
  split_ifs <;> rfl

@[simp] theorem lets_guarded (enabled : Bool) : (guarded enabled [.jwt]).all (lets true) = true := by
  cases enabled <;> rfl

@[simp] theorem lets_audited (seen : Bool) (t : Trail) : (cfg.audited t).all (lets seen) = true := by
  rw [audited]
  split_ifs <;> rfl

/-- The handlers in front of a route of the table: none, but for the token of `/auth/verify` and
the audit of the three routes that register services. -/
def Fronted (e : List Layer × Route) : Prop :=
  e.1 = [] ∨ e.1 = [.guard .jwt] ∨ (e.1 = cfg.audited .service ∧ e.2 ∈ registryRoutes.take 3)

/-- What a request passes on its way to a route of a block, the last of these. -/
structure Passes (bs : List Block) (b : Block) : Prop where
  fronted : ∀ e ∈ b.routes, cfg.Fronted e
  leaves : ∀ e ∈ b.routes, e.2.action ≠ .adminUI →
    cfg.Leaves (passes e.2.action.group bs ++ e.1) e.2.action.trail.toList
  ui : ∀ e ∈ b.routes, e.2.action = .adminUI → e.1 = [] ∧ ∀ g, passes g bs = passes g cfg.blocks

variable {cfg}

/-- Rule for a block whose routes all have the same way. -/
theorem Passes.of_bare {bs : List Block} {group : Option Group} {middleware : List Layer}
    (enabled : Bool) {routes : List Route} {g : Option Group} {t : Option Trail}
    (hroutes : ∀ r ∈ routes, r.action.group = g ∧ r.action.trail = t ∧ r.action ≠ .adminUI)
    (h : enabled = true → cfg.Leaves (passes g bs) t.toList) :
    cfg.Passes bs ⟨group, middleware, bare (part enabled routes)⟩ := by
  have hmem (e : List Layer × Route) (he : e ∈ bare (part enabled routes)) :
      enabled = true ∧ e.1 = [] ∧ e.2 ∈ routes := by
    obtain ⟨r, hr, rfl⟩ := List.mem_map.mp he
    cases enabled with
    | true => exact ⟨rfl, rfl, hr⟩
    | false => exact absurd hr List.not_mem_nil
  constructor
  · intro e he
    exact Or.inl (hmem e he).2.1
  · intro e he _
    obtain ⟨henabled, hfront, hr⟩ := hmem e he
    obtain ⟨hgroup, htrail, -⟩ := hroutes e.2 hr
    rw [hfront, hgroup, htrail, List.append_nil]
    exact h henabled
  · intro e he hui
    exact absurd hui (hroutes e.2 (hmem e he).2.2).2.2

theorem Passes.of_none {bs : List Block} {group : Option Group} {middleware : List Layer} :
    cfg.Passes bs ⟨group, middleware, []⟩ :=
  ⟨fun _ h => absurd h List.not_mem_nil, fun _ h => absurd h List.not_mem_nil,
    fun _ h => absurd h List.not_mem_nil⟩

theorem bare_eq_part (routes : List Route) : bare routes = bare (part true routes) := rfl

/-- The ways to every route of the table. -/
theorem walk (cfg : ServerConfig) : Walk cfg.Passes [] cfg.blocks := by
  refine ⟨.of_none, .of_none, ?session, ?apiKeys, .of_none, ?acl, ?rateLimit, ?kv, ?watch, ?registry,
    ?reads, ?batch, ?health, ?backup, ?cluster, ?ui, ?after, trivial⟩
  case session =>
    constructor
    · intro e he
      simp only [sessionBlock] at he
      split_ifs at he
      · simp only [List.mem_cons, List.not_mem_nil, or_false] at he
        rcases he with rfl | rfl | rfl
        · exact Or.inl rfl
        · exact Or.inl rfl
        · exact Or.inr (Or.inl rfl)
      · cases he
    · intro e he _
      simp only [sessionBlock] at he
      split_ifs at he
      · simp only [List.mem_cons, List.not_mem_nil, or_false] at he
        rcases he with rfl | rfl | rfl <;>
          simp [Leaves, passes, sessionBlock, post, get, Action.group, Action.trail, calm, trails]
      · cases he
    · intro e he hui
      simp only [sessionBlock] at he
      split_ifs at he
      · simp only [List.mem_cons, List.not_mem_nil, or_false] at he
        rcases he with rfl | rfl | rfl <;> cases hui
      · cases he
  case apiKeys =>
    refine .of_bare _ (g := some .apiKeys) (t := some .auth) (by decide) fun h => ?_
    simp [Leaves, passes, h, sessionBlock, apiKeyBlock, calm, trails]
  case acl =>
    refine .of_bare _ (g := some .acl) (t := some .acl) (by decide) fun h => ?_
    simp [Leaves, passes, h, sessionBlock, apiKeyBlock, aclBlock, calm, trails]
  case rateLimit =>
    refine .of_bare _ (g := some .rateLimit) (t := some .admin) (by decide) fun h => ?_
    simp [Leaves, passes, h, sessionBlock, apiKeyBlock, aclBlock, rateLimitBlock, calm, trails]
  case kv =>
    refine .of_bare true (g := some .kv) (t := some .kv) (by decide) fun _ => ?_
    simp [Leaves, passes, sessionBlock, apiKeyBlock, aclBlock, rateLimitBlock, kvBlock, calm, trails]
  case watch =>
    refine .of_bare _ (g := some .kv) (t := some .kv) (by decide) fun _ => ?_
    simp [Leaves, passes, sessionBlock, apiKeyBlock, aclBlock, rateLimitBlock, kvBlock, calm, trails]
  case registry =>
    have hservices : ∀ r ∈ registryRoutes.take 3,
        r.action.group = none ∧ r.action.trail = some .service ∧ r.action ≠ .adminUI := by decide
    have hreads : ∀ r ∈ registryRoutes.drop 3,
        r.action.group = none ∧ r.action.trail = none ∧ r.action ≠ .adminUI := by decide
    have hmem (e : List Layer × Route) (he : e ∈ cfg.registryBlock.routes) :
        (e.1 = cfg.audited .service ∧ e.2 ∈ registryRoutes.take 3) ∨
          (e.1 = [] ∧ e.2 ∈ registryRoutes.drop 3) := by
      rcases List.mem_append.mp he with hservice | hread
      · left
        simp only [List.mem_cons, List.not_mem_nil, or_false] at hservice
        rcases hservice with rfl | rfl | rfl <;> exact ⟨rfl, by simp [registryRoutes]⟩
      · obtain ⟨r, hr, rfl⟩ := List.mem_map.mp hread
        exact Or.inr ⟨rfl, hr⟩
    constructor
    · intro e he
      exact (hmem e he).elim (fun h => Or.inr (Or.inr h)) fun h => Or.inl h.1
    · intro e he _
      rcases hmem e he with ⟨hfront, hr⟩ | ⟨hfront, hr⟩
      · obtain ⟨hgroup, htrail, -⟩ := hservices e.2 hr
        simp [Leaves, passes, hfront, hgroup, htrail, sessionBlock, apiKeyBlock, aclBlock, rateLimitBlock,
          kvBlock, registryBlock, calm, trails]
      · obtain ⟨hgroup, htrail, -⟩ := hreads e.2 hr
        simp [Leaves, passes, hfront, hgroup, htrail, sessionBlock, apiKeyBlock, aclBlock, rateLimitBlock,
          kvBlock, registryBlock, calm, trails]
    · intro e he hui
      rcases hmem e he with ⟨-, hr⟩ | ⟨-, hr⟩
      · exact absurd hui (hservices e.2 hr).2.2
      · exact absurd hui (hreads e.2 hr).2.2
  case reads =>
    refine .of_bare true (g := none) (t := none) (by decide) fun _ => ?_
    simp [Leaves, passes, sessionBlock, apiKeyBlock, aclBlock, rateLimitBlock, kvBlock, registryBlock,
      calm, trails]
  case batch =>
    refine .of_bare true (g := some .batch) (t := some .batch) (by decide) fun _ => ?_
    simp [Leaves, passes, sessionBlock, apiKeyBlock, aclBlock, rateLimitBlock, kvBlock, registryBlock,
      calm, trails]
  case health =>
    refine .of_bare true (g := none) (t := none) (by decide) fun _ => ?_
    simp [Leaves, passes, sessionBlock, apiKeyBlock, aclBlock, rateLimitBlock, kvBlock, registryBlock,
      calm, trails]
  case backup =>
    refine .of_bare true (g := none) (t := some .backup) (by decide) fun _ => ?_
    simp [Leaves, passes, sessionBlock, apiKeyBlock, aclBlock, rateLimitBlock, kvBlock, registryBlock,
      calm, trails]
  case cluster =>
    refine .of_bare true (g := none) (t := some .backup) (by decide) fun _ => ?_
    simp [Leaves, passes, sessionBlock, apiKeyBlock, aclBlock, rateLimitBlock, kvBlock, registryBlock,
      calm, trails]
  case ui =>
    have hmem (e : List Layer × Route) (he : e ∈ bare (part cfg.adminUIEnabled [cfg.uiRoute])) :
        e.1 = [] ∧ e.2.action = .adminUI := by
      obtain ⟨r, hr, rfl⟩ := List.mem_map.mp he
      have hr' := (part_sublist _ _).subset hr
      rw [List.mem_singleton.mp hr']
      exact ⟨rfl, rfl⟩
    constructor
    · intro e he
      exact Or.inl (hmem e he).1
    · intro e he hui
      exact absurd (hmem e he).2 hui
    · intro e he _
      refine ⟨(hmem e he).1, fun g => ?_⟩
      simp [passes, blocks]
  case after =>
    rw [bare_eq_part cfg.afterUI]
    refine .of_bare _ (g := none) (t := some .backup) ?_ fun _ => ?_
    · intro r hr
      have hfull : ∀ r ∈ Config.full.afterUI, r.action.group = none ∧ r.action.trail = some .backup ∧
          r.action ≠ .adminUI := by decide
      exact hfull r (cfg.afterUI_sublist.subset hr)
    · simp [Leaves, passes, sessionBlock, apiKeyBlock, aclBlock, rateLimitBlock, kvBlock, registryBlock,
        calm, trails]

end ServerConfig

/-! ### The actions -/

section

variable {q : Arrival}

end

/-- Actions that no event of the server has: where the action is derived, what the mappers ask
the parameters for is not there yet, and services are registered by `PUT`. -/
def unrecorded : List GoString :=
  ["kv.get", "service.register", "service.get", "service.list", "auth.read", "batch.read",
    "backup.download"].map str

namespace ServerConfig

variable (cfg : ServerConfig)

/-- The events of a request that nothing turned away, in the order in which they are recorded. -/
def expected (answer : Option Action) (path : GoString) : List Trail :=
  if cfg.auditEnabled then
    match answer with
    | none => cfg.otherTrails (groupOf path)
    | some .adminUI => cfg.otherTrails (groupOf path)
    | some a => a.trail.toList
  else []

/-- A request that a guard turns away leaves no event, unless its token lapses between two looks
at it; then it leaves some of those it would have left. One that gets through is answered as
the table of routes says, and leaves the events its answer is audited for. -/
structure Exact (sha256 : Bytes → Bytes) (S : Keepers) (q : Arrival) : Prop where
  refused : ∀ g, (cfg.serve sha256 S q).outcome = .refused g →
    (cfg.serve sha256 S q).events = [] ∨ (g = .jwt ∧ q.Lapses S ∧
      (cfg.serve sha256 S q).events <:+ (cfg.expected (cfg.answer q.method q.path) q.path).map
        (q.event sha256 (cfg.serve sha256 S q)))
  answered : (∀ g, (cfg.serve sha256 S q).outcome ≠ .refused g) →
    (cfg.serve sha256 S q).outcome = (cfg.answer q.method q.path).elim .notFound .answered ∧
      (cfg.serve sha256 S q).events = (cfg.expected (cfg.answer q.method q.path) q.path).map
        (q.event sha256 (cfg.serve sha256 S q))
  unrecorded : ∀ e ∈ (cfg.serve sha256 S q).events, e.2.action ∉ unrecorded

variable {cfg}

end ServerConfig

end Router

end Konsul
