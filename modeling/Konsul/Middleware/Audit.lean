import Konsul.Audit.LogFile
import Konsul.Auth.APIKey
import Konsul.Lib.MatchPath
import Konsul.Middleware.Acl

/-!
# Audited requests (internal/middleware/audit.go, internal/audit/helpers.go)

The action an event is recorded under, and the event itself. The action is derived before
the request goes on, and the event built after it has come back, so that the two see
different parameters and locals.
-/

namespace Konsul

open GoLib

/-- `c.Locals`. No middleware of the server sets those of the API key, the service, the span
and the two of the method of authentication. -/
structure Locals where
  userID : Option GoString
  username : Option GoString
  roles : Option (List GoString)
  claims : Option Claims
  apiKeyID : Option GoString
  serviceID : Option GoString
  traceID : Option GoString
  spanID : Option GoString
  jwtAuth : Bool
  apiKeyAuth : Bool

def Locals.empty : Locals := ⟨none, none, none, none, none, none, none, none, false, false⟩

/-- `fiber.Ctx`, as far as the audit looks at it. -/
structure HttpContext extends Ctx where
  query : GoString → GoString
  body : Bytes
  ip : GoString
  time : Time
  locals : Locals

namespace Audit

/-! ### internal/audit/helpers.go -/

def extractActorFromContext (l : Locals) : Actor :=
  let actor := { Actor.empty with type := str "anonymous" }
  let actor := match l.userID with
    | some uid => { actor with id := uid, type := str "user" }
    | none => actor
  let actor := { actor with name := l.username.getD actor.name, roles := l.roles.getD actor.roles }
  let actor := match l.apiKeyID with
    | some kid => { actor with tokenID := kid, type := str "api_key" }
    | none => actor
  match l.serviceID with
  | some sid => { actor with id := sid, type := str "service" }
  | none => actor

def extractResourceFromPath (c : HttpContext) (resourceType : GoString) : Resource where
  type := resourceType
  id :=
    if c.param (str "key") ≠ [] then c.param (str "key")
    else if c.param (str "*") ≠ [] then c.param (str "*")
    else if c.param (str "id") ≠ [] then c.param (str "id")
    else c.param (str "name")
  namespace_ := c.query (str "namespace")

section

variable (sha256 : Bytes → Bytes)

def hashRequestBody (body : Bytes) : GoString := if body = [] then [] else hexEncode (sha256 body)

def buildEvent (c : HttpContext) (action resourceType : GoString) : EventBody where
  action := action
  result := []
  resource := extractResourceFromPath c resourceType
  actor := extractActorFromContext c.locals
  sourceIP := c.ip
  authMethod := if c.locals.jwtAuth then str "jwt" else if c.locals.apiKeyAuth then str "api_key" else []
  httpMethod := c.method
  httpPath := c.path
  httpStatus := 0
  traceID := c.locals.traceID.getD []
  spanID := c.locals.spanID.getD []
  requestHash :=
    if c.method ≠ str "GET" ∧ c.method ≠ str "HEAD" then hashRequestBody sha256 c.body else []

def resultOf (statusCode : ℤ) : GoString :=
  if 200 ≤ statusCode ∧ statusCode < 300 then str "success"
  else if 400 ≤ statusCode ∧ statusCode < 500 then str "denied"
  else if 500 ≤ statusCode then str "error"
  else str "unknown"

/-- What `RecordHTTPEvent` hands to the manager. -/
def recordHTTPEvent (c : HttpContext) (action resourceType : GoString) (statusCode : ℤ) :
    Event × EventBody :=
  (⟨[], some c.time, some ∅⟩,
    { buildEvent sha256 c action resourceType with
      httpStatus := statusCode, result := resultOf statusCode })

end

end Audit

/-! ### internal/middleware/audit.go -/

structure AuditConfig where
  resourceType : GoString
  actionMapper : Option (HttpContext → GoString)

def deriveAction (c : HttpContext) (resourceType : GoString)
    (mapper : Option (HttpContext → GoString)) : GoString :=
  match mapper with
  | some mapper => mapper c
  | none =>
    if c.method = str "POST" then resourceType ++ str ".create"
    else if c.method = str "PUT" then resourceType ++ str ".update"
    else if c.method = str "DELETE" then resourceType ++ str ".delete"
    else if c.method = str "GET" then
      if c.param (str "key") ≠ [] ∨ c.param (str "id") ≠ [] ∨ c.param (str "name") ≠ [] then
        resourceType ++ str ".read"
      else resourceType ++ str ".list"
    else if c.method = str "PATCH" then resourceType ++ str ".modify"
    else resourceType ++ str "." ++ c.method

def kvActionMapper (c : HttpContext) : GoString :=
  let key := c.param (str "key")
  let key := if key = [] then c.param (str "*") else key
  if c.method = str "PUT" then str "kv.set"
  else if c.method = str "DELETE" then str "kv.delete"
  else if c.method = str "GET" then
    if key ≠ [] then str "kv.get" else str "kv.list"
  else str "kv." ++ c.method

def serviceActionMapper (c : HttpContext) : GoString :=
  if c.method = str "DELETE" then str "service.deregister"
  else if c.method = str "PUT" ∧ (c.query (str "heartbeat") = str "true" ∨ c.param (str "health") ≠ [])
  then str "service.heartbeat"
  else if c.method = str "POST" then str "service.register"
  else if c.method = str "GET" then
    if c.param (str "name") ≠ [] ∨ c.param (str "id") ≠ [] then str "service.get"
    else str "service.list"
  else str "service." ++ c.method

def hasSubstringAudit (s substr : Bytes) : Bool :=
  (List.range (s.length - substr.length + 1)).any fun i => (s.drop i).take substr.length = substr

def auditContains (s substr : Bytes) : Bool :=
  decide (substr.length ≤ s.length) &&
    (decide (s = substr) || (decide (substr.length < s.length) &&
      (decide (s.take substr.length = substr) || decide (s.drop (s.length - substr.length) = substr) ||
        hasSubstringAudit s substr)))

def aclActionMapper (c : HttpContext) : GoString :=
  if auditContains c.path (str "/token") then
    if c.method = str "POST" then str "acl.token.create"
    else if c.method = str "DELETE" then str "acl.token.revoke"
    else if c.method = str "GET" then str "acl.token.read"
    else str "acl.token." ++ c.method
  else if auditContains c.path (str "/policy") then
    if c.method = str "POST" then str "acl.policy.create"
    else if c.method = str "PUT" then str "acl.policy.update"
    else if c.method = str "DELETE" then str "acl.policy.delete"
    else if c.method = str "GET" then str "acl.policy.read"
    else str "acl.policy." ++ c.method
  else str "acl." ++ c.method

def backupActionMapper (c : HttpContext) : GoString :=
  if c.method = str "POST" then str "backup.create"
  else if c.method = str "PUT" then str "backup.restore"
  else if c.method = str "DELETE" then str "backup.delete"
  else if c.method = str "GET" then
    if c.param (str "id") ≠ [] then str "backup.download" else str "backup.list"
  else str "backup." ++ c.method

def adminActionMapper (c : HttpContext) : GoString :=
  if auditContains c.path (str "/ratelimit") then
    if c.method = str "POST" then str "admin.ratelimit.create"
    else if c.method = str "PUT" then str "admin.ratelimit.update"
    else if c.method = str "DELETE" then str "admin.ratelimit.delete"
    else if c.method = str "GET" then str "admin.ratelimit.get"
    else str "admin.ratelimit." ++ c.method
  else if auditContains c.path (str "/config") then str "admin.config." ++ c.method
  else str "admin." ++ c.method

end Konsul
