import Konsul.Acl.Evaluator
import Konsul.Handlers.Reads
import Konsul.Lib.Program
import Konsul.Middleware.JWT

/-!
# ACL enforcement (internal/middleware/acl.go)

A `Web` program asks the evaluator and calls the stores; every call of a store
is made for the sake of a capability. `dynamicACL` asks for what it infers from
the method and the path alone: it is mounted on a pattern without parameters.
-/

namespace Konsul

open GoLib

/-! ### Programs that ask the evaluator -/

inductive WebCall where
  | evaluate (policyNames : List GoString) (resource : Resource) (capability : Capability)
  | store (capability : Capability) (c : StoreCall)

abbrev WebCall.Answer : WebCall → Type
  | .evaluate _ _ _ => Bool
  | .store _ c => c.Answer

abbrev Web := Program WebCall WebCall.Answer

/-- A reader whose calls are made for these capabilities. -/
def Reader.under {R : Type} (capability : StoreCall → Capability) : Reader R → Web R
  | .ret r => .ret r
  | .call c next => .call (.store (capability c) c) fun a => under capability (next a)

def evaluate (policyNames : List GoString) (resource : Resource) (capability : Capability) :
    Web Bool := .perform (WebCall.evaluate policyNames resource capability)

/-! ### What a request is taken to be about -/

/-- `fiber.Ctx`, as far as the inference looks at it. -/
structure Ctx where
  method : GoString
  path : GoString
  params : List (GoString × GoString)

namespace Ctx

/-- `c.Params`: empty where the route has no such parameter. -/
def param (c : Ctx) (name : GoString) : GoString := (c.params.lookup name).getD []

def kvKey (c : Ctx) : GoString :=
  let key := c.param (str "key")
  let key := if key = [] then c.param (str "*") else key
  let key := if key = [] ∧ hasPrefix c.path (str "/kv/") then trimPrefix c.path (str "/kv/") else key
  if key = [] then str "*" else key

def inferKV (c : Ctx) : Option (Resource × Capability) :=
  if hasPrefix c.path (str "/kv/") ∨ c.path = str "/kv" then
    let key := c.kvKey
    let resource := newKVResource key
    if c.method = str "GET" then
      if key = str "*" ∨ c.path = str "/kv/" ∨ c.path = str "/kv" then some (resource, .list)
      else some (resource, .read)
    else if c.method = str "PUT" ∨ c.method = str "POST" then some (resource, .write)
    else if c.method = str "DELETE" then some (resource, .delete)
    else none
  else none

def inferService (c : Ctx) : Option (Resource × Capability) :=
  if hasPrefix c.path (str "/services/") ∨ hasPrefix c.path (str "/register") ∨
      hasPrefix c.path (str "/deregister/") ∨ hasPrefix c.path (str "/heartbeat/") then
    let serviceName := if c.param (str "name") = [] then str "*" else c.param (str "name")
    let resource := newServiceResource serviceName
    if hasPrefix c.path (str "/register") then some (resource, .register)
    else if hasPrefix c.path (str "/deregister/") then some (resource, .deregister)
    else if hasPrefix c.path (str "/heartbeat/") then some (resource, .write)
    else if c.method = str "GET" then
      if serviceName = str "*" ∨ c.path = str "/services/" then some (resource, .list)
      else some (resource, .read)
    else none
  else none

def inferHealth (c : Ctx) : Option (Resource × Capability) :=
  if hasPrefix c.path (str "/health") then
    if c.method = str "GET" then some (newHealthResource, .read)
    else if c.method = str "PUT" ∨ c.method = str "POST" then some (newHealthResource, .write)
    else none
  else none

def inferBackup (c : Ctx) : Option (Resource × Capability) :=
  if hasPrefix c.path (str "/backup") then some (newBackupResource, .create)
  else if hasPrefix c.path (str "/restore") then some (newBackupResource, .restore)
  else if hasPrefix c.path (str "/export") then some (newBackupResource, .exportAll)
  else if hasPrefix c.path (str "/import") then some (newBackupResource, .importAll)
  else none

def inferAdmin (c : Ctx) : Option (Resource × Capability) :=
  if hasPrefix c.path (str "/acl/") ∨ hasPrefix c.path (str "/metrics") then
    if c.method = str "GET" then some (newAdminResource, .read)
    else if c.method = str "PUT" ∨ c.method = str "POST" ∨ c.method = str "DELETE" then
      some (newAdminResource, .write)
    else none
  else none

/-- Where nothing fits, the capability is one the evaluator never grants. -/
def inferResourceAndCapability (c : Ctx) : Resource × Capability :=
  (c.inferKV <|> c.inferService <|> c.inferHealth <|> c.inferBackup <|> c.inferAdmin).getD
    (⟨.admin, []⟩, .deny)

end Ctx

/-! ### The middleware -/

def unauthorized : Response := json 401 [(str "error", .text (str "unauthorized"))]

def noPolicies : Response :=
  json 403 [(str "error", .text (str "forbidden")),
    (str "message", .text (str "no policies attached to token"))]

/-- The names of the kinds of resource. -/
def ResourceType.name : ResourceType → GoString
  | .kv => str "kv"
  | .service => str "service"
  | .health => str "health"
  | .backup => str "backup"
  | .admin => str "admin"
  | .other name => name

def insufficient (resource : Resource) (capability : Capability) : Response :=
  json 403 [(str "error", .text (str "forbidden")),
    (str "message", .text (str "insufficient permissions")),
    (str "resource", .text resource.type.name), (str "capability", .text capability),
    (str "path", .text resource.path)]

def dynamicACL (claims : Option Claims) (ctx : Ctx) (next : Web Display) : Web Display :=
  match claims with
  | none => return .response unauthorized
  | some claims =>
    if claims.policies = [] then return .response noPolicies
    else do
      let (resource, capability) := ctx.inferResourceAndCapability
      if ← evaluate claims.policies resource capability then next
      else return .response (insufficient resource capability)

/-! ### What the evaluator never grants -/

theorem evaluate_deny (re : Regexp) (e : Evaluator) (policyNames : List GoString)
    (resource : Resource) : e.evaluate re policyNames resource .deny = false := by
  have hverdict (policy : Policy) (allowed : Bool)
      (h : policy.verdict re resource .deny = some allowed) : allowed = false := by
    obtain ⟨capabilities, -, hrule⟩ := List.exists_of_findSome?_eq_some h
    rw [ruleVerdict] at hrule
    split_ifs at hrule with hdeny
    exact (Option.some_inj.mp hrule).symm
  rw [e.evaluate_eq]
  cases hfind : (e.attached policyNames).findSome? (Policy.verdict re resource .deny) with
  | none => rfl
  | some allowed =>
    obtain ⟨policy, -, hpolicy⟩ := List.exists_of_findSome?_eq_some hfind
    exact hverdict policy allowed hpolicy

end Konsul
