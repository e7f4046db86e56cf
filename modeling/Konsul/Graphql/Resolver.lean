import Konsul.Lib.Decimal
import Konsul.Lib.JsonMap
import Konsul.Middleware.Acl

/-!
# GraphQL resolvers (internal/graphql/resolver)

Mutations ask the evaluator, each field for itself; queries do not. The strings
of a document are text: what is not valid UTF-8 never reaches a resolver. A
panic of a resolver is an error of its field.
-/

namespace Konsul

open GoLib

/-- A string of a GraphQL document. -/
abbrev GraphqlString := { s : GoString // jsonString s = s }

inductive FieldValue where
  | null
  | pair (p : KVPair)
  | flag (b : Bool)
  | service (svc : Service) (entry : ServiceEntry)
  | services (entries : List ServiceEntry)
  | number (n : ℕ)
  | keyList (items : List KVPair) (total : ℕ) (hasMore : Bool)
  | health

abbrev FieldResult := Except GoError FieldValue

/-- The slice a page is, and where it ends; `none` is the panic of a slice out of range. -/
def page {α : Type} (limit offset : Option ℤ) (items : List α) : Option (List α × ℤ) :=
  let total : ℤ := items.length
  let start := match offset with
    | none => 0
    | some n => if n > total then total else n
  let stop := match limit with
    | none => total
    | some n => if wrapInt (start + n) > total then total else wrapInt (start + n)
  if 0 ≤ start ∧ start ≤ stop then
    some ((items.take stop.toNat).drop start.toNat, stop)
  else none

def internalSystemError : GoError := .text (str "internal system error")

/-- The error of `ApplyEntry` as the resolvers return it. -/
def applyError (failed : GoError → GoError) (err : GoError) : GoError :=
  if GoError.is hashiErrNotLeader err then .wrap (str "not leader") err else failed err

structure RegisterServiceInput where
  name : GraphqlString
  address : GraphqlString
  port : ℤ
  tags : List GraphqlString
  metadata : List (GraphqlString × GraphqlString)

def RegisterServiceInput.service (input : RegisterServiceInput) : Service :=
  { name := input.name, address := input.address, port := input.port
    tags := input.tags.map Subtype.val
    metadata := input.metadata.foldl (fun m e => m.insert e.1.val e.2.val) ∅
    checks := [] }

inductive MutationField where
  | kvSet (key value : GraphqlString)
  | kvDelete (key : GraphqlString)
  | kvCAS (key value : GraphqlString) (index : ℤ)
  | registerService (input : RegisterServiceInput)
  | deregisterService (name : GraphqlString)
  | updateHeartbeat (name : GraphqlString)

inductive QueryField where
  | health
  | kv (key : GraphqlString)
  | kvList (keyPrefix : GoString) (limit offset : Option ℤ)
  | service (name : GraphqlString)
  | services (limit offset : Option ℤ)
  | servicesCount
  | servicesByTags (tags : List GraphqlString)
  | servicesByMetadata (filters : List (GraphqlString × GraphqlString))
  | servicesByQuery (tags : List GraphqlString) (metadata : List (GraphqlString × GraphqlString))

/-- Subscriptions reach no store: there is no watch manager among the dependencies that
are passed, and services cannot be watched. -/
inductive Operation where
  | query (fields : List QueryField)
  | mutation (fields : List MutationField)
  | subscription

namespace Resolver

variable (raft : Bool)

/-! ### Mutations -/

def kvSet (key value : GoString) : Reader FieldResult := do
  if raft then
    match ← Program.perform (StoreCall.op (.applyEntry (.kv (.set key value)))) with
    | .error err => return .error (applyError id err)
    | .ok _ => return .ok (.pair ⟨key, value⟩)
  else
    let _ ← Program.perform (StoreCall.op (.kvStore (.set key value)))
    return .ok (.pair ⟨key, value⟩)

def kvDelete (key : GoString) : Reader FieldResult := do
  match ← Program.perform (StoreCall.kvGet key) with
  | none => return .ok (.flag false)
  | some _ =>
    if raft then
      match ← Program.perform (StoreCall.op (.applyEntry (.kv (.delete key)))) with
      | .error err => return .error (applyError id err)
      | .ok _ => return .ok (.flag true)
    else
      let _ ← Program.perform (StoreCall.op (.kvStore (.delete key)))
      return .ok (.flag true)

def kvCAS (key value : GoString) (index : ℤ) : Reader FieldResult := do
  match ← Reader.ofHandler (kvCas raft none key value index) with
  | .error err => return .error err
  | .ok none => return .ok .null
  | .ok (some p) => return .ok (.pair p)

/-- The entry of a service among all of them. -/
def entryNamed (name : GoString) : Reader (Option ServiceEntry) := do
  return (← Program.perform (StoreCall.serviceListNamed [name])).head?

def registerService (input : RegisterServiceInput) : Reader FieldResult := do
  let service := input.service
  let failed := GoError.wrap (str "failed to register service")
  let err ←
    if raft then do
      match ← Program.perform (StoreCall.op (.applyEntry (.service (.register service)))) with
      | .error err => pure (some (applyError failed err))
      | .ok _ => pure none
    else do
      let r ← Program.perform (StoreCall.op (.serviceStore (.register service)))
      pure (r.err.map failed)
  match err with
  | some err => return .error err
  | none =>
    match ← entryNamed service.name with
    | none => return .error (.text (str "service registered but not found"))
    | some entry => return .ok (.service service entry)

def deregisterService (name : GoString) : Reader FieldResult := do
  match ← Program.perform (StoreCall.serviceGet name) with
  | none => return .ok (.flag false)
  | some _ =>
    if raft then
      match ← Program.perform (StoreCall.op (.applyEntry (.service (.deregister name)))) with
      | .error err => return .error (applyError id err)
      | .ok _ => return .ok (.flag true)
    else
      let _ ← Program.perform (StoreCall.op (.serviceStore (.deregister name)))
      return .ok (.flag true)

/-- The assertion `resp.(bool)`, which no answer of the state machine passes. -/
def asBool : FsmResponse → Bool
  | .err _ => false
  | .cas _ => false

def updateHeartbeat (name : GoString) : Reader FieldResult := do
  let success : Except GoError Bool ←
    if raft then do
      match ← Program.perform (StoreCall.op (.applyEntry (.service (.heartbeat name)))) with
      | .error err => pure (.error (applyError id err))
      | .ok resp => pure (.ok (asBool resp))
    else do
      let r ← Program.perform (StoreCall.op (.serviceStore (.heartbeat name)))
      pure (.ok r.found)
  match success with
  | .error err => return .error err
  | .ok false => return .error (.text (str "service not found: " ++ name))
  | .ok true =>
    match ← entryNamed name with
    | none => return .error (.text (str "service not found after heartbeat"))
    | some entry => return .ok (.service entry.service entry)

/-! ### Queries -/

def getItems (items : List KVPair) : List GoString → Reader (List KVPair)
  | [] => return items
  | key :: keys => do
    match ← Program.perform (StoreCall.kvGet key) with
    | some value => getItems (items ++ [⟨key, value⟩]) keys
    | none => getItems items keys

def kv (key : GoString) : Reader FieldResult := do
  match ← Program.perform (StoreCall.kvGet key) with
  | none => return .ok .null
  | some value => return .ok (.pair ⟨key, value⟩)

def kvList (keyPrefix : GoString) (limit offset : Option ℤ) : Reader FieldResult := do
  let allKeys ← Program.perform StoreCall.kvList
  let keys := allKeys.filter fun key => hasPrefix key keyPrefix
  match page limit offset keys with
  | none => return .error internalSystemError
  | some (pageKeys, stop) =>
    return .ok (.keyList (← getItems [] pageKeys) keys.length (stop < (keys.length : ℤ)))

def service (name : GoString) : Reader FieldResult := do
  match ← entryNamed name with
  | none => return .ok .null
  | some entry => return .ok (.service entry.service entry)

def services (limit offset : Option ℤ) : Reader FieldResult := do
  match page limit offset (← Program.perform StoreCall.serviceListAll) with
  | none => return .error internalSystemError
  | some (entries, _) => return .ok (.services entries)

/-- The entries of what a query found. -/
def withEntries (found : List Service) : Reader FieldResult := do
  return .ok (.services (← Program.perform (StoreCall.serviceListNamed (found.map Service.name))))

def pairs (filters : List (GraphqlString × GraphqlString)) : GoMap GoString GoString :=
  filters.foldl (fun m f => m.insert f.1.val f.2.val) ∅

def queryField : QueryField → Reader FieldResult
  | .health => do
    let _ ← Program.perform StoreCall.count
    return .ok .health
  | .kv key => kv key
  | .kvList keyPrefix limit offset => kvList keyPrefix limit offset
  | .service name => service name
  | .services limit offset => services limit offset
  | .servicesCount => do
    return .ok (.number (← Program.perform StoreCall.count))
  | .servicesByTags tags => do
    withEntries (← Program.perform (StoreCall.queryByTags (tags.map Subtype.val)))
  | .servicesByMetadata filters => do
    withEntries (← Program.perform (StoreCall.queryByMetadata (pairs filters)))
  | .servicesByQuery tags metadata => do
    withEntries (← Program.perform
      (StoreCall.queryByTagsAndMetadata (tags.map Subtype.val) (pairs metadata)))

end Resolver

namespace MutationField

/-- What the field is authorized for. -/
def resource : MutationField → Resource
  | .kvSet key _ => newKVResource key
  | .kvDelete key => newKVResource key
  | .kvCAS key _ _ => newKVResource key
  | .registerService input => newServiceResource input.name
  | .deregisterService name => newServiceResource name
  | .updateHeartbeat name => newServiceResource name

def capability : MutationField → Capability
  | .kvSet _ _ => .write
  | .kvDelete _ => .delete
  | .kvCAS _ _ _ => .write
  | .registerService _ => .register
  | .deregisterService _ => .deregister
  | .updateHeartbeat _ => .write

/-- The resolver after `authorizeMutation`. -/
def resolve (raft : Bool) : MutationField → Reader FieldResult
  | .kvSet key value => Resolver.kvSet raft key value
  | .kvDelete key => Resolver.kvDelete raft key
  | .kvCAS key value index => Resolver.kvCAS raft key value index
  | .registerService input => Resolver.registerService raft input
  | .deregisterService name => Resolver.deregisterService raft name
  | .updateHeartbeat name => Resolver.updateHeartbeat raft name

end MutationField

/-! ### Authorization -/

/-- The token of the header, as the resolvers read it. -/
def graphqlToken (authHeader : GoString) : Option GoString :=
  match fields authHeader with
  | [scheme, token] => if equalFold scheme (str "Bearer") then some token else none
  | _ => none

def errUnauthorized : GoError := .text (str "unauthorized")

def claimsFromGraphQLContext (m : JWTAuth) (now : Time) (authHeader : GoString) :
    Except GoError Claims :=
  match graphqlToken authHeader with
  | none => .error errUnauthorized
  | some token =>
    match m.jwtService.validateToken m.jwt now token with
    | .error _ => .error errUnauthorized
    | .ok claims => .ok claims

def authorizeMutation (claims : Except GoError Claims) (resource : Resource)
    (capability : Capability) : Web (Option GoError) := do
  match claims with
  | .error err => return some err
  | .ok claims =>
    if claims.policies = [] then
      return some (.text (str "forbidden: no policies attached to token"))
    else if ← evaluate claims.policies resource capability then return none
    else return some (.text (str "forbidden: insufficient permissions"))

def mutationField (raft : Bool) (claims : Except GoError Claims) (f : MutationField) :
    Web FieldResult := do
  match ← authorizeMutation claims f.resource f.capability with
  | some err => return .error err
  | none => Reader.under (fun _ => f.capability) (f.resolve raft)

/-- The fields of an operation, one after the other. -/
def answerAll {Op : Type} {Answer : Op → Type} {F R : Type} (resolve : F → Program Op Answer R) :
    List F → Program Op Answer (List R)
  | [] => return []
  | f :: rest => do
    let r ← resolve f
    return r :: (← answerAll resolve rest)

end Konsul
