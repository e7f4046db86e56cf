import Konsul.Handlers.Endpoints

/-!
# Handlers of batches

A batch of keys is one command; a batch of services is one command for every
service, in turn. Where a reply lists the keys of a map, or names the first key
without an expected index, the order is that of a loop over the map, here the
order of the keys.
-/

namespace Konsul

open GoLib

namespace BatchHandler

def itemsEmpty : Response := .badRequest (str "Items map cannot be empty")
def keysEmpty : Response := .badRequest (str "Keys array cannot be empty")
def tooManyItems : Response := .badRequest (str "Maximum 1000 items per batch request")
def tooManyKeys : Response := .badRequest (str "Maximum 1000 keys per batch request")

/-- `ApplyEntry` for a batch of keys: the reply to an error, if there is one. -/
def applyBatch (c : Command) (failed : Response) : Handler (Option Response) := do
  match ← Node.applyEntry c with
  | .error err =>
    if GoError.is hashiErrNotLeader err then
      return some (.notLeader (← Node.leaderAddr))
    return some failed
  | .ok _ => return none

/-- A batch call of the store: the reply to an error, if there is one. -/
def callBatch (c : KVCommand) (failed : Response) : Handler (Option Response) := do
  let r ← Program.perform (Op.kvStore c)
  pure (r.err.map fun _ => failed)

def batchKVSet (raft : Bool) (body : Option (GoMap GoString GoString)) : Handler Response := do
  match body with
  | none => return .badRequest (str "Invalid JSON body")
  | some items =>
    if items.keys.card = 0 then return itemsEmpty
    if items.keys.card > 1000 then return tooManyItems
    let failed : Response := .internalError (str "Failed to set keys")
    let failure ←
      if raft then applyBatch (.kv (.batchSet items)) failed else callBatch (.batchSet items) failed
    match failure with
    | some response => return response
    | none =>
      return json 200 [
        (str "message", .text (str "Successfully set " ++ number items.keys.card ++ str " keys")),
        (str "keys", .texts ((GoMap.sorted items).list.map Sigma.fst)),
        (str "count", .count items.keys.card)]

def batchKVDelete (raft : Bool) (body : Option (List GoString)) : Handler Response := do
  match body with
  | none => return .badRequest (str "Invalid JSON body")
  | some keys =>
    if keys.length = 0 then return keysEmpty
    if keys.length > 1000 then return tooManyKeys
    let failed : Response := .internalError (str "Failed to delete keys")
    let failure ←
      if raft then applyBatch (.kv (.batchDelete keys)) failed
      else callBatch (.batchDelete keys) failed
    match failure with
    | some response => return response
    | none =>
      return json 200 [
        (str "message", .text (str "Successfully deleted " ++ number keys.length ++ str " keys")),
        (str "keys", .texts keys),
        (str "count", .count keys.length)]

/-- The first key without an expected index. -/
def missingIndex (keys : List GoString) (expectedIndices : GoMap GoString UInt64) :
    Option GoString :=
  keys.find? fun key => (expectedIndices.lookup key).isNone

def missingExpectedIndex (key : GoString) : Response :=
  .badRequest (str "Missing expected index for key: " ++ key)

structure BatchKVSetCASRequest where
  items : GoMap GoString GoString
  expectedIndices : GoMap GoString UInt64

structure BatchKVDeleteCASRequest where
  keys : List GoString
  expectedIndices : GoMap GoString UInt64

def batchKVSetCAS (raft : Bool) (body : Option BatchKVSetCASRequest) : Handler Response := do
  match body with
  | none => return .badRequest (str "Invalid JSON body")
  | some req =>
    if req.items.keys.card = 0 then return itemsEmpty
    if req.items.keys.card > 1000 then return tooManyItems
    match missingIndex ((GoMap.sorted req.items).list.map Sigma.fst) req.expectedIndices with
    | some key => return missingExpectedIndex key
    | none =>
      let (newIndices, err) ←
        if raft then Node.kvBatchSetCAS req.items req.expectedIndices
        else do
          let r ← Program.perform (Op.kvStore (.batchSetCAS req.items req.expectedIndices))
          pure (r.newIndices, r.err)
      match err with
      | some err =>
        if raft && GoError.is errNotLeader err then
          return .notLeader (← Node.leaderAddr)
        return casRefused err (.notFound err.error) (.internalError (str "Failed to set keys"))
      | none =>
        return json 200 [
          (str "message", .text (str "Successfully set " ++ number req.items.keys.card ++
            str " keys with CAS")),
          (str "new_indices", .indices newIndices),
          (str "count", .count req.items.keys.card)]

def batchKVDeleteCAS (raft : Bool) (body : Option BatchKVDeleteCASRequest) :
    Handler Response := do
  match body with
  | none => return .badRequest (str "Invalid JSON body")
  | some req =>
    if req.keys.length = 0 then return keysEmpty
    if req.keys.length > 1000 then return tooManyKeys
    match missingIndex req.keys req.expectedIndices with
    | some key => return missingExpectedIndex key
    | none =>
      let err ←
        if raft then Node.kvBatchDeleteCAS req.keys req.expectedIndices
        else do
          let r ← Program.perform (Op.kvStore (.batchDeleteCAS req.keys req.expectedIndices))
          pure r.err
      match err with
      | some err =>
        if raft && GoError.is errNotLeader err then
          return .notLeader (← Node.leaderAddr)
        return casRefused err (.notFound err.error) (.internalError (str "Failed to delete keys"))
      | none =>
        return json 200 [
          (str "message", .text (str "Successfully deleted " ++ number req.keys.length ++
            str " keys with CAS")),
          (str "keys", .texts req.keys),
          (str "count", .count req.keys.length)]

/-! ### Services -/

/-- What becomes of one service of a batch; `stopped` ends the request. -/
inductive Outcome where
  | done (name : GoString)
  | failed (name : GoString)
  | stopped (response : Response)
  deriving DecidableEq

/-- The checks of the batch handler, which come before those of the store: the
name under which a service they refuse is listed. -/
def precheck (svc : Service) : Option GoString :=
  if svc.name = [] then some (str "unnamed-service")
  else if svc.address = [] then some svc.name
  else if svc.port ≤ 0 ∨ svc.port > 65535 then some svc.name
  else none

/-- One turn of the loop of `BatchServiceRegister`. -/
def registerOne (raft : Bool) (svc : Service) : Handler Outcome := do
  match precheck svc with
  | some name => return .failed name
  | none =>
    if raft then
      match ← Node.applyEntry (.service (.register svc)) with
      | .error err =>
        if GoError.is hashiErrNotLeader err then
          return .stopped (.notLeader (← Node.leaderAddr))
        return .failed svc.name
      | .ok _ => return .done svc.name
    else
      let r ← Program.perform (Op.serviceStore (.register svc))
      match r.err with
      | some _ => return .failed svc.name
      | none => return .done svc.name

def registerReply (registered failed : List GoString) : Response :=
  let message :=
    if failed.length > 0 then
      str "Registered " ++ number registered.length ++ str " services, " ++
        number failed.length ++ str " failed"
    else str "Registered " ++ number registered.length ++ str " services"
  json 200 ([(str "message", .text message), (str "registered", .texts registered)] ++
    (if failed.length > 0 then [(str "failed", .texts failed)] else []) ++
    [(str "count", .count registered.length)])

def registerAll (raft : Bool) (registered failed : List GoString) :
    List Service → Handler Response
  | [] => return registerReply registered failed
  | svc :: services => do
    match ← registerOne raft svc with
    | .done name => registerAll raft (registered ++ [name]) failed services
    | .failed name => registerAll raft registered (failed ++ [name]) services
    | .stopped response => return response

def batchServiceRegister (raft : Bool) (body : Option (List Service)) : Handler Response := do
  match body with
  | none => return .badRequest (str "Invalid JSON body")
  | some services =>
    if services.length = 0 then return .badRequest (str "Services array cannot be empty")
    if services.length > 100 then return .badRequest (str "Maximum 100 services per batch request")
    registerAll raft [] [] services

/-- One turn of the loop of `BatchServiceDeregister`. -/
def deregisterOne (raft : Bool) (name : GoString) : Handler Outcome := do
  if raft then
    match ← Node.applyEntry (.service (.deregister name)) with
    | .error err =>
      if GoError.is hashiErrNotLeader err then
        return .stopped (.notLeader (← Node.leaderAddr))
      return .stopped (.internalError (str "Failed to deregister services"))
    | .ok _ => return .done name
  else
    let _ ← Program.perform (Op.serviceStore (.deregister name))
    return .done name

def deregisterAll (raft : Bool) (deregistered : List GoString) : List GoString → Handler Response
  | [] => return json 200 [
      (str "message", .text (str "Deregistered " ++ number deregistered.length ++
        str " services")),
      (str "deregistered", .texts deregistered),
      (str "count", .count deregistered.length)]
  | name :: names => do
    match ← deregisterOne raft name with
    | .done name => deregisterAll raft (deregistered ++ [name]) names
    | .failed _ => deregisterAll raft deregistered names
    | .stopped response => return response

def batchServiceDeregister (raft : Bool) (body : Option (List GoString)) : Handler Response := do
  match body with
  | none => return .badRequest (str "Invalid JSON body")
  | some names =>
    if names.length = 0 then return .badRequest (str "Names array cannot be empty")
    if names.length > 100 then return .badRequest (str "Maximum 100 services per batch request")
    deregisterAll raft [] names

end BatchHandler

end Konsul
