import Konsul.Raft.Node

/-!
# Handlers of single writes

The write endpoints for keys, services and checks, the agent protocol, and the
compare-and-swap mutation of the GraphQL interface. `raft` says whether there is
a Raft node; without one the handler calls its store. A body of `none` is one
`BodyParser` refuses. Replies show a service without its checks.
-/

namespace Konsul

open GoLib

/-- `json` replies with the status the context is left with: 200, unless the
leader check has set another one. -/
def json (status : ℕ) (body : List (GoString × Value)) : Response := ⟨status, body⟩

/-- The reply of `checkLeaderForWrite` is written but its error is nil: the
handler goes on, and only the status is left. -/
def checkLeaderForWrite (raft : Bool) : Handler ℕ := do
  if raft then
    if ← Node.isLeader then return 200
    let leaderAddr ← Node.leaderAddr
    if leaderAddr = [] then return 503
    return 307
  return 200

/-- The replies to an error of a compare-and-swap operation. -/
def casRefused (err : GoError) (notFound failed : Response) : Response :=
  if isCASConflict err then .casConflict err
  else if isNotFound err then notFound
  else failed

/-- The query parameter `cas` as `Sscanf` reads it. -/
inductive CasParam where
  | absent
  | invalid
  | index (n : UInt64)

/-! ### Keys -/

structure KVSetBody where
  value : GoString
  cas : Option UInt64
  flags : UInt64

namespace KVHandler

def setCAS (raft : Bool) (status : ℕ) (key value : GoString) (expectedIndex : UInt64) :
    Handler Response := do
  let (newIndex, err) ←
    if raft then Node.kvSetCAS key value expectedIndex
    else do
      let r ← Program.perform (Op.kvStore (.setCAS key value expectedIndex))
      pure (r.newIndex, r.err)
  match err with
  | some err =>
    if raft && GoError.is errNotLeader err then
      return .notLeader (← Node.leaderAddr)
    return casRefused err (.notFound (str "Key not found")) (.internalError (str "Failed to set key"))
  | none =>
    return json status [(str "message", .text (str "key set")), (str "key", .text key),
      (str "modify_index", .index newIndex)]

def set (raft : Bool) (key : GoString) (body : Option KVSetBody) : Handler Response := do
  let status ← checkLeaderForWrite raft
  match body with
  | none => return .badRequest (str "Invalid JSON body")
  | some body =>
    match body.cas with
    | some expectedIndex => setCAS raft status key body.value expectedIndex
    | none =>
      let err ←
        if raft then
          if body.flags > 0 then Node.kvSetWithFlags key body.value body.flags
          else Node.kvSet key body.value
        else do
          let _ ← Program.perform (Op.kvStore
            (if body.flags > 0 then .setWithFlags key body.value body.flags
              else .set key body.value))
          pure none
      match err with
      | some err => return .replicationFailed err
      | none =>
        let entry ← Program.perform (Op.getKVEntry key)
        return json status [(str "message", .text (str "key set")), (str "key", .text key),
          (str "modify_index", .index ((entry.map KVEntry.modifyIndex).getD 0))]

def deleted (status : ℕ) (key : GoString) : Response :=
  json status [(str "message", .text (str "key deleted")), (str "key", .text key)]

def deleteCAS (raft : Bool) (status : ℕ) (key : GoString) (expectedIndex : UInt64) :
    Handler Response := do
  let err ←
    if raft then Node.kvDeleteCAS key expectedIndex
    else do
      let r ← Program.perform (Op.kvStore (.deleteCAS key expectedIndex))
      pure r.err
  match err with
  | some err =>
    if raft && GoError.is errNotLeader err then
      return .notLeader (← Node.leaderAddr)
    return casRefused err (.notFound (str "Key not found"))
      (.internalError (str "Failed to delete key"))
  | none => return deleted status key

def delete (raft : Bool) (key : GoString) (cas : CasParam) : Handler Response := do
  let status ← checkLeaderForWrite raft
  match cas with
  | .invalid => return .badRequest (str "Invalid CAS parameter")
  | .index expectedIndex => deleteCAS raft status key expectedIndex
  | .absent =>
    let err ←
      if raft then Node.kvDelete key
      else do
        let _ ← Program.perform (Op.kvStore (.delete key))
        pure none
    match err with
    | some err => return .replicationFailed err
    | none => return deleted status key

end KVHandler

/-! ### Services -/

structure RegisterBody where
  service : Service
  cas : Option UInt64

/-- The assertion `resp.(uint64)`: what `Apply` returns is an error or a
`*CASResult`, never a number. -/
def FsmResponse.uint64 : FsmResponse → Option UInt64
  | .err _ => none
  | .cas _ => none

namespace ServiceHandler

def registered (status : ℕ) (svc : Service) (modifyIndex : UInt64) : Response :=
  json status [(str "message", .text (str "service registered")),
    (str "service", .service svc.toSnapshot), (str "modify_index", .index modifyIndex)]

def registerCAS (raft : Bool) (status : ℕ) (svc : Service) (expectedIndex : UInt64) :
    Handler Response := do
  let refused (err : GoError) : Response :=
    casRefused err (.notFound (str "Service not found")) (.badRequest err.error)
  if raft then
    match ← Node.applyEntry (.service (.registerCAS svc expectedIndex)) with
    | .error err =>
      if GoError.is hashiErrNotLeader err then
        return .notLeader (← Node.leaderAddr)
      return refused err
    | .ok resp => return registered status svc (resp.uint64.getD 0)
  else
    let r ← Program.perform (Op.serviceStore (.registerCAS svc expectedIndex))
    match r.err with
    | some err => return refused err
    | none => return registered status svc r.newIndex

def register (raft : Bool) (body : Option RegisterBody) : Handler Response := do
  let status ← checkLeaderForWrite raft
  match body with
  | none => return .badRequest (str "Invalid JSON body")
  | some ⟨svc, some expectedIndex⟩ => registerCAS raft status svc expectedIndex
  | some ⟨svc, none⟩ =>
    let failure ←
      if raft then do
        let err ← Node.serviceRegister svc.name svc.address svc.port svc.tags svc.metadata
        pure (err.map .replicationFailed)
      else do
        let r ← Program.perform (Op.serviceStore (.register svc))
        pure (r.err.map fun err => .badRequest err.error)
    match failure with
    | some response => return response
    | none =>
      let entry ← Program.perform (Op.getServiceEntry svc.name)
      return registered status svc ((entry.map ServiceEntry.modifyIndex).getD 0)

def deregistered (status : ℕ) (name : GoString) : Response :=
  json status [(str "message", .text (str "service deregistered")), (str "name", .text name)]

def deregisterCAS (raft : Bool) (status : ℕ) (name : GoString) (expectedIndex : UInt64) :
    Handler Response := do
  let refused (err : GoError) : Response :=
    casRefused err (.notFound (str "Service not found"))
      (.internalError (str "Failed to deregister service"))
  if raft then
    match ← Node.applyEntry (.service (.deregisterCAS name expectedIndex)) with
    | .error err =>
      if GoError.is hashiErrNotLeader err then
        return .notLeader (← Node.leaderAddr)
      return refused err
    | .ok _ => return deregistered status name
  else
    let r ← Program.perform (Op.serviceStore (.deregisterCAS name expectedIndex))
    match r.err with
    | some err => return refused err
    | none => return deregistered status name

def deregister (raft : Bool) (name : GoString) (cas : CasParam) : Handler Response := do
  let status ← checkLeaderForWrite raft
  match cas with
  | .invalid => return .badRequest (str "Invalid CAS parameter")
  | .index expectedIndex => deregisterCAS raft status name expectedIndex
  | .absent =>
    let err ←
      if raft then Node.serviceDeregister name
      else do
        let _ ← Program.perform (Op.serviceStore (.deregister name))
        pure none
    match err with
    | some err => return .replicationFailed err
    | none => return deregistered status name

def heartbeatUpdated (status : ℕ) (name : GoString) : Response :=
  json status [(str "message", .text (str "heartbeat updated")), (str "service", .text name)]

def heartbeat (raft : Bool) (name : GoString) : Handler Response := do
  let status ← checkLeaderForWrite raft
  if raft then
    match ← Node.serviceHeartbeat name with
    | some err => return .replicationFailed err
    | none => return heartbeatUpdated status name
  else
    let r ← Program.perform (Op.serviceStore (.heartbeat name))
    if r.found then return heartbeatUpdated status name
    return .notFound (str "Service not found")

end ServiceHandler

/-! ### Health checks -/

namespace HealthCheckHandler

def updateTTLCheck (raft : Bool) (checkID : GoString) : Handler Response := do
  let updated : Response :=
    json 200 [(str "message", .text (str "TTL check updated")), (str "check_id", .text checkID)]
  if raft then
    match ← Node.applyEntry (.service (.ttlUpdate checkID)) with
    | .error err =>
      if GoError.is hashiErrNotLeader err then
        return .notLeader (← Node.leaderAddr)
      return .badRequest err.error
    | .ok _ => return updated
  else
    let r ← Program.perform (Op.serviceStore (.ttlUpdate checkID))
    match r.err with
    | some err => return .badRequest err.error
    | none => return updated

def addCheck (body : Option CheckDefinition) : Handler Response :=
  match body with
  | none => return .badRequest (str "Invalid JSON body")
  | some _ => return .badRequest (str "Direct health check addition not yet implemented")

end HealthCheckHandler

/-! ### Agents

The registry of agents, which is not part of the stores, is left out. -/

structure ServiceUpdate where
  type : GoString
  serviceName : GoString
  service : Option Service

structure BatchUpdate where
  agentID : GoString
  updates : List ServiceUpdate

namespace AgentHandlers

/-- An error of `Register` is logged. -/
def processUpdate (update : ServiceUpdate) : Handler Unit :=
  if update.type = str "add" ∨ update.type = str "update" then
    match update.service with
    | some service => do
      let _ ← Program.perform (Op.serviceStore (.register service))
      pure ()
    | none => pure ()
  else if update.type = str "delete" then do
    let _ ← Program.perform (Op.serviceStore (.deregister update.serviceName))
    pure ()
  else pure ()

def processUpdates : List ServiceUpdate → Handler Unit
  | [] => pure ()
  | update :: updates => do
    processUpdate update
    processUpdates updates

/-- The handler has no Raft node: it calls the store. -/
def handleBatchUpdate (body : Option BatchUpdate) : Handler Response := do
  match body with
  | none => return json 400 [(str "error", .text (str "invalid batch update request"))]
  | some req =>
    processUpdates req.updates
    return json 200 [(str "status", .text (str "processed")),
      (str "count", .count req.updates.length)]

/-- `none` is a body that does not parse, the identifier is all that is looked at. -/
def handleAgentRegister (id : Option GoString) : Handler Response :=
  match id with
  | none => return json 400 [(str "error", .text (str "invalid agent info"))]
  | some id =>
    if id = [] then return json 400 [(str "error", .text (str "agent ID is required"))]
    else return json 200 [(str "status", .text (str "registered")), (str "agent_id", .text id)]

def handleHealthUpdate (parses : Bool) : Handler Response :=
  if parses then return json 200 [(str "status", .text (str "received"))]
  else return json 400 [(str "error", .text (str "invalid health update"))]

end AgentHandlers

/-! ### GraphQL -/

/-- `model.KVPair` without its timestamps. -/
structure KVPair where
  key : GoString
  value : GoString
  deriving DecidableEq

/-- `KvCas`; `denied` is the error of the authorization. A refusal is the result null. -/
def kvCas (raft : Bool) (denied : Option GoError) (key value : GoString) (index : ℤ) :
    Handler (Except GoError (Option KVPair)) := do
  match denied with
  | some err => return .error err
  | none =>
    let err ←
      if raft then do
        match ← Node.applyEntry (.kv (.setCAS key value (UInt64.ofInt index))) with
        | .error err => pure (some err)
        -- the new index, when the assertion to a number holds, is only logged
        | .ok _ => pure none
      else do
        let r ← Program.perform (Op.kvStore (.setCAS key value (UInt64.ofInt index)))
        pure r.err
    match err with
    | some err =>
      if isCASConflict err || isNotFound err then return .ok none
      if GoError.is hashiErrNotLeader err then return .error (.wrap (str "not leader") err)
      return .error err
    | none => return .ok (some ⟨key, value⟩)

end Konsul
