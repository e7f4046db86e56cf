import Konsul.Handlers.Batch
import Konsul.Lib.Json
import Konsul.Lib.Strings
import Konsul.Store.ServiceQuery

/-!
# Handlers that read

The endpoints that answer from the stores, the agent protocol's synchronisation
and the endpoints of the persistence engine. A `Reader` is a program over
`StoreCall`, which has the calls of the writing handlers as `op`.
-/

namespace Konsul

open GoLib

/-- `ExportData`: the records of keys, and of services as far as they are JSON objects. -/
structure ExportedData where
  kv : GoMap GoString GoString
  services : List (GoString × List (Bytes × Json))

inductive StoreCall where
  | op (o : Op)
  | ensureLinearizableRead
  | kvGet (key : GoString)
  | kvGetEntry (key : GoString)
  | kvList
  | kvBatchGet (keys : List GoString)
  | serviceGet (name : GoString)
  | serviceGetEntry (name : GoString)
  | serviceList
  | serviceListAll
  /-- `ListAll` for the entries of the services named; the others are passed over. -/
  | serviceListNamed (names : List GoString)
  /-- `List` or `ListAll` of both stores for the number of entries only. -/
  | count
  | queryByTags (tags : List GoString)
  | queryByMetadata (filters : GoMap GoString GoString)
  | queryByTagsAndMetadata (tags : List GoString) (filters : GoMap GoString GoString)
  | getAllHealthChecks
  | getHealthChecks (name : GoString)
  | getAllServiceUpdates
  | getAllKVUpdates (prefixes : List GoString)
  /-- The index the agent registry counts. -/
  | currentIndex
  /-- The strategy of the balancer. -/
  | strategy
  /-- Which of so many instances the balancer picks. -/
  | pick (instances : ℕ)
  | backup
  | restore (path : GoString)
  | exportData
  | importData (data : List (Bytes × Json))

abbrev StoreCall.Answer : StoreCall → Type
  | .op o => o.Answer
  | .ensureLinearizableRead => Option GoError
  | .kvGet _ => Option GoString
  | .kvGetEntry _ => Option KVEntry
  | .kvList => List GoString
  | .kvBatchGet _ => GoMap GoString GoString × List GoString
  | .serviceGet _ => Option Service
  | .serviceGetEntry _ => Option ServiceEntry
  | .serviceList => List Service
  | .serviceListAll => List ServiceEntry
  | .serviceListNamed _ => List ServiceEntry
  | .count => ℕ
  | .queryByTags _ => List Service
  | .queryByMetadata _ => List Service
  | .queryByTagsAndMetadata _ _ => List Service
  | .getAllHealthChecks => List Check
  | .getHealthChecks _ => List Check
  | .getAllServiceUpdates => List (GoString × ServiceEntry)
  | .getAllKVUpdates _ => List (GoString × KVEntry)
  | .currentIndex => ℤ
  | .strategy => GoString
  | .pick _ => ℕ
  | .backup => Option GoError
  | .restore _ => Option GoError
  | .exportData => Except GoError ExportedData
  | .importData _ => Option GoError

theorem StoreCall.nonempty_answer (c : StoreCall) : Nonempty c.Answer := by
  cases c with
  | op o =>
    cases o with
    | isLeader => exact ⟨false⟩
    | applyEntry c => exact ⟨.error (.text [])⟩
    | kvStore c => exact ⟨.ok⟩
    | serviceStore c => exact ⟨⟨0, false, none⟩⟩
    | leaderAddr => exact ⟨[]⟩
    | view answer => exact ⟨⟨200, []⟩⟩
    | _ => exact ⟨none⟩
  | exportData => exact ⟨.error (.text [])⟩
  | kvBatchGet keys => exact ⟨(∅, [])⟩
  | count | pick instances => exact ⟨0⟩
  | currentIndex => exact ⟨0⟩
  | ensureLinearizableRead | kvGet key | kvGetEntry key | serviceGet name | serviceGetEntry name =>
    exact ⟨none⟩
  | backup | restore path | importData data => exact ⟨none⟩
  | _ => exact ⟨[]⟩

/-- What the store answers to a reader that lists everything; the other calls are `other`. -/
def ServiceTable.listing (t : ServiceTable) (range : t.data.Order)
    (other : (c : StoreCall) → c.Answer) : (c : StoreCall) → c.Answer
  | .serviceListAll => t.listAll range
  | .serviceListNamed names => (t.listAll range).filter fun e => e.service.name ∈ names
  | c => other c

abbrev Reader := Program StoreCall StoreCall.Answer

/-- A handler that writes, as a reader. -/
def Reader.ofHandler {R : Type} : Handler R → Reader R
  | .ret r => .ret r
  | .call o next => .call (.op o) fun a => ofHandler (next a)

/-- What an endpoint shows. -/
inductive Display where
  | response (r : Response)
  | keys (keys : List GoString)
  | value (key value : GoString)
  | entry (key : GoString) (e : KVEntry)
  | found (found : GoMap GoString GoString) (notFound : List GoString)
  | service (s : Service)
  | serviceEntry (e : ServiceEntry)
  | services (services : List Service)
  | matching (services : List Service) (tags : List GoString) (filters : GoMap GoString GoString)
  | servicesFound (found : GoMap GoString Service) (notFound : List GoString)
  | selected (s : Service) (strategy : GoString)
  | checks (checks : List Check)
  | sync (index : ℤ) (services : List (GoString × ServiceEntry)) (keys : List (GoString × KVEntry))
  | exported (data : ExportedData)
  /-- Counts and the time. -/
  | status

/-- The read a query parameter `consistent` asks of Raft first. -/
def consistentRead (raft consistent : Bool) (read : Reader Display) : Reader Display := do
  if consistent && raft then
    match ← Program.perform StoreCall.ensureLinearizableRead with
    | some err =>
      return .response (json 503 [(str "error", .text (str "linearizable read failed")),
        (str "detail", .text err.error)])
    | none => read
  else read

/-! ### Keys -/

namespace KVHandler

def get (raft consistent includeMetadata : Bool) (key : GoString) : Reader Display :=
  consistentRead raft consistent do
    if includeMetadata then
      match ← Program.perform (StoreCall.kvGetEntry key) with
      | none => return .response (.notFound (str "Key not found"))
      | some entry => return .entry key entry
    else
      match ← Program.perform (StoreCall.kvGet key) with
      | none => return .response (.notFound (str "Key not found"))
      | some value => return .value key value

def list (raft consistent : Bool) : Reader Display :=
  consistentRead raft consistent do
    return .keys (← Program.perform StoreCall.kvList)

end KVHandler

namespace BatchHandler

def batchKVGet (raft consistent : Bool) (body : Option (List GoString)) : Reader Display :=
  match body with
  | none => return .response (.badRequest (str "Invalid JSON body"))
  | some keys =>
    if keys.length = 0 then return .response keysEmpty
    else if keys.length > 1000 then return .response tooManyKeys
    else consistentRead raft consistent do
      let (found, notFound) ← Program.perform (StoreCall.kvBatchGet keys)
      return .found found notFound

/-- The loop of `BatchServiceGet`. -/
def getAll (found : GoMap GoString Service) (notFound : List GoString) :
    List GoString → Reader Display
  | [] => return .servicesFound found notFound
  | name :: names => do
    match ← Program.perform (StoreCall.serviceGet name) with
    | some svc => getAll (found.insert name svc) notFound names
    | none => getAll found (notFound ++ [name]) names

def batchServiceGet (body : Option (List GoString)) : Reader Display :=
  match body with
  | none => return .response (.badRequest (str "Invalid JSON body"))
  | some names =>
    if names.length = 0 then return .response (.badRequest (str "Names array cannot be empty"))
    else if names.length > 100 then
      return .response (.badRequest (str "Maximum 100 services per batch request"))
    else getAll ∅ [] names

end BatchHandler

/-! ### Query parameters -/

/-- The arguments of a query string, in their order. -/
abbrev QueryArgs := List (GoString × GoString)

namespace QueryArgs

/-- `c.Query(name, "")`. -/
def query (args : QueryArgs) (name : GoString) : GoString := (args.lookup name).getD []

def isTag (name : GoString) : Bool := name = str "tags" || name = str "tag"

/-- The tags of `QueryByTags`: the first one once, then those that differ from it. -/
def firstTags (args : QueryArgs) : List GoString :=
  let tags := if args.query (str "tags") = [] then args.query (str "tag") else args.query (str "tags")
  (if tags = [] then [] else [tags]) ++
    (args.filter fun a => isTag a.1 && a.2 ≠ tags).map Prod.snd

def tagList (args : QueryArgs) : List GoString := (args.filter fun a => isTag a.1).map Prod.snd

def filters (args : QueryArgs) : GoMap GoString GoString :=
  args.foldl (fun m a => m.insert a.1 a.2) ∅

/-- The filters with the prefix `meta.`. -/
def metaFilters (args : QueryArgs) : GoMap GoString GoString :=
  ((args.filter fun a => a.1.length > 5 && a.1.take 5 = str "meta.").map
    fun a => (a.1.drop 5, a.2)).foldl (fun m a => m.insert a.1 a.2) ∅

end QueryArgs

def noTag : Response := .badRequest (str "At least one tag must be specified")
def noFilter : Response := .badRequest (str "At least one metadata filter must be specified")
def noTagOrFilter : Response :=
  .badRequest (str "At least one tag or metadata filter must be specified")

/-! ### Services -/

namespace ServiceHandler

def list : Reader Display := do
  return .services (← Program.perform StoreCall.serviceList)

def get (includeMetadata : Bool) (name : GoString) : Reader Display := do
  if includeMetadata then
    match ← Program.perform (StoreCall.serviceGetEntry name) with
    | none => return .response (.notFound (str "Service not found"))
    | some entry => return .serviceEntry entry
  else
    match ← Program.perform (StoreCall.serviceGet name) with
    | none => return .response (.notFound (str "Service not found"))
    | some svc => return .service svc

def queryByTags (args : QueryArgs) : Reader Display := do
  if args.firstTags = [] then return .response noTag
  else return .matching (← Program.perform (StoreCall.queryByTags args.firstTags)) args.firstTags ∅

def queryByMetadata (args : QueryArgs) : Reader Display := do
  if args.filters.keys.card = 0 then return .response noFilter
  else return .matching (← Program.perform (StoreCall.queryByMetadata args.filters)) [] args.filters

def queryByTagsAndMetadata (args : QueryArgs) : Reader Display := do
  if args.tagList = [] ∧ args.metaFilters.keys.card = 0 then return .response noTagOrFilter
  else
    return .matching (← Program.perform
      (StoreCall.queryByTagsAndMetadata args.tagList args.metaFilters)) args.tagList args.metaFilters

end ServiceHandler

/-! ### Load balancing -/

namespace LoadBalancerHandler

/-- The balancer's choice among what a query found. -/
def select (notFound : GoString) (instances : List Service) : Reader Display := do
  match instances with
  | [] => return .response (.notFound notFound)
  | first :: rest =>
    let index ← Program.perform (StoreCall.pick (first :: rest).length)
    return .selected ((first :: rest).getD index first) (← Program.perform StoreCall.strategy)

/-- The name of the service is taken for a tag. -/
def selectService (name : GoString) : Reader Display := do
  let instances ← Program.perform (StoreCall.queryByTags [name])
  select (str "No service instances available") instances

def selectServiceByTags (args : QueryArgs) : Reader Display := do
  if args.tagList = [] then return .response noTag
  else
    let instances ← Program.perform (StoreCall.queryByTags args.tagList)
    select (str "No service instances matching tags") instances

def selectServiceByMetadata (args : QueryArgs) : Reader Display := do
  if args.filters.keys.card = 0 then return .response noFilter
  else
    let instances ← Program.perform (StoreCall.queryByMetadata args.filters)
    select (str "No service instances matching metadata") instances

def selectServiceByQuery (args : QueryArgs) : Reader Display := do
  if args.tagList = [] ∧ args.metaFilters.keys.card = 0 then return .response noTagOrFilter
  else
    let instances ← Program.perform (StoreCall.queryByTagsAndMetadata args.tagList args.metaFilters)
    select (str "No service instances matching query") instances

end LoadBalancerHandler

/-! ### Health -/

namespace HealthHandler

/-- `Check` and `Readiness`: what they list is only counted, or not looked at. -/
def check : Reader Display := do
  let _ ← Program.perform StoreCall.count
  return .status

def liveness : Reader Display := return .status

end HealthHandler

namespace HealthCheckHandler

def listChecks : Reader Display := do
  return .checks (← Program.perform StoreCall.getAllHealthChecks)

def getServiceChecks (name : GoString) : Reader Display := do
  return .checks (← Program.perform (StoreCall.getHealthChecks name))

end HealthCheckHandler

/-! ### Agents -/

structure SyncRequest where
  agentID : GoString
  lastSyncIndex : ℤ
  watchedPrefixes : List GoString
  fullSync : Bool

namespace AgentHandlers

/-- A full synchronisation and one by differences are answered alike. -/
def handleAgentSync (body : Option SyncRequest) : Reader Display :=
  match body with
  | none => return .response (json 400 [(str "error", .text (str "invalid sync request"))])
  | some req => do
    let index ← Program.perform StoreCall.currentIndex
    let services ← Program.perform StoreCall.getAllServiceUpdates
    let keys ← Program.perform (StoreCall.getAllKVUpdates req.watchedPrefixes)
    return .sync index services keys

end AgentHandlers

/-! ### The persistence engine -/

inductive EngineKind where
  | memory
  | badger
  deriving DecidableEq

namespace BackupHandler

def unavailable (what : String) : Display :=
  .response (.badRequest (str what ++ str " not available - persistence is disabled"))

def unsupported (what : String) : Display :=
  .response (.badRequest (str what ++ str " not supported for this persistence type"))

/-- The path of the backup, which the reply names, is made of the time. -/
def createBackup (engine : Option EngineKind) : Reader Display := do
  match engine with
  | none => return unavailable "Backup"
  | some _ =>
    match ← Program.perform StoreCall.backup with
    | some _ => return .response (.internalError (str "Failed to create backup"))
    | none => return .response (json 200 [(str "message", .text (str "Backup created successfully"))])

def restoreBackup (engine : Option EngineKind) (body : Option GoString) : Reader Display := do
  match engine, body with
  | none, _ => return unavailable "Restore"
  | some _, none => return .response (.badRequest (str "Invalid JSON body"))
  | some _, some backupPath =>
    if backupPath = [] then return .response (.badRequest (str "backup_path is required"))
    else
      match ← Program.perform (StoreCall.restore backupPath) with
      | some _ => return .response (.internalError (str "Failed to restore backup"))
      | none =>
        return .response (json 200 [(str "message", .text (str "Backup restored successfully")),
          (str "path", .text backupPath)])

def exportData (engine : Option EngineKind) : Reader Display := do
  match engine with
  | none => return unavailable "Export"
  | some .memory => return unsupported "Export"
  | some .badger =>
    match ← Program.perform StoreCall.exportData with
    | .error _ => return .response (.internalError (str "Failed to export data"))
    | .ok data => return .exported data

def importData (engine : Option EngineKind) (body : Option (List (Bytes × Json))) :
    Reader Display := do
  match engine, body with
  | none, _ => return unavailable "Import"
  | some _, none => return .response (.badRequest (str "Invalid JSON body"))
  | some .memory, some _ => return unsupported "Import"
  | some .badger, some data =>
    match ← Program.perform (StoreCall.importData data) with
    | some _ => return .response (.internalError (str "Failed to import data"))
    | none =>
      return .response (json 200 [(str "message", .text (str "Data imported successfully"))])

def listBackups (engine : Option EngineKind) : Reader Display :=
  match engine with
  | none => return unavailable "Backup listing"
  | some _ =>
    return .response (json 200 [(str "message", .text (str "Backup listing not implemented yet")),
      (str "note", .text (str "Check the ./backups directory for available backup files"))])

end BackupHandler

end Konsul
