import Konsul.Persistence.Memory
import Konsul.Store.ServiceIndex

/-!
# The service store

As for the key-value store, `ServiceTable` is what the mutex guards. The health
manager has a lock of its own, and `TTL` does not change.
-/

namespace Konsul

open GoLib

structure ServiceEntry where
  service : Service
  expiresAt : Time
  modifyIndex : UInt64
  createIndex : UInt64
  deriving DecidableEq

structure ServiceTable where
  data : GoMap GoString ServiceEntry
  tagIndex : TagIndex
  metaIndex : MetaIndex
  globalIndex : UInt64
  deriving DecidableEq

structure ServiceStore extends ServiceTable where
  ttl : Duration
  engine : Option Engine
  healthManager : Manager

/-- What an operation of the store draws from outside; `marshalEntry` is
`json.Marshal(entry)`, which refuses a time past the year 9999. -/
structure StoreEnv extends Env where
  marshalEntry : ServiceEntry → Except GoError Bytes

/-- Service data of commands and snapshots: without health checks. -/
structure ServiceDataSnapshot where
  name : GoString
  address : GoString
  port : ℤ
  tags : List GoString
  metadata : GoMap GoString GoString
  deriving DecidableEq

structure ServiceEntrySnapshot where
  service : ServiceDataSnapshot
  expiresAt : Time
  modifyIndex : UInt64
  createIndex : UInt64
  deriving DecidableEq

def ServiceDataSnapshot.toService (s : ServiceDataSnapshot) : Service :=
  { name := s.name, address := s.address, port := s.port, tags := s.tags, metadata := s.metadata,
    checks := [] }

def Service.toSnapshot (s : Service) : ServiceDataSnapshot :=
  { name := s.name, address := s.address, port := s.port, tags := s.tags, metadata := s.metadata }

def ServiceEntry.toSnapshot (e : ServiceEntry) : ServiceEntrySnapshot :=
  { service := e.service.toSnapshot, expiresAt := e.expiresAt, modifyIndex := e.modifyIndex,
    createIndex := e.createIndex }

def ServiceEntrySnapshot.toEntry (e : ServiceEntrySnapshot) : ServiceEntry :=
  { service := e.service.toService, expiresAt := e.expiresAt, modifyIndex := e.modifyIndex,
    createIndex := e.createIndex }

/-! ### Under the lock -/

namespace ServiceTable

def nextIndex (t : ServiceTable) : UInt64 := t.globalIndex + 1

/-- The entry a registration stores. -/
def newEntry (t : ServiceTable) (service : Service) (expiresAt : Time) : ServiceEntry :=
  { service
    expiresAt
    modifyIndex := t.nextIndex
    createIndex :=
      match t.data.lookup service.name with
      | some oldEntry => oldEntry.createIndex
      | none => t.nextIndex }

def unindex (t : ServiceTable) (name : GoString) (service : Service) : ServiceTable :=
  { t with
    tagIndex := removeFromTagIndex t.tagIndex name service.tags
    metaIndex := removeFromMetaIndex t.metaIndex name service.metadata }

def index (t : ServiceTable) (name : GoString) (service : Service) : ServiceTable :=
  { t with
    tagIndex := addToTagIndex t.tagIndex name service.tags
    metaIndex := addToMetaIndex t.metaIndex name service.metadata }

/-- The indexes without the service registered under a name. -/
def unindexOld (t : ServiceTable) (name : GoString) : ServiceTable :=
  match t.data.lookup name with
  | some oldEntry => t.unindex name oldEntry.service
  | none => t

def put (t : ServiceTable) (service : Service) (expiresAt : Time) : ServiceTable :=
  let entry := t.newEntry service expiresAt
  let t := t.unindexOld service.name
  { t with data := t.data.insert service.name entry, globalIndex := t.nextIndex }.index
    service.name service

def remove (t : ServiceTable) (name : GoString) : ServiceTable :=
  let t := t.unindexOld name
  { t with data := t.data.erase name }

def conflict (name : GoString) (expectedIndex currentIndex : UInt64) : GoError :=
  .casConflict name expectedIndex currentIndex (str "service")

/-- The condition of a compare-and-swap registration. -/
def checkRegisterCAS (t : ServiceTable) (name : GoString) (expectedIndex : UInt64) :
    Option GoError :=
  match t.data.lookup name with
  | some oldEntry =>
    if expectedIndex = 0 then some (conflict name 0 oldEntry.modifyIndex)
    else if oldEntry.modifyIndex ≠ expectedIndex then
      some (conflict name expectedIndex oldEntry.modifyIndex)
    else none
  | none => if expectedIndex = 0 then none else some (.notFound (str "service") name)

def checkDeregisterCAS (t : ServiceTable) (name : GoString) (expectedIndex : UInt64) :
    Option GoError :=
  match t.data.lookup name with
  | none => some (.notFound (str "service") name)
  | some entry =>
    if entry.modifyIndex ≠ expectedIndex then
      some (conflict name expectedIndex entry.modifyIndex)
    else none

/-- The expiry of an entry moved; its indices are kept. -/
def touch (t : ServiceTable) (name : GoString) (entry : ServiceEntry) (expiresAt : Time) :
    ServiceTable :=
  { t with data := t.data.insert name { entry with expiresAt := expiresAt } }

/-- The services that have expired, in the order of their names. -/
def expired (t : ServiceTable) (now : Time) : List GoString :=
  ((GoMap.sorted t.data).list.filter fun e => e.2.expiresAt < now).map Sigma.fst

def removeAll (t : ServiceTable) (names : List GoString) : ServiceTable := names.foldl remove t

/-! The tag and metadata indexes aside, these are updates of the data. -/

theorem unindexOld_globalIndex (t : ServiceTable) (name : GoString) :
    (t.unindexOld name).globalIndex = t.globalIndex := by
  unfold unindexOld
  split <;> rfl

theorem unindexOld_data (t : ServiceTable) (name : GoString) :
    (t.unindexOld name).data = t.data := by
  unfold unindexOld
  split <;> rfl

@[simp] theorem put_data (t : ServiceTable) (service : Service) (expiresAt : Time) :
    (t.put service expiresAt).data =
      t.data.insert service.name (t.newEntry service expiresAt) := by
  simp only [put, index, unindexOld_data]

@[simp] theorem put_globalIndex (t : ServiceTable) (service : Service) (expiresAt : Time) :
    (t.put service expiresAt).globalIndex = t.globalIndex + 1 := by
  have h := t.unindexOld_globalIndex service.name
  simp only [put, index, nextIndex, h]

@[simp] theorem remove_data (t : ServiceTable) (name : GoString) :
    (t.remove name).data = t.data.erase name := by
  simp only [remove, unindexOld_data]

@[simp] theorem remove_globalIndex (t : ServiceTable) (name : GoString) :
    (t.remove name).globalIndex = t.globalIndex := by
  simp only [remove, unindexOld_globalIndex]

end ServiceTable

namespace ServiceStore

/-- `NewServiceStoreWithTTL`. -/
def newWithTTL (ttl : Duration) : ServiceStore :=
  { data := ∅, tagIndex := ∅, metaIndex := ∅, globalIndex := 0, ttl, engine := none,
    healthManager := .new }

/-! ### Reads -/

def getEntry (s : ServiceStore) (now : Time) (name : GoString) : Option ServiceEntry :=
  match s.data.lookup name with
  | none => none
  | some entry => if entry.expiresAt < now then none else some entry

def get (s : ServiceStore) (now : Time) (name : GoString) : Option Service :=
  (s.getEntry now name).map ServiceEntry.service

/-! ### Writes -/

/-- A check of a service as registration leaves it: owned, named and identified. -/
def completeCheck (service : Service) (d : CheckDefinition) (newID : GoString) : CheckDefinition :=
  let d := if d.serviceID = [] then { d with serviceID := service.name } else d
  let d := if d.name = [] then { d with name := service.name ++ str "-health" } else d
  Manager.withID d newID

/-- The service whose check definitions, which the store and the health manager
share, have been completed. -/
def completeChecks (env : Env) (service : Service) : Service :=
  { service with
    checks := service.checks.zipIdx.map fun p => completeCheck service p.1 (env.newUUID p.2) }

def addChecks (m : Manager) (env : Env) (checks : List CheckDefinition) : Manager :=
  checks.foldl (fun m d => m.addCheck env d) m

/-- A call of the engine, when there is one. -/
def persist (s : ServiceStore) (call : Engine → Engine × Option GoError) :
    ServiceStore × Option GoError :=
  match s.engine with
  | none => (s, none)
  | some engine => ({ s with engine := some (call engine).1 }, (call engine).2)

@[simp] theorem persist_toServiceTable (s : ServiceStore)
    (call : Engine → Engine × Option GoError) :
    (s.persist call).1.toServiceTable = s.toServiceTable := by
  unfold persist
  split <;> rfl

/-- The entry marshalled and handed to the engine, when there is one. -/
def persistEntry (s : ServiceStore) (env : StoreEnv) (name : GoString) (entry : ServiceEntry) :
    ServiceStore × Option GoError :=
  match s.engine with
  | none => (s, none)
  | some _ =>
    match env.marshalEntry entry with
    | .error err => (s, some err)
    | .ok data => s.persist (·.setService env.now name data s.ttl)

/-- The critical section of a registration after its checks. -/
def registered (s : ServiceStore) (env : StoreEnv) (service : Service) :
    ServiceStore × Option GoError :=
  let service := completeChecks env.toEnv service
  let entry := s.toServiceTable.newEntry service (env.now + s.ttl)
  let s := { s with
    toServiceTable := s.toServiceTable.put service (env.now + s.ttl)
    healthManager := addChecks s.healthManager env.toEnv service.checks }
  s.persistEntry env service.name entry

def register (s : ServiceStore) (env : StoreEnv) (service : Service)
    (range : service.metadata.Order) : ServiceStore × Option GoError :=
  match validateService service range with
  | some err => (s, some err)
  | none => s.registered env service

def registerCAS (s : ServiceStore) (env : StoreEnv) (service : Service)
    (range : service.metadata.Order) (expectedIndex : UInt64) :
    ServiceStore × UInt64 × Option GoError :=
  match validateService service range with
  | some err => (s, 0, some err)
  | none =>
    match s.toServiceTable.checkRegisterCAS service.name expectedIndex with
    | some err => (s, 0, some err)
    | none =>
      let p := s.registered env service
      (p.1, s.toServiceTable.nextIndex, p.2)

/-- `Heartbeat`; engine errors are only logged. -/
def heartbeat (s : ServiceStore) (env : StoreEnv) (name : GoString) : ServiceStore × Bool :=
  match s.data.lookup name with
  | none => (s, false)
  | some entry =>
    let t := s.toServiceTable.touch name entry (env.now + s.ttl)
    let entry := { entry with expiresAt := env.now + s.ttl }
    (({ s with toServiceTable := t }.persistEntry env name entry).1, true)

def deregister (s : ServiceStore) (name : GoString) : ServiceStore :=
  ({ s with toServiceTable := s.toServiceTable.remove name }.persist (·.deleteService name)).1

def deregisterCAS (s : ServiceStore) (name : GoString) (expectedIndex : UInt64) :
    ServiceStore × Option GoError :=
  match s.toServiceTable.checkDeregisterCAS name expectedIndex with
  | some err => (s, some err)
  | none =>
    { s with toServiceTable := s.toServiceTable.remove name }.persist (·.deleteService name)

/-- Returns the number of services removed. -/
def cleanupExpired (s : ServiceStore) (now : Time) : ServiceStore × ℕ :=
  let names := s.toServiceTable.expired now
  let s := { s with toServiceTable := s.toServiceTable.removeAll names }
  (names.foldl (fun s name => (s.persist (·.deleteService name)).1) s, names.length)

def updateTTLCheck (s : ServiceStore) (now : Time) (checkID : GoString) :
    ServiceStore × Option GoError :=
  let p := s.healthManager.updateTTLCheck now checkID
  ({ s with healthManager := p.1 }, p.2)

/-! ### Writes applied from the log -/

def registerLocal (s : ServiceStore) (now : Time) (serviceData : ServiceDataSnapshot)
    (range : serviceData.metadata.Order) : ServiceStore × Option GoError :=
  match validateService serviceData.toService range with
  | some err => (s, some err)
  | none =>
    ({ s with
      toServiceTable := s.toServiceTable.put serviceData.toService (now + s.ttl) }, none)

def registerCASLocal (s : ServiceStore) (now : Time) (serviceData : ServiceDataSnapshot)
    (range : serviceData.metadata.Order) (expectedIndex : UInt64) :
    ServiceStore × UInt64 × Option GoError :=
  match validateService serviceData.toService range with
  | some err => (s, 0, some err)
  | none =>
    match s.toServiceTable.checkRegisterCAS serviceData.name expectedIndex with
    | some err => (s, 0, some err)
    | none =>
      ({ s with toServiceTable := s.toServiceTable.put serviceData.toService (now + s.ttl) },
        s.toServiceTable.nextIndex, none)

def deregisterLocal (s : ServiceStore) (name : GoString) : ServiceStore :=
  { s with toServiceTable := s.toServiceTable.remove name }

def deregisterCASLocal (s : ServiceStore) (name : GoString) (expectedIndex : UInt64) :
    ServiceStore × Option GoError :=
  match s.toServiceTable.checkDeregisterCAS name expectedIndex with
  | some err => (s, some err)
  | none => ({ s with toServiceTable := s.toServiceTable.remove name }, none)

def heartbeatLocal (s : ServiceStore) (now : Time) (name : GoString) : ServiceStore × Bool :=
  match s.data.lookup name with
  | none => (s, false)
  | some entry =>
    ({ s with toServiceTable := s.toServiceTable.touch name entry (now + s.ttl) }, true)

/-! ### Snapshots -/

def getAllData (s : ServiceStore) : GoMap GoString ServiceEntrySnapshot :=
  s.data.mapVal fun _ entry => entry.toSnapshot

/-- The greatest index of the loop over a snapshot. -/
def maxIndex (entries : List (Σ _ : GoString, ServiceEntrySnapshot)) : UInt64 :=
  entries.foldl (fun m e => if e.2.modifyIndex > m then e.2.modifyIndex else m) 0

/-- `RestoreFromSnapshot`; health checks are left as they are. -/
def restoreFromSnapshot (s : ServiceStore) (data : GoMap GoString ServiceEntrySnapshot)
    (range : data.Order) : ServiceStore :=
  { s with
    data := data.mapVal fun _ snapshot => snapshot.toEntry
    tagIndex := range.list.foldl (fun ix e => addToTagIndex ix e.1 e.2.service.tags) ∅
    metaIndex := range.list.foldl (fun ix e => addToMetaIndex ix e.1 e.2.service.metadata) ∅
    globalIndex := maxIndex range.list }

end ServiceStore

end Konsul
