import Konsul.Raft.Determinism

/-!
# What the replicas of a log have in common

Expiry times, tag and metadata indexes, health checks, engine and watchers are a
replica's own. `Replica` is the rest: the key-value table and the registry, which
holds the data and the indices of the services. A log acts on the replica, and the
clock of the one that applies it does not show: `FSM.replica_run`.
-/

namespace Konsul

open GoLib

/-! ### The registry -/

/-- A service entry without its expiry. -/
structure Registration where
  service : Service
  modifyIndex : UInt64
  createIndex : UInt64
  deriving DecidableEq

def ServiceEntry.registration (e : ServiceEntry) : Registration :=
  { service := e.service, modifyIndex := e.modifyIndex, createIndex := e.createIndex }

structure Registry where
  data : GoMap GoString Registration
  globalIndex : UInt64
  deriving DecidableEq

namespace Registry

def newEntry (t : Registry) (service : Service) : Registration :=
  { service
    modifyIndex := t.globalIndex + 1
    createIndex :=
      match t.data.lookup service.name with
      | some old => old.createIndex
      | none => t.globalIndex + 1 }

def put (t : Registry) (service : Service) : Registry :=
  { data := t.data.insert service.name (t.newEntry service), globalIndex := t.globalIndex + 1 }

def remove (t : Registry) (name : GoString) : Registry := { t with data := t.data.erase name }

def checkRegisterCAS (t : Registry) (name : GoString) (expectedIndex : UInt64) : Option GoError :=
  match t.data.lookup name with
  | some old =>
    if expectedIndex = 0 then some (ServiceTable.conflict name 0 old.modifyIndex)
    else if old.modifyIndex ≠ expectedIndex then
      some (ServiceTable.conflict name expectedIndex old.modifyIndex)
    else none
  | none => if expectedIndex = 0 then none else some (.notFound (str "service") name)

def checkDeregisterCAS (t : Registry) (name : GoString) (expectedIndex : UInt64) :
    Option GoError :=
  match t.data.lookup name with
  | none => some (.notFound (str "service") name)
  | some old =>
    if old.modifyIndex ≠ expectedIndex then
      some (ServiceTable.conflict name expectedIndex old.modifyIndex)
    else none

def refused (err : GoError) : FsmResponse := .cas ⟨0, ∅, some err⟩

/-- A command on the registry alone; a TTL update is answered by the health checks. -/
def applyCommand (t : Registry) : (c : ServiceCommand) → c.Choice → Registry × Option FsmResponse
  | .register service, range =>
    match validateService service.toSnapshot.toService range with
    | some err => (t, some (.err (some err)))
    | none => (t.put service.toSnapshot.toService, some (.err none))
  | .deregister name, _ => (t.remove name, some (.err none))
  | .heartbeat _, _ => (t, some (.err none))
  | .ttlUpdate _, _ => (t, none)
  | .registerCAS service expectedIndex, range =>
    match validateService service.toSnapshot.toService range with
    | some err => (t, some (refused err))
    | none =>
      match t.checkRegisterCAS service.name expectedIndex with
      | some err => (t, some (refused err))
      | none => (t.put service.toSnapshot.toService, some (.cas ⟨t.globalIndex + 1, ∅, none⟩))
  | .deregisterCAS name expectedIndex, _ =>
    match t.checkDeregisterCAS name expectedIndex with
    | some err => (t, some (refused err))
    | none => (t.remove name, some (.cas ⟨0, ∅, none⟩))

end Registry

/-- The order of the metadata does not decide which error a registration reports. -/
def Service.OneError (s : Service) : Prop :=
  ∀ range range' : s.metadata.Order,
    validateService s.toSnapshot.toService range = validateService s.toSnapshot.toService range'

/-- Only a TTL update is left without an answer. -/
theorem Registry.applyCommand_answer (t : Registry) (c : ServiceCommand) (ch : c.Choice) :
    (∃ checkID, c = .ttlUpdate checkID) ∨ ∃ answer, (t.applyCommand c ch).2 = some answer := by
  cases c with
  | register service =>
    right
    simp only [applyCommand]
    split <;> exact ⟨_, rfl⟩
  | deregister name => exact Or.inr ⟨_, rfl⟩
  | heartbeat name => exact Or.inr ⟨_, rfl⟩
  | ttlUpdate checkID => exact Or.inl ⟨checkID, rfl⟩
  | registerCAS service expectedIndex =>
    right
    simp only [applyCommand]
    split
    · exact ⟨_, rfl⟩
    · split <;> exact ⟨_, rfl⟩
  | deregisterCAS name expectedIndex =>
    right
    simp only [applyCommand]
    split <;> exact ⟨_, rfl⟩

/-! ### The registry of a service store -/

namespace ServiceTable

def registry (t : ServiceTable) : Registry :=
  { data := t.data.mapVal fun _ e => e.registration, globalIndex := t.globalIndex }

variable (t : ServiceTable)

theorem lookup_registry (name : GoString) :
    t.registry.data.lookup name = (t.data.lookup name).map ServiceEntry.registration :=
  GoMap.lookup_mapVal ..

theorem registration_newEntry (service : Service) (expiresAt : Time) :
    (t.newEntry service expiresAt).registration = t.registry.newEntry service := by
  simp only [newEntry, Registry.newEntry, lookup_registry, ServiceEntry.registration]
  cases t.data.lookup service.name <;> rfl

@[simp] theorem registry_put (service : Service) (expiresAt : Time) :
    (t.put service expiresAt).registry = t.registry.put service := by
  simp only [registry, put_data, put_globalIndex, GoMap.mapVal_insert, Registry.put,
    registration_newEntry]

@[simp] theorem registry_remove (name : GoString) :
    (t.remove name).registry = t.registry.remove name := by
  simp only [registry, remove_data, remove_globalIndex, GoMap.mapVal_erase, Registry.remove]

theorem registry_touch {name : GoString} {entry : ServiceEntry} (expiresAt : Time)
    (h : t.data.lookup name = some entry) :
    (t.touch name entry expiresAt).registry = t.registry := by
  have hdata : (t.touch name entry expiresAt).registry.data = t.registry.data := by
    refine Finmap.ext_lookup fun k => ?_
    simp only [lookup_registry, touch, GoMap.lookup_insert_ite]
    split_ifs with hk
    · rw [hk, h]
      rfl
    · rfl
  exact congrArg (fun d => (⟨d, t.globalIndex⟩ : Registry)) hdata

theorem checkRegisterCAS_registry (name : GoString) (expectedIndex : UInt64) :
    t.checkRegisterCAS name expectedIndex = t.registry.checkRegisterCAS name expectedIndex := by
  unfold checkRegisterCAS Registry.checkRegisterCAS
  rw [lookup_registry]
  cases t.data.lookup name <;> rfl

theorem checkDeregisterCAS_registry (name : GoString) (expectedIndex : UInt64) :
    t.checkDeregisterCAS name expectedIndex = t.registry.checkDeregisterCAS name expectedIndex := by
  unfold checkDeregisterCAS Registry.checkDeregisterCAS
  rw [lookup_registry]
  cases t.data.lookup name <;> rfl

end ServiceTable

theorem FSM.applyService_eq (s : ServiceStore) (now : Time) (c : ServiceCommand) (ch : c.Choice) :
    (FSM.applyService s now c ch).1.toServiceTable.registry =
        (s.toServiceTable.registry.applyCommand c ch).1 ∧
      ∀ answer, (s.toServiceTable.registry.applyCommand c ch).2 = some answer →
        (FSM.applyService s now c ch).2 = answer := by
  cases c with
  | register service =>
    simp only [applyService, serviceData, ServiceStore.registerLocal, Registry.applyCommand]
    cases validateService service.toSnapshot.toService ch with
    | some err => exact ⟨rfl, fun _ h => Option.some.inj h⟩
    | none => exact ⟨s.registry_put _ _, fun _ h => Option.some.inj h⟩
  | deregister name => exact ⟨s.registry_remove name, fun _ h => Option.some.inj h⟩
  | heartbeat name =>
    simp only [applyService, ServiceStore.heartbeatLocal, Registry.applyCommand]
    split
    · exact ⟨rfl, fun _ h => Option.some.inj h⟩
    · rename_i entry h
      exact ⟨s.registry_touch _ h, fun _ h => Option.some.inj h⟩
  | ttlUpdate checkID => exact ⟨rfl, fun _ h => by cases h⟩
  | registerCAS service expectedIndex =>
    have hname : (serviceData service).name = service.name := rfl
    simp only [applyService, ServiceStore.registerCASLocal, Registry.applyCommand, hname,
      s.checkRegisterCAS_registry]
    simp only [serviceData]
    cases validateService service.toSnapshot.toService ch with
    | some err => exact ⟨rfl, fun _ h => Option.some.inj h⟩
    | none =>
      cases s.registry.checkRegisterCAS service.name expectedIndex with
      | some err => exact ⟨rfl, fun _ h => Option.some.inj h⟩
      | none => exact ⟨s.registry_put _ _, fun _ h => Option.some.inj h⟩
  | deregisterCAS name expectedIndex =>
    simp only [applyService, ServiceStore.deregisterCASLocal, Registry.applyCommand,
      s.checkDeregisterCAS_registry]
    cases s.registry.checkDeregisterCAS name expectedIndex with
    | some err => exact ⟨rfl, fun _ h => Option.some.inj h⟩
    | none => exact ⟨s.registry_remove name, fun _ h => Option.some.inj h⟩

/-! ### Replicas -/

/-- The result of a compare-and-swap command. -/
def FsmResponse.casResult : FsmResponse → Option CASResult
  | .err _ => none
  | .cas r => some r

structure Replica where
  kv : KVTable
  services : Registry
  deriving DecidableEq

/-- Commands on a replica, answered by the results of the compare-and-swap ones. -/
def Replica.chooser : Chooser Replica Command (Option CASResult) Command.Choice where
  step s
    | .kv c, ch =>
      let r := s.kv.applyCommand c ch
      ({ s with kv := r.1 }, r.2.casResult)
    | .service c, ch =>
      let r := s.services.applyCommand c ch
      ({ s with services := r.1 }, r.2.bind FsmResponse.casResult)
    | .undecodable answer, _ => (s, answer.casResult)

namespace FSM

def replica (f : FSM) : Replica :=
  { kv := f.kvStore.toKVTable, services := f.serviceStore.toServiceTable.registry }

theorem applyService_casResult (s : ServiceStore) (now : Time) (c : ServiceCommand)
    (ch : c.Choice) :
    (applyService s now c ch).2.casResult =
      (s.toServiceTable.registry.applyCommand c ch).2.bind FsmResponse.casResult := by
  rcases s.toServiceTable.registry.applyCommand_answer c ch with ⟨checkID, rfl⟩ | ⟨answer, h⟩
  · rfl
  · rw [(applyService_eq s now c ch).2 answer h, h, Option.bind_some]

theorem step_replica (f : FSM) (e : Applied) :
    Replica.chooser.machine.step f.replica (choiceOf e) =
      ((machine.step f e).1.replica, (machine.step f e).2.casResult) := by
  obtain ⟨c, ch, now⟩ := e
  cases c with
  | kv c =>
    obtain ⟨htable, hanswer⟩ := applyKV_eq f.kvStore c ch
    refine Prod.ext ?_ ?_
    · exact congrArg (fun t => (⟨t, f.replica.services⟩ : Replica)) htable.symm
    · exact congrArg FsmResponse.casResult hanswer.symm
  | service c =>
    refine Prod.ext ?_ ?_
    · exact congrArg (fun t => (⟨f.replica.kv, t⟩ : Replica))
        (applyService_eq f.serviceStore now c ch).1.symm
    · exact (applyService_casResult f.serviceStore now c ch).symm
  | undecodable answer => rfl

/-- A log acts on the replica: neither the clock nor the replica's own state shows. -/
theorem replica_run (f : FSM) (r : List Applied) :
    Replica.chooser.machine.run f.replica (r.map choiceOf) =
      ((machine.run f r).1.replica, (machine.run f r).2.map FsmResponse.casResult) :=
  machine.run_map _ replica choiceOf FsmResponse.casResult step_replica f r

end FSM

end Konsul
