import Konsul.Lib.JsonMap
import Konsul.Lib.Machine
import Konsul.Raft.Commands
import Konsul.Store.KVSpec

/-!
# The state machine of the cluster

`KonsulFSM.Apply`, one function for the commands of each store, and the
snapshots of both. A snapshot is written as a JSON document and read back from
it; a time of the document reads back as the time that was written.
-/

namespace Konsul

open GoLib

structure FSM where
  kvStore : KVStore
  serviceStore : ServiceStore

namespace FSM

/-- The state machine of a node that starts without data. -/
def fresh (ttl : Duration) : FSM := { kvStore := .new, serviceStore := .newWithTTL ttl }

/-! ### Apply -/

def applyKV (kv : KVStore) : (c : KVCommand) → c.Choice → KVStore × FsmResponse
  | .set key value, _ => (kv.setLocal key value, .err none)
  | .setWithFlags key value flags, _ => (kv.setWithFlagsLocal key value flags, .err none)
  | .delete key, _ => (kv.deleteLocal key, .err none)
  | .batchSet items, (range, watch) =>
    let r := kv.batchSetLocal items range watch
    (r.1, .err r.2)
  | .batchDelete keys, watch =>
    let r := kv.batchDeleteLocal keys watch
    (r.1, .err r.2)
  | .setCAS key value expectedIndex, _ =>
    let r := kv.setCASLocal key value expectedIndex
    (r.1, .cas ⟨r.2.1, ∅, r.2.2⟩)
  | .deleteCAS key expectedIndex, _ =>
    let r := kv.deleteCASLocal key expectedIndex
    (r.1, .cas ⟨0, ∅, r.2⟩)
  | .batchSetCAS items expectedIndices, (check, range, watch) =>
    let r := kv.batchSetCASLocal items expectedIndices check range watch
    (r.1, .cas ⟨0, r.2.1, r.2.2⟩)
  | .batchDeleteCAS keys expectedIndices, watch =>
    let r := kv.batchDeleteCASLocal keys expectedIndices watch
    (r.1, .cas ⟨0, ∅, r.2⟩)

/-- The service data of a command: its checks are not applied. -/
def serviceData (service : Service) : ServiceDataSnapshot := service.toSnapshot

def applyService (s : ServiceStore) (now : Time) :
    (c : ServiceCommand) → c.Choice → ServiceStore × FsmResponse
  | .register service, range =>
    let r := s.registerLocal now (serviceData service) range
    (r.1, .err r.2)
  | .deregister name, _ => (s.deregisterLocal name, .err none)
  -- whether the service was there is dropped
  | .heartbeat name, _ => ((s.heartbeatLocal now name).1, .err none)
  | .ttlUpdate checkID, _ =>
    let r := s.updateTTLCheck now checkID
    (r.1, .err r.2)
  | .registerCAS service expectedIndex, range =>
    let r := s.registerCASLocal now (serviceData service) range expectedIndex
    (r.1, .cas ⟨r.2.1, ∅, r.2.2⟩)
  | .deregisterCAS name expectedIndex, _ =>
    let r := s.deregisterCASLocal name expectedIndex
    (r.1, .cas ⟨0, ∅, r.2⟩)

/-- `Apply` of one log entry at the local time `now`. -/
def apply (f : FSM) (now : Time) : (c : Command) → c.Choice → FSM × FsmResponse
  | .kv c, ch =>
    let r := applyKV f.kvStore c ch
    ({ f with kvStore := r.1 }, r.2)
  | .service c, ch =>
    let r := applyService f.serviceStore now c ch
    ({ f with serviceStore := r.1 }, r.2)
  | .undecodable answer, _ => (f, answer)

/-- A log entry as one replica applies it: its map orders and its clock. -/
structure Applied where
  command : Command
  choice : command.Choice
  now : Time

def machine : Machine FSM Applied FsmResponse := ⟨fun f e => f.apply e.now e.command e.choice⟩

/-! ### Snapshots -/

structure SnapshotData where
  kvData : GoMap GoString KVEntry
  serviceData : GoMap GoString ServiceEntrySnapshot

def snapshot (f : FSM) : SnapshotData :=
  { kvData := f.kvStore.getAllData, serviceData := f.serviceStore.getAllData }

end FSM

def ServiceDataSnapshot.json (s : ServiceDataSnapshot) : ServiceDataSnapshot :=
  { name := jsonString s.name
    address := jsonString s.address
    port := s.port
    tags := s.tags.map jsonString
    metadata := jsonMap jsonString s.metadata }

def ServiceEntrySnapshot.json (e : ServiceEntrySnapshot) : ServiceEntrySnapshot :=
  { e with service := e.service.json }

namespace FSM

/-- What the decoder of `Restore` reads from what `Persist` wrote. -/
def SnapshotData.json (d : SnapshotData) : SnapshotData :=
  { kvData := jsonMap KVEntry.clean d.kvData
    serviceData := jsonMap ServiceEntrySnapshot.json d.serviceData }

def restore (f : FSM) (d : SnapshotData) (kvRange : d.kvData.Order)
    (serviceRange : d.serviceData.Order) : FSM :=
  { kvStore := f.kvStore.restoreFromSnapshot d.kvData kvRange
    serviceStore := f.serviceStore.restoreFromSnapshot d.serviceData serviceRange }

end FSM

/-! ### The table under a command -/

namespace KVTable

/-- A command on the table alone. -/
def applyCommand (t : KVTable) : (c : KVCommand) → c.Choice → KVTable × FsmResponse
  | .set key value, _ => (t.put key value none, .err none)
  | .setWithFlags key value flags, _ => (t.put key value (some flags), .err none)
  | .delete key, _ => (t.remove key, .err none)
  | .batchSet _, (range, _) => (t.putList range.list, .err none)
  | .batchDelete keys, _ => (t.eraseAll keys, .err none)
  | .setCAS key value expectedIndex, _ =>
    match t.checkSetCAS key expectedIndex with
    | some err => (t, .cas ⟨0, ∅, some err⟩)
    | none => (t.put key value none, .cas ⟨t.nextIndex, ∅, none⟩)
  | .deleteCAS key expectedIndex, _ =>
    match t.checkDeleteCAS key expectedIndex with
    | some err => (t, .cas ⟨0, ∅, some err⟩)
    | none => (t.remove key, .cas ⟨0, ∅, none⟩)
  | .batchSetCAS _ expectedIndices, (check, range, _) =>
    match t.checkSetAll check.list expectedIndices with
    | some err => (t, .cas ⟨0, ∅, some err⟩)
    | none => (t.putList range.list, .cas ⟨0, (t.putAll range.list).newIndices, none⟩)
  | .batchDeleteCAS keys expectedIndices, _ =>
    match t.checkDeleteAll keys expectedIndices with
    | some err => (t, .cas ⟨0, ∅, some err⟩)
    | none => (t.eraseAll keys, .cas ⟨0, ∅, none⟩)

end KVTable

/-- Engine and watchers aside, applying a command to the store is applying it to
the table. -/
theorem FSM.applyKV_eq (kv : KVStore) (c : KVCommand) (ch : c.Choice) :
    (FSM.applyKV kv c ch).1.toKVTable = (kv.toKVTable.applyCommand c ch).1 ∧
      (FSM.applyKV kv c ch).2 = (kv.toKVTable.applyCommand c ch).2 := by
  cases c with
  | set key value => exact ⟨rfl, rfl⟩
  | setWithFlags key value flags => exact ⟨rfl, rfl⟩
  | delete key => exact ⟨rfl, rfl⟩
  | batchSet items => exact ⟨(kv.toKVTable.putAll_spec _ ch.1.nodup_keys).table, rfl⟩
  | batchDelete keys => exact ⟨kv.toKVTable.removeAll_data keys, rfl⟩
  | setCAS key value expectedIndex =>
    simp only [applyKV, KVStore.setCASLocal, KVTable.setCAS, KVTable.applyCommand]
    cases kv.toKVTable.checkSetCAS key expectedIndex <;> exact ⟨rfl, rfl⟩
  | deleteCAS key expectedIndex =>
    simp only [applyKV, KVStore.deleteCASLocal, KVTable.deleteCAS, KVTable.applyCommand]
    cases kv.toKVTable.checkDeleteCAS key expectedIndex <;> exact ⟨rfl, rfl⟩
  | batchSetCAS items expectedIndices =>
    obtain ⟨check, range, watch⟩ := ch
    have htable := (kv.toKVTable.putAll_spec _ range.nodup_keys).table
    simp only [applyKV, KVStore.batchSetCASLocal, KVTable.applyCommand]
    cases kv.toKVTable.checkSetAll check.list expectedIndices with
    | some err => exact ⟨rfl, rfl⟩
    | none => exact ⟨htable, rfl⟩
  | batchDeleteCAS keys expectedIndices =>
    have htable := kv.toKVTable.removeAllCAS_data keys
    simp only [applyKV, KVStore.batchDeleteCASLocal, KVTable.applyCommand]
    cases kv.toKVTable.checkDeleteAll keys expectedIndices with
    | some err => exact ⟨rfl, rfl⟩
    | none => exact ⟨htable, rfl⟩

end Konsul
