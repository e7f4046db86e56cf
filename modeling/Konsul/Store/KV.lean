import Konsul.Lib.Greatest
import Konsul.Persistence.Memory
import Konsul.Store.KVEntry

/-!
# The key-value store

`KVTable` is the part of a `KVStore` its mutex guards; what an operation does
under the lock is a function of the table. An operation of the store is that
step followed by the write to the engine, if there is one, and by the events
handed to the watch manager. The `Local` variants skip the engine.

A loop over a map takes the order in which it visits the map; a loop that only
builds another map has no visible order and takes none.
-/

namespace Konsul

open GoLib

inductive EventType where
  | set
  | delete
  deriving DecidableEq

/-- `watch.Event` without its timestamp. -/
structure Event where
  type : EventType
  key : GoString
  value : GoString
  oldValue : GoString
  deriving DecidableEq

structure KVTable where
  data : GoMap GoString KVEntry
  globalIndex : UInt64
  deriving DecidableEq

/-- `watchManager` holds the events passed to `Notify`, oldest first. -/
structure KVStore extends KVTable where
  engine : Option Engine
  watchManager : Option (List Event)

/-! ### Under the lock -/

namespace KVTable

/-- The value `nextIndex` returns. -/
def nextIndex (t : KVTable) : UInt64 := t.globalIndex + 1

/-- The entry a write stores. A write without flags keeps the old ones. -/
def newEntry (t : KVTable) (key value : GoString) (flags : Option UInt64) : KVEntry :=
  match t.data.lookup key with
  | some oldEntry =>
    { value, modifyIndex := t.nextIndex, createIndex := oldEntry.createIndex,
      flags := flags.getD oldEntry.flags }
  | none =>
    { value, modifyIndex := t.nextIndex, createIndex := t.nextIndex, flags := flags.getD 0 }

def put (t : KVTable) (key value : GoString) (flags : Option UInt64) : KVTable :=
  { data := t.data.insert key (t.newEntry key value flags), globalIndex := t.nextIndex }

def remove (t : KVTable) (key : GoString) : KVTable := { t with data := t.data.erase key }

def conflict (key : GoString) (expectedIndex currentIndex : UInt64) : GoError :=
  .casConflict key expectedIndex currentIndex (str "key")

/-- The condition of a compare-and-swap write; index 0 asks for a new key. -/
def checkSetCAS (t : KVTable) (key : GoString) (expectedIndex : UInt64) : Option GoError :=
  match t.data.lookup key with
  | some oldEntry =>
    if expectedIndex = 0 then some (conflict key 0 oldEntry.modifyIndex)
    else if oldEntry.modifyIndex ≠ expectedIndex then
      some (conflict key expectedIndex oldEntry.modifyIndex)
    else none
  | none => if expectedIndex = 0 then none else some (.notFound (str "key") key)

/-- The condition of a compare-and-swap delete. -/
def checkDeleteCAS (t : KVTable) (key : GoString) (expectedIndex : UInt64) : Option GoError :=
  match t.data.lookup key with
  | none => some (.notFound (str "key") key)
  | some oldEntry =>
    if oldEntry.modifyIndex ≠ expectedIndex then
      some (conflict key expectedIndex oldEntry.modifyIndex)
    else none

def setCAS (t : KVTable) (key value : GoString) (expectedIndex : UInt64) :
    KVTable × UInt64 × Option GoError :=
  match t.checkSetCAS key expectedIndex with
  | some err => (t, 0, some err)
  | none => (t.put key value none, t.nextIndex, none)

def deleteCAS (t : KVTable) (key : GoString) (expectedIndex : UInt64) : KVTable × Option GoError :=
  match t.checkDeleteCAS key expectedIndex with
  | some err => (t, some err)
  | none => (t.remove key, none)

/-- The table and the maps a batch write builds while it ranges over its items. -/
structure Batch where
  table : KVTable
  oldEntries : GoMap GoString KVEntry
  newEntries : GoMap GoString KVEntry
  newIndices : GoMap GoString UInt64
  deriving DecidableEq

def Batch.put (b : Batch) (item : Σ _ : GoString, GoString) : Batch :=
  let entry := b.table.newEntry item.1 item.2 none
  { table := b.table.put item.1 item.2 none
    oldEntries :=
      match b.table.data.lookup item.1 with
      | some oldEntry => b.oldEntries.insert item.1 oldEntry
      | none => b.oldEntries
    newEntries := b.newEntries.insert item.1 entry
    newIndices := b.newIndices.insert item.1 entry.modifyIndex }

def putAll (t : KVTable) (items : List (Σ _ : GoString, GoString)) : Batch :=
  items.foldl Batch.put ⟨t, ∅, ∅, ∅⟩

/-- A missing expected index reads as 0. -/
def expected (expectedIndices : GoMap GoString UInt64) (key : GoString) : UInt64 :=
  (expectedIndices.lookup key).getD 0

/-- First pass of a batch write: the first failing item of the loop. -/
def checkSetAll (t : KVTable) (items : List (Σ _ : GoString, GoString))
    (expectedIndices : GoMap GoString UInt64) : Option GoError :=
  items.findSome? fun item => t.checkSetCAS item.1 (expected expectedIndices item.1)

/-- First pass of a batch delete. -/
def checkDeleteAll (t : KVTable) (keys : List GoString) (expectedIndices : GoMap GoString UInt64) :
    Option GoError :=
  keys.findSome? fun key => t.checkDeleteCAS key (expected expectedIndices key)

/-- `BatchDelete`: the table without the keys, and the entries they had. -/
def removeAll (t : KVTable) (keys : List GoString) : KVTable × GoMap GoString KVEntry :=
  keys.foldl (fun (t, oldEntries) key =>
    (t.remove key,
      match t.data.lookup key with
      | some oldEntry => oldEntries.insert key oldEntry
      | none => oldEntries)) (t, ∅)

/-- `BatchDeleteCAS`, which records the zero entry for a key it no longer finds. -/
def removeAllCAS (t : KVTable) (keys : List GoString) : KVTable × GoMap GoString KVEntry :=
  keys.foldl (fun (t, oldEntries) key =>
    (t.remove key, oldEntries.insert key ((t.data.lookup key).getD .zero))) (t, ∅)

end KVTable

namespace KVStore

/-- `NewKVStore`. -/
def new : KVStore := { data := ∅, globalIndex := 0, engine := none, watchManager := none }

/-! ### Engine and watchers -/

/-- A call of the engine, when there is one. -/
def persist (kv : KVStore) (call : Engine → Engine × Option GoError) : KVStore × Option GoError :=
  match kv.engine with
  | none => (kv, none)
  | some engine => ({ kv with engine := some (call engine).1 }, (call engine).2)

def notify (kv : KVStore) (events : List Event) : KVStore :=
  { kv with watchManager := kv.watchManager.map (· ++ events) }

/-- Watchers hear of a write once the engine has accepted it. -/
def thenNotify (p : KVStore × Option GoError) (events : List Event) : KVStore × Option GoError :=
  match p.2 with
  | some err => (p.1, some err)
  | none => (p.1.notify events, none)

def oldValue : Option KVEntry → GoString
  | some oldEntry => oldEntry.value
  | none => []

def setEvent (key value : GoString) (oldEntry : Option KVEntry) : Event :=
  { type := .set, key, value, oldValue := oldValue oldEntry }

def deleteEvent (key : GoString) (oldEntry : KVEntry) : Event :=
  { type := .delete, key, value := [], oldValue := oldEntry.value }

/-- The notification loop of a batch write. -/
def setEvents (items : List (Σ _ : GoString, GoString)) (oldEntries : GoMap GoString KVEntry) :
    List Event :=
  items.map fun item => setEvent item.1 item.2 (oldEntries.lookup item.1)

/-- The event of a delete; none for a key that was not there. -/
def deletedEvents (key : GoString) : Option KVEntry → List Event
  | some oldEntry => [deleteEvent key oldEntry]
  | none => []

def deleteEvents (oldEntries : List (Σ _ : GoString, KVEntry)) : List Event :=
  oldEntries.map fun old => deleteEvent old.1 old.2

/-- The order in which the loop over the deleted entries visits them, whichever
they turn out to be. -/
abbrev Visit := (m : GoMap GoString KVEntry) → m.Order

/-! ### Reads -/

def getEntry (kv : KVStore) (key : GoString) : Option KVEntry := kv.data.lookup key

/-- `Get`. -/
def get (kv : KVStore) (key : GoString) : Option GoString := (kv.data.lookup key).map KVEntry.value

/-! ### Writes -/

/-- `Set` and `SetWithFlags`; an engine error is only logged. -/
def setEntry (kv : KVStore) (key value : GoString) (flags : Option UInt64) : KVStore :=
  let oldEntry := kv.data.lookup key
  let entry := kv.toKVTable.newEntry key value flags
  let kv := { kv with toKVTable := kv.toKVTable.put key value flags }
  let kv := (kv.persist (·.set key entry.marshal)).1
  kv.notify [setEvent key value oldEntry]

def set (kv : KVStore) (key value : GoString) : KVStore := kv.setEntry key value none

def setWithFlags (kv : KVStore) (key value : GoString) (flags : UInt64) : KVStore :=
  kv.setEntry key value (some flags)

def setCAS (kv : KVStore) (key value : GoString) (expectedIndex : UInt64) :
    KVStore × UInt64 × Option GoError :=
  let oldEntry := kv.data.lookup key
  let entry := kv.toKVTable.newEntry key value none
  match kv.toKVTable.setCAS key value expectedIndex with
  | (_, _, some err) => (kv, 0, some err)
  | (table, newIndex, none) =>
    let p := thenNotify ({ kv with toKVTable := table }.persist (·.set key entry.marshal))
      [setEvent key value oldEntry]
    (p.1, newIndex, p.2)

def delete (kv : KVStore) (key : GoString) : KVStore :=
  let oldEntry := kv.data.lookup key
  let kv := { kv with toKVTable := kv.toKVTable.remove key }
  let kv := (kv.persist (·.delete key)).1
  kv.notify (deletedEvents key oldEntry)

def deleteCAS (kv : KVStore) (key : GoString) (expectedIndex : UInt64) : KVStore × Option GoError :=
  let oldEntry := kv.data.lookup key
  match kv.toKVTable.deleteCAS key expectedIndex with
  | (_, some err) => (kv, some err)
  | (table, none) =>
    thenNotify ({ kv with toKVTable := table }.persist (·.delete key)) (deletedEvents key oldEntry)

/-- The records of a batch write. -/
def byteItems (newEntries : GoMap GoString KVEntry) : GoMap GoString Bytes :=
  newEntries.mapVal fun _ entry => entry.marshal

def batchSet (kv : KVStore) (items : GoMap GoString GoString) (range watch : items.Order) :
    KVStore × Option GoError :=
  let batch := kv.toKVTable.putAll range.list
  let kv := { kv with toKVTable := batch.table }
  thenNotify (kv.persist (·.batchSet (byteItems batch.newEntries)))
    (setEvents watch.list batch.oldEntries)

def batchSetCAS (kv : KVStore) (items : GoMap GoString GoString)
    (expectedIndices : GoMap GoString UInt64) (check range watch : items.Order) :
    KVStore × GoMap GoString UInt64 × Option GoError :=
  match kv.toKVTable.checkSetAll check.list expectedIndices with
  | some err => (kv, ∅, some err)
  | none =>
    let batch := kv.toKVTable.putAll range.list
    let kv := { kv with toKVTable := batch.table }
    let p := thenNotify (kv.persist (·.batchSet (byteItems batch.newEntries)))
      (setEvents watch.list batch.oldEntries)
    (p.1, batch.newIndices, p.2)

def batchDelete (kv : KVStore) (keys : List GoString) (watch : Visit) : KVStore × Option GoError :=
  let (table, oldEntries) := kv.toKVTable.removeAll keys
  thenNotify ({ kv with toKVTable := table }.persist (·.batchDelete keys))
    (deleteEvents (watch oldEntries).list)

def batchDeleteCAS (kv : KVStore) (keys : List GoString) (expectedIndices : GoMap GoString UInt64)
    (watch : Visit) : KVStore × Option GoError :=
  match kv.toKVTable.checkDeleteAll keys expectedIndices with
  | some err => (kv, some err)
  | none =>
    let (table, oldEntries) := kv.toKVTable.removeAllCAS keys
    thenNotify ({ kv with toKVTable := table }.persist (·.batchDelete keys))
      (deleteEvents (watch oldEntries).list)

/-! ### Writes applied from the log -/

/-- `SetLocal` and `SetWithFlagsLocal`. -/
def setEntryLocal (kv : KVStore) (key value : GoString) (flags : Option UInt64) : KVStore :=
  let oldEntry := kv.data.lookup key
  let kv := { kv with toKVTable := kv.toKVTable.put key value flags }
  kv.notify [setEvent key value oldEntry]

def setLocal (kv : KVStore) (key value : GoString) : KVStore := kv.setEntryLocal key value none

def setWithFlagsLocal (kv : KVStore) (key value : GoString) (flags : UInt64) : KVStore :=
  kv.setEntryLocal key value (some flags)

def setCASLocal (kv : KVStore) (key value : GoString) (expectedIndex : UInt64) :
    KVStore × UInt64 × Option GoError :=
  let oldEntry := kv.data.lookup key
  match kv.toKVTable.setCAS key value expectedIndex with
  | (_, _, some err) => (kv, 0, some err)
  | (table, newIndex, none) =>
    ({ kv with toKVTable := table }.notify [setEvent key value oldEntry], newIndex, none)

def deleteLocal (kv : KVStore) (key : GoString) : KVStore :=
  let oldEntry := kv.data.lookup key
  { kv with toKVTable := kv.toKVTable.remove key }.notify (deletedEvents key oldEntry)

def deleteCASLocal (kv : KVStore) (key : GoString) (expectedIndex : UInt64) :
    KVStore × Option GoError :=
  let oldEntry := kv.data.lookup key
  match kv.toKVTable.deleteCAS key expectedIndex with
  | (_, some err) => (kv, some err)
  | (table, none) => ({ kv with toKVTable := table }.notify (deletedEvents key oldEntry), none)

def batchSetLocal (kv : KVStore) (items : GoMap GoString GoString) (range watch : items.Order) :
    KVStore × Option GoError :=
  let batch := kv.toKVTable.putAll range.list
  ({ kv with toKVTable := batch.table }.notify (setEvents watch.list batch.oldEntries), none)

def batchSetCASLocal (kv : KVStore) (items : GoMap GoString GoString)
    (expectedIndices : GoMap GoString UInt64) (check range watch : items.Order) :
    KVStore × GoMap GoString UInt64 × Option GoError :=
  match kv.toKVTable.checkSetAll check.list expectedIndices with
  | some err => (kv, ∅, some err)
  | none =>
    let batch := kv.toKVTable.putAll range.list
    ({ kv with toKVTable := batch.table }.notify (setEvents watch.list batch.oldEntries),
      batch.newIndices, none)

def batchDeleteLocal (kv : KVStore) (keys : List GoString) (watch : Visit) :
    KVStore × Option GoError :=
  let (table, oldEntries) := kv.toKVTable.removeAll keys
  ({ kv with toKVTable := table }.notify (deleteEvents (watch oldEntries).list), none)

def batchDeleteCASLocal (kv : KVStore) (keys : List GoString)
    (expectedIndices : GoMap GoString UInt64) (watch : Visit) : KVStore × Option GoError :=
  match kv.toKVTable.checkDeleteAll keys expectedIndices with
  | some err => (kv, some err)
  | none =>
    let (table, oldEntries) := kv.toKVTable.removeAllCAS keys
    ({ kv with toKVTable := table }.notify (deleteEvents (watch oldEntries).list), none)

/-! ### Loading and snapshots -/

/-- The entry of a record; a record that is not an entry is an old plain value. -/
def loadEntry (value : Bytes) : KVEntry :=
  match KVEntry.unmarshal value with
  | some entry => entry
  | none => { value, modifyIndex := 1, createIndex := 1, flags := 0 }

/-- The loop of `loadFromPersistence` and of `RestoreFromSnapshot`: every entry
stored, the greatest `ModifyIndex` remembered. -/
def maxIndex (entries : List (Σ _ : GoString, KVEntry)) : UInt64 :=
  entries.foldl (fun m e => if e.2.modifyIndex > m then e.2.modifyIndex else m) 0

/-- `loadFromPersistence` on an engine; `keys` is the order of `List("")`. -/
def loadFromPersistence (kv : KVStore) (m : Engine) (keys : m.kvData.Order) : KVStore :=
  match m.fault with
  | some _ => kv
  | none =>
    { kv with
      data := m.kvData.mapVal fun _ value => loadEntry value
      globalIndex := maxIndex (keys.list.map fun e => ⟨e.1, loadEntry e.2⟩) }

/-- `NewKVStoreWithPersistence`. -/
def newWithPersistence (m : Engine) (keys : m.kvData.Order) : KVStore :=
  { KVStore.new with engine := some m }.loadFromPersistence m keys

/-- `GetAllData`, and `KVEntrySnapshot` is a `KVEntry`. -/
def getAllData (kv : KVStore) : GoMap GoString KVEntry := kv.data

/-- `RestoreFromSnapshot`. -/
def restoreFromSnapshot (kv : KVStore) (data : GoMap GoString KVEntry) (range : data.Order) :
    KVStore :=
  { kv with data := data, globalIndex := maxIndex range.list }

end KVStore

end Konsul
