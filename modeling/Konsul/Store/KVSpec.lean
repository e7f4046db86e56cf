import Konsul.Store.KV

/-!
# What an operation of the key-value store does

`KVOp` is an operation with its arguments and its map orders. Whatever the
operation, it checks (`KVOp.check`), updates the table (`KVOp.update`), brings
the records of its keys (`KVOp.keys`) in line with the updated table, and tells
the watchers. The lemmas `apply_*` say so once for all nine; nothing below them
unfolds an operation again.
-/

namespace Konsul

open GoLib

/-! ### Single writes -/

theorem add_one_ne_self (i : UInt64) : i + 1 ≠ i := by
  intro h
  have h0 : i + 1 - i = i - i := by rw [h]
  rw [UInt64.sub_self, UInt64.add_comm, UInt64.add_sub_cancel] at h0
  exact absurd h0 (by decide)

namespace KVTable

variable (t : KVTable)

@[simp] theorem newEntry_value (key value : GoString) (flags : Option UInt64) :
    (t.newEntry key value flags).value = value := by
  unfold newEntry
  split <;> rfl

@[simp] theorem newEntry_modifyIndex (key value : GoString) (flags : Option UInt64) :
    (t.newEntry key value flags).modifyIndex = t.nextIndex := by
  unfold newEntry
  split <;> rfl

theorem lookup_put (key value : GoString) (flags : Option UInt64) (k : GoString) :
    (t.put key value flags).data.lookup k =
      if k = key then some (t.newEntry key value flags) else t.data.lookup k :=
  GoMap.lookup_insert_ite ..

@[simp] theorem put_globalIndex (key value : GoString) (flags : Option UInt64) :
    (t.put key value flags).globalIndex = t.globalIndex + 1 := rfl

theorem lookup_remove (key k : GoString) :
    (t.remove key).data.lookup k = if k = key then none else t.data.lookup k :=
  GoMap.lookup_erase_ite ..

/-! ### Batches -/

/-- The table of a batch write on its own. -/
def putList (items : List (Σ _ : GoString, GoString)) : KVTable :=
  items.foldl (fun t item => t.put item.1 item.2 none) t

@[simp] theorem putList_nil : t.putList [] = t := rfl

@[simp] theorem putList_cons (item : Σ _ : GoString, GoString)
    (items : List (Σ _ : GoString, GoString)) :
    t.putList (item :: items) = (t.put item.1 item.2 none).putList items := rfl

theorem putList_append (items items' : List (Σ _ : GoString, GoString)) :
    t.putList (items ++ items') = (t.putList items).putList items' := List.foldl_append

theorem lookup_putList_of_notMem {items : List (Σ _ : GoString, GoString)} {k : GoString}
    (h : k ∉ items.map Sigma.fst) : (t.putList items).data.lookup k = t.data.lookup k := by
  induction items generalizing t with
  | nil => rfl
  | cons item items ih =>
    simp only [List.map_cons, List.mem_cons, not_or] at h
    rw [putList_cons, ih _ h.2, lookup_put, if_neg h.1]

theorem mem_putList {items : List (Σ _ : GoString, GoString)} {k : GoString}
    (h : k ∈ items.map Sigma.fst) : k ∈ (t.putList items).data := by
  induction items generalizing t with
  | nil => cases h
  | cons item items ih =>
    rw [putList_cons]
    by_cases hk : k ∈ items.map Sigma.fst
    · exact ih _ hk
    · have heq : k = item.1 := by
        simpa only [List.map_cons, List.mem_cons, hk, or_false] using h
      rw [Finmap.mem_iff, lookup_putList_of_notMem _ hk, lookup_put, if_pos heq]
      exact ⟨_, rfl⟩

theorem putList_globalIndex (items : List (Σ _ : GoString, GoString)) :
    (t.putList items).globalIndex = t.globalIndex + UInt64.ofNat items.length := by
  induction items generalizing t with
  | nil => simp
  | cons item items ih =>
    rw [putList_cons, ih, put_globalIndex, List.length_cons, UInt64.ofNat_add, UInt64.add_assoc,
      UInt64.add_comm (UInt64.ofNat items.length)]
    rfl

/-- What the maps of a batch write hold after the items of a list. -/
structure BatchSpec (items : List (Σ _ : GoString, GoString)) (b : Batch) : Prop where
  table : b.table = t.putList items
  oldEntries : ∀ k, b.oldEntries.lookup k =
    if k ∈ items.map Sigma.fst then t.data.lookup k else none
  newEntries : ∀ k, b.newEntries.lookup k =
    if k ∈ items.map Sigma.fst then (t.putList items).data.lookup k else none
  newIndices : ∀ k, b.newIndices.lookup k =
    if k ∈ items.map Sigma.fst then ((t.putList items).data.lookup k).map KVEntry.modifyIndex
    else none

theorem putAll_spec (items : List (Σ _ : GoString, GoString))
    (hnodup : (items.map Sigma.fst).Nodup) : BatchSpec t items (t.putAll items) := by
  induction items using List.reverseRecOn with
  | nil => exact ⟨rfl, fun _ => rfl, fun _ => rfl, fun _ => rfl⟩
  | append_singleton items item ih =>
    rw [List.map_append, List.map_singleton, List.nodup_append] at hnodup
    obtain ⟨hitems, -, hdisj⟩ := hnodup
    have hnew : item.1 ∉ items.map Sigma.fst := fun h =>
      hdisj _ h _ (List.mem_singleton_self _) rfl
    have ih := ih hitems
    have hput : t.putAll (items ++ [item]) = (t.putAll items).put item := by
      rw [putAll, List.foldl_append]
      rfl
    have hlist : t.putList (items ++ [item]) = (t.putList items).put item.1 item.2 none := by
      rw [putList_append]
      rfl
    rw [hput]
    -- the new item is the last key written, every other key is as before it
    have hold : (t.putList items).data.lookup item.1 = t.data.lookup item.1 :=
      lookup_putList_of_notMem t hnew
    refine ⟨?_, fun k => ?_, fun k => ?_, fun k => ?_⟩
    · rw [hlist, ← ih.table]
      rfl
    · simp only [Batch.put, ih.table, hold, List.map_append, List.map_singleton, List.mem_append,
        List.mem_singleton]
      cases hl : t.data.lookup item.1 with
      | none =>
        rw [ih.oldEntries]
        by_cases hk : k = item.1
        · subst hk
          simp only [hnew, or_true, ite_false, ite_true, hl]
        · simp only [hk, or_false]
      | some e =>
        simp only [GoMap.lookup_insert_ite, ih.oldEntries]
        by_cases hk : k = item.1
        · subst hk
          simp only [or_true, ite_true, hl]
        · simp only [hk, or_false, ite_false]
    · simp only [Batch.put, ih.table, hlist, lookup_put, GoMap.lookup_insert_ite, ih.newEntries,
        List.map_append, List.map_singleton, List.mem_append, List.mem_singleton]
      by_cases hk : k = item.1
      · simp only [hk, or_true, ite_true]
      · simp only [hk, or_false, ite_false]
    · simp only [Batch.put, ih.table, hlist, lookup_put, GoMap.lookup_insert_ite, ih.newIndices,
        List.map_append, List.map_singleton, List.mem_append, List.mem_singleton]
      by_cases hk : k = item.1
      · simp only [hk, or_true, ite_true, Option.map_some]
      · simp only [hk, or_false, ite_false]

theorem foldl_remove (keys : List GoString) (m : GoMap GoString KVEntry) :
    (keys.foldl (fun (p : KVTable × GoMap GoString KVEntry) key =>
      (p.1.remove key,
        match p.1.data.lookup key with
        | some oldEntry => p.2.insert key oldEntry
        | none => p.2)) (t, m)).1 = { t with data := GoMap.eraseAll t.data keys } := by
  induction keys generalizing t m with
  | nil => rfl
  | cons key keys ih => exact ih _ _

theorem removeAll_data (keys : List GoString) :
    (t.removeAll keys).1 = { t with data := GoMap.eraseAll t.data keys } :=
  t.foldl_remove keys ∅

theorem removeAllCAS_data (keys : List GoString) :
    (t.removeAllCAS keys).1 = { t with data := GoMap.eraseAll t.data keys } := by
  suffices ∀ (t : KVTable) m, (keys.foldl (fun (p : KVTable × GoMap GoString KVEntry) key =>
      (p.1.remove key, p.2.insert key ((p.1.data.lookup key).getD .zero))) (t, m)).1 =
      { t with data := GoMap.eraseAll t.data keys } from this t ∅
  induction keys with
  | nil => exact fun t m => rfl
  | cons key keys ih => exact fun t m => ih _ _

/-- The keys of a list deleted. -/
def eraseAll (keys : List GoString) : KVTable := { t with data := GoMap.eraseAll t.data keys }

theorem lookup_eraseAll (keys : List GoString) (k : GoString) :
    (t.eraseAll keys).data.lookup k = if k ∈ keys then none else t.data.lookup k := by
  rw [eraseAll, GoMap.lookup_eraseAll]
  split_ifs <;> rfl

end KVTable

/-! ### Operations -/

inductive KVOp where
  | set (key value : GoString)
  | setWithFlags (key value : GoString) (flags : UInt64)
  | setCAS (key value : GoString) (expectedIndex : UInt64)
  | delete (key : GoString)
  | deleteCAS (key : GoString) (expectedIndex : UInt64)
  | batchSet (items : GoMap GoString GoString) (range watch : items.Order)
  | batchSetCAS (items : GoMap GoString GoString) (expectedIndices : GoMap GoString UInt64)
      (check range watch : items.Order)
  | batchDelete (keys : List GoString) (watch : KVStore.Visit)
  | batchDeleteCAS (keys : List GoString) (expectedIndices : GoMap GoString UInt64)
      (watch : KVStore.Visit)

/-- What an operation returns, with zero values for what it does not return. -/
structure KVResult where
  newIndex : UInt64
  newIndices : GoMap GoString UInt64
  err : Option GoError
  deriving DecidableEq

namespace KVResult

def failed (err : GoError) : KVResult := ⟨0, ∅, some err⟩

def ok : KVResult := ⟨0, ∅, none⟩

end KVResult

namespace KVOp

def apply (kv : KVStore) : KVOp → KVStore × KVResult
  | set key value => (kv.set key value, .ok)
  | setWithFlags key value flags => (kv.setWithFlags key value flags, .ok)
  | setCAS key value expectedIndex =>
    let r := kv.setCAS key value expectedIndex
    (r.1, ⟨r.2.1, ∅, r.2.2⟩)
  | delete key => (kv.delete key, .ok)
  | deleteCAS key expectedIndex =>
    let r := kv.deleteCAS key expectedIndex
    (r.1, ⟨0, ∅, r.2⟩)
  | batchSet items range watch =>
    let r := kv.batchSet items range watch
    (r.1, ⟨0, ∅, r.2⟩)
  | batchSetCAS items expectedIndices check range watch =>
    let r := kv.batchSetCAS items expectedIndices check range watch
    (r.1, ⟨0, r.2.1, r.2.2⟩)
  | batchDelete keys watch =>
    let r := kv.batchDelete keys watch
    (r.1, ⟨0, ∅, r.2⟩)
  | batchDeleteCAS keys expectedIndices watch =>
    let r := kv.batchDeleteCAS keys expectedIndices watch
    (r.1, ⟨0, ∅, r.2⟩)

/-- The error of the first pass. -/
def check (t : KVTable) : KVOp → Option GoError
  | setCAS key _ expectedIndex => t.checkSetCAS key expectedIndex
  | deleteCAS key expectedIndex => t.checkDeleteCAS key expectedIndex
  | batchSetCAS _ expectedIndices check _ _ => t.checkSetAll check.list expectedIndices
  | batchDeleteCAS keys expectedIndices _ => t.checkDeleteAll keys expectedIndices
  | _ => none

/-- The table after the second pass. -/
def update (t : KVTable) : KVOp → KVTable
  | set key value => t.put key value none
  | setWithFlags key value flags => t.put key value (some flags)
  | setCAS key value _ => t.put key value none
  | delete key => t.remove key
  | deleteCAS key _ => t.remove key
  | batchSet _ range _ => t.putList range.list
  | batchSetCAS _ _ _ range _ => t.putList range.list
  | batchDelete keys _ => t.eraseAll keys
  | batchDeleteCAS keys _ _ => t.eraseAll keys

/-- The keys whose records the operation writes or deletes. -/
def keys : KVOp → List GoString
  | set key _ => [key]
  | setWithFlags key _ _ => [key]
  | setCAS key _ _ => [key]
  | delete key => [key]
  | deleteCAS key _ => [key]
  | batchSet _ range _ => range.list.map Sigma.fst
  | batchSetCAS _ _ _ range _ => range.list.map Sigma.fst
  | batchDelete keys _ => keys
  | batchDeleteCAS keys _ _ => keys

/-- The keys and values the operation writes, in the order of the loop. -/
def items : KVOp → List (Σ _ : GoString, GoString)
  | set key value => [⟨key, value⟩]
  | setWithFlags key value _ => [⟨key, value⟩]
  | setCAS key value _ => [⟨key, value⟩]
  | batchSet _ range _ => range.list
  | batchSetCAS _ _ _ range _ => range.list
  | _ => []

/-- The table an operation leaves: one write, the writes of a batch, or its keys erased. -/
inductive Updates (t : KVTable) (op : KVOp) : Prop
  | put (key value : GoString) (flags : Option UInt64) (items : op.items = [⟨key, value⟩])
      (keys : op.keys = [key]) (table : op.update t = t.put key value flags)
  | putList (nodup : (op.items.map Sigma.fst).Nodup) (keys : op.keys = op.items.map Sigma.fst)
      (table : op.update t = t.putList op.items)
  | erase (items : op.items = []) (table : op.update t = t.eraseAll op.keys)

theorem updates (t : KVTable) (op : KVOp) : op.Updates t := by
  cases op with
  | set key value => exact .put key value none rfl rfl rfl
  | setWithFlags key value flags => exact .put key value (some flags) rfl rfl rfl
  | setCAS key value expectedIndex => exact .put key value none rfl rfl rfl
  | delete key => exact .erase rfl rfl
  | deleteCAS key expectedIndex => exact .erase rfl rfl
  | batchSet items range watch => exact .putList range.nodup_keys rfl rfl
  | batchSetCAS items expectedIndices check range watch => exact .putList range.nodup_keys rfl rfl
  | batchDelete keys watch => exact .erase rfl rfl
  | batchDeleteCAS keys expectedIndices watch => exact .erase rfl rfl

/-- `Set`, `SetWithFlags` and `Delete` return no error: they log the engine's. -/
def logsErrors : KVOp → Bool
  | set .. => true
  | setWithFlags .. => true
  | delete .. => true
  | _ => false

end KVOp

/-! ### The record of a key -/

/-- The record the table's entry for a key has, when there is an entry. -/
def KVTable.record (t : KVTable) (key : GoString) : Option Bytes :=
  (t.data.lookup key).map KVEntry.marshal

/-- The engine after the records of `keys` were brought in line with `t`. -/
def Engine.sync (m : Engine) (t : KVTable) (keys : List GoString) : Engine :=
  match m.fault with
  | some _ => m
  | none => { m with kvData := GoMap.overwrite m.kvData keys t.record }

namespace KVStore

variable (kv : KVStore)

@[simp] theorem notify_toKVTable (events : List Event) :
    (kv.notify events).toKVTable = kv.toKVTable := rfl

@[simp] theorem notify_engine (events : List Event) : (kv.notify events).engine = kv.engine := rfl

@[simp] theorem persist_toKVTable (call : Engine → Engine × Option GoError) :
    (kv.persist call).1.toKVTable = kv.toKVTable := by
  unfold persist
  split <;> rfl

theorem persist_engine (call : Engine → Engine × Option GoError) :
    (kv.persist call).1.engine = kv.engine.map fun m => (call m).1 := by
  unfold persist
  split <;> rename_i h <;> rw [h] <;> rfl

theorem persist_err (call : Engine → Engine × Option GoError) :
    (kv.persist call).2 = kv.engine.bind fun m => (call m).2 := by
  unfold persist
  split <;> rename_i h <;> rw [h] <;> rfl

@[simp] theorem thenNotify_toKVTable (p : KVStore × Option GoError) (events : List Event) :
    (thenNotify p events).1.toKVTable = p.1.toKVTable := by
  unfold thenNotify
  split <;> rfl

@[simp] theorem thenNotify_engine (p : KVStore × Option GoError) (events : List Event) :
    (thenNotify p events).1.engine = p.1.engine := by
  unfold thenNotify
  split <;> rfl

@[simp] theorem thenNotify_err (p : KVStore × Option GoError) (events : List Event) :
    (thenNotify p events).2 = p.2 := by
  unfold thenNotify
  split <;> rename_i h <;> rw [h]

/-- The error an engine returns from every call. -/
def fault : Option GoError := kv.engine.bind Engine.fault

end KVStore

namespace Engine

theorem attempt_err (m : Engine) (update : Engine → Engine) : (m.attempt update).2 = m.fault := by
  unfold attempt
  split <;> rename_i h <;> rw [h]

theorem sync_of_records {m : Engine} {t : KVTable} {keys : List GoString}
    {records : GoMap GoString Bytes}
    (h : ∀ k, records.lookup k = if k ∈ keys then t.record k else m.kvData.lookup k) :
    (m.attempt fun m => { m with kvData := records }).1 = m.sync t keys := by
  have hr : records = GoMap.overwrite m.kvData keys t.record := by
    refine Finmap.ext_lookup fun k => ?_
    rw [h, GoMap.lookup_overwrite]
    split_ifs <;> rfl
  obtain ⟨kvData, svcData, fault⟩ := m
  cases fault with
  | some err => rfl
  | none =>
    rw [hr]
    rfl

theorem set_eq_sync (m : Engine) {t : KVTable} {key : GoString} {entry : KVEntry}
    (h : t.data.lookup key = some entry) : (m.set key entry.marshal).1 = m.sync t [key] := by
  refine sync_of_records fun k => ?_
  simp only [GoMap.lookup_insert_ite, List.mem_singleton]
  split_ifs with hk
  · rw [hk, KVTable.record, h, Option.map_some]
  · rfl

theorem delete_eq_sync (m : Engine) {t : KVTable} {key : GoString}
    (h : t.data.lookup key = none) : (m.delete key).1 = m.sync t [key] := by
  refine sync_of_records fun k => ?_
  simp only [GoMap.lookup_erase_ite, List.mem_singleton]
  split_ifs with hk
  · rw [hk, KVTable.record, h, Option.map_none]
  · rfl

theorem batchSet_eq_sync (m : Engine) {t : KVTable} {keys : List GoString}
    {newEntries : GoMap GoString KVEntry}
    (h : ∀ k, newEntries.lookup k = if k ∈ keys then t.data.lookup k else none)
    (hkeys : ∀ k ∈ keys, k ∈ t.data) :
    (m.batchSet (KVStore.byteItems newEntries)).1 = m.sync t keys := by
  refine sync_of_records fun k => ?_
  rw [GoMap.lookup_union, KVStore.byteItems, GoMap.lookup_mapVal, h]
  split_ifs with hk
  · obtain ⟨entry, he⟩ := Finmap.mem_iff.mp (hkeys k hk)
    rw [KVTable.record, he]
    rfl
  · rfl

theorem batchDelete_eq_sync (m : Engine) (t : KVTable) (keys : List GoString) :
    (m.batchDelete keys).1 = m.sync (t.eraseAll keys) keys := by
  refine sync_of_records fun k => ?_
  rw [GoMap.lookup_eraseAll]
  split_ifs with hk
  · rw [KVTable.record, KVTable.lookup_eraseAll, if_pos hk, Option.map_none]
  · rfl

end Engine

/-! ### All operations at once -/

namespace KVOp

theorem apply_of_check_some {kv : KVStore} {op : KVOp} {err : GoError}
    (h : op.check kv.toKVTable = some err) : op.apply kv = (kv, .failed err) := by
  cases op with
  | setCAS key value expectedIndex =>
    simp only [check] at h
    simp only [apply, KVStore.setCAS, KVTable.setCAS, h, KVResult.failed]
  | deleteCAS key expectedIndex =>
    simp only [check] at h
    simp only [apply, KVStore.deleteCAS, KVTable.deleteCAS, h, KVResult.failed]
  | batchSetCAS items expectedIndices check range watch =>
    simp only [KVOp.check] at h
    simp only [apply, KVStore.batchSetCAS, h, KVResult.failed]
  | batchDeleteCAS keys expectedIndices watch =>
    simp only [check] at h
    simp only [apply, KVStore.batchDeleteCAS, h, KVResult.failed]
  | _ => cases h

/-- After a first pass that succeeds the table is updated, whatever the engine does. -/
theorem apply_toKVTable {kv : KVStore} {op : KVOp} (h : op.check kv.toKVTable = none) :
    (op.apply kv).1.toKVTable = op.update kv.toKVTable := by
  cases op with
  | set key value =>
    simp only [apply, KVStore.set, KVStore.setEntry, KVStore.notify_toKVTable,
      KVStore.persist_toKVTable, update]
  | setWithFlags key value flags =>
    simp only [apply, KVStore.setWithFlags, KVStore.setEntry, KVStore.notify_toKVTable,
      KVStore.persist_toKVTable, update]
  | setCAS key value expectedIndex =>
    simp only [check] at h
    simp only [apply, KVStore.setCAS, KVTable.setCAS, h, KVStore.thenNotify_toKVTable,
      KVStore.persist_toKVTable, update]
  | delete key =>
    simp only [apply, KVStore.delete, KVStore.notify_toKVTable, KVStore.persist_toKVTable, update]
  | deleteCAS key expectedIndex =>
    simp only [check] at h
    simp only [apply, KVStore.deleteCAS, KVTable.deleteCAS, h, KVStore.thenNotify_toKVTable,
      KVStore.persist_toKVTable, update]
  | batchSet items range watch =>
    simp only [apply, KVStore.batchSet, KVStore.thenNotify_toKVTable, KVStore.persist_toKVTable,
      update, (kv.toKVTable.putAll_spec _ range.nodup_keys).table]
  | batchSetCAS items expectedIndices check range watch =>
    simp only [KVOp.check] at h
    simp only [apply, KVStore.batchSetCAS, h, KVStore.thenNotify_toKVTable,
      KVStore.persist_toKVTable, update, (kv.toKVTable.putAll_spec _ range.nodup_keys).table]
  | batchDelete keys watch =>
    simp only [apply, KVStore.batchDelete, KVStore.thenNotify_toKVTable, KVStore.persist_toKVTable,
      update, KVTable.removeAll_data, KVTable.eraseAll]
  | batchDeleteCAS keys expectedIndices watch =>
    simp only [check] at h
    simp only [apply, KVStore.batchDeleteCAS, h, KVStore.thenNotify_toKVTable,
      KVStore.persist_toKVTable, update, KVTable.removeAllCAS_data, KVTable.eraseAll]

/-- The call of the engine an operation makes once it has updated the table `t`. -/
def engineCall (t : KVTable) : KVOp → Engine → Engine × Option GoError
  | set key value, m => m.set key (t.newEntry key value none).marshal
  | setWithFlags key value flags, m => m.set key (t.newEntry key value (some flags)).marshal
  | setCAS key value _, m => m.set key (t.newEntry key value none).marshal
  | delete key, m => m.delete key
  | deleteCAS key _, m => m.delete key
  | batchSet _ range _, m => m.batchSet (KVStore.byteItems (t.putAll range.list).newEntries)
  | batchSetCAS _ _ _ range _, m =>
    m.batchSet (KVStore.byteItems (t.putAll range.list).newEntries)
  | batchDelete keys _, m => m.batchDelete keys
  | batchDeleteCAS keys _ _, m => m.batchDelete keys

/-- The call brings the records of the operation's keys in line with the updated table. -/
theorem engineCall_eq_sync (t : KVTable) (op : KVOp) (m : Engine) :
    (op.engineCall t m).1 = m.sync (op.update t) op.keys := by
  have hset (key value : GoString) (flags : Option UInt64) :
      (m.set key (t.newEntry key value flags).marshal).1 = m.sync (t.put key value flags) [key] :=
    m.set_eq_sync (by rw [KVTable.lookup_put, if_pos rfl])
  have hdelete (key : GoString) : (m.delete key).1 = m.sync (t.remove key) [key] :=
    m.delete_eq_sync (by rw [KVTable.lookup_remove, if_pos rfl])
  have hbatch (items : GoMap GoString GoString) (range : items.Order) :
      (m.batchSet (KVStore.byteItems (t.putAll range.list).newEntries)).1 =
        m.sync (t.putList range.list) (range.list.map Sigma.fst) :=
    m.batchSet_eq_sync (t.putAll_spec _ range.nodup_keys).newEntries fun _ hk => t.mem_putList hk
  cases op with
  | set key value => exact hset key value none
  | setWithFlags key value flags => exact hset key value (some flags)
  | setCAS key value expectedIndex => exact hset key value none
  | delete key => exact hdelete key
  | deleteCAS key expectedIndex => exact hdelete key
  | batchSet items range watch => exact hbatch items range
  | batchSetCAS items expectedIndices check range watch => exact hbatch items range
  | batchDelete keys watch => exact m.batchDelete_eq_sync t keys
  | batchDeleteCAS keys expectedIndices watch => exact m.batchDelete_eq_sync t keys

theorem engineCall_err (t : KVTable) (op : KVOp) (m : Engine) :
    (op.engineCall t m).2 = m.fault := by
  cases op <;> exact m.attempt_err _

theorem persist_engineCall_err (op : KVOp) (kv : KVStore) (t : KVTable) :
    (kv.persist (op.engineCall t)).2 = kv.fault := by
  rw [KVStore.persist_err, KVStore.fault]
  cases kv.engine with
  | none => rfl
  | some m => exact engineCall_err t op m

theorem apply_engine {kv : KVStore} {op : KVOp} (h : op.check kv.toKVTable = none) :
    (op.apply kv).1.engine = kv.engine.map fun m => (op.engineCall kv.toKVTable m).1 := by
  cases op with
  | set key value =>
    simp only [apply, KVStore.set, KVStore.setEntry, KVStore.notify_engine, KVStore.persist_engine,
      engineCall]
  | setWithFlags key value flags =>
    simp only [apply, KVStore.setWithFlags, KVStore.setEntry, KVStore.notify_engine,
      KVStore.persist_engine, engineCall]
  | setCAS key value expectedIndex =>
    simp only [check] at h
    simp only [apply, KVStore.setCAS, KVTable.setCAS, h, KVStore.thenNotify_engine,
      KVStore.persist_engine, engineCall]
  | delete key =>
    simp only [apply, KVStore.delete, KVStore.notify_engine, KVStore.persist_engine, engineCall]
  | deleteCAS key expectedIndex =>
    simp only [check] at h
    simp only [apply, KVStore.deleteCAS, KVTable.deleteCAS, h, KVStore.thenNotify_engine,
      KVStore.persist_engine, engineCall]
  | batchSet items range watch =>
    simp only [apply, KVStore.batchSet, KVStore.thenNotify_engine, KVStore.persist_engine,
      engineCall]
  | batchSetCAS items expectedIndices check range watch =>
    simp only [KVOp.check] at h
    simp only [apply, KVStore.batchSetCAS, h, KVStore.thenNotify_engine, KVStore.persist_engine,
      engineCall]
  | batchDelete keys watch =>
    simp only [apply, KVStore.batchDelete, KVStore.thenNotify_engine, KVStore.persist_engine,
      engineCall]
  | batchDeleteCAS keys expectedIndices watch =>
    simp only [check] at h
    simp only [apply, KVStore.batchDeleteCAS, h, KVStore.thenNotify_engine, KVStore.persist_engine,
      engineCall]

theorem apply_err {kv : KVStore} {op : KVOp} (h : op.check kv.toKVTable = none) :
    (op.apply kv).2.err = if op.logsErrors then none else kv.fault := by
  cases op with
  | setCAS key value expectedIndex =>
    simp only [check] at h
    simp only [apply, KVStore.setCAS, KVTable.setCAS, h, KVStore.thenNotify_err,
      KVStore.persist_err, logsErrors, Engine.set, Engine.attempt_err]
    rfl
  | deleteCAS key expectedIndex =>
    simp only [check] at h
    simp only [apply, KVStore.deleteCAS, KVTable.deleteCAS, h, KVStore.thenNotify_err,
      KVStore.persist_err, logsErrors, Engine.delete, Engine.attempt_err]
    rfl
  | batchSet items range watch =>
    simp only [apply, KVStore.batchSet, KVStore.thenNotify_err, KVStore.persist_err, logsErrors,
      Engine.batchSet, Engine.attempt_err]
    rfl
  | batchSetCAS items expectedIndices check range watch =>
    simp only [KVOp.check] at h
    simp only [apply, KVStore.batchSetCAS, h, KVStore.thenNotify_err, KVStore.persist_err,
      logsErrors, Engine.batchSet, Engine.attempt_err]
    rfl
  | batchDelete keys watch =>
    simp only [apply, KVStore.batchDelete, KVStore.thenNotify_err, KVStore.persist_err, logsErrors,
      Engine.batchDelete, Engine.attempt_err]
    rfl
  | batchDeleteCAS keys expectedIndices watch =>
    simp only [check] at h
    simp only [apply, KVStore.batchDeleteCAS, h, KVStore.thenNotify_err, KVStore.persist_err,
      logsErrors, Engine.batchDelete, Engine.attempt_err]
    rfl
  | _ => rfl

end KVOp

end Konsul
