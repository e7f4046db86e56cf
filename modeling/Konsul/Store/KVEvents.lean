import Konsul.Store.KVSpec

/-!
# The events of an operation

`KVOp.events` is what an operation hands to the watch manager, in order, and
`KVOp.commit` the change it commits for one key. They agree key by key, but for a
compare-and-swap batch delete that names a key twice.
-/

namespace Konsul

open GoLib

namespace KVTable

variable (t : KVTable)

theorem value_putList {items : List (Σ _ : GoString, GoString)} {k v : GoString}
    (hnodup : (items.map Sigma.fst).Nodup) (h : ⟨k, v⟩ ∈ items) :
    ∃ entry, (t.putList items).data.lookup k = some entry ∧ entry.value = v := by
  induction items generalizing t with
  | nil => cases h
  | cons item items ih =>
    rw [List.map_cons, List.nodup_cons] at hnodup
    rw [putList_cons]
    rcases List.mem_cons.mp h with rfl | h
    · rw [lookup_putList_of_notMem _ hnodup.1, lookup_put, if_pos rfl]
      exact ⟨_, rfl, newEntry_value ..⟩
    · exact ih _ hnodup.2 h

theorem lookup_removed (keys : List GoString) (k : GoString) (m : GoMap GoString KVEntry) :
    (keys.foldl (fun (p : KVTable × GoMap GoString KVEntry) key =>
      (p.1.remove key,
        match p.1.data.lookup key with
        | some oldEntry => p.2.insert key oldEntry
        | none => p.2)) (t, m)).2.lookup k =
      if k ∈ keys then (t.data.lookup k).or (m.lookup k) else m.lookup k := by
  induction keys generalizing t m with
  | nil => rfl
  | cons key keys ih =>
    rw [List.foldl_cons, ih]
    by_cases hk : k = key
    · subst hk
      cases t.data.lookup k with
      | none => simp [lookup_remove]
      | some entry => simp [lookup_remove]
    · cases t.data.lookup key with
      | none => simp [lookup_remove, hk]
      | some entry => simp [lookup_remove, hk]

theorem lookup_removeAll (keys : List GoString) (k : GoString) :
    (t.removeAll keys).2.lookup k = if k ∈ keys then t.data.lookup k else none := by
  have h := t.lookup_removed keys k ∅
  rw [Finmap.lookup_empty, Option.or_none] at h
  exact h

/-- A compare-and-swap batch delete that names no key twice remembers the same. -/
theorem lookup_removeAllCAS {keys : List GoString} (hnodup : keys.Nodup) (k : GoString) :
    (t.removeAllCAS keys).2.lookup k =
      if k ∈ keys then some ((t.data.lookup k).getD .zero) else none := by
  suffices ∀ (t : KVTable) (m : GoMap GoString KVEntry),
      (keys.foldl (fun (p : KVTable × GoMap GoString KVEntry) key =>
        (p.1.remove key, p.2.insert key ((p.1.data.lookup key).getD .zero))) (t, m)).2.lookup k =
        if k ∈ keys then some ((t.data.lookup k).getD .zero) else m.lookup k by
    rw [removeAllCAS, this t ∅, Finmap.lookup_empty]
  induction keys with
  | nil => exact fun t m => rfl
  | cons key keys ih =>
    intro t m
    obtain ⟨hkey, hnodup⟩ := List.nodup_cons.mp hnodup
    rw [List.foldl_cons, ih hnodup]
    by_cases hk : k = key
    · subst hk
      simp [hkey]
    · simp [lookup_remove, hk]

theorem mem_of_checkDeleteAll {keys : List GoString} {expectedIndices : GoMap GoString UInt64}
    (h : t.checkDeleteAll keys expectedIndices = none) {k : GoString} (hk : k ∈ keys) :
    ∃ entry, t.data.lookup k = some entry := by
  have hcheck := List.findSome?_eq_none_iff.mp h k hk
  rw [checkDeleteCAS] at hcheck
  cases hl : t.data.lookup k with
  | none => simp [hl] at hcheck
  | some entry => exact ⟨entry, rfl⟩

end KVTable

theorem KVStore.deleteEvents_filter {m : GoMap GoString KVEntry} (watch : m.Order) (k : GoString) :
    (KVStore.deleteEvents watch.list).filter (fun e => e.key = k) =
      KVStore.deletedEvents k (m.lookup k) := by
  have hfilter : (KVStore.deleteEvents watch.list).filter (fun e => e.key = k) =
      KVStore.deleteEvents (watch.list.filter fun e => e.1 = k) := by
    rw [KVStore.deleteEvents, List.filter_map]
    rfl
  rw [hfilter, watch.filter_key, KVStore.deleteEvents]
  cases m.lookup k with
  | none => rfl
  | some old => rfl

namespace KVOp

/-- The events of an operation that updates the table `t`. -/
def events (t : KVTable) : KVOp → List Event
  | set key value => [KVStore.setEvent key value (t.data.lookup key)]
  | setWithFlags key value _ => [KVStore.setEvent key value (t.data.lookup key)]
  | setCAS key value _ => [KVStore.setEvent key value (t.data.lookup key)]
  | delete key => KVStore.deletedEvents key (t.data.lookup key)
  | deleteCAS key _ => KVStore.deletedEvents key (t.data.lookup key)
  | batchSet _ range watch => KVStore.setEvents watch.list (t.putAll range.list).oldEntries
  | batchSetCAS _ _ _ range watch => KVStore.setEvents watch.list (t.putAll range.list).oldEntries
  | batchDelete keys watch => KVStore.deleteEvents (watch (t.removeAll keys).2).list
  | batchDeleteCAS keys _ watch => KVStore.deleteEvents (watch (t.removeAllCAS keys).2).list

/-- The change an operation commits for a key: a new version of it, or the end of
the entry it had. -/
def commit (t : KVTable) (op : KVOp) (k : GoString) : List Event :=
  if k ∈ op.keys then
    match (op.update t).data.lookup k with
    | some entry => [KVStore.setEvent k entry.value (t.data.lookup k)]
    | none => KVStore.deletedEvents k (t.data.lookup k)
  else []

/-- A compare-and-swap batch delete names no key twice. -/
def NamesOnce : KVOp → Prop
  | batchDeleteCAS keys _ _ => keys.Nodup
  | _ => True

/-- The watchers are told of an operation that passes its check, unless the engine
fails and the operation reports it. -/
theorem apply_watchManager {kv : KVStore} {op : KVOp} (h : op.check kv.toKVTable = none) :
    (op.apply kv).1.watchManager =
      if op.logsErrors ∨ kv.fault = none then kv.watchManager.map (· ++ op.events kv.toKVTable)
      else kv.watchManager := by
  have hnotify : ∀ (p : KVStore × Option GoError) (events : List Event),
      (KVStore.thenNotify p events).1.watchManager =
        if p.2 = none then p.1.watchManager.map (· ++ events) else p.1.watchManager := by
    intro p events
    rw [KVStore.thenNotify]
    split
    · next err herr => simp [herr]
    · next herr => simp [herr, KVStore.notify]
  have hkeep : ∀ (kv : KVStore) (call : Engine → Engine × Option GoError),
      (kv.persist call).1.watchManager = kv.watchManager := by
    intro kv call
    rw [KVStore.persist]
    split <;> rfl
  have herr : ∀ (t : KVTable) (call : Engine → Engine × Option GoError),
      (∀ m, (call m).2 = m.fault) →
      (({ kv with toKVTable := t } : KVStore).persist call).2 = kv.fault := by
    intro t call hcall
    rw [KVStore.persist_err, KVStore.fault]
    cases kv.engine with
    | none => rfl
    | some m => exact hcall m
  cases op with
  | set key value =>
    simp only [apply, KVStore.set, KVStore.setEntry, KVStore.notify, hkeep, logsErrors, events,
      true_or, ite_true]
  | setWithFlags key value flags =>
    simp only [apply, KVStore.setWithFlags, KVStore.setEntry, KVStore.notify, hkeep, logsErrors,
      events, true_or, ite_true]
  | delete key =>
    simp only [apply, KVStore.delete, KVStore.notify, hkeep, logsErrors, events, true_or, ite_true]
  | setCAS key value expectedIndex =>
    simp only [check] at h
    simp only [apply, KVStore.setCAS, KVTable.setCAS, h, hnotify, hkeep, logsErrors,
      Bool.false_eq_true, false_or, events]
    rw [herr]
    exact fun m => m.attempt_err _
  | deleteCAS key expectedIndex =>
    simp only [check] at h
    simp only [apply, KVStore.deleteCAS, KVTable.deleteCAS, h, hnotify, hkeep, logsErrors,
      Bool.false_eq_true, false_or, events]
    rw [herr]
    exact fun m => m.attempt_err _
  | batchSet items range watch =>
    simp only [apply, KVStore.batchSet, hnotify, hkeep, logsErrors, Bool.false_eq_true, false_or,
      events]
    rw [herr]
    exact fun m => m.attempt_err _
  | batchSetCAS items expectedIndices check range watch =>
    simp only [KVOp.check] at h
    simp only [apply, KVStore.batchSetCAS, h, hnotify, hkeep, logsErrors, Bool.false_eq_true,
      false_or, events]
    rw [herr]
    exact fun m => m.attempt_err _
  | batchDelete keys watch =>
    simp only [apply, KVStore.batchDelete, hnotify, hkeep, logsErrors, Bool.false_eq_true,
      false_or, events]
    rw [herr]
    exact fun m => m.attempt_err _
  | batchDeleteCAS keys expectedIndices watch =>
    simp only [check] at h
    simp only [apply, KVStore.batchDeleteCAS, h, hnotify, hkeep, logsErrors, Bool.false_eq_true,
      false_or, events]
    rw [herr]
    exact fun m => m.attempt_err _

theorem key_deletedEvents {key : GoString} {old : Option KVEntry} :
    ∀ e ∈ KVStore.deletedEvents key old, e.key = key := by
  intro e he
  cases old with
  | none => cases he
  | some oldEntry => rw [List.mem_singleton.mp he]; rfl

/-- The events of an operation for a key are the change it commits for the key. -/
theorem events_filter {t : KVTable} {op : KVOp} (hcheck : op.check t = none) (honce : op.NamesOnce)
    (k : GoString) : (op.events t).filter (fun e => e.key = k) = op.commit t k := by
  have hset : ∀ (key value : GoString) (entry : KVEntry), entry.value = value →
      [KVStore.setEvent key value (t.data.lookup key)].filter (fun e => e.key = k) =
        if k ∈ [key] then [KVStore.setEvent k entry.value (t.data.lookup k)] else [] := by
    intro key value entry hvalue
    by_cases hk : k = key
    · subst hk
      simp [KVStore.setEvent, hvalue]
    · simp [KVStore.setEvent, hk, Ne.symm hk]
  have hdelete : ∀ key, (KVStore.deletedEvents key (t.data.lookup key)).filter (fun e => e.key = k) =
      if k ∈ [key] then KVStore.deletedEvents k (t.data.lookup k) else [] := by
    intro key
    by_cases hk : k = key
    · subst hk
      simp only [List.mem_singleton, ite_true]
      exact List.filter_eq_self.mpr fun e he => decide_eq_true (key_deletedEvents e he)
    · simp only [List.mem_singleton, hk, ite_false]
      refine List.filter_eq_nil_iff.mpr fun e he => ?_
      rw [key_deletedEvents e he]
      simpa using Ne.symm hk
  have hbatch : ∀ (items : GoMap GoString GoString) (range watch : items.Order),
      (KVStore.setEvents watch.list (t.putAll range.list).oldEntries).filter (fun e => e.key = k) =
        if k ∈ range.list.map Sigma.fst then
          match (t.putList range.list).data.lookup k with
          | some entry => [KVStore.setEvent k entry.value (t.data.lookup k)]
          | none => KVStore.deletedEvents k (t.data.lookup k)
        else [] := by
    intro items range watch
    have hfilter : (KVStore.setEvents watch.list (t.putAll range.list).oldEntries).filter
        (fun e => e.key = k) =
        KVStore.setEvents (watch.list.filter fun e => e.1 = k) (t.putAll range.list).oldEntries := by
      rw [KVStore.setEvents, List.filter_map]
      rfl
    rw [hfilter, watch.filter_key, KVStore.setEvents]
    cases hl : items.lookup k with
    | none =>
      have hnot : k ∉ range.list.map Sigma.fst := by
        rw [range.mem_keys_iff]
        exact Finmap.lookup_eq_none.mp hl
      rw [if_neg hnot]
      rfl
    | some v =>
      have hmem := (range.mem_list_iff k v).mpr hl
      have hkey : k ∈ range.list.map Sigma.fst := List.mem_map_of_mem hmem
      obtain ⟨entry, hentry, hvalue⟩ := t.value_putList range.nodup_keys hmem
      have hold := (t.putAll_spec range.list range.nodup_keys).oldEntries k
      rw [if_pos hkey] at hold ⊢
      simp only [Option.toList_some, List.map_cons, List.map_nil, hentry, hold, hvalue]
  have hdeletes : ∀ (keys : List GoString) (m : GoMap GoString KVEntry) (watch : m.Order),
      m.lookup k = (if k ∈ keys then t.data.lookup k else none) →
      (KVStore.deleteEvents watch.list).filter (fun e => e.key = k) =
        if k ∈ keys then KVStore.deletedEvents k (t.data.lookup k) else [] := by
    intro keys m watch hm
    rw [KVStore.deleteEvents_filter, hm]
    split_ifs <;> rfl
  cases op with
  | set key value =>
    rw [events, hset key value (t.newEntry key value none) (KVTable.newEntry_value ..)]
    simp only [commit, keys, update, KVTable.lookup_put, List.mem_singleton]
    split_ifs with hk
    · simp [hk]
    · rfl
  | setWithFlags key value flags =>
    rw [events, hset key value (t.newEntry key value (some flags)) (KVTable.newEntry_value ..)]
    simp only [commit, keys, update, KVTable.lookup_put, List.mem_singleton]
    split_ifs with hk
    · simp [hk]
    · rfl
  | setCAS key value expectedIndex =>
    rw [events, hset key value (t.newEntry key value none) (KVTable.newEntry_value ..)]
    simp only [commit, keys, update, KVTable.lookup_put, List.mem_singleton]
    split_ifs with hk
    · simp [hk]
    · rfl
  | delete key =>
    rw [events, hdelete]
    simp only [commit, keys, update, KVTable.lookup_remove, List.mem_singleton]
    split_ifs with hk <;> simp [hk]
  | deleteCAS key expectedIndex =>
    rw [events, hdelete]
    simp only [commit, keys, update, KVTable.lookup_remove, List.mem_singleton]
    split_ifs with hk <;> simp [hk]
  | batchSet items range watch => exact hbatch items range watch
  | batchSetCAS items expectedIndices check range watch => exact hbatch items range watch
  | batchDelete keys watch =>
    rw [events, hdeletes keys _ _ (t.lookup_removeAll keys k)]
    simp only [commit, KVOp.keys, update, KVTable.lookup_eraseAll]
    split_ifs with hk
    · rfl
    · rfl
  | batchDeleteCAS keys expectedIndices watch =>
    have hlookup : (t.removeAllCAS keys).2.lookup k =
        if k ∈ keys then t.data.lookup k else none := by
      rw [t.lookup_removeAllCAS honce]
      split_ifs with hk
      · obtain ⟨entry, hentry⟩ := t.mem_of_checkDeleteAll hcheck hk
        rw [hentry, Option.getD_some]
      · rfl
    rw [events, hdeletes keys _ _ hlookup]
    simp only [commit, KVOp.keys, update, KVTable.lookup_eraseAll]
    split_ifs with hk
    · rfl
    · rfl

end KVOp

end Konsul
