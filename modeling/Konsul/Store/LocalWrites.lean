import Konsul.Store.Reload

/-!
# The methods the log is applied with

Every write of the key-value store has a second body for the state machine of the
cluster, which leaves out the engine. `KVOp.applyLocal` runs an operation through
that body; a store without an engine cannot tell the two apart.
-/

namespace Konsul

open GoLib

namespace KVOp

/-- The operation through its `Local` method. -/
def applyLocal (kv : KVStore) : KVOp → KVStore × KVResult
  | set key value => (kv.setLocal key value, .ok)
  | setWithFlags key value flags => (kv.setWithFlagsLocal key value flags, .ok)
  | setCAS key value expectedIndex =>
    let r := kv.setCASLocal key value expectedIndex
    (r.1, ⟨r.2.1, ∅, r.2.2⟩)
  | delete key => (kv.deleteLocal key, .ok)
  | deleteCAS key expectedIndex =>
    let r := kv.deleteCASLocal key expectedIndex
    (r.1, ⟨0, ∅, r.2⟩)
  | batchSet items range watch =>
    let r := kv.batchSetLocal items range watch
    (r.1, ⟨0, ∅, r.2⟩)
  | batchSetCAS items expectedIndices check range watch =>
    let r := kv.batchSetCASLocal items expectedIndices check range watch
    (r.1, ⟨0, r.2.1, r.2.2⟩)
  | batchDelete keys watch =>
    let r := kv.batchDeleteLocal keys watch
    (r.1, ⟨0, ∅, r.2⟩)
  | batchDeleteCAS keys expectedIndices watch =>
    let r := kv.batchDeleteCASLocal keys expectedIndices watch
    (r.1, ⟨0, ∅, r.2⟩)

end KVOp

namespace KVStore

theorem persist_of_engine_none {kv : KVStore} (h : kv.engine = none)
    (call : Engine → Engine × Option GoError) : kv.persist call = (kv, none) := by
  rw [persist, h]

theorem engine_apply {kv : KVStore} (h : kv.engine = none) (op : KVOp) :
    (op.apply kv).1.engine = none := by
  cases hc : op.check kv.toKVTable with
  | some err =>
    rw [KVOp.apply_of_check_some hc]
    exact h
  | none => rw [KVOp.apply_engine hc, h, Option.map_none]

theorem applyLocal_eq {kv : KVStore} (h : kv.engine = none) (op : KVOp) :
    op.applyLocal kv = op.apply kv := by
  have hpersist (t : KVTable) (call : Engine → Engine × Option GoError) :
      ({ kv with toKVTable := t } : KVStore).persist call = ({ kv with toKVTable := t }, none) := by
    rw [persist_of_engine_none]
    exact h
  have hnotify (t : KVTable) (call : Engine → Engine × Option GoError) (events : List Event) :
      thenNotify (({ kv with toKVTable := t } : KVStore).persist call) events =
        (({ kv with toKVTable := t } : KVStore).notify events, none) := by
    rw [hpersist]
    rfl
  cases op with
  | set key value =>
    simp only [KVOp.applyLocal, KVOp.apply, set, setLocal, setEntry, setEntryLocal, hpersist]
  | setWithFlags key value flags =>
    simp only [KVOp.applyLocal, KVOp.apply, setWithFlags, setWithFlagsLocal, setEntry,
      setEntryLocal, hpersist]
  | setCAS key value expectedIndex =>
    simp only [KVOp.applyLocal, KVOp.apply, setCAS, setCASLocal, KVTable.setCAS]
    cases kv.toKVTable.checkSetCAS key expectedIndex with
    | some err => rfl
    | none => simp only [hnotify]
  | delete key => simp only [KVOp.applyLocal, KVOp.apply, delete, deleteLocal, hpersist]
  | deleteCAS key expectedIndex =>
    simp only [KVOp.applyLocal, KVOp.apply, deleteCAS, deleteCASLocal, KVTable.deleteCAS]
    cases kv.toKVTable.checkDeleteCAS key expectedIndex with
    | some err => rfl
    | none => simp only [hnotify]
  | batchSet items range watch =>
    simp only [KVOp.applyLocal, KVOp.apply, batchSet, batchSetLocal, hnotify]
  | batchSetCAS items expectedIndices check range watch =>
    simp only [KVOp.applyLocal, KVOp.apply, batchSetCAS, batchSetCASLocal]
    cases kv.toKVTable.checkSetAll check.list expectedIndices with
    | some err => rfl
    | none => simp only [hnotify]
  | batchDelete keys watch =>
    simp only [KVOp.applyLocal, KVOp.apply, batchDelete, batchDeleteLocal, hnotify]
  | batchDeleteCAS keys expectedIndices watch =>
    simp only [KVOp.applyLocal, KVOp.apply, batchDeleteCAS, batchDeleteCASLocal]
    cases kv.toKVTable.checkDeleteAll keys expectedIndices with
    | some err => rfl
    | none => simp only [hnotify]

/-- Operations applied one after the other through their `Local` methods. -/
def localMachine : Machine KVStore KVOp KVResult := ⟨fun kv op => op.applyLocal kv⟩

/-- From a store without an engine, a run through the `Local` methods ends in the
same store, with the same events told in the same order, and returns the same. -/
theorem localMachine_run {kv : KVStore} (h : kv.engine = none) (ops : List KVOp) :
    localMachine.run kv ops = kvMachine.run kv ops := by
  induction ops generalizing kv with
  | nil => rfl
  | cons op ops ih =>
    have hstep : localMachine.step kv op = kvMachine.step kv op := applyLocal_eq h op
    have hnext : (kvMachine.step kv op).1.engine = none := engine_apply h op
    rw [Machine.run_cons, Machine.run_cons, hstep, ih hnext]

/-- A batch, a write that fails and a delete, on a store whose watchers listen. -/
theorem localMachine_run_batch :
    localMachine.run { KVStore.new with watchManager := some [] }
        [.batchSet (Finmap.singleton (str "k") (str "a")) (GoMap.sorted _) (GoMap.sorted _),
          .setCAS (str "k") (str "b") 7, .delete (str "k")] =
      kvMachine.run { KVStore.new with watchManager := some [] }
        [.batchSet (Finmap.singleton (str "k") (str "a")) (GoMap.sorted _) (GoMap.sorted _),
          .setCAS (str "k") (str "b") 7, .delete (str "k")] :=
  localMachine_run rfl _

end KVStore

end Konsul
