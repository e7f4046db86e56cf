import Konsul.Raft.SnapshotReplay
import Konsul.Store.Reload
import Konsul.Store.ServiceRecords

/-!
# A node that starts with data

`main` opens both stores on the persistence engine and hands them to the state
machine, with whatever they have loaded; then the log is replayed. Two nodes that
replay the same log end alike only if they have loaded the same: the counters of
the stores, which the answers give away, never meet again.
-/

namespace Konsul

open GoLib

/-- The engine a node opens, and the orders in which it lists. -/
structure DataDir where
  engine : Engine
  keys : engine.kvData.Order
  services : engine.svcData.Order

namespace DataDir

def empty : DataDir := ⟨.new, GoMap.sorted _, GoMap.sorted _⟩

/-- Unless it fails, the engine has no key and no record of a live service. -/
def Blank (d : DataDir) (now : Time) : Prop :=
  d.engine.fault = none → d.engine.kvData = ∅ ∧
    ∀ name record, d.engine.svcData.lookup name = some record → now < record.expiresAt →
      ∀ entry, ServiceEntry.unmarshal record.data = some entry → entry.expiresAt ≤ now

/-- Every key was written with an index. -/
def Indexed (d : DataDir) : Prop :=
  ∀ key record, d.engine.kvData.lookup key = some record →
    (KVStore.loadEntry record).modifyIndex ≠ 0

end DataDir

/-! ### What a start loads -/

namespace ServiceStore

variable {m : Engine} {now : Time}

theorem loadService_eq_none_iff (hfault : m.fault = none) (name : GoString) :
    loadService m now name = none ↔
      ∀ record, m.svcData.lookup name = some record → now < record.expiresAt →
        ∀ entry, ServiceEntry.unmarshal record.data = some entry → entry.expiresAt ≤ now := by
  unfold loadService Engine.getService
  rw [hfault]
  cases hrecord : m.svcData.lookup name with
  | none => simp
  | some record =>
    by_cases hlive : now < record.expiresAt
    · cases hentry : ServiceEntry.unmarshal record.data with
      | none => simp [hlive, hentry]
      | some entry => simp [hlive, hentry]
    · simp [hlive]

theorem loadService_of_fault {err : GoError} (hfault : m.fault = some err) (name : GoString) :
    loadService m now name = none := by
  unfold loadService Engine.getService
  rw [hfault]

/-- The indices of the entries are counted from 1. -/
def Counted (t : ServiceTable) : Prop :=
  ∀ name e, t.data.lookup name = some e → e.modifyIndex ≠ 0 ∧ e.modifyIndex ≤ t.globalIndex

theorem Counted.loadNext {t : ServiceTable} (h : Counted t) (name : GoString) :
    Counted (loadNext m now t name) := by
  unfold ServiceStore.loadNext
  cases hload : loadService m now name with
  | none => exact h
  | some entry =>
    intro n e he
    have hlookup : (t.data.insert name entry).lookup n = some e := he
    rw [GoMap.lookup_insert_ite] at hlookup
    dsimp only [ServiceTable.index]
    split_ifs at hlookup with hn
    · cases hlookup
      refine ⟨loadService_modifyIndex hload, ?_⟩
      split_ifs with hgreater
      · exact UInt64.le_refl _
      · exact UInt64.not_lt.mp hgreater
    · obtain ⟨hne, hle⟩ := h n e hlookup
      refine ⟨hne, ?_⟩
      split_ifs with hgreater
      · exact UInt64.le_of_lt (UInt64.lt_of_le_of_lt hle hgreater)
      · exact hle

theorem counted_newWithPersistence (ttl : Duration) (range : m.svcData.Order) :
    Counted (newWithPersistence ttl m now range).toServiceTable := by
  have hloop (names : List GoString) (t : ServiceTable) (ht : Counted t) :
      Counted (names.foldl (ServiceStore.loadNext m now) t) := by
    induction names generalizing t with
    | nil => exact ht
    | cons name names ih => exact ih _ (ht.loadNext name)
  have hempty : Counted (newWithTTL ttl).toServiceTable := fun _ _ h => nomatch h
  unfold newWithPersistence loadFromPersistence
  cases m.listServices now range with
  | error err => exact hempty
  | ok names => exact hloop names _ hempty

/-- Indices start at 1, so a counter of 0 tells that nothing was loaded. -/
theorem loadService_eq_none_of_globalIndex {ttl : Duration} {range : m.svcData.Order}
    (h : (newWithPersistence ttl m now range).globalIndex = 0) (name : GoString) :
    loadService m now name = none := by
  cases hload : loadService m now name with
  | none => rfl
  | some entry =>
    have hlookup := (lookup_newWithPersistence ttl range name).trans hload
    obtain ⟨hne, hle⟩ := counted_newWithPersistence ttl range name entry hlookup
    rw [h] at hle
    exact absurd (UInt64.le_zero_iff.mp hle) hne

theorem newWithPersistence_of_none (ttl : Duration) (range : m.svcData.Order)
    (h : ∀ name, loadService m now name = none) :
    newWithPersistence ttl m now range = { newWithTTL ttl with engine := some m } := by
  have hstay (names : List GoString) (t : ServiceTable) :
      names.foldl (ServiceStore.loadNext m now) t = t := by
    induction names with
    | nil => rfl
    | cons name names ih =>
      have hnext : ServiceStore.loadNext m now t name = t := by
        rw [ServiceStore.loadNext, h]
      rw [List.foldl_cons, hnext, ih]
  unfold newWithPersistence loadFromPersistence
  cases m.listServices now range with
  | error err => rfl
  | ok names =>
    dsimp only
    rw [hstay]

end ServiceStore

namespace KVStore

variable {m : Engine}

theorem newWithPersistence_of_fault {err : GoError} (hfault : m.fault = some err)
    (keys : m.kvData.Order) : newWithPersistence m keys = { KVStore.new with engine := some m } := by
  rw [newWithPersistence, loadFromPersistence, hfault]

theorem newWithPersistence_of_empty (hfault : m.fault = none) (h : m.kvData = ∅)
    (keys : m.kvData.Order) : newWithPersistence m keys = { KVStore.new with engine := some m } := by
  have hkeys : keys.list = [] := by
    refine List.eq_nil_iff_forall_not_mem.mpr fun e he => ?_
    have hlookup := (keys.mem_list_iff e.1 e.2).mp he
    rw [h] at hlookup
    cases hlookup
  have hdata : (m.kvData.mapVal fun _ value => loadEntry value) = ∅ := by
    refine Finmap.ext_lookup fun key => ?_
    rw [GoMap.lookup_mapVal, h]
    rfl
  rw [newWithPersistence, loadFromPersistence, hfault, hkeys, hdata]
  rfl

theorem modifyIndex_of_globalIndex (hfault : m.fault = none) {keys : m.kvData.Order}
    (h : (newWithPersistence m keys).globalIndex = 0) {key : GoString} {record : Bytes}
    (hrecord : m.kvData.lookup key = some record) : (loadEntry record).modifyIndex = 0 := by
  have hmem := (keys.mem_list_iff key record).mpr hrecord
  have hle := le_greatest (fun e : Σ _ : GoString, KVEntry => e.2.modifyIndex)
    (List.mem_map_of_mem (f := fun e : Σ _ : GoString, Bytes => (⟨e.1, loadEntry e.2⟩ :
      Σ _ : GoString, KVEntry)) hmem)
  have hzero : maxIndex (keys.list.map fun e => ⟨e.1, loadEntry e.2⟩) = 0 := by
    rw [newWithPersistence, loadFromPersistence, hfault] at h
    exact h
  exact UInt64.le_zero_iff.mp (hzero ▸ hle)

end KVStore

namespace FSM

/-! ### Engines do not show -/

/-- The state machine on stores without an engine. -/
def detached (f : FSM) : FSM :=
  { kvStore := { f.kvStore with engine := none }
    serviceStore := { f.serviceStore with engine := none } }

theorem applyKV_detached (kv : KVStore) (c : KVCommand) (ch : c.Choice) :
    applyKV { kv with engine := none } c ch =
      ({ (applyKV kv c ch).1 with engine := none }, (applyKV kv c ch).2) := by
  cases c with
  | set key value => rfl
  | setWithFlags key value flags => rfl
  | delete key => rfl
  | batchSet items => rfl
  | batchDelete keys => rfl
  | setCAS key value expectedIndex =>
    simp only [applyKV, KVStore.setCASLocal, KVTable.setCAS]
    cases kv.toKVTable.checkSetCAS key expectedIndex <;> rfl
  | deleteCAS key expectedIndex =>
    simp only [applyKV, KVStore.deleteCASLocal, KVTable.deleteCAS]
    cases kv.toKVTable.checkDeleteCAS key expectedIndex <;> rfl
  | batchSetCAS items expectedIndices =>
    obtain ⟨check, range, watch⟩ := ch
    simp only [applyKV, KVStore.batchSetCASLocal]
    cases kv.toKVTable.checkSetAll check.list expectedIndices <;> rfl
  | batchDeleteCAS keys expectedIndices =>
    simp only [applyKV, KVStore.batchDeleteCASLocal]
    cases kv.toKVTable.checkDeleteAll keys expectedIndices <;> rfl

theorem applyService_detached (s : ServiceStore) (now : Time) (c : ServiceCommand) (ch : c.Choice) :
    applyService { s with engine := none } now c ch =
      ({ (applyService s now c ch).1 with engine := none }, (applyService s now c ch).2) := by
  cases c with
  | register service =>
    simp only [applyService, ServiceStore.registerLocal]
    split <;> rfl
  | deregister name => rfl
  | heartbeat name =>
    simp only [applyService, ServiceStore.heartbeatLocal]
    split <;> rfl
  | ttlUpdate checkID => rfl
  | registerCAS service expectedIndex =>
    simp only [applyService, ServiceStore.registerCASLocal]
    split
    · rfl
    · split <;> rfl
  | deregisterCAS name expectedIndex =>
    simp only [applyService, ServiceStore.deregisterCASLocal]
    split <;> rfl

theorem step_detached (f : FSM) (e : Applied) :
    machine.step f.detached e = ((machine.step f e).1.detached, (machine.step f e).2) := by
  obtain ⟨c, ch, now⟩ := e
  cases c with
  | kv c =>
    obtain ⟨hstore, hanswer⟩ := Prod.mk.inj (applyKV_detached f.kvStore c ch)
    exact Prod.ext (congrArg (fun kv => (⟨kv, f.detached.serviceStore⟩ : FSM)) hstore) hanswer
  | service c =>
    obtain ⟨hstore, hanswer⟩ := Prod.mk.inj (applyService_detached f.serviceStore now c ch)
    exact Prod.ext (congrArg (fun s => (⟨f.detached.kvStore, s⟩ : FSM)) hstore) hanswer
  | undecodable answer => rfl

theorem run_detached (f : FSM) (log : List Applied) :
    machine.run f.detached log = ((machine.run f log).1.detached, (machine.run f log).2) := by
  have hrun := machine.run_map machine detached id id step_detached f log
  rw [List.map_id, List.map_id] at hrun
  exact hrun

/-! ### Starting -/

/-- The state machine of a node, with persistence or without. -/
def boot (ttl : Duration) (now : Time) : Option DataDir → FSM
  | none => fresh ttl
  | some d =>
    { kvStore := .newWithPersistence d.engine d.keys
      serviceStore := .newWithPersistence ttl d.engine now d.services }

/-- A log leaves the same stores, engines aside, and gets the same answers from both;
replayed at other times it leaves the same keys, services and indices and gets the same
results of compare-and-swap. -/
structure SameAfter (f g : FSM) (log : List Applied) : Prop where
  kv : (machine.run f log).1.kvStore.toKVTable = (machine.run g log).1.kvStore.toKVTable
  services : (machine.run f log).1.serviceStore.toServiceTable =
    (machine.run g log).1.serviceStore.toServiceTable
  answers : (machine.run f log).2 = (machine.run g log).2
  replica : ∀ log' : List Applied, log'.map choiceOf = log.map choiceOf →
    (machine.run f log).1.replica = (machine.run g log').1.replica ∧
    (machine.run f log).2.map FsmResponse.casResult =
      (machine.run g log').2.map FsmResponse.casResult

variable {ttl : Duration} {now now' : Time} {f g : FSM}

theorem sameAfter_of_detached (h : f.detached = g.detached) (log : List Applied) :
    SameAfter f g log := by
  have hrun : ((machine.run f log).1.detached, (machine.run f log).2) =
      ((machine.run g log).1.detached, (machine.run g log).2) := by
    rw [← run_detached, ← run_detached, h]
  obtain ⟨hstate, hanswers⟩ := Prod.mk.inj hrun
  have hkv := congrArg (fun f : FSM => f.kvStore.toKVTable) hstate
  have hservices := congrArg (fun f : FSM => f.serviceStore.toServiceTable) hstate
  have hreplica : f.detached.replica = g.detached.replica := congrArg replica h
  have hsame : f.replica = g.replica := hreplica
  refine ⟨hkv, hservices, hanswers, fun log' hlog => ?_⟩
  have heq := replica_run g log'
  rw [hlog, ← hsame, replica_run] at heq
  exact Prod.mk.inj heq

/-- Different counters never meet again without a result that gives them away. -/
theorem SameAfter.counters_eq {log : List Applied} (h : SameAfter f g log) :
    f.replica.counters = g.replica.counters := by
  obtain ⟨hreplica, hresults⟩ := h.replica log rfl
  have hrun : Replica.chooser.machine.run f.replica (log.map choiceOf) =
      Replica.chooser.machine.run g.replica (log.map choiceOf) := by
    rw [replica_run, replica_run, hreplica, hresults]
  exact Replica.chooser.machine.reflect (R := fun s s' => s.counters = s'.counters)
    Replica.counters_reflect (congrArg Prod.snd hrun) (congrArg (fun p => p.1.counters) hrun)

theorem boot_empty (ttl : Duration) (now : Time) :
    (boot ttl now (some .empty)).detached = fresh ttl := rfl

theorem boot_of_blank {d : DataDir} (h : d.Blank now) : (boot ttl now (some d)).detached = fresh ttl := by
  have hkv : KVStore.newWithPersistence d.engine d.keys =
      { KVStore.new with engine := some d.engine } := by
    cases hfault : d.engine.fault with
    | none => exact KVStore.newWithPersistence_of_empty hfault (h hfault).1 d.keys
    | some err => exact KVStore.newWithPersistence_of_fault hfault d.keys
  have hload (name : GoString) : ServiceStore.loadService d.engine now name = none := by
    cases hfault : d.engine.fault with
    | none => exact (ServiceStore.loadService_eq_none_iff hfault name).mpr ((h hfault).2 name)
    | some err => exact ServiceStore.loadService_of_fault hfault name
  rw [boot, hkv, ServiceStore.newWithPersistence_of_none ttl d.services hload]
  rfl

theorem blank_of_boot {d : DataDir} (hkeys : d.engine.fault = none → d.engine.kvData = ∅)
    (hload : ∀ name, ServiceStore.loadService d.engine now name = none) : d.Blank now :=
  fun hfault => ⟨hkeys hfault, fun name =>
    (ServiceStore.loadService_eq_none_iff hfault name).mp (hload name)⟩

theorem blank_of_same_start {d : DataDir}
    (h : SameAfter (boot ttl now (some d)) (boot ttl now' (some .empty)) []) : d.Blank now := by
  refine blank_of_boot (fun hfault => ?_) fun name => ?_
  · have hdata : (KVStore.newWithPersistence d.engine d.keys).data = ∅ :=
      congrArg KVTable.data h.kv
    rw [KVStore.data_newWithPersistence hfault] at hdata
    refine Finmap.ext_lookup fun key => ?_
    have hlookup := congrArg (Finmap.lookup key) hdata
    rw [GoMap.lookup_mapVal] at hlookup
    exact Option.map_eq_none_iff.mp hlookup
  · have hdata : (ServiceStore.newWithPersistence ttl d.engine now d.services).data = ∅ :=
      congrArg ServiceTable.data h.services
    rw [← ServiceStore.lookup_newWithPersistence ttl d.services, hdata]
    rfl

/-- Equal after any log: the counters were 0, and nothing indexed was loaded. -/
theorem blank_of_same_after {d : DataDir} (hindexed : d.Indexed) {log : List Applied}
    (h : SameAfter (boot ttl now (some d)) (boot ttl now' (some .empty)) log) : d.Blank now := by
  have hcounters := h.counters_eq
  have hkv : (KVStore.newWithPersistence d.engine d.keys).globalIndex = 0 :=
    congrArg Prod.fst hcounters
  have hservices : (ServiceStore.newWithPersistence ttl d.engine now d.services).globalIndex = 0 :=
    congrArg Prod.snd hcounters
  refine blank_of_boot (fun hfault => ?_)
    fun name => ServiceStore.loadService_eq_none_of_globalIndex hservices name
  refine Finmap.ext_lookup fun key => ?_
  cases hrecord : d.engine.kvData.lookup key with
  | none => rfl
  | some record =>
    have hzero := KVStore.modifyIndex_of_globalIndex hfault hkv hrecord
    exact absurd hzero (hindexed key record hrecord)

/-- A node that opens its stores on data answers a log like one that starts without, and
ends like it, whatever the log is, exactly if there is nothing to load; and if the data were
written with indices, no log at all hides them. -/
theorem starts_equal_iff (ttl : Duration) (now now' : Time) (d : DataDir) :
    ((∀ log, SameAfter (boot ttl now (some d)) (boot ttl now' (some .empty)) log) ↔ d.Blank now) ∧
    (d.Indexed → ∀ log,
      SameAfter (boot ttl now (some d)) (boot ttl now' (some .empty)) log ↔ d.Blank now) := by
  have hsame (h : d.Blank now) (log : List Applied) :
      SameAfter (boot ttl now (some d)) (boot ttl now' (some .empty)) log :=
    sameAfter_of_detached ((boot_of_blank h).trans (boot_empty ttl now').symm) log
  exact ⟨⟨fun h => blank_of_same_start (h []), hsame⟩,
    fun hindexed log => ⟨blank_of_same_after hindexed, fun h => hsame h log⟩⟩

/-- A key written by a node that ran alone. -/
def migrated : KVStore :=
  (kvMachine.run (.newWithPersistence .new (GoMap.sorted _)) [.set (str "k") (str "v")]).1

/-- Its compare-and-swap for a new key fails on the migrated node only. -/
theorem migrated_node_differs : ∃ m, migrated.engine = some m ∧
    ¬ SameAfter (boot 10 0 (some ⟨m, GoMap.sorted _, GoMap.sorted _⟩)) (boot 10 0 (some .empty))
      [⟨.kv (.setCAS (str "k") (str "w") 0), (), 0⟩] := by
  refine ⟨_, rfl, fun h => ?_⟩
  have hanswers := h.answers
  revert hanswers
  decide

end FSM

end Konsul
