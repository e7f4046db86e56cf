import Konsul.Store.IndexInvariant

/-!
# Stores that answer alike

What an operation answers depends on the data, the index counter and on whether the
engine works, and not on what the engine holds or on how the indexes of a service store
came about. The checks of the health manager are left out.
-/

namespace Konsul

open GoLib

theorem GoMap.list_sorted_congr {V : Type} {m m' : GoMap GoString V} (h : m' = m) :
    (GoMap.sorted m').list = (GoMap.sorted m).list := by
  rw [h]

/-! ### The key-value store -/

/-- The tables are the same, and calls of the engines fail alike. -/
structure KVStore.Alike (kv kv' : KVStore) : Prop where
  table : kv'.toKVTable = kv.toKVTable
  fault : kv'.fault = kv.fault

theorem Engine.sync_fault (m : Engine) (t : KVTable) (keys : List GoString) :
    (m.sync t keys).fault = m.fault := by
  unfold Engine.sync
  split <;> rfl

namespace KVOp

theorem fault_apply (kv : KVStore) (op : KVOp) : (op.apply kv).1.fault = kv.fault := by
  cases hcheck : op.check kv.toKVTable with
  | some err => rw [apply_of_check_some hcheck]
  | none =>
    unfold KVStore.fault
    rw [apply_engine hcheck]
    cases kv.engine with
    | none => rfl
    | some m =>
      have hfault := m.sync_fault (op.update kv.toKVTable) op.keys
      rw [Option.map_some, Option.bind_some, Option.bind_some, engineCall_eq_sync, hfault]

theorem indices_apply {kv kv' : KVStore} (h : kv'.toKVTable = kv.toKVTable) (op : KVOp) :
    (op.apply kv').2.newIndex = (op.apply kv).2.newIndex ∧
      (op.apply kv').2.newIndices = (op.apply kv).2.newIndices := by
  cases op with
  | setCAS key value expectedIndex =>
    simp only [apply, KVStore.setCAS, KVTable.setCAS, h, and_true]
    cases kv.toKVTable.checkSetCAS key expectedIndex <;> simp only [KVTable.nextIndex]
  | batchSetCAS items expectedIndices check range watch =>
    simp only [apply, KVStore.batchSetCAS, h, true_and]
    cases kv.toKVTable.checkSetAll check.list expectedIndices <;> simp only
  | _ => simp only [apply, and_self]

theorem alike_apply {kv kv' : KVStore} (h : kv.Alike kv') (op : KVOp) :
    (op.apply kv).1.Alike (op.apply kv').1 ∧ (op.apply kv').2 = (op.apply kv).2 := by
  have hfault : (op.apply kv').1.fault = (op.apply kv).1.fault := by
    rw [fault_apply, fault_apply, h.fault]
  cases hcheck : op.check kv.toKVTable with
  | some err =>
    have hcheck' : op.check kv'.toKVTable = some err := by rw [h.table, hcheck]
    refine ⟨⟨?_, hfault⟩, ?_⟩
    · rw [apply_of_check_some hcheck, apply_of_check_some hcheck']
      exact h.table
    · rw [apply_of_check_some hcheck, apply_of_check_some hcheck']
  | none =>
    have hcheck' : op.check kv'.toKVTable = none := by rw [h.table, hcheck]
    obtain ⟨hindex, hindices⟩ := indices_apply h.table op
    have herr : (op.apply kv').2.err = (op.apply kv).2.err := by
      rw [apply_err hcheck, apply_err hcheck', h.fault]
    refine ⟨⟨?_, hfault⟩, ?_⟩
    · rw [apply_toKVTable hcheck, apply_toKVTable hcheck', h.table]
    · cases hresult : (op.apply kv').2
      cases hresult' : (op.apply kv).2
      simp only [hresult, hresult'] at hindex hindices herr
      rw [hindex, hindices, herr]

end KVOp

/-! ### The service store -/

namespace ServiceStore

structure Alike (s s' : ServiceStore) : Prop where
  data : s'.data = s.data
  globalIndex : s'.globalIndex = s.globalIndex
  ttl : s'.ttl = s.ttl
  faults : s'.faults = s.faults
  exact : s.toServiceTable.Exact
  exact' : s'.toServiceTable.Exact

/-- All but the indexes of the tables. -/
structure Near (s s' : ServiceStore) : Prop where
  data : s'.data = s.data
  globalIndex : s'.globalIndex = s.globalIndex
  ttl : s'.ttl = s.ttl
  faults : s'.faults = s.faults

variable {s s' : ServiceStore}

theorem Alike.near (h : s.Alike s') : s.Near s' := ⟨h.data, h.globalIndex, h.ttl, h.faults⟩

theorem Near.persist (h : s.Near s') (update : Engine → Engine)
    (hupdate : ∀ m, (update m).fault = m.fault) :
    (s.persist (·.attempt update)).1.Near (s'.persist (·.attempt update)).1 ∧
      (s'.persist (·.attempt update)).2 = (s.persist (·.attempt update)).2 := by
  obtain ⟨httl, -, hfaults, herr⟩ := s.persist_attempt update hupdate
  obtain ⟨httl', -, hfaults', herr'⟩ := s'.persist_attempt update hupdate
  have htable := s.persist_toServiceTable (·.attempt update)
  have htable' := s'.persist_toServiceTable (·.attempt update)
  refine ⟨⟨?_, ?_, ?_, ?_⟩, ?_⟩
  · rw [htable, htable', h.data]
  · rw [htable, htable', h.globalIndex]
  · rw [httl, httl', h.ttl]
  · rw [hfaults, hfaults', h.faults]
  · rw [herr, herr', h.faults]

theorem Near.persistEntry (h : s.Near s') (env : StoreEnv) (name : GoString)
    (entry : ServiceEntry) :
    (s.persistEntry env name entry).1.Near (s'.persistEntry env name entry).1 ∧
      (s'.persistEntry env name entry).2 = (s.persistEntry env name entry).2 := by
  have hfaults := h.faults
  unfold ServiceStore.persistEntry
  cases hm : s.engine with
  | none =>
    cases hm' : s'.engine with
    | none => exact ⟨h, rfl⟩
    | some m' => simp [ServiceStore.faults, hm, hm'] at hfaults
  | some m =>
    cases hm' : s'.engine with
    | none => simp [ServiceStore.faults, hm, hm'] at hfaults
    | some m' =>
      cases env.marshalEntry entry with
      | error err => exact ⟨h, rfl⟩
      | ok data =>
        simp only [h.ttl]
        exact h.persist (fun m => { m with svcData := m.svcData.insert name ⟨data, env.now + s.ttl⟩ })
          fun _ => rfl

theorem Near.registered (h : s.Near s') (env : StoreEnv) (service : Service) :
    (s.registered env service).1.Near (s'.registered env service).1 ∧
      (s'.registered env service).2 = (s.registered env service).2 := by
  have hentry : s'.toServiceTable.newEntry (completeChecks env.toEnv service) (env.now + s.ttl) =
      s.toServiceTable.newEntry (completeChecks env.toEnv service) (env.now + s.ttl) := by
    simp only [ServiceTable.newEntry, ServiceTable.nextIndex, h.data, h.globalIndex]
  have hput : Near
      { s with
        toServiceTable := s.toServiceTable.put (completeChecks env.toEnv service) (env.now + s.ttl)
        healthManager := addChecks s.healthManager env.toEnv
          (completeChecks env.toEnv service).checks }
      { s' with
        toServiceTable := s'.toServiceTable.put (completeChecks env.toEnv service) (env.now + s.ttl)
        ttl := s.ttl
        healthManager := addChecks s'.healthManager env.toEnv
          (completeChecks env.toEnv service).checks } := by
    refine ⟨?_, ?_, rfl, h.faults⟩
    · rw [ServiceTable.put_data, ServiceTable.put_data, hentry, h.data]
    · rw [ServiceTable.put_globalIndex, ServiceTable.put_globalIndex, h.globalIndex]
  unfold ServiceStore.registered
  simp only [h.ttl, hentry]
  exact hput.persistEntry env _ _

theorem Near.removed (h : s.Near s') (name : GoString) :
    ({ s with toServiceTable := s.toServiceTable.remove name }.persist (·.deleteService name)).1.Near
        ({ s' with toServiceTable := s'.toServiceTable.remove name }.persist
          (·.deleteService name)).1 ∧
      ({ s' with toServiceTable := s'.toServiceTable.remove name }.persist
          (·.deleteService name)).2 =
        ({ s with toServiceTable := s.toServiceTable.remove name }.persist
          (·.deleteService name)).2 := by
  have hremove : Near { s with toServiceTable := s.toServiceTable.remove name }
      { s' with toServiceTable := s'.toServiceTable.remove name } := by
    refine ⟨?_, ?_, h.ttl, h.faults⟩
    · rw [ServiceTable.remove_data, ServiceTable.remove_data, h.data]
    · rw [ServiceTable.remove_globalIndex, ServiceTable.remove_globalIndex, h.globalIndex]
  exact hremove.persist (fun m => { m with svcData := m.svcData.erase name }) fun _ => rfl

theorem Near.withTable (h : s.Near s') {t t' : ServiceTable} (hdata : t'.data = t.data)
    (hindex : t'.globalIndex = t.globalIndex) :
    Near { s with toServiceTable := t } { s' with toServiceTable := t' } :=
  ⟨hdata, hindex, h.ttl, h.faults⟩

theorem Near.putLocal (h : s.Near s') (service : Service) (now : Time) :
    Near { s with toServiceTable := s.toServiceTable.put service (now + s.ttl) }
      { s' with toServiceTable := s'.toServiceTable.put service (now + s'.ttl) } := by
  refine h.withTable ?_ ?_
  · rw [ServiceTable.put_data, ServiceTable.put_data, h.data, h.ttl]
    simp only [ServiceTable.newEntry, ServiceTable.nextIndex, h.data, h.globalIndex]
  · rw [ServiceTable.put_globalIndex, ServiceTable.put_globalIndex, h.globalIndex]

theorem Near.removeLocal (h : s.Near s') (name : GoString) :
    Near { s with toServiceTable := s.toServiceTable.remove name }
      { s' with toServiceTable := s'.toServiceTable.remove name } := by
  refine h.withTable ?_ ?_
  · rw [ServiceTable.remove_data, ServiceTable.remove_data, h.data]
  · rw [ServiceTable.remove_globalIndex, ServiceTable.remove_globalIndex, h.globalIndex]

theorem Near.touchLocal (h : s.Near s') (name : GoString) (entry : ServiceEntry) (now : Time) :
    Near { s with toServiceTable := s.toServiceTable.touch name entry (now + s.ttl) }
      { s' with toServiceTable := s'.toServiceTable.touch name entry (now + s'.ttl) } := by
  refine h.withTable ?_ h.globalIndex
  simp only [ServiceTable.touch, h.data, h.ttl]

theorem Near.cleanup (h : s.Near s') (now : Time) :
    (s.cleanupExpired now).1.Near (s'.cleanupExpired now).1 ∧
      (s'.cleanupExpired now).2 = (s.cleanupExpired now).2 := by
  obtain ⟨httl, -, hfaults⟩ := s.cleanupExpired_keeps now
  obtain ⟨httl', -, hfaults'⟩ := s'.cleanupExpired_keeps now
  have hexpired : s'.toServiceTable.expired now = s.toServiceTable.expired now := by
    simp only [ServiceTable.expired, GoMap.list_sorted_congr h.data]
  have htable := s.cleanupExpired_toServiceTable now
  have htable' := s'.cleanupExpired_toServiceTable now
  refine ⟨⟨?_, ?_, ?_, ?_⟩, ?_⟩
  · rw [htable, htable', ServiceTable.removeAll_data, ServiceTable.removeAll_data, hexpired, h.data]
  · rw [htable, htable', ServiceTable.removeAll_globalIndex, ServiceTable.removeAll_globalIndex,
      h.globalIndex]
  · rw [httl, httl', h.ttl]
  · rw [hfaults, hfaults', h.faults]
  · exact congrArg List.length hexpired

/-! ### Reads -/

theorem Near.scan_eq (h : s.Near s') (now : Time) (p : Service → Bool) :
    s'.toServiceTable.scan now p = s.toServiceTable.scan now p := by
  simp only [ServiceTable.scan, GoMap.list_sorted_congr h.data]

theorem Near.getEntry_eq (h : s.Near s') (now : Time) (name : GoString) :
    s'.getEntry now name = s.getEntry now name := by
  simp only [ServiceStore.getEntry, h.data]

theorem Near.list_eq (h : s.Near s') (now : Time) (range : s.data.Order) (range' : s'.data.Order) :
    (s'.toServiceTable.list now range' : Multiset Service) = s.toServiceTable.list now range := by
  rw [ServiceTable.coe_list, ServiceTable.coe_list, h.scan_eq]

theorem Alike.queryByTags_eq (h : s.Alike s') (now : Time) {tags : List GoString}
    (htags : tags ≠ []) (range : s.data.Order) (range' : s'.data.Order) :
    s'.toServiceTable.queryByTags now tags range' = s.toServiceTable.queryByTags now tags range := by
  rw [ServiceTable.queryByTags_eq_scan h.exact.mirrored now htags,
    ServiceTable.queryByTags_eq_scan h.exact'.mirrored now htags, h.near.scan_eq]

theorem Alike.queryByMetadata_eq (h : s.Alike s') (now : Time)
    {filters : GoMap GoString GoString} (hfilters : filters.keys.card ≠ 0)
    (first rest : filters.Order) (range : s.data.Order) (range' : s'.data.Order) :
    s'.toServiceTable.queryByMetadata now filters first rest range' =
      s.toServiceTable.queryByMetadata now filters first rest range := by
  rw [ServiceTable.queryByMetadata_eq_scan h.exact.mirrored now hfilters,
    ServiceTable.queryByMetadata_eq_scan h.exact'.mirrored now hfilters, h.near.scan_eq]

end ServiceStore

/-! ### One call -/

namespace ServiceCall

/-- All but the updates of TTL checks, which go to the health manager. -/
def OfStore : ServiceCall → Prop
  | updateTTLCheck _ => False
  | _ => True

variable {s s' : ServiceStore}

theorem near_apply (h : s.Alike s') (env : StoreEnv) {call : ServiceCall} (hcall : call.OfStore) :
    (call.apply s env).1.Near (call.apply s' env).1 ∧
      (call.apply s' env).2 = (call.apply s env).2 := by
  have hnear := h.near
  cases call with
  | register service range =>
    simp only [apply, ServiceStore.register]
    cases validateService service range with
    | some err => exact ⟨hnear, rfl⟩
    | none =>
      obtain ⟨hnext, herr⟩ := hnear.registered env service
      exact ⟨hnext, congrArg ServiceAnswer.done herr⟩
  | registerCAS service range expectedIndex =>
    have hcheck : s'.toServiceTable.checkRegisterCAS service.name expectedIndex =
        s.toServiceTable.checkRegisterCAS service.name expectedIndex := by
      simp only [ServiceTable.checkRegisterCAS, h.data]
    simp only [apply, ServiceStore.registerCAS, hcheck]
    cases validateService service range with
    | some err => exact ⟨hnear, rfl⟩
    | none =>
      cases s.toServiceTable.checkRegisterCAS service.name expectedIndex with
      | some err => exact ⟨hnear, rfl⟩
      | none =>
        obtain ⟨hnext, herr⟩ := hnear.registered env service
        have hindex : s'.toServiceTable.nextIndex = s.toServiceTable.nextIndex := by
          rw [ServiceTable.nextIndex, ServiceTable.nextIndex, h.globalIndex]
        refine ⟨hnext, ?_⟩
        simp only [herr, hindex]
  | heartbeat name =>
    simp only [apply, ServiceStore.heartbeat, h.data]
    cases s.data.lookup name with
    | none => exact ⟨hnear, rfl⟩
    | some entry =>
      have hnext := ((hnear.touchLocal name entry env.now).persistEntry env name
        { entry with expiresAt := env.now + s.ttl }).1
      simp only [h.ttl] at hnext ⊢
      exact ⟨hnext, trivial⟩
  | deregister name => exact ⟨(hnear.removed name).1, rfl⟩
  | deregisterCAS name expectedIndex =>
    have hcheck : s'.toServiceTable.checkDeregisterCAS name expectedIndex =
        s.toServiceTable.checkDeregisterCAS name expectedIndex := by
      simp only [ServiceTable.checkDeregisterCAS, h.data]
    simp only [apply, ServiceStore.deregisterCAS, hcheck]
    cases s.toServiceTable.checkDeregisterCAS name expectedIndex with
    | some err => exact ⟨hnear, rfl⟩
    | none =>
      obtain ⟨hnext, herr⟩ := hnear.removed name
      exact ⟨hnext, congrArg ServiceAnswer.done herr⟩
  | registerLocal serviceData range =>
    simp only [apply, ServiceStore.registerLocal]
    cases validateService serviceData.toService range with
    | some err => exact ⟨hnear, rfl⟩
    | none => exact ⟨hnear.putLocal serviceData.toService env.now, rfl⟩
  | registerCASLocal serviceData range expectedIndex =>
    have hcheck : s'.toServiceTable.checkRegisterCAS serviceData.name expectedIndex =
        s.toServiceTable.checkRegisterCAS serviceData.name expectedIndex := by
      simp only [ServiceTable.checkRegisterCAS, h.data]
    simp only [apply, ServiceStore.registerCASLocal, hcheck]
    cases validateService serviceData.toService range with
    | some err => exact ⟨hnear, rfl⟩
    | none =>
      cases s.toServiceTable.checkRegisterCAS serviceData.name expectedIndex with
      | some err => exact ⟨hnear, rfl⟩
      | none =>
        have hindex : s'.toServiceTable.nextIndex = s.toServiceTable.nextIndex := by
          rw [ServiceTable.nextIndex, ServiceTable.nextIndex, h.globalIndex]
        refine ⟨hnear.putLocal serviceData.toService env.now, ?_⟩
        simp only [hindex]
  | heartbeatLocal name =>
    simp only [apply, ServiceStore.heartbeatLocal, h.data]
    cases s.data.lookup name with
    | none => exact ⟨hnear, rfl⟩
    | some entry => exact ⟨hnear.touchLocal name entry env.now, rfl⟩
  | deregisterLocal name => exact ⟨hnear.removeLocal name, rfl⟩
  | deregisterCASLocal name expectedIndex =>
    have hcheck : s'.toServiceTable.checkDeregisterCAS name expectedIndex =
        s.toServiceTable.checkDeregisterCAS name expectedIndex := by
      simp only [ServiceTable.checkDeregisterCAS, h.data]
    simp only [apply, ServiceStore.deregisterCASLocal, hcheck]
    cases s.toServiceTable.checkDeregisterCAS name expectedIndex with
    | some err => exact ⟨hnear, rfl⟩
    | none => exact ⟨hnear.removeLocal name, rfl⟩
  | updateTTLCheck checkID => exact hcall.elim
  | cleanupExpired =>
    obtain ⟨hnext, hcount⟩ := hnear.cleanup env.now
    exact ⟨hnext, congrArg ServiceAnswer.removed hcount⟩
  | get name =>
    exact ⟨hnear, congrArg (fun e : Option ServiceEntry => ServiceAnswer.service
      (e.map ServiceEntry.service)) (hnear.getEntry_eq env.now name)⟩
  | getEntry name => exact ⟨hnear, congrArg ServiceAnswer.entry (hnear.getEntry_eq env.now name)⟩
  | list range =>
    exact ⟨hnear, congrArg ServiceAnswer.unordered (hnear.list_eq env.now _ _)⟩
  | queryByTags tags range =>
    refine ⟨hnear, ?_⟩
    simp only [apply]
    split_ifs with htags
    · subst htags
      exact congrArg ServiceAnswer.unordered (hnear.list_eq env.now _ _)
    · exact congrArg ServiceAnswer.ordered (h.queryByTags_eq env.now htags _ _)
  | queryByMetadata filters first rest range =>
    refine ⟨hnear, ?_⟩
    simp only [apply]
    split_ifs with hfilters
    · simp only [ServiceTable.queryByMetadata_of_empty hfilters]
      exact congrArg ServiceAnswer.unordered (hnear.list_eq env.now _ _)
    · exact congrArg ServiceAnswer.ordered (h.queryByMetadata_eq env.now hfilters _ _ _ _)
  | queryByTagsAndMetadata later tags filters first rest range =>
    refine ⟨hnear, ?_⟩
    simp only [apply]
    by_cases htags : tags = []
    · by_cases hfilters : filters.keys.card = 0
      · simp only [htags, hfilters, and_self, ite_true, ServiceTable.queryByTagsAndMetadata,
          ServiceTable.queryByMetadata_of_empty hfilters]
        exact congrArg ServiceAnswer.unordered (hnear.list_eq env.now _ _)
      · simp only [htags, hfilters, and_false, ite_true, ite_false,
          ServiceTable.queryByTagsAndMetadata]
        exact congrArg ServiceAnswer.ordered (h.queryByMetadata_eq env.now hfilters _ _ _ _)
    · by_cases hfilters : filters.keys.card = 0
      · simp only [htags, hfilters, false_and, ite_true, ite_false,
          ServiceTable.queryByTagsAndMetadata]
        exact congrArg ServiceAnswer.ordered (h.queryByTags_eq env.now htags _ _)
      · simp only [htags, hfilters, and_self, ite_false, ServiceTable.queryByTagsAndMetadata,
          h.queryByTags_eq env.now htags (range s.data) (range s'.data),
          h.queryByMetadata_eq later hfilters first rest (range s.data) (range s'.data)]

theorem alike_apply (h : s.Alike s') (env : StoreEnv) {call : ServiceCall}
    (hcall : call.OfStore) :
    (call.apply s env).1.Alike (call.apply s' env).1 ∧
      (call.apply s' env).2 = (call.apply s env).2 := by
  obtain ⟨hnear, hanswer⟩ := near_apply h env hcall
  have hexact := h.exact.moves (moves s env call)
  have hexact' := h.exact'.moves (moves s' env call)
  exact ⟨⟨hnear.data, hnear.globalIndex, hnear.ttl, hnear.faults, hexact, hexact'⟩, hanswer⟩

end ServiceCall

end Konsul
