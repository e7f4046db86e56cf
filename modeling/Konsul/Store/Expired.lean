import Konsul.Lib.Machine
import Konsul.Store.Atomicity
import Konsul.Store.ServiceQuery

/-!
# A service that has expired is as good as removed

`ServiceCall` is an operation of the service store at its time. A store `Trails`
another one if it lacks some services that have expired there. Reads and
queries cannot tell the two apart; a registration, a heartbeat and a
compare-and-swap can, and only by the service they name. So a cleanup can be
inserted anywhere in a run none of whose operations names an expired service.
-/

namespace Konsul

open GoLib

inductive ServiceCall where
  | register (service : Service) (range : service.metadata.Order)
  | registerCAS (service : Service) (range : service.metadata.Order) (expectedIndex : UInt64)
  | heartbeat (name : GoString)
  | deregister (name : GoString)
  | deregisterCAS (name : GoString) (expectedIndex : UInt64)
  | registerLocal (serviceData : ServiceDataSnapshot) (range : serviceData.metadata.Order)
  | registerCASLocal (serviceData : ServiceDataSnapshot) (range : serviceData.metadata.Order)
      (expectedIndex : UInt64)
  | heartbeatLocal (name : GoString)
  | deregisterLocal (name : GoString)
  | deregisterCASLocal (name : GoString) (expectedIndex : UInt64)
  | updateTTLCheck (checkID : GoString)
  | cleanupExpired
  | get (name : GoString)
  | getEntry (name : GoString)
  | list (range : (m : GoMap GoString ServiceEntry) → m.Order)
  | queryByTags (tags : List GoString) (range : (m : GoMap GoString ServiceEntry) → m.Order)
  | queryByMetadata (filters : GoMap GoString GoString) (first rest : filters.Order)
      (range : (m : GoMap GoString ServiceEntry) → m.Order)
  /-- `later` is the time of its second query. -/
  | queryByTagsAndMetadata (later : Time) (tags : List GoString)
      (filters : GoMap GoString GoString) (first rest : filters.Order)
      (range : (m : GoMap GoString ServiceEntry) → m.Order)

/-- What an operation returns. A list in the order of a map is compared as a multiset. -/
inductive ServiceAnswer where
  | done (err : Option GoError)
  | index (newIndex : UInt64) (err : Option GoError)
  | found (b : Bool)
  | removed (count : ℕ)
  | service (s : Option Service)
  | entry (e : Option ServiceEntry)
  | unordered (services : Multiset Service)
  | ordered (services : List Service)

namespace ServiceCall

def apply (s : ServiceStore) (env : StoreEnv) : ServiceCall → ServiceStore × ServiceAnswer
  | register service range =>
    let r := s.register env service range
    (r.1, .done r.2)
  | registerCAS service range expectedIndex =>
    let r := s.registerCAS env service range expectedIndex
    (r.1, .index r.2.1 r.2.2)
  | heartbeat name =>
    let r := s.heartbeat env name
    (r.1, .found r.2)
  | deregister name => (s.deregister name, .done none)
  | deregisterCAS name expectedIndex =>
    let r := s.deregisterCAS name expectedIndex
    (r.1, .done r.2)
  | registerLocal serviceData range =>
    let r := s.registerLocal env.now serviceData range
    (r.1, .done r.2)
  | registerCASLocal serviceData range expectedIndex =>
    let r := s.registerCASLocal env.now serviceData range expectedIndex
    (r.1, .index r.2.1 r.2.2)
  | heartbeatLocal name =>
    let r := s.heartbeatLocal env.now name
    (r.1, .found r.2)
  | deregisterLocal name => (s.deregisterLocal name, .done none)
  | deregisterCASLocal name expectedIndex =>
    let r := s.deregisterCASLocal name expectedIndex
    (r.1, .done r.2)
  | updateTTLCheck checkID =>
    let r := s.updateTTLCheck env.now checkID
    (r.1, .done r.2)
  | cleanupExpired =>
    let r := s.cleanupExpired env.now
    (r.1, .removed r.2)
  | get name => (s, .service (s.get env.now name))
  | getEntry name => (s, .entry (s.getEntry env.now name))
  | list range => (s, .unordered (s.toServiceTable.list env.now (range s.data)))
  | queryByTags tags range =>
    let services := s.toServiceTable.queryByTags env.now tags (range s.data)
    (s, if tags = [] then .unordered services else .ordered services)
  | queryByMetadata filters first rest range =>
    let services := s.toServiceTable.queryByMetadata env.now filters first rest (range s.data)
    (s, if filters.keys.card = 0 then .unordered services else .ordered services)
  | queryByTagsAndMetadata later tags filters first rest range =>
    let services := s.toServiceTable.queryByTagsAndMetadata env.now later tags filters first rest
      (range s.data)
    (s, if tags = [] ∧ filters.keys.card = 0 then .unordered services else .ordered services)

/-- The times at which the operation looks at the clock. -/
def clock (now : Time) : ServiceCall → List Time
  | queryByTagsAndMetadata later _ _ _ _ _ => [now, later]
  | _ => [now]

/-- The service a write goes by: what it does depends on whether it is there. -/
def goesBy : ServiceCall → Option GoString
  | register service _ => if service.Valid then some service.name else none
  | registerCAS service _ _ => if service.Valid then some service.name else none
  | heartbeat name => some name
  | deregisterCAS name _ => some name
  | registerLocal serviceData _ =>
    if serviceData.toService.Valid then some serviceData.name else none
  | registerCASLocal serviceData _ _ =>
    if serviceData.toService.Valid then some serviceData.name else none
  | heartbeatLocal name => some name
  | deregisterCASLocal name _ => some name
  | _ => none

theorem now_mem_clock (call : ServiceCall) (now : Time) : now ∈ call.clock now := by
  cases call <;> exact List.mem_cons_self ..

end ServiceCall

/-! ### Trailing tables -/

namespace ServiceTable

/-- `t'` is `t` without some of the services that had expired by `now`. -/
structure Trails (now : Time) (t t' : ServiceTable) : Prop where
  lookup : ∀ name, t'.data.lookup name = t.data.lookup name ∨
    t'.data.lookup name = none ∧ ∃ e, t.data.lookup name = some e ∧ e.expiresAt < now
  globalIndex : t'.globalIndex = t.globalIndex
  indexed : t.Indexed
  indexed' : t'.Indexed

variable {now later : Time} {t t' : ServiceTable}

theorem Trails.refl (h : t.Indexed) (now : Time) : Trails now t t :=
  ⟨fun _ => Or.inl rfl, rfl, h, h⟩

theorem Trails.mono (h : Trails now t t') (hle : now ≤ later) : Trails later t t' := by
  refine ⟨fun name => ?_, h.globalIndex, h.indexed, h.indexed'⟩
  rcases h.lookup name with heq | ⟨hnone, e, he, hexp⟩
  · exact Or.inl heq
  · exact Or.inr ⟨hnone, e, he, lt_of_lt_of_le hexp hle⟩

/-- A service that has not expired is in both or in neither. -/
theorem Trails.lookup_eq (h : Trails now t t') (hle : now ≤ later) {name : GoString}
    (hlive : name ∉ t.expired later) : t'.data.lookup name = t.data.lookup name := by
  rcases h.lookup name with heq | ⟨-, e, he, hexp⟩
  · exact heq
  · exact absurd ((t.mem_expired_iff later name).mpr ⟨e, he, lt_of_lt_of_le hexp hle⟩) hlive

theorem Trails.bind_eq (h : Trails now t t') (hle : now ≤ later) {W : Type}
    {f : ServiceEntry → Option W} (hf : ∀ e : ServiceEntry, e.expiresAt < later → f e = none)
    (name : GoString) : (t.data.lookup name).bind f = (t'.data.lookup name).bind f := by
  rcases h.lookup name with heq | ⟨hnone, e, he, hexp⟩
  · rw [heq]
  · rw [hnone, he, Option.bind_some, hf e (lt_of_lt_of_le hexp hle)]
    rfl

theorem Trails.put (h : Trails now t t') (service : Service) (expiresAt : Time)
    (hsame : t'.data.lookup service.name = t.data.lookup service.name) :
    Trails now (t.put service expiresAt) (t'.put service expiresAt) := by
  have hentry : t'.newEntry service expiresAt = t.newEntry service expiresAt := by
    simp only [newEntry, nextIndex, hsame, h.globalIndex]
  refine ⟨fun name => ?_, ?_, h.indexed.put service expiresAt, h.indexed'.put service expiresAt⟩
  · simp only [put_data, GoMap.lookup_insert_ite, hentry]
    split_ifs with hname
    · exact Or.inl rfl
    · exact h.lookup name
  · rw [put_globalIndex, put_globalIndex, h.globalIndex]

theorem Trails.remove (h : Trails now t t') (name : GoString) :
    Trails now (t.remove name) (t'.remove name) := by
  refine ⟨fun n => ?_, ?_, h.indexed.remove name, h.indexed'.remove name⟩
  · simp only [remove_data, GoMap.lookup_erase_ite]
    split_ifs with hn
    · exact Or.inl rfl
    · exact h.lookup n
  · rw [remove_globalIndex, remove_globalIndex, h.globalIndex]

theorem Trails.touch (h : Trails now t t') {name : GoString} {entry : ServiceEntry}
    (hentry : t.data.lookup name = some entry) (hentry' : t'.data.lookup name = some entry)
    (expiresAt : Time) :
    Trails now (t.touch name entry expiresAt) (t'.touch name entry expiresAt) := by
  refine ⟨fun n => ?_, h.globalIndex, h.indexed.touch hentry expiresAt,
    h.indexed'.touch hentry' expiresAt⟩
  simp only [ServiceTable.touch, GoMap.lookup_insert_ite]
  split_ifs with hn
  · exact Or.inl rfl
  · exact h.lookup n

theorem Trails.clean_right (h : t.Indexed) (now : Time) :
    Trails now t (t.removeAll (t.expired now)) := by
  refine ⟨fun name => ?_, t.removeAll_globalIndex _, h, h.removeAll _⟩
  rw [removeAll_data, GoMap.lookup_eraseAll]
  split_ifs with hname
  · exact Or.inr ⟨rfl, (t.mem_expired_iff now name).mp hname⟩
  · exact Or.inl rfl

theorem Trails.clean (h : Trails now t t') (hle : now ≤ later) :
    Trails later (t.removeAll (t.expired later)) (t'.removeAll (t'.expired later)) := by
  refine ⟨fun name => Or.inl ?_, ?_, h.indexed.removeAll _, h.indexed'.removeAll _⟩
  · simp only [removeAll_data, GoMap.lookup_eraseAll, mem_expired_iff]
    rcases h.lookup name with heq | ⟨hnone, e, he, hexp⟩
    · simp only [heq]
    · have hexp' : ∃ e, t.data.lookup name = some e ∧ e.expiresAt < later :=
        ⟨e, he, lt_of_lt_of_le hexp hle⟩
      rw [if_pos hexp', hnone]
      split_ifs <;> rfl
  · rw [removeAll_globalIndex, removeAll_globalIndex, h.globalIndex]

/-! ### Queries -/

theorem coe_list (t : ServiceTable) (now : Time) (range : t.data.Order) :
    (t.list now range : Multiset Service) = (t.scan now fun _ => true : List Service) := by
  rw [list, scan, Multiset.coe_eq_coe]
  simp only [and_true]
  exact (range.perm (GoMap.sorted t.data)).filterMap _

theorem Trails.scan_eq (h : Trails now t t') (hle : now ≤ later) (p : Service → Bool) :
    t'.scan later p = t.scan later p := by
  let f (_ : GoString) (entry : ServiceEntry) : Option Service :=
    if entry.expiresAt > later ∧ p entry.service then some entry.service else none
  refine GoMap.filterMap_sorted_congr (f := f) (g := f) fun name => ?_
  refine (h.bind_eq hle (fun e hexp => ?_) name).symm
  exact if_neg fun hfound => absurd hfound.1 (not_lt.mpr hexp.le)

theorem Trails.queryByTags_eq (h : Trails now t t') (hle : now ≤ later) {tags : List GoString}
    (htags : tags ≠ []) (range : t.data.Order) (range' : t'.data.Order) :
    t'.queryByTags later tags range' = t.queryByTags later tags range := by
  rw [queryByTags_eq_scan h.indexed.mirror later htags,
    queryByTags_eq_scan h.indexed'.mirror later htags,
    h.scan_eq hle]

theorem Trails.queryByMetadata_eq (h : Trails now t t') (hle : now ≤ later)
    {filters : GoMap GoString GoString} (hfilters : filters.keys.card ≠ 0)
    (first rest : filters.Order) (range : t.data.Order) (range' : t'.data.Order) :
    t'.queryByMetadata later filters first rest range' =
      t.queryByMetadata later filters first rest range := by
  rw [queryByMetadata_eq_scan h.indexed.mirror later hfilters,
    queryByMetadata_eq_scan h.indexed'.mirror later hfilters, h.scan_eq hle]

theorem Trails.coe_list_eq (h : Trails now t t') (hle : now ≤ later) (range : t.data.Order)
    (range' : t'.data.Order) :
    (t'.list later range' : Multiset Service) = t.list later range := by
  rw [coe_list, coe_list, h.scan_eq hle]

theorem queryByMetadata_of_empty {filters : GoMap GoString GoString}
    (hfilters : filters.keys.card = 0) (t : ServiceTable) (now : Time) (first rest : filters.Order)
    (range : t.data.Order) : t.queryByMetadata now filters first rest range = t.list now range := by
  have hnil : first.list = [] := List.length_eq_zero_iff.mp (first.length_list.trans hfilters)
  rw [queryByMetadata, hnil]

end ServiceTable

/-! ### Trailing stores -/

namespace ServiceStore

/-- Whether calls of the engine fail, if there is one. -/
def faults (s : ServiceStore) : Option (Option GoError) := s.engine.map Engine.fault

structure Trails (now : Time) (s s' : ServiceStore) : Prop where
  table : ServiceTable.Trails now s.toServiceTable s'.toServiceTable
  ttl : s'.ttl = s.ttl
  healthManager : s'.healthManager = s.healthManager
  faults : s'.faults = s.faults

variable {now later : Time} {s s' : ServiceStore}

theorem Trails.mono (h : Trails now s s') (hle : now ≤ later) : Trails later s s' :=
  ⟨h.table.mono hle, h.ttl, h.healthManager, h.faults⟩

theorem Trails.withTable (h : Trails now s s') {t t' : ServiceTable}
    (ht : ServiceTable.Trails later t t') :
    Trails later { s with toServiceTable := t } { s' with toServiceTable := t' } :=
  ⟨ht, h.ttl, h.healthManager, h.faults⟩

/-- A call of the engine keeps all but the engine's contents, and fails if the engine does. -/
theorem persist_attempt (s : ServiceStore) (update : Engine → Engine)
    (hupdate : ∀ m, (update m).fault = m.fault) :
    (s.persist (·.attempt update)).1.ttl = s.ttl ∧
      (s.persist (·.attempt update)).1.healthManager = s.healthManager ∧
      (s.persist (·.attempt update)).1.faults = s.faults ∧
      (s.persist (·.attempt update)).2 = s.faults.getD none := by
  unfold persist
  cases hm : s.engine with
  | none => exact ⟨rfl, rfl, rfl, by rw [faults, hm]; rfl⟩
  | some m =>
    refine ⟨rfl, rfl, ?_, ?_⟩
    · have hfault : (m.attempt update).1.fault = m.fault := by
        unfold Engine.attempt
        split
        · rfl
        · exact hupdate m
      rw [faults, faults, hm, Option.map_some, Option.map_some, hfault]
    · rw [faults, hm]
      exact m.attempt_err update

theorem Trails.persist (h : Trails now s s') (update : Engine → Engine)
    (hupdate : ∀ m, (update m).fault = m.fault) :
    Trails now (s.persist (·.attempt update)).1 (s'.persist (·.attempt update)).1 ∧
      (s'.persist (·.attempt update)).2 = (s.persist (·.attempt update)).2 := by
  obtain ⟨httl, hmanager, hfaults, herr⟩ := s.persist_attempt update hupdate
  obtain ⟨httl', hmanager', hfaults', herr'⟩ := s'.persist_attempt update hupdate
  refine ⟨⟨?_, ?_, ?_, ?_⟩, ?_⟩
  · rw [persist_toServiceTable, persist_toServiceTable]
    exact h.table
  · rw [httl, httl', h.ttl]
  · rw [hmanager, hmanager', h.healthManager]
  · rw [hfaults, hfaults', h.faults]
  · rw [herr, herr', h.faults]

theorem Trails.persistEntry (h : Trails now s s') (env : StoreEnv) (name : GoString)
    (entry : ServiceEntry) :
    Trails now (s.persistEntry env name entry).1 (s'.persistEntry env name entry).1 ∧
      (s'.persistEntry env name entry).2 = (s.persistEntry env name entry).2 := by
  have hfaults := h.faults
  unfold ServiceStore.persistEntry
  cases hm : s.engine with
  | none =>
    rw [ServiceStore.faults, ServiceStore.faults, hm, Option.map_none, Option.map_eq_none_iff]
      at hfaults
    rw [hfaults]
    exact ⟨h, rfl⟩
  | some m =>
    rw [ServiceStore.faults, ServiceStore.faults, hm, Option.map_some, Option.map_eq_some_iff]
      at hfaults
    obtain ⟨m', hm', -⟩ := hfaults
    rw [hm']
    dsimp only
    cases env.marshalEntry entry with
    | error err => exact ⟨h, rfl⟩
    | ok data =>
      dsimp only
      rw [h.ttl]
      exact h.persist _ fun _ => rfl

theorem Trails.registered (h : Trails now s s') (env : StoreEnv) (service : Service)
    (hsees : s'.data.lookup service.name = s.data.lookup service.name) :
    Trails now (s.registered env service).1 (s'.registered env service).1 ∧
      (s'.registered env service).2 = (s.registered env service).2 := by
  have hput := h.table.put (completeChecks env.toEnv service) (env.now + s.ttl) hsees
  have hentry : s'.toServiceTable.newEntry (completeChecks env.toEnv service) (env.now + s.ttl) =
      s.toServiceTable.newEntry (completeChecks env.toEnv service) (env.now + s.ttl) := by
    have hlookup : s'.data.lookup (completeChecks env.toEnv service).name =
        s.data.lookup (completeChecks env.toEnv service).name := hsees
    simp only [ServiceTable.newEntry, ServiceTable.nextIndex, hlookup, h.table.globalIndex]
  have htrails : Trails now
      { s with
        toServiceTable := s.toServiceTable.put (completeChecks env.toEnv service) (env.now + s.ttl)
        healthManager := addChecks s.healthManager env.toEnv
          (completeChecks env.toEnv service).checks }
      { s' with
        toServiceTable := s'.toServiceTable.put (completeChecks env.toEnv service) (env.now + s.ttl)
        ttl := s.ttl
        healthManager := addChecks s.healthManager env.toEnv
          (completeChecks env.toEnv service).checks } := ⟨hput, rfl, rfl, h.faults⟩
  unfold ServiceStore.registered
  simp only [h.ttl, hentry, h.healthManager]
  exact htrails.persistEntry env _ _

theorem Trails.removed (h : Trails now s s') (name : GoString) :
    Trails now
        ({ s with toServiceTable := s.toServiceTable.remove name }.persist
          (·.deleteService name)).1
        ({ s' with toServiceTable := s'.toServiceTable.remove name }.persist
          (·.deleteService name)).1 ∧
      ({ s' with toServiceTable := s'.toServiceTable.remove name }.persist
          (·.deleteService name)).2 =
        ({ s with toServiceTable := s.toServiceTable.remove name }.persist
          (·.deleteService name)).2 :=
  (h.withTable (h.table.remove name)).persist
    (fun m => { m with svcData := m.svcData.erase name }) fun _ => rfl

theorem deleteServices_keeps (names : List GoString) (s : ServiceStore) :
    (names.foldl (fun s name => (s.persist (·.deleteService name)).1) s).ttl = s.ttl ∧
      (names.foldl (fun s name => (s.persist (·.deleteService name)).1) s).healthManager =
        s.healthManager ∧
      (names.foldl (fun s name => (s.persist (·.deleteService name)).1) s).faults = s.faults := by
  induction names generalizing s with
  | nil => exact ⟨rfl, rfl, rfl⟩
  | cons name names ih =>
    have hcall := s.persist_attempt
      (fun m => { m with svcData := m.svcData.erase name }) fun _ => rfl
    obtain ⟨httl, hmanager, hfaults⟩ := ih (s.persist (·.deleteService name)).1
    exact ⟨httl.trans hcall.1, hmanager.trans hcall.2.1, hfaults.trans hcall.2.2.1⟩

theorem cleanupExpired_keeps (s : ServiceStore) (now : Time) :
    (s.cleanupExpired now).1.ttl = s.ttl ∧
      (s.cleanupExpired now).1.healthManager = s.healthManager ∧
      (s.cleanupExpired now).1.faults = s.faults :=
  deleteServices_keeps _ _

theorem Trails.cleanup_right (h : s.toServiceTable.Indexed) (now : Time) :
    Trails now s (s.cleanupExpired now).1 := by
  obtain ⟨httl, hmanager, hfaults⟩ := s.cleanupExpired_keeps now
  refine ⟨?_, httl, hmanager, hfaults⟩
  rw [cleanupExpired_toServiceTable]
  exact .clean_right h now

theorem Trails.cleanup (h : Trails now s s') (hle : now ≤ later) :
    Trails later (s.cleanupExpired later).1 (s'.cleanupExpired later).1 := by
  obtain ⟨httl, hmanager, hfaults⟩ := s.cleanupExpired_keeps later
  obtain ⟨httl', hmanager', hfaults'⟩ := s'.cleanupExpired_keeps later
  refine ⟨?_, ?_, ?_, ?_⟩
  · rw [cleanupExpired_toServiceTable, cleanupExpired_toServiceTable]
    exact h.table.clean hle
  · rw [httl, httl', h.ttl]
  · rw [hmanager, hmanager', h.healthManager]
  · rw [hfaults, hfaults', h.faults]

theorem Trails.getEntry_eq (h : Trails now s s') (hle : now ≤ later) (name : GoString) :
    s'.getEntry later name = s.getEntry later name := by
  have hbind := h.table.bind_eq hle
    (f := fun e => if e.expiresAt < later then none else some e) (fun e hexp => if_pos hexp) name
  have hread (s : ServiceStore) : s.getEntry later name =
      (s.data.lookup name).bind fun e => if e.expiresAt < later then none else some e := by
    unfold ServiceStore.getEntry
    cases s.data.lookup name <;> rfl
  rw [hread, hread]
  exact hbind.symm

/-! ### One operation -/

/-- An operation on both stores answers alike if the service it goes by, if any, is in
both or in neither. -/
theorem Trails.apply (h : Trails now s s') (env : StoreEnv) (call : ServiceCall)
    (hclock : ∀ time ∈ call.clock env.now, now ≤ time)
    (hsees : ∀ name ∈ call.goesBy, s'.data.lookup name = s.data.lookup name) :
    Trails env.now (call.apply s env).1 (call.apply s' env).1 ∧
      (call = .cleanupExpired ∨ (call.apply s' env).2 = (call.apply s env).2) := by
  have hle : now ≤ env.now := hclock _ (call.now_mem_clock env.now)
  have hlater := h.mono hle
  have hcounter := h.table.globalIndex
  cases call with
  | register service range =>
    simp only [ServiceCall.apply, ServiceStore.register]
    cases hv : validateService service range with
    | some err => exact ⟨hlater, Or.inr rfl⟩
    | none =>
      have hvalid : service.Valid := (service.valid_iff range).mpr hv
      obtain ⟨htrails, herr⟩ := hlater.registered env service (hsees _ (if_pos hvalid))
      exact ⟨htrails, Or.inr (congrArg ServiceAnswer.done herr)⟩
  | registerCAS service range expectedIndex =>
    simp only [ServiceCall.apply, ServiceStore.registerCAS]
    cases hv : validateService service range with
    | some err => exact ⟨hlater, Or.inr rfl⟩
    | none =>
      have hvalid : service.Valid := (service.valid_iff range).mpr hv
      have hsees := hsees service.name (if_pos hvalid)
      have hcheck : s'.toServiceTable.checkRegisterCAS service.name expectedIndex =
          s.toServiceTable.checkRegisterCAS service.name expectedIndex := by
        simp only [ServiceTable.checkRegisterCAS, hsees]
      simp only [hcheck]
      cases s.toServiceTable.checkRegisterCAS service.name expectedIndex with
      | some err => exact ⟨hlater, Or.inr rfl⟩
      | none =>
        obtain ⟨htrails, herr⟩ := hlater.registered env service hsees
        refine ⟨htrails, Or.inr ?_⟩
        simp only [herr, ServiceTable.nextIndex, hcounter]
  | heartbeat name =>
    have hsees := hsees name rfl
    simp only [ServiceCall.apply, ServiceStore.heartbeat, hsees]
    cases he : s.data.lookup name with
    | none => exact ⟨hlater, Or.inr rfl⟩
    | some entry =>
      have htouch := hlater.table.touch he (hsees.trans he) (env.now + s.ttl)
      have hpersist := (hlater.withTable htouch).persistEntry env name
        { entry with expiresAt := env.now + s.ttl }
      simp only [h.ttl] at hpersist ⊢
      exact ⟨hpersist.1, Or.inr trivial⟩
  | deregister name =>
    exact ⟨(hlater.removed name).1, Or.inr rfl⟩
  | deregisterCAS name expectedIndex =>
    have hsees := hsees name rfl
    have hcheck : s'.toServiceTable.checkDeregisterCAS name expectedIndex =
        s.toServiceTable.checkDeregisterCAS name expectedIndex := by
      simp only [ServiceTable.checkDeregisterCAS, hsees]
    simp only [ServiceCall.apply, ServiceStore.deregisterCAS, hcheck]
    cases s.toServiceTable.checkDeregisterCAS name expectedIndex with
    | some err => exact ⟨hlater, Or.inr rfl⟩
    | none =>
      obtain ⟨htrails, herr⟩ := hlater.removed name
      exact ⟨htrails, Or.inr (congrArg ServiceAnswer.done herr)⟩
  | registerLocal serviceData range =>
    simp only [ServiceCall.apply, ServiceStore.registerLocal]
    cases hv : validateService serviceData.toService range with
    | some err => exact ⟨hlater, Or.inr rfl⟩
    | none =>
      have hvalid : serviceData.toService.Valid := (serviceData.toService.valid_iff range).mpr hv
      have hput := hlater.withTable (hlater.table.put serviceData.toService (env.now + s.ttl)
        (hsees _ (if_pos hvalid)))
      simp only [h.ttl] at hput ⊢
      exact ⟨hput, Or.inr trivial⟩
  | registerCASLocal serviceData range expectedIndex =>
    simp only [ServiceCall.apply, ServiceStore.registerCASLocal]
    cases hv : validateService serviceData.toService range with
    | some err => exact ⟨hlater, Or.inr rfl⟩
    | none =>
      have hvalid : serviceData.toService.Valid := (serviceData.toService.valid_iff range).mpr hv
      have hsees := hsees serviceData.name (if_pos hvalid)
      have hcheck : s'.toServiceTable.checkRegisterCAS serviceData.name expectedIndex =
          s.toServiceTable.checkRegisterCAS serviceData.name expectedIndex := by
        simp only [ServiceTable.checkRegisterCAS, hsees]
      simp only [hcheck]
      cases s.toServiceTable.checkRegisterCAS serviceData.name expectedIndex with
      | some err => exact ⟨hlater, Or.inr rfl⟩
      | none =>
        have hput := hlater.withTable
          (hlater.table.put serviceData.toService (env.now + s.ttl) hsees)
        simp only [h.ttl, ServiceTable.nextIndex, hcounter] at hput ⊢
        exact ⟨hput, Or.inr trivial⟩
  | heartbeatLocal name =>
    have hsees := hsees name rfl
    simp only [ServiceCall.apply, ServiceStore.heartbeatLocal, hsees]
    cases he : s.data.lookup name with
    | none => exact ⟨hlater, Or.inr rfl⟩
    | some entry =>
      have htouch := hlater.withTable
        (hlater.table.touch he (hsees.trans he) (env.now + s.ttl))
      simp only [h.ttl] at htouch ⊢
      exact ⟨htouch, Or.inr trivial⟩
  | deregisterLocal name => exact ⟨hlater.withTable (hlater.table.remove name), Or.inr rfl⟩
  | deregisterCASLocal name expectedIndex =>
    have hsees := hsees name rfl
    have hcheck : s'.toServiceTable.checkDeregisterCAS name expectedIndex =
        s.toServiceTable.checkDeregisterCAS name expectedIndex := by
      simp only [ServiceTable.checkDeregisterCAS, hsees]
    simp only [ServiceCall.apply, ServiceStore.deregisterCASLocal, hcheck]
    cases s.toServiceTable.checkDeregisterCAS name expectedIndex with
    | some err => exact ⟨hlater, Or.inr rfl⟩
    | none => exact ⟨hlater.withTable (hlater.table.remove name), Or.inr rfl⟩
  | updateTTLCheck checkID =>
    simp only [ServiceCall.apply, ServiceStore.updateTTLCheck, h.healthManager]
    exact ⟨⟨hlater.table, h.ttl, rfl, h.faults⟩, Or.inr trivial⟩
  | cleanupExpired => exact ⟨h.cleanup hle, Or.inl rfl⟩
  | get name =>
    refine ⟨hlater, Or.inr ?_⟩
    simp only [ServiceCall.apply, ServiceStore.get, h.getEntry_eq hle]
  | getEntry name => exact ⟨hlater, Or.inr (congrArg ServiceAnswer.entry (h.getEntry_eq hle name))⟩
  | list range =>
    exact ⟨hlater, Or.inr (congrArg ServiceAnswer.unordered (h.table.coe_list_eq hle _ _))⟩
  | queryByTags tags range =>
    refine ⟨hlater, Or.inr ?_⟩
    simp only [ServiceCall.apply]
    split_ifs with htags
    · subst htags
      exact congrArg ServiceAnswer.unordered (h.table.coe_list_eq hle _ _)
    · exact congrArg ServiceAnswer.ordered (h.table.queryByTags_eq hle htags _ _)
  | queryByMetadata filters first rest range =>
    refine ⟨hlater, Or.inr ?_⟩
    simp only [ServiceCall.apply]
    split_ifs with hfilters
    · simp only [ServiceTable.queryByMetadata_of_empty hfilters]
      exact congrArg ServiceAnswer.unordered (h.table.coe_list_eq hle _ _)
    · exact congrArg ServiceAnswer.ordered (h.table.queryByMetadata_eq hle hfilters _ _ _ _)
  | queryByTagsAndMetadata later tags filters first rest range =>
    refine ⟨hlater, Or.inr ?_⟩
    have hsecond : now ≤ later := hclock later (by simp [ServiceCall.clock])
    simp only [ServiceCall.apply]
    by_cases htags : tags = []
    · by_cases hfilters : filters.keys.card = 0
      · simp only [htags, hfilters, and_self, ite_true, ServiceTable.queryByTagsAndMetadata,
          ServiceTable.queryByMetadata_of_empty hfilters]
        exact congrArg ServiceAnswer.unordered (h.table.coe_list_eq hle _ _)
      · simp only [htags, hfilters, and_false, ite_true, ite_false,
          ServiceTable.queryByTagsAndMetadata]
        exact congrArg ServiceAnswer.ordered (h.table.queryByMetadata_eq hle hfilters _ _ _ _)
    · by_cases hfilters : filters.keys.card = 0
      · simp only [htags, hfilters, false_and, ite_true, ite_false,
          ServiceTable.queryByTagsAndMetadata]
        exact congrArg ServiceAnswer.ordered (h.table.queryByTags_eq hle htags _ _)
      · simp only [htags, hfilters, and_self, ite_false, ServiceTable.queryByTagsAndMetadata,
          h.table.queryByTags_eq hle htags (range s.data) (range s'.data),
          h.table.queryByMetadata_eq hsecond hfilters first rest (range s.data) (range s'.data)]

end ServiceStore

/-! ### Runs -/

/-- An operation and what it meets, its time among it. -/
structure TimedCall where
  env : StoreEnv
  call : ServiceCall

namespace TimedCall

def clock (i : TimedCall) : List Time := i.call.clock i.env.now

/-- The count a cleanup returns is that of its own removals, and is not compared. -/
def machine : Machine ServiceStore TimedCall (Option ServiceAnswer) where
  step s i :=
    let r := i.call.apply s i.env
    (r.1,
      match i.call with
      | .cleanupExpired => none
      | _ => some r.2)

/-- The operation goes by no service that has expired and is still there. -/
def GoesByLive (s : ServiceStore) (i : TimedCall) : Prop :=
  ∀ name ∈ i.call.goesBy, name ∉ s.toServiceTable.expired i.env.now

variable {now : Time} {s s' : ServiceStore}

/-- From trailing stores on, no operation of a run that goes by live services only
can tell them apart. -/
theorem answers_eq (h : s.Trails now s') {run : List TimedCall}
    (hclock : (run.flatMap clock).Pairwise (· ≤ ·)) (hnow : ∀ time ∈ run.flatMap clock, now ≤ time)
    (hlive : machine.Along GoesByLive s run) : (machine.run s' run).2 = (machine.run s run).2 := by
  induction run generalizing now s s' with
  | nil => rfl
  | cons i run ih =>
    rw [List.flatMap_cons] at hclock hnow
    obtain ⟨-, htail, hcross⟩ := List.pairwise_append.mp hclock
    have hmem := i.call.now_mem_clock i.env.now
    have hhead (time : Time) (htime : time ∈ i.clock) : now ≤ time :=
      hnow time (List.mem_append_left _ htime)
    have hsees (name : GoString) (hname : name ∈ i.call.goesBy) :
        s'.data.lookup name = s.data.lookup name :=
      h.table.lookup_eq (hhead _ hmem) (hlive.1 name hname)
    obtain ⟨htrails, hanswer⟩ := h.apply i.env i.call hhead hsees
    have hrest := ih htrails htail (fun time htime => hcross i.env.now hmem time htime) hlive.2
    have hstep : (machine.step s' i).2 = (machine.step s i).2 := by
      obtain ⟨env, call⟩ := i
      rcases hanswer with rfl | hanswer
      · rfl
      · simp only [machine, hanswer]
    rw [Machine.run_cons, Machine.run_cons, hstep]
    exact congrArg ((machine.step s i).2 :: ·) hrest

theorem indexed_step {i : TimedCall} (h : s.toServiceTable.Indexed) :
    (machine.step s i).1.toServiceTable.Indexed := by
  obtain ⟨env, call⟩ := i
  have hearly : ∃ now, ∀ time ∈ call.clock env.now, now ≤ time := by
    cases call with
    | queryByTagsAndMetadata later tags filters first rest range =>
      exact ⟨min env.now later, by simp [ServiceCall.clock]⟩
    | _ => exact ⟨env.now, by simp [ServiceCall.clock]⟩
  obtain ⟨now, hnow⟩ := hearly
  have hself : s.Trails now s := ⟨.refl h now, rfl, rfl, rfl⟩
  exact (hself.apply env call hnow fun _ _ => rfl).1.table.indexed

/-- The store `NewServiceStoreWithPersistence` opens on an engine without services. -/
def opened (ttl : Duration) (engine : Option Engine) : ServiceStore :=
  { ServiceStore.newWithTTL ttl with engine := engine }

/-- In a run whose clock does not go back and none of whose operations goes by an
expired service, a cleanup inserted anywhere changes no answer. -/
theorem cleanup_unobserved (ttl : Duration) (engine : Option Engine) (before after : List TimedCall)
    (env : StoreEnv)
    (hclock : ((before ++ ⟨env, .cleanupExpired⟩ :: after).flatMap clock).Pairwise (· ≤ ·))
    (hlive : machine.Along GoesByLive (opened ttl engine) (before ++ after)) :
    ∃ first second, first.length = before.length ∧
      (machine.run (opened ttl engine) (before ++ after)).2 = first ++ second ∧
      (machine.run (opened ttl engine) (before ++ ⟨env, .cleanupExpired⟩ :: after)).2 =
        first ++ none :: second := by
  have hopened : (opened ttl engine).toServiceTable.Indexed := ServiceTable.indexed_empty 0
  have hindexed : (machine.run (opened ttl engine) before).1.toServiceTable.Indexed :=
    @Machine.invariant_run _ _ _ machine (fun s => s.toServiceTable.Indexed)
      (fun _ _ h => indexed_step h) _ hopened before
  refine ⟨_, _, machine.length_answers (opened ttl engine) before,
    congrArg Prod.snd (machine.run_append _ before after), ?_⟩
  rw [List.flatMap_append, List.pairwise_append] at hclock
  rw [Machine.along_append] at hlive
  obtain ⟨-, hafter, -⟩ := hclock
  rw [List.flatMap_cons] at hafter
  obtain ⟨-, htail, hcross⟩ := List.pairwise_append.mp hafter
  have htrails := ServiceStore.Trails.cleanup_right hindexed env.now
  have heq := answers_eq htrails htail
    (fun time htime => hcross env.now (List.mem_singleton_self _) time htime) hlive.2
  rw [Machine.run_append, Machine.run_cons]
  exact congrArg (fun l => (machine.run (opened ttl engine) before).2 ++ none :: l) heq

def envAt (now : Time) : StoreEnv :=
  { now, newUUID := fun _ => [], parseDuration := fun _ => none, marshalEntry := fun _ => .ok [] }

def callAt (now : Time) (call : ServiceCall) : TimedCall := ⟨envAt now, call⟩

def registerWeb : List TimedCall := [callAt 0 (.register web noMetadata)]

/-- The service has expired when it is read, cleaned or not. -/
theorem cleanup_unobserved_read :
    ∃ first second, first.length = registerWeb.length ∧
      (machine.run (opened 10 none)
        (registerWeb ++ [callAt 12 (.getEntry (str "web"))])).2 = first ++ second ∧
      (machine.run (opened 10 none)
        (registerWeb ++ callAt 11 .cleanupExpired :: [callAt 12 (.getEntry (str "web"))])).2 =
        first ++ none :: second := by
  refine cleanup_unobserved 10 none registerWeb [callAt 12 (.getEntry (str "web"))] (envAt 11)
    (by decide) ⟨?_, ?_, trivial⟩
  · exact fun name _ => List.not_mem_nil
  · exact fun name hname => nomatch hname

/-- A heartbeat and a registration that expects a new service find the expired one
until a cleanup has run. -/
theorem cleanup_answers_differ :
    (machine.run (opened 10 none) (registerWeb ++ [callAt 12 (.heartbeat (str "web"))])).2 =
      [some (.done none), some (.found true)] ∧
    (machine.run (opened 10 none)
        (registerWeb ++ callAt 11 .cleanupExpired :: [callAt 12 (.heartbeat (str "web"))])).2 =
      [some (.done none), none, some (.found false)] ∧
    (machine.run (opened 10 none) (registerWeb ++ [callAt 12 (.registerCAS web noMetadata 0)])).2 =
      [some (.done none), some (.index 0 (some (ServiceTable.conflict (str "web") 0 1)))] ∧
    (machine.run (opened 10 none)
        (registerWeb ++ callAt 11 .cleanupExpired ::
          [callAt 12 (.registerCAS web noMetadata 0)])).2 =
      [some (.done none), none, some (.index 2 none)] := by
  refine ⟨?_, ?_, ?_, ?_⟩
  · rfl
  · rfl
  · rfl
  · rfl

end TimedCall

end Konsul
