import Konsul.Raft.SnapshotReplay
import Konsul.Store.IndexInvariant

/-!
# The engine's records of services

`held` is the entry a record holds. An operation that persists what it does
stores one entry in the data and in the engine, or removes the same names from
both (`Persisted`); a stored entry is read back up to its checks, as long as it
is `Sound`.
-/

namespace Konsul

open GoLib

namespace ServiceEntry

@[simp] theorem migrate_expiresAt (e : ServiceEntry) : e.migrate.expiresAt = e.expiresAt := by
  unfold migrate
  split_ifs <;> rfl

theorem migrate_of_ne {e : ServiceEntry} (h : e.modifyIndex ≠ 0) : e.migrate = e := if_neg h

theorem migrate_modifyIndex_ne (e : ServiceEntry) : e.migrate.modifyIndex ≠ 0 := by
  unfold migrate
  split_ifs with h
  · exact (by decide : (1 : UInt64) ≠ 0)
  · exact h

/-- What the JSON text of an entry keeps: texts that are valid, a port that is an `int`,
and an index that no migration replaces. -/
structure Sound (e : ServiceEntry) : Prop where
  text : e.service.Text
  port : Json.Codec.IsInt e.service.port
  index : e.modifyIndex ≠ 0

end ServiceEntry

namespace Engine

/-- The entry of a record, with the indices it is loaded with. -/
def held (m : Engine) (name : GoString) : Option ServiceEntry :=
  ((m.svcData.lookup name).bind fun r => ServiceEntry.unmarshal r.data).map ServiceEntry.migrate

/-- No record goes before the entry it holds expires. -/
def Keeps (m : Engine) : Prop :=
  ∀ name r e, m.svcData.lookup name = some r → ServiceEntry.unmarshal r.data = some e →
    e.expiresAt ≤ r.expiresAt

variable {m : Engine}

theorem loadService_eq (hfault : m.fault = none) (hkeeps : m.Keeps) (now : Time) (name : GoString) :
    ServiceStore.loadService m now name = (m.held name).filter fun e => now < e.expiresAt := by
  unfold ServiceStore.loadService Engine.getService held
  rw [hfault]
  cases hr : m.svcData.lookup name with
  | none => rfl
  | some r =>
    dsimp only
    rw [Option.bind_some]
    cases he : ServiceEntry.unmarshal r.data with
    | none =>
      split_ifs
      · simp only [he, Option.map_none, Option.filter_none]
      · rfl
    | some e =>
      have hle := hkeeps name r e hr he
      rw [Option.map_some, Option.filter_some]
      simp only [ServiceEntry.migrate_expiresAt, decide_eq_true_eq]
      by_cases hlive : now < e.expiresAt
      · have hvisible : now < r.expiresAt := lt_of_lt_of_le hlive hle
        rw [if_pos hvisible, if_pos hlive]
        simp only [he, gt_iff_lt, if_pos hlive]
      · rw [if_neg hlive]
        split_ifs
        · simp only [he, gt_iff_lt, if_neg hlive]
        · rfl

/-- An entry stored, to be kept for as long as it lives. -/
def store (m : Engine) (name : GoString) (e : ServiceEntry) (data : Bytes) : Engine :=
  { m with svcData := m.svcData.insert name ⟨data, e.expiresAt⟩ }

theorem held_store {z : Rfc3339.Zone} {e : ServiceEntry} {data : Bytes}
    (hport : Json.Codec.IsInt e.service.port) (hindex : e.modifyIndex ≠ 0)
    (hdata : e.marshal z = .ok data) (name n : GoString) :
    (m.store name e data).held n = if n = name then some e.json else m.held n := by
  unfold held store
  rw [GoMap.lookup_insert_ite]
  split_ifs with hn
  · have hkept : e.json.modifyIndex ≠ 0 := hindex
    rw [Option.bind_some, ServiceEntry.unmarshal_marshal hport hdata, Option.map_some,
      ServiceEntry.migrate_of_ne hkept]
  · rfl

theorem Keeps.store (h : m.Keeps) {z : Rfc3339.Zone} {e : ServiceEntry} {data : Bytes}
    (hport : Json.Codec.IsInt e.service.port) (hdata : e.marshal z = .ok data) (name : GoString) :
    (m.store name e data).Keeps := by
  intro n r e' hr he'
  unfold Engine.store at hr
  rw [GoMap.lookup_insert_ite] at hr
  split_ifs at hr with hn
  · cases hr
    rw [ServiceEntry.unmarshal_marshal hport hdata] at he'
    cases he'
    exact le_rfl
  · exact h n r e' hr he'

def removeAll (m : Engine) (names : List GoString) : Engine :=
  { m with svcData := m.svcData.eraseAll names }

theorem held_removeAll (names : List GoString) (n : GoString) :
    (m.removeAll names).held n = if n ∈ names then none else m.held n := by
  unfold held removeAll
  rw [GoMap.lookup_eraseAll]
  split_ifs <;> rfl

theorem Keeps.removeAll (h : m.Keeps) (names : List GoString) : (m.removeAll names).Keeps := by
  intro n r e hr he
  unfold Engine.removeAll at hr
  rw [GoMap.lookup_eraseAll] at hr
  split_ifs at hr
  exact h n r e hr he

end Engine

theorem ServiceEntry.Sound.toSnapshot_json {e : ServiceEntry} (h : e.Sound) :
    e.json.toSnapshot = e.toSnapshot := by
  have hservice : e.service.json.toSnapshot = e.service.toSnapshot := h.text.toSnapshot_json
  simp only [ServiceEntry.toSnapshot, ServiceEntry.json, hservice]

namespace ServiceStore

theorem loadService_modifyIndex {m : Engine} {t : Time} {name : GoString} {e : ServiceEntry}
    (h : loadService m t name = some e) : e.modifyIndex ≠ 0 := by
  unfold loadService at h
  split at h
  · cases h
  · split at h
    · cases h
    · split_ifs at h
      cases h
      exact ServiceEntry.migrate_modifyIndex_ne _

end ServiceStore

/-! ### What an operation persists -/

/-- An entry stored now can be marshalled: the expiry it is given has a text in the
node's time zone. -/
def ServiceStore.Writes (s : ServiceStore) (env : StoreEnv) : Prop :=
  ∃ z, env.marshalEntry = ServiceEntry.marshal z ∧ (Rfc3339.format z (env.now + s.ttl)).isSome

/-- What an operation meets on a node in UTC. -/
def StoreEnv.inUtc (now : Time) : StoreEnv :=
  { now, newUUID := fun _ => [], parseDuration := fun _ => none,
    marshalEntry := ServiceEntry.marshal Rfc3339.utc }

/-- A registration stores valid texts and a port that is an `int`, and the index it
would take is not zero. -/
structure ServiceStore.Registers (s : ServiceStore) (env : StoreEnv) (service : Service) : Prop where
  writes : s.Writes env
  text : service.Text
  port : Json.Codec.IsInt service.port
  index : s.toServiceTable.nextIndex ≠ 0

/-- The operation goes through the engine, and what it stores can be read back. -/
def ServiceCall.Persists (s : ServiceStore) (env : StoreEnv) : ServiceCall → Prop
  | register service _ => s.Registers env service
  | registerCAS service _ _ => s.Registers env service
  | heartbeat _ => s.Writes env
  | registerLocal _ _ => False
  | registerCASLocal _ _ _ => False
  | heartbeatLocal _ => False
  | deregisterLocal _ => False
  | deregisterCASLocal _ _ => False
  | _ => True

/-- A step from `s`, whose engine is `m`, that keeps the engine in line with the data. -/
inductive ServiceStore.Persisted (s : ServiceStore) (m : Engine) (s' : ServiceStore) : Prop
  | same (hdata : s'.data = s.data) (hengine : s'.engine = some m)
  | stored (name : GoString) (e : ServiceEntry) (z : Rfc3339.Zone) (data : Bytes) (hsound : e.Sound)
      (hmarshal : e.marshal z = .ok data) (hdata : s'.data = s.data.insert name e)
      (hengine : s'.engine = some (m.store name e data))
  | removed (names : List GoString) (hdata : s'.data = s.data.eraseAll names)
      (hengine : s'.engine = some (m.removeAll names))

namespace ServiceStore

variable {s : ServiceStore} {m : Engine}

theorem marshal_of_format {z : Rfc3339.Zone} {e : ServiceEntry}
    (h : (Rfc3339.format z e.expiresAt).isSome) : ∃ data, e.marshal z = .ok data := by
  obtain ⟨text, htext⟩ := Option.isSome_iff_exists.mp h
  exact ⟨_, by rw [ServiceEntry.marshal, htext]⟩

theorem persistEntry_frame (s : ServiceStore) (env : StoreEnv) (name : GoString)
    (e : ServiceEntry) : (s.persistEntry env name e).1.ttl = s.ttl ∧
      (s.persistEntry env name e).1.engine.isSome = s.engine.isSome := by
  unfold persistEntry persist
  cases hm : s.engine with
  | none => exact ⟨rfl, congrArg Option.isSome hm⟩
  | some m =>
    cases env.marshalEntry e with
    | error err => exact ⟨rfl, congrArg Option.isSome hm⟩
    | ok data => exact ⟨rfl, rfl⟩

theorem persistEntry_engine {env : StoreEnv} (hm : s.engine = some m) (hfault : m.fault = none)
    (name : GoString) {e : ServiceEntry} (hexpires : e.expiresAt = env.now + s.ttl) {data : Bytes}
    (hdata : env.marshalEntry e = .ok data) :
    (s.persistEntry env name e).1.engine = some (m.store name e data) := by
  unfold persistEntry persist Engine.setService Engine.attempt Engine.store
  simp only [hm, hdata, hfault, hexpires]

theorem registered_engine {env : StoreEnv} (hm : s.engine = some m) (hfault : m.fault = none)
    (h : s.Writes env) (service : Service) : ∃ z data,
      (s.toServiceTable.newEntry (completeChecks env.toEnv service) (env.now + s.ttl)).marshal z =
        .ok data ∧
      (s.registered env service).1.engine = some (m.store service.name
        (s.toServiceTable.newEntry (completeChecks env.toEnv service) (env.now + s.ttl)) data) := by
  obtain ⟨z, hz, hformat⟩ := h
  obtain ⟨data, hdata⟩ := marshal_of_format (z := z) (e := s.toServiceTable.newEntry
    (completeChecks env.toEnv service) (env.now + s.ttl)) hformat
  refine ⟨z, data, hdata, ?_⟩
  rw [← hz] at hdata
  exact persistEntry_engine (s := { s with
    toServiceTable := s.toServiceTable.put (completeChecks env.toEnv service) (env.now + s.ttl)
    healthManager := addChecks s.healthManager env.toEnv
      (completeChecks env.toEnv service).checks }) hm hfault service.name rfl hdata

theorem registered_held {env : StoreEnv} (hm : s.engine = some m) (hfault : m.fault = none)
    (hkeeps : m.Keeps) (h : s.Writes env) {service : Service}
    (hport : Json.Codec.IsInt service.port) (hindex : s.toServiceTable.nextIndex ≠ 0) :
    ∃ m', (s.registered env service).1.engine = some m' ∧ m'.fault = none ∧ m'.Keeps ∧
      ∀ name, m'.held name = if name = service.name then
        some (s.toServiceTable.newEntry (completeChecks env.toEnv service) (env.now + s.ttl)).json
      else m.held name := by
  obtain ⟨z, data, hdata, hengine⟩ := registered_engine hm hfault h service
  exact ⟨_, hengine, hfault, hkeeps.store hport hdata service.name,
    Engine.held_store hport hindex hdata service.name⟩

theorem persisted_registered {env : StoreEnv} {service : Service} (hm : s.engine = some m)
    (hfault : m.fault = none) (h : s.Registers env service) :
    s.Persisted m (s.registered env service).1 := by
  have hsound : (s.toServiceTable.newEntry (completeChecks env.toEnv service)
      (env.now + s.ttl)).Sound := ⟨⟨h.text.name, h.text.address, h.text.tags, h.text.metadata⟩,
    h.port, h.index⟩
  obtain ⟨z, data, hdata, hengine⟩ := registered_engine hm hfault h.writes service
  refine .stored service.name _ z data hsound hdata ?_ hengine
  rw [registered_toServiceTable, ServiceTable.put_data]
  rfl

theorem persisted_touch {env : StoreEnv} {name : GoString} {entry : ServiceEntry}
    (hm : s.engine = some m) (hfault : m.fault = none) (hsound : entry.Sound) (h : s.Writes env) :
    s.Persisted m ({ s with
      toServiceTable := s.toServiceTable.touch name entry (env.now + s.ttl) }.persistEntry env name
        { entry with expiresAt := env.now + s.ttl }).1 := by
  obtain ⟨z, hz, hformat⟩ := h
  obtain ⟨data, hdata⟩ := marshal_of_format (z := z)
    (e := { entry with expiresAt := env.now + s.ttl }) hformat
  refine .stored name { entry with expiresAt := env.now + s.ttl } z data
    ⟨hsound.text, hsound.port, hsound.index⟩ hdata ?_ ?_
  · rw [persistEntry_toServiceTable]
    rfl
  · rw [← hz] at hdata
    exact persistEntry_engine (s := { s with
      toServiceTable := s.toServiceTable.touch name entry (env.now + s.ttl) }) hm hfault name rfl
      hdata

theorem persisted_removed (hm : s.engine = some m) (hfault : m.fault = none) (name : GoString) :
    s.Persisted m ({ s with toServiceTable := s.toServiceTable.remove name }.persist
      (·.deleteService name)).1 := by
  refine .removed [name] ?_ ?_
  · rw [persist_toServiceTable, ServiceTable.remove_data]
    rfl
  · unfold persist Engine.deleteService Engine.attempt Engine.removeAll
    simp only [hm, hfault]
    rfl

theorem engine_deleteServices (names : List GoString) (hm : s.engine = some m)
    (hfault : m.fault = none) :
    (names.foldl (fun s name => (s.persist (·.deleteService name)).1) s).engine =
      some (m.removeAll names) := by
  induction names generalizing s m with
  | nil => exact hm
  | cons name names ih =>
    have hnext : (s.persist (·.deleteService name)).1.engine =
        some { m with svcData := m.svcData.erase name } := by
      unfold persist Engine.deleteService Engine.attempt
      simp only [hm, hfault]
    exact ih hnext hfault

end ServiceStore

theorem ServiceCall.persisted {s : ServiceStore} {m : Engine} {env : StoreEnv} {call : ServiceCall}
    (hm : s.engine = some m) (hfault : m.fault = none)
    (hsound : ∀ name e, s.data.lookup name = some e → e.Sound) (h : call.Persists s env) :
    s.Persisted m (call.apply s env).1 := by
  have hsame : s.Persisted m s := .same rfl hm
  cases call with
  | register service range =>
    simp only [apply, ServiceStore.register]
    split
    · exact hsame
    · exact ServiceStore.persisted_registered hm hfault h
  | registerCAS service range expectedIndex =>
    simp only [apply, ServiceStore.registerCAS]
    split
    · exact hsame
    · split
      · exact hsame
      · exact ServiceStore.persisted_registered hm hfault h
  | heartbeat name =>
    simp only [apply, ServiceStore.heartbeat]
    split
    · exact hsame
    · next entry hentry => exact ServiceStore.persisted_touch hm hfault (hsound name entry hentry) h
  | deregister name => exact ServiceStore.persisted_removed hm hfault name
  | deregisterCAS name expectedIndex =>
    simp only [apply, ServiceStore.deregisterCAS]
    split
    · exact hsame
    · exact ServiceStore.persisted_removed hm hfault name
  | registerLocal serviceData range => exact h.elim
  | registerCASLocal serviceData range expectedIndex => exact h.elim
  | heartbeatLocal name => exact h.elim
  | deregisterLocal name => exact h.elim
  | deregisterCASLocal name expectedIndex => exact h.elim
  | updateTTLCheck checkID => exact .same rfl hm
  | cleanupExpired =>
    refine .removed (s.toServiceTable.expired env.now) ?_ ?_
    · simp only [apply, ServiceStore.cleanupExpired_toServiceTable, ServiceTable.removeAll_data]
    · exact ServiceStore.engine_deleteServices (s := { s with
        toServiceTable := s.toServiceTable.removeAll (s.toServiceTable.expired env.now) }) _ hm hfault
  | _ => exact hsame

end Konsul
