import Konsul.Store.Uses

/-!
# Snapshots of two stores

`SnapshotState` and `RestoreSnapshot` hand the entries of a store and its index counter to
another one. The entries of services point to check definitions, which the two stores then
share. From there on the two stores answer alike.
-/

namespace Konsul

open GoLib

/-! ### The key-value store -/

namespace KVStore

def snapshotState (kv : KVStore) : GoMap GoString KVEntry × UInt64 := (kv.data, kv.globalIndex)

def restoreSnapshot (kv : KVStore) (entries : GoMap GoString KVEntry) (index : UInt64) : KVStore :=
  { kv with data := entries, globalIndex := index }

theorem alike_restoreSnapshot {kv target : KVStore} (hkv : kv.engine = none)
    (htarget : target.engine = none) :
    kv.Alike (target.restoreSnapshot kv.snapshotState.1 kv.snapshotState.2) := by
  refine ⟨rfl, ?_⟩
  rw [fault, fault, hkv, restoreSnapshot, htarget]

end KVStore

/-! ### The service store -/

/-- Nothing of the definition is left for `RestoreSnapshot` to fill in. -/
def CheckDefinition.Complete (d : CheckDefinition) : Prop :=
  d.serviceID ≠ [] ∧ d.name ≠ [] ∧ d.id ≠ []

theorem ServiceTable.Exact.withChecks {t : ServiceTable} (h : t.Exact)
    (checks : GoString → ServiceEntry → List CheckDefinition) :
    ({ t with data := t.data.mapVal fun name e =>
        { e with service := { e.service with checks := checks name e } } } : ServiceTable).Exact := by
  refine ⟨⟨fun tag name => ?_, fun key value name => ?_⟩, h.tags, h.pairs⟩
  · rw [h.mirrored.tags, ServiceTable.service, ServiceTable.service, GoMap.lookup_mapVal]
    cases t.data.lookup name <;> rfl
  · rw [h.mirrored.pairs, ServiceTable.service, ServiceTable.service, GoMap.lookup_mapVal]
    cases t.data.lookup name <;> rfl

namespace ServiceStore

def snapshotState (s : ServiceStore) : GoMap GoString ServiceEntry × UInt64 :=
  (s.data, s.globalIndex)

/-- The store a snapshot was taken of, once the snapshot is restored somewhere: the check
definitions are shared, and `RestoreSnapshot` has completed them. -/
def shared (s : ServiceStore) (env : Env) (checksRange : s.data.Order) : ServiceStore :=
  { s with data := s.data.mapVal fun name entry => { entry with service := { entry.service with
      checks := (((restoreChecks env 0 checksRange.list).lookup name).getD []).map Prod.fst } } }

def ChecksComplete (s : ServiceStore) : Prop :=
  ∀ name entry, s.data.lookup name = some entry → ∀ d ∈ entry.service.checks, d.Complete

theorem restoreCheck_of_complete {d : CheckDefinition} (h : d.Complete) (env : Env)
    (name newID : GoString) : (restoreCheck env name d newID).1 = d := by
  obtain ⟨hservice, hname, hid⟩ := h
  have hwith : Manager.withID d newID = d := by
    rw [Manager.withID, if_neg hid]
  simp only [restoreCheck, if_neg hservice, if_neg hname]
  split_ifs
  · rfl
  · exact hwith

theorem restoreChecks_of_complete (env : Env) {l : List (Σ _ : GoString, ServiceEntry)}
    (h : ∀ e ∈ l, ∀ d ∈ e.2.service.checks, d.Complete) (n : ℕ) :
    (restoreChecks env n l).map (fun p => (p.1, p.2.map Prod.fst)) =
      l.map fun e => (e.1, e.2.service.checks) := by
  induction l generalizing n with
  | nil => rfl
  | cons e l ih =>
    have hrest := ih (fun e' he' => h e' (List.mem_cons_of_mem _ he'))
      (n + e.2.service.checks.length)
    have hfirst : ((e.2.service.checks.zipIdx n).map fun p =>
        restoreCheck env e.1 p.1 (env.newUUID p.2)).map Prod.fst = e.2.service.checks := by
      rw [List.map_map]
      have hsame : (e.2.service.checks.zipIdx n).map (Prod.fst ∘ fun p =>
          restoreCheck env e.1 p.1 (env.newUUID p.2)) = (e.2.service.checks.zipIdx n).map Prod.fst := by
        refine List.map_congr_left fun p hp => ?_
        have hmem : p.1 ∈ e.2.service.checks := by
          have := List.mem_map_of_mem (f := Prod.fst) hp
          rwa [List.zipIdx_map_fst] at this
        exact restoreCheck_of_complete (h e (List.mem_cons_self ..) p.1 hmem) env e.1 _
      rw [hsame, List.zipIdx_map_fst]
    simp only [restoreChecks, List.map_cons, hrest, hfirst]

theorem lookup_map_snd {A B : Type} (f : A → B) (l : List (GoString × A)) (name : GoString) :
    (l.map fun p => (p.1, f p.2)).lookup name = (l.lookup name).map f := by
  induction l with
  | nil => rfl
  | cons p l ih =>
    obtain ⟨k, a⟩ := p
    rw [List.map_cons, List.lookup_cons, List.lookup_cons, ih]
    cases name == k <;> rfl

theorem lookup_of_mem {V A : Type} (f : V → A) {l : List (Σ _ : GoString, V)} (hl : l.NodupKeys)
    {name : GoString} {v : V} (h : ⟨name, v⟩ ∈ l) :
    (l.map fun e => (e.1, f e.2)).lookup name = some (f v) := by
  induction l with
  | nil => exact nomatch h
  | cons e l ih =>
    obtain ⟨hnew, htail⟩ := List.nodupKeys_cons.mp hl
    rw [List.map_cons, List.lookup_cons]
    rcases List.mem_cons.mp h with rfl | h
    · simp only [beq_self_eq_true]
    · have hne : name ≠ e.1 := fun heq => hnew (heq ▸ List.mem_keys_of_mem h)
      simp only [beq_false_of_ne hne]
      exact ih htail h

theorem shared_of_complete {s : ServiceStore} (h : s.ChecksComplete) (env : Env)
    (checksRange : s.data.Order) : s.shared env checksRange = s := by
  have hsame := restoreChecks_of_complete env
    (fun e he => h e.1 e.2 ((checksRange.mem_list_iff e.1 e.2).mp he)) 0
  have hdata : (s.shared env checksRange).data = s.data := by
    refine Finmap.ext_lookup fun name => ?_
    simp only [shared, GoMap.lookup_mapVal]
    cases hentry : s.data.lookup name with
    | none => rfl
    | some entry =>
      have hmem : ⟨name, entry⟩ ∈ checksRange.list := (checksRange.mem_list_iff name entry).mpr hentry
      have hlookup := lookup_map_snd (List.map Prod.fst) (restoreChecks env 0 checksRange.list) name
      rw [hsame, lookup_of_mem (fun e : ServiceEntry => e.service.checks) checksRange.nodupKeys hmem]
        at hlookup
      obtain ⟨checks, hchecks, heq⟩ := Option.map_eq_some_iff.mp hlookup.symm
      rw [Option.map_some, hchecks, Option.getD_some, heq]
  have hshared : s.shared env checksRange = { s with data := (s.shared env checksRange).data } := rfl
  rw [hshared, hdata]

theorem alike_restoreSnapshot {s target : ServiceStore} (hexact : s.toServiceTable.Exact)
    (hs : s.engine = none) (htarget : target.engine = none) (httl : target.ttl = s.ttl) (env : Env)
    (range checksRange : s.data.Order) :
    (s.shared env checksRange).Alike (target.restoreSnapshot env s.snapshotState.1
      s.snapshotState.2 range checksRange) where
  data := rfl
  globalIndex := rfl
  ttl := httl
  faults := by
    change target.engine.map Engine.fault = s.engine.map Engine.fault
    rw [hs, htarget]
  exact := hexact.withChecks fun name _ =>
    (((restoreChecks env 0 checksRange.list).lookup name).getD []).map Prod.fst
  exact' := target.restoreSnapshot_exact env _ _ range checksRange

end ServiceStore

/-! ### What is seen later -/

/-- The services a read of the store lists, in their order. -/
def ServiceCall.listing (s : ServiceStore) (env : StoreEnv) : ServiceCall → List Service
  | list range => s.toServiceTable.list env.now (range s.data)
  | queryByTags tags range => s.toServiceTable.queryByTags env.now tags (range s.data)
  | queryByMetadata filters first rest range =>
    s.toServiceTable.queryByMetadata env.now filters first rest (range s.data)
  | queryByTagsAndMetadata later tags filters first rest range =>
    s.toServiceTable.queryByTagsAndMetadata env.now later tags filters first rest (range s.data)
  | _ => []

theorem ServiceTable.list_congr {t t' : ServiceTable} (h : t'.data = t.data) (now : Time)
    (range : (m : GoMap GoString ServiceEntry) → m.Order) :
    t'.list now (range t'.data) = t.list now (range t.data) := by
  rw [ServiceTable.list, ServiceTable.list, h]

theorem ServiceStore.Alike.listing_eq {s s' : ServiceStore} (h : s.Alike s') (env : StoreEnv)
    (call : ServiceCall) : call.listing s' env = call.listing s env := by
  have hlist (range : (m : GoMap GoString ServiceEntry) → m.Order) :=
    ServiceTable.list_congr h.data env.now range
  have hmetadata (now : Time) (filters : GoMap GoString GoString) (first rest : filters.Order)
      (range : (m : GoMap GoString ServiceEntry) → m.Order) :
      s'.toServiceTable.queryByMetadata now filters first rest (range s'.data) =
        s.toServiceTable.queryByMetadata now filters first rest (range s.data) := by
    by_cases hfilters : filters.keys.card = 0
    · rw [ServiceTable.queryByMetadata_of_empty hfilters,
        ServiceTable.queryByMetadata_of_empty hfilters]
      exact ServiceTable.list_congr h.data now range
    · exact h.queryByMetadata_eq now hfilters first rest _ _
  have htags (tags : List GoString) (range : (m : GoMap GoString ServiceEntry) → m.Order) :
      s'.toServiceTable.queryByTags env.now tags (range s'.data) =
        s.toServiceTable.queryByTags env.now tags (range s.data) := by
    cases tags with
    | nil => exact hlist range
    | cons tag tags => exact h.queryByTags_eq env.now (List.cons_ne_nil tag tags) _ _
  cases call with
  | list range => exact hlist range
  | queryByTags tags range => exact htags tags range
  | queryByMetadata filters first rest range => exact hmetadata env.now filters first rest range
  | queryByTagsAndMetadata later tags filters first rest range =>
    simp only [ServiceCall.listing, ServiceTable.queryByTagsAndMetadata, htags, hmetadata]
  | _ => rfl

/-- All but the updates of TTL checks. -/
def StoreUse.OfStores : StoreUse → Prop
  | service _ call => call.OfStore
  | _ => True

namespace Stores

/-- Everything a use returns. -/
def returns (s : Stores) (u : StoreUse) : StoreAnswer × List Service :=
  ((machine.step s u).2,
    match u with
    | .service env call => call.listing s.services env
    | _ => [])

/-- The uses one after the other, with all they return. -/
def watched : Machine Stores StoreUse (StoreAnswer × List Service) where
  step s u := ((machine.step s u).1, s.returns u)

variable {s s' : Stores}

theorem Alike.returns_eq (h : s.Alike s') {u : StoreUse} (hu : u.OfStores) :
    s'.returns u = s.returns u := by
  have hdata : s'.kv.data = s.kv.data := congrArg KVTable.data h.kv.table
  cases u with
  | get key => simp only [returns, machine, KVStore.get, hdata]
  | getEntry key => simp only [returns, machine, KVStore.getEntry, hdata]
  | kv op => simp only [returns, machine, (op.alike_apply h.kv).2]
  | kvLocal op => simp only [returns, machine, (op.alike_applyLocal h.kv).2]
  | service env call =>
    have hanswer := (call.alike_apply h.services env hu).2
    simp only [returns, machine, hanswer, h.services.listing_eq]

theorem Alike.run_watched (h : s.Alike s') {uses : List StoreUse}
    (huses : ∀ u ∈ uses, u.OfStores) :
    (watched.run s' uses).2 = (watched.run s uses).2 := by
  induction uses generalizing s s' with
  | nil => rfl
  | cons u uses ih =>
    have hanswer := h.returns_eq (huses u (List.mem_cons_self ..))
    have hrest := ih (h.step u) fun v hv => huses v (List.mem_cons_of_mem _ hv)
    simp only [Machine.run_cons, watched, List.cons.injEq] at hrest ⊢
    exact ⟨hanswer, hrest⟩

end Stores

/-- After a snapshot of two stores without engines is restored into others, every later use
is answered there as by the stores it was taken of. -/
theorem snapshots_bisimilar (kv kv' : KVStore) (ttl : Duration) (run : List ServiceEvent)
    (target : ServiceStore) (env : Env) (range checksRange :
      (ServiceEvent.machine.run (.newWithTTL ttl) run).1.snapshotState.1.Order)
    (hkv : kv.engine = none) (hkv' : kv'.engine = none)
    (hs : (ServiceEvent.machine.run (.newWithTTL ttl) run).1.engine = none)
    (htarget : target.engine = none)
    (httl : target.ttl = (ServiceEvent.machine.run (.newWithTTL ttl) run).1.ttl) :
    let s := (ServiceEvent.machine.run (.newWithTTL ttl) run).1
    (s.ChecksComplete → s.shared env checksRange = s) ∧
    ∀ uses : List StoreUse, (∀ u ∈ uses, u.OfStores) →
      (Stores.watched.run ⟨kv'.restoreSnapshot kv.snapshotState.1 kv.snapshotState.2,
        target.restoreSnapshot env s.snapshotState.1 s.snapshotState.2 range checksRange⟩ uses).2 =
      (Stores.watched.run ⟨kv, s.shared env checksRange⟩ uses).2 := by
  intro s
  refine ⟨fun h => ServiceStore.shared_of_complete h env checksRange, fun uses huses => ?_⟩
  have hexact : s.toServiceTable.Exact := ServiceEvent.exact_run ttl run
  have hservices := ServiceStore.alike_restoreSnapshot hexact hs htarget httl env range checksRange
  have hkvs := KVStore.alike_restoreSnapshot hkv hkv'
  have halike : Stores.Alike ⟨kv, s.shared env checksRange⟩
      ⟨kv'.restoreSnapshot kv.snapshotState.1 kv.snapshotState.2,
        target.restoreSnapshot env s.snapshotState.1 s.snapshotState.2 range checksRange⟩ :=
    ⟨hkvs, hservices⟩
  exact halike.run_watched huses

/-- A tagged service with a check, registered beside the other. -/
def database : Service :=
  ⟨str "db", str "10.0.0.2", 5432, [str "primary"], (∅ : GoMap GoString GoString).insert (str "env") (str "prod"),
    [⟨[], str "alive", [], [], str "10.0.0.2:5432", [], [], str "10s", [], [], ∅, false, false⟩]⟩

/-- Two keys, one written twice. -/
def twoFlagged : KVStore :=
  (kvMachine.run .new [.set (str "a") (str "1"), .set (str "b") (str "2"), .set (str "a") (str "3")]).1

def registerTwo : List ServiceEvent :=
  TimedCall.registerWeb.map .call ++
    [.call (TimedCall.callAt 1 (.register database (GoMap.sorted _)))]

/-- Reads, a compare-and-set that fits, a query by tag and a deregistration. -/
def laterUses : List StoreUse :=
  [.get (str "a"), .kv (.setCAS (str "a") (str "4") 3), .getEntry (str "a"),
    .service (TimedCall.envAt 2) (.queryByTags [str "primary"] GoMap.sorted),
    .service (TimedCall.envAt 2) (.deregister web.name),
    .service (TimedCall.envAt 2) (.list GoMap.sorted)]

theorem engine_registerTwo :
    (ServiceEvent.machine.run (.newWithTTL 30) registerTwo).1.engine = none :=
  Option.isNone_iff_eq_none.mp (by decide +kernel)

theorem ttl_registerTwo :
    (ServiceStore.newWithTTL 30).ttl = (ServiceEvent.machine.run (.newWithTTL 30) registerTwo).1.ttl := by
  decide +kernel

theorem snapshots_bisimilar_web :
    let s := (ServiceEvent.machine.run (.newWithTTL 30) registerTwo).1
    (Stores.watched.run ⟨KVStore.new.restoreSnapshot twoFlagged.data twoFlagged.globalIndex,
      (ServiceStore.newWithTTL 30).restoreSnapshot
      (TimedCall.envAt 1).toEnv s.data s.globalIndex (GoMap.sorted _) (GoMap.sorted _)⟩ laterUses).2 =
    (Stores.watched.run ⟨twoFlagged, s.shared (TimedCall.envAt 1).toEnv (GoMap.sorted _)⟩ laterUses).2 :=
  (snapshots_bisimilar twoFlagged .new 30 registerTwo (.newWithTTL 30) (TimedCall.envAt 1).toEnv
    (GoMap.sorted _) (GoMap.sorted _) rfl rfl engine_registerTwo rfl ttl_registerTwo).2 laterUses
    (by simp [laterUses, StoreUse.OfStores, ServiceCall.OfStore])

end Konsul
