import Konsul.Store.ServiceLoad

/-!
# The indexes list exactly what is registered

A run is any sequence of operations, restored snapshots and restarts. Every state
it reaches is `Indexed`, and no bucket of an index is left empty (`NoEmpty`): a
tag without services, a key without values and a value without services are
dropped with their last member.
-/

namespace Konsul

open GoLib

/-! ### No empty buckets -/

namespace TagIndex

def NoEmpty (ix : TagIndex) : Prop := ∀ tag services, ix.lookup tag = some services → services ≠ ∅

variable {ix : TagIndex}

theorem noEmpty_empty : NoEmpty ∅ := fun _ _ h => nomatch h

theorem NoEmpty.add (h : ix.NoEmpty) (name tag : GoString) : (ix.add name tag).NoEmpty := by
  intro t services hs
  rw [TagIndex.add, GoMap.lookup_insert_ite] at hs
  split_ifs at hs with ht
  · cases hs
    intro hempty
    have hmem : name ∈ ((ix.lookup tag).getD ∅).insert name true :=
      Finmap.mem_insert.mpr (Or.inl rfl)
    rw [hempty] at hmem
    exact Finmap.notMem_empty hmem
  · exact h t services hs

theorem NoEmpty.remove (h : ix.NoEmpty) (name tag : GoString) : (ix.remove name tag).NoEmpty := by
  unfold TagIndex.remove
  cases hl : ix.lookup tag with
  | none => exact h
  | some old =>
    dsimp only
    split_ifs with hempty
    · intro t services hs
      rw [GoMap.lookup_erase_ite] at hs
      split_ifs at hs
      exact h t services hs
    · intro t services hs
      rw [GoMap.lookup_insert_ite] at hs
      split_ifs at hs with ht
      · cases hs
        exact hempty
      · exact h t services hs

theorem NoEmpty.addTo (h : ix.NoEmpty) (name : GoString) (tags : List GoString) :
    NoEmpty (addToTagIndex ix name tags) := by
  induction tags generalizing ix with
  | nil => exact h
  | cons tag tags ih => exact ih (h.add name tag)

theorem NoEmpty.removeFrom (h : ix.NoEmpty) (name : GoString) (tags : List GoString) :
    NoEmpty (removeFromTagIndex ix name tags) := by
  induction tags generalizing ix with
  | nil => exact h
  | cons tag tags ih => exact ih (h.remove name tag)

end TagIndex

namespace MetaIndex

def NoEmpty (ix : MetaIndex) : Prop :=
  ∀ key values, ix.lookup key = some values →
    values ≠ ∅ ∧ ∀ value names, values.lookup value = some names → names ≠ []

variable {ix : MetaIndex}

theorem noEmpty_empty : NoEmpty ∅ := fun _ _ h => nomatch h

theorem NoEmpty.add (h : ix.NoEmpty) (name key value : GoString) :
    (ix.add name key value).NoEmpty := by
  intro k values hs
  rw [MetaIndex.add, GoMap.lookup_insert_ite] at hs
  split_ifs at hs with hk
  · cases hs
    refine ⟨fun hempty => ?_, fun v names hv => ?_⟩
    · have hmem : value ∈ ((ix.lookup key).getD ∅).insert value
          ((((ix.lookup key).getD ∅).lookup value).getD [] ++ [name]) :=
        Finmap.mem_insert.mpr (Or.inl rfl)
      rw [hempty] at hmem
      exact Finmap.notMem_empty hmem
    · rw [GoMap.lookup_insert_ite] at hv
      split_ifs at hv with hvalue
      · cases hv
        exact List.append_ne_nil_of_right_ne_nil _ (List.cons_ne_nil _ _)
      · cases hl : ix.lookup key with
        | none =>
          rw [hl] at hv
          cases hv
        | some old =>
          rw [hl] at hv
          exact (h key old hl).2 v names hv
  · exact h k values hs

/-- The lists under the values of a key, once a name is taken out of one of them. -/
theorem names_ne_nil {values : GoMap GoString (List GoString)}
    (h : ∀ value names, values.lookup value = some names → names ≠ []) (name value : GoString) :
    ∀ v names,
      (match values.lookup value with
        | none => values
        | some services =>
          if services.erase name = [] then values.erase value
          else values.insert value (services.erase name)).lookup v = some names → names ≠ [] := by
  intro v names hv
  cases hvalue : values.lookup value with
  | none =>
    rw [hvalue] at hv
    exact h v names hv
  | some services =>
    rw [hvalue] at hv
    dsimp only at hv
    split_ifs at hv with hempty
    · rw [GoMap.lookup_erase_ite] at hv
      split_ifs at hv
      exact h v names hv
    · rw [GoMap.lookup_insert_ite] at hv
      split_ifs at hv
      · cases hv
        exact hempty
      · exact h v names hv

theorem NoEmpty.remove (h : ix.NoEmpty) (name key value : GoString) :
    (ix.remove name key value).NoEmpty := by
  unfold MetaIndex.remove
  cases hl : ix.lookup key with
  | none => exact h
  | some old =>
    have hnames := names_ne_nil (h key old hl).2 name value
    dsimp only
    split_ifs with hempty
    · intro k values hs
      rw [GoMap.lookup_erase_ite] at hs
      split_ifs at hs
      exact h k values hs
    · intro k values hs
      rw [GoMap.lookup_insert_ite] at hs
      split_ifs at hs with hk
      · cases hs
        exact ⟨hempty, hnames⟩
      · exact h k values hs

theorem NoEmpty.addTo (h : ix.NoEmpty) (name : GoString) (metadata : GoMap GoString GoString) :
    NoEmpty (addToMetaIndex ix name metadata) := by
  unfold addToMetaIndex
  induction (GoMap.sorted metadata).list generalizing ix with
  | nil => exact h
  | cons pair pairs ih => exact ih (h.add name pair.1 pair.2)

theorem NoEmpty.removeFrom (h : ix.NoEmpty) (name : GoString)
    (metadata : GoMap GoString GoString) : NoEmpty (removeFromMetaIndex ix name metadata) := by
  unfold removeFromMetaIndex
  induction (GoMap.sorted metadata).list generalizing ix with
  | nil => exact h
  | cons pair pairs ih => exact ih (h.remove name pair.1 pair.2)

end MetaIndex

/-! ### Exact indexes -/

namespace ServiceTable

/-- The indexes mirror the data and have no empty buckets. -/
structure Exact (t : ServiceTable) : Prop where
  mirrored : t.Mirrored
  tags : t.tagIndex.NoEmpty
  pairs : t.metaIndex.NoEmpty

variable {t : ServiceTable}

theorem exact_empty (globalIndex : UInt64) : Exact ⟨∅, ∅, ∅, globalIndex⟩ :=
  ⟨⟨fun _ _ => rfl, fun _ _ _ => rfl⟩, TagIndex.noEmpty_empty, MetaIndex.noEmpty_empty⟩

theorem Exact.unindexOld (h : t.Exact) (name : GoString) :
    (t.unindexOld name).tagIndex.NoEmpty ∧ (t.unindexOld name).metaIndex.NoEmpty := by
  unfold ServiceTable.unindexOld
  cases t.data.lookup name with
  | some e => exact ⟨h.tags.removeFrom name _, h.pairs.removeFrom name _⟩
  | none => exact ⟨h.tags, h.pairs⟩

theorem Exact.put (h : t.Exact) (service : Service) (expiresAt : Time) :
    (t.put service expiresAt).Exact := by
  obtain ⟨htags, hpairs⟩ := h.unindexOld service.name
  exact ⟨h.mirrored.put service expiresAt, htags.addTo service.name _, hpairs.addTo service.name _⟩

theorem Exact.remove (h : t.Exact) (name : GoString) : (t.remove name).Exact := by
  obtain ⟨htags, hpairs⟩ := h.unindexOld name
  exact ⟨h.mirrored.remove name, htags, hpairs⟩

theorem Exact.removeAll (h : t.Exact) (names : List GoString) : (t.removeAll names).Exact := by
  induction names generalizing t with
  | nil => exact h
  | cons name names ih => exact ih (h.remove name)

theorem Exact.touch (h : t.Exact) {name : GoString} {entry : ServiceEntry}
    (hentry : t.data.lookup name = some entry) (expiresAt : Time) :
    (t.touch name entry expiresAt).Exact :=
  ⟨h.mirrored.touch hentry expiresAt, h.tags, h.pairs⟩

/-- What an operation does to the table. -/
inductive Moves (t : ServiceTable) : ServiceTable → Prop
  | stay : Moves t t
  | put (service : Service) (expiresAt : Time) : Moves t (t.put service expiresAt)
  | remove (name : GoString) : Moves t (t.remove name)
  | removeAll (names : List GoString) : Moves t (t.removeAll names)
  | touch {name : GoString} {entry : ServiceEntry} (h : t.data.lookup name = some entry)
      (expiresAt : Time) : Moves t (t.touch name entry expiresAt)

theorem Exact.moves (h : t.Exact) {t' : ServiceTable} (hmoves : t.Moves t') : t'.Exact := by
  cases hmoves with
  | stay => exact h
  | put service expiresAt => exact h.put service expiresAt
  | remove name => exact h.remove name
  | removeAll names => exact h.removeAll names
  | touch hentry expiresAt => exact h.touch hentry expiresAt

theorem Indexed.moves (h : t.Indexed) {t' : ServiceTable} (hmoves : t.Moves t') : t'.Indexed := by
  cases hmoves with
  | stay => exact h
  | put service expiresAt => exact h.put service expiresAt
  | remove name => exact h.remove name
  | removeAll names => exact h.removeAll names
  | touch hentry expiresAt => exact h.touch hentry expiresAt

/-! ### Tables built from entries -/

theorem Exact.store (h : t.Exact) {name : GoString} {entry : ServiceEntry}
    (hname : t.data.lookup name = none) (globalIndex : UInt64) :
    ({ t with data := t.data.insert name entry, globalIndex := globalIndex }.index name
      entry.service).Exact := by
  have hnone : t.service name = none := by
    rw [service, hname]
    rfl
  have hmirror := h.mirrored.index entry.service hnone
  refine ⟨?_, h.tags.addTo name _, h.pairs.addTo name _⟩
  have hservice : ({ t with data := t.data.insert name entry, globalIndex := globalIndex }.index
      name entry.service).service = Function.update t.service name (some entry.service) := by
    funext n
    simp only [service, index, GoMap.lookup_insert_ite]
    by_cases hn : n = name
    · rw [if_pos hn, hn, Function.update_self]
      rfl
    · rw [if_neg hn, Function.update_of_ne hn]
      rfl
  rw [Mirrored, hservice]
  exact hmirror

theorem exact_build {V : Type} (f : GoString → V → Service) {l : List (Σ _ : GoString, V)}
    (hl : l.NodupKeys) :
    Mirror (l.foldl (fun ix e => addToTagIndex ix e.1 (f e.1 e.2).tags) ∅)
        (l.foldl (fun ix e => addToMetaIndex ix e.1 (f e.1 e.2).metadata) ∅)
        (fun name => (l.dlookup name).map (f name)) ∧
      TagIndex.NoEmpty (l.foldl (fun ix e => addToTagIndex ix e.1 (f e.1 e.2).tags) ∅) ∧
      MetaIndex.NoEmpty (l.foldl (fun ix e => addToMetaIndex ix e.1 (f e.1 e.2).metadata) ∅) := by
  induction l using List.reverseRecOn with
  | nil =>
    exact ⟨⟨fun _ _ => rfl, fun _ _ _ => rfl⟩, TagIndex.noEmpty_empty, MetaIndex.noEmpty_empty⟩
  | append_singleton l e ih =>
    have hperm : (l ++ [e]).Perm (e :: l) := List.perm_append_singleton e l
    have hcons := (List.perm_nodupKeys hperm).mp hl
    obtain ⟨hnew, htail⟩ := List.nodupKeys_cons.mp hcons
    obtain ⟨hmirror, htags, hpairs⟩ := ih htail
    have hnone : (fun name => (l.dlookup name).map (f name)) e.1 = none := by
      have hlookup : l.dlookup e.1 = none := List.dlookup_eq_none.mpr hnew
      simp only [hlookup, Option.map_none]
    have hindex := hmirror.index (f e.1 e.2) hnone
    have hservices : (fun name => ((l ++ [e]).dlookup name).map (f name)) =
        Function.update (fun name => (l.dlookup name).map (f name)) e.1 (some (f e.1 e.2)) := by
      funext name
      rw [List.perm_dlookup name hl hperm]
      obtain ⟨k, v⟩ := e
      by_cases hname : name = k
      · subst hname
        rw [Function.update_self, List.dlookup_cons_eq]
        rfl
      · rw [Function.update_of_ne hname, List.dlookup_cons_ne _ _ hname]
    simp only [List.foldl_append, List.foldl_cons, List.foldl_nil, hservices]
    exact ⟨hindex, htags.addTo e.1 _, hpairs.addTo e.1 _⟩

theorem exact_of_build {V : Type} (f : GoString → V → Service) {entries : GoMap GoString V}
    (range : entries.Order) {t : ServiceTable}
    (htags : t.tagIndex = range.list.foldl (fun ix e => addToTagIndex ix e.1 (f e.1 e.2).tags) ∅)
    (hmeta : t.metaIndex =
      range.list.foldl (fun ix e => addToMetaIndex ix e.1 (f e.1 e.2).metadata) ∅)
    (hdata : ∀ name, t.service name = (entries.lookup name).map (f name)) : t.Exact := by
  obtain ⟨hmirror, hnoTag, hnoPair⟩ := exact_build f range.nodupKeys
  have hservice : t.service = fun name => (range.list.dlookup name).map (f name) := by
    funext name
    have hlookup : range.list.dlookup name = entries.lookup name := by
      ext v
      rw [← range.mem_list_iff, ← List.mem_dlookup_iff range.nodupKeys]
      rfl
    rw [hdata, hlookup]
  refine ⟨?_, ?_, ?_⟩
  · rw [Mirrored, htags, hmeta, hservice]
    exact hmirror
  · rw [htags]
    exact hnoTag
  · rw [hmeta]
    exact hnoPair

end ServiceTable

/-! ### One operation -/

namespace ServiceStore

variable (s : ServiceStore)

theorem restoreFromSnapshot_exact (data : GoMap GoString ServiceEntrySnapshot) (range : data.Order) :
    (s.restoreFromSnapshot data range).toServiceTable.Exact := by
  refine ServiceTable.exact_of_build (fun _ e => e.toEntry.service) range rfl rfl fun name => ?_
  simp only [ServiceTable.service, restoreFromSnapshot, GoMap.lookup_mapVal, Option.map_map]
  rfl

theorem restoreSnapshot_exact (env : Env) (entries : GoMap GoString ServiceEntry) (index : UInt64)
    (range checksRange : entries.Order) :
    (s.restoreSnapshot env entries index range checksRange).toServiceTable.Exact := by
  refine ServiceTable.exact_of_build (fun name e => { e.service with
    checks := (((restoreChecks env 0 checksRange.list).lookup name).getD []).map Prod.fst })
    range rfl rfl fun name => ?_
  simp only [ServiceTable.service, restoreSnapshot, GoMap.lookup_mapVal, Option.map_map]
  rfl

theorem newWithPersistence_exact (ttl : Duration) (m : Engine) (now : Time)
    (range : m.svcData.Order) : (newWithPersistence ttl m now range).toServiceTable.Exact := by
  have hloop (names : List GoString) (hnodup : names.Nodup) (t : ServiceTable) (ht : t.Exact)
      (hnew : ∀ name ∈ names, t.data.lookup name = none) :
      (names.foldl (loadNext m now) t).Exact := by
    induction names generalizing t with
    | nil => exact ht
    | cons name names ih =>
      obtain ⟨hother, hrest⟩ := List.nodup_cons.mp hnodup
      refine ih hrest _ ?_ fun n hn => ?_
      · unfold loadNext
        cases loadService m now name with
        | none => exact ht
        | some entry => exact ht.store (hnew name (List.mem_cons_self ..)) _
      · have hne : n ≠ name := fun h => hother (h ▸ hn)
        have hold := hnew n (List.mem_cons_of_mem name hn)
        rw [loadNext_data]
        cases loadService m now name with
        | none => exact hold
        | some entry => exact (Finmap.lookup_insert_of_ne _ hne).trans hold
  unfold newWithPersistence loadFromPersistence Engine.listServices
  cases m.fault with
  | some err => exact ServiceTable.exact_empty 0
  | none =>
    exact hloop (listed m now range) (nodup_listed range) _ (ServiceTable.exact_empty 0)
      fun _ _ => rfl

end ServiceStore

/-- An operation moves the table in one of five ways. -/
theorem ServiceCall.moves (s : ServiceStore) (env : StoreEnv) (call : ServiceCall) :
    s.toServiceTable.Moves (call.apply s env).1.toServiceTable := by
  have hremove (name : GoString) : s.toServiceTable.Moves
      ({ s with toServiceTable := s.toServiceTable.remove name }.persist
        (·.deleteService name)).1.toServiceTable := by
    rw [ServiceStore.persist_toServiceTable]
    exact .remove name
  have hregistered (service : Service) :
      s.toServiceTable.Moves (s.registered env service).1.toServiceTable := by
    rw [ServiceStore.registered_toServiceTable]
    exact .put _ _
  cases call with
  | register service range =>
    simp only [apply, ServiceStore.register]
    split
    · exact .stay
    · exact hregistered service
  | registerCAS service range expectedIndex =>
    simp only [apply, ServiceStore.registerCAS]
    split
    · exact .stay
    · split
      · exact .stay
      · exact hregistered service
  | heartbeat name =>
    simp only [apply, ServiceStore.heartbeat]
    split
    · exact .stay
    · next entry hentry =>
      rw [ServiceStore.persistEntry_toServiceTable]
      exact .touch hentry _
  | deregister name => exact hremove name
  | deregisterCAS name expectedIndex =>
    simp only [apply, ServiceStore.deregisterCAS]
    split
    · exact .stay
    · exact hremove name
  | registerLocal serviceData range =>
    simp only [apply, ServiceStore.registerLocal]
    split
    · exact .stay
    · exact .put _ _
  | registerCASLocal serviceData range expectedIndex =>
    simp only [apply, ServiceStore.registerCASLocal]
    split
    · exact .stay
    · split
      · exact .stay
      · exact .put _ _
  | heartbeatLocal name =>
    simp only [apply, ServiceStore.heartbeatLocal]
    split
    · exact .stay
    · next entry hentry => exact .touch hentry _
  | deregisterLocal name => exact .remove name
  | deregisterCASLocal name expectedIndex =>
    simp only [apply, ServiceStore.deregisterCASLocal]
    split
    · exact .stay
    · exact .remove name
  | cleanupExpired =>
    simp only [apply, ServiceStore.cleanupExpired_toServiceTable]
    exact .removeAll _
  | _ => exact .stay

/-! ### Runs -/

/-- What happens to a service store. -/
inductive ServiceEvent where
  | call (i : TimedCall)
  | restoreFromSnapshot (data : GoMap GoString ServiceEntrySnapshot) (range : data.Order)
  | restoreSnapshot (env : Env) (entries : GoMap GoString ServiceEntry) (index : UInt64)
      (range checksRange : entries.Order)
  /-- A new process opens its store on what the engine holds. -/
  | restart (ttl : Duration) (m : Engine) (now : Time) (range : m.svcData.Order)

namespace ServiceEvent

def apply (s : ServiceStore) : ServiceEvent → ServiceStore × Option ServiceAnswer
  | call i => TimedCall.machine.step s i
  | restoreFromSnapshot data range => (s.restoreFromSnapshot data range, none)
  | restoreSnapshot env entries index range checksRange =>
    (s.restoreSnapshot env entries index range checksRange, none)
  | restart ttl m now range => (.newWithPersistence ttl m now range, none)

def machine : Machine ServiceStore ServiceEvent (Option ServiceAnswer) := ⟨apply⟩

theorem exact_step {s : ServiceStore} (h : s.toServiceTable.Exact) (e : ServiceEvent) :
    (machine.step s e).1.toServiceTable.Exact := by
  cases e with
  | call i => exact h.moves (ServiceCall.moves s i.env i.call)
  | restoreFromSnapshot data range => exact s.restoreFromSnapshot_exact data range
  | restoreSnapshot env entries index range checksRange =>
    exact s.restoreSnapshot_exact env entries index range checksRange
  | restart ttl m now range => exact ServiceStore.newWithPersistence_exact ttl m now range

theorem exact_run (ttl : Duration) (run : List ServiceEvent) :
    (machine.run (.newWithTTL ttl) run).1.toServiceTable.Exact :=
  @Machine.invariant_run _ _ _ machine (fun s => s.toServiceTable.Exact)
    (fun _ e h => exact_step h e) _ (ServiceTable.exact_empty 0) run

/-- In every state a run reaches, a name stands under a tag iff the service it names has
the tag, once under a metadata pair iff the service has the pair, and no bucket is empty. -/
theorem indexes_exact (ttl : Duration) (run : List ServiceEvent) :
    let t := (machine.run (.newWithTTL ttl) run).1.toServiceTable
    (∀ name tag, ((t.tagIndex.lookup tag).bind fun services => services.lookup name) =
      match t.data.lookup name with
      | some e => if tag ∈ e.service.tags then some true else none
      | none => none) ∧
    (∀ name key value, ((t.listed key value).getD []).count name =
      match t.data.lookup name with
      | some e => if e.service.metadata.lookup key = some value then 1 else 0
      | none => 0) ∧
    (∀ tag services, t.tagIndex.lookup tag = some services → services ≠ ∅) ∧
    (∀ key values, t.metaIndex.lookup key = some values →
      values ≠ ∅ ∧ ∀ value names, values.lookup value = some names → names ≠ []) := by
  intro t
  have h : t.Exact := exact_run ttl run
  refine ⟨fun name tag => ?_, fun name key value => ?_, h.tags, h.pairs⟩
  · have hmarks := h.mirrored.tags tag name
    rw [← TagIndex.marks, hmarks, ServiceTable.service]
    cases t.data.lookup name with
    | none => rfl
    | some e => simp
  · have hcount := h.mirrored.pairs key value name
    rw [ServiceTable.listed, ← MetaIndex.names, hcount, ServiceTable.service]
    cases t.data.lookup name with
    | none => rfl
    | some e => simp

end ServiceEvent

end Konsul
