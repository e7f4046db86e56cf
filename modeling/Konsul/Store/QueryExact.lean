import Konsul.Store.ServiceRecords

/-!
# Queries against a scan of the data

`Answers` says what a query should return: the live services of the kind asked
for, each once, in the order of their names. The queries do so in every state in
which each service stands under its own name. A name that is not valid UTF-8 is
another one in the JSON text of its entry: reloaded, the service is filed under
the old name and goes by the new one, and the intersection of two queries, which
compares the names of services, takes one service for another.
-/

namespace Konsul

open GoLib

namespace ServiceTable

/-- The services that are live and as `p` says, once each, sorted by name. -/
structure Answers (t : ServiceTable) (now : Time) (p : Service → Prop) (result : List Service) :
    Prop where
  sorted : (result.map Service.name).Pairwise (· < ·)
  mem_iff : ∀ service, service ∈ result ↔
    ∃ name entry, t.data.lookup name = some entry ∧ entry.service = service ∧
      entry.expiresAt > now ∧ p service

variable {t : ServiceTable} {now now' : Time}

theorem mem_scan_iff (p : Service → Bool) (service : Service) : service ∈ t.scan now p ↔
    ∃ name entry, t.data.lookup name = some entry ∧ entry.service = service ∧
      entry.expiresAt > now ∧ p service = true := by
  simp only [scan, List.mem_filterMap, Sigma.exists, GoMap.Order.mem_list_iff]
  constructor
  · rintro ⟨name, entry, hentry, hfound⟩
    split_ifs at hfound with hlive
    cases hfound
    exact ⟨name, entry, hentry, rfl, hlive⟩
  · rintro ⟨name, entry, hentry, rfl, hlive⟩
    exact ⟨name, entry, hentry, if_pos hlive⟩

theorem pairwise_data (t : ServiceTable) :
    (GoMap.sorted t.data).list.Pairwise fun e e' => e.1 < e'.1 := by
  have hle := GoMap.pairwise_sorted t.data
  have hne := List.pairwise_map.mp (GoMap.sorted t.data).nodup_keys
  refine (hle.and hne).imp fun {e e'} h => ?_
  have hcases : e.1 < e'.1 ∨ e.1 = e'.1 := List.le_iff_lt_or_eq.mp h.1
  exact hcases.resolve_right h.2

theorem Indexed.scan_answers (h : t.Indexed) (now : Time) (p : Service → Bool) :
    t.Answers now (fun service => p service = true) (t.scan now p) := by
  refine ⟨?_, mem_scan_iff p⟩
  rw [List.pairwise_map, scan, List.pairwise_filterMap]
  refine t.pairwise_data.imp_of_mem fun {e e'} he he' hlt service hs service' hs' => ?_
  have hname (e : Σ _ : GoString, ServiceEntry) (he : e ∈ (GoMap.sorted t.data).list)
      (service : Service)
      (hs : (if e.2.expiresAt > now ∧ p e.2.service then some e.2.service else none) =
        some service) : service.name = e.1 := by
    split_ifs at hs
    cases hs
    have hentry := ((GoMap.sorted t.data).mem_list_iff e.1 e.2).mp he
    exact h.name e.1 e.2.service (congrArg (Option.map ServiceEntry.service) hentry)
  rw [hname e he service hs, hname e' he' service' hs']
  exact hlt

theorem Answers.congr {p q : Service → Prop} {result : List Service} (h : t.Answers now p result)
    (hpq : ∀ service, p service ↔ q service) : t.Answers now q result :=
  ⟨h.sorted, fun service => by rw [h.mem_iff]; simp only [hpq]⟩

/-- All the tags of a list. -/
def Tagged (tags : List GoString) (service : Service) : Prop := ∀ tag ∈ tags, tag ∈ service.tags

/-- All the pairs of a filter. -/
def Carries (filters : GoMap GoString GoString) (service : Service) : Prop :=
  ∀ key value, filters.lookup key = some value → service.metadata.lookup key = some value

theorem hasTags_iff (tags : List GoString) (service : Service) :
    HasTags tags service = true ↔ Tagged tags service := by
  simp only [HasTags, List.all_eq_true, decide_eq_true_eq, Tagged]

theorem hasPairs_iff (filters : GoMap GoString GoString) (service : Service) :
    HasPairs (GoMap.sorted filters).list service = true ↔ Carries filters service := by
  simp only [HasPairs, List.all_eq_true, decide_eq_true_eq, Sigma.forall,
    GoMap.Order.mem_list_iff, Carries]

theorem card_ne_zero {filters : GoMap GoString GoString} (h : filters ≠ ∅) :
    filters.keys.card ≠ 0 := by
  intro hcard
  have hkeys : filters.keys = ∅ := Finset.card_eq_zero.mp hcard
  refine h (Finmap.ext_lookup fun key => ?_)
  have hno : key ∉ filters := by
    rw [← Finmap.mem_keys, hkeys]
    exact Finset.notMem_empty key
  rw [Finmap.lookup_eq_none.mpr hno]
  rfl

theorem Indexed.queryByTags_answers (h : t.Indexed) (now : Time) {tags : List GoString}
    (htags : tags ≠ []) (range : t.data.Order) :
    t.Answers now (Tagged tags) (t.queryByTags now tags range) := by
  rw [queryByTags_eq_scan h.mirror now htags]
  exact (h.scan_answers now _).congr (hasTags_iff tags)

theorem Indexed.queryByMetadata_answers (h : t.Indexed) (now : Time)
    {filters : GoMap GoString GoString} (hfilters : filters ≠ ∅) (first rest : filters.Order)
    (range : t.data.Order) :
    t.Answers now (Carries filters) (t.queryByMetadata now filters first rest range) := by
  rw [queryByMetadata_eq_scan h.mirror now (card_ne_zero hfilters)]
  exact (h.scan_answers now _).congr (hasPairs_iff filters)

theorem mem_list_iff (now : Time) (range : t.data.Order) (svc : Service) :
    svc ∈ t.list now range ↔
      ∃ name e, t.data.lookup name = some e ∧ now < e.expiresAt ∧ e.service = svc := by
  simp only [list, List.mem_filterMap, Sigma.exists, GoMap.Order.mem_list_iff]
  refine exists_congr fun name => exists_congr fun e => and_congr_right fun _ => ?_
  by_cases hlive : now < e.expiresAt
  · simp [hlive]
  · simp [hlive]

theorem mem_queryByTags_iff (h : t.Mirrored) (now : Time) (tags : List GoString)
    (range : t.data.Order) (svc : Service) : svc ∈ t.queryByTags now tags range ↔
      ∃ name e, t.data.lookup name = some e ∧ now < e.expiresAt ∧ e.service = svc ∧
        Tagged tags svc := by
  by_cases htags : tags = []
  · subst htags
    have hall : Tagged [] svc := fun _ htag => absurd htag List.not_mem_nil
    simp only [hall, and_true]
    exact mem_list_iff now range svc
  · rw [queryByTags_eq_scan h now htags, mem_scan_iff, hasTags_iff]
    exact exists_congr fun name => exists_congr fun e => and_congr_right fun _ => and_left_comm

theorem mem_queryByMetadata_iff (h : t.Mirrored) (now : Time) (filters : GoMap GoString GoString)
    (first rest : filters.Order) (range : t.data.Order) (svc : Service) :
    svc ∈ t.queryByMetadata now filters first rest range ↔
      ∃ name e, t.data.lookup name = some e ∧ now < e.expiresAt ∧ e.service = svc ∧
        Carries filters svc := by
  by_cases hfilters : filters = ∅
  · subst hfilters
    have hall : Carries ∅ svc := fun key value hpair => by cases hpair
    have hnil : first.list = [] := List.length_eq_zero_iff.mp first.length_list
    simp only [queryByMetadata, hnil, hall, and_true]
    exact mem_list_iff now range svc
  · rw [queryByMetadata_eq_scan h now (card_ne_zero hfilters), mem_scan_iff, hasPairs_iff]
    exact exists_congr fun name => exists_congr fun e => and_congr_right fun _ => and_left_comm

theorem queryByTagsAndMetadata_eq (h : t.Mirrored) (now now' : Time) {tags : List GoString}
    (htags : tags ≠ []) {filters : GoMap GoString GoString} (hfilters : filters ≠ ∅)
    (first rest : filters.Order) (range : t.data.Order) :
    t.queryByTagsAndMetadata now now' tags filters first rest range =
      ((t.scan now' (HasPairs (GoMap.sorted filters).list)).filter fun svc =>
        has (setOf ((t.scan now (HasTags tags)).map Service.name)) svc.name).insertionSort
          fun a b => a.name ≤ b.name := by
  rw [queryByTagsAndMetadata, if_neg htags, if_neg (card_ne_zero hfilters),
    queryByTags_eq_scan h now htags, queryByMetadata_eq_scan h now' (card_ne_zero hfilters)]
  generalize t.scan now (HasTags tags) = tagServices
  generalize t.scan now' (HasPairs (GoMap.sorted filters).list) = metaServices
  dsimp only
  split_ifs with htagNil hmetaNil
  · have hnone : metaServices.filter (fun svc => has (setOf (tagServices.map Service.name)) svc.name)
        = [] := by
      rw [htagNil]
      exact List.filter_eq_nil_iff.mpr fun svc _ => by simp [has_setOf_iff]
    rw [hnone]
    rfl
  · rw [hmetaNil]
    rfl
  · rfl

theorem mem_queryByTagsAndMetadata (h : t.Mirrored) (now now' : Time) {tags : List GoString}
    (htags : tags ≠ []) {filters : GoMap GoString GoString} (hfilters : filters ≠ ∅)
    (first rest : filters.Order) (range : t.data.Order) (service : Service) :
    service ∈ t.queryByTagsAndMetadata now now' tags filters first rest range ↔
      service ∈ t.scan now' (HasPairs (GoMap.sorted filters).list) ∧
        ∃ service' ∈ t.scan now (HasTags tags), service'.name = service.name := by
  rw [queryByTagsAndMetadata_eq h now now' htags hfilters, List.mem_insertionSort, List.mem_filter,
    has_setOf_iff, List.mem_map]

theorem Indexed.eq_of_name (h : t.Indexed) {name name' : GoString} {entry entry' : ServiceEntry}
    (hentry : t.data.lookup name = some entry) (hentry' : t.data.lookup name' = some entry')
    (hname : entry.service.name = entry'.service.name) : entry = entry' := by
  have hkey := h.name name entry.service (congrArg (Option.map ServiceEntry.service) hentry)
  have hkey' := h.name name' entry'.service (congrArg (Option.map ServiceEntry.service) hentry')
  have hsame : name = name' := by rw [← hkey, ← hkey', hname]
  rw [hsame, hentry'] at hentry
  exact (Option.some.inj hentry).symm

theorem Indexed.queryByTagsAndMetadata_answers (h : t.Indexed) (hle : now ≤ now')
    {tags : List GoString} (htags : tags ≠ []) {filters : GoMap GoString GoString}
    (hfilters : filters ≠ ∅) (first rest : filters.Order) (range : t.data.Order) :
    t.Answers now' (fun service => Tagged tags service ∧ Carries filters service)
      (t.queryByTagsAndMetadata now now' tags filters first rest range) := by
  refine ⟨?_, fun service => ?_⟩
  · have hsorted := List.pairwise_map.mp
      (h.scan_answers now' (HasPairs (GoMap.sorted filters).list)).sorted
    have hfilter := hsorted.filter fun svc =>
      has (setOf ((t.scan now (HasTags tags)).map Service.name)) svc.name
    have hascending : List.Pairwise (fun a b : Service => a.name ≤ b.name) _ :=
      hfilter.imp fun hlt => List.le_of_lt hlt
    rw [queryByTagsAndMetadata_eq h.mirror now now' htags hfilters,
      List.Pairwise.insertionSort_eq hascending]
    exact List.pairwise_map.mpr hfilter
  · rw [mem_queryByTagsAndMetadata h.mirror now now' htags hfilters, mem_scan_iff]
    simp only [mem_scan_iff, hasTags_iff, hasPairs_iff]
    constructor
    · rintro ⟨⟨name, entry, hentry, rfl, hlive, hpairs⟩, -, ⟨name', entry', hentry', rfl, -, htagged⟩,
        hname⟩
      have hsame := h.eq_of_name hentry' hentry hname
      rw [hsame] at htagged
      exact ⟨name, entry, hentry, rfl, hlive, htagged, hpairs⟩
    · rintro ⟨name, entry, hentry, rfl, hlive, htagged, hpairs⟩
      exact ⟨⟨name, entry, hentry, rfl, hlive, hpairs⟩, entry.service,
        ⟨name, entry, hentry, rfl, lt_of_le_of_lt hle hlive, htagged⟩, rfl⟩

/-- Whatever the orders of the maps, the queries answer as they should; the two clock
readings of a query for both are in order. -/
structure QueriesExact (t : ServiceTable) : Prop where
  tags : ∀ (now : Time) (tags : List GoString), tags ≠ [] → ∀ range : t.data.Order,
    t.Answers now (Tagged tags) (t.queryByTags now tags range)
  metadata : ∀ (now : Time) (filters : GoMap GoString GoString), filters ≠ ∅ →
    ∀ (first rest : filters.Order) (range : t.data.Order),
      t.Answers now (Carries filters) (t.queryByMetadata now filters first rest range)
  both : ∀ now now' : Time, now ≤ now' → ∀ tags : List GoString, tags ≠ [] →
    ∀ filters : GoMap GoString GoString, filters ≠ ∅ →
      ∀ (first rest : filters.Order) (range : t.data.Order),
        t.Answers now' (fun service => Tagged tags service ∧ Carries filters service)
          (t.queryByTagsAndMetadata now now' tags filters first rest range)

theorem Indexed.queriesExact (h : t.Indexed) : t.QueriesExact where
  tags now _ htags range := h.queryByTags_answers now htags range
  metadata now _ hfilters first rest range := h.queryByMetadata_answers now hfilters first rest range
  both _ _ hle _ htags _ hfilters first rest range :=
    h.queryByTagsAndMetadata_answers hle htags hfilters first rest range

end ServiceTable

/-! ### Runs -/

namespace ServiceEvent

/-- Each record loaded and each entry restored bears the name it stands under. -/
def KeepsNames : ServiceEvent → Prop
  | call _ => True
  | restoreFromSnapshot data _ => ∀ name e, data.lookup name = some e → e.service.name = name
  | restoreSnapshot _ entries _ _ _ => ∀ name e, entries.lookup name = some e → e.service.name = name
  | restart _ m now _ => ∀ name e, ServiceStore.loadService m now name = some e →
    e.service.name = name

theorem step_register (s : ServiceStore) (env : StoreEnv) {service : Service}
    {range : service.metadata.Order} (hvalid : validateService service range = none) :
    (machine.step s (.call ⟨env, .register service range⟩)).1 = (s.registered env service).1 := by
  simp only [machine, apply, TimedCall.machine, ServiceCall.apply, ServiceStore.register, hvalid]

theorem step_register_data (s : ServiceStore) (env : StoreEnv) {service : Service}
    {range : service.metadata.Order} (hvalid : validateService service range = none) :
    (machine.step s (.call ⟨env, .register service range⟩)).1.data = s.data.insert service.name
      (s.toServiceTable.newEntry (ServiceStore.completeChecks env.toEnv service)
        (env.now + s.ttl)) := by
  have htable := s.registered_toServiceTable env service
  rw [step_register s env hvalid]
  exact (congrArg ServiceTable.data htable).trans (ServiceTable.put_data ..)

theorem indexed_step {s : ServiceStore} (h : s.toServiceTable.Indexed) {e : ServiceEvent}
    (hnames : e.KeepsNames) : (machine.step s e).1.toServiceTable.Indexed := by
  have hexact (hservice : ∀ name service, (machine.step s e).1.toServiceTable.service name =
      some service → service.name = name) (hexact : (machine.step s e).1.toServiceTable.Exact) :
      (machine.step s e).1.toServiceTable.Indexed := ⟨hexact.mirrored, hservice⟩
  cases e with
  | call i => exact TimedCall.indexed_step h
  | restoreFromSnapshot data range =>
    refine hexact (fun name service hservice => ?_) (s.restoreFromSnapshot_exact data range)
    obtain ⟨entry, hentry, rfl⟩ := Option.map_eq_some_iff.mp hservice
    change Finmap.lookup name (GoMap.mapVal (fun _ snapshot => snapshot.toEntry) data) =
      some entry at hentry
    rw [GoMap.lookup_mapVal] at hentry
    obtain ⟨snapshot, hsnapshot, rfl⟩ := Option.map_eq_some_iff.mp hentry
    exact hnames name snapshot hsnapshot
  | restoreSnapshot env entries index range checksRange =>
    refine hexact (fun name service hservice => ?_)
      (s.restoreSnapshot_exact env entries index range checksRange)
    obtain ⟨entry, hentry, rfl⟩ := Option.map_eq_some_iff.mp hservice
    change Finmap.lookup name (GoMap.mapVal _ entries) = some entry at hentry
    rw [GoMap.lookup_mapVal] at hentry
    obtain ⟨old, hold, rfl⟩ := Option.map_eq_some_iff.mp hentry
    exact hnames name old hold
  | restart ttl m now range =>
    refine hexact (fun name service hservice => ?_)
      (ServiceStore.newWithPersistence_exact ttl m now range)
    obtain ⟨entry, hentry, rfl⟩ := Option.map_eq_some_iff.mp hservice
    have hload := (ServiceStore.lookup_newWithPersistence ttl range name).symm.trans hentry
    exact hnames name entry hload

/-- In a run whose loaded and restored entries keep their names, the queries answer every
time what a scan of the data finds. -/
theorem queries_exact (ttl : Duration) (run : List ServiceEvent)
    (h : machine.Along (fun _ e => e.KeepsNames) (.newWithTTL ttl) run) :
    (machine.run (.newWithTTL ttl) run).1.toServiceTable.QueriesExact := by
  have hindexed := @Machine.invariant _ _ _ machine _ (fun s => s.toServiceTable.Indexed)
    (fun _ _ h hnames => indexed_step h hnames) _ _ (ServiceTable.indexed_empty 0) h
  exact hindexed.queriesExact

def webSnapshot : GoMap GoString ServiceEntrySnapshot :=
  (∅ : GoMap GoString ServiceEntrySnapshot).insert web.name ⟨web.toSnapshot, 10, 1, 1⟩

theorem queries_exact_web :
    (machine.run (.newWithTTL 10) [.call ⟨.inUtc 0, .register web noMetadata⟩,
      .restoreFromSnapshot webSnapshot (GoMap.sorted _)]).1.toServiceTable.QueriesExact := by
  refine queries_exact 10 _ ⟨trivial, fun name e he => ?_, trivial⟩
  rw [webSnapshot, GoMap.lookup_insert_ite] at he
  split_ifs at he with hname
  · cases he
    exact hname.symm
  · cases he

/-! ### A name that is not valid UTF-8 -/

/-- Restarted, it goes by the name of the other one. -/
def blue : Service := { web with name := [0xFF], tags := [str "blue"] }

def production : GoMap GoString GoString := (∅ : GoMap GoString GoString).insert (str "env") (str "prod")

def prod : Service := { web with name := Utf8.replacement, metadata := production }

def registerBoth : List ServiceEvent :=
  [.restart 10 .new 0 (GoMap.sorted _),
    .call ⟨.inUtc 0, .register blue (GoMap.sorted _)⟩,
    .call ⟨.inUtc 0, .register prod (GoMap.sorted _)⟩]

theorem held_registerBoth : ∃ m e e', (machine.run (.newWithTTL 0) registerBoth).1.engine = some m ∧
    (∀ name, ServiceStore.loadService m 0 name =
      if name = prod.name then some e else if name = blue.name then some e' else none) ∧
    e.service = prod.json ∧ e.expiresAt = 10 ∧ e'.service = blue.json ∧ e'.expiresAt = 10 := by
  have hwrites (s : ServiceStore) (httl : s.ttl = 10) : s.Writes (.inUtc 0) :=
    ⟨Rfc3339.utc, rfl, by rw [httl]; decide⟩
  let s : ServiceStore := .newWithPersistence 10 .new 0 (GoMap.sorted _)
  let s' := (s.registered (.inUtc 0) blue).1
  have hrun : (machine.run (.newWithTTL 0) registerBoth).1 = (s'.registered (.inUtc 0) prod).1 := by
    rw [registerBoth, Machine.run_cons, Machine.run_cons, Machine.run_cons, Machine.run_nil]
    dsimp only
    rw [step_register _ _ (by decide), step_register _ _ (by decide)]
    rfl
  have httl' : s'.ttl = 10 := (ServiceStore.persistEntry_frame ..).1
  have hindex' : s'.toServiceTable.nextIndex ≠ 0 := by
    have hput := (congrArg ServiceTable.globalIndex (s.registered_toServiceTable (.inUtc 0) blue)).trans
      (ServiceTable.put_globalIndex ..)
    rw [ServiceTable.nextIndex, hput]
    decide
  obtain ⟨m, hm, hfault, hkeeps, hheld⟩ := @ServiceStore.registered_held s .new _ rfl rfl
    (fun _ _ _ h => by cases h) (hwrites s rfl) blue ⟨by decide, by decide⟩ (by decide)
  obtain ⟨m', hm', hfault', hkeeps', hheld'⟩ := @ServiceStore.registered_held s' m _ hm hfault
    hkeeps (hwrites s' httl') prod ⟨by decide, by decide⟩ hindex'
  let e := s'.toServiceTable.newEntry (ServiceStore.completeChecks (StoreEnv.inUtc 0).toEnv prod)
    (0 + s'.ttl)
  let e' := s.toServiceTable.newEntry (ServiceStore.completeChecks (StoreEnv.inUtc 0).toEnv blue)
    (0 + s.ttl)
  have hexpires : e.expiresAt = 10 := by
    change 0 + s'.ttl = 10
    rw [httl', zero_add]
  refine ⟨m', e.json, e'.json, ?_, fun name => ?_, rfl, hexpires, rfl, rfl⟩
  · rw [hrun]
    exact hm'
  · rw [Engine.loadService_eq hfault' hkeeps', hheld', hheld]
    split_ifs
    · have hlive : (0 : Time) < e.json.expiresAt := lt_of_lt_of_eq (by decide) hexpires.symm
      exact Option.filter_eq_some_iff.mpr ⟨rfl, decide_eq_true hlive⟩
    · rfl
    · rfl

/-- A query for the tag `blue` and the environment `prod` then finds a service without
the tag. -/
theorem query_takes_one_for_another : ∃ m,
    (machine.run (.newWithTTL 0) registerBoth).1.engine = some m ∧
    ¬ (machine.run (.newWithTTL 0)
      (registerBoth ++ [.restart 10 m 0 (GoMap.sorted _)])).1.toServiceTable.QueriesExact := by
  obtain ⟨m, e, e', hm, hload, hprod, hexpires, hblue, hexpires'⟩ := held_registerBoth
  refine ⟨m, hm, fun h => ?_⟩
  rw [Machine.run_snoc] at h
  have hlookup (name : GoString) : (ServiceStore.newWithPersistence 10 m 0
      (GoMap.sorted m.svcData)).data.lookup name = _ :=
    (ServiceStore.lookup_newWithPersistence 10 (GoMap.sorted m.svcData) name).trans (hload name)
  have hmirrored := (ServiceStore.newWithPersistence_exact 10 m 0 (GoMap.sorted m.svcData)).mirrored
  have hprodEntry := hlookup prod.name
  have hblueEntry := hlookup blue.name
  rw [if_pos rfl] at hprodEntry
  rw [if_neg (by decide), if_pos rfl] at hblueEntry
  have hfilters : production ≠ ∅ := by decide
  have hanswers := h.both 0 0 le_rfl [str "blue"] (by decide) production hfilters (GoMap.sorted _)
    (GoMap.sorted _) (GoMap.sorted _)
  have hmem : prod.json ∈ (ServiceStore.newWithPersistence 10 m 0
      (GoMap.sorted m.svcData)).toServiceTable.queryByTagsAndMetadata 0 0 [str "blue"] production
        (GoMap.sorted _) (GoMap.sorted _) (GoMap.sorted _) := by
    rw [ServiceTable.mem_queryByTagsAndMetadata hmirrored 0 0 (by decide) hfilters]
    refine ⟨?_, blue.json, ?_, by decide⟩
    · refine (ServiceTable.mem_scan_iff _ _).mpr ⟨_, e, hprodEntry, hprod, ?_, by decide⟩
      rw [hexpires]
      decide
    · refine (ServiceTable.mem_scan_iff _ _).mpr ⟨_, e', hblueEntry, hblue, ?_, by decide⟩
      rw [hexpires']
      decide
  obtain ⟨_, _, -, -, -, htagged, -⟩ := (hanswers.mem_iff prod.json).mp hmem
  exact absurd (htagged (str "blue") (List.mem_singleton_self _)) (by decide)

end ServiceEvent

end Konsul
