import Konsul.Store.Locking
import Konsul.Store.QueryExact

/-!
# The two reads of the query for tags and metadata

`QueryByTagsAndMetadata` takes the read lock for the tags and once more for the
metadata, and joins what it found by name. What others do in between can take a tag off
a service whose pairs are then read.
-/

namespace Konsul

open GoLib

namespace ServiceStore

/-- A thread among others: whenever it takes the read lock, the next of their events have
come first. -/
def amid (σ : ServiceStore × List (List ServiceEvent)) :
    (step : LockStep ServiceStore) → (ServiceStore × List (List ServiceEvent)) × step.Answer
  | .rLock =>
    match σ.2 with
    | [] => (σ, ())
    | events :: rest => (((ServiceEvent.machine.run σ.1 events).1, rest), ())
  | .access f => ((f σ.1, σ.2), σ.1)
  | .rUnlock => (σ, ())
  | .lock => (σ, ())
  | .unlock => (σ, ())

/-- What the query returns when `before` comes before its first read and `between` between
its two. -/
def queryAmid (s : ServiceStore) (before between : List ServiceEvent) (now later : Time)
    (tags : List GoString) (filters : GoMap GoString GoString) (first rest : filters.Order)
    (range : (m : GoMap GoString ServiceEntry) → m.Order) : List Service :=
  ((queryByTagsAndMetadataThread now later tags filters first rest range).run amid
    (s, [before, between])).2

section

variable {now later : Time} {tags : List GoString} {filters : GoMap GoString GoString}

theorem run_amid_queryByTagsThread (htags : tags ≠ [])
    (range : (m : GoMap GoString ServiceEntry) → m.Order) (s : ServiceStore)
    (events : List ServiceEvent) (more : List (List ServiceEvent)) :
    let s' := (ServiceEvent.machine.run s events).1
    (queryByTagsThread now tags range).run amid (s, events :: more) =
      ((s', more), s'.toServiceTable.queryByTags now tags (range s'.data)) := by
  unfold queryByTagsThread
  simp only [htags, ite_false]
  rfl

theorem run_amid_queryByMetadataThread (hfilters : filters.keys.card ≠ 0)
    (first rest : filters.Order) (range : (m : GoMap GoString ServiceEntry) → m.Order)
    (s : ServiceStore) (events : List ServiceEvent) (more : List (List ServiceEvent)) :
    let s' := (ServiceEvent.machine.run s events).1
    (queryByMetadataThread now filters first rest range).run amid (s, events :: more) =
      ((s', more), s'.toServiceTable.queryByMetadata now filters first rest (range s'.data)) := by
  unfold queryByMetadataThread
  simp only [hfilters, ite_false]
  rfl

theorem mem_queryAmid_iff (s : ServiceStore) (before between : List ServiceEvent) (now later : Time)
    (htags : tags ≠ []) (hfilters : filters ≠ ∅) (first rest : filters.Order)
    (range : (m : GoMap GoString ServiceEntry) → m.Order) (svc : Service) :
    let s₁ := (ServiceEvent.machine.run s before).1
    let s₂ := (ServiceEvent.machine.run s₁ between).1
    svc ∈ s.queryAmid before between now later tags filters first rest range ↔
      svc ∈ s₂.toServiceTable.queryByMetadata later filters first rest (range s₂.data) ∧
      ∃ svc' ∈ s₁.toServiceTable.queryByTags now tags (range s₁.data), svc'.name = svc.name := by
  intro s₁ s₂
  have hcard := ServiceTable.card_ne_zero hfilters
  unfold queryAmid queryByTagsAndMetadataThread
  rw [if_neg fun h => htags h.1, if_neg hcard, if_neg htags, Program.run_bind,
    run_amid_queryByTagsThread htags]
  dsimp only
  by_cases htagNil : s₁.toServiceTable.queryByTags now tags (range s₁.data) = []
  · rw [if_pos htagNil]
    refine iff_of_false List.not_mem_nil ?_
    rintro ⟨-, svc', hsvc', -⟩
    rw [htagNil] at hsvc'
    exact List.not_mem_nil hsvc'
  · rw [if_neg htagNil, Program.run_bind, run_amid_queryByMetadataThread hcard]
    dsimp only
    by_cases hmetaNil : s₂.toServiceTable.queryByMetadata later filters first rest (range s₂.data) = []
    · rw [if_pos hmetaNil]
      refine iff_of_false List.not_mem_nil fun h => ?_
      rw [hmetaNil] at h
      exact List.not_mem_nil h.1
    · rw [if_neg hmetaNil]
      simp only [Program.pure_eq, Program.run_ret]
      rw [List.mem_insertionSort, List.mem_filter, has_setOf_iff, List.mem_map]

open ServiceTable

theorem mem_queryAmid (ttl : Duration) (before between : List ServiceEvent) (now later : Time)
    (tags : List GoString) (htags : tags ≠ []) (hfilters : filters ≠ ∅) (first rest : filters.Order)
    (range : (m : GoMap GoString ServiceEntry) → m.Order) (svc : Service) :
    let s₁ := (ServiceEvent.machine.run (.newWithTTL ttl) before).1
    let s₂ := (ServiceEvent.machine.run s₁ between).1
    svc ∈ (newWithTTL ttl).queryAmid before between now later tags filters first rest range ↔
      (∃ name e, s₂.data.lookup name = some e ∧ later < e.expiresAt ∧ e.service = svc ∧
        Carries filters svc) ∧
      ∃ svc', (∃ name e, s₁.data.lookup name = some e ∧ now < e.expiresAt ∧ e.service = svc' ∧
        Tagged tags svc') ∧ svc'.name = svc.name := by
  intro s₁ s₂
  have hs₁ : s₁.toServiceTable.Exact := ServiceEvent.exact_run ttl before
  have hs₂ : s₂.toServiceTable.Exact := by
    have hrun : s₂ = (ServiceEvent.machine.run (.newWithTTL ttl) (before ++ between)).1 := by
      rw [Machine.run_append]
    rw [hrun]
    exact ServiceEvent.exact_run ttl (before ++ between)
  have hfound := mem_queryAmid_iff (newWithTTL ttl) before between now later htags hfilters first
    rest range svc
  refine hfound.trans (and_congr ?_ (exists_congr fun svc' => and_congr_left fun _ => ?_))
  · exact mem_queryByMetadata_iff hs₂.mirrored later filters first rest (range s₂.data) svc
  · exact mem_queryByTags_iff hs₁.mirrored now tags (range s₁.data) svc'

end

/-- A service that has the tags at the first read, and the pairs at the second, has the tags
there too. -/
def KeepsTags (s₁ s₂ : ServiceStore) (now later : Time) (tags : List GoString)
    (filters : GoMap GoString GoString) : Prop :=
  ∀ name e name' e', s₁.data.lookup name = some e → now < e.expiresAt →
    ServiceTable.Tagged tags e.service → s₂.data.lookup name' = some e' → later < e'.expiresAt →
    ServiceTable.Carries filters e'.service → e'.service.name = e.service.name →
    ServiceTable.Tagged tags e'.service

/-- The query returns only records that satisfy the whole filter and were stored at some moment
between its reads. -/
def ReturnsWhole (ttl : Duration) (before between : List ServiceEvent) (now later : Time)
    (tags : List GoString) (filters : GoMap GoString GoString) (first rest : filters.Order)
    (range : (m : GoMap GoString ServiceEntry) → m.Order) : Prop :=
  ∀ svc ∈ (newWithTTL ttl).queryAmid before between now later tags filters first rest range,
    ServiceTable.Tagged tags svc ∧ ServiceTable.Carries filters svc ∧ ∃ n name e,
      (ServiceEvent.machine.run (ServiceEvent.machine.run (.newWithTTL ttl) before).1
        (between.take n)).1.data.lookup name = some e ∧ e.service = svc

/-- Whatever comes before and between its reads, the query returns whole records iff no service
that it finds by its tags has lost one of them when it is found by its metadata. -/
theorem returnsWhole_iff (ttl : Duration) (before between : List ServiceEvent) (now later : Time)
    {tags : List GoString} (htags : tags ≠ []) {filters : GoMap GoString GoString}
    (hfilters : filters ≠ ∅) (first rest : filters.Order)
    (range : (m : GoMap GoString ServiceEntry) → m.Order) :
    let s₁ := (ServiceEvent.machine.run (.newWithTTL ttl) before).1
    let s₂ := (ServiceEvent.machine.run s₁ between).1
    ReturnsWhole ttl before between now later tags filters first rest range ↔
      KeepsTags s₁ s₂ now later tags filters := by
  intro s₁ s₂
  have hmem := mem_queryAmid ttl before between now later tags htags hfilters first rest range
  constructor
  · intro hwhole name e name' e' he hlive htagged he' hlive' hcarries hname
    have hreturned := (hmem e'.service).mpr ⟨⟨name', e', he', hlive', rfl, hcarries⟩, e.service,
      ⟨name, e, he, hlive, rfl, htagged⟩, hname.symm⟩
    exact (hwhole e'.service hreturned).1
  · intro hkeeps svc hsvc
    obtain ⟨⟨name', e', he', hlive', rfl, hcarries⟩, _, ⟨name, e, he, hlive, rfl, htagged⟩, hname⟩ :=
      (hmem svc).mp hsvc
    have htags' := hkeeps name e name' e' he hlive htagged he' hlive' hcarries hname.symm
    refine ⟨htags', hcarries, between.length, name', e', ?_, rfl⟩
    rw [List.take_length]
    exact he'

def greenWeb : Service :=
  { web with tags := [str "green"], metadata := ServiceEvent.production }

/-- Registered anew without its tag. -/
def plainWeb : Service := { web with tags := [], metadata := ServiceEvent.production }

def registerGreen : List ServiceEvent := [.call ⟨.inUtc 0, .register greenWeb (GoMap.sorted _)⟩]

def registerPlain : List ServiceEvent := [.call ⟨.inUtc 1, .register plainWeb (GoMap.sorted _)⟩]

theorem lookup_registerGreen : ∃ e, (ServiceEvent.machine.run (.newWithTTL 10) registerGreen).1.data =
    (∅ : GoMap GoString ServiceEntry).insert web.name e ∧ e.expiresAt = 10 ∧
      e.service = completeChecks (StoreEnv.inUtc 0).toEnv greenWeb := by
  have hvalid : validateService greenWeb (GoMap.sorted _) = none := by decide
  exact ⟨_, ServiceEvent.step_register_data (.newWithTTL 10) (.inUtc 0) hvalid, rfl, rfl⟩

theorem lookup_registerPlain (s : ServiceStore) (httl : s.ttl = 10) :
    ∃ e, (ServiceEvent.machine.run s registerPlain).1.data.lookup web.name = some e ∧
      e.expiresAt = 11 ∧ e.service = completeChecks (StoreEnv.inUtc 1).toEnv plainWeb := by
  have hvalid : validateService plainWeb (GoMap.sorted _) = none := by decide
  have hdata := ServiceEvent.step_register_data s (.inUtc 1) hvalid
  refine ⟨_, (congrArg (Finmap.lookup web.name) hdata).trans (Finmap.lookup_insert _), ?_, rfl⟩
  change 1 + s.ttl = 11
  rw [httl]
  rfl

/-- With a second tag, and a service without a tag beside it. -/
def blueGreenWeb : Service := { greenWeb with tags := [str "green", str "blue"] }

def plainApi : Service := { plainWeb with name := str "api" }

def registerMore : List ServiceEvent :=
  [.call ⟨.inUtc 1, .register plainApi (GoMap.sorted _)⟩,
    .call ⟨.inUtc 1, .register blueGreenWeb (GoMap.sorted _)⟩]

theorem lookup_registerMore (s : ServiceStore) (name : GoString) :
    ∃ api both, (ServiceEvent.machine.run s registerMore).1.data.lookup name =
        (if name = web.name then some both else if name = str "api" then some api
          else s.data.lookup name) ∧
      api.service = completeChecks (StoreEnv.inUtc 1).toEnv plainApi ∧
      both.service = completeChecks (StoreEnv.inUtc 1).toEnv blueGreenWeb := by
  have hapi : validateService plainApi (GoMap.sorted _) = none := by decide
  have hboth : validateService blueGreenWeb (GoMap.sorted _) = none := by decide
  have hfirst := ServiceEvent.step_register_data s (.inUtc 1) hapi
  have hsecond := ServiceEvent.step_register_data
    (ServiceEvent.machine.run s (registerMore.take 1)).1 (.inUtc 1) hboth
  refine ⟨s.toServiceTable.newEntry (completeChecks (StoreEnv.inUtc 1).toEnv plainApi) (1 + s.ttl),
    (ServiceEvent.machine.run s (registerMore.take 1)).1.toServiceTable.newEntry
      (completeChecks (StoreEnv.inUtc 1).toEnv blueGreenWeb)
      (1 + (ServiceEvent.machine.run s (registerMore.take 1)).1.ttl), ?_, rfl, rfl⟩
  refine (congrArg (Finmap.lookup name) hsecond).trans ?_
  rw [GoMap.lookup_insert_ite]
  refine if_congr Iff.rfl rfl ?_
  refine (congrArg (Finmap.lookup name) hfirst).trans ?_
  rw [GoMap.lookup_insert_ite]
  rfl

theorem returnsWhole_green : KeepsTags (ServiceEvent.machine.run (.newWithTTL 10) registerGreen).1
      (ServiceEvent.machine.run (ServiceEvent.machine.run (.newWithTTL 10) registerGreen).1 registerMore).1
      0 1 [str "green"] ServiceEvent.production ∧
    ReturnsWhole 10 registerGreen registerMore 0 1 [str "green"] ServiceEvent.production (GoMap.sorted _)
      (GoMap.sorted _) GoMap.sorted := by
  have hkeeps : KeepsTags (ServiceEvent.machine.run (.newWithTTL 10) registerGreen).1
      (ServiceEvent.machine.run (ServiceEvent.machine.run (.newWithTTL 10) registerGreen).1 registerMore).1
      0 1 [str "green"] ServiceEvent.production := by
    obtain ⟨green, hdata, -, hservice⟩ := lookup_registerGreen
    intro name e name' e' he _ _ he' _ _ hname
    obtain ⟨api, both, hlookup, hapi, hboth⟩ := lookup_registerMore
      (ServiceEvent.machine.run (.newWithTTL 10) registerGreen).1 name'
    rw [hdata, GoMap.lookup_insert_ite] at he
    split_ifs at he
    · cases he
      rw [hlookup] at he'
      split_ifs at he' with hweb hother
      · cases he'
        rw [hboth]
        unfold ServiceTable.Tagged
        decide
      · cases he'
        -- the other service goes by another name
        rw [hapi, hservice] at hname
        exact absurd hname (by decide)
      · rw [hdata, GoMap.lookup_insert_ite, if_neg hweb] at he'
        cases he'
    · cases he
  exact ⟨hkeeps, (returnsWhole_iff 10 registerGreen registerMore 0 1 (by decide) (by decide) _ _ _).mpr
    hkeeps⟩

/-- The tag is read before, the environment after the registration. -/
theorem returns_plain : ¬ ReturnsWhole 10 registerGreen registerPlain 0 1 [str "green"]
    ServiceEvent.production (GoMap.sorted _) (GoMap.sorted _) GoMap.sorted := by
  obtain ⟨green, hgreenData, hgreenExpires, hgreen⟩ := lookup_registerGreen
  have httl : (ServiceEvent.machine.run (.newWithTTL 10) registerGreen).1.ttl = 10 := by
    have hvalid : validateService greenWeb (GoMap.sorted _) = none := by decide
    rw [registerGreen, Machine.run_cons, ServiceEvent.step_register _ _ hvalid]
    exact (persistEntry_frame ..).1
  obtain ⟨plain, hplainLookup, hplainExpires, hplain⟩ := lookup_registerPlain _ httl
  have hgreenLookup : (ServiceEvent.machine.run (.newWithTTL 10) registerGreen).1.data.lookup web.name =
      some green := by
    rw [hgreenData, GoMap.lookup_insert_ite, if_pos rfl]
  have hgreenTagged : ServiceTable.Tagged [str "green"] green.service := by
    rw [hgreen]
    unfold ServiceTable.Tagged
    decide
  have hplainCarries : ServiceTable.Carries ServiceEvent.production plain.service := by
    rw [hplain]
    exact fun _ _ hpair => hpair
  have hname : green.service.name = plain.service.name := by
    rw [hgreen, hplain]
    rfl
  intro hwhole
  have hreturned := (mem_queryAmid 10 registerGreen registerPlain 0 1 [str "green"]
    (by decide) (by decide) (GoMap.sorted ServiceEvent.production) (GoMap.sorted _) GoMap.sorted
    plain.service).mpr ⟨⟨_, plain, hplainLookup, by rw [hplainExpires]; decide, rfl, hplainCarries⟩,
      green.service, ⟨_, green, hgreenLookup, by rw [hgreenExpires]; decide, rfl, hgreenTagged⟩, hname⟩
  have htagged := (hwhole _ hreturned).1 (str "green") (List.mem_singleton_self _)
  rw [hplain] at htagged
  exact absurd htagged (by decide)

end ServiceStore

end Konsul
