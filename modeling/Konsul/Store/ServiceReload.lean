import Konsul.Store.QueryExact
import Konsul.Store.ServiceRecords

/-!
# Reloading the service store

A run is any sequence of operations of one store, with restarts in between, over
an engine that works and may drop the records of expired entries. `InStep` is
what every step keeps: the engine holds what the data hold, as far as entries
live past a given instant. So a store opened on the engine at that instant finds
the live entries of the old one, and its queries answer alike.

Operations that leave the engine alone by design, an index counter that wraps
round to zero and an expiry past the year 9999 break this.
-/

namespace Konsul

open GoLib

/-! ### Tables whose live entries agree -/

def ServiceEntry.Live (t : Time) (e : ServiceEntry) : Bool := t < e.expiresAt

/-- The live part of a slot, without its checks. -/
def liveSnapshot (t : Time) (e : Option ServiceEntry) : Option ServiceEntrySnapshot :=
  (e.filter (ServiceEntry.Live t)).map ServiceEntry.toSnapshot

theorem liveSnapshot_filter {t now : Time} (h : now ≤ t) (e : Option ServiceEntry) :
    liveSnapshot t (e.filter (ServiceEntry.Live now)) = liveSnapshot t e := by
  cases e with
  | none => rfl
  | some e =>
    unfold liveSnapshot
    rw [Option.filter_some]
    split_ifs with hnow
    · rfl
    · have hlive : ¬ ServiceEntry.Live t e = true := by
        simp only [ServiceEntry.Live, decide_eq_true_eq] at hnow ⊢
        exact fun hlive => hnow (lt_of_le_of_lt h hlive)
      rw [Option.filter_some, if_neg hlive]
      rfl

namespace ServiceTable

/-- Two tables answer every query at an instant alike, checks aside; a list in the order
of a map is compared as a multiset. -/
structure AnswersAlike (t : Time) (a b : ServiceTable) : Prop where
  list : ∀ (range : a.data.Order) (range' : b.data.Order),
    ((a.list t range).map Service.toSnapshot : Multiset ServiceDataSnapshot) =
      ((b.list t range').map Service.toSnapshot : Multiset ServiceDataSnapshot)
  tags : ∀ tags ≠ [], ∀ (range : a.data.Order) (range' : b.data.Order),
    (a.queryByTags t tags range).map Service.toSnapshot =
      (b.queryByTags t tags range').map Service.toSnapshot
  metadata : ∀ filters ≠ ∅, ∀ (first rest first' rest' : filters.Order) (range : a.data.Order)
    (range' : b.data.Order),
    (a.queryByMetadata t filters first rest range).map Service.toSnapshot =
      (b.queryByMetadata t filters first' rest' range').map Service.toSnapshot
  both : ∀ tags ≠ [], ∀ filters ≠ ∅, ∀ (first rest first' rest' : filters.Order)
    (range : a.data.Order) (range' : b.data.Order),
    (a.queryByTagsAndMetadata t t tags filters first rest range).map Service.toSnapshot =
      (b.queryByTagsAndMetadata t t tags filters first' rest' range').map Service.toSnapshot

variable {a b : ServiceTable} {t : Time}

theorem map_scan (a : ServiceTable) (t : Time) (p : ServiceDataSnapshot → Bool) :
    (a.scan t fun s => p s.toSnapshot).map Service.toSnapshot =
      (GoMap.sorted a.data).list.filterMap fun e =>
        ((liveSnapshot t (some e.2)).map ServiceEntrySnapshot.service).filter p := by
  rw [scan, List.map_filterMap]
  congr 1
  funext e
  rw [liveSnapshot, Option.filter_some]
  by_cases hlive : t < e.2.expiresAt
  · have hl : ServiceEntry.Live t e.2 = true := by simpa [ServiceEntry.Live] using hlive
    rw [if_pos hl, Option.map_some, Option.map_some, Option.filter_some]
    by_cases hp : p e.2.service.toSnapshot = true
    · rw [if_pos ⟨hlive, hp⟩]
      exact (if_pos hp).symm
    · rw [if_neg fun h => hp h.2]
      exact (if_neg hp).symm
  · have hl : ¬ ServiceEntry.Live t e.2 = true := by simpa [ServiceEntry.Live] using hlive
    rw [if_neg hl, if_neg fun h => hlive h.1]
    rfl

theorem scan_congr (h : ∀ name, liveSnapshot t (a.data.lookup name) =
    liveSnapshot t (b.data.lookup name)) (p : ServiceDataSnapshot → Bool) :
    (a.scan t fun s => p s.toSnapshot).map Service.toSnapshot =
      (b.scan t fun s => p s.toSnapshot).map Service.toSnapshot := by
  let f (_ : GoString) (e : ServiceEntry) : Option ServiceDataSnapshot :=
    ((liveSnapshot t (some e)).map ServiceEntrySnapshot.service).filter p
  rw [map_scan, map_scan]
  refine GoMap.filterMap_sorted_congr (f := f) (g := f) fun name => ?_
  have hread (e : Option ServiceEntry) : e.bind (f name) =
      ((liveSnapshot t e).map ServiceEntrySnapshot.service).filter p := by
    cases e <;> rfl
  rw [hread, hread, h]

theorem insertionSort_map {l : List Service} :
    (l.insertionSort fun x y => x.name ≤ y.name).map Service.toSnapshot =
      (l.map Service.toSnapshot).insertionSort fun x y => x.name ≤ y.name := by
  induction l with
  | nil => rfl
  | cons s l ih =>
    have hinsert (l : List Service) : (l.orderedInsert (fun x y => x.name ≤ y.name) s).map
        Service.toSnapshot = (l.map Service.toSnapshot).orderedInsert (fun x y => x.name ≤ y.name)
          s.toSnapshot := by
      induction l with
      | nil => rfl
      | cons x l ih =>
        simp only [List.orderedInsert_cons, List.map_cons]
        by_cases hle : s.name ≤ x.name
        · have hle' : s.toSnapshot.name ≤ x.toSnapshot.name := hle
          rw [if_pos hle, if_pos hle']
          rfl
        · have hle' : ¬ s.toSnapshot.name ≤ x.toSnapshot.name := hle
          rw [if_neg hle, if_neg hle', List.map_cons, ih]
    rw [List.insertionSort_cons, List.map_cons, List.insertionSort_cons, hinsert, ih]

theorem answersAlike (ha : a.Mirrored) (hb : b.Mirrored)
    (h : ∀ name, liveSnapshot t (a.data.lookup name) = liveSnapshot t (b.data.lookup name)) :
    AnswersAlike t a b := by
  have htags (tags : List GoString) := scan_congr h fun s => tags.all fun tag => tag ∈ s.tags
  have hpairs (filters : GoMap GoString GoString) := scan_congr h fun s =>
    (GoMap.sorted filters).list.all fun pair => s.metadata.lookup pair.1 = some pair.2
  refine ⟨fun range range' => ?_, fun tags hne range range' => ?_,
    fun filters hne first rest first' rest' range range' => ?_,
    fun tags hne filters hne' first rest first' rest' range range' => ?_⟩
  · have hall := scan_congr h fun _ => true
    have hcoe (t : Time) (x : ServiceTable) (range : x.data.Order) :
        ((x.list t range).map Service.toSnapshot : Multiset ServiceDataSnapshot) =
          ((x.scan t fun _ => true).map Service.toSnapshot : List ServiceDataSnapshot) := by
      rw [← Multiset.map_coe, ← Multiset.map_coe, coe_list]
    rw [hcoe, hcoe, hall]
  · rw [queryByTags_eq_scan ha t hne, queryByTags_eq_scan hb t hne]
    exact htags tags
  · rw [queryByMetadata_eq_scan ha t (card_ne_zero hne),
      queryByMetadata_eq_scan hb t (card_ne_zero hne)]
    exact hpairs filters
  · rw [queryByTagsAndMetadata_eq ha t t hne hne', queryByTagsAndMetadata_eq hb t t hne hne',
      insertionSort_map, insertionSort_map]
    have hnames (x : ServiceTable) : (x.scan t (HasTags tags)).map Service.name =
        ((x.scan t (HasTags tags)).map Service.toSnapshot).map ServiceDataSnapshot.name := by
      rw [List.map_map]
      rfl
    have hsame : (a.scan t (HasTags tags)).map Service.name =
        (b.scan t (HasTags tags)).map Service.name := by
      rw [hnames, hnames]
      exact congrArg (List.map ServiceDataSnapshot.name) (htags tags)
    have hfilter (x : ServiceTable) (keep : GoString → Bool) :
        ((x.scan t (HasPairs (GoMap.sorted filters).list)).filter fun s => keep s.name).map
            Service.toSnapshot =
          ((x.scan t (HasPairs (GoMap.sorted filters).list)).map Service.toSnapshot).filter
            fun s => keep s.name := by
      rw [List.filter_map]
      rfl
    rw [hsame, hfilter, hfilter]
    have hmeta := hpairs filters
    exact congrArg (fun l : List ServiceDataSnapshot =>
      (l.filter fun s => has (setOf ((b.scan t (HasTags tags)).map Service.name)) s.name).insertionSort
        fun x y => x.name ≤ y.name) hmeta

end ServiceTable

/-! ### Runs with restarts -/

/-- The engine, on its own, drops records whose entries have expired by `now` and keeps
the others at least until their entries expire. -/
structure Engine.MayBecome (m : Engine) (now : Time) (m' : Engine) : Prop where
  fault : m'.fault = none
  absent : ∀ name, m.svcData.lookup name = none → m'.svcData.lookup name = none
  present : ∀ name r, m.svcData.lookup name = some r →
    (∃ expiresAt, m'.svcData.lookup name = some ⟨r.data, expiresAt⟩ ∧
      ∀ e, ServiceEntry.unmarshal r.data = some e → e.expiresAt ≤ expiresAt) ∨
    m'.svcData.lookup name = none ∧
      ∀ e, ServiceEntry.unmarshal r.data = some e → e.expiresAt ≤ now

inductive Lifecycle where
  | call (i : TimedCall)
  /-- The engine has become `m`. -/
  | engine (now : Time) (m : Engine)
  /-- A new process opens its store on the engine. -/
  | restart (now : Time) (range : (m : Engine) → m.svcData.Order)

namespace Lifecycle

def apply (s : ServiceStore) : Lifecycle → ServiceStore
  | call i => (i.call.apply s i.env).1
  | engine _ m => { s with engine := some m }
  | restart now range =>
    match s.engine with
    | none => s
    | some m => .newWithPersistence s.ttl m now (range m)

def machine : Machine ServiceStore Lifecycle Unit := ⟨fun s i => (i.apply s, ())⟩

/-- An operation persists what it does, and the engine keeps what it must. -/
def Regular (s : ServiceStore) : Lifecycle → Prop
  | call i => i.call.Persists s i.env
  | engine now m' => ∀ m, s.engine = some m → m.MayBecome now m'
  | restart _ _ => True

/-- Nothing is dropped, by the engine or at a restart, that is still live at `t`. -/
def Settled (t : Time) : Lifecycle → Prop
  | call _ => True
  | engine now _ => now ≤ t
  | restart now _ => now ≤ t

end Lifecycle

namespace ServiceStore

/-- The engine holds what the data hold, as far as it is live at `t`. -/
structure InStep (t : Time) (s : ServiceStore) (m : Engine) : Prop where
  engine : s.engine = some m
  fault : m.fault = none
  keeps : m.Keeps
  held : ∀ name e, m.held name = some e → e.Sound
  sound : ∀ name e, s.data.lookup name = some e → e.Sound
  live : ∀ name, liveSnapshot t (m.held name) = liveSnapshot t (s.data.lookup name)
  exact : s.toServiceTable.Exact

variable {t : Time} {s s' : ServiceStore} {m : Engine}

theorem sound_json {e : ServiceEntry} (h : e.Sound) : e.json.Sound := by
  have hsame := h.toSnapshot_json
  have hservice : e.service.json.toSnapshot = e.service.toSnapshot :=
    congrArg ServiceEntrySnapshot.service hsame
  have hname : e.service.json.name = e.service.name := congrArg ServiceDataSnapshot.name hservice
  have haddress : e.service.json.address = e.service.address :=
    congrArg ServiceDataSnapshot.address hservice
  have htags : e.service.json.tags = e.service.tags := congrArg ServiceDataSnapshot.tags hservice
  have hmeta : e.service.json.metadata = e.service.metadata :=
    congrArg ServiceDataSnapshot.metadata hservice
  refine ⟨⟨?_, ?_, ?_, ?_⟩, h.port, h.index⟩
  · exact hname ▸ h.text.name
  · exact haddress ▸ h.text.address
  · exact htags ▸ h.text.tags
  · exact hmeta ▸ h.text.metadata

theorem liveSnapshot_json {e : ServiceEntry} (h : e.Sound) :
    liveSnapshot t (some e.json) = liveSnapshot t (some e) := by
  have hlive : ServiceEntry.Live t e.json = ServiceEntry.Live t e := rfl
  unfold liveSnapshot
  rw [Option.filter_some, Option.filter_some, hlive]
  split_ifs
  · rw [Option.map_some, Option.map_some, h.toSnapshot_json]
  · rfl

theorem InStep.persisted (h : s.InStep t m) (hstep : s.Persisted m s')
    (hexact : s'.toServiceTable.Exact) : ∃ m', s'.InStep t m' := by
  cases hstep with
  | same hdata hengine =>
    exact ⟨m, hengine, h.fault, h.keeps, h.held, by rw [hdata]; exact h.sound,
      by rw [hdata]; exact h.live, hexact⟩
  | stored name e z data hsound hmarshal hdata hengine =>
    have hheld := Engine.held_store (m := m) hsound.port hsound.index hmarshal name
    refine ⟨m.store name e data, hengine, h.fault, h.keeps.store hsound.port hmarshal name,
      fun n e' he' => ?_, fun n e' he' => ?_, fun n => ?_, hexact⟩
    · rw [hheld] at he'
      split_ifs at he' with hn
      · cases he'
        exact sound_json hsound
      · exact h.held n e' he'
    · rw [hdata, GoMap.lookup_insert_ite] at he'
      split_ifs at he' with hn
      · cases he'
        exact hsound
      · exact h.sound n e' he'
    · rw [hheld, hdata, GoMap.lookup_insert_ite]
      split_ifs with hn
      · exact liveSnapshot_json hsound
      · exact h.live n
  | removed names hdata hengine =>
    refine ⟨m.removeAll names, hengine, h.fault, h.keeps.removeAll names, fun n e' he' => ?_,
      fun n e' he' => ?_, fun n => ?_, hexact⟩
    · rw [Engine.held_removeAll] at he'
      split_ifs at he'
      exact h.held n e' he'
    · rw [hdata, GoMap.lookup_eraseAll] at he'
      split_ifs at he'
      exact h.sound n e' he'
    · rw [Engine.held_removeAll, hdata, GoMap.lookup_eraseAll]
      split_ifs
      · rfl
      · exact h.live n

theorem held_mayBecome {now : Time} {m' : Engine} (h : m.MayBecome now m') (name : GoString) :
    m'.held name = m.held name ∨
      m'.held name = none ∧ ∀ e, m.held name = some e → e.expiresAt ≤ now := by
  unfold Engine.held
  cases hr : m.svcData.lookup name with
  | none => exact Or.inl (by rw [h.absent name hr])
  | some r =>
    rcases h.present name r hr with ⟨expiresAt, hr', -⟩ | ⟨hr', hexpired⟩
    · exact Or.inl (by rw [hr']; rfl)
    · refine Or.inr ⟨by rw [hr']; rfl, fun e he => ?_⟩
      obtain ⟨e', he', rfl⟩ := Option.map_eq_some_iff.mp he
      rw [ServiceEntry.migrate_expiresAt]
      exact hexpired e' he'

theorem InStep.mayBecome (h : s.InStep t m) {now : Time} (hnow : now ≤ t) {m' : Engine}
    (hstep : m.MayBecome now m') : InStep t { s with engine := some m' } m' := by
  refine ⟨rfl, hstep.fault, fun name r e hr he => ?_, fun name e he => ?_, h.sound, fun name => ?_,
    h.exact⟩
  · cases hold : m.svcData.lookup name with
    | none => rw [hstep.absent name hold] at hr; cases hr
    | some old =>
      rcases hstep.present name old hold with ⟨expiresAt, hr', hle⟩ | ⟨hr', -⟩
      · rw [hr'] at hr
        cases hr
        exact hle e he
      · rw [hr'] at hr
        cases hr
  · rcases held_mayBecome hstep name with heq | ⟨hnone, -⟩
    · exact h.held name e (heq ▸ he)
    · rw [hnone] at he
      cases he
  · rcases held_mayBecome hstep name with heq | ⟨hnone, hexpired⟩
    · rw [heq]
      exact h.live name
    · rw [hnone, ← h.live name]
      cases he : m.held name with
      | none => rfl
      | some e =>
        have hdead : ¬ ServiceEntry.Live t e = true := by
          have hle := (hexpired e he).trans hnow
          simpa [ServiceEntry.Live] using hle
        unfold liveSnapshot
        rw [Option.filter_some, if_neg hdead]
        rfl

/-- A store opened on an engine that works holds what the engine holds live. -/
theorem lookup_opened (hfault : m.fault = none) (hkeeps : m.Keeps) (ttl : Duration) (now : Time)
    (range : m.svcData.Order) (name : GoString) :
    (newWithPersistence ttl m now range).data.lookup name =
      (m.held name).filter (ServiceEntry.Live now) := by
  rw [lookup_newWithPersistence, Engine.loadService_eq hfault hkeeps]
  rfl

theorem InStep.restart (h : s.InStep t m) {now : Time} (hnow : now ≤ t) (ttl : Duration)
    (range : m.svcData.Order) : (newWithPersistence ttl m now range).InStep t m := by
  have hlookup := lookup_opened h.fault h.keeps ttl now range
  refine ⟨(newWithPersistence_engine ttl range).1, h.fault, h.keeps, h.held, fun name e he => ?_,
    fun name => ?_, newWithPersistence_exact ttl m now range⟩
  · rw [hlookup] at he
    exact h.held name e ((Option.filter_eq_some_iff.mp he).1)
  · rw [hlookup, liveSnapshot_filter hnow]

end ServiceStore

namespace Lifecycle

variable {t : Time} {s : ServiceStore}

theorem inStep_step (h : ∃ m, s.InStep t m) {i : Lifecycle} (hregular : i.Regular s)
    (hsettled : i.Settled t) : ∃ m, (i.apply s).InStep t m := by
  obtain ⟨m, h⟩ := h
  cases i with
  | call i =>
    have hpersisted := ServiceCall.persisted h.engine h.fault h.sound hregular
    exact h.persisted hpersisted (h.exact.moves (ServiceCall.moves s i.env i.call))
  | engine now m' => exact ⟨m', h.mayBecome hsettled (hregular m h.engine)⟩
  | restart now range =>
    refine ⟨m, ?_⟩
    have hrestart := h.restart hsettled s.ttl (range m)
    unfold apply
    rw [h.engine]
    exact hrestart

end Lifecycle

namespace ServiceStore

/-- A store opened at `t` on the engine of this one holds its live entries, checks aside,
and answers every query at `t` like it. -/
def ReloadsAt (s : ServiceStore) (t : Time) : Prop :=
  ∀ m, s.engine = some m → ∀ (ttl : Duration) (range : m.svcData.Order),
    (∀ name, ((newWithPersistence ttl m t range).data.lookup name).map ServiceEntry.toSnapshot =
      ((s.data.lookup name).filter fun e => t < e.expiresAt).map ServiceEntry.toSnapshot) ∧
    ServiceTable.AnswersAlike t (newWithPersistence ttl m t range).toServiceTable s.toServiceTable

theorem InStep.reloadsAt {t : Time} {s : ServiceStore} {m : Engine} (h : s.InStep t m) :
    s.ReloadsAt t := by
  intro m' hm' ttl range
  rw [h.engine] at hm'
  cases hm'
  have hlookup := lookup_opened h.fault h.keeps ttl t range
  have hlive (name : GoString) :
      liveSnapshot t ((newWithPersistence ttl m t range).data.lookup name) =
        liveSnapshot t (s.data.lookup name) := by
    rw [hlookup, liveSnapshot_filter le_rfl, h.live]
  refine ⟨fun name => ?_, ?_⟩
  · rw [hlookup]
    exact h.live name
  · exact ServiceTable.answersAlike (newWithPersistence_exact ttl m t range).mirrored
      h.exact.mirrored hlive

/-- In a run from a store on an empty engine, whose operations persist what they do, the
store reloads as it is. -/
theorem service_reload (ttl : Duration) (run : List Lifecycle) (t : Time)
    (hregular : Lifecycle.machine.Along (fun s i => i.Regular s)
      (TimedCall.opened ttl (some Engine.new)) run)
    (hsettled : ∀ i ∈ run, i.Settled t) :
    (Lifecycle.machine.run (TimedCall.opened ttl (some Engine.new)) run).1.ReloadsAt t := by
  have hopened : ∃ m, (TimedCall.opened ttl (some Engine.new)).InStep t m :=
    ⟨Engine.new, rfl, rfl, fun _ _ _ h => (nomatch h), fun _ _ h => (nomatch h),
      fun _ _ h => (nomatch h), fun _ => rfl, ServiceTable.exact_empty 0⟩
  have halong : Lifecycle.machine.Along (fun s i => i.Regular s ∧ i.Settled t)
      (TimedCall.opened ttl (some Engine.new)) run := by
    have hboth := Lifecycle.machine.along_of_forall (TimedCall.opened ttl (some Engine.new)) hsettled
    exact Machine.Along.and _ hregular hboth
  obtain ⟨m, h⟩ := @Machine.invariant _ _ _ Lifecycle.machine _ (fun s => ∃ m, s.InStep t m)
    (fun _ _ h hi => Lifecycle.inStep_step h hi.1 hi.2) _ _ hopened halong
  exact h.reloadsAt

/-! ### One service -/

def registerWeb (now : Time) : Lifecycle := .call ⟨.inUtc now, .register web noMetadata⟩

theorem text_web : web.Text := by
  refine ⟨by decide, by decide, fun tag htag => ?_, fun key value hvalue => ?_⟩
  · exact absurd htag List.not_mem_nil
  · exact absurd hvalue (by rw [show web.metadata.lookup key = none from rfl]; exact nofun)

theorem service_reload_web :
    (Lifecycle.machine.run (TimedCall.opened 10 (some Engine.new))
      [registerWeb 0, .restart 5 fun m => GoMap.sorted m.svcData]).1.ReloadsAt 6 := by
  refine service_reload 10 _ 6 ⟨?_, trivial, trivial⟩ fun i hi => ?_
  · exact ⟨⟨Rfc3339.utc, rfl, by decide⟩, text_web, ⟨by decide, by decide⟩, by decide⟩
  · rcases List.mem_pair.mp hi with rfl | rfl
    · trivial
    · exact (by decide : (5 : Time) ≤ 6)

/-! ### What is not reloaded -/

theorem ReloadsAt.load {s : ServiceStore} {t : Time} (h : s.ReloadsAt t) {m : Engine}
    (hm : s.engine = some m) {name : GoString} {e : ServiceEntry}
    (he : s.data.lookup name = some e) (hlive : t < e.expiresAt) :
    ∃ e', loadService m t name = some e' ∧ e'.modifyIndex = e.modifyIndex := by
  have hload := (h m hm 0 (GoMap.sorted m.svcData)).1 name
  rw [lookup_newWithPersistence, he, Option.filter_some, if_pos (decide_eq_true hlive),
    Option.map_some] at hload
  obtain ⟨e', he', hsame⟩ := Option.map_eq_some_iff.mp hload
  exact ⟨e', he', congrArg ServiceEntrySnapshot.modifyIndex hsame⟩

/-- The counter after a number of registrations, and the index the last one took. -/
theorem after_registrations (n : ℕ) :
    let s := (Lifecycle.machine.run (TimedCall.opened 10 (some Engine.new))
      (List.replicate n (registerWeb 0))).1
    s.ttl = 10 ∧ s.globalIndex = UInt64.ofNat n ∧ s.engine.isSome ∧
      (n ≠ 0 → ∃ e, s.data.lookup web.name = some e ∧ e.modifyIndex = UInt64.ofNat n ∧
        e.expiresAt = 10) := by
  induction n with
  | zero => exact ⟨rfl, rfl, rfl, fun h => absurd rfl h⟩
  | succ n ih =>
    rw [List.replicate_succ', Machine.run_snoc]
    generalize (Lifecycle.machine.run _ (List.replicate n (registerWeb 0))).1 = s at ih
    obtain ⟨httl, hindex, hengine, -⟩ := ih
    have hvalid : validateService web noMetadata = none := by decide
    have hstep : (Lifecycle.machine.step s (registerWeb 0)).1 = (s.registered (.inUtc 0) web).1 := by
      simp only [Lifecycle.machine, registerWeb, Lifecycle.apply, ServiceCall.apply, register, hvalid]
    have htable := s.registered_toServiceTable (.inUtc 0) web
    have hnext : s.globalIndex + 1 = UInt64.ofNat (n + 1) := by
      rw [hindex, UInt64.ofNat_add]
      rfl
    have hdata : (s.registered (.inUtc 0) web).1.data =
        s.data.insert web.name (s.toServiceTable.newEntry
          (completeChecks (StoreEnv.inUtc 0).toEnv web) (0 + s.ttl)) :=
      (congrArg ServiceTable.data htable).trans (ServiceTable.put_data ..)
    have hglobal : (s.registered (.inUtc 0) web).1.globalIndex = s.globalIndex + 1 :=
      (congrArg ServiceTable.globalIndex htable).trans (ServiceTable.put_globalIndex ..)
    have hframe : (s.registered (.inUtc 0) web).1.ttl = s.ttl ∧
        (s.registered (.inUtc 0) web).1.engine.isSome = s.engine.isSome := persistEntry_frame ..
    dsimp only
    rw [hstep, hdata, hglobal, hframe.1, hframe.2]
    refine ⟨httl, hnext, hengine, fun _ => ⟨_, Finmap.lookup_insert _, hnext, ?_⟩⟩
    · change 0 + s.ttl = 10
      rw [httl]
      rfl

/-- A registration from the log, an index that is zero and an expiry past the year 9999. -/
theorem not_reloaded :
    (¬ (Lifecycle.machine.run (TimedCall.opened 10 (some Engine.new))
      [.call ⟨.inUtc 0, .registerLocal web.toSnapshot noMetadata⟩]).1.ReloadsAt 0) ∧
    (¬ (Lifecycle.machine.run (TimedCall.opened 10 (some Engine.new))
      (List.replicate (2 ^ 64) (registerWeb 0))).1.ReloadsAt 0) ∧
    ¬ (Lifecycle.machine.run (TimedCall.opened 10 (some Engine.new))
      [registerWeb 253402300800000000000]).1.ReloadsAt 253402300800000000000 := by
  refine ⟨fun h => ?_, fun h => ?_, fun h => ?_⟩
  · obtain ⟨e, he, -⟩ := @ServiceStore.ReloadsAt.load _ _ h Engine.new rfl web.name _ rfl (by decide)
    cases he
  · obtain ⟨-, -, hengine, hentry⟩ := after_registrations (2 ^ 64)
    obtain ⟨m, hm⟩ := Option.isSome_iff_exists.mp hengine
    obtain ⟨e, he, hindex, hexpires⟩ := hentry (by decide)
    have hlive : 0 < e.expiresAt := by rw [hexpires]; decide
    obtain ⟨e', he', hsame⟩ := h.load hm he hlive
    have hzero : e'.modifyIndex = 0 := by
      rw [hsame, hindex]
      rfl
    exact loadService_modifyIndex he' hzero
  · obtain ⟨e, he, -⟩ := @ServiceStore.ReloadsAt.load _ _ h Engine.new rfl web.name _ rfl (by decide)
    cases he

end ServiceStore

end Konsul
