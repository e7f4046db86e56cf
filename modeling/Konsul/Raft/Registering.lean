import Konsul.Raft.Effects
import Konsul.Raft.SnapshotReplay
import Konsul.Store.ServiceChecks

/-!
# Registering through the log

A node of a cluster registers a service from the JSON text of the command and
leaves the health checks to be "handled locally on each node", which no code does.
A node that runs alone registers both. The two leave the same services behind only
where there are no checks and JSON text keeps every string.
-/

namespace Konsul

open GoLib
open ServiceStore (addChecks completeChecks)

/-- A registration; a compare-and-swap if it expects an index. -/
def ServiceCommand.registration (service : Service) : Option UInt64 → ServiceCommand
  | none => .register service
  | some expectedIndex => .registerCAS service expectedIndex

/-- The definition is valid, and the index is the expected one. -/
def ServiceTable.Accepts (t : ServiceTable) (service : Service) (expected : Option UInt64) : Prop :=
  service.Valid ∧ ∀ n ∈ expected, t.checkRegisterCAS service.name n = none

namespace ServiceStore

/-- The same entries, the same counter and the same health checks. -/
structure SameServices (a b : ServiceStore) : Prop where
  data : a.data = b.data
  globalIndex : a.globalIndex = b.globalIndex
  checks : a.healthManager = b.healthManager

/-- What either path would write is there, under two names, with the very index that is
next, and so are the checks. -/
structure HoldsBoth (s : ServiceStore) (env : StoreEnv) (service : Service) : Prop where
  ne : service.json.name ≠ service.name
  plain : s.data.lookup service.name = some (s.toServiceTable.newEntry
    (completeChecks env.toEnv service) (env.now + s.ttl))
  json : s.data.lookup service.json.name = some (s.toServiceTable.newEntry
    service.json.toSnapshot.toService (env.now + s.ttl))
  checks : addChecks s.healthManager env.toEnv (completeChecks env.toEnv service).checks =
    s.healthManager

/-- The registration asks for no more than the log carries. -/
def Carried (s : ServiceStore) (env : StoreEnv) (service : Service) (expected : Option UInt64) :
    Prop :=
  s.toServiceTable.Accepts service expected ∨ s.toServiceTable.Accepts service.json expected →
    service.checks = [] ∧ service.Text ∨
      s.toServiceTable.Accepts service expected ∧
        s.toServiceTable.Accepts service.json expected ∧ s.HoldsBoth env service

end ServiceStore

namespace ServiceTable

variable {t : ServiceTable} {service : Service}

theorem accepts_none_iff (range : service.metadata.Order) :
    t.Accepts service none ↔ validateService service range = none := by
  rw [← service.valid_iff range]
  exact and_iff_left fun n hn => nomatch hn

theorem accepts_some_iff (range : service.metadata.Order) (n : UInt64) :
    t.Accepts service (some n) ↔
      validateService service range = none ∧ t.checkRegisterCAS service.name n = none := by
  rw [← service.valid_iff range]
  exact and_congr_right' ⟨fun h => h n rfl, fun h m hm => Option.mem_some_iff.mp hm ▸ h⟩

end ServiceTable

namespace ServiceStore

variable {s : ServiceStore} {env : StoreEnv} {service : Service}

theorem completeChecks_eq_iff :
    completeChecks env.toEnv service = service.json.toSnapshot.toService ↔
      service.checks = [] ∧ service.Text := by
  constructor
  · intro h
    have hchecks : (completeChecks env.toEnv service).checks = [] := congrArg Service.checks h
    have hdata : service.toSnapshot = service.toSnapshot.json := congrArg Service.toSnapshot h
    refine ⟨?_, Service.toSnapshot_json_iff.mp hdata.symm⟩
    have hlength := congrArg List.length hchecks
    rw [completeChecks, List.length_map, List.length_zipIdx] at hlength
    exact List.length_eq_zero_iff.mp hlength
  · rintro ⟨hchecks, htext⟩
    have hdata : service.json.toSnapshot = service.toSnapshot := htext.toSnapshot_json
    rw [hdata, completeChecks, hchecks]
    rfl

theorem sameServices_registered_iff :
    SameServices (s.registered env service).1
        { s with toServiceTable :=
          s.toServiceTable.put service.json.toSnapshot.toService (env.now + s.ttl) } ↔
      service.checks = [] ∧ service.Text ∨ s.HoldsBoth env service := by
  have htable := s.registered_toServiceTable env service
  have hdata : (s.registered env service).1.data = s.data.insert service.name
      (s.toServiceTable.newEntry (completeChecks env.toEnv service) (env.now + s.ttl)) :=
    (congrArg ServiceTable.data htable).trans (ServiceTable.put_data ..)
  have hglobal : (s.registered env service).1.globalIndex = s.globalIndex + 1 :=
    (congrArg ServiceTable.globalIndex htable).trans (ServiceTable.put_globalIndex ..)
  have hmanager := s.registered_healthManager env service
  have hjson : (s.toServiceTable.put service.json.toSnapshot.toService (env.now + s.ttl)).data =
      s.data.insert service.json.name (s.toServiceTable.newEntry
        service.json.toSnapshot.toService (env.now + s.ttl)) := ServiceTable.put_data ..
  have hjsonGlobal := s.toServiceTable.put_globalIndex service.json.toSnapshot.toService
    (env.now + s.ttl)
  constructor
  · rintro ⟨hsame, -, hchecks⟩
    rw [hmanager] at hchecks
    change _ = (s.toServiceTable.put _ _).data at hsame
    rw [hdata, hjson] at hsame
    by_cases hname : service.json.name = service.name
    · rw [hname] at hsame
      have hentry := congrArg (Finmap.lookup service.name) hsame
      rw [Finmap.lookup_insert, Finmap.lookup_insert, Option.some_inj] at hentry
      have hservice := congrArg ServiceEntry.service hentry
      exact Or.inl (completeChecks_eq_iff.mp hservice)
    · have hplain := congrArg (Finmap.lookup service.name) hsame
      have hother := congrArg (Finmap.lookup service.json.name) hsame
      rw [Finmap.lookup_insert, Finmap.lookup_insert_of_ne _ (Ne.symm hname)] at hplain
      rw [Finmap.lookup_insert, Finmap.lookup_insert_of_ne _ hname] at hother
      exact Or.inr ⟨hname, hplain.symm, hother, hchecks⟩
  · rintro (hcarried | hboth)
    · have hservice := (@completeChecks_eq_iff env service).mpr hcarried
      rw [hservice] at hdata hmanager
      have hname : service.json.name = service.name := Utf8.toValid_of_valid hcarried.2.name
      refine ⟨hdata.trans (hname ▸ hjson.symm), hglobal.trans hjsonGlobal.symm, hmanager⟩
    · have hplain := GoMap.insert_of_lookup hboth.plain
      have hother := GoMap.insert_of_lookup hboth.json
      exact ⟨(hdata.trans hplain).trans (hjson.trans hother).symm, hglobal.trans hjsonGlobal.symm,
        hmanager.trans hboth.checks⟩

end ServiceStore

namespace FSM

variable (f : FSM) (env : StoreEnv) (service : Service) (expected : Option UInt64)

theorem callServiceStore_registration (ch : (ServiceCommand.registration service expected).Choice) :
    (f.serviceStore.toServiceTable.Accepts service expected ∧
      (f.callServiceStore env (.registration service expected) ch).1.serviceStore =
        (f.serviceStore.registered env service).1) ∨
    ¬ f.serviceStore.toServiceTable.Accepts service expected ∧
      (f.callServiceStore env (.registration service expected) ch).1.serviceStore =
        f.serviceStore := by
  cases expected with
  | none =>
    rw [ServiceTable.accepts_none_iff ch]
    simp only [ServiceCommand.registration, callServiceStore, ServiceStore.register]
    cases validateService service ch with
    | some err => exact Or.inr ⟨fun h => (by cases h), rfl⟩
    | none => exact Or.inl ⟨rfl, rfl⟩
  | some n =>
    rw [ServiceTable.accepts_some_iff ch]
    simp only [ServiceCommand.registration, callServiceStore, ServiceStore.registerCAS]
    cases validateService service ch with
    | some err => exact Or.inr ⟨fun h => (by cases h.1), rfl⟩
    | none =>
      cases f.serviceStore.toServiceTable.checkRegisterCAS service.name n with
      | some err => exact Or.inr ⟨fun h => (by cases h.2), rfl⟩
      | none => exact Or.inl ⟨⟨rfl, rfl⟩, rfl⟩

theorem apply_registration (now : Time)
    (ch : (ServiceCommand.registration service expected).json.Choice) :
    (f.serviceStore.toServiceTable.Accepts service.json expected ∧
      (f.apply now (.service (ServiceCommand.registration service expected).json) ch).1.serviceStore =
        { f.serviceStore with
          toServiceTable := f.serviceStore.toServiceTable.put service.json.toSnapshot.toService
            (now + f.serviceStore.ttl) }) ∨
    ¬ f.serviceStore.toServiceTable.Accepts service.json expected ∧
      (f.apply now (.service (ServiceCommand.registration service expected).json) ch).1.serviceStore =
        f.serviceStore := by
  cases expected with
  | none =>
    have hdata : f.serviceStore.toServiceTable.Accepts service.json none ↔
        validateService service.json.toSnapshot.toService ch = none :=
      @ServiceTable.accepts_none_iff _ service.json ch
    rw [hdata]
    simp only [ServiceCommand.registration, ServiceCommand.json, apply, applyService, serviceData,
      ServiceStore.registerLocal]
    cases validateService service.json.toSnapshot.toService ch with
    | some err => exact Or.inr ⟨fun h => (by cases h), rfl⟩
    | none => exact Or.inl ⟨rfl, rfl⟩
  | some n =>
    have hdata : f.serviceStore.toServiceTable.Accepts service.json (some n) ↔
        validateService service.json.toSnapshot.toService ch = none ∧
          f.serviceStore.toServiceTable.checkRegisterCAS service.json.toSnapshot.name n = none :=
      @ServiceTable.accepts_some_iff _ service.json ch n
    rw [hdata]
    simp only [ServiceCommand.registration, ServiceCommand.json, apply, applyService, serviceData,
      ServiceStore.registerCASLocal]
    cases validateService service.json.toSnapshot.toService ch with
    | some err => exact Or.inr ⟨fun h => (by cases h.1), rfl⟩
    | none =>
      cases f.serviceStore.toServiceTable.checkRegisterCAS service.json.toSnapshot.name n with
      | some err => exact Or.inr ⟨fun h => (by cases h.2), rfl⟩
      | none => exact Or.inl ⟨⟨rfl, rfl⟩, rfl⟩

theorem accepts_json_iff {t : ServiceTable} {service : Service} (h : service.Text)
    (expected : Option UInt64) : t.Accepts service.json expected ↔ t.Accepts service expected := by
  have hdata : service.json.toSnapshot = service.toSnapshot := h.toSnapshot_json
  have hservice : service.json.toSnapshot.toService = service.toSnapshot.toService := by rw [hdata]
  have hjson : t.Accepts service.json expected ↔
      t.Accepts service.json.toSnapshot.toService expected := Iff.rfl
  rw [hjson, hservice]
  exact Iff.rfl

/-- The two paths of a registration leave the same services iff it asks for no more than
the log carries, and then the same indexes too. -/
theorem registration_paths_agree_iff (ch : (ServiceCommand.registration service expected).Choice)
    (ch' : (ServiceCommand.registration service expected).json.Choice) :
    let a := (f.callServiceStore env (.registration service expected) ch).1.serviceStore
    let b := (f.apply env.now (.service (ServiceCommand.registration service expected).json)
      ch').1.serviceStore
    (a.SameServices b ↔ f.serviceStore.Carried env service expected) ∧
      (service.checks = [] → service.Text → a.toServiceTable = b.toServiceTable) := by
  intro a b
  have htext (h : service.Text) := accepts_json_iff (t := f.serviceStore.toServiceTable) h expected
  have hcounter : f.serviceStore.globalIndex + 1 ≠ f.serviceStore.globalIndex :=
    add_one_ne_self _
  have hregistered : (f.serviceStore.registered env service).1.globalIndex =
      f.serviceStore.globalIndex + 1 :=
    (congrArg ServiceTable.globalIndex (f.serviceStore.registered_toServiceTable env service)).trans
      (ServiceTable.put_globalIndex ..)
  -- each path writes its entry if it accepts the registration, and does nothing if not
  rcases f.callServiceStore_registration env service expected ch with ⟨hplain, ha⟩ | ⟨hplain, ha⟩ <;>
    rcases f.apply_registration service expected env.now ch' with ⟨hjson, hb⟩ | ⟨hjson, hb⟩ <;>
    change a = _ at ha <;> change b = _ at hb <;> rw [ha, hb]
  · refine ⟨ServiceStore.sameServices_registered_iff.trans ⟨fun h _ => ?_, fun h => ?_⟩,
      fun hchecks htext => ?_⟩
    · exact h.imp_right fun hboth => ⟨hplain, hjson, hboth⟩
    · exact (h (.inl hplain)).imp_right fun hboth => hboth.2.2
    · have hservice := (@ServiceStore.completeChecks_eq_iff env service).mpr ⟨hchecks, htext⟩
      rw [ServiceStore.registered_toServiceTable, hservice]
  · refine ⟨iff_of_false (fun h => hcounter (hregistered.symm.trans h.globalIndex)) fun h => ?_,
      fun _ ht => absurd ((htext ht).mpr hplain) hjson⟩
    rcases h (.inl hplain) with ⟨-, ht⟩ | ⟨-, haccepts, -⟩
    · exact hjson ((htext ht).mpr hplain)
    · exact hjson haccepts
  · have hput := f.serviceStore.toServiceTable.put_globalIndex service.json.toSnapshot.toService
      (env.now + f.serviceStore.ttl)
    refine ⟨iff_of_false (fun h => hcounter (hput.symm.trans h.globalIndex.symm)) fun h => ?_,
      fun _ ht => absurd ((htext ht).mp hjson) hplain⟩
    rcases h (.inr hjson) with ⟨-, ht⟩ | ⟨haccepts, -⟩
    · exact hplain ((htext ht).mp hjson)
    · exact hplain haccepts
  · refine ⟨iff_of_true ⟨rfl, rfl, rfl⟩ fun h => ?_, fun _ _ => rfl⟩
    exact (h.elim hplain hjson).elim

end FSM

namespace ServiceStore

variable {s : ServiceStore} {env : StoreEnv} {service : Service}

theorem updateTTLCheck_registered {d : CheckDefinition}
    (hd : d ∈ (completeChecks env.toEnv service).checks)
    (hkind : ∀ d' ∈ (completeChecks env.toEnv service).checks, d'.id = d.id →
      Manager.checkType d' = .ttl) (now : Time) :
    ((s.registered env service).1.updateTTLCheck now d.id).2 = none := by
  obtain ⟨d', hd', hid, hlookup⟩ := @Manager.lookup_addChecks_of_mem s.healthManager env.toEnv _ _
    (List.mem_map_of_mem (f := CheckDefinition.id) hd)
  have htype : (Manager.newCheck env.toEnv d').type = .ttl := hkind d' hd' hid
  rw [updateTTLCheck, registered_healthManager]
  simp only [Manager.updateTTLCheck, hlookup, htype, ne_eq, not_true_eq_false, ite_false]

end ServiceStore

namespace FSM

/-- A service with one TTL check. -/
def beating : Service :=
  { web with
    checks := [{ id := str "web-1", name := [], serviceID := [], http := [], tcp := [], grpc := []
                 ttl := str "30s", interval := [], timeout := [], method := [], headers := ∅
                 tlsSkipVerify := false, grpcUseTLS := false }] }

/-- Registered alone its check can be updated; registered through the log it cannot. -/
theorem ttl_check_not_found :
    let a := ((fresh 10).callServiceStore (TimedCall.envAt 0) (.register beating) (GoMap.sorted _)).1
    let b := ((fresh 10).apply 0 (.service (.register beating.json)) (GoMap.sorted _)).1
    ¬ a.serviceStore.SameServices b.serviceStore ∧
      (a.callServiceStore (TimedCall.envAt 1) (.ttlUpdate (str "web-1")) ()).2.err = none ∧
      (b.apply 1 (.service (.ttlUpdate (str "web-1"))) ()).2 =
        .err (some (.text (str "check not found"))) := by
  refine ⟨fun h => ?_, rfl, rfl⟩
  exact absurd h.checks (by decide)

end FSM

end Konsul
