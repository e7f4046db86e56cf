import Konsul.HealthCheck.Listing
import Konsul.Store.Expired

/-!
# Checks and registrations

The checks the health manager lists for a name are those of the name's entry in
the service table as long as every step is `InStep`: a registration replaces the
checks of its service and no others, and a service that goes has no checks.
-/

namespace Konsul

open GoLib
open ServiceStore (addChecks completeChecks)

/-- The checks of the latest registration of a name; none once it is gone. -/
def ServiceTable.registeredChecks (t : ServiceTable) (name : GoString) : List CheckDefinition :=
  match t.data.lookup name with
  | some entry => entry.service.checks
  | none => []

namespace ServiceStore

def getHealthChecks (s : ServiceStore) (now : Time) (serviceName : GoString)
    (range : s.healthManager.checks.Order) : ServiceStore × List Check :=
  let r := s.healthManager.listChecks now range
  ({ s with healthManager := r.1 }, r.2.filter (·.serviceID = serviceName))

/-- Whenever the checks of a name are asked for, they are those of its latest registration. -/
def ChecksFollow (parse : GoString → Option Duration) (s : ServiceStore) : Prop :=
  ∀ now name (range : s.healthManager.checks.Order) c,
    c ∈ (s.getHealthChecks now name range).2.map Check.fixed ↔
      c ∈ (s.toServiceTable.registeredChecks name).map (CheckDefinition.check parse)

theorem checksFollow_iff (parse : GoString → Option Duration) (s : ServiceStore) :
    s.ChecksFollow parse ↔ ∀ name c, s.healthManager.Lists name c ↔
      c ∈ (s.toServiceTable.registeredChecks name).map (CheckDefinition.check parse) := by
  constructor
  · intro h name c
    rw [← h 0 name (GoMap.sorted _) c]
    exact (s.healthManager.mem_listed_iff 0 _ name c).symm
  · intro h now name range c
    rw [← h name c]
    exact s.healthManager.mem_listed_iff now range name c

theorem persist_healthManager (s : ServiceStore) (call : Engine → Engine × Option GoError) :
    (s.persist call).1.healthManager = s.healthManager := by
  unfold persist
  split <;> rfl

theorem persistEntry_healthManager (s : ServiceStore) (env : StoreEnv) (name : GoString)
    (entry : ServiceEntry) :
    (s.persistEntry env name entry).1.healthManager = s.healthManager := by
  unfold persistEntry
  split
  · rfl
  · split
    · rfl
    · exact s.persist_healthManager _

theorem registered_healthManager (s : ServiceStore) (env : StoreEnv) (service : Service) :
    (s.registered env service).1.healthManager =
      addChecks s.healthManager env.toEnv (completeChecks env.toEnv service).checks :=
  persistEntry_healthManager ..

end ServiceStore

namespace ServiceTable

variable (t : ServiceTable)

theorem registeredChecks_put (service : Service) (expiresAt : Time) (name : GoString) :
    (t.put service expiresAt).registeredChecks name =
      if name = service.name then service.checks else t.registeredChecks name := by
  simp only [registeredChecks, put_data, GoMap.lookup_insert_ite]
  split_ifs with hname
  · rfl
  · rfl

theorem registeredChecks_remove (removed name : GoString) :
    (t.remove removed).registeredChecks name =
      if name = removed then [] else t.registeredChecks name := by
  simp only [registeredChecks, remove_data, GoMap.lookup_erase_ite]
  split_ifs with hname
  · rfl
  · rfl

theorem registeredChecks_removeAll (names : List GoString) (name : GoString) :
    (t.removeAll names).registeredChecks name =
      if name ∈ names then [] else t.registeredChecks name := by
  simp only [registeredChecks, removeAll_data, GoMap.lookup_eraseAll]
  split_ifs with hname
  · rfl
  · rfl

theorem registeredChecks_touch {touched : GoString} {entry : ServiceEntry}
    (h : t.data.lookup touched = some entry) (expiresAt : Time) (name : GoString) :
    (t.touch touched entry expiresAt).registeredChecks name = t.registeredChecks name := by
  simp only [registeredChecks, touch, GoMap.lookup_insert_ite]
  split_ifs with hname
  · rw [hname, h]
  · rfl

end ServiceTable

/-! ### What an operation does to checks and registrations -/

namespace ServiceCall

/-- The registration with checks that the operation makes, once it is accepted. -/
def registers (s : ServiceStore) : ServiceCall → Option Service
  | register service _ => if service.Valid then some service else none
  | registerCAS service _ expectedIndex =>
    if service.Valid ∧ s.toServiceTable.checkRegisterCAS service.name expectedIndex = none then
      some service
    else none
  | _ => none

/-- The names whose service the operation removes, or registers without checks. -/
def retires (s : ServiceStore) (now : Time) : ServiceCall → List GoString
  | deregister name => [name]
  | deregisterCAS name expectedIndex =>
    if s.toServiceTable.checkDeregisterCAS name expectedIndex = none then [name] else []
  | registerLocal serviceData _ => if serviceData.toService.Valid then [serviceData.name] else []
  | registerCASLocal serviceData _ expectedIndex =>
    if serviceData.toService.Valid ∧
        s.toServiceTable.checkRegisterCAS serviceData.name expectedIndex = none then
      [serviceData.name]
    else []
  | deregisterLocal name => [name]
  | deregisterCASLocal name expectedIndex =>
    if s.toServiceTable.checkDeregisterCAS name expectedIndex = none then [name] else []
  | cleanupExpired => s.toServiceTable.expired now
  | _ => []

/-- `s'` is `s` after a registration of `service` with its checks. -/
structure Registered (env : Env) (service : Service) (s s' : ServiceStore) : Prop where
  manager : s'.healthManager = addChecks s.healthManager env (completeChecks env service).checks
  checks : ∀ name, s'.toServiceTable.registeredChecks name =
    if name = service.name then (completeChecks env service).checks
    else s.toServiceTable.registeredChecks name

/-- `s'` is `s` without the registrations of `names`, its listings unchanged. -/
structure Retired (names : List GoString) (s s' : ServiceStore) : Prop where
  keyed : s.healthManager.Keyed → s'.healthManager.Keyed
  lists : ∀ name c, s'.healthManager.Lists name c ↔ s.healthManager.Lists name c
  checks : ∀ name, s'.toServiceTable.registeredChecks name =
    if name ∈ names then [] else s.toServiceTable.registeredChecks name

theorem Retired.refl (s : ServiceStore) : Retired [] s s :=
  ⟨id, fun _ _ => Iff.rfl, fun _ => rfl⟩

section Effect

variable {s s' : ServiceStore} {env : StoreEnv}

theorem Retired.of_table {names : List GoString} (hmanager : s'.healthManager = s.healthManager)
    (hchecks : ∀ name, s'.toServiceTable.registeredChecks name =
      if name ∈ names then [] else s.toServiceTable.registeredChecks name) :
    Retired names s s' :=
  ⟨fun h => hmanager ▸ h, fun name c => by rw [hmanager], hchecks⟩

theorem Retired.remove {name : GoString} (hmanager : s'.healthManager = s.healthManager)
    (htable : s'.toServiceTable = s.toServiceTable.remove name) : Retired [name] s s' := by
  refine .of_table hmanager fun n => ?_
  rw [htable, ServiceTable.registeredChecks_remove]
  simp only [List.mem_singleton]

theorem Retired.put {service : Service} {expiresAt : Time} (hnone : service.checks = [])
    (hmanager : s'.healthManager = s.healthManager)
    (htable : s'.toServiceTable = s.toServiceTable.put service expiresAt) :
    Retired [service.name] s s' := by
  refine .of_table hmanager fun n => ?_
  rw [htable, ServiceTable.registeredChecks_put, hnone]
  simp only [List.mem_singleton]

theorem Retired.touch {name : GoString} {entry : ServiceEntry} {expiresAt : Time}
    (hentry : s.data.lookup name = some entry) (hmanager : s'.healthManager = s.healthManager)
    (htable : s'.toServiceTable = s.toServiceTable.touch name entry expiresAt) :
    Retired [] s s' := by
  refine .of_table hmanager fun n => ?_
  rw [htable, ServiceTable.registeredChecks_touch _ hentry, if_neg List.not_mem_nil]

theorem Retired.update {id : GoString} {check check' : Check}
    (hcheck : s.healthManager.checks.lookup id = some check) (hsame : check'.fixed = check.fixed) :
    Retired [] s { s with healthManager := ⟨s.healthManager.checks.insert id check'⟩ } := by
  have hid : check'.id = check.id := Check.id_of_fixed hsame
  have hservice : check'.serviceID = check.serviceID :=
    Check.serviceID_of_fixed hsame
  refine ⟨fun hkeyed id' c hlookup => ?_, fun name c => ?_, fun _ => rfl⟩
  · simp only [GoMap.lookup_insert_ite] at hlookup
    split_ifs at hlookup with heq
    · cases hlookup
      exact (hid.trans (hkeyed id check hcheck)).trans heq.symm
    · exact hkeyed id' c hlookup
  · simp only [Manager.Lists, GoMap.lookup_insert_ite]
    constructor
    · rintro ⟨id', c', hlookup, hname, rfl⟩
      split_ifs at hlookup with heq
      · cases hlookup
        exact ⟨id, check, hcheck, hservice.symm.trans hname, hsame.symm⟩
      · exact ⟨id', c', hlookup, hname, rfl⟩
    · rintro ⟨id', c', hlookup, hname, rfl⟩
      by_cases heq : id' = id
      · rw [heq, hcheck, Option.some_inj] at hlookup
        rw [← hlookup] at hname ⊢
        exact ⟨id, check', if_pos rfl, hservice.trans hname, hsame⟩
      · exact ⟨id', c', (if_neg heq).trans hlookup, hname, rfl⟩

theorem Retired.updateTTLCheck (s : ServiceStore) (now : Time) (checkID : GoString) :
    Retired [] s (s.updateTTLCheck now checkID).1 := by
  unfold ServiceStore.updateTTLCheck Manager.updateTTLCheck
  cases hcheck : s.healthManager.checks.lookup checkID with
  | none => exact .refl s
  | some check =>
    dsimp only
    by_cases htype : check.type ≠ .ttl
    · rw [if_pos htype]
      exact .refl s
    · rw [if_neg htype]
      exact .update hcheck rfl

theorem Registered.of_registered (s : ServiceStore) (env : StoreEnv) (service : Service) :
    Registered env.toEnv service s (s.registered env service).1 := by
  refine ⟨s.registered_healthManager env service, fun name => ?_⟩
  rw [ServiceStore.registered_toServiceTable, ServiceTable.registeredChecks_put]
  rfl

/-- Every operation makes the registration it `registers`, or else retires those it `retires`. -/
theorem apply_effect (s : ServiceStore) (env : StoreEnv) (call : ServiceCall) :
    match call.registers s with
    | some service => Registered env.toEnv service s (call.apply s env).1
    | none => Retired (call.retires s env.now) s (call.apply s env).1 := by
  cases call with
  | register service range =>
    simp only [registers, retires, apply, ServiceStore.register, service.valid_iff range]
    cases hvalid : validateService service range with
    | none => exact .of_registered s env service
    | some err => exact .refl s
  | registerCAS service range expectedIndex =>
    simp only [registers, retires, apply, ServiceStore.registerCAS, service.valid_iff range]
    cases hvalid : validateService service range with
    | none =>
      cases hcas : s.toServiceTable.checkRegisterCAS service.name expectedIndex with
      | none => exact .of_registered s env service
      | some err => exact .refl s
    | some err => exact .refl s
  | heartbeat name =>
    simp only [registers, retires, apply, ServiceStore.heartbeat]
    cases hentry : s.data.lookup name with
    | none => exact .refl s
    | some entry =>
      exact .touch hentry (ServiceStore.persistEntry_healthManager ..)
        (ServiceStore.persistEntry_toServiceTable ..)
  | deregister name =>
    exact .remove (ServiceStore.persist_healthManager ..) (ServiceStore.persist_toServiceTable ..)
  | deregisterCAS name expectedIndex =>
    simp only [registers, retires, apply, ServiceStore.deregisterCAS]
    cases hcas : s.toServiceTable.checkDeregisterCAS name expectedIndex with
    | none =>
      exact .remove (ServiceStore.persist_healthManager ..)
        (ServiceStore.persist_toServiceTable ..)
    | some err => exact .refl s
  | registerLocal serviceData range =>
    simp only [registers, retires, apply, ServiceStore.registerLocal,
      serviceData.toService.valid_iff range]
    cases hvalid : validateService serviceData.toService range with
    | none => exact @Retired.put s _ serviceData.toService (env.now + s.ttl) rfl rfl rfl
    | some err => exact .refl s
  | registerCASLocal serviceData range expectedIndex =>
    simp only [registers, retires, apply, ServiceStore.registerCASLocal,
      serviceData.toService.valid_iff range]
    cases hvalid : validateService serviceData.toService range with
    | none =>
      cases hcas : s.toServiceTable.checkRegisterCAS serviceData.name expectedIndex with
      | none => exact @Retired.put s _ serviceData.toService (env.now + s.ttl) rfl rfl rfl
      | some err => exact .refl s
    | some err => exact .refl s
  | heartbeatLocal name =>
    simp only [registers, retires, apply, ServiceStore.heartbeatLocal]
    cases hentry : s.data.lookup name with
    | none => exact .refl s
    | some entry => exact .touch hentry rfl rfl
  | deregisterLocal name => exact .remove rfl rfl
  | deregisterCASLocal name expectedIndex =>
    simp only [registers, retires, apply, ServiceStore.deregisterCASLocal]
    cases hcas : s.toServiceTable.checkDeregisterCAS name expectedIndex with
    | none => exact .remove rfl rfl
    | some err => exact .refl s
  | updateTTLCheck checkID => exact .updateTTLCheck s env.now checkID
  | cleanupExpired =>
    refine .of_table (s.cleanupExpired_keeps env.now).2.1 fun name => ?_
    simp only [apply, ServiceStore.cleanupExpired_toServiceTable, retires]
    exact s.toServiceTable.registeredChecks_removeAll _ name
  | get name => exact .refl s
  | getEntry name => exact .refl s
  | list range => exact .refl s
  | queryByTags tags range => exact .refl s
  | queryByMetadata filters first rest range => exact .refl s
  | queryByTagsAndMetadata later tags filters first rest range => exact .refl s

end Effect

end ServiceCall

/-! ### Runs -/

namespace TimedCall

/-- The machine whose durations are parsed by `parse`, as `time.ParseDuration` does. -/
def parsing (parse : GoString → Option Duration) : Machine ServiceStore TimedCall ServiceAnswer where
  step s i := i.call.apply s { i.env with parseDuration := parse }

/-- A registration gives the checks of its service to it, new identifiers for old ones
included, and to no other; a service that goes, or is registered without checks, has
none listed. -/
def InStep (parse : GoString → Option Duration) (s : ServiceStore) (i : TimedCall) : Prop :=
  match i.call.registers s with
  | some service =>
    s.healthManager.Replaces parse service.name (completeChecks i.env.toEnv service).checks
  | none => ∀ name ∈ i.call.retires s i.env.now, ∀ id, ¬ s.healthManager.Owned name id

variable {parse : GoString → Option Duration} {s s' : ServiceStore}

theorem follow_registered {env : Env} {service : Service} (henv : env.parseDuration = parse)
    (h : ServiceCall.Registered env service s s') (hkeyed : s.healthManager.Keyed)
    (hfollow : s.ChecksFollow parse) :
    s'.ChecksFollow parse ↔
      s.healthManager.Replaces parse service.name (completeChecks env service).checks := by
  subst henv
  rw [ServiceStore.checksFollow_iff] at hfollow ⊢
  constructor
  · intro hfollow'
    refine Manager.replaces_of_lists hkeyed (fun c => ?_) fun other hother c => ?_
    · rw [← h.manager, hfollow' service.name c, h.checks, if_pos rfl]
    · rw [← h.manager, hfollow' other c, h.checks, if_neg hother, hfollow other c]
  · intro hreplaces name c
    rw [h.manager, h.checks]
    split_ifs with hname
    · subst hname
      exact hreplaces.lists_own c
    · exact (hreplaces.lists_other hname c).trans (hfollow name c)

theorem follow_retired {names : List GoString} (h : ServiceCall.Retired names s s')
    (hfollow : s.ChecksFollow parse) :
    s'.ChecksFollow parse ↔ ∀ name ∈ names, ∀ id, ¬ s.healthManager.Owned name id := by
  rw [ServiceStore.checksFollow_iff] at hfollow ⊢
  constructor
  · intro hfollow' name hname id howned
    obtain ⟨c, hc⟩ := (s.healthManager.lists_iff_owned name).mpr ⟨id, howned⟩
    have hlisted := (hfollow' name c).mp ((h.lists name c).mpr hc)
    rw [h.checks, if_pos hname] at hlisted
    exact List.not_mem_nil hlisted
  · intro hnone name c
    rw [h.lists, h.checks]
    split_ifs with hname
    · refine iff_of_false (fun hc => ?_) List.not_mem_nil
      obtain ⟨id, howned⟩ := (s.healthManager.lists_iff_owned name).mp ⟨c, hc⟩
      exact hnone name hname id howned
    · exact hfollow name c

theorem keyed_step (i : TimedCall) (hkeyed : s.healthManager.Keyed) :
    ((parsing parse).step s i).1.healthManager.Keyed := by
  have heffect := i.call.apply_effect s { i.env with parseDuration := parse }
  cases hregisters : i.call.registers s with
  | some service =>
    rw [hregisters] at heffect
    have hmanager := heffect.manager
    exact hmanager ▸ Manager.addChecks_keyed hkeyed
  | none =>
    rw [hregisters] at heffect
    exact heffect.keyed hkeyed

theorem follow_step_iff (i : TimedCall) (hkeyed : s.healthManager.Keyed)
    (hfollow : s.ChecksFollow parse) :
    ((parsing parse).step s i).1.ChecksFollow parse ↔ InStep parse s i := by
  have heffect := i.call.apply_effect s { i.env with parseDuration := parse }
  unfold InStep
  cases hregisters : i.call.registers s with
  | some service =>
    rw [hregisters] at heffect
    have hregistered : ServiceCall.Registered { i.env.toEnv with parseDuration := parse } service s
        ((parsing parse).step s i).1 := heffect
    have hiff := @follow_registered parse s _ { i.env.toEnv with parseDuration := parse } service rfl
      hregistered hkeyed hfollow
    exact hiff
  | none =>
    rw [hregisters] at heffect
    exact follow_retired heffect hfollow

/-- In every state of a run the checks listed for a name are those of its latest
registration iff every step is `InStep`. -/
theorem checks_follow_registrations (parse : GoString → Option Duration) (ttl : Duration)
    (engine : Option Engine) (calls : List TimedCall) :
    (∀ n, ((parsing parse).run (opened ttl engine) (calls.take n)).1.ChecksFollow parse) ↔
      (parsing parse).Along (InStep parse) (opened ttl engine) calls := by
  have hopened : (opened ttl engine).ChecksFollow parse := by
    rw [ServiceStore.checksFollow_iff]
    rintro name c
    refine iff_of_false ?_ List.not_mem_nil
    rintro ⟨id, c', hlookup, -⟩
    cases hlookup
  have hkeyed : (opened ttl engine).healthManager.Keyed := fun id c hlookup => nomatch hlookup
  exact @Machine.forall_take_iff_along _ _ _ (parsing parse) _
    (fun s => s.healthManager.Keyed) (fun s => s.ChecksFollow parse)
    (fun _ i hkeyed => keyed_step i hkeyed)
    (fun _ i hkeyed hfollow => follow_step_iff i hkeyed hfollow) _ hkeyed hopened calls

/-- A service with one HTTP check. -/
def probed : Service :=
  { web with
    checks := [{ id := str "web-1", name := [], serviceID := [], http := str "http://10.0.0.1/health"
                 tcp := [], grpc := [], ttl := [], interval := [], timeout := [], method := []
                 headers := ∅, tlsSkipVerify := false, grpcUseTLS := false }] }

def probedRange : GoMap.Order probed.metadata := .nil

def registerProbed : TimedCall := callAt 0 (.register probed probedRange)

/-- The check is still listed once its service is gone. -/
theorem checks_follow_deregistered :
    let s := ((parsing fun _ => none).run (opened 10 none)
      [registerProbed, callAt 1 (.deregister (str "web"))]).1
    s.getEntry 2 (str "web") = none ∧
      (s.getHealthChecks 2 (str "web") (GoMap.sorted _)).2.map Check.id = [str "web-1"] ∧
      ¬ s.ChecksFollow fun _ => none := by
  refine ⟨rfl, rfl, fun hfollow => ?_⟩
  have hlisted := hfollow 2 (str "web") (GoMap.sorted _)
    (CheckDefinition.check (fun _ => none) { id := str "web-1", name := str "web-health"
                                             serviceID := str "web"
                                             http := str "http://10.0.0.1/health"
                                             tcp := [], grpc := [], ttl := [], interval := []
                                             timeout := [], method := [], headers := ∅
                                             tlsSkipVerify := false, grpcUseTLS := false })
  exact List.not_mem_nil (hlisted.mp (List.mem_cons_self ..))

end TimedCall

end Konsul
