import Konsul.HealthCheck.Listing
import Konsul.Lib.Machine

/-!
# The agent's health checker (internal/agent/health.go)

Calls of `RegisterCheck` and `DeregisterCheck`, probes and TTL updates beside the goroutine
that runs `detectAndReportChanges`. The manager's map and the goroutine hold pointers to the
same checks, so a check is a place of `heap`.
-/

namespace Konsul.Agent

open GoLib

inductive HealthStatus where
  | passing
  | warning
  | critical
  | unknown
  deriving DecidableEq

def healthStatusFromCheckStatus : Status → HealthStatus
  | .passing => .passing
  | .warning => .warning
  | .critical => .critical

structure HealthUpdate where
  serviceID : GoString
  checkID : GoString
  status : HealthStatus
  output : GoString
  check : Option CheckDefinition
  deriving DecidableEq

/-- The two durations as texts. -/
structure HealthCheckConfig where
  enableLocalExecution : Bool
  checkInterval : GoString
  reportOnlyChanges : Bool
  timeout : GoString

/-- Where `detectAndReportChanges` stands: it has listed the checks and waits for the lock,
or it holds the lock and is in its loop. -/
inductive Tick where
  | idle
  | listed (todo : List ℕ)
  | looping (todo : List ℕ)
  | changed (obj : ℕ) (todo : List ℕ)
  | sent (update : HealthUpdate) (obj : ℕ) (todo : List ℕ)
  | reported (obj : ℕ) (todo : List ℕ)
  deriving DecidableEq

/-- `lastStatusMu` is taken. -/
def Tick.Locks : Tick → Bool
  | idle => false
  | listed _ => false
  | _ => true

/-- The checks the loop has still to deal with. -/
def Tick.pending : Tick → List ℕ
  | idle => []
  | listed todo => todo
  | looping todo => todo
  | changed obj todo => obj :: todo
  | sent _ obj todo => obj :: todo
  | reported _ todo => todo

/-- The check whose change the loop is dealing with. -/
def Tick.active : Tick → Option ℕ
  | changed obj _ => some obj
  | sent _ obj _ => some obj
  | reported obj _ => some obj
  | _ => none

/-- `acknowledged` is, for each check, the last update the server answered without an error. -/
structure HealthChecker where
  config : HealthCheckConfig
  heap : List Check
  checks : GoMap GoString ℕ
  lastStatus : GoMap GoString Status
  /-- What `RegisterCheck` has added and given no last status yet. -/
  registering : List ℕ
  /-- What `DeregisterCheck` has removed and not yet forgotten. -/
  deregistering : List GoString
  tick : Tick
  acknowledged : GoMap GoString HealthUpdate

inductive HealthStep where
  | addCheck (env : Env) (serviceID : GoString) (d : CheckDefinition)
  | firstStatus (obj : ℕ)
  | removeCheck (checkID : GoString)
  | forget (checkID : GoString)
  | performCheck (obj : ℕ) (status : Status) (output : GoString) (now : Time)
  | updateTTLCheck (checkID : GoString) (now : Time)
  | getCheck (checkID : GoString) (now : Time)
  | listChecks (range : List (Σ _ : GoString, ℕ)) (now : Time)
  /-- A tick: `detectAndReportChanges` lists the checks. -/
  | list (range : List (Σ _ : GoString, ℕ)) (now : Time)
  | lock
  | next
  | send
  | answer (ok : Bool)
  | record

namespace HealthChecker

/-- `NewHealthChecker`. -/
def newHealthChecker (cfg : HealthCheckConfig) : HealthChecker :=
  ⟨cfg, [], ∅, ∅, [], [], .idle, ∅⟩

/-- The check registered under an identifier. -/
def registered (h : HealthChecker) (id : GoString) : Option Check :=
  (h.checks.lookup id).bind fun obj => h.heap[obj]?

/-- The definition as `RegisterCheck` and `AddCheck` leave it. -/
def complete (cfg : HealthCheckConfig) (env : Env) (serviceID : GoString) (d : CheckDefinition) :
    CheckDefinition :=
  Manager.withID { d with
    serviceID
    interval := if d.interval = [] then cfg.checkInterval else d.interval
    timeout := if d.timeout = [] then cfg.timeout else d.timeout } (env.newUUID 0)

/-- `RegisterCheck` up to the return of `AddCheck`. -/
def addCheck (h : HealthChecker) (env : Env) (serviceID : GoString) (d : CheckDefinition) :
    HealthChecker :=
  let d := complete h.config env serviceID d
  { h with
    heap := h.heap ++ [Manager.newCheck env d]
    checks := h.checks.insert d.id h.heap.length
    registering := h.heap.length :: h.registering }

/-- The rest of `RegisterCheck`: the first status is taken as known to the server. -/
def firstStatus (h : HealthChecker) (obj : ℕ) : HealthChecker :=
  match h.heap[obj]? with
  | some check =>
    { h with
      lastStatus := h.lastStatus.insert check.id check.status
      registering := h.registering.erase obj }
  | none => h

/-- `DeregisterCheck` up to the return of `RemoveCheck`. -/
def removeCheck (h : HealthChecker) (checkID : GoString) : HealthChecker :=
  if checkID ∈ h.checks then
    { h with
      checks := h.checks.erase checkID
      deregistering := checkID :: h.deregistering }
  else h

/-- The rest of `DeregisterCheck`. -/
def forget (h : HealthChecker) (checkID : GoString) : HealthChecker :=
  { h with
    lastStatus := h.lastStatus.erase checkID
    deregistering := h.deregistering.erase checkID }

/-- A probe ends; a goroutine goes on while any check of its identifier is registered. -/
def performCheck (h : HealthChecker) (obj : ℕ) (status : Status) (output : GoString) (now : Time) :
    HealthChecker :=
  match h.heap[obj]? with
  | some check =>
    if check.type ≠ .ttl ∧ check.id ∈ h.checks then
      { h with heap := h.heap.set obj { check with status, output, lastCheck := now } }
    else h
  | none => h

def updateTTLCheck (h : HealthChecker) (checkID : GoString) (now : Time) : HealthChecker :=
  match h.checks.lookup checkID with
  | none => h
  | some obj => { h with heap := h.heap.modify obj fun check =>
      if check.type ≠ .ttl then check
      else { check with
        status := .passing
        output := str "TTL check passed"
        lastCheck := now
        expiresAt := if 0 < check.ttl then some (now + check.ttl) else check.expiresAt } }

/-- `ListChecks` and `GetCheck` write to the checks they pass over. -/
def expire (h : HealthChecker) (objs : List ℕ) (now : Time) : HealthChecker :=
  { h with heap := objs.foldl (fun heap obj => heap.modify obj (·.expire now)) h.heap }

/-- `reportStatusChange` up to the request. -/
def healthUpdate (check : Check) : HealthUpdate where
  serviceID := check.serviceID
  checkID := check.id
  status := healthStatusFromCheckStatus check.status
  output := check.output
  check := some
    { id := check.id, name := check.name, serviceID := check.serviceID, http := [], tcp := [],
      grpc := [], ttl := [], interval := [], timeout := [], method := [], headers := ∅,
      tlsSkipVerify := false, grpcUseTLS := false }

/-- `monitorStatusChanges` is running, is not in a tick, and `range` is an order of the checks. -/
def Ticks (h : HealthChecker) (range : List (Σ _ : GoString, ℕ)) : Prop :=
  h.config.enableLocalExecution = true ∧ h.config.reportOnlyChanges = true ∧ h.tick = .idle ∧
    (range : Multiset (Σ _ : GoString, ℕ)) = h.checks.entries

instance (h : HealthChecker) (range : List (Σ _ : GoString, ℕ)) : Decidable (h.Ticks range) :=
  inferInstanceAs (Decidable (_ ∧ _))

/-- A turn of the loop up to the report; at the end of the loop the lock is given back. -/
def next (h : HealthChecker) : HealthChecker :=
  match h.tick with
  | .looping [] => { h with tick := .idle }
  | .looping (obj :: todo) =>
    match h.heap[obj]? with
    | some check =>
      if h.lastStatus.lookup check.id = some check.status then { h with tick := .looping todo }
      else if h.config.reportOnlyChanges then { h with tick := .changed obj todo }
      else { h with tick := .reported obj todo }
    | none => h
  | _ => h

/-- A step; one that cannot be taken changes nothing. -/
def apply (h : HealthChecker) : HealthStep → HealthChecker
  | .addCheck env serviceID d => h.addCheck env serviceID d
  | .firstStatus obj =>
    if obj ∈ h.registering ∧ h.tick.Locks = false then h.firstStatus obj else h
  | .removeCheck checkID => h.removeCheck checkID
  | .forget checkID =>
    if checkID ∈ h.deregistering ∧ h.tick.Locks = false then h.forget checkID else h
  | .performCheck obj status output now => h.performCheck obj status output now
  | .updateTTLCheck checkID now => h.updateTTLCheck checkID now
  | .getCheck checkID now => h.expire (h.checks.lookup checkID).toList now
  | .listChecks range now =>
    if (range : Multiset (Σ _ : GoString, ℕ)) = h.checks.entries then
      h.expire (range.map Sigma.snd) now
    else h
  | .list range now =>
    if h.Ticks range then
      { h.expire (range.map Sigma.snd) now with tick := .listed (range.map Sigma.snd) }
    else h
  | .lock =>
    match h.tick with
    | .listed todo => { h with tick := .looping todo }
    | _ => h
  | .next => h.next
  | .send =>
    match h.tick with
    | .changed obj todo =>
      match h.heap[obj]? with
      | some check => { h with tick := .sent (healthUpdate check) obj todo }
      | none => h
    | _ => h
  | .answer ok =>
    match h.tick with
    | .sent update obj todo =>
      { h with
        tick := .reported obj todo
        acknowledged :=
          if ok then h.acknowledged.insert update.checkID update else h.acknowledged }
    | _ => h
  | .record =>
    match h.tick with
    | .reported obj todo =>
      match h.heap[obj]? with
      | some check =>
        { h with
          tick := .looping todo
          lastStatus := h.lastStatus.insert check.id check.status }
      | none => h
    | _ => h

def machine : Machine HealthChecker HealthStep Unit := ⟨fun h i => (h.apply i, ())⟩

/-- The state after a run. -/
def after (cfg : HealthCheckConfig) (steps : List HealthStep) : HealthChecker :=
  (machine.run (newHealthChecker cfg) steps).1

/-- The status of the check registered under an identifier. -/
def status (h : HealthChecker) (id : GoString) : Option Status := (h.registered id).map (·.status)

/-- The last update the server acknowledged for the check says the status. -/
def Acked (h : HealthChecker) (id : GoString) (st : Status) : Prop :=
  ∃ update, h.acknowledged.lookup id = some update ∧
    update.status = healthStatusFromCheckStatus st

/-- The server knows the status of every registered check. -/
def Agreed (h : HealthChecker) : Prop := ∀ id st, h.status id = some st → h.Acked id st

/-! ### Identifiers and registrations -/

section

variable {h h' : HealthChecker}

def idOf (h : HealthChecker) (obj : ℕ) : Option GoString := (h.heap.map Check.id)[obj]?

theorem idOf_of_getElem {obj : ℕ} {check : Check} (hobj : h.heap[obj]? = some check) :
    h.idOf obj = some check.id := by
  rw [idOf, List.getElem?_map, hobj, Option.map_some]

/-- Every check is registered under its own identifier. -/
def Keyed (h : HealthChecker) : Prop :=
  ∀ id obj, h.checks.lookup id = some obj → h.idOf obj = some id

theorem registered_of_getElem {id : GoString} {obj : ℕ} {check : Check}
    (hid : h.checks.lookup id = some obj) (hobj : h.heap[obj]? = some check) :
    h.registered id = some check := by
  rw [registered, hid, Option.bind_some, hobj]

theorem exists_of_registered {id : GoString} {check : Check} (hid : h.registered id = some check) :
    ∃ obj, h.checks.lookup id = some obj ∧ h.heap[obj]? = some check :=
  Option.bind_eq_some_iff.mp hid

theorem exists_of_status {id : GoString} {st : Status} (hst : h.status id = some st) :
    ∃ obj check, h.checks.lookup id = some obj ∧ h.heap[obj]? = some check ∧ check.status = st := by
  obtain ⟨check, hcheck, heq⟩ := Option.map_eq_some_iff.mp hst
  obtain ⟨obj, hid, hobj⟩ := exists_of_registered hcheck
  exact ⟨obj, check, hid, hobj, heq⟩

theorem status_of_getElem {id : GoString} {obj : ℕ} {check : Check}
    (hid : h.checks.lookup id = some obj) (hobj : h.heap[obj]? = some check) :
    h.status id = some check.status := by
  rw [status, registered_of_getElem hid hobj, Option.map_some]

/-- Only the contents of the checks change, and not their identifiers. -/
structure Rewrites (h h' : HealthChecker) : Prop where
  ids : h'.heap.map Check.id = h.heap.map Check.id
  rest : h' = { h with heap := h'.heap }

theorem rewrites_refl (h : HealthChecker) : h.Rewrites h := ⟨rfl, rfl⟩

theorem map_id_modify {f : Check → Check} (hf : ∀ check, (f check).id = check.id)
    (heap : List Check) (obj : ℕ) : (heap.modify obj f).map Check.id = heap.map Check.id := by
  refine List.ext_getElem? fun i => ?_
  rw [List.getElem?_map, List.getElem?_map, List.getElem?_modify]
  cases heap[i]? with
  | none => rfl
  | some check =>
    by_cases hi : obj = i
    · simp [hi, hf]
    · simp [hi]

theorem expire_id (check : Check) (now : Time) : (check.expire now).id = check.id :=
  Check.id_of_fixed (check.expire_fixed now)

theorem expire_expire (check : Check) (now : Time) :
    (check.expire now).expire now = check.expire now := by
  unfold Check.expire
  split_ifs <;> simp_all

theorem rewrites_expire (h : HealthChecker) (objs : List ℕ) (now : Time) :
    h.Rewrites (h.expire objs now) := by
  have hids : ∀ heap : List Check,
      (objs.foldl (fun heap obj => heap.modify obj (·.expire now)) heap).map Check.id =
        heap.map Check.id := by
    induction objs with
    | nil => exact fun _ => rfl
    | cons obj objs ih =>
      intro heap
      rw [List.foldl_cons, ih, map_id_modify fun check => expire_id check now]
  exact ⟨hids h.heap, rfl⟩

theorem rewrites_performCheck (h : HealthChecker) (obj : ℕ) (status : Status) (output : GoString)
    (now : Time) : h.Rewrites (h.performCheck obj status output now) := by
  unfold performCheck
  cases hobj : h.heap[obj]? with
  | none => exact rewrites_refl h
  | some check =>
    dsimp only
    split_ifs
    · refine ⟨?_, rfl⟩
      obtain ⟨hlt, hget⟩ := List.getElem?_eq_some_iff.mp hobj
      refine List.ext_getElem? fun i => ?_
      dsimp only
      rw [List.getElem?_map, List.getElem?_map, List.getElem?_set]
      by_cases hi : obj = i
      · subst hi
        simp [hlt, hget]
      · simp [hi]
    · exact rewrites_refl h

theorem rewrites_updateTTLCheck (h : HealthChecker) (checkID : GoString) (now : Time) :
    h.Rewrites (h.updateTTLCheck checkID now) := by
  unfold updateTTLCheck
  cases h.checks.lookup checkID with
  | none => exact rewrites_refl h
  | some obj =>
    refine ⟨map_id_modify (fun check => ?_) h.heap obj, rfl⟩
    split_ifs <;> rfl

theorem getElem?_expire (h : HealthChecker) (objs : List ℕ) (now : Time) (obj : ℕ) :
    (h.expire objs now).heap[obj]? =
      h.heap[obj]?.map fun check => if obj ∈ objs then check.expire now else check := by
  have hfold : ∀ heap : List Check,
      (objs.foldl (fun heap obj => heap.modify obj (·.expire now)) heap)[obj]? =
        heap[obj]?.map fun check => if obj ∈ objs then check.expire now else check := by
    induction objs with
    | nil => simp
    | cons a objs ih =>
      intro heap
      rw [List.foldl_cons, ih, List.getElem?_modify]
      cases heap[obj]? with
      | none => rfl
      | some check =>
        by_cases ha : obj = a
        · by_cases hmem : a ∈ objs <;> simp [ha, hmem, expire_expire]
        · by_cases hmem : obj ∈ objs <;> simp [ha, Ne.symm ha, hmem]
  exact hfold h.heap

/-- Nothing is registered or recorded anew, and the tick and the server stand still. -/
structure Shrinks (h h' : HealthChecker) : Prop where
  ids : h'.heap.map Check.id = h.heap.map Check.id
  config : h'.config = h.config
  tick : h'.tick = h.tick
  acknowledged : h'.acknowledged = h.acknowledged
  checks : ∀ id obj, h'.checks.lookup id = some obj → h.checks.lookup id = some obj
  lastStatus : ∀ id st, h'.lastStatus.lookup id = some st → h.lastStatus.lookup id = some st

theorem Rewrites.lastStatus (hr : h.Rewrites h') : h'.lastStatus = h.lastStatus := by
  rw [hr.rest]

theorem Rewrites.shrinks (hr : h.Rewrites h') : h.Shrinks h' where
  ids := hr.ids
  config := by rw [hr.rest]
  tick := by rw [hr.rest]
  acknowledged := by rw [hr.rest]
  checks id obj hid := by rw [hr.rest] at hid; exact hid
  lastStatus id st hst := by rw [hr.rest] at hst; exact hst

theorem shrinks_removeCheck (h : HealthChecker) (checkID : GoString) :
    h.Shrinks (h.removeCheck checkID) := by
  unfold removeCheck
  split_ifs
  · refine ⟨rfl, rfl, rfl, rfl, fun id obj hid => ?_, fun _ _ hst => hst⟩
    dsimp only at hid
    rw [GoMap.lookup_erase_ite] at hid
    split_ifs at hid
    exact hid
  · exact (rewrites_refl h).shrinks

theorem shrinks_forget (h : HealthChecker) (checkID : GoString) :
    h.Shrinks (h.forget checkID) := by
  refine ⟨rfl, rfl, rfl, rfl, fun _ _ hid => hid, fun id st hst => ?_⟩
  unfold forget at hst
  dsimp only at hst
  rw [GoMap.lookup_erase_ite] at hst
  split_ifs at hst
  exact hst

theorem Shrinks.idOf (hr : h.Shrinks h') (obj : ℕ) : h'.idOf obj = h.idOf obj := by
  rw [HealthChecker.idOf, hr.ids, HealthChecker.idOf]

theorem Shrinks.acked (hr : h.Shrinks h') (id : GoString) (st : Status) :
    h'.Acked id st ↔ h.Acked id st := by
  rw [Acked, hr.acknowledged, Acked]

theorem Keyed.shrinks (hk : h.Keyed) (hr : h.Shrinks h') : h'.Keyed := by
  intro id obj hid
  rw [hr.idOf]
  exact hk id obj (hr.checks id obj hid)

theorem Keyed.addCheck (hk : h.Keyed) (env : Env) (serviceID : GoString) (d : CheckDefinition) :
    (h.addCheck env serviceID d).Keyed := by
  intro id obj hid
  have hlookup : (h.checks.insert (complete h.config env serviceID d).id
      h.heap.length).lookup id = some obj := hid
  have hheap : ((h.addCheck env serviceID d).heap).map Check.id =
      h.heap.map Check.id ++ [(complete h.config env serviceID d).id] := List.map_append
  rw [GoMap.lookup_insert_ite] at hlookup
  rw [HealthChecker.idOf, hheap]
  split_ifs at hlookup with heq
  · cases hlookup
    simp [heq]
  · have hold := hk id obj hlookup
    have hlt := (List.getElem?_eq_some_iff.mp hold).1
    rw [List.getElem?_append_left hlt]
    exact hold

theorem keyed_firstStatus (hk : h.Keyed) (obj : ℕ) : (h.firstStatus obj).Keyed := by
  unfold firstStatus
  split
  · exact hk
  · exact hk

/-! ### What a step can do -/

/-- Probes, TTL updates and listings, which write to the checks alone. -/
def Probes : HealthStep → Bool
  | .performCheck .. => true
  | .updateTTLCheck .. => true
  | .getCheck .. => true
  | .listChecks .. => true
  | _ => false

inductive Effect (h : HealthChecker) : HealthStep → HealthChecker → Prop
  | still (i : HealthStep) : h.Effect i h
  | added (env : Env) (serviceID : GoString) (d : CheckDefinition) :
    h.Effect (.addCheck env serviceID d) (h.addCheck env serviceID d)
  | begun (obj : ℕ) : h.Effect (.firstStatus obj) (h.firstStatus obj)
  | removed (checkID : GoString) : h.Effect (.removeCheck checkID) (h.removeCheck checkID)
  | forgotten (checkID : GoString) : h.Effect (.forget checkID) (h.forget checkID)
  | rewritten {i : HealthStep} {h' : HealthChecker} (hi : Probes i = true) (hr : h.Rewrites h') :
    h.Effect i h'
  | listed {range : List (Σ _ : GoString, ℕ)} (now : Time) (hticks : h.Ticks range) :
    h.Effect (.list range now)
      { h.expire (range.map Sigma.snd) now with tick := .listed (range.map Sigma.snd) }
  | locked {todo : List ℕ} (hphase : h.tick = .listed todo) :
    h.Effect .lock { h with tick := .looping todo }
  | ended (hphase : h.tick = .looping []) : h.Effect .next { h with tick := .idle }
  | unchanged {obj : ℕ} {todo : List ℕ} {check : Check} (hphase : h.tick = .looping (obj :: todo))
      (hobj : h.heap[obj]? = some check)
      (hsame : h.lastStatus.lookup check.id = some check.status) :
    h.Effect .next { h with tick := .looping todo }
  | changed {obj : ℕ} {todo : List ℕ} {check : Check} (hphase : h.tick = .looping (obj :: todo))
      (hobj : h.heap[obj]? = some check)
      (hdiffers : h.lastStatus.lookup check.id ≠ some check.status) :
    h.Effect .next { h with tick := .changed obj todo }
  | untold {obj : ℕ} {todo : List ℕ} {check : Check} (hphase : h.tick = .looping (obj :: todo))
      (hobj : h.heap[obj]? = some check)
      (hdiffers : h.lastStatus.lookup check.id ≠ some check.status)
      (hreports : h.config.reportOnlyChanges = false) :
    h.Effect .next { h with tick := .reported obj todo }
  | sent {obj : ℕ} {todo : List ℕ} {check : Check} (hphase : h.tick = .changed obj todo)
      (hobj : h.heap[obj]? = some check) :
    h.Effect .send { h with tick := .sent (healthUpdate check) obj todo }
  | failed {update : HealthUpdate} {obj : ℕ} {todo : List ℕ}
      (hphase : h.tick = .sent update obj todo) :
    h.Effect (.answer false) { h with tick := .reported obj todo }
  | acknowledged {update : HealthUpdate} {obj : ℕ} {todo : List ℕ}
      (hphase : h.tick = .sent update obj todo) :
    h.Effect (.answer true)
      { h with
        tick := .reported obj todo
        acknowledged := h.acknowledged.insert update.checkID update }
  | recorded {obj : ℕ} {todo : List ℕ} {check : Check} (hphase : h.tick = .reported obj todo)
      (hobj : h.heap[obj]? = some check) :
    h.Effect .record
      { h with
        tick := .looping todo
        lastStatus := h.lastStatus.insert check.id check.status }

theorem next_effect (h : HealthChecker) : h.Effect .next h.next := by
  unfold HealthChecker.next
  split
  · next hphase => exact .ended hphase
  · next obj todo hphase =>
    split
    · next check hobj =>
      split_ifs with hsame hreports
      · exact .unchanged hphase hobj hsame
      · exact .changed hphase hobj hsame
      · exact .untold hphase hobj hsame (Bool.eq_false_iff.mpr hreports)
    · exact .still .next
  · exact .still .next

theorem apply_effect (h : HealthChecker) (i : HealthStep) : h.Effect i (h.apply i) := by
  cases i with
  | addCheck env serviceID d => exact .added env serviceID d
  | firstStatus obj =>
    simp only [HealthChecker.apply]
    split_ifs
    · exact .begun obj
    · exact .still _
  | removeCheck checkID => exact .removed checkID
  | forget checkID =>
    simp only [HealthChecker.apply]
    split_ifs
    · exact .forgotten checkID
    · exact .still _
  | performCheck obj status output now =>
    exact .rewritten rfl (rewrites_performCheck h obj status output now)
  | updateTTLCheck checkID now => exact .rewritten rfl (rewrites_updateTTLCheck h checkID now)
  | getCheck checkID now => exact .rewritten rfl (rewrites_expire h _ now)
  | listChecks range now =>
    simp only [HealthChecker.apply]
    split_ifs
    · exact .rewritten rfl (rewrites_expire h _ now)
    · exact .still _
  | list range now =>
    simp only [HealthChecker.apply]
    split_ifs with hticks
    · exact .listed now hticks
    · exact .still _
  | lock =>
    simp only [HealthChecker.apply]
    split
    · next hphase => exact .locked hphase
    · exact .still _
  | next => exact h.next_effect
  | send =>
    simp only [HealthChecker.apply]
    split
    · next hphase =>
      split
      · next hobj => exact .sent hphase hobj
      · exact .still _
    · exact .still _
  | answer ok =>
    simp only [HealthChecker.apply]
    split
    · next hphase =>
      cases ok with
      | true => exact .acknowledged hphase
      | false => exact .failed hphase
    · exact .still _
  | record =>
    simp only [HealthChecker.apply]
    split
    · next hphase =>
      split
      · next hobj => exact .recorded hphase hobj
      · exact .still _
    · exact .still _

theorem Keyed.effect (hk : h.Keyed) {i : HealthStep} (he : h.Effect i h') : h'.Keyed := by
  cases he with
  | added env serviceID d => exact hk.addCheck env serviceID d
  | begun obj => exact keyed_firstStatus hk obj
  | removed checkID => exact hk.shrinks (shrinks_removeCheck h checkID)
  | rewritten hi hr => exact hk.shrinks hr.shrinks
  | @listed range now hticks =>
    have hexpired := hk.shrinks (rewrites_expire h (range.map Sigma.snd) now).shrinks
    exact hexpired
  | _ => exact hk

end

end HealthChecker

end Konsul.Agent
