import Konsul.Agent.Sync
import Konsul.Store.Atomicity

/-!
# Services registered through an agent

The agent keeps its services by node, name and port, and queues what it tells the
server, which keeps services by name. A run is a sequence of calls of the agent, of
updates taken from its queue, and of turns of the loop of `HandleBatchUpdate`.
`registrations` records the calls of `RegisterService`, latest last.
-/

namespace Konsul.Agent

open GoLib

structure Registrar where
  nodeName : GoString
  serviceTTL : Duration
  localServices : GoMap GoString ServiceEntry
  pendingQueue : List ServiceUpdate
  /-- Updates on their way to the server, in the order they left the queue. -/
  batchBuffer : List ServiceUpdate
  server : ServiceStore
  registrations : List (GoString × Service)

inductive ServiceStep where
  | registerService (svc : Service) (now : Time)
  /-- `range` is the order in which the loop meets the local services. -/
  | deregisterService (name : GoString)
      (range : (m : GoMap GoString ServiceEntry) → m.Order)
  | receive
  /-- The server processes the next update of a batch. -/
  | deliver (env : StoreEnv) (range : (m : GoMap GoString GoString) → m.Order)

namespace Registrar

/-- `fmt.Sprintf("%s:%s:%d", nodeName, name, port)` -/
def serviceID (nodeName name : GoString) (port : ℤ) : GoString :=
  nodeName ++ str ":" ++ name ++ str ":" ++ Json.Codec.intText port

def queueServiceUpdate (a : Registrar) (update : ServiceUpdate) : Registrar :=
  if a.pendingQueue.length < queueCapacity then
    { a with pendingQueue := a.pendingQueue ++ [update] }
  else a

def registerService (a : Registrar) (svc : Service) (now : Time) : Registrar :=
  let id := serviceID a.nodeName svc.name svc.port
  let entry : ServiceEntry :=
    { service := svc, expiresAt := now + a.serviceTTL, modifyIndex := UInt64.ofInt now,
      createIndex := UInt64.ofInt now }
  { a with localServices := a.localServices.insert id entry
           registrations := a.registrations ++ [(id, svc)] }.queueServiceUpdate
    ⟨updateTypeAdd, svc.name, some svc, some entry⟩

/-- The first local service of the name the loop meets, if any. -/
def firstLocal (a : Registrar) (name : GoString)
    (range : (m : GoMap GoString ServiceEntry) → m.Order) : Option (Σ _ : GoString, ServiceEntry) :=
  (range a.localServices).list.find? fun e => e.2.service.name = name

def deregisterService (a : Registrar) (name : GoString)
    (range : (m : GoMap GoString ServiceEntry) → m.Order) : Registrar :=
  match a.firstLocal name range with
  | some e =>
    { a with localServices := a.localServices.erase e.1 }.queueServiceUpdate
      ⟨updateTypeDelete, name, none, none⟩
  | none => a

/-- One turn of the loop of `HandleBatchUpdate`; an error of `Register` is logged. -/
def processUpdate (s : ServiceStore) (env : StoreEnv)
    (range : (m : GoMap GoString GoString) → m.Order) (update : Konsul.ServiceUpdate) :
    ServiceStore :=
  if update.type = updateTypeAdd ∨ update.type = updateTypeUpdate then
    match update.service with
    | some service => (s.register env service (range service.metadata)).1
    | none => s
  else if update.type = updateTypeDelete then s.deregister update.serviceName
  else s

def step (a : Registrar) : ServiceStep → Registrar
  | .registerService svc now => a.registerService svc now
  | .deregisterService name range => a.deregisterService name range
  | .receive =>
    match a.pendingQueue with
    | [] => a
    | update :: rest => { a with pendingQueue := rest, batchBuffer := a.batchBuffer ++ [update] }
  | .deliver env range =>
    match a.batchBuffer with
    | [] => a
    | update :: rest =>
      { a with server := processUpdate a.server env range update.json.forServer
               batchBuffer := rest }

def machine : Machine Registrar ServiceStep Unit := ⟨fun a e => (a.step e, ())⟩

/-- An agent with no services, and a server with none. -/
def start (nodeName : GoString) (serviceTTL : Duration) (server : ServiceStore) : Registrar :=
  { nodeName := nodeName, serviceTTL := serviceTTL, localServices := ∅, pendingQueue := [],
    batchBuffer := [], server := server, registrations := [] }

/-- The agent still holds a service of this name. -/
def Holds (a : Registrar) (name : GoString) : Prop :=
  ∃ id e, a.localServices.lookup id = some e ∧ e.service.name = name

/-- Whether a registration is of the name and still held. -/
def isHeld (a : Registrar) (name : GoString) (r : GoString × Service) : Bool :=
  r.2.name = name ∧ r.1 ∈ a.localServices

/-- The most recent registration of the name still held. -/
def mostRecent (a : Registrar) (name : GoString) : Option Service :=
  (a.registrations.reverse.find? (a.isHeld name)).map Prod.snd

/-- Agent and server agree: the names are the same, and the server's entry of a name is
the most recent registration, its checks completed. -/
structure Converged (a : Registrar) : Prop where
  names : ∀ name, name ∈ a.server.data ↔ a.Holds name
  entry : ∀ name e, a.server.data.lookup name = some e →
    ∃ svc env, a.mostRecent name = some svc ∧ e.service = ServiceStore.completeChecks env svc

/-- Services with a valid definition. -/
def ValidCall (_ : Registrar) : ServiceStep → Prop
  | .registerService svc _ => svc.Valid
  | _ => True

/-- A registration finds room in the queue and is text; a deregistration that finds a
local service finds room and no other local service of the name. -/
def Unambiguous (a : Registrar) : ServiceStep → Prop
  | .registerService svc _ => a.pendingQueue.length < queueCapacity ∧ svc.json = svc
  | .deregisterService name range => ∀ e, a.firstLocal name range = some e →
      a.pendingQueue.length < queueCapacity ∧
        ∀ id e', a.localServices.lookup id = some e' → e'.service.name = name → id = e.1
  | _ => True

/-! ### Names and identifiers -/

theorem colon_not_mem_intText (n : ℤ) : (0x3A : UInt8) ∉ Json.Codec.intText n := by
  have hdigits : ∀ n : ℕ, (0x3A : UInt8) ∉ decimal n := by
    intro n hmem
    have := isDigit_of_mem_decimal _ hmem
    revert this
    decide
  cases n with
  | ofNat n => exact hdigits n
  | negSucc n =>
    intro hmem
    rcases List.mem_cons.mp hmem with hminus | hmem
    · revert hminus
      decide
    · exact hdigits _ hmem

theorem dropWhile_reverse (front back : GoString) (hback : (0x3A : UInt8) ∉ back) :
    (front ++ str ":" ++ back).reverse.dropWhile (· ≠ 0x3A) = 0x3A :: front.reverse := by
  rw [List.reverse_append, List.reverse_append]
  change List.dropWhile _ (back.reverse ++ 0x3A :: front.reverse) = _
  rw [List.dropWhile_append_of_pos]
  · rfl
  · intro b hb
    have hne : b ≠ 0x3A := fun heq => hback (heq ▸ List.mem_reverse.mp hb)
    simpa using hne

theorem name_of_serviceID {nodeName name name' : GoString} {port port' : ℤ}
    (h : serviceID nodeName name port = serviceID nodeName name' port') : name = name' := by
  have hdrop := congrArg (fun s => (List.reverse s).dropWhile (· ≠ 0x3A)) h
  simp only [serviceID] at hdrop
  rw [dropWhile_reverse _ _ (colon_not_mem_intText port),
    dropWhile_reverse _ _ (colon_not_mem_intText port'), List.cons.injEq] at hdrop
  have hfront := List.reverse_injective hdrop.2
  exact List.append_cancel_left hfront

/-! ### What a step does to the most recent registrations -/

section

variable {a : Registrar}

/-- Every registration bears the identifier of its service, and every local service is
one of them. -/
structure Booked (a : Registrar) : Prop where
  made : ∀ r ∈ a.registrations, r.1 = serviceID a.nodeName r.2.name r.2.port
  recorded : ∀ id e, a.localServices.lookup id = some e → (id, e.service) ∈ a.registrations

theorem mem_of_isHeld {name : GoString} {r : GoString × Service} (h : a.isHeld name r = true) :
    r.2.name = name ∧ r.1 ∈ a.localServices := by
  simpa [isHeld] using h

theorem Booked.holds_iff (h : a.Booked) (name : GoString) :
    a.Holds name ↔ (a.mostRecent name).isSome := by
  rw [mostRecent, Option.isSome_map, List.find?_isSome]
  constructor
  · rintro ⟨id, e, he, rfl⟩
    refine ⟨(id, e.service), List.mem_reverse.mpr (h.recorded id e he), ?_⟩
    have hmem : id ∈ a.localServices := Finmap.mem_iff.mpr ⟨e, he⟩
    simp [isHeld, hmem]
  · rintro ⟨r, hr, hheld⟩
    obtain ⟨hname, hmem⟩ := mem_of_isHeld hheld
    obtain ⟨e, he⟩ := Finmap.mem_iff.mp hmem
    refine ⟨r.1, e, he, ?_⟩
    have hid := h.made _ (h.recorded r.1 e he)
    rw [h.made r (List.mem_reverse.mp hr)] at hid
    exact (name_of_serviceID hid).symm.trans hname

theorem find?_congr_mem {α : Type} {p q : α → Bool} {l : List α} (h : ∀ x ∈ l, p x = q x) :
    l.find? p = l.find? q := by
  induction l with
  | nil => rfl
  | cons x l ih =>
    rw [List.find?_cons, List.find?_cons, h x (List.mem_cons_self ..),
      ih fun y hy => h y (List.mem_cons_of_mem x hy)]

@[simp] theorem queue_fields (a : Registrar) (update : ServiceUpdate) :
    (a.queueServiceUpdate update).localServices = a.localServices ∧
      (a.queueServiceUpdate update).registrations = a.registrations ∧
      (a.queueServiceUpdate update).nodeName = a.nodeName ∧
      (a.queueServiceUpdate update).server = a.server ∧
      (a.queueServiceUpdate update).batchBuffer = a.batchBuffer := by
  unfold queueServiceUpdate
  split_ifs <;> exact ⟨rfl, rfl, rfl, rfl, rfl⟩

theorem mostRecent_congr {b : Registrar} (hlocal : b.localServices = a.localServices)
    (hregistrations : b.registrations = a.registrations) (name : GoString) :
    b.mostRecent name = a.mostRecent name := by
  unfold mostRecent isHeld
  rw [hlocal, hregistrations]

theorem Booked.registerService (h : a.Booked) (svc : Service) (now : Time) :
    (a.registerService svc now).Booked := by
  unfold Registrar.registerService
  constructor
  · intro r hr
    simp only [queue_fields] at hr ⊢
    rcases List.mem_append.mp hr with hr | hr
    · exact h.made r hr
    · rw [List.mem_singleton.mp hr]
  · intro id e he
    simp only [queue_fields, GoMap.lookup_insert_ite] at he ⊢
    split_ifs at he with hid
    · cases he
      exact List.mem_append_right _ (by rw [hid]; exact List.mem_singleton_self _)
    · exact List.mem_append_left _ (h.recorded id e he)

theorem Booked.mostRecent_registerService (h : a.Booked) (svc : Service) (now : Time)
    (name : GoString) : (a.registerService svc now).mostRecent name =
      if svc.name = name then some svc else a.mostRecent name := by
  unfold Registrar.registerService mostRecent isHeld
  simp only [queue_fields, List.reverse_append, List.reverse_singleton, List.singleton_append,
    List.find?_cons]
  by_cases hname : svc.name = name
  · have hmem : serviceID a.nodeName svc.name svc.port ∈ Finmap.insert
        (serviceID a.nodeName svc.name svc.port) (⟨svc, now + a.serviceTTL, UInt64.ofInt now,
          UInt64.ofInt now⟩ : ServiceEntry) a.localServices := Finmap.mem_insert.mpr (.inl rfl)
    simp only [hname] at hmem
    simp only [hname, hmem, and_self, decide_true, if_true, Option.map_some]
  · simp only [hname, false_and, decide_false, if_false]
    refine congrArg (Option.map Prod.snd) (find?_congr_mem fun r hr => ?_)
    have hmade := h.made r (List.mem_reverse.mp hr)
    by_cases hr : r.2.name = name
    · have hid : r.1 ≠ serviceID a.nodeName svc.name svc.port := by
        intro heq
        rw [hmade] at heq
        exact hname ((name_of_serviceID heq).symm.trans hr)
      simp only [hr, Finmap.mem_insert, hid, false_or]
    · simp only [hr, false_and]

theorem Booked.mostRecent_erase (h : a.Booked) (id name : GoString)
    (hid : ∃ e, a.localServices.lookup id = some e ∧ e.service.name = name)
    (honly : ∀ id' e', a.localServices.lookup id' = some e' → e'.service.name = name → id' = id)
    (name' : GoString) :
    ({ a with localServices := a.localServices.erase id } : Registrar).mostRecent name' =
      if name' = name then none else a.mostRecent name' := by
  unfold mostRecent isHeld
  have hnames : ∀ r ∈ a.registrations, r.1 ∈ a.localServices →
      ∃ e, a.localServices.lookup r.1 = some e ∧ e.service.name = r.2.name := by
    intro r hr hmem
    obtain ⟨e, he⟩ := Finmap.mem_iff.mp hmem
    have hmade := h.made _ (h.recorded r.1 e he)
    rw [h.made r hr] at hmade
    rw [h.made r hr] at he
    exact ⟨e, by rw [h.made r hr]; exact he, (name_of_serviceID hmade).symm⟩
  split_ifs with heq
  · refine Option.map_eq_none_iff.mpr (List.find?_eq_none.mpr fun r hr => ?_)
    have hr := List.mem_reverse.mp hr
    intro hheld
    have hheld : r.2.name = name' ∧ r.1 ∈ a.localServices.erase id := by simpa using hheld
    obtain ⟨hne, hmem⟩ := Finmap.mem_erase.mp hheld.2
    obtain ⟨e, he, hename⟩ := hnames r hr hmem
    exact hne (honly r.1 e he (hename.trans (hheld.1.trans heq)))
  · refine congrArg (Option.map Prod.snd) (find?_congr_mem fun r hr => ?_)
    have hr := List.mem_reverse.mp hr
    by_cases hrn : r.2.name = name'
    · by_cases hmem : r.1 ∈ a.localServices
      · have hne : r.1 ≠ id := by
          intro hrid
          obtain ⟨e, he, hename⟩ := hnames r hr hmem
          obtain ⟨e', he', hename'⟩ := hid
          rw [hrid, he'] at he
          cases he
          exact heq (hrn.symm.trans (hename.symm.trans hename'))
        simp [hrn, hmem, hne]
      · have hmem' : r.1 ∉ a.localServices.erase id := fun hin => hmem (Finmap.mem_erase.mp hin).2
        simp [hmem, hmem']
    · simp [hrn]

/-! ### What is on its way to the server -/

/-- The updates the server has not processed yet, the next one first. -/
def outstanding (a : Registrar) : List ServiceUpdate := a.batchBuffer ++ a.pendingQueue

/-- An update as the agent queues it for a valid service that is text. -/
def Sendable (u : ServiceUpdate) : Prop :=
  (u.type = updateTypeAdd ∧ ∃ svc, u.service = some svc ∧ svc.name = u.serviceName ∧ svc.Valid ∧
      svc.json = svc) ∨
    (u.type = updateTypeDelete ∧ u.service = none ∧ jsonString u.serviceName = u.serviceName)

/-- The last update of a name in a list. -/
def lastUpdate (us : List ServiceUpdate) (name : GoString) : Option ServiceUpdate :=
  us.reverse.find? fun u => u.serviceName = name

theorem lastUpdate_append (us : List ServiceUpdate) (u : ServiceUpdate) (name : GoString) :
    lastUpdate (us ++ [u]) name = if u.serviceName = name then some u else lastUpdate us name := by
  unfold lastUpdate
  rw [List.reverse_append, List.reverse_singleton, List.singleton_append, List.find?_cons]
  by_cases h : u.serviceName = name <;> simp [h]

theorem lastUpdate_cons (u : ServiceUpdate) (us : List ServiceUpdate) (name : GoString) :
    lastUpdate (u :: us) name =
      (lastUpdate us name).or (if u.serviceName = name then some u else none) := by
  unfold lastUpdate
  rw [List.reverse_cons, List.find?_append, List.find?_singleton]
  by_cases h : u.serviceName = name <;> simp [h]

/-- The server holds just this of a name. -/
def Reflects (s : ServiceStore) (name : GoString) (wanted : Option Service) : Prop :=
  match s.data.lookup name with
  | some e => ∃ svc env, wanted = some svc ∧ e.service = ServiceStore.completeChecks env svc
  | none => wanted = none

/-- What the server will hold of a name when the updates are processed. -/
def WillHold (s : ServiceStore) (us : List ServiceUpdate) (name : GoString)
    (wanted : Option Service) : Prop :=
  match lastUpdate us name with
  | some u => u.service = wanted
  | none => Reflects s name wanted

/-- The invariant of a run. -/
structure Tracks (a : Registrar) : Prop extends Booked a where
  texts : ∀ id e, a.localServices.lookup id = some e → jsonString e.service.name = e.service.name
  sendable : ∀ u ∈ a.outstanding, Sendable u
  view : ∀ name, WillHold a.server a.outstanding name (a.mostRecent name)

/-- A queued update decides its name, and no other. -/
theorem willHold_append {s : ServiceStore} {us : List ServiceUpdate} {u : ServiceUpdate}
    (wanted : GoString → Option Service) {wanted' : GoString → Option Service}
    (hold : ∀ name, WillHold s us name (wanted name))
    (hwanted : ∀ name, wanted' name = if u.serviceName = name then u.service else wanted name)
    (name : GoString) : WillHold s (us ++ [u]) name (wanted' name) := by
  have hname := hold name
  unfold WillHold at hname ⊢
  rw [lastUpdate_append, hwanted]
  split_ifs
  · rfl
  · exact hname

theorem outstanding_queue (hroom : a.pendingQueue.length < queueCapacity) (u : ServiceUpdate) :
    (a.queueServiceUpdate u).outstanding = a.outstanding ++ [u] := by
  unfold queueServiceUpdate outstanding
  rw [if_pos hroom, List.append_assoc]

theorem Tracks.registerService (h : a.Tracks) {svc : Service} (hvalid : svc.Valid)
    (hroom : a.pendingQueue.length < queueCapacity) (htext : svc.json = svc) (now : Time) :
    (a.registerService svc now).Tracks where
  toBooked := h.toBooked.registerService svc now
  texts := by
    intro id e he
    simp only [Registrar.registerService, queue_fields, GoMap.lookup_insert_ite] at he
    split_ifs at he
    · cases he
      exact congrArg Service.name htext
    · exact h.texts id e he
  sendable := by
    intro u hu
    unfold Registrar.registerService at hu
    rw [outstanding_queue (by exact hroom)] at hu
    rcases List.mem_append.mp hu with hu | hu
    · exact h.sendable u hu
    · rw [List.mem_singleton.mp hu]
      exact .inl ⟨rfl, svc, rfl, rfl, hvalid, htext⟩
  view := by
    intro name
    have hrecent := h.toBooked.mostRecent_registerService svc now
    unfold Registrar.registerService at hrecent ⊢
    rw [outstanding_queue (by exact hroom)]
    simp only [queue_fields]
    exact willHold_append _ h.view hrecent name

theorem Tracks.deregisterService (h : a.Tracks) (name : GoString)
    (range : (m : GoMap GoString ServiceEntry) → m.Order)
    (hunique : ∀ e, a.firstLocal name range = some e →
      a.pendingQueue.length < queueCapacity ∧
        ∀ id e', a.localServices.lookup id = some e' → e'.service.name = name → id = e.1) :
    (a.deregisterService name range).Tracks := by
  unfold Registrar.deregisterService
  cases hfirst : a.firstLocal name range with
  | none => exact h
  | some e =>
    obtain ⟨hroom, honly⟩ := hunique e hfirst
    have hmem := List.mem_of_find?_eq_some hfirst
    have hlookup : a.localServices.lookup e.1 = some e.2 :=
      ((range a.localServices).mem_list_iff e.1 e.2).mp hmem
    have hname : e.2.service.name = name := by
      have := List.find?_some hfirst
      simpa using this
    have hrecent := h.toBooked.mostRecent_erase e.1 name ⟨e.2, hlookup, hname⟩
      honly
    have htext : jsonString name = name := by
      have := h.texts e.1 e.2 hlookup
      rwa [hname] at this
    exact {
      made := by
        intro r hr
        simp only [queue_fields] at hr ⊢
        exact h.made r hr
      recorded := by
        intro id e' he'
        simp only [queue_fields, GoMap.lookup_erase_ite] at he' ⊢
        split_ifs at he'
        exact h.recorded id e' he'
      texts := by
        intro id e' he'
        simp only [queue_fields, GoMap.lookup_erase_ite] at he'
        split_ifs at he'
        exact h.texts id e' he'
      sendable := by
        intro u hu
        rw [outstanding_queue (by exact hroom)] at hu
        rcases List.mem_append.mp hu with hu | hu
        · exact h.sendable u hu
        · rw [List.mem_singleton.mp hu]
          exact .inr ⟨rfl, rfl, htext⟩
      view := by
        intro name'
        rw [outstanding_queue (by exact hroom)]
        simp only [queue_fields]
        refine willHold_append a.mostRecent h.view (fun n => ?_) name'
        rw [mostRecent_congr (a := { a with localServices := a.localServices.erase e.1 })
          (queue_fields _ _).1 (queue_fields _ _).2.1, hrecent]
        simp only [eq_comm] }

theorem processUpdate_lookup {u : ServiceUpdate} (hu : Sendable u) (s : ServiceStore)
    (env : StoreEnv) (range : (m : GoMap GoString GoString) → m.Order) (name : GoString) :
    (u.serviceName = name → Reflects (processUpdate s env range u.json.forServer) name u.service) ∧
      (u.serviceName ≠ name →
        (processUpdate s env range u.json.forServer).data.lookup name = s.data.lookup name) := by
  have hadd : jsonString updateTypeAdd = updateTypeAdd := by decide
  have hdelete : jsonString updateTypeDelete = updateTypeDelete := by decide
  have hnot : ¬ (updateTypeDelete = updateTypeAdd ∨ updateTypeDelete = updateTypeUpdate) := by
    decide
  rcases hu with ⟨htype, svc, hservice, hname, hvalid, hjson⟩ | ⟨htype, hservice, hname⟩
  · have hpasses := (svc.valid_iff (range svc.metadata)).mp hvalid
    have hdata : (processUpdate s env range u.json.forServer).data =
        s.data.insert svc.name (s.toServiceTable.newEntry
          (ServiceStore.completeChecks env.toEnv svc) (env.now + s.ttl)) := by
      simp only [processUpdate, ServiceUpdate.forServer, ServiceUpdate.json, htype, hadd, hservice,
        Option.map_some, hjson, true_or, if_true, ServiceStore.register, hpasses]
      have htable := ServiceStore.registered_toServiceTable s env svc
      exact (congrArg ServiceTable.data htable).trans (ServiceTable.put_data _ _ _)
    rw [hdata, ← hname]
    constructor
    · rintro rfl
      unfold Reflects
      rw [hdata, Finmap.lookup_insert]
      exact ⟨svc, env.toEnv, hservice, rfl⟩
    · intro hne
      exact Finmap.lookup_insert_of_ne _ (Ne.symm hne)
  · have hdata : (processUpdate s env range u.json.forServer).data = s.data.erase u.serviceName := by
      simp only [processUpdate, ServiceUpdate.forServer, ServiceUpdate.json, htype, hdelete, hnot,
        if_false, if_true, hname, ServiceStore.deregister, ServiceStore.persist_toServiceTable,
        ServiceTable.remove_data]
    constructor
    · rintro rfl
      unfold Reflects
      rw [hdata, Finmap.lookup_erase]
      exact hservice
    · intro hne
      rw [hdata]
      exact Finmap.lookup_erase_ne (Ne.symm hne)

theorem Tracks.deliver (h : a.Tracks) (env : StoreEnv)
    (range : (m : GoMap GoString GoString) → m.Order) : (a.step (.deliver env range)).Tracks := by
  unfold Registrar.step
  cases hbuffer : a.batchBuffer with
  | nil => exact h
  | cons u rest =>
    have houtstanding : a.outstanding = u :: (rest ++ a.pendingQueue) := by
      rw [outstanding, hbuffer]
      rfl
    have hsendable := h.sendable
    have hview := h.view
    rw [houtstanding] at hsendable hview
    exact {
      made := h.made
      recorded := h.recorded
      texts := h.texts
      sendable := fun u' hu' => hsendable u' (List.mem_cons_of_mem u hu')
      view := by
        intro name
        have hname := hview name
        change WillHold (processUpdate a.server env range u.json.forServer)
          (rest ++ a.pendingQueue) name (a.mostRecent name)
        obtain ⟨hself, hother⟩ := processUpdate_lookup (hsendable u (List.mem_cons_self ..))
          a.server env range name
        unfold WillHold at hname ⊢
        rw [lastUpdate_cons] at hname
        cases hlast : lastUpdate (rest ++ a.pendingQueue) name with
        | some u' =>
          rw [hlast] at hname
          exact hname
        | none =>
          rw [hlast, Option.none_or] at hname
          by_cases hmatch : u.serviceName = name
          · rw [if_pos hmatch] at hname
            exact hname ▸ hself hmatch
          · rw [if_neg hmatch] at hname
            simp only at hname ⊢
            unfold Reflects at hname ⊢
            rw [hother hmatch]
            exact hname }

theorem Tracks.step (h : a.Tracks) {e : ServiceStep} (hvalid : a.ValidCall e)
    (hunambiguous : a.Unambiguous e) : (a.step e).Tracks := by
  cases e with
  | registerService svc now => exact h.registerService hvalid hunambiguous.1 hunambiguous.2 now
  | deregisterService name range => exact h.deregisterService name range hunambiguous
  | deliver env range => exact h.deliver env range
  | receive =>
    unfold Registrar.step
    cases hqueue : a.pendingQueue with
    | nil => exact h
    | cons u rest =>
      have hsame : (a.batchBuffer ++ [u]) ++ rest = a.outstanding := by
        rw [outstanding, hqueue, List.append_assoc]
        rfl
      exact {
        made := h.made
        recorded := h.recorded
        texts := h.texts
        sendable := fun u' hu' => h.sendable u' (by rw [← hsame]; exact hu')
        view := by
          intro name
          have hname := h.view name
          rw [← hsame] at hname
          exact hname }

theorem tracks_start (nodeName : GoString) (serviceTTL : Duration) {server : ServiceStore}
    (hempty : server.data = ∅) : (start nodeName serviceTTL server).Tracks where
  made := fun _ hr => absurd hr List.not_mem_nil
  recorded := fun _ _ he => by simp [start] at he
  texts := fun _ _ he => by simp [start] at he
  sendable := fun _ hu => absurd hu List.not_mem_nil
  view := by
    intro name
    change Reflects server name none
    unfold Reflects
    rw [hempty, Finmap.lookup_empty]

theorem Tracks.converged (h : a.Tracks) (hnone : a.outstanding = []) : a.Converged := by
  have hview : ∀ name, Reflects a.server name (a.mostRecent name) := by
    intro name
    have := h.view name
    rw [hnone] at this
    exact this
  constructor
  · intro name
    have hname := hview name
    rw [h.toBooked.holds_iff, Finmap.mem_iff]
    unfold Reflects at hname
    cases hlookup : a.server.data.lookup name with
    | none =>
      rw [hlookup] at hname
      have hwanted : a.mostRecent name = none := hname
      rw [hwanted]
      simp
    | some e =>
      rw [hlookup] at hname
      obtain ⟨svc, env, hwanted, -⟩ := hname
      rw [hwanted]
      exact iff_of_true ⟨e, rfl⟩ rfl
  · intro name e he
    have hname := hview name
    unfold Reflects at hname
    rw [he] at hname
    exact hname

end

/-- Where every deregistration finds the only local service of its name, every call
finds room in the queue and every registration is text, the server has just the names
the agent holds whenever all updates have been processed, each with its most recent
registration. -/
theorem registrations_converge (nodeName : GoString) (serviceTTL : Duration)
    (server : ServiceStore) (hempty : server.data = ∅) (es : List ServiceStep)
    (hvalid : machine.Along ValidCall (start nodeName serviceTTL server) es)
    (hunambiguous : machine.Along Unambiguous (start nodeName serviceTTL server) es)
    (hdelivered : (machine.run (start nodeName serviceTTL server) es).1.pendingQueue = [] ∧
      (machine.run (start nodeName serviceTTL server) es).1.batchBuffer = []) :
    (machine.run (start nodeName serviceTTL server) es).1.Converged := by
  have htracks := @Machine.invariant _ _ _ machine
    (fun a e => a.ValidCall e ∧ a.Unambiguous e) Tracks
    (fun a e h hstep => h.step hstep.1 hstep.2) _ es (tracks_start nodeName serviceTTL hempty)
    (Machine.Along.and machine hvalid hunambiguous)
  refine htracks.converged ?_
  rw [outstanding, hdelivered.1, hdelivered.2]
  rfl

/-- A server whose clock stands still. -/
def stillEnv : StoreEnv :=
  { now := 0, newUUID := fun _ => [], parseDuration := fun _ => none,
    marshalEntry := fun _ => .ok [] }

/-- The service `web` at a port. -/
def webAt (port : ℤ) : Service := ⟨str "web", str "10.0.0.1", port, [], ∅, []⟩

def oneService : List ServiceStep :=
  [.registerService (webAt 80) 0, .receive, .deliver stillEnv fun m => GoMap.sorted m]

theorem registrations_converge_one_service :
    (machine.run (start (str "n") 0 (.newWithTTL 10)) oneService).1.Converged := by
  have hvalid : machine.Along ValidCall (start (str "n") 0 (.newWithTTL 10)) oneService :=
    ⟨(by decide : (webAt 80).Valid), trivial, trivial, trivial⟩
  have hunambiguous :
      machine.Along Unambiguous (start (str "n") 0 (.newWithTTL 10)) oneService :=
    ⟨⟨by decide, by decide⟩, trivial, trivial, trivial⟩
  exact registrations_converge (str "n") 0 (.newWithTTL 10) rfl oneService hvalid hunambiguous
    ⟨rfl, rfl⟩

/-- Two instances of a service, of which one is deregistered. -/
def twoPorts : List ServiceStep :=
  [.registerService (webAt 80) 0, .registerService (webAt 81) 0,
    .deregisterService (str "web") (fun m => GoMap.sorted m), .receive, .receive, .receive,
    .deliver stillEnv (fun m => GoMap.sorted m), .deliver stillEnv (fun m => GoMap.sorted m),
    .deliver stillEnv (fun m => GoMap.sorted m)]

/-- The server forgets a service the agent still holds. -/
theorem held_service_forgotten :
    ¬ ∀ (nodeName : GoString) (serviceTTL : Duration) (server : ServiceStore)
      (es : List ServiceStep), server.data = ∅ →
      machine.Along ValidCall (start nodeName serviceTTL server) es →
      ((machine.run (start nodeName serviceTTL server) es).1.pendingQueue = [] ∧
        (machine.run (start nodeName serviceTTL server) es).1.batchBuffer = []) →
      (machine.run (start nodeName serviceTTL server) es).1.Converged := by
  intro h
  have hvalid : machine.Along ValidCall (start (str "n") 0 (.newWithTTL 10)) twoPorts :=
    ⟨(by decide : (webAt 80).Valid), (by decide : (webAt 81).Valid), trivial, trivial, trivial,
      trivial, trivial, trivial, trivial, trivial⟩
  have hconverged := h (str "n") 0 (.newWithTTL 10) twoPorts rfl hvalid
    ⟨by decide +kernel, by decide +kernel⟩
  have hlocal : ((machine.run (start (str "n") 0 (.newWithTTL 10)) twoPorts).1.localServices.lookup
      (str "n:web:81")).map (·.service.name) = some (str "web") := by decide +kernel
  obtain ⟨e, he, hname⟩ := Option.map_eq_some_iff.mp hlocal
  have hserver := (hconverged.names (str "web")).mpr ⟨_, e, he, hname⟩
  revert hserver
  decide +kernel

end Registrar

end Konsul.Agent
