import Konsul.Raft.Replica

/-!
# Expiry next to the log

Every replica runs `CleanupExpired` on its own clock, between the entries of the
log. Replicas stay equal as long as the same services expire on each of them
before the next entry; nothing else of their clocks shows.
-/

namespace Konsul

open GoLib

/-! ### What a cleanup removes -/

namespace ServiceTable

variable (t : ServiceTable)

theorem removeAll_data (names : List GoString) :
    (t.removeAll names).data = GoMap.eraseAll t.data names := by
  induction names generalizing t with
  | nil => rfl
  | cons name names ih =>
    have h := ih (t.remove name)
    rw [remove_data] at h
    exact h

theorem removeAll_globalIndex (names : List GoString) :
    (t.removeAll names).globalIndex = t.globalIndex := by
  induction names generalizing t with
  | nil => rfl
  | cons name names ih => exact (ih (t.remove name)).trans (t.remove_globalIndex name)

theorem mem_expired_iff (now : Time) (name : GoString) :
    name ∈ t.expired now ↔ ∃ e, t.data.lookup name = some e ∧ e.expiresAt < now := by
  simp only [expired, List.mem_map, List.mem_filter, decide_eq_true_eq]
  constructor
  · rintro ⟨⟨name, e⟩, ⟨hmem, he⟩, rfl⟩
    exact ⟨e, ((GoMap.sorted t.data).mem_list_iff name e).mp hmem, he⟩
  · rintro ⟨e, hl, he⟩
    exact ⟨⟨name, e⟩, ⟨((GoMap.sorted t.data).mem_list_iff name e).mpr hl, he⟩, rfl⟩

/-- The services that expire at one of the times. -/
def expiredAt (times : List Time) : Finset GoString :=
  t.data.keys.filter fun name =>
    (t.data.lookup name).any fun e => times.any fun now => e.expiresAt < now

theorem mem_expiredAt_iff (times : List Time) (name : GoString) :
    name ∈ t.expiredAt times ↔
      ∃ e, t.data.lookup name = some e ∧ ∃ now ∈ times, e.expiresAt < now := by
  simp only [expiredAt, Finset.mem_filter, Finmap.mem_keys, Option.any_eq_true, List.any_eq_true,
    decide_eq_true_eq]
  constructor
  · exact fun h => h.2
  · rintro ⟨e, he, h⟩
    exact ⟨Finmap.mem_of_lookup_eq_some he, e, he, h⟩

end ServiceTable

namespace ServiceStore

theorem cleanupExpired_toServiceTable (s : ServiceStore) (now : Time) :
    (s.cleanupExpired now).1.toServiceTable =
      s.toServiceTable.removeAll (s.toServiceTable.expired now) := by
  suffices ∀ (names : List GoString) (s : ServiceStore),
      (names.foldl (fun s name => (s.persist (·.deleteService name)).1) s).toServiceTable =
        s.toServiceTable from this _ _
  intro names
  induction names with
  | nil => exact fun s => rfl
  | cons name names ih =>
    intro s
    rw [List.foldl_cons, ih, persist_toServiceTable]

theorem lookup_cleanupExpired (s : ServiceStore) (now : Time) (name : GoString) :
    (s.cleanupExpired now).1.data.lookup name =
      if ∃ e, s.data.lookup name = some e ∧ e.expiresAt < now then none
      else s.data.lookup name := by
  have h := congrArg ServiceTable.data (s.cleanupExpired_toServiceTable now)
  rw [ServiceTable.removeAll_data] at h
  simp only [h, GoMap.lookup_eraseAll, ServiceTable.mem_expired_iff]

/-- The store after cleanups at the given times. -/
def cleaned (s : ServiceStore) (times : List Time) : ServiceStore :=
  times.foldl (fun s now => (s.cleanupExpired now).1) s

theorem globalIndex_cleaned (s : ServiceStore) (times : List Time) :
    (s.cleaned times).globalIndex = s.globalIndex := by
  induction times generalizing s with
  | nil => rfl
  | cons now times ih =>
    have h := congrArg ServiceTable.globalIndex (s.cleanupExpired_toServiceTable now)
    rw [ServiceTable.removeAll_globalIndex] at h
    exact (ih (s.cleanupExpired now).1).trans h

/-- Cleanups remove the services that expire at one of their times, and keep the
others as they are. -/
theorem lookup_cleaned (s : ServiceStore) (times : List Time) (name : GoString) :
    (s.cleaned times).data.lookup name =
      if name ∈ s.toServiceTable.expiredAt times then none else s.data.lookup name := by
  simp only [ServiceTable.mem_expiredAt_iff]
  induction times generalizing s with
  | nil => simp only [cleaned, List.foldl_nil, List.not_mem_nil, false_and, exists_false,
      and_false, ite_false]
  | cons now times ih =>
    have h := ih (s.cleanupExpired now).1
    rw [lookup_cleanupExpired] at h
    simp only [cleaned, List.foldl_cons] at h ⊢
    rw [h]
    cases hl : s.data.lookup name with
    | none => simp only [reduceCtorEq, false_and, exists_false, ite_false]
    | some e =>
      simp only [Option.some_inj, exists_eq_left', List.mem_cons, exists_eq_or_imp]
      by_cases hnow : e.expiresAt < now
      · simp only [hnow, ite_true, reduceCtorEq, false_and, exists_false, ite_false, true_or]
      · simp only [hnow, ite_false, Option.some_inj, exists_eq_left', false_or]

/-- Stores with equal registries have equal registries after cleanups at which the
same services expire. -/
theorem registry_cleaned {a b : ServiceStore}
    (h : a.toServiceTable.registry = b.toServiceTable.registry) {times times' : List Time}
    (hexpired : a.toServiceTable.expiredAt times = b.toServiceTable.expiredAt times') :
    (a.cleaned times).toServiceTable.registry = (b.cleaned times').toServiceTable.registry := by
  have hdata : (a.cleaned times).toServiceTable.registry.data =
      (b.cleaned times').toServiceTable.registry.data := by
    refine Finmap.ext_lookup fun name => ?_
    have hname := congrArg (fun t : Registry => t.data.lookup name) h
    simp only [ServiceTable.lookup_registry, lookup_cleaned, hexpired] at hname ⊢
    split_ifs
    · rfl
    · exact hname
  have hindex : (a.cleaned times).globalIndex = (b.cleaned times').globalIndex := by
    rw [globalIndex_cleaned, globalIndex_cleaned]
    exact congrArg Registry.globalIndex h
  exact congrArg₂ Registry.mk hdata hindex

end ServiceStore

/-! ### Two replicas -/

/-- What a replica does for an entry of the log: cleanups since the entry before
it, and the entry itself at the replica's own time. -/
structure Turn (c : ServiceCommand) where
  cleanups : List Time
  now : Time
  choice : c.Choice

/-- A replica right after an entry: its registry, the answer of the state machine
unless the entry is a TTL update, and for a heartbeat whether the service was there. -/
structure Shown where
  registry : Registry
  answer : Option FsmResponse
  found : Option Bool
  deriving DecidableEq

def ServiceStore.answer (s : ServiceStore) (now : Time) :
    (c : ServiceCommand) → c.Choice → Option FsmResponse
  | .ttlUpdate _, _ => none
  | c, ch => some (FSM.applyService s now c ch).2

def ServiceStore.found (s : ServiceStore) (now : Time) : ServiceCommand → Option Bool
  | .heartbeat name => some (s.heartbeatLocal now name).2
  | _ => none

def ServiceStore.take (s : ServiceStore) (c : ServiceCommand) (turn : Turn c) :
    ServiceStore × Shown :=
  let s := s.cleaned turn.cleanups
  let s' := (FSM.applyService s turn.now c turn.choice).1
  (s', { registry := s'.toServiceTable.registry
         answer := s.answer turn.now c turn.choice
         found := s.found turn.now c })

/-- An entry of the log on two replicas. -/
structure Joint where
  command : ServiceCommand
  left : Turn command
  right : Turn command

def replicas : Machine (ServiceStore × ServiceStore) Joint (Shown × Shown) where
  step s e :=
    let l := s.1.take e.command e.left
    let r := s.2.take e.command e.right
    ((l.1, r.1), (l.2, r.2))

def ServiceCommand.OneError : ServiceCommand → Prop
  | .register s => s.OneError
  | .registerCAS s _ => s.OneError
  | _ => True

/-- Between two entries the same services expire on both replicas, and the entry
has no two errors to choose from. -/
def SameExpiry (s : ServiceStore × ServiceStore) (e : Joint) : Prop :=
  s.1.toServiceTable.expiredAt e.left.cleanups = s.2.toServiceTable.expiredAt e.right.cleanups ∧
    e.command.OneError

def SameRegistry (s : ServiceStore × ServiceStore) : Prop :=
  s.1.toServiceTable.registry = s.2.toServiceTable.registry

theorem Registry.applyCommand_choice (t : Registry) {c : ServiceCommand} (hc : c.OneError)
    (ch ch' : c.Choice) : t.applyCommand c ch = t.applyCommand c ch' := by
  cases c with
  | register service => simp only [applyCommand, hc ch ch']
  | registerCAS service expectedIndex => simp only [applyCommand, hc ch ch']
  | _ => rfl

theorem ServiceStore.answer_eq (s : ServiceStore) (now : Time) (c : ServiceCommand)
    (ch : c.Choice) : s.answer now c ch = (s.toServiceTable.registry.applyCommand c ch).2 := by
  rcases s.toServiceTable.registry.applyCommand_answer c ch with ⟨checkID, rfl⟩ | ⟨answer, h⟩
  · rfl
  · rw [h, ← (FSM.applyService_eq s now c ch).2 answer h]
    cases c with
    | ttlUpdate checkID => cases h
    | _ => rfl

theorem ServiceStore.found_eq (s : ServiceStore) (now : Time) (name : GoString) :
    (s.heartbeatLocal now name).2 = (s.toServiceTable.registry.data.lookup name).isSome := by
  rw [heartbeatLocal, ServiceTable.lookup_registry]
  cases s.data.lookup name <;> rfl

theorem SameRegistry.take {a b : ServiceStore} (h : SameRegistry (a, b)) {e : Joint}
    (he : SameExpiry (a, b) e) :
    (a.take e.command e.left).2 = (b.take e.command e.right).2 := by
  have hcleaned := ServiceStore.registry_cleaned h he.1
  obtain ⟨c, ⟨cleanups, now, ch⟩, ⟨cleanups', now', ch'⟩⟩ := e
  have hchoice := (a.cleaned cleanups).toServiceTable.registry.applyCommand_choice he.2 ch ch'
  have hregistry : (FSM.applyService (a.cleaned cleanups) now c ch).1.toServiceTable.registry =
      (FSM.applyService (b.cleaned cleanups') now' c ch').1.toServiceTable.registry := by
    rw [(FSM.applyService_eq _ now c ch).1, (FSM.applyService_eq _ now' c ch').1, hchoice,
      hcleaned]
  have hanswer : (a.cleaned cleanups).answer now c ch = (b.cleaned cleanups').answer now' c ch' := by
    rw [ServiceStore.answer_eq, ServiceStore.answer_eq, hchoice, hcleaned]
  have hfound : (a.cleaned cleanups).found now c = (b.cleaned cleanups').found now' c := by
    cases c with
    | heartbeat name =>
      simp only [ServiceStore.found, ServiceStore.found_eq]
      rw [hcleaned]
    | _ => rfl
  simp only [ServiceStore.take, hregistry, hanswer, hfound]

/-- Two replicas that start with equal registries and apply the same log, each at
its own times and with its own cleanups in between, show the same after every
entry, as long as the same services expire on both before it. -/
theorem service_replicas_agree {a b : ServiceStore} (h : SameRegistry (a, b)) (log : List Joint)
    (hlog : replicas.Along SameExpiry (a, b) log) :
    ∀ o ∈ (replicas.run (a, b) log).2, o.1 = o.2 := by
  refine replicas.forall_answers (fun s e hs he => ?_) h hlog
  have hshown := hs.take he
  exact ⟨congrArg Shown.registry hshown, hshown⟩

/-! ### A service that expires -/

/-- A registration at time 0 and a compare-and-swap one at time 12, with cleanups
in between on both replicas. -/
def registeredTwice (cleanups cleanups' : List Time) : List Joint :=
  [⟨.register web, ⟨[], 0, noMetadata⟩, ⟨[], 0, noMetadata⟩⟩,
    ⟨.registerCAS web 0, ⟨cleanups, 12, noMetadata⟩, ⟨cleanups', 12, noMetadata⟩⟩]

theorem oneError_web : web.OneError := by
  intro range range'
  have hnil (o : GoMap.Order web.metadata) : o = noMetadata := by
    obtain ⟨list, h⟩ := o
    have hlist : list = [] := (Multiset.coe_eq_zero list).mp h
    subst hlist
    rfl
  rw [hnil range, hnil range']

/-- The service expires on both replicas, at different times. -/
theorem service_replicas_agree_expired :
    (replicas.run (.newWithTTL 10, .newWithTTL 10) (registeredTwice [5, 11] [12])).2.map Prod.fst =
      (replicas.run (.newWithTTL 10, .newWithTTL 10) (registeredTwice [5, 11] [12])).2.map
        Prod.snd := by
  refine List.map_congr_left ?_
  refine service_replicas_agree rfl _ ⟨⟨?_, oneError_web⟩, ⟨?_, oneError_web⟩, trivial⟩
  · decide
  · decide

/-- A replica whose cleanup has not come yet refuses what the other one accepts. -/
theorem cleanup_observed :
    (replicas.run (.newWithTTL 10, .newWithTTL 10) (registeredTwice [11] [])).2.map
        (fun o => (o.1.answer, o.2.answer)) =
      [(some (.err none), some (.err none)),
        (some (.cas ⟨2, ∅, none⟩),
          some (.cas ⟨0, ∅, some (.casConflict (str "web") 0 1 (str "service"))⟩))] := by
  decide

end Konsul
