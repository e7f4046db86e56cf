import Konsul.Store.CasSafety
import Konsul.Store.Expired

/-!
# Compare-and-swap on the service store

The same guarantees as for the key-value store, for registrations in all their
copies: with and without an expected index, called directly or applied from the
log. Heartbeats and cleanups run in between; they take no index.
-/

namespace Konsul

open GoLib

/-! ### Numbered registrations -/

namespace Registry

structure Numbered (t : Registry) : Prop where
  ordered : ∀ name r, t.data.lookup name = some r →
    1 ≤ r.createIndex.toNat ∧ r.createIndex.toNat ≤ r.modifyIndex.toNat ∧
      r.modifyIndex.toNat ≤ t.globalIndex.toNat
  distinct : ∀ name name' r r', t.data.lookup name = some r → t.data.lookup name' = some r' →
    r.modifyIndex = r'.modifyIndex → name = name'

variable {t : Registry}

theorem numbered_empty : Numbered ⟨∅, 0⟩ :=
  ⟨fun _ _ h => (nomatch h), fun _ _ _ _ h => (nomatch h)⟩

theorem Numbered.put (h : t.Numbered) (service : Service)
    (hroom : t.globalIndex.toNat + 1 < 2 ^ 64) : (t.put service).Numbered := by
  have hnext : (t.globalIndex + 1).toNat = t.globalIndex.toNat + 1 := by
    rw [UInt64.toNat_add, UInt64.toNat_one, Nat.mod_eq_of_lt hroom]
  have hcounter : (t.put service).globalIndex.toNat = t.globalIndex.toNat + 1 := hnext
  have hmodify : (t.newEntry service).modifyIndex.toNat = t.globalIndex.toNat + 1 := hnext
  have hlookup (name : GoString) : (t.put service).data.lookup name =
      if name = service.name then some (t.newEntry service) else t.data.lookup name :=
    GoMap.lookup_insert_ite ..
  refine ⟨fun name r hr => ?_, fun name name' r r' hr hr' heq => ?_⟩
  · rw [hlookup] at hr
    split_ifs at hr with hname
    · cases hr
      unfold newEntry at hmodify ⊢
      cases hl : t.data.lookup service.name with
      | none =>
        simp only
        omega
      | some old =>
        have hord := h.ordered service.name old hl
        simp only
        omega
    · have hord := h.ordered name r hr
      omega
  · rw [hlookup] at hr hr'
    split_ifs at hr with hname
    · cases hr
      split_ifs at hr' with hname'
      · rw [hname, hname']
      · have hord := h.ordered name' r' hr'
        rw [heq] at hmodify
        omega
    · split_ifs at hr' with hname'
      · cases hr'
        have hord := h.ordered name r hr
        rw [← heq] at hmodify
        omega
      · exact h.distinct name name' r r' hr hr' heq

theorem Numbered.of_subset (h : t.Numbered) {t' : Registry}
    (hdata : ∀ name r, t'.data.lookup name = some r → t.data.lookup name = some r)
    (hcounter : t'.globalIndex = t.globalIndex) : t'.Numbered := by
  refine ⟨fun name r hr => ?_, fun name name' r r' hr hr' =>
    h.distinct name name' r r' (hdata name r hr) (hdata name' r' hr')⟩
  rw [hcounter]
  exact h.ordered name r (hdata name r hr)

theorem Numbered.remove (h : t.Numbered) (name : GoString) : (t.remove name).Numbered := by
  refine h.of_subset (fun k r hr => ?_) rfl
  rw [Registry.remove, GoMap.lookup_erase_ite] at hr
  split_ifs at hr
  exact hr

theorem Numbered.after (h : t.Numbered) (c : ServiceCommand) (complete : Service → Service)
    (hroom : t.globalIndex.toNat + c.taken t < 2 ^ 64) : (c.after complete t).Numbered := by
  cases c with
  | register service =>
    rw [ServiceCommand.taken, ServiceCommand.written] at hroom
    rw [ServiceCommand.after]
    split_ifs at hroom ⊢ with hvalid
    · exact h.put _ hroom
    · exact h
  | deregister name => exact h.remove name
  | heartbeat name => exact h
  | ttlUpdate checkID => exact h
  | registerCAS service expectedIndex =>
    rw [ServiceCommand.taken, ServiceCommand.written] at hroom
    rw [ServiceCommand.after]
    split_ifs at hroom ⊢ with hcheck
    · exact h.put _ hroom
    · exact h
  | deregisterCAS name expectedIndex =>
    rw [ServiceCommand.after]
    split_ifs
    · exact h.remove name
    · exact h

theorem globalIndex_after (t : Registry) (c : ServiceCommand) (complete : Service → Service)
    (hroom : t.globalIndex.toNat + c.taken t < 2 ^ 64) :
    (c.after complete t).globalIndex.toNat = t.globalIndex.toNat + c.taken t := by
  have hput (service : Service) (h : t.globalIndex.toNat + 1 < 2 ^ 64) :
      (t.put service).globalIndex.toNat = t.globalIndex.toNat + 1 := by
    rw [Registry.put, UInt64.toNat_add, UInt64.toNat_one, Nat.mod_eq_of_lt h]
  cases c with
  | register service =>
    simp only [ServiceCommand.taken, ServiceCommand.written, ServiceCommand.after] at hroom ⊢
    split_ifs at hroom ⊢ with hvalid
    · exact hput _ hroom
    · rfl
  | registerCAS service expectedIndex =>
    simp only [ServiceCommand.taken, ServiceCommand.written, ServiceCommand.after] at hroom ⊢
    split_ifs at hroom ⊢ with hcheck
    · exact hput _ hroom
    · rfl
  | deregisterCAS name expectedIndex =>
    simp only [ServiceCommand.taken, ServiceCommand.after]
    split_ifs
    · rfl
    · rfl
  | _ => rfl

end Registry

/-! ### One call -/

namespace ServiceCall

/-- The command of the log that does the same to the registry. -/
def command : ServiceCall → Option ServiceCommand
  | register service _ => some (.register service)
  | registerCAS service _ expectedIndex => some (.registerCAS service expectedIndex)
  | heartbeat name => some (.heartbeat name)
  | deregister name => some (.deregister name)
  | deregisterCAS name expectedIndex => some (.deregisterCAS name expectedIndex)
  | registerLocal serviceData _ => some (.register serviceData.toService)
  | registerCASLocal serviceData _ expectedIndex =>
    some (.registerCAS serviceData.toService expectedIndex)
  | heartbeatLocal name => some (.heartbeat name)
  | deregisterLocal name => some (.deregister name)
  | deregisterCASLocal name expectedIndex => some (.deregisterCAS name expectedIndex)
  | _ => none

/-- The names the call registers anew or removes. -/
def written (t : ServiceTable) (now : Time) : ServiceCall → List GoString
  | cleanupExpired => t.expired now
  | call => (call.command.map fun c => c.written t.registry).getD []

/-- How many indices the call takes. -/
def taken (t : ServiceTable) (call : ServiceCall) : ℕ :=
  (call.command.map fun c => c.taken t.registry).getD 0

theorem registry_apply (s : ServiceStore) (env : StoreEnv) {call : ServiceCall} {c : ServiceCommand}
    (h : call.command = some c) :
    ∃ complete : Service → Service, (∀ service, (complete service).name = service.name) ∧
      (call.apply s env).1.toServiceTable.registry = c.after complete s.toServiceTable.registry := by
  have hstore (c : ServiceCommand) (ch : c.Choice) :=
    FSM.registry_callServiceStore ⟨.new, s⟩ env c ch
  have hlocal (c : ServiceCommand) (ch : c.Choice) :
      (FSM.applyService s env.now c ch).1.toServiceTable.registry =
        c.after (fun service => service.toSnapshot.toService) s.toServiceTable.registry :=
    (FSM.applyService_eq s env.now c ch).1.trans (c.applyCommand_after _ ch)
  cases call with
  | register service range =>
    cases h
    exact ⟨ServiceStore.completeChecks env.toEnv, fun _ => rfl, hstore (.register service) range⟩
  | registerCAS service range expectedIndex =>
    cases h
    exact ⟨ServiceStore.completeChecks env.toEnv, fun _ => rfl,
      hstore (.registerCAS service expectedIndex) range⟩
  | heartbeat name =>
    cases h
    exact ⟨ServiceStore.completeChecks env.toEnv, fun _ => rfl, hstore (.heartbeat name) ()⟩
  | deregister name =>
    cases h
    exact ⟨ServiceStore.completeChecks env.toEnv, fun _ => rfl, hstore (.deregister name) ()⟩
  | deregisterCAS name expectedIndex =>
    cases h
    exact ⟨ServiceStore.completeChecks env.toEnv, fun _ => rfl,
      hstore (.deregisterCAS name expectedIndex) ()⟩
  | registerLocal serviceData range =>
    cases h
    exact ⟨fun service => service.toSnapshot.toService, fun _ => rfl,
      hlocal (.register serviceData.toService) range⟩
  | registerCASLocal serviceData range expectedIndex =>
    cases h
    exact ⟨fun service => service.toSnapshot.toService, fun _ => rfl,
      hlocal (.registerCAS serviceData.toService expectedIndex) range⟩
  | heartbeatLocal name =>
    cases h
    exact ⟨fun service => service.toSnapshot.toService, fun _ => rfl, hlocal (.heartbeat name) ()⟩
  | deregisterLocal name =>
    cases h
    exact ⟨fun service => service.toSnapshot.toService, fun _ => rfl, hlocal (.deregister name) ()⟩
  | deregisterCASLocal name expectedIndex =>
    cases h
    exact ⟨fun service => service.toSnapshot.toService, fun _ => rfl,
      hlocal (.deregisterCAS name expectedIndex) ()⟩
  | _ => cases h

/-- What a call does to the registry: what its command does, a cleanup, or nothing. -/
theorem registry_cases (s : ServiceStore) (env : StoreEnv) (call : ServiceCall) :
    (∃ c complete, call.command = some c ∧
        call.written s.toServiceTable env.now = c.written s.toServiceTable.registry ∧
        (∀ service : Service, (complete service).name = service.name) ∧
        (call.apply s env).1.toServiceTable.registry =
          c.after complete s.toServiceTable.registry) ∨
      (call = .cleanupExpired) ∨
      (call.command = none ∧ call.written s.toServiceTable env.now = [] ∧
        (call.apply s env).1.toServiceTable = s.toServiceTable) := by
  cases hc : call.command with
  | some c =>
    obtain ⟨complete, hname, happly⟩ := registry_apply s env hc
    refine .inl ⟨c, complete, rfl, ?_, hname, happly⟩
    cases call with
    | cleanupExpired => cases hc
    | _ => cases hc <;> rfl
  | none =>
    cases call with
    | cleanupExpired => exact .inr (.inl rfl)
    | updateTTLCheck checkID => exact .inr (.inr ⟨rfl, rfl, rfl⟩)
    | get name => exact .inr (.inr ⟨rfl, rfl, rfl⟩)
    | getEntry name => exact .inr (.inr ⟨rfl, rfl, rfl⟩)
    | list range => exact .inr (.inr ⟨rfl, rfl, rfl⟩)
    | queryByTags tags range => exact .inr (.inr ⟨rfl, rfl, rfl⟩)
    | queryByMetadata filters first rest range => exact .inr (.inr ⟨rfl, rfl, rfl⟩)
    | queryByTagsAndMetadata later tags filters first rest range =>
      exact .inr (.inr ⟨rfl, rfl, rfl⟩)
    | _ => cases hc

/-- A compare-and-swap of the service under a name against an index. -/
def Expects (name : GoString) (n : UInt64) : ServiceCall → Prop
  | registerCAS service _ expectedIndex => service.name = name ∧ expectedIndex = n
  | registerCASLocal serviceData _ expectedIndex => serviceData.name = name ∧ expectedIndex = n
  | deregisterCAS name' expectedIndex => name' = name ∧ expectedIndex = n
  | deregisterCASLocal name' expectedIndex => name' = name ∧ expectedIndex = n
  | _ => False

/-- The call returns no error. -/
def Succeeds (s : ServiceStore) (env : StoreEnv) (call : ServiceCall) : Prop :=
  match (call.apply s env).2 with
  | .done err => err = none
  | .index _ err => err = none
  | _ => False

theorem found_of_registerCAS {t : ServiceTable} {name : GoString} {n : UInt64} (hn : n ≠ 0)
    (h : t.checkRegisterCAS name n = none) :
    ∃ entry, t.data.lookup name = some entry ∧ entry.modifyIndex = n := by
  unfold ServiceTable.checkRegisterCAS at h
  split at h
  · next entry hentry =>
    rw [if_neg hn] at h
    split_ifs at h with hne
    exact ⟨entry, hentry, not_not.mp hne⟩
  · cases (if_neg hn).symm.trans h

theorem found_of_deregisterCAS {t : ServiceTable} {name : GoString} {n : UInt64}
    (h : t.checkDeregisterCAS name n = none) :
    ∃ entry, t.data.lookup name = some entry ∧ entry.modifyIndex = n := by
  unfold ServiceTable.checkDeregisterCAS at h
  split at h
  · cases h
  · next entry hentry =>
    split_ifs at h with hne
    exact ⟨entry, hentry, not_not.mp hne⟩

/-- A compare-and-swap against an index that succeeds has found it, and writes the name. -/
theorem found_of_expects {s : ServiceStore} {env : StoreEnv} {call : ServiceCall} {name : GoString}
    {n : UInt64} (hn : n ≠ 0) (h : call.Expects name n) (hsucceeds : call.Succeeds s env) :
    (∃ entry, s.data.lookup name = some entry ∧ entry.modifyIndex = n) ∧
      name ∈ call.written s.toServiceTable env.now := by
  cases call with
  | registerCAS service range expectedIndex =>
    obtain ⟨rfl, rfl⟩ := h
    simp only [Succeeds, apply, ServiceStore.registerCAS] at hsucceeds
    cases hv : validateService service range with
    | some err => simp [hv] at hsucceeds
    | none =>
      cases hc : s.toServiceTable.checkRegisterCAS service.name expectedIndex with
      | some err => simp [hv, hc] at hsucceeds
      | none =>
        refine ⟨found_of_registerCAS hn hc, ?_⟩
        have hvalid : service.Valid := (service.valid_iff range).mpr hv
        rw [ServiceTable.checkRegisterCAS_registry] at hc
        simp [written, command, ServiceCommand.written, hvalid, hc]
  | registerCASLocal serviceData range expectedIndex =>
    obtain ⟨rfl, rfl⟩ := h
    simp only [Succeeds, apply, ServiceStore.registerCASLocal] at hsucceeds
    cases hv : validateService serviceData.toService range with
    | some err => simp [hv] at hsucceeds
    | none =>
      cases hc : s.toServiceTable.checkRegisterCAS serviceData.name expectedIndex with
      | some err => simp [hv, hc] at hsucceeds
      | none =>
        refine ⟨found_of_registerCAS hn hc, ?_⟩
        have hvalid : serviceData.toService.Valid := (serviceData.toService.valid_iff range).mpr hv
        rw [ServiceTable.checkRegisterCAS_registry] at hc
        have hname : serviceData.toService.name = serviceData.name := rfl
        simp [written, command, ServiceCommand.written, hvalid, hc, hname]
  | deregisterCAS name' expectedIndex =>
    obtain ⟨rfl, rfl⟩ := h
    simp only [Succeeds, apply, ServiceStore.deregisterCAS] at hsucceeds
    cases hc : s.toServiceTable.checkDeregisterCAS name' expectedIndex with
    | some err => simp [hc] at hsucceeds
    | none =>
      refine ⟨found_of_deregisterCAS hc, ?_⟩
      rw [ServiceTable.checkDeregisterCAS_registry] at hc
      simp [written, command, ServiceCommand.written, hc]
  | deregisterCASLocal name' expectedIndex =>
    obtain ⟨rfl, rfl⟩ := h
    simp only [Succeeds, apply, ServiceStore.deregisterCASLocal] at hsucceeds
    cases hc : s.toServiceTable.checkDeregisterCAS name' expectedIndex with
    | some err => simp [hc] at hsucceeds
    | none =>
      refine ⟨found_of_deregisterCAS hc, ?_⟩
      rw [ServiceTable.checkDeregisterCAS_registry] at hc
      simp [written, command, ServiceCommand.written, hc]
  | _ => exact h.elim

theorem apply_of_not_succeeds {s : ServiceStore} {env : StoreEnv} {call : ServiceCall}
    {name : GoString} {n : UInt64} (hengine : s.engine = none) (h : call.Expects name n)
    (hfails : ¬ call.Succeeds s env) : (call.apply s env).1 = s := by
  cases call with
  | registerCAS service range expectedIndex =>
    simp only [Succeeds, apply, ServiceStore.registerCAS] at hfails ⊢
    cases hv : validateService service range with
    | some err => rfl
    | none =>
      cases hc : s.toServiceTable.checkRegisterCAS service.name expectedIndex with
      | some err => rfl
      | none =>
        simp [hv, hc, ServiceStore.registered, ServiceStore.persistEntry, hengine] at hfails
  | registerCASLocal serviceData range expectedIndex =>
    simp only [Succeeds, apply, ServiceStore.registerCASLocal] at hfails ⊢
    cases hv : validateService serviceData.toService range with
    | some err => rfl
    | none =>
      cases hc : s.toServiceTable.checkRegisterCAS serviceData.name expectedIndex with
      | some err => rfl
      | none => simp [hv, hc] at hfails
  | deregisterCAS name' expectedIndex =>
    simp only [Succeeds, apply, ServiceStore.deregisterCAS] at hfails ⊢
    cases hc : s.toServiceTable.checkDeregisterCAS name' expectedIndex with
    | some err => rfl
    | none => simp [hc, ServiceStore.persist, hengine] at hfails
  | deregisterCASLocal name' expectedIndex =>
    simp only [Succeeds, apply, ServiceStore.deregisterCASLocal] at hfails ⊢
    cases hc : s.toServiceTable.checkDeregisterCAS name' expectedIndex with
    | some err => rfl
    | none => simp [hc] at hfails
  | _ => exact h.elim

end ServiceCall

namespace ServiceStore

/-! ### Versions over a run -/

/-- The store as a replica without keys. -/
def solo (s : ServiceStore) : Replica := ⟨⟨∅, 0⟩, s.toServiceTable.registry⟩

def versions : Versions ServiceStore GoString Konsul.Stored := Replica.versions.comap solo Slot.service

/-- The counter has room for what the call takes. -/
def Room (s : ServiceStore) (i : TimedCall) : Prop :=
  s.globalIndex.toNat + i.call.taken s.toServiceTable < 2 ^ 64

variable {s : ServiceStore}

theorem advance (s : ServiceStore) (i : TimedCall) (hroom : s.Room i) :
    versions.Advance s (TimedCall.machine.step s i).1
      (i.call.written s.toServiceTable i.env.now) := by
  have hroom : s.globalIndex.toNat + i.call.taken s.toServiceTable < 2 ^ 64 := hroom
  rcases ServiceCall.registry_cases s i.env i.call with
    ⟨c, complete, hc, hwritten, hname, happly⟩ | hcleanup | ⟨-, hwritten, happly⟩
  · rw [hwritten]
    refine Versions.Advance.comap (fun _ _ h => Slot.service.inj h) ?_
    have hsolo : solo (TimedCall.machine.step s i).1 =
        { solo s with services := c.after complete s.toServiceTable.registry } :=
      congrArg (Replica.mk ⟨∅, 0⟩) happly
    rw [ServiceCall.taken, hc, Option.map_some, Option.getD_some] at hroom
    rw [hsolo]
    exact c.advance (solo s) hname hroom
  · refine Versions.Advance.comap (fun _ _ h => Slot.service.inj h) ?_
    have hsolo : solo (TimedCall.machine.step s i).1 = solo (s.cleanupExpired i.env.now).1 := by
      simp only [TimedCall.machine, hcleanup, ServiceCall.apply]
    rw [hsolo, hcleanup]
    exact FSM.advance_cleanupExpired ⟨.new, s⟩ i.env.now
  · rw [hwritten]
    refine Versions.Advance.comap (fun _ _ h => Slot.service.inj h) ?_
    have hsolo : solo (TimedCall.machine.step s i).1 = solo s :=
      congrArg (fun t : ServiceTable => (⟨⟨∅, 0⟩, t.registry⟩ : Replica)) happly
    rw [hsolo]
    exact .refl

theorem numbered_step (h : s.toServiceTable.registry.Numbered) {i : TimedCall} (hroom : s.Room i) :
    (TimedCall.machine.step s i).1.toServiceTable.registry.Numbered := by
  have hroom : s.globalIndex.toNat + i.call.taken s.toServiceTable < 2 ^ 64 := hroom
  have hstep : (TimedCall.machine.step s i).1 = (i.call.apply s i.env).1 := rfl
  rw [hstep]
  rcases ServiceCall.registry_cases s i.env i.call with
    ⟨c, complete, hc, -, -, happly⟩ | hcleanup | ⟨-, -, happly⟩
  · rw [ServiceCall.taken, hc, Option.map_some, Option.getD_some] at hroom
    rw [happly]
    exact h.after c complete hroom
  · rw [hcleanup]
    have htable := s.cleanupExpired_toServiceTable i.env.now
    refine h.of_subset (fun name r hr => ?_) ?_
    · have hr : ((s.cleanupExpired i.env.now).1.toServiceTable.registry.data.lookup name) = some r :=
        hr
      rw [ServiceTable.lookup_registry, lookup_cleanupExpired] at hr
      split_ifs at hr
      · cases hr
      · rw [ServiceTable.lookup_registry]
        exact hr
    · exact (congrArg ServiceTable.globalIndex htable).trans (ServiceTable.removeAll_globalIndex _ _)
  · rw [happly]
    exact h

theorem globalIndex_step {i : TimedCall} (hroom : s.Room i) :
    (TimedCall.machine.step s i).1.globalIndex.toNat =
      s.globalIndex.toNat + i.call.taken s.toServiceTable := by
  have hroom : s.globalIndex.toNat + i.call.taken s.toServiceTable < 2 ^ 64 := hroom
  rcases ServiceCall.registry_cases s i.env i.call with
    ⟨c, complete, hc, -, -, happly⟩ | hcleanup | ⟨hc, -, happly⟩
  · rw [ServiceCall.taken, hc, Option.map_some, Option.getD_some] at hroom ⊢
    have hcounter := congrArg Registry.globalIndex happly
    have hafter := Registry.globalIndex_after s.toServiceTable.registry c complete hroom
    rw [← hcounter] at hafter
    exact hafter
  · have htaken : i.call.taken s.toServiceTable = 0 := by
      rw [hcleanup]
      rfl
    have htable := s.cleanupExpired_toServiceTable i.env.now
    have hcounter := (congrArg ServiceTable.globalIndex htable).trans
      (ServiceTable.removeAll_globalIndex _ _)
    have hstep : (TimedCall.machine.step s i).1 = (s.cleanupExpired i.env.now).1 := by
      simp only [TimedCall.machine, hcleanup, ServiceCall.apply]
    rw [htaken, hstep]
    exact congrArg UInt64.toNat hcounter
  · have htaken : i.call.taken s.toServiceTable = 0 := by
      rw [ServiceCall.taken, hc]
      rfl
    rw [htaken]
    exact congrArg (fun t : ServiceTable => t.globalIndex.toNat) happly

theorem engine_apply (env : StoreEnv) (call : ServiceCall) (h : s.engine = none) :
    (call.apply s env).1.engine = none := by
  have hregistered (service : Service) : (s.registered env service).1.engine = none := by
    simp only [registered, persistEntry, h]
  have hpersist (t : ServiceTable) (deletes : Engine → Engine × Option GoError) :
      (({ s with toServiceTable := t } : ServiceStore).persist deletes).1.engine = none := by
    simp only [persist, h]
  cases call with
  | register service range =>
    simp only [ServiceCall.apply, register]
    cases validateService service range with
    | some err => exact h
    | none => exact hregistered service
  | registerCAS service range expectedIndex =>
    simp only [ServiceCall.apply, registerCAS]
    cases validateService service range with
    | some err => exact h
    | none =>
      cases s.toServiceTable.checkRegisterCAS service.name expectedIndex with
      | some err => exact h
      | none => exact hregistered service
  | heartbeat name =>
    simp only [ServiceCall.apply, heartbeat]
    cases s.data.lookup name with
    | none => exact h
    | some entry => simp only [persistEntry, h]
  | deregister name => exact hpersist _ _
  | deregisterCAS name expectedIndex =>
    simp only [ServiceCall.apply, deregisterCAS]
    cases s.toServiceTable.checkDeregisterCAS name expectedIndex with
    | some err => exact h
    | none => exact hpersist _ _
  | registerLocal serviceData range =>
    simp only [ServiceCall.apply, registerLocal]
    cases validateService serviceData.toService range <;> exact h
  | registerCASLocal serviceData range expectedIndex =>
    simp only [ServiceCall.apply, registerCASLocal]
    cases validateService serviceData.toService range with
    | some err => exact h
    | none => cases s.toServiceTable.checkRegisterCAS serviceData.name expectedIndex <;> exact h
  | heartbeatLocal name =>
    simp only [ServiceCall.apply, heartbeatLocal]
    cases s.data.lookup name <;> exact h
  | deregisterCASLocal name expectedIndex =>
    simp only [ServiceCall.apply, deregisterCASLocal]
    cases s.toServiceTable.checkDeregisterCAS name expectedIndex <;> exact h
  | cleanupExpired =>
    have hfaults := (s.cleanupExpired_keeps env.now).2.2
    rw [faults, faults, h, Option.map_none, Option.map_eq_none_iff] at hfaults
    exact hfaults
  | _ => exact h

theorem stored_entry {name : GoString} {entry : ServiceEntry}
    (h : s.data.lookup name = some entry) :
    versions.stored s name = some (.registration entry.registration) := by
  have hregistry : s.toServiceTable.registry.data.lookup name = some entry.registration := by
    rw [ServiceTable.lookup_registry, h, Option.map_some]
  exact congrArg (Option.map Stored.registration) hregistry

theorem lookup_of_stored {name : GoString} {r : Registration}
    (h : versions.stored s name = some (.registration r)) :
    ∃ entry, s.data.lookup name = some entry ∧ entry.registration = r := by
  obtain ⟨r', hr, heq⟩ := Option.map_eq_some_iff.mp h
  cases heq
  have hr : s.toServiceTable.registry.data.lookup name = some r := hr
  rw [ServiceTable.lookup_registry] at hr
  exact Option.map_eq_some_iff.mp hr

/-- Calls that only move or watch an expiry. -/
def MovesExpiry (i : TimedCall) : Prop :=
  i.call = .cleanupExpired ∨ ∃ name, i.call = .heartbeat name ∨ i.call = .heartbeatLocal name

theorem registration_of_movesExpiry {i : TimedCall} (h : MovesExpiry i) {name : GoString}
    {entry entry' : ServiceEntry} (hentry : s.data.lookup name = some entry)
    (hentry' : (TimedCall.machine.step s i).1.data.lookup name = some entry') :
    entry'.registration = entry.registration := by
  have hstep : (TimedCall.machine.step s i).1 = (i.call.apply s i.env).1 := rfl
  rw [hstep] at hentry'
  have hsame (c : ServiceCommand) (hc : i.call.command = some c)
      (hafter : ∀ complete t, c.after complete t = t) :
      entry'.registration = entry.registration := by
    obtain ⟨complete, -, happly⟩ := ServiceCall.registry_apply s i.env hc
    have hlookup := congrArg (fun t : Registry => t.data.lookup name) happly
    simp only [hafter, ServiceTable.lookup_registry, hentry, hentry', Option.map_some] at hlookup
    exact Option.some.inj hlookup
  rcases h with hcleanup | ⟨target, hbeat | hbeat⟩
  · rw [hcleanup] at hentry'
    have hlookup := s.lookup_cleanupExpired i.env.now name
    rw [show (s.cleanupExpired i.env.now).1.data.lookup name = some entry' from hentry'] at hlookup
    split_ifs at hlookup
    rw [hentry] at hlookup
    rw [Option.some.inj hlookup]
  · exact hsame (.heartbeat target) (by rw [hbeat]; rfl) fun _ _ => rfl
  · exact hsame (.heartbeat target) (by rw [hbeat]; rfl) fun _ _ => rfl

/-- The store a run of calls reaches from empty, without an engine. -/
def reached (ttl : Duration) (calls : List TimedCall) : ServiceStore :=
  (TimedCall.machine.run (.newWithTTL ttl) calls).1

theorem reached_append (ttl : Duration) (calls calls' : List TimedCall) :
    reached ttl (calls ++ calls') = (TimedCall.machine.run (reached ttl calls) calls').1 := by
  rw [reached, Machine.run_append, ← reached]

theorem reached_middle (ttl : Duration) (before after : List TimedCall) (i : TimedCall) :
    reached ttl (before ++ i :: after) =
      (TimedCall.machine.run (TimedCall.machine.step (reached ttl before) i).1 after).1 :=
  TimedCall.machine.run_middle (.newWithTTL ttl) before after i

/-- The number of registrations a run makes. -/
def registrations (ttl : Duration) (calls : List TimedCall) : ℕ :=
  TimedCall.machine.total (fun s i => i.call.taken s.toServiceTable) (.newWithTTL ttl) calls

/-- What a run from the empty store guarantees a client that compares and swaps. -/
structure CasSafe (ttl : Duration) (calls : List TimedCall) : Prop where
  ordered : ∀ name entry, (reached ttl calls).data.lookup name = some entry →
    1 ≤ entry.createIndex ∧ entry.createIndex ≤ entry.modifyIndex ∧
      entry.modifyIndex ≤ (reached ttl calls).globalIndex
  distinct : ∀ name name' entry entry', (reached ttl calls).data.lookup name = some entry →
    (reached ttl calls).data.lookup name' = some entry' →
    entry.modifyIndex = entry'.modifyIndex → name = name'
  kept : ∀ before i after, calls = before ++ i :: after → MovesExpiry i →
    ∀ name entry entry', (reached ttl before).data.lookup name = some entry →
    (reached ttl (before ++ [i])).data.lookup name = some entry' →
    entry'.modifyIndex = entry.modifyIndex ∧ entry'.createIndex = entry.createIndex
  failed : ∀ before i after, calls = before ++ i :: after → ∀ name n, i.call.Expects name n →
    ¬ i.call.Succeeds (reached ttl before) i.env →
    (i.call.apply (reached ttl before) i.env).1 = reached ttl before
  once : ∀ first i between j rest, calls = first ++ i :: (between ++ j :: rest) →
    ∀ name n, n ≠ 0 → i.call.Expects name n → j.call.Expects name n →
    i.call.Succeeds (reached ttl first) i.env →
    ¬ j.call.Succeeds (reached ttl (first ++ i :: between)) j.env
  replaces : ∀ before i rest, calls = before ++ i :: rest → ∀ name n, n ≠ 0 →
    i.call.Expects name n → i.call.Succeeds (reached ttl before) i.env →
    ∃ first write between entry, before = first ++ write :: between ∧
      name ∈ write.call.written (reached ttl first).toServiceTable write.env.now ∧
      (reached ttl (first ++ [write])).data.lookup name = some entry ∧ entry.modifyIndex = n ∧
      ∀ mid j rest', between = mid ++ j :: rest' →
        name ∉ j.call.written (reached ttl (first ++ write :: mid)).toServiceTable j.env.now

theorem room_of_registrations {ttl : Duration} {calls : List TimedCall}
    (h : registrations ttl calls < 2 ^ 64) :
    TimedCall.machine.Along Room (.newWithTTL ttl) calls := by
  have hused : (ServiceStore.newWithTTL ttl).globalIndex.toNat + registrations ttl calls <
      2 ^ 64 := by
    rw [show (ServiceStore.newWithTTL ttl).globalIndex.toNat = 0 from rfl]
    omega
  exact TimedCall.machine.along_of_total (fun s i hroom => (globalIndex_step hroom).le) hused

/-- Every run that makes fewer than 2^64 registrations is safe for clients that
compare and swap, whatever the clock does. -/
theorem service_cas_safe (ttl : Duration) (calls : List TimedCall)
    (h : registrations ttl calls < 2 ^ 64) : CasSafe ttl calls := by
  have hroom := room_of_registrations h
  have hstep := fun (s : ServiceStore) (i : TimedCall) (hi : s.Room i) => s.advance i hi
  have hnumbered {calls : List TimedCall}
      (h : TimedCall.machine.Along Room (.newWithTTL ttl) calls) :
      (reached ttl calls).toServiceTable.registry.Numbered :=
    @Machine.invariant _ _ _ TimedCall.machine Room (fun s => s.toServiceTable.registry.Numbered)
      (fun _ _ hnumbered hroom => numbered_step hnumbered hroom) _ _ Registry.numbered_empty h
  have hlookup (calls : List TimedCall) {name : GoString} {entry : ServiceEntry}
      (hentry : (reached ttl calls).data.lookup name = some entry) :
      (reached ttl calls).toServiceTable.registry.data.lookup name = some entry.registration := by
    rw [ServiceTable.lookup_registry, hentry, Option.map_some]
  refine ⟨fun name entry hentry => ?_, fun name name' entry entry' hentry hentry' heq => ?_,
    ?_, ?_, ?_, ?_⟩
  · obtain ⟨hpos, hle, hbound⟩ := (hnumbered hroom).ordered name _ (hlookup calls hentry)
    exact ⟨UInt64.le_iff_toNat_le.mpr hpos, UInt64.le_iff_toNat_le.mpr hle,
      UInt64.le_iff_toNat_le.mpr hbound⟩
  · exact (hnumbered hroom).distinct name name' _ _ (hlookup calls hentry) (hlookup calls hentry') heq
  · rintro before i after rfl hmoves name entry entry' hentry hentry'
    rw [reached_middle] at hentry'
    have hsame := registration_of_movesExpiry hmoves hentry hentry'
    exact ⟨congrArg Registration.modifyIndex hsame, congrArg Registration.createIndex hsame⟩
  · rintro before i after rfl name n hexpects hfails
    have hengine : (reached ttl before).engine = none :=
      @Machine.invariant_run _ _ _ TimedCall.machine (fun s => s.engine = none)
        (fun _ i hs => engine_apply i.env i.call hs) (.newWithTTL ttl) rfl before
    exact ServiceCall.apply_of_not_succeeds hengine hexpects hfails
  · rintro first i between j rest rfl name n hn hexpects hexpects' hwins hwins'
    have hcons : first ++ i :: (between ++ j :: rest) = (first ++ i :: between) ++ j :: rest := by
      simp
    rw [hcons] at hroom
    have hbegin := ((TimedCall.machine.along_middle _ _ _ _ _).mp hroom).1
    obtain ⟨hfirst, hi, hbetween⟩ := (TimedCall.machine.along_middle _ _ _ _ _).mp hbegin
    obtain ⟨⟨entry, hentry, rfl⟩, hwritten⟩ := ServiceCall.found_of_expects hn hexpects hwins
    obtain ⟨⟨entry', hentry', hversion⟩, -⟩ := ServiceCall.found_of_expects hn hexpects' hwins'
    have hadvance := (reached ttl first).advance i hi
    have hgiven : entry.modifyIndex.toNat ≤ (reached ttl first).globalIndex.toNat :=
      ((hnumbered hfirst).ordered name _ (hlookup first hentry)).2.2
    -- the version is gone after the first success, and does not come back
    have hgone : ∀ v, versions.stored (TimedCall.machine.step (reached ttl first) i).1 name = some v →
        versions.version v ≠ entry.modifyIndex.toNat := by
      intro v hv
      have hnew : (reached ttl first).globalIndex.toNat < versions.version v :=
        (hadvance.fresh name v hwritten hv).1
      omega
    rw [reached_middle] at hentry'
    have hne := Versions.version_ne_run hstep hbetween (hgiven.trans (hadvance.le name)) hgone _
      (stored_entry hentry')
    exact hne (congrArg UInt64.toNat hversion)
  · rintro before i rest rfl name n hn hexpects hwins
    obtain ⟨⟨entry, hentry, rfl⟩, -⟩ := ServiceCall.found_of_expects hn hexpects hwins
    have hbegin := ((TimedCall.machine.along_middle _ _ _ _ _).mp hroom).1
    obtain ⟨first, write, between, rfl, hwrite, hstored, halong⟩ :=
      Versions.exists_write hstep (fun _ => rfl) hbegin (stored_entry hentry)
    obtain ⟨entry', hentry', hsame⟩ := lookup_of_stored hstored
    refine ⟨first, write, between, entry', rfl, hwrite, hentry',
      congrArg Registration.modifyIndex hsame, ?_⟩
    rintro mid j rest' rfl
    have hmid := ((TimedCall.machine.along_middle _ _ _ _ _).mp halong).2.1
    have hstate : (TimedCall.machine.run (TimedCall.machine.run (.newWithTTL ttl)
        (first ++ [write])).1 mid).1 = reached ttl (first ++ write :: mid) := by
      have hsplit : first ++ write :: mid = (first ++ [write]) ++ mid := by simp
      rw [hsplit, reached_append]
      rfl
    rw [hstate] at hmid
    exact hmid

/-- A service is registered, replaced against its version after a heartbeat, and
deregistered against the next one. -/
theorem service_cas_safe_one_service :
    CasSafe 10 [TimedCall.callAt 0 (.register web noMetadata),
      TimedCall.callAt 1 (.heartbeat (str "web")),
      TimedCall.callAt 2 (.registerCAS web noMetadata 1),
      TimedCall.callAt 3 (.deregisterCASLocal (str "web") 2)] :=
  service_cas_safe 10 _ (by decide)

end ServiceStore

end Konsul
