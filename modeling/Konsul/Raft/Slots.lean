import Konsul.Lib.Versions
import Konsul.Raft.Cleanup
import Konsul.Raft.Node
import Konsul.Store.Aba
import Konsul.Store.Atomicity

/-!
# What a command writes

A `Slot` is a key of the key-value store or the name of a service. `written`
lists the slots a command gives a new record or empties: none where its checks
refuse it, and none where it only moves an expiry. Whether a command comes from
the log or calls a store directly, and also when a cleanup runs, the stores
advance by what is written, as long as their counters have room.
-/

namespace Konsul

open GoLib

inductive Slot where
  | key (key : GoString)
  | service (name : GoString)
  deriving DecidableEq

/-- The record of a slot; the expiry of a service is no part of it. -/
inductive Stored where
  | entry (e : KVEntry)
  | registration (r : Registration)
  deriving DecidableEq

def Stored.modifyIndex : Stored → UInt64
  | entry e => e.modifyIndex
  | registration r => r.modifyIndex

namespace Replica

def stored (r : Replica) : Slot → Option Stored
  | .key key => (r.kv.data.lookup key).map .entry
  | .service name => (r.services.data.lookup name).map .registration

def counter (r : Replica) : Slot → UInt64
  | .key _ => r.kv.globalIndex
  | .service _ => r.services.globalIndex

def versions : Versions Replica Slot Stored where
  stored := stored
  version v := v.modifyIndex.toNat
  counter r slot := (r.counter slot).toNat

end Replica

/-! ### The key-value store -/

namespace KVOp

/-- The table after an operation, which changes nothing if its check fails. -/
def after (t : KVTable) (op : KVOp) : KVTable :=
  match op.check t with
  | some _ => t
  | none => op.update t

def written (t : KVTable) (op : KVOp) : List GoString :=
  match op.check t with
  | some _ => []
  | none => op.keys

theorem apply_after (kv : KVStore) (op : KVOp) :
    (op.apply kv).1.toKVTable = op.after kv.toKVTable := by
  unfold after
  cases hc : op.check kv.toKVTable with
  | some err => rw [apply_of_check_some hc]
  | none => exact apply_toKVTable hc

theorem applyCommand_after (t : KVTable) (c : KVCommand) (ch : c.Choice) :
    (t.applyCommand c ch).1 = (c.toOp ch).after t := by
  cases c with
  | setCAS key value expectedIndex =>
    simp only [KVTable.applyCommand, KVCommand.toOp, after, check, update]
    cases t.checkSetCAS key expectedIndex <;> rfl
  | deleteCAS key expectedIndex =>
    simp only [KVTable.applyCommand, KVCommand.toOp, after, check, update]
    cases t.checkDeleteCAS key expectedIndex <;> rfl
  | batchSetCAS items expectedIndices =>
    obtain ⟨check, range, watch⟩ := ch
    simp only [KVTable.applyCommand, KVCommand.toOp, after, KVOp.check, update]
    cases t.checkSetAll check.list expectedIndices <;> rfl
  | batchDeleteCAS keys expectedIndices =>
    simp only [KVTable.applyCommand, KVCommand.toOp, after, check, update]
    cases t.checkDeleteAll keys expectedIndices <;> rfl
  | _ => rfl

theorem advance (r : Replica) (op : KVOp)
    (hroom : r.kv.globalIndex.toNat + (op.assigned r.kv).length < 2 ^ 64) :
    Replica.versions.Advance r { r with kv := op.after r.kv } ((op.written r.kv).map .key) := by
  unfold after written
  simp only [assigned] at hroom
  cases hc : op.check r.kv with
  | some err => exact .refl
  | none =>
    rw [hc] at hroom
    simp only [KVTable.length_assigned] at hroom
    have hfresh := KVStore.fresh_assigned r.kv op.items hroom
    rw [← update_globalIndex] at hfresh
    refine ⟨fun slot hslot => ?_, fun slot => ?_, fun slot v hslot hv => ?_⟩
    · cases slot with
      | service name => rfl
      | key key =>
        have hkey : key ∉ op.keys := fun h => hslot (List.mem_map_of_mem h)
        exact congrArg (Option.map Stored.entry) (op.lookup_update_of_notMem r.kv hkey)
    · cases slot with
      | service name => exact le_rfl
      | key key => exact hfresh.le
    · obtain ⟨key, hkey, rfl⟩ := List.mem_map.mp hslot
      obtain ⟨e, he, rfl⟩ := Option.map_eq_some_iff.mp hv
      exact hfresh.mem _ (op.modifyIndex_of_update r.kv hkey he)

end KVOp

/-! ### The registry -/

namespace Registry

theorem advance_put (r : Replica) (service : Service)
    (hroom : r.services.globalIndex.toNat + 1 < 2 ^ 64) :
    Replica.versions.Advance r { r with services := r.services.put service }
      [.service service.name] := by
  have hnext : (r.services.globalIndex + 1).toNat = r.services.globalIndex.toNat + 1 := by
    rw [UInt64.toNat_add, UInt64.toNat_one, Nat.mod_eq_of_lt hroom]
  have hlookup (name : GoString) : (r.services.put service).data.lookup name =
      if name = service.name then some (r.services.newEntry service)
      else r.services.data.lookup name := GoMap.lookup_insert_ite ..
  refine ⟨fun slot hslot => ?_, fun slot => ?_, fun slot v hslot hv => ?_⟩
  · cases slot with
    | key key => rfl
    | service name =>
      have hname : name ≠ service.name := by
        rintro rfl
        exact hslot (List.mem_singleton_self _)
      have hold := hlookup name
      rw [if_neg hname] at hold
      exact congrArg (Option.map Stored.registration) hold
  · cases slot with
    | key key => exact le_rfl
    | service name => exact (Nat.le_succ _).trans_eq hnext.symm
  · obtain rfl := List.mem_singleton.mp hslot
    have hnew := hlookup service.name
    rw [if_pos rfl] at hnew
    have hv : ((r.services.put service).data.lookup service.name).map Stored.registration =
      some v := hv
    rw [hnew] at hv
    cases hv
    exact ⟨(Nat.lt_succ_self _).trans_eq hnext.symm, le_rfl⟩

theorem advance_erase (r : Replica) (names : List GoString) (t : Registry)
    (hdata : ∀ name, t.data.lookup name =
      if name ∈ names then none else r.services.data.lookup name)
    (hcounter : t.globalIndex = r.services.globalIndex) :
    Replica.versions.Advance r { r with services := t } (names.map .service) := by
  refine ⟨fun slot hslot => ?_, fun slot => ?_, fun slot v hslot hv => ?_⟩
  · cases slot with
    | key key => rfl
    | service name =>
      have hname : name ∉ names := fun h => hslot (List.mem_map_of_mem h)
      have hold := hdata name
      rw [if_neg hname] at hold
      exact congrArg (Option.map Stored.registration) hold
  · cases slot with
    | key key => exact le_rfl
    | service name => exact (congrArg UInt64.toNat hcounter).ge
  · obtain ⟨name, hname, rfl⟩ := List.mem_map.mp hslot
    have hgone := hdata name
    rw [if_pos hname] at hgone
    have hv : (t.data.lookup name).map Stored.registration = some v := hv
    rw [hgone] at hv
    cases hv

theorem advance_remove (r : Replica) (name : GoString) :
    Replica.versions.Advance r { r with services := r.services.remove name } [.service name] := by
  refine advance_erase r [name] _ (fun k => ?_) rfl
  simp only [remove, GoMap.lookup_erase_ite, List.mem_singleton]

end Registry

/-! ### Commands -/

namespace ServiceCommand

def written (t : Registry) : ServiceCommand → List GoString
  | .register service => if service.Valid then [service.name] else []
  | .deregister name => [name]
  | .heartbeat _ => []
  | .ttlUpdate _ => []
  | .registerCAS service expectedIndex =>
    if service.Valid ∧ t.checkRegisterCAS service.name expectedIndex = none then [service.name]
    else []
  | .deregisterCAS name expectedIndex =>
    if t.checkDeregisterCAS name expectedIndex = none then [name] else []

/-- How many indices the command takes. -/
def taken (t : Registry) (c : ServiceCommand) : ℕ :=
  match c with
  | .register _ => (c.written t).length
  | .registerCAS _ _ => (c.written t).length
  | _ => 0

/-- The registry after a command that registers `complete service` for a service. -/
def after (complete : Service → Service) (t : Registry) : ServiceCommand → Registry
  | .register service => if service.Valid then t.put (complete service) else t
  | .deregister name => t.remove name
  | .heartbeat _ => t
  | .ttlUpdate _ => t
  | .registerCAS service expectedIndex =>
    if service.Valid ∧ t.checkRegisterCAS service.name expectedIndex = none then
      t.put (complete service)
    else t
  | .deregisterCAS name expectedIndex =>
    if t.checkDeregisterCAS name expectedIndex = none then t.remove name else t

theorem advance (r : Replica) (c : ServiceCommand) {complete : Service → Service}
    (hcomplete : ∀ service, (complete service).name = service.name)
    (hroom : r.services.globalIndex.toNat + c.taken r.services < 2 ^ 64) :
    Replica.versions.Advance r { r with services := c.after complete r.services }
      ((c.written r.services).map .service) := by
  have hput (service : Service) (h : r.services.globalIndex.toNat + 1 < 2 ^ 64) :
      Replica.versions.Advance r { r with services := r.services.put (complete service) }
        [.service service.name] := by
    have hadvance := Registry.advance_put r (complete service) h
    rwa [hcomplete] at hadvance
  cases c with
  | register service =>
    simp only [taken, written, after] at hroom ⊢
    by_cases hvalid : service.Valid
    · simp only [if_pos hvalid, List.length_singleton] at hroom ⊢
      exact hput service hroom
    · simp only [if_neg hvalid]
      exact .refl
  | deregister name => exact Registry.advance_remove r name
  | heartbeat name => exact .refl
  | ttlUpdate checkID => exact .refl
  | registerCAS service expectedIndex =>
    simp only [taken, written, after] at hroom ⊢
    by_cases hcheck : service.Valid ∧
        r.services.checkRegisterCAS service.name expectedIndex = none
    · simp only [if_pos hcheck, List.length_singleton] at hroom ⊢
      exact hput service hroom
    · simp only [if_neg hcheck]
      exact .refl
  | deregisterCAS name expectedIndex =>
    simp only [written, after]
    by_cases hcheck : r.services.checkDeregisterCAS name expectedIndex = none
    · simp only [if_pos hcheck]
      exact Registry.advance_remove r name
    · simp only [if_neg hcheck]
      exact .refl

theorem applyCommand_after (t : Registry) (c : ServiceCommand) (ch : c.Choice) :
    (t.applyCommand c ch).1 = c.after (fun service => service.toSnapshot.toService) t := by
  cases c with
  | register service =>
    have hvalid : service.Valid ↔ validateService service.toSnapshot.toService ch = none :=
      service.valid_iff ch
    simp only [Registry.applyCommand, after, hvalid]
    cases validateService service.toSnapshot.toService ch <;> rfl
  | registerCAS service expectedIndex =>
    have hvalid : service.Valid ↔ validateService service.toSnapshot.toService ch = none :=
      service.valid_iff ch
    simp only [Registry.applyCommand, after, hvalid]
    cases validateService service.toSnapshot.toService ch with
    | some err => rfl
    | none => cases t.checkRegisterCAS service.name expectedIndex <;> rfl
  | deregisterCAS name expectedIndex =>
    simp only [Registry.applyCommand, after]
    cases t.checkDeregisterCAS name expectedIndex <;> rfl
  | _ => rfl

end ServiceCommand

namespace Command

def written (r : Replica) : (c : Command) → c.Choice → List Slot
  | .kv c, ch => ((c.toOp ch).written r.kv).map .key
  | .service c, _ => (c.written r.services).map .service
  | .undecodable _, _ => []

/-- The counter of the store has room for the indices the command takes. -/
def Room (r : Replica) : (c : Command) → c.Choice → Prop
  | .kv c, ch => r.kv.globalIndex.toNat + ((c.toOp ch).assigned r.kv).length < 2 ^ 64
  | .service c, _ => r.services.globalIndex.toNat + c.taken r.services < 2 ^ 64
  | .undecodable _, _ => True

/-- Commands that leave a record in every slot they write. -/
def Puts : Command → Prop
  | .kv (.set _ _) => True
  | .kv (.setWithFlags _ _ _) => True
  | .service (.register _) => True
  | _ => False

end Command

namespace KVTable

theorem isSome_put (t : KVTable) (key value : GoString) (flags : Option UInt64) :
    ((t.put key value flags).data.lookup key).isSome := by
  rw [lookup_put, if_pos rfl]
  rfl

end KVTable

namespace Registry

theorem isSome_put (t : Registry) (service : Service) :
    ((t.put service).data.lookup service.name).isSome := by
  rw [put, Finmap.lookup_insert]
  rfl

end Registry

/-! ### Steps of the stores -/

theorem ServiceStore.registry_registered (s : ServiceStore) (env : StoreEnv) (service : Service) :
    (s.registered env service).1.toServiceTable.registry =
      s.toServiceTable.registry.put (completeChecks env.toEnv service) := by
  rw [registered_toServiceTable, ServiceTable.registry_put]

theorem Replica.advance_step (r : Replica) (c : Command) (ch : c.Choice) (hroom : c.Room r ch) :
    versions.Advance r (chooser.step r c ch).1 (c.written r ch) := by
  cases c with
  | undecodable answer => exact .refl
  | kv c =>
    have hstep : (chooser.step r (.kv c) ch).1 = { r with kv := (c.toOp ch).after r.kv } :=
      congrArg (fun t => (⟨t, r.services⟩ : Replica)) (KVOp.applyCommand_after _ c ch)
    rw [hstep]
    exact KVOp.advance r (c.toOp ch) hroom
  | service c =>
    have hstep : (chooser.step r (.service c) ch).1 =
        { r with services := c.after (fun service => service.toSnapshot.toService) r.services } :=
      congrArg (fun t => (⟨r.kv, t⟩ : Replica)) (c.applyCommand_after _ ch)
    rw [hstep]
    exact c.advance r (fun _ => rfl) hroom

namespace FSM

variable (f : FSM)

theorem advance_apply (now : Time) (c : Command) (ch : c.Choice) (hroom : c.Room f.replica ch) :
    Replica.versions.Advance f.replica (f.apply now c ch).1.replica (c.written f.replica ch) := by
  have happly : (f.apply now c ch).1.replica = (Replica.chooser.step f.replica c ch).1 :=
    congrArg Prod.fst (f.step_replica ⟨c, ch, now⟩).symm
  rw [happly]
  exact f.replica.advance_step c ch hroom

theorem advance_callKVStore (c : KVCommand) (ch : c.Choice)
    (hroom : (Command.kv c).Room f.replica ch) :
    Replica.versions.Advance f.replica (f.callKVStore c ch).1.replica
      ((Command.kv c).written f.replica ch) := by
  have hcall : (f.callKVStore c ch).1.replica =
      { f.replica with kv := (c.toOp ch).after f.replica.kv } :=
    congrArg (fun t => (⟨t, f.replica.services⟩ : Replica)) (KVOp.apply_after _ _)
  rw [hcall]
  exact KVOp.advance f.replica (c.toOp ch) hroom

theorem registry_callServiceStore (env : StoreEnv) (c : ServiceCommand) (ch : c.Choice) :
    (f.callServiceStore env c ch).1.serviceStore.toServiceTable.registry =
      c.after (ServiceStore.completeChecks env.toEnv) f.serviceStore.toServiceTable.registry := by
  cases c with
  | register service =>
    have hvalid : service.Valid ↔ validateService service ch = none := service.valid_iff ch
    simp only [callServiceStore, ServiceStore.register, ServiceCommand.after, hvalid]
    cases validateService service ch with
    | some err => rfl
    | none => exact f.serviceStore.registry_registered env service
  | deregister name =>
    have htable : (f.serviceStore.deregister name).toServiceTable =
        f.serviceStore.toServiceTable.remove name := ServiceStore.persist_toServiceTable _ _
    simp only [callServiceStore, ServiceCommand.after, htable, ServiceTable.registry_remove]
  | heartbeat name =>
    simp only [callServiceStore, ServiceStore.heartbeat, ServiceCommand.after]
    split
    · rfl
    · rename_i entry h
      rw [ServiceStore.persistEntry_toServiceTable]
      exact ServiceTable.registry_touch _ _ h
  | ttlUpdate checkID => rfl
  | registerCAS service expectedIndex =>
    have hvalid : service.Valid ↔ validateService service ch = none := service.valid_iff ch
    simp only [callServiceStore, ServiceStore.registerCAS, ServiceCommand.after, hvalid,
      ServiceTable.checkRegisterCAS_registry]
    cases validateService service ch with
    | some err => rfl
    | none =>
      cases f.serviceStore.toServiceTable.registry.checkRegisterCAS service.name expectedIndex with
      | some err => rfl
      | none => exact f.serviceStore.registry_registered env service
  | deregisterCAS name expectedIndex =>
    simp only [callServiceStore, ServiceStore.deregisterCAS, ServiceCommand.after,
      ServiceTable.checkDeregisterCAS_registry]
    cases f.serviceStore.toServiceTable.registry.checkDeregisterCAS name expectedIndex with
    | some err => rfl
    | none =>
      simp only [ServiceStore.persist_toServiceTable, ServiceTable.registry_remove, ite_true]

theorem advance_callServiceStore (env : StoreEnv) (c : ServiceCommand) (ch : c.Choice)
    (hroom : (Command.service c).Room f.replica ch) :
    Replica.versions.Advance f.replica (f.callServiceStore env c ch).1.replica
      ((Command.service c).written f.replica ch) := by
  have hcall : (f.callServiceStore env c ch).1.replica =
      { f.replica with
        services := c.after (ServiceStore.completeChecks env.toEnv) f.replica.services } := by
    have hkv : (f.callServiceStore env c ch).1.kvStore = f.kvStore := by cases c <;> rfl
    simp only [replica, hkv, f.registry_callServiceStore env c ch]
  rw [hcall]
  exact c.advance f.replica (fun _ => rfl) hroom

theorem isSome_callKVStore {c : KVCommand} (hc : (Command.kv c).Puts) (ch : c.Choice) {slot : Slot}
    (h : slot ∈ (Command.kv c).written f.replica ch) :
    ((f.callKVStore c ch).1.replica.stored slot).isSome := by
  cases c with
  | set key value =>
    obtain rfl := List.mem_singleton.mp h
    have htable : ((KVOp.set key value).apply f.kvStore).1.toKVTable =
        f.kvStore.toKVTable.put key value none := KVOp.apply_after _ _
    have hput := f.kvStore.toKVTable.isSome_put key value none
    rw [← htable] at hput
    exact (Option.isSome_map ..).trans hput
  | setWithFlags key value flags =>
    obtain rfl := List.mem_singleton.mp h
    have htable : ((KVOp.setWithFlags key value flags).apply f.kvStore).1.toKVTable =
        f.kvStore.toKVTable.put key value (some flags) := KVOp.apply_after _ _
    have hput := f.kvStore.toKVTable.isSome_put key value (some flags)
    rw [← htable] at hput
    exact (Option.isSome_map ..).trans hput
  | _ => exact hc.elim

theorem isSome_register {g : FSM} (complete : Service → Service) {service : Service}
    (hname : (complete service).name = service.name)
    (hg : g.serviceStore.toServiceTable.registry = (ServiceCommand.register service).after complete
      f.serviceStore.toServiceTable.registry) {slot : Slot}
    (h : slot ∈ ((ServiceCommand.register service).written f.replica.services).map .service) :
    (g.replica.stored slot).isSome := by
  simp only [ServiceCommand.written, ServiceCommand.after] at h hg
  by_cases hvalid : service.Valid
  · rw [if_pos hvalid] at h hg
    obtain rfl := List.mem_singleton.mp h
    have hput := f.replica.services.isSome_put (complete service)
    rw [hname] at hput
    have hlookup : (g.replica.services.data.lookup service.name).isSome := by
      rw [show g.replica.services = _ from hg]
      exact hput
    exact (Option.isSome_map ..).trans hlookup
  · rw [if_neg hvalid] at h
    cases h

theorem isSome_apply (now : Time) {c : Command} (hc : c.Puts) (ch : c.Choice) {slot : Slot}
    (h : slot ∈ c.written f.replica ch) : ((f.apply now c ch).1.replica.stored slot).isSome := by
  match c, hc with
  | .kv (.set key value), _ =>
    obtain rfl := List.mem_singleton.mp h
    exact (Option.isSome_map ..).trans (f.kvStore.toKVTable.isSome_put key value none)
  | .kv (.setWithFlags key value flags), _ =>
    obtain rfl := List.mem_singleton.mp h
    exact (Option.isSome_map ..).trans (f.kvStore.toKVTable.isSome_put key value (some flags))
  | .service (.register service), _ =>
    refine f.isSome_register (fun service => service.toSnapshot.toService) rfl ?_ h
    exact (applyService_eq f.serviceStore now (.register service) ch).1.trans
      (ServiceCommand.applyCommand_after _ (.register service) ch)

theorem advance_cleanupExpired (now : Time) :
    Replica.versions.Advance f.replica
      ({ f with serviceStore := (f.serviceStore.cleanupExpired now).1 } : FSM).replica
      ((f.serviceStore.toServiceTable.expired now).map .service) := by
  refine Registry.advance_erase f.replica _ _ (fun name => ?_) ?_
  · have hlookup := f.serviceStore.lookup_cleanupExpired now name
    simp only [← ServiceTable.mem_expired_iff] at hlookup
    rw [ServiceTable.lookup_registry, hlookup]
    split_ifs with h
    · rfl
    · exact (ServiceTable.lookup_registry _ name).symm
  · have htable := f.serviceStore.cleanupExpired_toServiceTable now
    exact (congrArg ServiceTable.globalIndex htable).trans
      (ServiceTable.removeAll_globalIndex _ _)

end FSM

end Konsul
