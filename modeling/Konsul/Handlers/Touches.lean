import Konsul.Acl.Types
import Konsul.Handlers.OwnIndex
import Konsul.Handlers.Reads

/-!
# The entries a call touches

A call `Touches` an entry it can change, or show to the handler for its reply.
A command of the log touches the entries it names once it has been decoded.
What a call does not touch it leaves as it was (`untouched_kept`).
-/

namespace Konsul

open GoLib

/-- The resource that stands for an entry. -/
def Slot.resource : Slot → Resource
  | .key k => newKVResource k
  | .service name => newServiceResource name

def KVCommand.Names (key : GoString) : KVCommand → Prop
  | .set k _ => key = k
  | .setWithFlags k _ _ => key = k
  | .delete k => key = k
  | .batchSet items => key ∈ items
  | .batchDelete keys => key ∈ keys
  | .setCAS k _ _ => key = k
  | .deleteCAS k _ => key = k
  | .batchSetCAS items _ => key ∈ items
  | .batchDeleteCAS keys _ => key ∈ keys

def ServiceCommand.Names (name : GoString) : ServiceCommand → Prop
  | .register service => name = service.name
  | .deregister n => name = n
  | .heartbeat n => name = n
  | .ttlUpdate _ => False
  | .registerCAS service _ => name = service.name
  | .deregisterCAS n _ => name = n

def Command.Touches : Command → Slot → Prop
  | .kv c, .key key => c.Names key
  | .service c, .service name => c.Names name
  | _, _ => False

def Op.Touches : Op → Slot → Prop
  | .applyEntry c, slot => c.json.Touches slot
  | .kvStore c, slot => (Command.kv c).Touches slot
  | .serviceStore c, slot => (Command.service c).Touches slot
  | .getKVEntry key, slot => slot = .key key
  | .getServiceEntry name, slot => slot = .service name
  | .view _, _ => True
  | .isLeader, _ => False
  | .leaderAddr, _ => False

/-- The member of an object decoded into a map: the last one of its name. -/
def member (members : List (Bytes × Json)) (name : Bytes) : Option Json :=
  members.reverse.lookup name

/-- What `ImportData` writes: the keys with a text for a value, and all services. -/
def Imports (data : List (Bytes × Json)) : Slot → Prop
  | .key key => ∃ kv value, member data (str "kv") = some (.obj kv) ∧
      member kv key = some (.str value)
  | .service name => ∃ services info, member data (str "services") = some (.obj services) ∧
      member services name = some info

/-- A restored backup may change any entry; a failed one changes none. -/
def StoreCall.Touches : (c : StoreCall) → c.Answer → Slot → Prop
  | .op o, _, slot => o.Touches slot
  | .kvGet key, _, slot => slot = .key key
  | .kvGetEntry key, _, slot => slot = .key key
  | .kvList, keys, slot => ∃ key ∈ keys, slot = .key key
  | .kvBatchGet keys, _, slot => ∃ key ∈ keys, slot = .key key
  | .serviceGet name, _, slot => slot = .service name
  | .serviceGetEntry name, _, slot => slot = .service name
  | .serviceList, services, slot => ∃ s ∈ services, slot = .service s.name
  | .serviceListAll, entries, slot => ∃ e ∈ entries, slot = .service e.service.name
  | .serviceListNamed names, _, slot => ∃ name ∈ names, slot = .service name
  | .queryByTags _, services, slot => ∃ s ∈ services, slot = .service s.name
  | .queryByMetadata _, services, slot => ∃ s ∈ services, slot = .service s.name
  | .queryByTagsAndMetadata _ _, services, slot => ∃ s ∈ services, slot = .service s.name
  | .getAllHealthChecks, checks, slot => ∃ c ∈ checks, slot = .service c.serviceID
  | .getHealthChecks name, _, slot => slot = .service name
  | .getAllServiceUpdates, entries, slot => ∃ e ∈ entries, slot = .service e.1
  | .getAllKVUpdates _, entries, slot => ∃ e ∈ entries, slot = .key e.1
  | .restore _, err, _ => err = none
  | .exportData, .ok data, .key key => key ∈ data.kv
  | .exportData, .ok data, .service name => ∃ info, (name, info) ∈ data.services
  | .importData data, err, slot => err = none ∧ Imports data slot
  | _, _, _ => False

/-! ### The capability of an access -/

def Command.capability : Command → Capability
  | .kv (.delete _) => .delete
  | .kv (.batchDelete _) => .delete
  | .kv (.deleteCAS _ _) => .delete
  | .kv (.batchDeleteCAS _ _) => .delete
  | .kv _ => .write
  | .service (.register _) => .register
  | .service (.registerCAS _ _) => .register
  | .service (.deregister _) => .deregister
  | .service (.deregisterCAS _ _) => .deregister
  | .service _ => .write
  | .undecodable _ => .write

/-- An entry that a handler reads after its write belongs to the write. -/
def Op.capability : Op → Capability
  | .applyEntry c => c.capability
  | .kvStore c => (Command.kv c).capability
  | .serviceStore c => (Command.service c).capability
  | .getKVEntry _ => .write
  | .getServiceEntry _ => .register
  | _ => .read

def StoreCall.capability : StoreCall → Capability
  | .op o => o.capability
  | .kvGet _ => .read
  | .kvGetEntry _ => .read
  | .kvBatchGet _ => .read
  | .serviceGet _ => .read
  | .serviceGetEntry _ => .read
  | .serviceListNamed _ => .read
  | .getHealthChecks _ => .read
  | .restore _ => .write
  | .importData _ => .write
  | _ => .list

/-! ### What is not touched -/

theorem KVCommand.names_iff (c : KVCommand) (ch : c.Choice) (key : GoString) :
    key ∈ (c.toOp ch).keys ↔ c.Names key := by
  cases c with
  | batchSet items =>
    obtain ⟨range, watch⟩ := ch
    exact range.mem_keys_iff key
  | batchSetCAS items expectedIndices =>
    obtain ⟨check, range, watch⟩ := ch
    exact range.mem_keys_iff key
  | batchDelete keys => exact Iff.rfl
  | batchDeleteCAS keys expectedIndices => exact Iff.rfl
  | _ => exact List.mem_singleton

theorem Command.touches_of_written (c : Command) (r : Replica) (ch : c.Choice) {slot : Slot}
    (h : slot ∈ c.written r ch) : c.Touches slot := by
  cases c with
  | undecodable answer => cases h
  | kv c =>
    obtain ⟨key, hkey, rfl⟩ := List.mem_map.mp h
    refine (c.names_iff ch key).mp ?_
    unfold KVOp.written at hkey
    split at hkey
    · cases hkey
    · exact hkey
  | service c =>
    obtain ⟨name, hname, rfl⟩ := List.mem_map.mp h
    cases c with
    | register service =>
      simp only [ServiceCommand.written] at hname
      split_ifs at hname
      · exact List.mem_singleton.mp hname
      · cases hname
    | registerCAS service expectedIndex =>
      simp only [ServiceCommand.written] at hname
      split_ifs at hname
      · exact List.mem_singleton.mp hname
      · cases hname
    | deregister n => exact List.mem_singleton.mp hname
    | deregisterCAS n expectedIndex =>
      simp only [ServiceCommand.written] at hname
      split_ifs at hname
      · exact List.mem_singleton.mp hname
      · cases hname
    | heartbeat n => cases hname
    | ttlUpdate checkID => cases hname

/-- A call of the node or its stores leaves the entries it does not touch alone. -/
theorem Op.untouched_kept (m : Moment) (f : FSM) (o : Op) (hroom : m.Room f o) {slot : Slot}
    (h : ¬ o.Touches slot) : (m.perform f o).1.replica.stored slot = f.replica.stored slot := by
  refine (m.advance_perform f o hroom).frame slot fun hwritten => h ?_
  cases o with
  | applyEntry c =>
    simp only [Moment.written] at hwritten
    split at hwritten
    · cases hwritten
    · exact c.json.touches_of_written _ _ hwritten
  | kvStore c => exact (Command.kv c).touches_of_written _ _ hwritten
  | serviceStore c => exact (Command.service c).touches_of_written _ (m.choice (.service c)) hwritten
  | _ => cases hwritten

end Konsul
