import Konsul.Lib.Machine
import Konsul.Persistence.Opened

/-!
# One engine for another

The calls of the `Engine` interface on a `BadgerEngine` and on a `MemoryEngine`. As long
as nothing has reached its expiry, the database under its two prefixes holds the two maps
of the memory engine, whatever bytes keys and names are made of, and the answers are the
same up to the order of a listing.
-/

namespace Konsul

open GoLib

inductive EngineCall where
  | get (key : GoString)
  | set (key : GoString) (value : Bytes)
  | delete (key : GoString)
  | list (pfx : GoString)
  | batchSet (items : GoMap GoString Bytes)
  | batchDelete (keys : List GoString)
  | getService (name : GoString)
  | setService (name : GoString) (data : Bytes) (ttl : Duration)
  | deleteService (name : GoString)
  | listServices

namespace EngineCall

def OnKV : EngineCall → Prop
  | get _ | set _ _ | delete _ | list _ | batchSet _ | batchDelete _ => True
  | _ => False

def OnServices : EngineCall → Prop
  | getService _ | setService _ _ _ | deleteService _ | listServices => True
  | _ => False

end EngineCall

/-- A call, the clock when it is made, and the orders in which its loops visit a map. -/
structure EngineEvent where
  call : EngineCall
  now : Time
  values : (m : GoMap GoString Bytes) → m.Order
  records : (m : GoMap GoString ServiceRecord) → m.Order

inductive EngineAnswer where
  | value (r : Except GoError Bytes)
  | names (r : Except GoError (List GoString))
  | done (err : Option GoError)

/-- The same result; the order of a listing is aside. -/
def EngineAnswer.Same : EngineAnswer → EngineAnswer → Prop
  | names (.ok l), names (.ok l') => l.Perm l'
  | r, r' => r = r'

namespace Engine

def step (m : Engine) (e : EngineEvent) : Engine × EngineAnswer :=
  match e.call with
  | .get key => (m, .value (m.get key))
  | .set key value => ((m.set key value).1, .done (m.set key value).2)
  | .delete key => ((m.delete key).1, .done (m.delete key).2)
  | .list pfx => (m, .names (m.list pfx (e.values m.kvData)))
  | .batchSet items => ((m.batchSet items).1, .done (m.batchSet items).2)
  | .batchDelete keys => ((m.batchDelete keys).1, .done (m.batchDelete keys).2)
  | .getService name => (m, .value (m.getService e.now name))
  | .setService name data ttl =>
    ((m.setService e.now name data ttl).1, .done (m.setService e.now name data ttl).2)
  | .deleteService name => ((m.deleteService name).1, .done (m.deleteService name).2)
  | .listServices => (m, .names (m.listServices e.now (e.records m.svcData)))

def machine : Machine Engine EngineEvent EngineAnswer := ⟨step⟩

end Engine

namespace BadgerEngine

/-- `BatchSet`, in the order of its loop. -/
def batchSetIn {items : GoMap GoString Bytes} (range : items.Order) : List TxnWrite :=
  range.list.flatMap fun e => set e.1 e.2

def step (b : BadgerEngine) (e : EngineEvent) : BadgerEngine × EngineAnswer :=
  match e.call with
  | .get key => (b, .value (b.get e.now key))
  | .set key value => (b.update (set key value), .done none)
  | .delete key => (b.update (delete key), .done none)
  | .list pfx => (b, .names (.ok (b.list e.now pfx)))
  | .batchSet items => (b.update (batchSetIn (e.values items)), .done none)
  | .batchDelete keys => (b.update (batchDelete keys), .done none)
  | .getService name => (b, .value (b.getService e.now name))
  | .setService name data ttl => (b.update (setService e.now name data ttl), .done none)
  | .deleteService name => (b.update (deleteService name), .done none)
  | .listServices => (b, .names (.ok (b.listServices e.now)))

def machine : Machine BadgerEngine EngineEvent EngineAnswer := ⟨step⟩

/-- Nothing that either engine keeps has reached its expiry. -/
def NoneExpired (s : BadgerEngine × Engine) (e : EngineEvent) : Prop :=
  (∀ key item, s.1.db.lookup key = some item → item.expired e.now = false) ∧
  ∀ name r, s.2.svcData.lookup name = some r → e.now < r.expiresAt

/-! ### What the writes change -/

variable {b : BadgerEngine}

theorem lookup_set (key value : Bytes) (k : Bytes) : (b.update (set key value)).db.lookup k =
    if k = kvPrefix ++ key then some ⟨value, 0⟩ else b.db.lookup k :=
  GoMap.lookup_insert_ite ..

theorem lookup_delete (key k : Bytes) : (b.update (delete key)).db.lookup k =
    if k = kvPrefix ++ key then none else b.db.lookup k :=
  GoMap.lookup_erase_ite ..

theorem lookup_setService (now : Time) (name data : Bytes) (ttl : Duration) (k : Bytes) :
    (b.update (setService now name data ttl)).db.lookup k =
      if k = servicePrefix ++ name then some (.withTTL data now ttl) else b.db.lookup k :=
  GoMap.lookup_insert_ite ..

theorem lookup_deleteService (name k : Bytes) : (b.update (deleteService name)).db.lookup k =
    if k = servicePrefix ++ name then none else b.db.lookup k :=
  GoMap.lookup_erase_ite ..

theorem lookup_batchSetIn {items : GoMap GoString Bytes} (range : items.Order) :
    (∀ key, (b.update (batchSetIn range)).db.lookup (kvPrefix ++ key) =
      ((items.lookup key).map (⟨·, 0⟩)).or (b.db.lookup (kvPrefix ++ key))) ∧
    ∀ k, (∀ key, k ≠ kvPrefix ++ key) →
      (b.update (batchSetIn range)).db.lookup k = b.db.lookup k := by
  have hbatch : batchSetIn range =
      range.list.map fun e => .set (kvPrefix ++ e.1) ⟨e.2, 0⟩ := List.flatMap_pure_eq_map _ _
  have hlookup := lookup_update_sets kvPrefix range.list b
  rw [GoMap.ofEntries_list] at hlookup
  rw [hbatch]
  exact hlookup

theorem update_batchDelete (keys : List GoString) :
    b.update (batchDelete keys) = ⟨b.db.eraseAll (keys.map (kvPrefix ++ ·))⟩ := by
  induction keys generalizing b with
  | nil => rfl
  | cons key keys ih =>
    have hsplit : batchDelete (key :: keys) = delete key ++ batchDelete keys := List.flatMap_cons ..
    rw [hsplit, update, List.foldl_append]
    exact ih

theorem lookup_batchDelete (keys : List GoString) (k : Bytes) :
    (b.update (batchDelete keys)).db.lookup k =
      if k ∈ keys.map (kvPrefix ++ ·) then none else b.db.lookup k := by
  rw [update_batchDelete, GoMap.lookup_eraseAll]
  split_ifs <;> rfl

/-- Calls on keys leave the records of services as they are. -/
theorem lookup_service_of_onKV {e : EngineEvent} (h : e.call.OnKV) (name : GoString) :
    (b.step e).1.db.lookup (servicePrefix ++ name) = b.db.lookup (servicePrefix ++ name) := by
  have hne (key : GoString) : servicePrefix ++ name ≠ kvPrefix ++ key := (prefix_ne key name).symm
  unfold step
  cases hcall : e.call with
  | get key => rfl
  | set key value => exact (lookup_set ..).trans (if_neg (hne key))
  | delete key => exact (lookup_delete ..).trans (if_neg (hne key))
  | list pfx => rfl
  | batchSet items => exact (lookup_batchSetIn _).2 _ hne
  | batchDelete keys =>
    refine (lookup_batchDelete ..).trans (if_neg fun hmem => ?_)
    obtain ⟨key, -, heq⟩ := List.mem_map.mp hmem
    exact hne key heq.symm
  | _ => simp only [hcall, EngineCall.OnKV] at h

/-- Calls on services leave the keys as they are. -/
theorem lookup_key_of_onServices {e : EngineEvent} (h : e.call.OnServices) (key : GoString) :
    (b.step e).1.db.lookup (kvPrefix ++ key) = b.db.lookup (kvPrefix ++ key) := by
  unfold step
  cases hcall : e.call with
  | getService name => rfl
  | setService name data ttl => exact (lookup_setService ..).trans (if_neg (prefix_ne key name))
  | deleteService name => exact (lookup_deleteService ..).trans (if_neg (prefix_ne key name))
  | listServices => rfl
  | _ => simp only [hcall, EngineCall.OnServices] at h

/-! ### The two maps in the database -/

/-- The database under its prefixes holds what the memory engine holds. -/
structure Holds (b : BadgerEngine) (m : Engine) : Prop where
  sound : m.fault = none
  keys : ∀ key, b.db.lookup (kvPrefix ++ key) = (m.kvData.lookup key).map (⟨·, 0⟩)
  services : ∀ name, b.db.lookup (servicePrefix ++ name) =
    (m.svcData.lookup name).map fun r => ⟨r.data, (Time.unix r.expiresAt).toNat⟩

theorem holds_new : Holds new Engine.new where
  sound := rfl
  keys _ := rfl
  services _ := rfl

variable {m : Engine}

theorem Holds.get_eq (h : Holds b m) (now : Time) (key : GoString) : b.get now key = m.get key := by
  rw [get, find, h.keys, Engine.get, h.sound]
  cases m.kvData.lookup key with
  | none => rfl
  | some value => simp [Option.filter, not_expired_of_stays]

theorem Holds.find_service {e : EngineEvent} (h : Holds b m) (hquiet : NoneExpired (b, m) e)
    (name : GoString) : b.find e.now (servicePrefix ++ name) =
      (m.svcData.lookup name).map fun r => ⟨r.data, (Time.unix r.expiresAt).toNat⟩ := by
  rw [find, ← h.services name]
  cases hitem : b.db.lookup (servicePrefix ++ name) with
  | none => rfl
  | some item => simp [Option.filter, hquiet.1 _ item hitem]

theorem Holds.getService_eq {e : EngineEvent} (h : Holds b m) (hquiet : NoneExpired (b, m) e)
    (name : GoString) : b.getService e.now name = m.getService e.now name := by
  rw [Engine.getService, h.sound]
  have hfind := h.find_service hquiet name
  cases hr : m.svcData.lookup name with
  | none =>
    rw [hr, Option.map_none] at hfind
    rw [getService, hfind]
  | some r =>
    rw [hr, Option.map_some] at hfind
    rw [getService, hfind]
    simp only [if_neg (live_of_find hfind), if_pos (hquiet.2 name r hr)]

theorem Holds.list_perm (h : Holds b m) (now : Time) (pfx : GoString) (range : m.kvData.Order) :
    (b.list now pfx).Perm ((range.list.map Sigma.fst).filter fun key => hasPrefix key pfx) := by
  refine (List.perm_ext_iff_of_nodup (nodup_list now pfx) (range.nodup_keys.filter _)).mpr ?_
  intro key
  rw [mem_list_iff, List.mem_filter, range.mem_keys_iff, hasPrefix, List.isPrefixOf_iff_prefix,
    and_comm, Finmap.mem_iff]
  refine and_congr_left fun _ => ?_
  rw [find, h.keys]
  cases m.kvData.lookup key with
  | none => simp
  | some value => simp [Option.filter, not_expired_of_stays]

theorem Holds.listServices_perm {e : EngineEvent} (h : Holds b m)
    (hquiet : NoneExpired (b, m) e) (range : m.svcData.Order) : (b.listServices e.now).Perm
      ((range.list.filter fun r => e.now < r.2.expiresAt).map Sigma.fst) := by
  have hall : range.list.filter (fun r => e.now < r.2.expiresAt) = range.list := by
    refine List.filter_eq_self.mpr ?_
    rintro ⟨name, r⟩ hmem
    exact decide_eq_true (hquiet.2 name r ((range.mem_list_iff name r).mp hmem))
  rw [hall]
  refine (List.perm_ext_iff_of_nodup (nodup_listServices e.now) range.nodup_keys).mpr ?_
  intro name
  rw [mem_listServices_iff, h.find_service hquiet, range.mem_keys_iff, Finmap.mem_iff]
  cases m.svcData.lookup name with
  | none => simp
  | some r => simp

theorem Holds.step_state {e : EngineEvent} (h : Holds b m) :
    Holds (b.step e).1 (m.step e).1 := by
  have hsound := h.sound
  refine ⟨?_, fun key => ?_, fun name => ?_⟩
  · unfold Engine.step
    cases e.call <;> simp only [Engine.set, Engine.delete, Engine.batchSet, Engine.batchDelete,
      Engine.setService, Engine.deleteService, Engine.attempt, hsound]
  · by_cases hon : e.call.OnServices
    · rw [lookup_key_of_onServices hon, h.keys]
      unfold Engine.step
      cases hcall : e.call <;> simp only [hcall, EngineCall.OnServices] at hon
      all_goals simp only [Engine.setService, Engine.deleteService, Engine.attempt, hsound]
    · unfold step Engine.step
      cases hcall : e.call with
      | set k value =>
        simp only [Engine.set, Engine.attempt, hsound, lookup_set, GoMap.lookup_insert_ite,
          List.append_cancel_left_eq, h.keys]
        split_ifs <;> rfl
      | delete k =>
        simp only [Engine.delete, Engine.attempt, hsound, lookup_delete, GoMap.lookup_erase_ite,
          List.append_cancel_left_eq, h.keys]
        split_ifs <;> rfl
      | batchSet items =>
        simp only [Engine.batchSet, Engine.attempt, hsound, (lookup_batchSetIn _).1,
          GoMap.lookup_union, h.keys]
        cases items.lookup key <;> rfl
      | batchDelete keys =>
        simp only [Engine.batchDelete, Engine.attempt, hsound, lookup_batchDelete,
          GoMap.lookup_eraseAll, h.keys, List.mem_map, List.append_cancel_left_eq,
          exists_eq_right]
        split_ifs <;> rfl
      | get k => exact h.keys key
      | list pfx => exact h.keys key
      | _ => simp only [hcall, EngineCall.OnServices, not_true] at hon
  · by_cases hon : e.call.OnKV
    · rw [lookup_service_of_onKV hon, h.services]
      unfold Engine.step
      cases hcall : e.call <;> simp only [hcall, EngineCall.OnKV] at hon
      all_goals simp only [Engine.set, Engine.delete, Engine.batchSet, Engine.batchDelete,
        Engine.attempt, hsound]
    · unfold step Engine.step
      cases hcall : e.call with
      | setService k data ttl =>
        simp only [Engine.setService, Engine.attempt, hsound, lookup_setService,
          GoMap.lookup_insert_ite, List.append_cancel_left_eq, h.services]
        split_ifs <;> rfl
      | deleteService k =>
        simp only [Engine.deleteService, Engine.attempt, hsound, lookup_deleteService,
          GoMap.lookup_erase_ite, List.append_cancel_left_eq, h.services]
        split_ifs <;> rfl
      | getService k => exact h.services name
      | listServices => exact h.services name
      | _ => simp only [hcall, EngineCall.OnKV, not_true] at hon

theorem Holds.step_answer {e : EngineEvent} (h : Holds b m) (hquiet : NoneExpired (b, m) e) :
    (b.step e).2.Same (m.step e).2 := by
  have hsound := h.sound
  unfold step Engine.step
  cases e.call with
  | get key => exact congrArg EngineAnswer.value (h.get_eq e.now key)
  | list pfx =>
    simp only [Engine.list, hsound]
    exact h.list_perm e.now pfx _
  | getService name => exact congrArg EngineAnswer.value (h.getService_eq hquiet name)
  | listServices =>
    simp only [Engine.listServices, hsound]
    exact h.listServices_perm hquiet _
  | _ => simp only [Engine.set, Engine.delete, Engine.batchSet, Engine.batchDelete,
      Engine.setService, Engine.deleteService, Engine.attempt, hsound, EngineAnswer.Same]

/-! ### Reads of one kind after a write of the other -/

theorem getService_congr {b' : BadgerEngine}
    (h : ∀ name, b'.db.lookup (servicePrefix ++ name) = b.db.lookup (servicePrefix ++ name))
    (now : Time) : (∀ name, b'.getService now name = b.getService now name) ∧
      (b'.listServices now).Perm (b.listServices now) := by
  have hfind (name : GoString) :
      b'.find now (servicePrefix ++ name) = b.find now (servicePrefix ++ name) := by
    rw [find, h, find]
  constructor
  · intro name
    rw [getService, hfind, getService]
  · refine (List.perm_ext_iff_of_nodup (nodup_listServices now) (nodup_listServices now)).mpr ?_
    intro name
    rw [mem_listServices_iff, hfind, mem_listServices_iff]

theorem get_congr {b' : BadgerEngine}
    (h : ∀ key, b'.db.lookup (kvPrefix ++ key) = b.db.lookup (kvPrefix ++ key)) (now : Time) :
    (∀ key, b'.get now key = b.get now key) ∧
      ∀ pfx, (b'.list now pfx).Perm (b.list now pfx) := by
  have hfind (key : GoString) : b'.find now (kvPrefix ++ key) = b.find now (kvPrefix ++ key) := by
    rw [find, h, find]
  constructor
  · intro key
    rw [get, hfind, get]
  · intro pfx
    refine (List.perm_ext_iff_of_nodup (nodup_list now pfx) (nodup_list now pfx)).mpr ?_
    intro key
    rw [mem_list_iff, hfind, mem_list_iff]

theorem get_ok_iff (now : Time) (key : GoString) : (∃ value, b.get now key = .ok value) ↔
    ∃ item, b.find now (kvPrefix ++ key) = some item := by
  rw [get]
  cases b.find now (kvPrefix ++ key) <;> simp

/-- In every run in which nothing reaches its expiry the two engines answer the same. In the
database that results no call on keys shows in a read of services or the other way round, and
a listing has each live key with its prefix once. -/
theorem refines_memory (events : List EngineEvent)
    (hquiet : (machine.pair Engine.machine).Along NoneExpired (new, Engine.new) events) :
    List.Forall₂ EngineAnswer.Same (machine.run new events).2
      (Engine.machine.run Engine.new events).2 ∧
    (∀ e : EngineEvent, e.call.OnKV → ∀ now,
      (∀ name, ((machine.run new events).1.step e).1.getService now name =
        (machine.run new events).1.getService now name) ∧
      (((machine.run new events).1.step e).1.listServices now).Perm
        ((machine.run new events).1.listServices now)) ∧
    (∀ e : EngineEvent, e.call.OnServices → ∀ now,
      (∀ key, ((machine.run new events).1.step e).1.get now key =
        (machine.run new events).1.get now key) ∧
      ∀ pfx, (((machine.run new events).1.step e).1.list now pfx).Perm
        ((machine.run new events).1.list now pfx)) ∧
    ∀ now pfx, ((machine.run new events).1.list now pfx).Nodup ∧
      ∀ key, key ∈ (machine.run new events).1.list now pfx ↔
        pfx <+: key ∧ ∃ value, (machine.run new events).1.get now key = .ok value := by
  have hsim : ∀ b m e, Holds b m → NoneExpired (b, m) e →
      Holds (machine.step b e).1 (Engine.machine.step m e).1 ∧
        (machine.step b e).2.Same (Engine.machine.step m e).2 :=
    fun b m e h hquiet => ⟨h.step_state, h.step_answer hquiet⟩
  obtain ⟨-, hanswers⟩ := machine.simulation hsim holds_new hquiet
  refine ⟨hanswers, ?_, ?_, ?_⟩
  · intro e hon now
    exact getService_congr (lookup_service_of_onKV hon) now
  · intro e hon now
    exact get_congr (lookup_key_of_onServices hon) now
  · intro now pfx
    refine ⟨nodup_list now pfx, fun key => ?_⟩
    rw [mem_list_iff, get_ok_iff]

/-- A key that imitates the other prefix, and a service of the same text. -/
theorem refines_memory_imitation : ∃ events,
    List.Forall₂ EngineAnswer.Same (machine.run new events).2
      (Engine.machine.run Engine.new events).2 ∧
    (events.map EngineEvent.call) = [.set (str "svc:web") [1],
      .setService (str "svc:web") [2] 5000000000, .list (str "svc:"), .listServices] := by
  let values : (m : GoMap GoString Bytes) → m.Order := fun m => Classical.choice inferInstance
  let records : (m : GoMap GoString ServiceRecord) → m.Order :=
    fun m => Classical.choice inferInstance
  refine ⟨[⟨.set (str "svc:web") [1], 1000000000, values, records⟩,
    ⟨.setService (str "svc:web") [2] 5000000000, 1000000000, values, records⟩,
    ⟨.list (str "svc:"), 2000000000, values, records⟩,
    ⟨.listServices, 2000000000, values, records⟩], (refines_memory _ ?_).1, rfl⟩
  have hdb : ∀ key item, ((new.update (set (str "svc:web") [1])).update
      (setService 1000000000 (str "svc:web") [2] 5000000000)).db.lookup key = some item →
      item.expired 2000000000 = false := by
    intro key item h
    rw [lookup_setService, lookup_set] at h
    split_ifs at h
    · cases h
      decide
    · cases h
      decide
    · exact absurd ((Finmap.lookup_empty key).symm.trans h) nofun
  have hsvc : ∀ name r, ((∅ : GoMap GoString ServiceRecord).insert (str "svc:web")
      ⟨[2], 1000000000 + 5000000000⟩).lookup name = some r → (2000000000 : Time) < r.expiresAt := by
    intro name r h
    rw [GoMap.lookup_insert_ite] at h
    split_ifs at h
    · cases h
      decide
    · exact absurd ((Finmap.lookup_empty name).symm.trans h) nofun
  have hempty : ∀ name r, (∅ : GoMap GoString ServiceRecord).lookup name = some r →
      (1000000000 : Time) < r.expiresAt :=
    fun name r h => absurd ((Finmap.lookup_empty name).symm.trans h) nofun
  refine ⟨⟨fun key item h => ?_, hempty⟩, ⟨fun key item h => ?_, hempty⟩, ⟨hdb, hsvc⟩,
    ⟨hdb, hsvc⟩, trivial⟩
  · exact absurd ((Finmap.lookup_empty key).symm.trans h) nofun
  · have hlookup := (lookup_set (b := new) (str "svc:web") [1] key).symm.trans h
    split_ifs at hlookup
    · cases hlookup
      decide
    · exact absurd ((Finmap.lookup_empty key).symm.trans hlookup) nofun

end BadgerEngine

end Konsul
