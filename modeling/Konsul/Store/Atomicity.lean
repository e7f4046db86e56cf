import Konsul.Store.KVSpec
import Konsul.Store.Service

/-!
# What a failed operation leaves behind

An operation that fails in its checks changes nothing. One that fails in the
engine has changed the table already: the update is not taken back.
-/

namespace Konsul

open GoLib

/-! ### The key-value store -/

namespace KVOp

/-- A failed operation leaves the table as it was. -/
def Atomic (kv : KVStore) (op : KVOp) : Prop :=
  (op.apply kv).2.err ≠ none → (op.apply kv).1.toKVTable = kv.toKVTable

/-- The update has an effect: something to write, or a listed key to delete. -/
def Effective (t : KVTable) : KVOp → Prop
  | delete key => key ∈ t.data
  | deleteCAS key _ => key ∈ t.data
  | batchDelete keys _ => ∃ key ∈ keys, key ∈ t.data
  | batchDeleteCAS keys _ _ => ∃ key ∈ keys, key ∈ t.data
  | op => op.items ≠ []

/-- The checks pass, the update has an effect, and the engine then refuses it. -/
def RefusedLate (kv : KVStore) (op : KVOp) : Prop :=
  op.check kv.toKVTable = none ∧ op.Effective kv.toKVTable ∧ op.logsErrors = false ∧
    kv.fault ≠ none

theorem update_of_not_effective {t : KVTable} {op : KVOp} (h : ¬ op.Effective t) :
    op.update t = t := by
  have herase (keys : List GoString) (h : ∀ key ∈ keys, key ∉ t.data) : t.eraseAll keys = t := by
    have hdata : GoMap.eraseAll t.data keys = t.data := by
      refine Finmap.ext_lookup fun k => ?_
      rw [GoMap.lookup_eraseAll]
      split_ifs with hk
      · exact (Finmap.lookup_eq_none.mpr (h k hk)).symm
      · rfl
    rw [KVTable.eraseAll, hdata]
  have hremove (key : GoString) (h : key ∉ t.data) : t.remove key = t :=
    herase [key] fun k hk => List.mem_singleton.mp hk ▸ h
  cases op with
  | set key value => exact absurd (List.cons_ne_nil _ _) h
  | setWithFlags key value flags => exact absurd (List.cons_ne_nil _ _) h
  | setCAS key value expectedIndex => exact absurd (List.cons_ne_nil _ _) h
  | delete key => exact hremove key h
  | deleteCAS key expectedIndex => exact hremove key h
  | batchSet items range watch =>
    have hnil : range.list = [] := not_not.mp h
    rw [update, hnil, KVTable.putList_nil]
  | batchSetCAS items expectedIndices check range watch =>
    have hnil : range.list = [] := not_not.mp h
    rw [update, hnil, KVTable.putList_nil]
  | batchDelete keys watch => exact herase keys fun key hk hd => h ⟨key, hk, hd⟩
  | batchDeleteCAS keys expectedIndices watch => exact herase keys fun key hk hd => h ⟨key, hk, hd⟩

/-- The counter moves with the number of items written, as long as that is a
length a Go map can have. -/
theorem update_ne_of_items {t : KVTable} {op : KVOp} (hitems : op.items ≠ [])
    (hlen : op.items.length < 2 ^ 64)
    (hindex : (op.update t).globalIndex = t.globalIndex + UInt64.ofNat op.items.length) :
    op.update t ≠ t := by
  intro h
  rw [h] at hindex
  have hmod := congrArg UInt64.toNat hindex
  rw [UInt64.toNat_add, UInt64.toNat_ofNat_of_lt' hlen] at hmod
  have hpos := List.length_pos_of_ne_nil hitems
  have hlt := t.globalIndex.toNat_lt
  omega

theorem update_ne_of_effective {t : KVTable} {op : KVOp} (h : op.Effective t)
    (hlen : op.items.length < 2 ^ 64) : op.update t ≠ t := by
  have herase (keys : List GoString) (h : ∃ key ∈ keys, key ∈ t.data) : t.eraseAll keys ≠ t := by
    obtain ⟨key, hk, hd⟩ := h
    intro heq
    have hl := congrArg (fun t : KVTable => t.data.lookup key) heq
    simp only [KVTable.lookup_eraseAll, hk, ite_true] at hl
    exact Finmap.lookup_eq_none.mp hl.symm hd
  have hremove (key : GoString) (h : key ∈ t.data) : t.remove key ≠ t :=
    herase [key] ⟨key, List.mem_singleton_self _, h⟩
  cases op with
  | set key value => exact update_ne_of_items h hlen rfl
  | setWithFlags key value flags => exact update_ne_of_items h hlen rfl
  | setCAS key value expectedIndex => exact update_ne_of_items h hlen rfl
  | delete key => exact hremove key h
  | deleteCAS key expectedIndex => exact hremove key h
  | batchSet items range watch => exact update_ne_of_items h hlen (t.putList_globalIndex _)
  | batchSetCAS items expectedIndices check range watch =>
    exact update_ne_of_items h hlen (t.putList_globalIndex _)
  | batchDelete keys watch => exact herase keys h
  | batchDeleteCAS keys expectedIndices watch => exact herase keys h

theorem atomic_of_not_refusedLate {kv : KVStore} {op : KVOp} (h : ¬ op.RefusedLate kv) :
    op.Atomic kv := by
  intro herr
  cases hc : op.check kv.toKVTable with
  | some err => rw [apply_of_check_some hc]
  | none =>
    rw [apply_err hc] at herr
    have hlogs : op.logsErrors = false := by
      by_contra hne
      rw [Bool.not_eq_false] at hne
      rw [hne] at herr
      exact herr rfl
    rw [hlogs] at herr
    rw [apply_toKVTable hc]
    exact update_of_not_effective fun heff => h ⟨hc, heff, hlogs, herr⟩

theorem not_atomic_of_refusedLate {kv : KVStore} {op : KVOp} (h : op.RefusedLate kv)
    (hlen : op.items.length < 2 ^ 64) : ¬ op.Atomic kv := by
  obtain ⟨hc, heff, hlogs, hfault⟩ := h
  intro hatomic
  refine update_ne_of_effective heff hlen ?_
  rw [← apply_toKVTable hc]
  refine hatomic ?_
  rw [apply_err hc, hlogs]
  exact hfault

end KVOp

/-! ### The service store -/

/-- The operations of the service store that return errors. -/
inductive ServiceOp where
  | register (service : Service) (range : service.metadata.Order)
  | registerCAS (service : Service) (range : service.metadata.Order) (expectedIndex : UInt64)
  | deregisterCAS (name : GoString) (expectedIndex : UInt64)

namespace ServiceOp

def apply (s : ServiceStore) (env : StoreEnv) : ServiceOp → ServiceStore × Option GoError
  | register service range => s.register env service range
  | registerCAS service range expectedIndex =>
    let r := s.registerCAS env service range expectedIndex
    (r.1, r.2.2)
  | deregisterCAS name expectedIndex => s.deregisterCAS name expectedIndex

/-- The error of validation, or of the compare-and-swap condition. -/
def check (t : ServiceTable) : ServiceOp → Option GoError
  | register service range => validateService service range
  | registerCAS service range expectedIndex =>
    (validateService service range).or (t.checkRegisterCAS service.name expectedIndex)
  | deregisterCAS name expectedIndex => t.checkDeregisterCAS name expectedIndex

/-- The entry a registration marshals for the engine. -/
def entry (s : ServiceStore) (env : StoreEnv) (service : Service) : ServiceEntry :=
  s.toServiceTable.newEntry (ServiceStore.completeChecks env.toEnv service) (env.now + s.ttl)

/-- There is an engine, and it fails or its record cannot be written. -/
def PersistFails (s : ServiceStore) (env : StoreEnv) : ServiceOp → Prop
  | register service _ => ∃ m, s.engine = some m ∧
      ((∃ err, env.marshalEntry (entry s env service) = .error err) ∨ m.fault ≠ none)
  | registerCAS service _ _ => ∃ m, s.engine = some m ∧
      ((∃ err, env.marshalEntry (entry s env service) = .error err) ∨ m.fault ≠ none)
  | deregisterCAS _ _ => ∃ m, s.engine = some m ∧ m.fault ≠ none

def Atomic (s : ServiceStore) (env : StoreEnv) (op : ServiceOp) : Prop :=
  (op.apply s env).2 ≠ none → (op.apply s env).1.toServiceTable = s.toServiceTable

/-- The checks pass, and persisting then fails. -/
def RefusedLate (s : ServiceStore) (env : StoreEnv) (op : ServiceOp) : Prop :=
  op.check s.toServiceTable = none ∧ op.PersistFails s env

end ServiceOp

namespace ServiceStore

theorem persist_attempt_err (s : ServiceStore) {call : Engine → Engine × Option GoError}
    (hcall : ∀ m, (call m).2 = m.fault) :
    (s.persist call).2 ≠ none ↔ ∃ m, s.engine = some m ∧ m.fault ≠ none := by
  unfold persist
  split
  · rename_i h
    exact ⟨fun hne => absurd rfl hne, fun ⟨m, hm, _⟩ => by rw [h] at hm; cases hm⟩
  · rename_i m h
    rw [hcall]
    exact ⟨fun hne => ⟨m, h, hne⟩, fun ⟨m', hm', hne⟩ => by rw [h] at hm'; cases hm'; exact hne⟩

theorem persistEntry_toServiceTable (s : ServiceStore) (env : StoreEnv) (name : GoString)
    (entry : ServiceEntry) : (s.persistEntry env name entry).1.toServiceTable = s.toServiceTable := by
  unfold persistEntry
  split
  · rfl
  · split
    · rfl
    · exact s.persist_toServiceTable _

theorem persistEntry_err (s : ServiceStore) (env : StoreEnv) (name : GoString)
    (entry : ServiceEntry) :
    (s.persistEntry env name entry).2 ≠ none ↔ ∃ m, s.engine = some m ∧
      ((∃ err, env.marshalEntry entry = .error err) ∨ m.fault ≠ none) := by
  unfold persistEntry
  split
  · rename_i h
    exact ⟨fun hne => absurd rfl hne, fun ⟨m, hm, _⟩ => by rw [h] at hm; cases hm⟩
  · rename_i m h
    split
    · rename_i err herr
      exact ⟨fun _ => ⟨m, h, Or.inl ⟨err, herr⟩⟩, fun _ => Option.some_ne_none err⟩
    · rename_i data hdata
      have hcall (m : Engine) : (m.setService env.now name data s.ttl).2 = m.fault :=
        m.attempt_err _
      rw [persist_attempt_err s hcall]
      refine exists_congr fun m' => and_congr_right fun _ => ⟨Or.inr, ?_⟩
      rintro (⟨err, herr⟩ | hfault)
      · rw [hdata] at herr
        cases herr
      · exact hfault

/-- The table after the critical section of a registration, persisted or not. -/
theorem registered_toServiceTable (s : ServiceStore) (env : StoreEnv) (service : Service) :
    (s.registered env service).1.toServiceTable =
      s.toServiceTable.put (completeChecks env.toEnv service) (env.now + s.ttl) :=
  persistEntry_toServiceTable ..

theorem registered_err (s : ServiceStore) (env : StoreEnv) (service : Service) :
    (s.registered env service).2 ≠ none ↔ ∃ m, s.engine = some m ∧
      ((∃ err, env.marshalEntry (ServiceOp.entry s env service) = .error err) ∨ m.fault ≠ none) :=
  persistEntry_err ..

end ServiceStore

theorem ServiceTable.put_ne (t : ServiceTable) (service : Service) (expiresAt : Time) :
    t.put service expiresAt ≠ t := by
  intro h
  have := congrArg ServiceTable.globalIndex h
  rw [put_globalIndex] at this
  exact add_one_ne_self _ this

theorem ServiceTable.remove_ne {t : ServiceTable} {name : GoString} (h : name ∈ t.data) :
    t.remove name ≠ t := by
  intro heq
  have hl := congrArg (fun t : ServiceTable => t.data.lookup name) heq
  simp only [remove_data, Finmap.lookup_erase] at hl
  exact Finmap.lookup_eq_none.mp hl.symm h

namespace ServiceOp

variable {s : ServiceStore} {env : StoreEnv}

theorem apply_of_check_some {op : ServiceOp} {err : GoError}
    (h : op.check s.toServiceTable = some err) : op.apply s env = (s, some err) := by
  cases op with
  | register service range =>
    simp only [check] at h
    simp only [apply, ServiceStore.register, h]
  | registerCAS service range expectedIndex =>
    simp only [check] at h
    cases hv : validateService service range with
    | some err' =>
      rw [hv, Option.some_or] at h
      cases h
      simp only [apply, ServiceStore.registerCAS, hv]
    | none =>
      rw [hv, Option.none_or] at h
      simp only [apply, ServiceStore.registerCAS, hv, h]
  | deregisterCAS name expectedIndex =>
    simp only [check] at h
    simp only [apply, ServiceStore.deregisterCAS, h]

/-- Once the checks pass the table changes, and the only error is that of persisting. -/
theorem apply_of_check_none {op : ServiceOp} (h : op.check s.toServiceTable = none) :
    (op.apply s env).1.toServiceTable ≠ s.toServiceTable ∧
      ((op.apply s env).2 ≠ none ↔ op.PersistFails s env) := by
  cases op with
  | register service range =>
    simp only [check] at h
    simp only [apply, ServiceStore.register, h, ServiceStore.registered_toServiceTable]
    exact ⟨s.toServiceTable.put_ne _ _, s.registered_err env service⟩
  | registerCAS service range expectedIndex =>
    simp only [check, Option.or_eq_none_iff] at h
    simp only [apply, ServiceStore.registerCAS, h.1, h.2, ServiceStore.registered_toServiceTable]
    exact ⟨s.toServiceTable.put_ne _ _, s.registered_err env service⟩
  | deregisterCAS name expectedIndex =>
    simp only [check] at h
    simp only [apply, ServiceStore.deregisterCAS, h, ServiceStore.persist_toServiceTable]
    refine ⟨ServiceTable.remove_ne ?_, ServiceStore.persist_attempt_err _ fun m => m.attempt_err _⟩
    unfold ServiceTable.checkDeregisterCAS at h
    split at h
    · cases h
    · rename_i entry he
      exact Finmap.mem_of_lookup_eq_some he

theorem atomic_iff (op : ServiceOp) : op.Atomic s env ↔ ¬ op.RefusedLate s env := by
  cases hc : op.check s.toServiceTable with
  | some err =>
    refine ⟨fun _ h => ?_, fun _ _ => ?_⟩
    · rw [RefusedLate, hc] at h
      cases h.1
    · rw [apply_of_check_some hc]
  | none =>
    have happly : (op.apply s env).1.toServiceTable ≠ s.toServiceTable ∧
        ((op.apply s env).2 ≠ none ↔ op.PersistFails s env) := apply_of_check_none hc
    obtain ⟨hne, herr⟩ := happly
    exact ⟨fun hatomic h => hne (hatomic (herr.mpr h.2)),
      fun h he => absurd ⟨hc, herr.mp he⟩ h⟩

end ServiceOp

/-- A failed operation leaves the table as it was unless its checks pass, it has
something to change and persisting then fails; and then the change stays. -/
theorem failed_operations_change_nothing (kv : KVStore) (op : KVOp) (s : ServiceStore)
    (env : StoreEnv) (serviceOp : ServiceOp) :
    ((¬ op.RefusedLate kv → op.Atomic kv) ∧
      (op.items.length < 2 ^ 64 → op.RefusedLate kv → ¬ op.Atomic kv)) ∧
    (serviceOp.Atomic s env ↔ ¬ serviceOp.RefusedLate s env) :=
  ⟨⟨KVOp.atomic_of_not_refusedLate, fun hlen h => KVOp.not_atomic_of_refusedLate h hlen⟩,
    serviceOp.atomic_iff⟩

/-- A store with one key over an engine that fails every call. -/
def failingStore : KVStore :=
  { data := (∅ : GoMap GoString KVEntry).insert (str "k") ⟨str "a", 1, 1, 0⟩
    globalIndex := 1
    engine := some ⟨∅, ∅, some (.text (str "disk full"))⟩
    watchManager := none }

/-- A `SetCAS` that meets another index fails before the engine is called. -/
theorem failed_operations_change_nothing_conflict :
    (KVOp.setCAS (str "k") (str "b") 7).Atomic failingStore ∧
      ((KVOp.setCAS (str "k") (str "b") 7).apply failingStore).2.err =
        some (.casConflict (str "k") 7 1 (str "key")) := by
  refine ⟨(failed_operations_change_nothing failingStore _ (.newWithTTL 10)
    ⟨⟨0, fun _ => [], fun _ => none⟩, fun _ => .ok []⟩ (.deregisterCAS (str "web") 1)).1.1 fun h => ?_,
    by decide⟩
  have hcheck : KVOp.check failingStore.toKVTable (.setCAS (str "k") (str "b") 7) ≠ none := by
    decide
  exact hcheck h.1

/-- `SetCAS` and `DeleteCAS` return the engine's error with the table changed. -/
theorem failed_operations_change_table :
    ((KVOp.setCAS (str "k") (str "b") 1).apply failingStore).2.err =
        some (.text (str "disk full")) ∧
      ((KVOp.setCAS (str "k") (str "b") 1).apply failingStore).1.data.lookup (str "k") =
        some ⟨str "b", 2, 1, 0⟩ ∧
      ((KVOp.setCAS (str "k") (str "b") 1).apply failingStore).1.globalIndex = 2 ∧
      ((KVOp.deleteCAS (str "k") 1).apply failingStore).2.err = some (.text (str "disk full")) ∧
      ((KVOp.deleteCAS (str "k") 1).apply failingStore).1.data.lookup (str "k") = none := by
  refine ⟨?_, ?_, ?_, ?_, ?_⟩ <;> decide

end Konsul
