import Konsul.Lib.LastWrite
import Konsul.Store.Reload

/-!
# Overlapping calls of one store

`Set`, `SetWithFlags`, `Delete`, `BatchSet` and `BatchDelete` update the table
under the lock and call the engine after releasing it. `Overlap` is a store with
the calls that have left their critical sections, in the order of the sections;
the engine calls land in any order. Table and engine agree in the end if no
engine call is overtaken by a later one on a key they share.
-/

namespace Konsul

open GoLib

/-- The operations that call the engine outside the lock. -/
def KVOp.outsideLock : KVOp → Bool
  | .set .. => true
  | .setWithFlags .. => true
  | .delete .. => true
  | .batchSet .. => true
  | .batchDelete .. => true
  | _ => false

abbrev Call := { op : KVOp // op.outsideLock }

/-- A call past its critical section, which it entered on `table`; `landed` once
its engine call was made. -/
structure InFlight where
  op : Call
  table : KVTable
  landed : Bool

/-- What the engine call of a call writes. -/
def InFlight.write (c : InFlight) : Write GoString (Option Bytes) :=
  ⟨c.op.1.keys, (c.op.1.update c.table).record⟩

structure Overlap where
  store : KVStore
  calls : List InFlight

inductive Overlap.Step where
  /-- A call goes through its critical section. -/
  | enter (c : Call)
  /-- The engine call of the `i`-th call to have left its section. -/
  | land (i : ℕ)

namespace Overlap

def step (s : Overlap) : Step → Overlap × Unit
  | .enter c =>
    ({ store := { s.store with toKVTable := c.1.update s.store.toKVTable }
       calls := s.calls ++ [⟨c, s.store.toKVTable, false⟩] }, ())
  | .land i =>
    match s.calls[i]? with
    | none => (s, ())
    | some c =>
      if c.landed then (s, ())
      else
        ({ store := (s.store.persist (c.op.1.engineCall c.table)).1
           calls := s.calls.set i { c with landed := true } }, ())

def machine : Machine Overlap Step Unit := ⟨step⟩

/-- Every call has returned. -/
def Returned (s : Overlap) : Prop := ∀ c ∈ s.calls, c.landed

/-- Values are valid UTF-8, and an engine call lands before every later one on a
key they share. -/
def InOrder (s : Overlap) : Step → Prop
  | .enter c => ∀ v ∈ c.1.items.map Sigma.snd, Utf8.valid v
  | .land i => ∀ c, s.calls[i]? = some c → ∀ j c', i < j → s.calls[j]? = some c' → c'.landed →
      ∀ k ∈ c.op.1.keys, k ∉ c'.op.1.keys

/-- The writes that have landed, in the order of the critical sections. -/
def landed (calls : List InFlight) : List (Write GoString (Option Bytes)) :=
  (calls.filter InFlight.landed).map InFlight.write

/-- From the records `base`, the landed calls leave the engine's records, and all
calls together would leave the records of the table. -/
structure Inv (base : GoString → Option Bytes) (s : Overlap) : Prop where
  engine : ∃ m, s.store.engine = some m ∧ m.fault = none ∧
    ∀ k, m.kvData.lookup k = Write.settle (base k) k (landed s.calls)
  table : ∀ k, (Write.settle (base k) k (s.calls.map InFlight.write)).map KVStore.loadEntry =
    s.store.data.lookup k

theorem Inv.enter {base : GoString → Option Bytes} {s : Overlap} (h : s.Inv base) {c : Call}
    (hc : InOrder s (.enter c)) : (s.step (.enter c)).1.Inv base := by
  obtain ⟨m, hm, hfault, hrec⟩ := h.engine
  refine ⟨⟨m, hm, hfault, fun k => ?_⟩, fun k => ?_⟩
  · rw [hrec]
    simp only [step, landed, List.filter_append, List.filter_singleton, cond_false,
      List.append_nil]
  · simp only [step, List.map_append, List.map_singleton, Write.settle_snoc, Write.apply,
      InFlight.write]
    split_ifs with hk
    · exact c.1.map_loadEntry_record _ hc hk
    · rw [h.table, c.1.lookup_update_of_notMem _ hk]

theorem landed_set {calls : List InFlight} {i : ℕ} {c : InFlight} (hi : calls[i]? = some c)
    (hc : c.landed = false) :
    landed calls = landed (calls.take i) ++ landed (calls.drop (i + 1)) ∧
      landed (calls.set i { c with landed := true }) =
        landed (calls.take i) ++ c.write :: landed (calls.drop (i + 1)) := by
  obtain ⟨hlt, rfl⟩ := List.getElem?_eq_some_iff.mp hi
  have hsplit : calls = calls.take i ++ calls[i] :: calls.drop (i + 1) := by
    rw [List.getElem_cons_drop, List.take_append_drop]
  constructor
  · conv_lhs => rw [hsplit]
    simp only [landed, List.filter_append, List.filter_cons, hc, Bool.false_eq_true, ite_false,
      List.map_append]
  · rw [List.set_eq_take_append_cons_drop, if_pos hlt]
    simp only [landed, List.filter_append, List.filter_cons, ite_true, List.map_append,
      List.map_cons]
    rfl

theorem map_write_set {calls : List InFlight} {i : ℕ} {c : InFlight} (hi : calls[i]? = some c) :
    (calls.set i { c with landed := true }).map InFlight.write = calls.map InFlight.write := by
  obtain ⟨hlt, rfl⟩ := List.getElem?_eq_some_iff.mp hi
  have hlt' : i < (calls.map InFlight.write).length := by rwa [List.length_map]
  have hw : ({ calls[i] with landed := true } : InFlight).write =
      (calls.map InFlight.write)[i] := by
    rw [List.getElem_map]
    rfl
  rw [List.map_set, hw, List.set_getElem_self]

theorem Inv.land {base : GoString → Option Bytes} {s : Overlap} (h : s.Inv base) {i : ℕ}
    (hc : InOrder s (.land i)) : (s.step (.land i)).1.Inv base := by
  simp only [step]
  split
  · exact h
  · rename_i c hi
    split_ifs with hl
    · exact h
    · obtain ⟨m, hm, hfault, hrec⟩ := h.engine
      obtain ⟨hold, hnew⟩ := landed_set hi (Bool.not_eq_true _ ▸ hl)
      have hafter : ∀ w ∈ landed (s.calls.drop (i + 1)), ∀ k ∈ c.write.keys, k ∉ w.keys := by
        intro w hw k hk
        obtain ⟨c', hc', rfl⟩ := List.mem_map.mp hw
        obtain ⟨hmem, hland⟩ := List.mem_filter.mp hc'
        obtain ⟨j, hj, rfl⟩ := List.getElem_of_mem hmem
        rw [List.length_drop] at hj
        refine hc c hi (i + 1 + j) _ (by omega) ?_ hland k hk
        rw [List.getElem_drop, List.getElem?_eq_getElem]
      refine ⟨⟨m.sync (c.op.1.update c.table) c.op.1.keys, ?_, ?_, fun k => ?_⟩, fun k => ?_⟩
      · rw [KVStore.persist_engine, hm, Option.map_some, KVOp.engineCall_eq_sync]
      · rw [KVStore.sync_of_fault_none hfault]
        exact hfault
      · rw [KVStore.sync_of_fault_none hfault, GoMap.lookup_overwrite, hrec, hold, hnew,
          Write.settle_insert _ _ _ _ _ hafter]
        rfl
      · simp only [map_write_set hi, KVStore.persist_toKVTable, h.table]

theorem Inv.returned {base : GoString → Option Bytes} {s : Overlap} (h : s.Inv base)
    (hret : s.Returned) : s.store.ReloadsAs := by
  obtain ⟨m, hm, hfault, hrec⟩ := h.engine
  refine (KVStore.reloadsAs_iff hm hfault).mpr fun k => ?_
  have hall : landed s.calls = s.calls.map InFlight.write := by
    rw [landed, List.filter_eq_self.mpr hret]
  rw [hrec, hall, h.table]

/-- Calls that overlap on a store opened on a working engine, with the engine
calls on every key landing in the order of the critical sections: once all calls
have returned, the engine holds the store's entries. -/
theorem memory_and_engine_converge (m : Engine) (hm : m.fault = none) (keys : m.kvData.Order)
    (steps : List Step)
    (hsteps : machine.Along InOrder ⟨.newWithPersistence m keys, []⟩ steps)
    (hret : (machine.run ⟨.newWithPersistence m keys, []⟩ steps).1.Returned) :
    (machine.run ⟨.newWithPersistence m keys, []⟩ steps).1.store.ReloadsAs := by
  have h0 : Inv (fun k => m.kvData.lookup k) ⟨.newWithPersistence m keys, []⟩ := by
    refine ⟨⟨m, KVStore.engine_newWithPersistence keys, hm, fun k => rfl⟩, fun k => ?_⟩
    rw [KVStore.data_newWithPersistence hm, GoMap.lookup_mapVal]
    rfl
  have hinv : Inv (fun k => m.kvData.lookup k)
      (machine.run ⟨.newWithPersistence m keys, []⟩ steps).1 := by
    refine machine.invariant (fun s i h hi => ?_) h0 hsteps
    cases i with
    | enter c => exact h.enter hi
    | land i => exact h.land hi
  exact hinv.returned hret

/-- Two calls on the same key that return in order, from an empty engine. -/
def twoSets : List Step :=
  [.enter ⟨.set (str "k") (str "a"), rfl⟩, .enter ⟨.set (str "k") (str "b"), rfl⟩]

theorem memory_and_engine_converge_in_order :
    (machine.run ⟨.newWithPersistence .new ⟨[], rfl⟩, []⟩
      (twoSets ++ [.land 0, .land 1])).1.store.ReloadsAs := by
  refine memory_and_engine_converge .new rfl ⟨[], rfl⟩ _ ?_ ?_
  · have hvalid (v : GoString) (h : Utf8.valid v) : ∀ w ∈ [v], Utf8.valid w := by
      intro w hw
      rwa [List.mem_singleton.mp hw]
    refine ⟨hvalid _ (by decide), hvalid _ (by decide), ?_, ?_, trivial⟩
    · intro c _ j c' hj hc' hl
      match j, hj, hc' with
      | 1, _, hc' =>
        cases hc'
        cases hl
    · intro c _ j c' hj hc'
      match j, hj, hc' with
      | j + 2, _, hc' => cases hc'
  · intro c hc
    rcases List.mem_cons.mp hc with rfl | hc
    · rfl
    · rw [List.mem_singleton.mp hc]

/-- The engine call of the first `Set` lands after that of the second: both have
returned, the table holds `b` and the engine `a`. -/
theorem overtaken_set_diverges :
    (machine.run ⟨.newWithPersistence .new ⟨[], rfl⟩, []⟩
      (twoSets ++ [.land 1, .land 0])).1.Returned ∧
    ¬ (machine.run ⟨.newWithPersistence .new ⟨[], rfl⟩, []⟩
      (twoSets ++ [.land 1, .land 0])).1.store.ReloadsAs := by
  constructor
  · intro c hc
    rcases List.mem_cons.mp hc with rfl | hc
    · rfl
    · rw [List.mem_singleton.mp hc]
  · intro h
    have hl := congrArg (fun d : GoMap GoString KVEntry => d.lookup (str "k"))
      (h _ rfl (GoMap.sorted _))
    revert hl
    decide

end Overlap

end Konsul
