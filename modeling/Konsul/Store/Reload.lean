import Konsul.Lib.Machine
import Konsul.Store.KVSpec

/-!
# Reloading a store from its engine

While the engine does not fail, the record of a key is either the JSON text of
the key's entry or the record the entry was loaded from (`Mirrors`). Reloading
is therefore the identity exactly where JSON text keeps the value, and an old
plain value survives exactly when it is not itself the JSON text of an entry.
-/

namespace Konsul

open GoLib

/-- Sequential operations of one store. -/
def kvMachine : Machine KVStore KVOp KVResult := ⟨fun kv op => op.apply kv⟩

namespace KVStore

/-- Opening a store on the engine of this one finds the same entries. -/
def ReloadsAs (kv : KVStore) : Prop :=
  ∀ m, kv.engine = some m → ∀ keys : m.kvData.Order, (newWithPersistence m keys).data = kv.data

/-- A record and an entry of one key: loaded from it, or written as it. -/
def Stored (record : Option Bytes) (entry : Option KVEntry) : Prop :=
  record.map loadEntry = entry ∨ record = entry.map KVEntry.marshal

/-- The engine works and every key's record goes with its entry. -/
def Mirrors (kv : KVStore) : Prop :=
  ∃ m, kv.engine = some m ∧ m.fault = none ∧
    ∀ k, Stored (m.kvData.lookup k) (kv.data.lookup k)

theorem loadEntry_marshal (e : KVEntry) : loadEntry e.marshal = e.clean := by
  rw [loadEntry, KVEntry.unmarshal_marshal]

theorem data_newWithPersistence {m : Engine} (hm : m.fault = none) (keys : m.kvData.Order) :
    (newWithPersistence m keys).data = m.kvData.mapVal fun _ value => loadEntry value := by
  rw [newWithPersistence, loadFromPersistence]
  split
  · rename_i h
    rw [hm] at h
    cases h
  · rfl

theorem engine_newWithPersistence {m : Engine} (keys : m.kvData.Order) :
    (newWithPersistence m keys).engine = some m := by
  rw [newWithPersistence, loadFromPersistence]
  split <;> rfl

theorem mirrors_newWithPersistence {m : Engine} (hm : m.fault = none) (keys : m.kvData.Order) :
    (newWithPersistence m keys).Mirrors := by
  refine ⟨m, engine_newWithPersistence keys, hm, fun k => Or.inl ?_⟩
  rw [data_newWithPersistence hm, GoMap.lookup_mapVal]

theorem reloadsAs_iff {kv : KVStore} {m : Engine} (hm : kv.engine = some m)
    (hfault : m.fault = none) :
    kv.ReloadsAs ↔ ∀ k, (m.kvData.lookup k).map loadEntry = kv.data.lookup k := by
  constructor
  · intro h k
    rw [← h m hm (Classical.arbitrary _), data_newWithPersistence hfault, GoMap.lookup_mapVal]
  · intro h m' hm' keys
    rw [hm] at hm'
    cases hm'
    refine Finmap.ext_lookup fun k => ?_
    rw [data_newWithPersistence hfault, GoMap.lookup_mapVal, h]

/-! ### One operation -/

theorem sync_of_fault_none {m : Engine} (h : m.fault = none) (t : KVTable) (keys : List GoString) :
    m.sync t keys = { m with kvData := GoMap.overwrite m.kvData keys t.record } := by
  rw [Engine.sync, h]

end KVStore

namespace KVOp

theorem lookup_update_of_notMem (t : KVTable) (op : KVOp) {k : GoString} (hk : k ∉ op.keys) :
    (op.update t).data.lookup k = t.data.lookup k := by
  cases op.updates t with
  | put key value flags hitems hkeys htable =>
    rw [hkeys, List.mem_singleton] at hk
    rw [htable, KVTable.lookup_put, if_neg hk]
  | putList hnodup hkeys htable =>
    rw [hkeys] at hk
    rw [htable, KVTable.lookup_putList_of_notMem t hk]
  | erase hitems htable => rw [htable, KVTable.lookup_eraseAll, if_neg hk]

theorem value_mem_putList (t : KVTable) {items : List (Σ _ : GoString, GoString)} {k : GoString}
    (hk : k ∈ items.map Sigma.fst) {e : KVEntry}
    (he : (t.putList items).data.lookup k = some e) : e.value ∈ items.map Sigma.snd := by
  induction items generalizing t with
  | nil => cases hk
  | cons item items ih =>
    rw [KVTable.putList_cons] at he
    rw [List.map_cons, List.mem_cons]
    by_cases hmem : k ∈ items.map Sigma.fst
    · exact Or.inr (ih _ hmem he)
    · have heq : k = item.1 := by
        simpa only [List.map_cons, List.mem_cons, hmem, or_false] using hk
      rw [KVTable.lookup_putList_of_notMem _ hmem, KVTable.lookup_put, if_pos heq] at he
      cases he
      exact Or.inl (KVTable.newEntry_value ..)

/-- An entry an operation leaves under one of its keys holds the value of an item. -/
theorem value_of_update (t : KVTable) (op : KVOp) {k : GoString} (hk : k ∈ op.keys) {e : KVEntry}
    (he : (op.update t).data.lookup k = some e) : e.value ∈ op.items.map Sigma.snd := by
  cases op.updates t with
  | put key value flags hitems hkeys htable =>
    rw [hkeys, List.mem_singleton] at hk
    rw [htable, KVTable.lookup_put, if_pos hk] at he
    cases he
    rw [hitems]
    exact List.mem_singleton.mpr (KVTable.newEntry_value ..)
  | putList hnodup hkeys htable =>
    rw [hkeys] at hk
    rw [htable] at he
    exact value_mem_putList t hk he
  | erase hitems htable =>
    rw [htable, KVTable.lookup_eraseAll, if_pos hk] at he
    cases he

/-- The records an operation leaves under its keys load as the entries they are of. -/
theorem map_loadEntry_record (t : KVTable) (op : KVOp)
    (hop : ∀ v ∈ op.items.map Sigma.snd, Utf8.valid v) {k : GoString} (hk : k ∈ op.keys) :
    ((op.update t).record k).map KVStore.loadEntry = (op.update t).data.lookup k := by
  cases hl : (op.update t).data.lookup k with
  | none =>
    rw [KVTable.record, hl]
    rfl
  | some e =>
    rw [KVTable.record, hl, Option.map_some, Option.map_some, KVStore.loadEntry_marshal,
      (KVEntry.clean_eq_iff e).mpr (hop _ (op.value_of_update _ hk hl))]

/-- Over a working engine an operation changes nothing, or updates the table and
the records of its keys. -/
theorem apply_cases {kv : KVStore} {m : Engine} (op : KVOp) (hm : kv.engine = some m)
    (hfault : m.fault = none) :
    (op.apply kv).1 = kv ∨
      (op.apply kv).1.toKVTable = op.update kv.toKVTable ∧
        (op.apply kv).1.engine = some { m with
          kvData := GoMap.overwrite m.kvData op.keys (op.update kv.toKVTable).record } := by
  cases h : op.check kv.toKVTable with
  | some err =>
    rw [apply_of_check_some h]
    exact Or.inl rfl
  | none =>
    refine Or.inr ⟨apply_toKVTable h, ?_⟩
    rw [apply_engine h, hm, Option.map_some, engineCall_eq_sync, KVStore.sync_of_fault_none hfault]

end KVOp

namespace KVStore

theorem Mirrors.step {kv : KVStore} (h : kv.Mirrors) (op : KVOp) : (op.apply kv).1.Mirrors := by
  obtain ⟨m, hm, hfault, hstored⟩ := h
  rcases op.apply_cases hm hfault with heq | ⟨ht, he⟩
  · rw [heq]
    exact ⟨m, hm, hfault, hstored⟩
  · refine ⟨_, he, hfault, fun k => ?_⟩
    rw [ht, GoMap.lookup_overwrite]
    split_ifs with hk
    · exact Or.inr rfl
    · rw [op.lookup_update_of_notMem _ hk]
      exact hstored k

/-- Every live entry that is stored as its JSON text has a value JSON text keeps. -/
def TextValues (kv : KVStore) : Prop :=
  ∀ m, kv.engine = some m → ∀ k e, kv.data.lookup k = some e →
    m.kvData.lookup k = some e.marshal → Utf8.valid e.value

theorem Mirrors.reloadsAs_iff {kv : KVStore} (h : kv.Mirrors) : kv.ReloadsAs ↔ kv.TextValues := by
  obtain ⟨m, hm, hfault, hstored⟩ := h
  rw [KVStore.reloadsAs_iff hm hfault]
  constructor
  · intro hload m' hm' k e he hr
    rw [hm] at hm'
    cases hm'
    have := hload k
    rw [hr, he, Option.map_some, loadEntry_marshal, Option.some_inj] at this
    exact (KVEntry.clean_eq_iff e).mp this
  · intro htext k
    rcases hstored k with h | h
    · exact h
    · cases he : kv.data.lookup k with
      | none =>
        rw [he] at h
        rw [h]
        rfl
      | some e =>
        rw [he] at h
        rw [h, Option.map_some, Option.map_some, loadEntry_marshal,
          (KVEntry.clean_eq_iff e).mpr (htext m hm k e he h)]

/-- The engine works and a reload finds the same entries. -/
def Faithful (kv : KVStore) : Prop :=
  ∃ m, kv.engine = some m ∧ m.fault = none ∧
    ∀ k, (m.kvData.lookup k).map loadEntry = kv.data.lookup k

theorem Faithful.step {kv : KVStore} (h : kv.Faithful) {op : KVOp}
    (hop : ∀ v ∈ op.items.map Sigma.snd, Utf8.valid v) : (op.apply kv).1.Faithful := by
  obtain ⟨m, hm, hfault, hload⟩ := h
  rcases op.apply_cases hm hfault with heq | ⟨ht, he⟩
  · rw [heq]
    exact ⟨m, hm, hfault, hload⟩
  · refine ⟨_, he, hfault, fun k => ?_⟩
    rw [ht, GoMap.lookup_overwrite]
    split_ifs with hk
    · exact op.map_loadEntry_record _ hop hk
    · rw [op.lookup_update_of_notMem _ hk]
      exact hload k

/-! ### Runs -/

theorem mirrors_run {m : Engine} (hm : m.fault = none) (keys : m.kvData.Order) (ops : List KVOp) :
    (kvMachine.run (newWithPersistence m keys) ops).1.Mirrors :=
  kvMachine.invariant_run (fun _ op h => h.step op) (mirrors_newWithPersistence hm keys) ops

theorem faithful_run {m : Engine} (hm : m.fault = none) (keys : m.kvData.Order) {ops : List KVOp}
    (hops : ∀ op ∈ ops, ∀ v ∈ op.items.map Sigma.snd, Utf8.valid v) :
    (kvMachine.run (newWithPersistence m keys) ops).1.Faithful := by
  have h0 : (newWithPersistence m keys).Faithful := by
    refine ⟨m, engine_newWithPersistence keys, hm, fun k => ?_⟩
    rw [data_newWithPersistence hm, GoMap.lookup_mapVal]
  exact kvMachine.invariant (fun _ _ h hop => h.step hop) h0 (kvMachine.along_of_forall _ hops)

theorem Faithful.reloadsAs {kv : KVStore} (h : kv.Faithful) : kv.ReloadsAs := by
  obtain ⟨m, hm, hfault, hload⟩ := h
  exact (KVStore.reloadsAs_iff hm hfault).mpr hload

/-- A plain value is kept by the loader, with a version of its own. -/
def KeepsPlain (record : Bytes) (entry : Option KVEntry) : Prop :=
  ∃ e, entry = some e ∧ e.value = record ∧ e.modifyIndex ≠ 0

theorem keepsPlain_loadEntry (record : Bytes) :
    KeepsPlain record (some (loadEntry record)) ↔ KVEntry.unmarshal record = none := by
  rw [loadEntry]
  constructor
  · rintro ⟨e, he, hv, -⟩
    cases hu : KVEntry.unmarshal record with
    | none => rfl
    | some entry =>
      rw [hu] at he
      cases he
      exact absurd hv (KVEntry.value_ne_of_unmarshal hu)
  · intro h
    rw [h]
    exact ⟨_, rfl, rfl, show (1 : UInt64) ≠ 0 by decide⟩

/-- Reloading undoes persisting exactly when the values stored as JSON text are
valid UTF-8, which they are in every run that only writes such values; and a
plain record is kept exactly when it does not decode as an entry. -/
theorem reload_undoes_persist (m : Engine) (hm : m.fault = none) (keys : m.kvData.Order) :
    (∀ ops : List KVOp,
      ((kvMachine.run (newWithPersistence m keys) ops).1.ReloadsAs ↔
        (kvMachine.run (newWithPersistence m keys) ops).1.TextValues) ∧
      ((∀ op ∈ ops, ∀ v ∈ op.items.map Sigma.snd, Utf8.valid v) →
        (kvMachine.run (newWithPersistence m keys) ops).1.ReloadsAs)) ∧
    ∀ key record, m.kvData.lookup key = some record →
      (KeepsPlain record ((newWithPersistence m keys).data.lookup key) ↔
        KVEntry.unmarshal record = none) := by
  refine ⟨fun ops => ⟨(mirrors_run hm keys ops).reloadsAs_iff, fun h =>
    (faithful_run hm keys h).reloadsAs⟩, fun key record hr => ?_⟩
  rw [data_newWithPersistence hm, GoMap.lookup_mapVal, hr, Option.map_some]
  exact keepsPlain_loadEntry record

/-- A fresh store over an engine that holds one record. -/
def openedOn (key : GoString) (record : Bytes) : KVStore :=
  newWithPersistence ⟨(∅ : GoMap GoString Bytes).insert key record, ∅, none⟩ ⟨[⟨key, record⟩], rfl⟩

/-- One write of a text value, reloaded, and a plain record `on`. -/
theorem reload_undoes_persist_text :
    (kvMachine.run (newWithPersistence .new ⟨[], rfl⟩) [.set (str "k") (str "v")]).1.ReloadsAs ∧
      KeepsPlain (str "on") ((openedOn (str "mode") (str "on")).data.lookup (str "mode")) := by
  refine ⟨((reload_undoes_persist .new rfl ⟨[], rfl⟩).1 _).2 ?_,
    ((reload_undoes_persist _ rfl _).2 (str "mode") (str "on") (by decide)).mpr (by decide)⟩
  intro op hop v hv
  rw [List.mem_singleton.mp hop] at hv
  rw [List.mem_singleton.mp hv]
  decide

/-- A value that is the byte FF comes back as U+FFFD, and the plain records `null`
and `{"value":"x"}` come back as other values that were never written. -/
theorem reload_changes_values :
    ¬ (kvMachine.run (newWithPersistence .new ⟨[], rfl⟩) [.set (str "k") [0xFF]]).1.ReloadsAs ∧
      ¬ KeepsPlain (str "null") ((openedOn (str "mode") (str "null")).data.lookup (str "mode")) ∧
      (openedOn (str "mode") (str "\x7b\"value\":\"x\"\x7d")).data.lookup (str "mode") =
        some ⟨str "x", 0, 0, 0⟩ := by
  refine ⟨fun h => ?_, ?_, by decide⟩
  · have hl := congrArg (fun d : GoMap GoString KVEntry => d.lookup (str "k")) (h _ rfl ⟨[_], rfl⟩)
    revert hl
    decide
  · rintro ⟨e, he, hv, -⟩
    have : (openedOn (str "mode") (str "null")).data.lookup (str "mode") = some ⟨[], 0, 0, 0⟩ := by
      decide
    rw [this] at he
    cases he
    revert hv
    decide

end KVStore

end Konsul
