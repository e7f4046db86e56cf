import Konsul.Persistence.Backup
import Konsul.Store.Aba
import Konsul.Store.ServiceLoad

/-!
# What a store finds that is opened on an engine

Each record that can be read becomes an entry, and the counter starts from the greatest
index among them. A Badger engine shows a store the items that have not expired.
-/

namespace Konsul

open GoLib

/-! ### What an opening finds -/

/-- The greatest index of the entries. -/
structure GreatestIndex {E : Type} (index : E → UInt64) (data : GoMap GoString E) (g : UInt64) :
    Prop where
  le : ∀ k e, data.lookup k = some e → index e ≤ g
  attained : g = 0 ∨ ∃ k e, data.lookup k = some e ∧ index e = g

theorem GreatestIndex.unique {E : Type} {index : E → UInt64} {data : GoMap GoString E}
    {g g' : UInt64} (h : GreatestIndex index data g) (h' : GreatestIndex index data g') :
    g = g' := by
  have hle {g g' : UInt64} (h : GreatestIndex index data g) (h' : GreatestIndex index data g') :
      g ≤ g' := by
    rcases h.attained with rfl | ⟨k, e, he, rfl⟩
    · exact UInt64.zero_le
    · exact h'.le k e he
  exact UInt64.le_antisymm (hle h h') (hle h' h)

variable {m : Engine}

theorem KVStore.greatestIndex_newWithPersistence (hm : m.fault = none) (keys : m.kvData.Order) :
    GreatestIndex KVEntry.modifyIndex (newWithPersistence m keys).data
      (newWithPersistence m keys).globalIndex := by
  have hmem (k : GoString) (e : KVEntry) :
      (⟨k, e⟩ : Σ _ : GoString, KVEntry) ∈ keys.list.map (fun e => ⟨e.1, loadEntry e.2⟩) ↔
        (newWithPersistence m keys).data.lookup k = some e := by
    rw [data_newWithPersistence hm]
    exact (keys.mapVal fun _ value => loadEntry value).mem_list_iff k e
  rw [globalIndex_newWithPersistence hm]
  constructor
  · intro k e he
    exact le_greatest (fun e : Σ _ : GoString, KVEntry => e.2.modifyIndex) ((hmem k e).mpr he)
  · rcases greatest_attained (fun e : Σ _ : GoString, KVEntry => e.2.modifyIndex)
      (keys.list.map fun e => ⟨e.1, loadEntry e.2⟩) with h0 | ⟨⟨k, e⟩, he, hindex⟩
    · exact Or.inl h0
    · exact Or.inr ⟨k, e, (hmem k e).mp he, hindex⟩

namespace ServiceStore

/-- The entry of a record that the engine still has. -/
def loadRecord (now : Time) (data : Bytes) : Option ServiceEntry :=
  match ServiceEntry.unmarshal data with
  | none => none
  | some entry => if entry.migrate.expiresAt > now then some entry.migrate else none

theorem loadRecord_live {now : Time} {data : Bytes} {e : ServiceEntry}
    (h : loadRecord now data = some e) : now < e.expiresAt := by
  unfold loadRecord at h
  cases hread : ServiceEntry.unmarshal data with
  | none => simp only [hread] at h; exact nomatch h
  | some entry =>
    simp only [hread] at h
    split_ifs at h with hlive
    cases h
    exact hlive

theorem loadService_eq (hm : m.fault = none) (now : Time) (name : GoString) :
    loadService m now name = (m.unexpired now name).bind fun r => loadRecord now r.data := by
  unfold loadService Engine.getService Engine.unexpired
  rw [hm]
  cases m.svcData.lookup name with
  | none => rfl
  | some r =>
    by_cases hlive : now < r.expiresAt
    · simp only [hlive, ite_true, Option.filter_some, decide_true, Option.bind_some]
      rfl
    · have hfilter : (some r).filter (fun r => decide (now < r.expiresAt)) = none := by
        simpa using hlive
      rw [hfilter]
      simp only [hlive, ite_false]
      rfl

/-- While records are loaded the counter is the greatest index so far. -/
structure Loading (m : Engine) (now : Time) (t : ServiceTable) : Prop where
  loaded : ∀ name e, t.data.lookup name = some e → loadService m now name = some e
  greatest : GreatestIndex ServiceEntry.modifyIndex t.data t.globalIndex

theorem Loading.next {now : Time} {t : ServiceTable} (h : Loading m now t) (name : GoString) :
    Loading m now (loadNext m now t name) := by
  unfold loadNext
  cases hload : loadService m now name with
  | none => exact h
  | some entry =>
    have hlookup (k : GoString) : (t.data.insert name entry).lookup k =
        if k = name then some entry else t.data.lookup k := GoMap.lookup_insert_ite ..
    refine ⟨?_, ?_, ?_⟩
    · intro k e he
      have he' := (hlookup k).symm.trans he
      split_ifs at he' with hk
      · cases he'
        rw [hk, hload]
      · exact h.loaded k e he'
    · intro k e he
      have he' := (hlookup k).symm.trans he
      dsimp only [ServiceTable.index]
      split_ifs at he' with hk
      · cases he'
        split_ifs with hgreater
        · exact UInt64.le_refl _
        · exact UInt64.not_lt.mp hgreater
      · have hle := h.greatest.le k e he'
        split_ifs with hgreater
        · exact UInt64.le_of_lt (UInt64.lt_of_le_of_lt hle hgreater)
        · exact hle
    · dsimp only [ServiceTable.index]
      split_ifs with hgreater
      · exact Or.inr ⟨name, entry, by rw [hlookup, if_pos rfl], rfl⟩
      · rcases h.greatest.attained with h0 | ⟨k, e, he, hindex⟩
        · exact Or.inl h0
        · refine Or.inr ⟨k, e, ?_, hindex⟩
          rw [hlookup]
          split_ifs with hk
          · -- the entry loaded before under this name is the same
            have hsame := h.loaded k e he
            rw [hk, hload] at hsame
            exact hsame
          · exact he

theorem greatestIndex_newWithPersistence (ttl : Duration) (now : Time) (range : m.svcData.Order) :
    GreatestIndex ServiceEntry.modifyIndex (newWithPersistence ttl m now range).data
      (newWithPersistence ttl m now range).globalIndex := by
  have hempty : Loading m now (newWithTTL ttl).toServiceTable :=
    ⟨nofun, nofun, Or.inl rfl⟩
  have hloop (names : List GoString) (t : ServiceTable) (ht : Loading m now t) :
      Loading m now (names.foldl (loadNext m now) t) := by
    induction names generalizing t with
    | nil => exact ht
    | cons name names ih => exact ih _ (ht.next name)
  unfold newWithPersistence loadFromPersistence
  cases m.listServices now range with
  | error err => exact hempty.greatest
  | ok names => exact (hloop names _ hempty).greatest

end ServiceStore

/-! ### The Badger engine, as a store lists it -/

namespace BadgerEngine

/-- The values `Get` finds for the keys of `List`. -/
def kvRecords (b : BadgerEngine) (now : Time) : GoMap GoString Bytes :=
  .ofEntries ((b.list now []).filterMap fun key => (b.get now key).toOption.map (Sigma.mk key))

/-- The records `GetService` finds for the names of `ListServices`. -/
def serviceRecords (b : BadgerEngine) (now : Time) : GoMap GoString ServiceRecord :=
  .ofEntries ((b.listServices now).filterMap fun name =>
    (b.getService now name).toOption.map fun data => ⟨name, data, now + 1⟩)

variable {b : BadgerEngine}

theorem nodup_trimmed (now : Time) (pfx : Bytes) (p : Bytes × Item → Bool)
    (hp : ∀ e, p e = true → hasPrefix e.1 pfx = true) :
    (((b.items now).filter p).map fun e => trimPrefix e.1 pfx).Nodup := by
  refine List.pairwise_map.mpr (List.Pairwise.imp_of_mem ?_ ((pairwise_items now).filter p))
  intro e e' he he' hne heq
  obtain ⟨rest, hrest⟩ := (hasPrefix_iff _ _).mp (hp e (List.mem_filter.mp he).2)
  obtain ⟨rest', hrest'⟩ := (hasPrefix_iff _ _).mp (hp e' (List.mem_filter.mp he').2)
  rw [hrest, hrest', trimPrefix_append, trimPrefix_append] at heq
  exact hne (by rw [hrest, hrest', heq])

theorem mem_trimmed_iff {now : Time} {pfx key : Bytes} {p : Bytes × Item → Bool}
    (hp : ∀ e, p e = true → hasPrefix e.1 pfx = true) :
    key ∈ (((b.items now).filter p).map fun e => trimPrefix e.1 pfx) ↔
      ∃ item, b.find now (pfx ++ key) = some item ∧ p (pfx ++ key, item) = true := by
  rw [List.mem_map]
  constructor
  · rintro ⟨⟨k, item⟩, hmem, rfl⟩
    obtain ⟨hitem, hpicked⟩ := List.mem_filter.mp hmem
    obtain ⟨rest, rfl⟩ := (hasPrefix_iff _ _).mp (hp _ hpicked)
    rw [trimPrefix_append]
    exact ⟨item, (mem_items_iff now _ item).mp hitem, hpicked⟩
  · rintro ⟨item, hitem, hpicked⟩
    refine ⟨(pfx ++ key, item), ?_, trimPrefix_append pfx key⟩
    exact List.mem_filter.mpr ⟨(mem_items_iff now _ item).mpr hitem, hpicked⟩

/-- A key with a longer prefix has the shorter one. -/
theorem hasPrefix_of_append {k pfx rest : Bytes} (h : hasPrefix k (pfx ++ rest) = true) :
    hasPrefix k pfx = true := by
  obtain ⟨tail, rfl⟩ := (hasPrefix_iff _ _).mp h
  exact (hasPrefix_iff _ _).mpr ⟨rest ++ tail, List.append_assoc ..⟩

theorem nodup_list (now : Time) (pfx : GoString) : (b.list now pfx).Nodup := by
  rw [list, seek_items]
  exact nodup_trimmed now kvPrefix _ fun e he => hasPrefix_of_append he

/-- `List` gives the live keys that begin with the prefix. -/
theorem mem_list_iff (now : Time) (pfx key : GoString) :
    key ∈ b.list now pfx ↔ pfx <+: key ∧ ∃ item, b.find now (kvPrefix ++ key) = some item := by
  rw [list, seek_items, mem_trimmed_iff fun e he => hasPrefix_of_append he]
  have hcond (item : Item) : hasPrefix (kvPrefix ++ key, item).1 (kvPrefix ++ pfx) = true ↔
      pfx <+: key := by
    rw [hasPrefix, List.isPrefixOf_iff_prefix]
    exact List.prefix_append_right_inj kvPrefix
  constructor
  · rintro ⟨item, hitem, hpfx⟩
    exact ⟨(hcond item).mp hpfx, item, hitem⟩
  · rintro ⟨hpfx, item, hitem⟩
    exact ⟨item, hitem, (hcond item).mpr hpfx⟩

theorem nodup_listServices (now : Time) : (b.listServices now).Nodup := by
  rw [listServices, seek_items, List.filter_filter]
  refine nodup_trimmed now servicePrefix _ fun e he => ?_
  exact (Bool.and_eq_true_iff.mp he).2

theorem mem_listServices_iff (now : Time) (name : GoString) :
    name ∈ b.listServices now ↔ ∃ item, b.find now (servicePrefix ++ name) = some item := by
  rw [listServices, seek_items, List.filter_filter,
    mem_trimmed_iff fun e he => (Bool.and_eq_true_iff.mp he).2]
  refine exists_congr fun item => and_iff_left_of_imp fun hitem => ?_
  refine Bool.and_eq_true_iff.mpr ⟨decide_eq_true (live_of_find hitem), ?_⟩
  exact (hasPrefix_iff _ _).mpr ⟨name, rfl⟩

theorem lookup_kvRecords (now : Time) (key : GoString) :
    (b.kvRecords now).lookup key = (b.find now (kvPrefix ++ key)).map (·.value) := by
  have hnodup : (b.list now []).Nodup := nodup_list now []
  rw [kvRecords, GoMap.lookup_ofEntries_filterMap hnodup]
  cases hitem : b.find now (kvPrefix ++ key) with
  | none =>
    have hget : (b.get now key).toOption = none := by
      rw [get, hitem]
      rfl
    rw [hget, ite_self]
    rfl
  | some item =>
    have hmem : key ∈ b.list now [] := (mem_list_iff now [] key).mpr ⟨List.nil_prefix, item, hitem⟩
    rw [if_pos hmem, get, hitem]
    rfl

theorem lookup_serviceRecords (now : Time) (name : GoString) :
    (b.serviceRecords now).lookup name =
      (b.find now (servicePrefix ++ name)).map fun item => ⟨item.value, now + 1⟩ := by
  have hnodup : (b.listServices now).Nodup := nodup_listServices now
  have hrecords : b.serviceRecords now = .ofEntries ((b.listServices now).filterMap fun name =>
      ((b.getService now name).toOption.map fun data => (⟨data, now + 1⟩ : ServiceRecord)).map
        (Sigma.mk name)) := by
    rw [serviceRecords]
    simp only [Option.map_map]
    rfl
  rw [hrecords, GoMap.lookup_ofEntries_filterMap hnodup]
  cases hitem : b.find now (servicePrefix ++ name) with
  | none =>
    have hget : (b.getService now name).toOption = none := by
      rw [getService, hitem]
      rfl
    rw [hget, Option.map_none, ite_self]
    rfl
  | some item =>
    have hlive := live_of_find hitem
    have hmem : name ∈ b.listServices now := (mem_listServices_iff now name).mpr ⟨item, hitem⟩
    rw [if_pos hmem, getService, hitem]
    simp only [if_neg hlive]
    rfl

end BadgerEngine

end Konsul
