import Konsul.Raft.Effects
import Konsul.Raft.LocalCalls

/-!
# Key-value commands through the log

For every command with a string that is not text there is a table on which the call
does something that no command of text does: a table that waits for exactly this write,
or that holds exactly these keys.
-/

namespace Konsul

open GoLib

/-! ### Tables that tell calls apart -/

namespace KVTable

/-- A table of some keys. -/
def ofKeys (keys : List GoString) (entry : GoString → Option KVEntry) : KVTable :=
  { data := GoMap.overwrite ∅ keys entry, globalIndex := 0 }

theorem lookup_ofKeys {keys : List GoString} (entry : GoString → Option KVEntry) {key : GoString}
    (h : key ∈ keys) : (ofKeys keys entry).data.lookup key = entry key := by
  rw [ofKeys, GoMap.lookup_overwrite, if_pos h]

/-- Every key has its expected index, and a value other than the given one. -/
def awaiting (keys : List GoString) (index : GoString → UInt64) (value : GoString → GoString) :
    KVTable :=
  ofKeys keys fun key =>
    if index key = 0 then none
    else some { value := 0 :: value key, modifyIndex := index key, createIndex := 0, flags := 0 }

/-- Every key is there, with its expected index. -/
def holding (keys : List GoString) (index : GoString → UInt64) : KVTable :=
  ofKeys keys fun key =>
    some { value := [], modifyIndex := index key, createIndex := 0, flags := 0 }

theorem checkSetAll_congr (t : KVTable) {items : List (Σ _ : GoString, GoString)}
    {expectedIndices expectedIndices' : GoMap GoString UInt64}
    (h : ∀ item ∈ items, expected expectedIndices' item.1 = expected expectedIndices item.1) :
    t.checkSetAll items expectedIndices' = t.checkSetAll items expectedIndices := by
  induction items with
  | nil => rfl
  | cons item items ih =>
    have hitem := h item (List.mem_cons_self ..)
    have hitems := ih fun item' h' => h item' (List.mem_cons_of_mem _ h')
    simp only [checkSetAll, List.findSome?_cons, hitem]
    rw [← checkSetAll, hitems, checkSetAll]

theorem checkDeleteAll_congr (t : KVTable) {keys : List GoString}
    {expectedIndices expectedIndices' : GoMap GoString UInt64}
    (h : ∀ key ∈ keys, expected expectedIndices' key = expected expectedIndices key) :
    t.checkDeleteAll keys expectedIndices' = t.checkDeleteAll keys expectedIndices := by
  induction keys with
  | nil => rfl
  | cons key keys ih =>
    have hkey := h key (List.mem_cons_self ..)
    have hkeys := ih fun key' h' => h key' (List.mem_cons_of_mem _ h')
    simp only [checkDeleteAll, List.findSome?_cons, hkey]
    rw [← checkDeleteAll, hkeys, checkDeleteAll]

section Awaiting

variable {keys : List GoString} {index : GoString → UInt64} {value : GoString → GoString}
  {key : GoString}

theorem checkSetCAS_awaiting (h : key ∈ keys) (n : UInt64) :
    (awaiting keys index value).checkSetCAS key n = none ↔ n = index key := by
  rw [checkSetCAS, awaiting, lookup_ofKeys _ h]
  by_cases hzero : index key = 0
  · simp only [hzero, ite_true]
    by_cases hn : n = 0 <;> simp [hn]
  · simp only [hzero, ite_false]
    by_cases hn : n = 0
    · simp [hn, Ne.symm hzero]
    · rcases eq_or_ne n (index key) with heq | heq
      · simp [heq, hzero]
      · simp [hn, heq, heq.symm]

theorem not_holds_awaiting (h : key ∈ keys) (flags : Option UInt64) :
    ¬ (awaiting keys index value).Holds key (value key) flags := by
  rintro ⟨entry, hentry, hvalue, -⟩
  rw [awaiting, lookup_ofKeys _ h] at hentry
  split_ifs at hentry
  obtain rfl := Option.some.inj hentry
  exact List.cons_ne_self _ _ hvalue

theorem checkDeleteCAS_holding (h : key ∈ keys) (n : UInt64) :
    (holding keys index).checkDeleteCAS key n = none ↔ n = index key := by
  rw [checkDeleteCAS, holding, lookup_ofKeys _ h]
  rcases eq_or_ne n (index key) with heq | heq
  · simp [heq]
  · simp [heq, heq.symm]

theorem mem_holding (h : key ∈ keys) : key ∈ (holding keys index).data := by
  have hentry := lookup_ofKeys
    (fun key => some (KVEntry.mk [] (index key) 0 0)) h
  exact Finmap.mem_of_lookup_eq_some hentry

end Awaiting

end KVTable

/-! ### Lost strings are seen -/

namespace KVCommand

/-- The call and the applied command leave the same table. -/
def SameTables (c : KVCommand) : Prop :=
  ∀ (t : KVTable) (ch : c.json.Choice), ∃ ch' : c.Choice,
    (t.applyCommand c.json ch).1 = (t.applyCommand c ch').1

theorem callLocal_carried (kv : KVStore) (c : KVCommand) (ch : c.Choice) :
    (FSM.applyKV kv c ch).1 = (kv.callLocal c ch).1 ∧
      (FSM.applyKV kv c ch).2.Carries (kv.callLocal c ch).2 := by
  cases c <;> exact ⟨rfl, rfl⟩

theorem sameTables_of_agrees {c : KVCommand} (h : ∀ f now, FSM.Agrees f now (.kv c) (.kv c.json)) :
    c.SameTables := by
  intro t ch
  let kv : KVStore := { toKVTable := t, engine := none, watchManager := none }
  let f : FSM := { kvStore := kv, serviceStore := .newWithTTL 0 }
  obtain ⟨ch', hstate, -⟩ := (h f 0).applied ch
  have hstores : (FSM.applyKV kv c.json ch).1 = (kv.callLocal c ch').1 :=
    congrArg FSM.kvStore hstate
  rw [← (callLocal_carried kv c ch').1] at hstores
  have htables := congrArg KVStore.toKVTable hstores
  rw [(FSM.applyKV_eq kv c.json ch).1, (FSM.applyKV_eq kv c ch').1] at htables
  exact ⟨ch', htables⟩

theorem valid_of_holds_put {t : KVTable} {key value : GoString} {flags : Option UInt64}
    (hnot : ¬ t.Holds key value flags)
    (h : (t.put (jsonString key) (jsonString value) flags).Holds key value flags) :
    Utf8.valid key ∧ Utf8.valid value := by
  rw [KVTable.holds_put] at h
  split_ifs at h with hkey
  · exact ⟨(Utf8.toValid_eq_iff key).mp hkey, (Utf8.toValid_eq_iff value).mp h⟩
  · exact absurd h hnot

theorem holds_put_self (t : KVTable) (key value : GoString) (flags : Option UInt64) :
    (t.put key value flags).Holds key value flags := by
  rw [KVTable.holds_put, if_pos rfl]

theorem not_holds_empty (key value : GoString) (flags : Option UInt64) :
    ¬ (KVStore.new.toKVTable).Holds key value flags := by
  rintro ⟨entry, hentry, -⟩
  cases hentry

theorem text_of_holds_putOrder {t : KVTable} {items : GoMap GoString GoString}
    (hnot : ∀ key value, items.lookup key = some value → ¬ t.Holds key value none)
    (range : (jsonMap jsonString items).Order)
    (h : ∀ key value, items.lookup key = some value → (t.putList range.list).Holds key value none) :
    ValidMap (fun value => Utf8.valid value) items := by
  refine validMap_of_lookup (fun v => (Utf8.toValid_eq_iff v).mp) fun key value hvalue => ?_
  have hholds := (t.holds_putOrder range key value).mp (h key value hvalue)
  cases hl : (jsonMap jsonString items).lookup key with
  | none =>
    rw [hl] at hholds
    exact absurd hholds (hnot key value hvalue)
  | some value' =>
    rw [hl] at hholds
    rw [show value' = value from hholds]

theorem holds_putOrder_self (t : KVTable) {items : GoMap GoString GoString} (range : items.Order)
    {key value : GoString} (h : items.lookup key = some value) :
    (t.putList range.list).Holds key value none := by
  rw [KVTable.holds_putOrder, h]

theorem call_batchSetCAS {t : KVTable} {items : GoMap GoString GoString}
    {expectedIndices : GoMap GoString UInt64}
    (hcheck : ∀ key ∈ items, t.checkSetCAS key (KVTable.expected expectedIndices key) = none)
    (ch : (KVCommand.batchSetCAS items expectedIndices).Choice) {key value : GoString}
    (h : items.lookup key = some value) :
    (t.applyCommand (.batchSetCAS items expectedIndices) ch).1.Holds key value none := by
  obtain ⟨check, range, watch⟩ := ch
  have hnone : t.checkSetAll check.list expectedIndices = none := by
    refine List.findSome?_eq_none_iff.mpr fun item hitem => hcheck item.1 ?_
    exact (check.mem_keys_iff item.1).mp (List.mem_map_of_mem hitem)
  simp only [KVTable.applyCommand, hnone]
  exact holds_putOrder_self t range h

theorem call_batchDeleteCAS {t : KVTable} {keys : List GoString}
    {expectedIndices : GoMap GoString UInt64}
    (hcheck : ∀ key ∈ keys, t.checkDeleteCAS key (KVTable.expected expectedIndices key) = none)
    (ch : (KVCommand.batchDeleteCAS keys expectedIndices).Choice) {key : GoString} (h : key ∈ keys) :
    key ∉ (t.applyCommand (.batchDeleteCAS keys expectedIndices) ch).1.data := by
  have hnone : t.checkDeleteAll keys expectedIndices = none :=
    List.findSome?_eq_none_iff.mpr hcheck
  simp only [KVTable.applyCommand, hnone]
  exact (GoMap.notMem_eraseAll_iff t.data keys key).mpr (.inl h)

theorem lossless_batchSetCAS {items : GoMap GoString GoString}
    {expectedIndices : GoMap GoString UInt64}
    (h : (KVCommand.batchSetCAS items expectedIndices).SameTables) :
    (KVCommand.batchSetCAS items expectedIndices).Lossless := by
  let keys := (GoMap.sorted items).list.map Sigma.fst
  let index := KVTable.expected expectedIndices
  let t := KVTable.awaiting keys index fun key => (items.lookup key).getD []
  have hkeys (key : GoString) : key ∈ keys ↔ key ∈ items := (GoMap.sorted items).mem_keys_iff key
  have hpasses (key : GoString) (hkey : key ∈ items) (n : UInt64) :
      t.checkSetCAS key n = none ↔ n = index key :=
    KVTable.checkSetCAS_awaiting ((hkeys key).mpr hkey) n
  have hnot (key value : GoString) (hvalue : items.lookup key = some value) :
      ¬ t.Holds key value none := by
    have hkey := (hkeys key).mpr (Finmap.mem_of_lookup_eq_some hvalue)
    have hother : ¬ t.Holds key ((items.lookup key).getD []) none :=
      KVTable.not_holds_awaiting hkey none
    rwa [hvalue, Option.getD_some] at hother
  let range := GoMap.sorted (jsonMap jsonString items)
  obtain ⟨ch', hstate⟩ := h t (range, range, range)
  have hcalled (key value : GoString) (hvalue : items.lookup key = some value) :
      (t.applyCommand (.batchSetCAS (jsonMap jsonString items) (jsonMap id expectedIndices))
        (range, range, range)).1.Holds key value none := by
    have hcall := call_batchSetCAS (fun key hkey => (hpasses key hkey _).mpr rfl) ch' hvalue
    rw [← hstate] at hcall
    exact hcall
  simp only [KVTable.applyCommand] at hcalled
  cases hcheck : t.checkSetAll range.list (jsonMap id expectedIndices) with
  | some err =>
    -- refused, so there was nothing to write
    have hempty (key value : GoString) : items.lookup key ≠ some value := fun hvalue => by
      have hholds := hcalled key value hvalue
      rw [hcheck] at hholds
      exact hnot key value hvalue hholds
    refine ⟨fun key value hvalue => absurd hvalue (hempty key value), fun key hkey => ?_⟩
    obtain ⟨value, hvalue⟩ := Finmap.mem_iff.mp hkey
    exact absurd hvalue (hempty key value)
  | none =>
    rw [hcheck] at hcalled
    have htext := text_of_holds_putOrder hnot range hcalled
    refine ⟨htext, fun key hkey => ?_⟩
    have hitems : jsonMap jsonString items = items :=
      jsonMap_eq_self (fun v => (Utf8.toValid_eq_iff v).mpr) htext
    obtain ⟨item, hitem, rfl⟩ := List.mem_map.mp
      ((range.mem_keys_iff key).mpr (hitems.symm ▸ hkey))
    exact (hpasses item.1 hkey _).mp (List.findSome?_eq_none_iff.mp hcheck item hitem)

theorem lossless_batchDeleteCAS {keys : List GoString} {expectedIndices : GoMap GoString UInt64}
    (h : (KVCommand.batchDeleteCAS keys expectedIndices).SameTables) :
    (KVCommand.batchDeleteCAS keys expectedIndices).Lossless := by
  let index := KVTable.expected expectedIndices
  let t := KVTable.holding keys index
  have hpasses (key : GoString) (hkey : key ∈ keys) (n : UInt64) :
      t.checkDeleteCAS key n = none ↔ n = index key := KVTable.checkDeleteCAS_holding hkey n
  obtain ⟨ch', hstate⟩ := h t GoMap.sorted
  have hcalled (key : GoString) (hkey : key ∈ keys) :
      key ∉ (t.applyCommand (KVCommand.batchDeleteCAS keys expectedIndices).json
        GoMap.sorted).1.data := by
    rw [hstate]
    exact call_batchDeleteCAS (fun key hkey => (hpasses key hkey _).mpr rfl) ch' hkey
  simp only [json, KVTable.applyCommand] at hcalled
  cases hcheck : t.checkDeleteAll (keys.map jsonString) (jsonMap id expectedIndices) with
  | some err =>
    have hempty (key : GoString) (hkey : key ∈ keys) : False := by
      have hgone := hcalled key hkey
      rw [hcheck] at hgone
      exact hgone (KVTable.mem_holding hkey)
    exact ⟨fun key hkey => (hempty key hkey).elim, fun key hkey => (hempty key hkey).elim⟩
  | none =>
    rw [hcheck] at hcalled
    have hmapped (key : GoString) (hkey : key ∈ keys) : key ∈ keys.map jsonString := by
      have hgone := (GoMap.notMem_eraseAll_iff t.data (keys.map jsonString) key).mp
        (hcalled key hkey)
      exact hgone.resolve_right fun hnot => hnot (KVTable.mem_holding hkey)
    refine ⟨fun key hkey => ?_, fun key hkey => ?_⟩
    · obtain ⟨key', -, rfl⟩ := List.mem_map.mp (hmapped key hkey)
      exact Utf8.valid_toValid key'
    · exact (hpasses key hkey _).mp (List.findSome?_eq_none_iff.mp hcheck key (hmapped key hkey))

theorem lossless_of_sameTables {c : KVCommand} (h : c.SameTables) : c.Lossless := by
  have hempty := h KVStore.new.toKVTable
  cases c with
  | set key value =>
    obtain ⟨ch', hstate⟩ := hempty ()
    refine valid_of_holds_put (not_holds_empty key value none) ?_
    change (KVTable.put _ (jsonString key) (jsonString value) none) = _ at hstate
    rw [hstate]
    exact holds_put_self _ key value none
  | setWithFlags key value flags =>
    obtain ⟨ch', hstate⟩ := hempty ()
    refine valid_of_holds_put (not_holds_empty key value (some flags)) ?_
    change (KVTable.put _ (jsonString key) (jsonString value) (some flags)) = _ at hstate
    rw [hstate]
    exact holds_put_self _ key value (some flags)
  | batchSet items =>
    obtain ⟨ch', hstate⟩ := hempty (KVCommand.sortedChoice _)
    refine text_of_holds_putOrder (fun key value _ => not_holds_empty key value none)
      (GoMap.sorted _) fun key value hvalue => ?_
    change KVTable.putList _ (GoMap.sorted (jsonMap jsonString items)).list = _ at hstate
    rw [hstate]
    exact holds_putOrder_self _ ch'.1 hvalue
  | setCAS key value expectedIndex =>
    let t := KVTable.awaiting [key] (fun _ => expectedIndex) fun _ => value
    have hmem : key ∈ [key] := List.mem_singleton_self key
    have hnot : ¬ t.Holds key value none := KVTable.not_holds_awaiting hmem none
    obtain ⟨ch', hstate⟩ := h t ()
    have hcalled : (t.applyCommand (KVCommand.setCAS key value expectedIndex).json ()).1.Holds
        key value none := by
      rw [hstate]
      simp only [KVTable.applyCommand, (KVTable.checkSetCAS_awaiting hmem expectedIndex).mpr, t]
      exact holds_put_self _ key value none
    simp only [json, KVTable.applyCommand] at hcalled
    cases hcheck : t.checkSetCAS (jsonString key) expectedIndex with
    | some err =>
      rw [hcheck] at hcalled
      exact absurd hcalled hnot
    | none =>
      rw [hcheck] at hcalled
      exact valid_of_holds_put hnot hcalled
  | batchSetCAS items expectedIndices => exact lossless_batchSetCAS h
  | delete key =>
    let t := KVTable.holding [key] fun _ => 0
    have hkey : key ∈ t.data := KVTable.mem_holding (List.mem_singleton_self key)
    obtain ⟨ch', hstate⟩ := h t ()
    have hgone : key ∉ (t.remove (jsonString key)).data := by
      change t.remove (jsonString key) = t.remove key at hstate
      rw [hstate]
      exact (GoMap.notMem_erase_iff t.data key key).mpr (.inl rfl)
    have hsame := (GoMap.notMem_erase_iff t.data (jsonString key) key).mp hgone
    exact (Utf8.toValid_eq_iff key).mp (hsame.resolve_right fun hnot => hnot hkey)
  | deleteCAS key expectedIndex =>
    let t := KVTable.holding [key] fun _ => expectedIndex
    have hmem : key ∈ [key] := List.mem_singleton_self key
    have hkey : key ∈ t.data := KVTable.mem_holding hmem
    obtain ⟨ch', hstate⟩ := h t ()
    have hgone : key ∉ (t.applyCommand (KVCommand.deleteCAS key expectedIndex).json ()).1.data := by
      rw [hstate]
      simp only [KVTable.applyCommand, (KVTable.checkDeleteCAS_holding hmem expectedIndex).mpr, t]
      exact (GoMap.notMem_erase_iff _ key key).mpr (.inl rfl)
    simp only [json, KVTable.applyCommand] at hgone
    cases hcheck : t.checkDeleteCAS (jsonString key) expectedIndex with
    | some err =>
      rw [hcheck] at hgone
      exact absurd hkey hgone
    | none =>
      rw [hcheck] at hgone
      have hsame := (GoMap.notMem_erase_iff t.data (jsonString key) key).mp hgone
      exact (Utf8.toValid_eq_iff key).mp (hsame.resolve_right fun hnot => hnot hkey)
  | batchDelete keys =>
    let t := KVTable.holding keys fun _ => 0
    intro key hkey
    have hin : key ∈ t.data := KVTable.mem_holding hkey
    obtain ⟨ch', hstate⟩ := h t GoMap.sorted
    have hgone : key ∉ (t.eraseAll (keys.map jsonString)).data := by
      change t.eraseAll (keys.map jsonString) = t.eraseAll keys at hstate
      rw [hstate]
      exact (GoMap.notMem_eraseAll_iff t.data keys key).mpr (.inl hkey)
    have hmapped := (GoMap.notMem_eraseAll_iff t.data (keys.map jsonString) key).mp hgone
    obtain ⟨key', -, rfl⟩ := List.mem_map.mp (hmapped.resolve_right fun hnot => hnot hin)
    exact Utf8.valid_toValid key'
  | batchDeleteCAS keys expectedIndices => exact lossless_batchDeleteCAS h

/-! ### Text is carried -/

/-- The commands are applied alike, order by order. -/
def SameApplied (c c' : KVCommand) : Prop :=
  ∃ e : c.Choice ≃ c'.Choice, ∀ kv ch, FSM.applyKV kv c ch = FSM.applyKV kv c' (e ch)

theorem sameApplied_of_eq {c c' : KVCommand} (h : c = c') : SameApplied c c' := by
  subst h
  exact ⟨Equiv.refl _, fun _ _ => rfl⟩

theorem sameApplied_batchSetCAS {items : GoMap GoString GoString}
    {expectedIndices expectedIndices' : GoMap GoString UInt64}
    (h : ∀ key ∈ items,
      KVTable.expected expectedIndices' key = KVTable.expected expectedIndices key) :
    SameApplied (.batchSetCAS items expectedIndices') (.batchSetCAS items expectedIndices) := by
  refine ⟨Equiv.refl _, fun kv ch => ?_⟩
  obtain ⟨check, range, watch⟩ := ch
  have hcheck : kv.toKVTable.checkSetAll check.list expectedIndices' =
      kv.toKVTable.checkSetAll check.list expectedIndices :=
    KVTable.checkSetAll_congr _ fun item hitem =>
      h item.1 ((check.mem_keys_iff item.1).mp (List.mem_map_of_mem hitem))
  simp only [FSM.applyKV, KVStore.batchSetCASLocal, hcheck]
  rfl

theorem sameApplied_batchDeleteCAS {keys : List GoString}
    {expectedIndices expectedIndices' : GoMap GoString UInt64}
    (h : ∀ key ∈ keys,
      KVTable.expected expectedIndices' key = KVTable.expected expectedIndices key) :
    SameApplied (.batchDeleteCAS keys expectedIndices') (.batchDeleteCAS keys expectedIndices) := by
  refine ⟨Equiv.refl _, fun kv ch => ?_⟩
  have hcheck := KVTable.checkDeleteAll_congr kv.toKVTable h
  simp only [FSM.applyKV, KVStore.batchDeleteCASLocal, hcheck]
  rfl

theorem Lossless.sameApplied {c : KVCommand} (h : c.Lossless) : SameApplied c.json c := by
  have htexts {items : GoMap GoString GoString} :
      ValidMap (fun value => Utf8.valid value) items → jsonMap jsonString items = items :=
    jsonMap_eq_self fun v => (Utf8.toValid_eq_iff v).mpr
  cases c with
  | set key value =>
    refine sameApplied_of_eq ?_
    rw [json, jsonString, jsonString, Utf8.toValid_of_valid h.1, Utf8.toValid_of_valid h.2]
  | setWithFlags key value flags =>
    refine sameApplied_of_eq ?_
    rw [json, jsonString, jsonString, Utf8.toValid_of_valid h.1, Utf8.toValid_of_valid h.2]
  | setCAS key value expectedIndex =>
    refine sameApplied_of_eq ?_
    rw [json, jsonString, jsonString, Utf8.toValid_of_valid h.1, Utf8.toValid_of_valid h.2]
  | delete key =>
    refine sameApplied_of_eq ?_
    rw [json, jsonString, Utf8.toValid_of_valid h]
  | deleteCAS key expectedIndex =>
    refine sameApplied_of_eq ?_
    rw [json, jsonString, Utf8.toValid_of_valid h]
  | batchSet items =>
    refine sameApplied_of_eq ?_
    rw [json, htexts h]
  | batchDelete keys =>
    refine sameApplied_of_eq ?_
    rw [json, map_jsonString_of_valid h]
  | batchSetCAS items expectedIndices =>
    rw [json, htexts h.1]
    exact sameApplied_batchSetCAS h.2
  | batchDeleteCAS keys expectedIndices =>
    rw [json, map_jsonString_of_valid h.1]
    exact sameApplied_batchDeleteCAS h.2

theorem agrees_iff_lossless {c : KVCommand} :
    (∀ f now, FSM.Agrees f now (.kv c) (.kv c.json)) ↔ c.Lossless := by
  refine ⟨fun h => lossless_of_sameTables (sameTables_of_agrees h), fun h f now => ?_⟩
  obtain ⟨e, happlied⟩ := h.sameApplied
  have hsame (ch : c.json.Choice) : SameOutcome (f.apply now (.kv c.json) ch)
      (LocalCall.run f now (.kv c) (e ch)) := by
    obtain ⟨hstate, hresult⟩ := callLocal_carried f.kvStore c (e ch)
    rw [← happlied] at hstate hresult
    exact ⟨congrArg (fun kv => { f with kvStore := kv }) hstate, hresult⟩
  refine ⟨fun ch => ⟨e ch, hsame ch⟩, fun ch' => ?_⟩
  obtain ⟨ch, rfl⟩ := e.surjective ch'
  exact ⟨ch, hsame ch⟩

end KVCommand

end Konsul
