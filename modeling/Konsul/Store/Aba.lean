import Konsul.Store.Reload

/-!
# Compare-and-swap over the whole life of a store

A life is a run of operations and restarts over one engine. An index is handed
out once, and a compare-and-swap succeeds only against an untouched key, as long
as every restart finds the newest index on a live entry: the loader takes the
counter from the entries it finds.
-/

namespace Konsul

open GoLib

/-! ### Indices handed out -/

namespace KVTable

/-- The indices the writes of a batch get, with their keys. -/
def assigned (t : KVTable) : List (Σ _ : GoString, GoString) → List (GoString × UInt64)
  | [] => []
  | item :: items => (item.1, t.nextIndex) :: (t.put item.1 item.2 none).assigned items

theorem map_fst_assigned (t : KVTable) (items : List (Σ _ : GoString, GoString)) :
    (t.assigned items).map Prod.fst = items.map Sigma.fst := by
  induction items generalizing t with
  | nil => rfl
  | cons item items ih => rw [assigned, List.map_cons, ih, List.map_cons]

theorem length_assigned (t : KVTable) (items : List (Σ _ : GoString, GoString)) :
    (t.assigned items).length = items.length := by
  have h := congrArg List.length (t.map_fst_assigned items)
  rwa [List.length_map, List.length_map] at h

/-- As long as the counter does not wrap, a batch takes the next indices in turn. -/
theorem map_toNat_assigned (t : KVTable) (items : List (Σ _ : GoString, GoString))
    (hroom : t.globalIndex.toNat + items.length < 2 ^ 64) :
    (t.assigned items).map (fun p => p.2.toNat) =
      List.range' (t.globalIndex.toNat + 1) items.length := by
  induction items generalizing t with
  | nil => rfl
  | cons item items ih =>
    rw [List.length_cons] at hroom
    have hnext : t.nextIndex.toNat = t.globalIndex.toNat + 1 := by
      rw [nextIndex, UInt64.toNat_add, UInt64.toNat_one, Nat.mod_eq_of_lt (by omega)]
    have hput : (t.put item.1 item.2 none).globalIndex.toNat = t.globalIndex.toNat + 1 := hnext
    rw [assigned, List.map_cons, ih _ (by rw [hput]; omega), hput, List.length_cons,
      List.range'_succ, hnext]

/-- The version an item leaves is the index it was given, unless its key is written again. -/
theorem modifyIndex_mem_assigned (t : KVTable) {items : List (Σ _ : GoString, GoString)}
    {k : GoString} (hk : k ∈ items.map Sigma.fst) {e : KVEntry}
    (he : (t.putList items).data.lookup k = some e) : (k, e.modifyIndex) ∈ t.assigned items := by
  induction items generalizing t with
  | nil => cases hk
  | cons item items ih =>
    rw [putList_cons] at he
    rw [assigned, List.mem_cons]
    by_cases hmem : k ∈ items.map Sigma.fst
    · exact Or.inr (ih _ hmem he)
    · have heq : k = item.1 := by
        simpa only [List.map_cons, List.mem_cons, hmem, or_false] using hk
      rw [lookup_putList_of_notMem _ hmem, lookup_put, if_pos heq] at he
      cases he
      rw [newEntry_modifyIndex, heq]
      exact Or.inl rfl

end KVTable

namespace KVOp

/-- The indices an operation hands out. -/
def assigned (t : KVTable) (op : KVOp) : List (GoString × UInt64) :=
  match op.check t with
  | some _ => []
  | none => t.assigned op.items

theorem update_globalIndex (t : KVTable) (op : KVOp) :
    (op.update t).globalIndex = t.globalIndex + UInt64.ofNat op.items.length := by
  cases op.updates t with
  | put key value flags hitems hkeys htable =>
    rw [htable, hitems]
    rfl
  | putList hnodup hkeys htable => rw [htable, t.putList_globalIndex]
  | erase hitems htable =>
    rw [htable, hitems]
    exact (UInt64.add_zero _).symm

/-- An entry left under one of the operation's keys has a version it handed out. -/
theorem modifyIndex_of_update (t : KVTable) (op : KVOp) {k : GoString} (hk : k ∈ op.keys)
    {e : KVEntry} (he : (op.update t).data.lookup k = some e) :
    (k, e.modifyIndex) ∈ t.assigned op.items := by
  cases op.updates t with
  | put key value flags hitems hkeys htable =>
    rw [hkeys, List.mem_singleton] at hk
    rw [htable, KVTable.lookup_put, if_pos hk] at he
    cases he
    rw [hitems, KVTable.newEntry_modifyIndex, hk]
    exact List.mem_singleton_self _
  | putList hnodup hkeys htable =>
    rw [hkeys] at hk
    rw [htable] at he
    exact t.modifyIndex_mem_assigned hk he
  | erase hitems htable =>
    rw [htable, KVTable.lookup_eraseAll, if_pos hk] at he
    cases he

end KVOp

/-! ### Lives -/

inductive Life where
  | op (o : KVOp)
  /-- `keys` is the order in which the engine lists its keys. -/
  | restart (keys : (m : GoMap GoString Bytes) → m.Order)

/-- One event of a life, answered by the indices it hands out. -/
def lifeStep (kv : KVStore) : Life → KVStore × List (GoString × UInt64)
  | .op o => ((o.apply kv).1, o.assigned kv.toKVTable)
  | .restart keys =>
    match kv.engine with
    | some m => (.newWithPersistence m (keys m.kvData), [])
    | none => (.new, [])

def lifeMachine : Machine KVStore Life (List (GoString × UInt64)) := ⟨lifeStep⟩

/-- The counter has room for the operation, and a restart finds the newest
index on a live entry. -/
def KeepsCounter (kv : KVStore) : Life → Prop
  | .op o => kv.globalIndex.toNat + (o.assigned kv.toKVTable).length < 2 ^ 64
  | .restart _ =>
    kv.globalIndex = 0 ∨ ∃ k e, kv.data.lookup k = some e ∧ e.modifyIndex = kv.globalIndex

/-- An operation leaves the key's entry as it is; a restart is no operation. -/
def Untouched (k : GoString) (kv : KVStore) : Life → Prop
  | .op o => (o.apply kv).1.data.lookup k = kv.data.lookup k
  | .restart _ => True

namespace KVStore

/-- The version of a key, if it is there. -/
def version (kv : KVStore) (k : GoString) : Option UInt64 :=
  (kv.data.lookup k).map KVEntry.modifyIndex

/-- The engine holds the entries, and versions lie between 1 and the counter. -/
structure Sound (kv : KVStore) : Prop where
  mirrors : kv.Mirrors
  bounded : ∀ k i, kv.version k = some i → 0 < i.toNat ∧ i.toNat ≤ kv.globalIndex.toNat

theorem version_of_stored {record : Option Bytes} {entry : Option KVEntry}
    (h : Stored record entry) :
    (record.map loadEntry).map KVEntry.modifyIndex = entry.map KVEntry.modifyIndex := by
  rcases h with h | h
  · rw [h]
  · cases entry with
    | none => rw [h]; rfl
    | some e => rw [h, Option.map_some, Option.map_some, loadEntry_marshal]; rfl

theorem globalIndex_newWithPersistence {m : Engine} (hm : m.fault = none)
    (keys : m.kvData.Order) :
    (newWithPersistence m keys).globalIndex =
      maxIndex (keys.list.map fun e => ⟨e.1, loadEntry e.2⟩) := by
  rw [newWithPersistence, loadFromPersistence]
  split
  · rename_i h
    rw [hm] at h
    cases h
  · rfl

/-- A restart that finds the newest index keeps the counter and every version. -/
theorem Sound.restart {kv : KVStore} (h : kv.Sound) {keys : (m : GoMap GoString Bytes) → m.Order}
    (hk : KeepsCounter kv (.restart keys)) :
    (lifeStep kv (.restart keys)).1.Sound ∧
      (lifeStep kv (.restart keys)).1.globalIndex = kv.globalIndex ∧
      ∀ k, (lifeStep kv (.restart keys)).1.version k = kv.version k := by
  obtain ⟨m, hm, hfault, hstored⟩ := h.mirrors
  have hstep : (lifeStep kv (.restart keys)).1 = newWithPersistence m (keys m.kvData) := by
    simp only [lifeStep, hm]
  rw [hstep]
  have hload (k : GoString) :
      ((m.kvData.lookup k).map loadEntry).map KVEntry.modifyIndex = kv.version k :=
    version_of_stored (hstored k)
  have hversion (k : GoString) :
      (newWithPersistence m (keys m.kvData)).version k = kv.version k := by
    rw [version, data_newWithPersistence hfault, GoMap.lookup_mapVal, hload]
  have hcounter : (newWithPersistence m (keys m.kvData)).globalIndex = kv.globalIndex := by
    rw [globalIndex_newWithPersistence hfault]
    refine greatest_eq (fun e he => ?_) ?_
    · obtain ⟨⟨k, r⟩, hr, rfl⟩ := List.mem_map.mp he
      have hv := hload k
      rw [((keys m.kvData).mem_list_iff k r).mp hr] at hv
      exact (h.bounded k _ hv.symm).2
    · rcases hk with h0 | ⟨k, e, he, hg⟩
      · exact Or.inl h0
      · have hv := hload k
        rw [version, he, Option.map_some, hg] at hv
        obtain ⟨e', he', hi⟩ := Option.map_eq_some_iff.mp hv
        obtain ⟨r, hr, rfl⟩ := Option.map_eq_some_iff.mp he'
        exact Or.inr ⟨⟨k, loadEntry r⟩,
          List.mem_map.mpr ⟨⟨k, r⟩, ((keys m.kvData).mem_list_iff k r).mpr hr, rfl⟩, hi⟩
  refine ⟨⟨mirrors_newWithPersistence hfault _, fun k i hi => ?_⟩, hcounter, hversion⟩
  rw [hcounter]
  exact h.bounded k i (hversion k ▸ hi)

/-- The indices of an operation are new, distinct and at most the counter it leaves. -/
structure Fresh (g g' : UInt64) (l : List (GoString × UInt64)) : Prop where
  le : g.toNat ≤ g'.toNat
  mem : ∀ p ∈ l, g.toNat < p.2.toNat ∧ p.2.toNat ≤ g'.toNat
  nodup : (l.map fun p => p.2.toNat).Nodup

theorem Fresh.nil (g : UInt64) : Fresh g g [] :=
  ⟨Nat.le_refl _, fun _ hp => absurd hp List.not_mem_nil, List.nodup_nil⟩

theorem fresh_assigned (t : KVTable) (items : List (Σ _ : GoString, GoString))
    (hroom : t.globalIndex.toNat + items.length < 2 ^ 64) :
    Fresh t.globalIndex (t.globalIndex + UInt64.ofNat items.length) (t.assigned items) := by
  have hmap := t.map_toNat_assigned items hroom
  have hg : (t.globalIndex + UInt64.ofNat items.length).toNat =
      t.globalIndex.toNat + items.length := by
    rw [UInt64.toNat_add, UInt64.toNat_ofNat_of_lt' (show items.length < UInt64.size by
      rw [UInt64.size]; omega), Nat.mod_eq_of_lt hroom]
  refine ⟨by omega, fun p hp => ?_, ?_⟩
  · have hmem : p.2.toNat ∈ List.range' (t.globalIndex.toNat + 1) items.length := by
      rw [← hmap]
      exact List.mem_map_of_mem hp
    rw [List.mem_range'_1] at hmem
    omega
  · rw [hmap]
    exact List.nodup_range'

/-- An operation hands out new indices, and changes a key's entry only to one
with a new index, or to none. -/
theorem Sound.op {kv : KVStore} (h : kv.Sound) {o : KVOp} (hk : KeepsCounter kv (.op o)) :
    (o.apply kv).1.Sound ∧
      Fresh kv.globalIndex (o.apply kv).1.globalIndex (o.assigned kv.toKVTable) ∧
      ∀ k, (o.apply kv).1.data.lookup k = kv.data.lookup k ∨
        ∀ i, (o.apply kv).1.version k = some i → kv.globalIndex.toNat < i.toNat := by
  simp only [KeepsCounter, KVOp.assigned] at hk
  simp only [KVOp.assigned]
  cases hc : o.check kv.toKVTable with
  | some err =>
    rw [KVOp.apply_of_check_some hc]
    exact ⟨h, .nil _, fun k => Or.inl rfl⟩
  | none =>
    rw [hc] at hk
    simp only [KVTable.length_assigned] at hk
    have ht : (o.apply kv).1.toKVTable = o.update kv.toKVTable := KVOp.apply_toKVTable hc
    have hfresh := fresh_assigned kv.toKVTable o.items hk
    rw [← KVOp.update_globalIndex, ← ht] at hfresh
    have hnew (k : GoString) : (o.apply kv).1.data.lookup k = kv.data.lookup k ∨
        ∀ i, (o.apply kv).1.version k = some i →
          kv.globalIndex.toNat < i.toNat ∧ i.toNat ≤ (o.apply kv).1.globalIndex.toNat := by
      by_cases hmem : k ∈ o.keys
      · refine Or.inr fun i hi => ?_
        obtain ⟨e, he, rfl⟩ := Option.map_eq_some_iff.mp hi
        rw [ht] at he
        exact hfresh.mem _ (o.modifyIndex_of_update _ hmem he)
      · rw [ht]
        exact Or.inl (o.lookup_update_of_notMem _ hmem)
    refine ⟨⟨h.mirrors.step o, fun k i hi => ?_⟩, hfresh, fun k => (hnew k).imp_right
      fun hi i hv => (hi i hv).1⟩
    rcases hnew k with heq | hi'
    · have := h.bounded k i (by rw [version, ← heq]; exact hi)
      exact ⟨this.1, this.2.trans hfresh.le⟩
    · have := hi' i hi
      exact ⟨by omega, this.2⟩

/-- One event of a life: soundness is kept, the counter does not go back, the
indices handed out are new, and a changed version is a new one. -/
theorem Sound.step {kv : KVStore} (h : kv.Sound) {i : Life} (hk : KeepsCounter kv i) :
    (lifeStep kv i).1.Sound ∧
      Fresh kv.globalIndex (lifeStep kv i).1.globalIndex (lifeStep kv i).2 ∧
      ∀ k, ((lifeStep kv i).1.version k = kv.version k ∧ Untouched k kv i) ∨
        ∀ n, (lifeStep kv i).1.version k = some n → kv.globalIndex.toNat < n.toNat := by
  cases i with
  | op o =>
    obtain ⟨h1, h2, h3⟩ := h.op hk
    refine ⟨h1, h2, fun k => (h3 k).imp_left fun heq => ⟨?_, heq⟩⟩
    exact congrArg (Option.map KVEntry.modifyIndex) heq
  | restart keys =>
    obtain ⟨h1, h2, h3⟩ := h.restart hk
    have hans : (lifeStep kv (.restart keys)).2 = [] := by
      simp only [lifeStep]
      split <;> rfl
    rw [hans, h2]
    exact ⟨h1, .nil _, fun k => Or.inl ⟨h3 k, trivial⟩⟩

/-! ### Whole lives -/

theorem Sound.run {kv : KVStore} (h : kv.Sound) {life : List Life}
    (hk : lifeMachine.Along KeepsCounter kv life) : (lifeMachine.run kv life).1.Sound :=
  lifeMachine.invariant (fun _ _ h hk => (h.step hk).1) h hk

/-- All indices of a life are distinct and above the counter it starts from. -/
theorem Sound.history {kv : KVStore} (h : kv.Sound) {life : List Life}
    (hk : lifeMachine.Along KeepsCounter kv life) :
    ((lifeMachine.run kv life).2.flatten.map fun p => p.2.toNat).Nodup ∧
      ∀ p ∈ (lifeMachine.run kv life).2.flatten, kv.globalIndex.toNat < p.2.toNat := by
  induction life generalizing kv with
  | nil => exact ⟨List.nodup_nil, fun p hp => nomatch hp⟩
  | cons i life ih =>
    obtain ⟨h1, h2, -⟩ := h.step hk.1
    obtain ⟨hnodup, habove⟩ := ih h1 hk.2
    have habove' : ∀ p ∈ (lifeMachine.run (lifeStep kv i).1 life).2.flatten,
        (lifeStep kv i).1.globalIndex.toNat < p.2.toNat := habove
    rw [Machine.run_cons, List.flatten_cons, List.map_append]
    refine ⟨List.nodup_append.mpr ⟨h2.nodup, hnodup, fun a ha b hb => ?_⟩, fun p hp => ?_⟩
    · obtain ⟨p, hp, rfl⟩ := List.mem_map.mp ha
      obtain ⟨q, hq, rfl⟩ := List.mem_map.mp hb
      have := (h2.mem p hp).2
      have := habove' q hq
      omega
    · rcases List.mem_append.mp hp with hp | hp
      · exact (h2.mem p hp).1
      · have := habove' p hp
        have := h2.le
        omega

/-- A version that is not above the counter and not there does not appear again. -/
theorem Sound.version_ne {kv : KVStore} (h : kv.Sound) {life : List Life}
    (hk : lifeMachine.Along KeepsCounter kv life) {k : GoString} {n : UInt64}
    (hn : n.toNat ≤ kv.globalIndex.toNat) (hne : kv.version k ≠ some n) :
    (lifeMachine.run kv life).1.version k ≠ some n := by
  induction life generalizing kv with
  | nil => exact hne
  | cons i life ih =>
    obtain ⟨h1, h2, h3⟩ := h.step hk.1
    refine ih h1 hk.2 (hn.trans h2.le) fun heq => ?_
    rcases h3 k with ⟨hv, -⟩ | hv
    · exact hne (hv ▸ heq)
    · have := hv n heq
      omega

/-- A version that is still there belongs to a key no operation has touched. -/
theorem Sound.untouched {kv : KVStore} (h : kv.Sound) {life : List Life}
    (hk : lifeMachine.Along KeepsCounter kv life) {k : GoString} {n : UInt64}
    (hv : kv.version k = some n) (hend : (lifeMachine.run kv life).1.version k = some n) :
    lifeMachine.Along (Untouched k) kv life := by
  induction life generalizing kv with
  | nil => trivial
  | cons i life ih =>
    obtain ⟨h1, h2, h3⟩ := h.step hk.1
    have hn := (h.bounded k n hv).2
    have hnext : (lifeStep kv i).1.version k = some n := by
      by_contra hne
      exact h1.version_ne hk.2 (hn.trans h2.le) hne hend
    rcases h3 k with ⟨-, hu⟩ | hnew
    · exact ⟨hu, ih h1 hk.2 hnext hend⟩
    · have := hnew n hnext
      omega

theorem sound_new (keys : Engine.new.kvData.Order) : (newWithPersistence .new keys).Sound := by
  refine ⟨mirrors_newWithPersistence rfl keys, fun k i hi => ?_⟩
  rw [version, data_newWithPersistence rfl, GoMap.lookup_mapVal] at hi
  cases hi

theorem version_of_setCAS {kv : KVStore} {key value : GoString} {n : UInt64} (hn : n ≠ 0)
    (h : ((KVOp.setCAS key value n).apply kv).2.err = none) : kv.version key = some n := by
  cases hc : KVOp.check kv.toKVTable (.setCAS key value n) with
  | some err =>
    rw [KVOp.apply_of_check_some hc] at h
    cases h
  | none =>
    simp only [KVOp.check, KVTable.checkSetCAS, hn, ite_false] at hc
    split at hc
    · rename_i e he
      split_ifs at hc with hne
      rw [version, he, Option.map_some]
      exact congrArg some (not_not.mp hne)
    · cases hc

/-- Over a life whose restarts all find the newest index on a live entry, no index
is handed out twice, and a compare-and-swap against an index read earlier
succeeds only if no operation has touched the key since. -/
theorem cas_free_of_aba (keys : Engine.new.kvData.Order) (life : List Life)
    (hk : lifeMachine.Along KeepsCounter (newWithPersistence .new keys) life) :
    (lifeMachine.run (newWithPersistence .new keys) life).2.flatten.Nodup ∧
      ∀ before after, life = before ++ after → ∀ key value n,
        (lifeMachine.run (newWithPersistence .new keys) before).1.version key = some n →
        ((KVOp.setCAS key value n).apply
          (lifeMachine.run (newWithPersistence .new keys) life).1).2.err = none →
        lifeMachine.Along (Untouched key)
          (lifeMachine.run (newWithPersistence .new keys) before).1 after := by
  have h0 := sound_new keys
  refine ⟨((h0.history hk).1).of_map _, ?_⟩
  rintro before after rfl key value n hread hcas
  rw [Machine.along_append] at hk
  have hmid := h0.run hk.1
  have hn : n ≠ 0 := by
    rintro rfl
    exact absurd (hmid.bounded key 0 hread).1 (by decide)
  have hend := version_of_setCAS hn hcas
  rw [Machine.run_append] at hend
  exact hmid.untouched hk.2 hread hend

/-- A new store over a new engine. -/
def fresh : KVStore := newWithPersistence .new ⟨[], rfl⟩

/-- Two writes of one key with a restart between them. -/
theorem cas_free_of_aba_two_writes :
    (lifeMachine.run fresh
      [.op (.set (str "k") (str "a")), .restart GoMap.sorted, .op (.set (str "k") (str "b"))]).2 =
        [[(str "k", 1)], [], [(str "k", 2)]] ∧
      (lifeMachine.run fresh [.op (.set (str "k") (str "a")), .restart GoMap.sorted,
        .op (.set (str "k") (str "b"))]).2.flatten.Nodup := by
  refine ⟨by decide, (cas_free_of_aba ⟨[], rfl⟩ _ ?_).1⟩
  refine ⟨by simp only [KeepsCounter]; decide, Or.inr ⟨str "k", ⟨str "a", 1, 1, 0⟩, ?_, ?_⟩,
    by simp only [KeepsCounter]; decide, trivial⟩
  · decide
  · decide

/-- Key `k` is deleted, the store restarts, `k` is created anew: it gets the index
it had, and the compare-and-swap against the old reading succeeds. -/
theorem aba_after_restart :
    (lifeMachine.run fresh [.op (.set (str "k") (str "a"))]).1.version (str "k") = some 1 ∧
      (lifeMachine.run fresh [.op (.set (str "k") (str "a")), .op (.delete (str "k")),
        .restart GoMap.sorted, .op (.set (str "k") (str "b"))]).2.flatten =
          [(str "k", 1), (str "k", 1)] ∧
      ((KVOp.setCAS (str "k") (str "c") 1).apply
        (lifeMachine.run fresh [.op (.set (str "k") (str "a")), .op (.delete (str "k")),
          .restart GoMap.sorted, .op (.set (str "k") (str "b"))]).1).2 = ⟨2, ∅, none⟩ := by
  refine ⟨?_, ?_, ?_⟩ <;> decide

end KVStore

end Konsul
