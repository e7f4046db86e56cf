import Konsul.Raft.Slots
import Konsul.Store.LocalWrites

/-!
# Compare-and-swap on the key-value store

A store without an engine, from empty on. As long as its counter has room, every
entry is numbered by it, no two keys share a version, and a version is spent by
the one compare-and-swap that replaces it.
-/

namespace Konsul

open GoLib

/-! ### Where an entry's creation index comes from -/

namespace KVTable

variable (t : KVTable)

/-- An entry carries on the creation index of the one it replaces, or begins with its
own version. -/
def Continues (old : Option KVEntry) (entry : KVEntry) : Prop :=
  match old with
  | some oldEntry => entry.createIndex = oldEntry.createIndex
  | none => entry.createIndex = entry.modifyIndex

theorem continues_newEntry (key value : GoString) (flags : Option UInt64) :
    Continues (t.data.lookup key) (t.newEntry key value flags) := by
  unfold newEntry
  split
  · next old hold =>
    rw [hold]
    rfl
  · next hnone =>
    rw [hnone]
    rfl

theorem continues_putList {items : List (Σ _ : GoString, GoString)}
    (hnodup : (items.map Sigma.fst).Nodup) {k : GoString} (hk : k ∈ items.map Sigma.fst)
    {entry : KVEntry} (he : (t.putList items).data.lookup k = some entry) :
    Continues (t.data.lookup k) entry := by
  induction items generalizing t with
  | nil => cases hk
  | cons item items ih =>
    rw [List.map_cons, List.nodup_cons] at hnodup
    rw [putList_cons] at he
    by_cases hmem : k ∈ items.map Sigma.fst
    · have hne : k ≠ item.1 := fun heq => hnodup.1 (heq ▸ hmem)
      have htail := ih _ hnodup.2 hmem he
      rwa [lookup_put, if_neg hne] at htail
    · have heq : k = item.1 := by
        simpa only [List.map_cons, List.mem_cons, hmem, or_false] using hk
      rw [lookup_putList_of_notMem _ hmem, lookup_put, if_pos heq] at he
      cases he
      rw [heq]
      exact t.continues_newEntry _ _ _

end KVTable

namespace KVOp

theorem continues_update (t : KVTable) (op : KVOp) {k : GoString} (hk : k ∈ op.keys)
    {entry : KVEntry} (he : (op.update t).data.lookup k = some entry) :
    KVTable.Continues (t.data.lookup k) entry := by
  cases op.updates t with
  | put key value flags hitems hkeys htable =>
    rw [hkeys, List.mem_singleton] at hk
    rw [htable, KVTable.lookup_put, if_pos hk] at he
    cases he
    rw [hk]
    exact t.continues_newEntry key value flags
  | putList hnodup hkeys htable =>
    rw [hkeys] at hk
    rw [htable] at he
    exact t.continues_putList hnodup hk he
  | erase hitems htable =>
    rw [htable, KVTable.lookup_eraseAll, if_pos hk] at he
    cases he

/-- A compare-and-swap of a key against an index. -/
def Expects (k : GoString) (n : UInt64) : KVOp → Prop
  | setCAS key _ expectedIndex => key = k ∧ expectedIndex = n
  | deleteCAS key expectedIndex => key = k ∧ expectedIndex = n
  | batchSetCAS items expectedIndices _ _ _ => k ∈ items ∧ KVTable.expected expectedIndices k = n
  | batchDeleteCAS keys expectedIndices _ => k ∈ keys ∧ KVTable.expected expectedIndices k = n
  | _ => False

theorem mem_keys_of_expects {op : KVOp} {k : GoString} {n : UInt64} (h : op.Expects k n) :
    k ∈ op.keys := by
  cases op with
  | setCAS key value expectedIndex => exact List.mem_singleton.mpr h.1.symm
  | deleteCAS key expectedIndex => exact List.mem_singleton.mpr h.1.symm
  | batchSetCAS items expectedIndices check range watch => exact (range.mem_keys_iff k).mpr h.1
  | batchDeleteCAS keys expectedIndices watch => exact h.1
  | _ => exact h.elim

/-- A compare-and-swap against an index passes its check only where the key has it. -/
theorem found_of_expects {t : KVTable} {op : KVOp} {k : GoString} {n : UInt64} (hn : n ≠ 0)
    (h : op.Expects k n) (hcheck : op.check t = none) :
    ∃ entry, t.data.lookup k = some entry ∧ entry.modifyIndex = n := by
  have hset (h : t.checkSetCAS k n = none) :
      ∃ entry, t.data.lookup k = some entry ∧ entry.modifyIndex = n := by
    unfold KVTable.checkSetCAS at h
    split at h
    · next entry hentry =>
      rw [if_neg hn] at h
      split_ifs at h with hne
      exact ⟨entry, hentry, not_not.mp hne⟩
    · cases (if_neg hn).symm.trans h
  have hdelete (h : t.checkDeleteCAS k n = none) :
      ∃ entry, t.data.lookup k = some entry ∧ entry.modifyIndex = n := by
    unfold KVTable.checkDeleteCAS at h
    split at h
    · cases h
    · next entry hentry =>
      split_ifs at h with hne
      exact ⟨entry, hentry, not_not.mp hne⟩
  cases op with
  | setCAS key value expectedIndex =>
    obtain ⟨rfl, rfl⟩ := h
    exact hset hcheck
  | deleteCAS key expectedIndex =>
    obtain ⟨rfl, rfl⟩ := h
    exact hdelete hcheck
  | batchSetCAS items expectedIndices check range watch =>
    obtain ⟨hmem, rfl⟩ := h
    obtain ⟨value, hvalue⟩ := Finmap.mem_iff.mp hmem
    have hitem := (check.mem_list_iff k value).mpr hvalue
    exact hset (List.findSome?_eq_none_iff.mp hcheck _ hitem)
  | batchDeleteCAS keys expectedIndices watch =>
    obtain ⟨hmem, rfl⟩ := h
    exact hdelete (List.findSome?_eq_none_iff.mp hcheck _ hmem)
  | _ => exact h.elim

end KVOp

namespace KVStore

/-! ### Numbered entries -/

structure Numbered (kv : KVStore) : Prop where
  ordered : ∀ k entry, kv.data.lookup k = some entry →
    1 ≤ entry.createIndex.toNat ∧ entry.createIndex.toNat ≤ entry.modifyIndex.toNat ∧
      entry.modifyIndex.toNat ≤ kv.globalIndex.toNat
  distinct : ∀ k k' entry entry', kv.data.lookup k = some entry → kv.data.lookup k' = some entry' →
    entry.modifyIndex = entry'.modifyIndex → k = k'

theorem numbered_new : KVStore.new.Numbered :=
  ⟨fun _ _ h => (nomatch h), fun _ _ _ _ h => (nomatch h)⟩

/-- The counter has room for what the operation writes. -/
def Room (kv : KVStore) (op : KVOp) : Prop :=
  kv.globalIndex.toNat + (op.assigned kv.toKVTable).length < 2 ^ 64

variable {kv : KVStore}

theorem fresh_update {op : KVOp} (hc : op.check kv.toKVTable = none) (hroom : kv.Room op) :
    Fresh kv.globalIndex (op.apply kv).1.globalIndex (kv.toKVTable.assigned op.items) := by
  rw [Room, KVOp.assigned, hc, KVTable.length_assigned] at hroom
  have hfresh := fresh_assigned kv.toKVTable op.items hroom
  have htable := congrArg KVTable.globalIndex (KVOp.apply_toKVTable hc)
  rwa [← KVOp.update_globalIndex, ← htable] at hfresh

theorem Numbered.step (h : kv.Numbered) {op : KVOp} (hroom : kv.Room op) :
    (op.apply kv).1.Numbered := by
  cases hc : op.check kv.toKVTable with
  | some err =>
    rw [KVOp.apply_of_check_some hc]
    exact h
  | none =>
    have hfresh := fresh_update hc hroom
    have htable : (op.apply kv).1.toKVTable = op.update kv.toKVTable := KVOp.apply_toKVTable hc
    -- an entry afterwards is one from before, or was written under a new version
    have hcases (k : GoString) (entry : KVEntry)
        (he : (op.apply kv).1.data.lookup k = some entry) :
        kv.data.lookup k = some entry ∨
          (k, entry.modifyIndex) ∈ kv.toKVTable.assigned op.items ∧
            KVTable.Continues (kv.data.lookup k) entry := by
      rw [htable] at he
      by_cases hk : k ∈ op.keys
      · exact .inr ⟨op.modifyIndex_of_update _ hk he, op.continues_update _ hk he⟩
      · exact .inl ((op.lookup_update_of_notMem _ hk).symm.trans he)
    refine ⟨fun k entry he => ?_, fun k k' entry entry' he he' heq => ?_⟩
    · rcases hcases k entry he with hold | ⟨hnew, hcontinues⟩
      · have hord := h.ordered k entry hold
        have hle := hfresh.le
        omega
      · have hmem : kv.globalIndex.toNat < entry.modifyIndex.toNat ∧
            entry.modifyIndex.toNat ≤ (op.apply kv).1.globalIndex.toNat := hfresh.mem _ hnew
        cases hl : kv.data.lookup k with
        | none =>
          rw [hl] at hcontinues
          have hcreate : entry.createIndex = entry.modifyIndex := hcontinues
          rw [hcreate]
          omega
        | some old =>
          rw [hl] at hcontinues
          have hcreate : entry.createIndex = old.createIndex := hcontinues
          have hord := h.ordered k old hl
          rw [hcreate]
          omega
    · rcases hcases k entry he with hold | ⟨hnew, -⟩
      · rcases hcases k' entry' he' with hold' | ⟨hnew', -⟩
        · exact h.distinct k k' entry entry' hold hold' heq
        · have hord := h.ordered k entry hold
          have hmem := hfresh.mem _ hnew'
          rw [heq] at hord
          simp only at hmem
          omega
      · rcases hcases k' entry' he' with hold' | ⟨hnew', -⟩
        · have hord := h.ordered k' entry' hold'
          have hmem := hfresh.mem _ hnew
          rw [heq] at hmem
          simp only at hmem
          omega
        · have hpair := List.inj_on_of_nodup_map hfresh.nodup hnew hnew'
            (congrArg UInt64.toNat heq)
          exact congrArg Prod.fst hpair

/-! ### Versions over a run -/

/-- The store as a replica without services. -/
def solo (kv : KVStore) : Replica := ⟨kv.toKVTable, ⟨∅, 0⟩⟩

def versions : Versions KVStore GoString Konsul.Stored := Replica.versions.comap solo Slot.key

theorem advance (kv : KVStore) (op : KVOp) (hroom : kv.Room op) :
    versions.Advance kv (kvMachine.step kv op).1 (op.written kv.toKVTable) := by
  refine Versions.Advance.comap (fun _ _ h => Slot.key.inj h) ?_
  have hsolo : solo (kvMachine.step kv op).1 = { solo kv with kv := op.after kv.toKVTable } :=
    congrArg (fun t => (⟨t, ⟨∅, 0⟩⟩ : Replica)) (op.apply_after kv)
  rw [hsolo]
  exact KVOp.advance (solo kv) op hroom

theorem stored_entry {k : GoString} {entry : KVEntry} (h : kv.data.lookup k = some entry) :
    versions.stored kv k = some (.entry entry) := congrArg (Option.map Stored.entry) h

theorem lookup_of_stored {k : GoString} {entry : KVEntry}
    (h : versions.stored kv k = some (.entry entry)) : kv.data.lookup k = some entry := by
  obtain ⟨entry', he, heq⟩ := Option.map_eq_some_iff.mp h
  cases heq
  exact he

theorem spent_of_expects (h : kv.Numbered) {op : KVOp} (hroom : kv.Room op) {k : GoString}
    {n : UInt64} (hn : n ≠ 0) (hexpects : op.Expects k n)
    (hcheck : op.check kv.toKVTable = none) :
    n.toNat ≤ versions.counter kv k ∧
      ∀ v, versions.stored (kvMachine.step kv op).1 k = some v → versions.version v ≠ n.toNat := by
  obtain ⟨entry, hentry, rfl⟩ := KVOp.found_of_expects hn hexpects hcheck
  have hle : entry.modifyIndex.toNat ≤ kv.globalIndex.toNat := (h.ordered k entry hentry).2.2
  refine ⟨hle, fun v hv => ?_⟩
  have hk : k ∈ op.written kv.toKVTable := by
    rw [KVOp.written, hcheck]
    exact KVOp.mem_keys_of_expects hexpects
  have hnew : kv.globalIndex.toNat < versions.version v := ((kv.advance op hroom).fresh k v hk hv).1
  omega

/-- The store a run of operations reaches from empty. -/
def reached (ops : List KVOp) : KVStore := (kvMachine.run .new ops).1

theorem reached_append (ops ops' : List KVOp) :
    reached (ops ++ ops') = (kvMachine.run (reached ops) ops').1 := by
  rw [reached, Machine.run_append, ← reached]

theorem reached_middle (before after : List KVOp) (op : KVOp) :
    reached (before ++ op :: after) = (kvMachine.run (op.apply (reached before)).1 after).1 :=
  kvMachine.run_middle .new before after op

theorem reached_snoc (ops : List KVOp) (op : KVOp) :
    reached (ops ++ [op]) = (op.apply (reached ops)).1 := by
  rw [reached, Machine.run_snoc, ← reached]
  rfl

/-- The number of items a run writes. -/
def writes (ops : List KVOp) : ℕ :=
  kvMachine.total (fun kv op => (op.assigned kv.toKVTable).length) .new ops

/-- What a run from the empty store guarantees a client that compares and swaps. -/
structure CasSafe (ops : List KVOp) : Prop where
  ordered : ∀ k entry, (reached ops).data.lookup k = some entry →
    1 ≤ entry.createIndex ∧ entry.createIndex ≤ entry.modifyIndex ∧
      entry.modifyIndex ≤ (reached ops).globalIndex
  distinct : ∀ k k' entry entry', (reached ops).data.lookup k = some entry →
    (reached ops).data.lookup k' = some entry' → entry.modifyIndex = entry'.modifyIndex → k = k'
  monotone : ∀ before op after, ops = before ++ op :: after →
    (reached before).globalIndex ≤ (reached (before ++ [op])).globalIndex
  failed : ∀ before op after, ops = before ++ op :: after →
    (op.apply (reached before)).2.err ≠ none → (op.apply (reached before)).1 = reached before
  update : ∀ before op after, ops = before ++ op :: after → ∀ k entry entry',
    (reached before).data.lookup k = some entry →
    (reached (before ++ [op])).data.lookup k = some entry' → entry'.createIndex = entry.createIndex
  once : ∀ first op between op' rest, ops = first ++ op :: (between ++ op' :: rest) →
    ∀ k n, n ≠ 0 → op.Expects k n → op'.Expects k n → (op.apply (reached first)).2.err = none →
    (op'.apply (reached (first ++ op :: between))).2.err ≠ none
  replaces : ∀ before op rest, ops = before ++ op :: rest → ∀ k n, n ≠ 0 → op.Expects k n →
    (op.apply (reached before)).2.err = none →
    ∃ first write between entry, before = first ++ write :: between ∧
      (k, n) ∈ write.assigned (reached first).toKVTable ∧ entry.modifyIndex = n ∧
      ∀ n', (reached (first ++ write :: between.take n')).data.lookup k = some entry

/-! ### Runs with room -/

theorem check_of_err_none {op : KVOp} (h : (op.apply kv).2.err = none) :
    op.check kv.toKVTable = none := by
  cases hc : op.check kv.toKVTable with
  | none => rfl
  | some err =>
    rw [KVOp.apply_of_check_some hc] at h
    cases h

theorem globalIndex_apply {op : KVOp} (hroom : kv.Room op) :
    (op.apply kv).1.globalIndex.toNat =
      kv.globalIndex.toNat + (op.assigned kv.toKVTable).length := by
  have hroom : kv.globalIndex.toNat + (op.assigned kv.toKVTable).length < 2 ^ 64 := hroom
  cases hc : op.check kv.toKVTable with
  | some err =>
    rw [KVOp.apply_of_check_some hc, KVOp.assigned, hc]
    rfl
  | none =>
    have hindex := congrArg KVTable.globalIndex (KVOp.apply_toKVTable hc)
    rw [KVOp.update_globalIndex] at hindex
    rw [KVOp.assigned, hc, KVTable.length_assigned] at hroom ⊢
    rw [hindex, UInt64.toNat_add, UInt64.toNat_ofNat_of_lt' (by rw [UInt64.size]; omega),
      Nat.mod_eq_of_lt hroom]

theorem lookup_of_notMem_written {op : KVOp} {k : GoString} (hk : k ∉ op.written kv.toKVTable) :
    (op.apply kv).1.data.lookup k = kv.data.lookup k := by
  cases hc : op.check kv.toKVTable with
  | some err => rw [KVOp.apply_of_check_some hc]
  | none =>
    rw [KVOp.written, hc] at hk
    have hdata := congrArg (fun t : KVTable => t.data.lookup k) (KVOp.apply_toKVTable hc)
    exact hdata.trans (op.lookup_update_of_notMem _ hk)

theorem lookup_run_of_not_written {ops : List KVOp} {k : GoString}
    (h : kvMachine.Along (fun kv op => k ∉ op.written kv.toKVTable) kv ops) :
    (kvMachine.run kv ops).1.data.lookup k = kv.data.lookup k := by
  induction ops generalizing kv with
  | nil => rfl
  | cons op ops ih => exact (ih h.2).trans (lookup_of_notMem_written h.1)

theorem room_of_writes {ops : List KVOp} (h : writes ops < 2 ^ 64) :
    kvMachine.Along Room .new ops := by
  have hused : KVStore.new.globalIndex.toNat + writes ops < 2 ^ 64 := by
    rw [show KVStore.new.globalIndex.toNat = 0 from rfl]
    omega
  exact kvMachine.along_of_total (fun kv op hroom => (globalIndex_apply hroom).le) hused

theorem numbered_reached {ops : List KVOp} (h : kvMachine.Along Room .new ops) :
    (reached ops).Numbered :=
  kvMachine.invariant (fun _ _ hnumbered hroom => hnumbered.step hroom) numbered_new h

/-- An entry that is there was written under its version, and left alone since. -/
theorem written_of_lookup {ops : List KVOp} (h : kvMachine.Along Room .new ops) {k : GoString}
    {entry : KVEntry} (hentry : (reached ops).data.lookup k = some entry) :
    ∃ first write between, ops = first ++ write :: between ∧
      (k, entry.modifyIndex) ∈ write.assigned (reached first).toKVTable ∧
      ∀ n, (reached (first ++ write :: between.take n)).data.lookup k = some entry := by
  obtain ⟨first, write, between, rfl, hk, hstored, halong⟩ :=
    Versions.exists_write (fun kv op hroom => kv.advance op hroom) (fun _ => rfl) h
      (stored_entry hentry)
  have hafter : (reached (first ++ [write])).data.lookup k = some entry := lookup_of_stored hstored
  refine ⟨first, write, between, rfl, ?_, fun n => ?_⟩
  · change k ∈ write.written (reached first).toKVTable at hk
    cases hc : write.check (reached first).toKVTable with
    | some err =>
      rw [KVOp.written, hc] at hk
      cases hk
    | none =>
      rw [KVOp.written, hc] at hk
      rw [reached_snoc, KVOp.apply_toKVTable hc] at hafter
      rw [KVOp.assigned, hc]
      exact write.modifyIndex_of_update _ hk hafter
  · have hsplit : first ++ write :: between.take n = (first ++ [write]) ++ between.take n := by simp
    have hhead : kvMachine.Along (fun kv op => k ∉ op.written kv.toKVTable)
        (reached (first ++ [write])) (between.take n) := by
      have halong : kvMachine.Along (fun kv op => k ∉ op.written kv.toKVTable)
          (reached (first ++ [write])) (between.take n ++ between.drop n) := by
        rw [List.take_append_drop]
        exact halong
      exact ((kvMachine.along_append _ _ _ _).mp halong).1
    rw [hsplit, reached_append, lookup_run_of_not_written hhead, hafter]

/-- Every run that writes fewer than 2^64 items is safe for clients that compare and swap. -/
theorem cas_safe (ops : List KVOp) (h : writes ops < 2 ^ 64) : CasSafe ops := by
  have hroom := room_of_writes h
  have hnumbered := numbered_reached hroom
  refine ⟨fun k entry hentry => ?_, hnumbered.distinct, ?_, ?_, ?_, ?_, ?_⟩
  · obtain ⟨hpos, hle, hbound⟩ := hnumbered.ordered k entry hentry
    exact ⟨UInt64.le_iff_toNat_le.mpr hpos, UInt64.le_iff_toNat_le.mpr hle,
      UInt64.le_iff_toNat_le.mpr hbound⟩
  · rintro before op after rfl
    have hop : (reached before).Room op := ((kvMachine.along_middle _ _ _ _ _).mp hroom).2.1
    have hindex := globalIndex_apply hop
    rw [reached_snoc, UInt64.le_iff_toNat_le]
    omega
  · rintro before op after rfl herr
    cases hc : op.check (reached before).toKVTable with
    | some err => rw [KVOp.apply_of_check_some hc]
    | none =>
      -- without an engine nothing can fail after the check
      have hengine : (reached before).engine = none :=
        @Machine.invariant_run _ _ _ kvMachine (fun kv => kv.engine = none)
          (fun _ op hkv => engine_apply hkv op) KVStore.new rfl before
      have hfault : (reached before).fault = none := by
        rw [fault, hengine]
        rfl
      rw [KVOp.apply_err hc, hfault, ite_self] at herr
      exact absurd rfl herr
  · rintro before op after rfl k entry entry' hentry hentry'
    rw [reached_snoc] at hentry'
    by_cases hk : k ∈ op.written (reached before).toKVTable
    · cases hc : op.check (reached before).toKVTable with
      | some err =>
        rw [KVOp.written, hc] at hk
        cases hk
      | none =>
        rw [KVOp.written, hc] at hk
        rw [KVOp.apply_toKVTable hc] at hentry'
        have hcontinues := op.continues_update _ hk hentry'
        rw [hentry] at hcontinues
        exact hcontinues
    · rw [lookup_of_notMem_written hk, hentry] at hentry'
      cases hentry'
      rfl
  · rintro first op between op' rest rfl k n hn hexpects hexpects' herr herr'
    have hcons : first ++ op :: (between ++ op' :: rest) =
        (first ++ op :: between) ++ op' :: rest := by simp
    rw [hcons] at hroom
    have hbegin := ((kvMachine.along_middle _ _ _ _ _).mp hroom).1
    obtain ⟨hfirst, hop, hbetween⟩ := (kvMachine.along_middle _ _ _ _ _).mp hbegin
    have hspent := spent_of_expects (numbered_reached hfirst) hop hn hexpects
      (check_of_err_none herr)
    obtain ⟨entry, hentry, hversion⟩ :=
      KVOp.found_of_expects hn hexpects' (check_of_err_none herr')
    rw [reached_middle] at hentry
    have hgiven : n.toNat ≤ versions.counter (op.apply (reached first)).1 k :=
      hspent.1.trans (((reached first).advance op hop).le k)
    have hne := Versions.version_ne_run (fun kv op hroom => kv.advance op hroom) hbetween hgiven
      hspent.2 _ (stored_entry hentry)
    exact hne (congrArg UInt64.toNat hversion)
  · rintro before op rest rfl k n hn hexpects herr
    obtain ⟨entry, hentry, rfl⟩ := KVOp.found_of_expects hn hexpects (check_of_err_none herr)
    obtain ⟨first, write, between, hsplit, hwrite, hsame⟩ :=
      written_of_lookup ((kvMachine.along_middle _ _ _ _ _).mp hroom).1 hentry
    exact ⟨first, write, between, entry, hsplit, hwrite, rfl, hsame⟩

/-- A key is written, replaced against its version and deleted against the next one. -/
theorem cas_safe_three_ops :
    CasSafe [.set (str "k") (str "a"), .setCAS (str "k") (str "b") 1, .deleteCAS (str "k") 2] :=
  cas_safe _ (by decide)

end KVStore

end Konsul
