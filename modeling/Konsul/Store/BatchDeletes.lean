import Konsul.Store.KVEvents
import Konsul.Store.LocalWrites

/-!
# What the watchers hear of a batch delete

Each of the four batch deletes records the entries it finds in a map and tells the
watchers from that map afterwards. The compare-and-swap ones record a key as often
as the list names it, and the second time there is no entry any more.
-/

namespace Konsul

open GoLib

namespace KVTable

variable (t : KVTable)

/-- A key named twice is remembered with the zero entry. -/
theorem lookup_removeAllCAS_count (keys : List GoString) (k : GoString) :
    (t.removeAllCAS keys).2.lookup k =
      if k ∈ keys then some (if keys.count k = 1 then (t.data.lookup k).getD .zero else .zero)
      else none := by
  suffices ∀ (t : KVTable) (m : GoMap GoString KVEntry),
      (keys.foldl (fun (p : KVTable × GoMap GoString KVEntry) key =>
        (p.1.remove key, p.2.insert key ((p.1.data.lookup key).getD .zero))) (t, m)).2.lookup k =
        if k ∈ keys then some (if keys.count k = 1 then (t.data.lookup k).getD .zero else .zero)
        else m.lookup k by
    rw [removeAllCAS, this t ∅, Finmap.lookup_empty]
  induction keys with
  | nil => exact fun t m => rfl
  | cons key keys ih =>
    intro t m
    rw [List.foldl_cons, ih]
    by_cases hk : k = key
    · subst hk
      by_cases hmem : k ∈ keys
      · have hcount : (k :: keys).count k ≠ 1 := by
          have hpos := List.count_pos_iff.mpr hmem
          rw [List.count_cons_self]
          omega
        simp only [hmem, List.mem_cons_self, ite_true, if_neg hcount, lookup_remove,
          Option.getD_none, ite_self]
      · have hcount : (k :: keys).count k = 1 := by
          rw [List.count_cons_self, List.count_eq_zero_of_not_mem hmem]
        simp only [hmem, List.mem_cons_self, ite_true, if_pos hcount, ite_false,
          Finmap.lookup_insert]
    · have hcount : (key :: keys).count k = keys.count k := List.count_cons_of_ne (Ne.symm hk)
      simp only [List.mem_cons, hk, false_or, hcount, lookup_remove, ite_false,
        GoMap.lookup_insert_ite]

end KVTable

/-- Exactly the keys listed are gone, and watchers were told once of each of them
that was there, with the value it had. -/
structure Reported (keys : List GoString) (kv kv' : KVStore) : Prop where
  removed : ∀ k, kv'.data.lookup k = if k ∈ keys then none else kv.data.lookup k
  told : ∀ log, kv.watchManager = some log → ∃ events,
    kv'.watchManager = some (log ++ events) ∧
      ∀ k, events.filter (fun e => e.key = k) =
        if k ∈ keys then KVStore.deletedEvents k (kv.data.lookup k) else []

namespace KVOp

/-- `BatchDelete` and `BatchDeleteCAS`. -/
def DeletesBatch : KVOp → Prop
  | batchDelete _ _ => True
  | batchDeleteCAS _ _ _ => True
  | _ => False

/-- The operation and its `Local` method report what they remove, when they succeed. -/
def Reports (op : KVOp) (kv : KVStore) : Prop :=
  ((op.apply kv).2.err = none → Reported op.keys kv (op.apply kv).1) ∧
    ((op.applyLocal kv).2.err = none → Reported op.keys kv (op.applyLocal kv).1)

/-- A key that a compare-and-swap delete names twice had no value. -/
def EmptyTwice (t : KVTable) : KVOp → Prop
  | batchDeleteCAS keys _ _ =>
    ∀ k entry, t.data.lookup k = some entry → 2 ≤ keys.count k → entry.value = []
  | _ => True

section

variable {kv : KVStore} {op : KVOp}

/-- The `Local` method after a check that passes. -/
theorem applyLocal_deletes (hop : op.DeletesBatch) (hcheck : op.check kv.toKVTable = none) :
    op.applyLocal kv =
      (({ kv with toKVTable := op.update kv.toKVTable } : KVStore).notify (op.events kv.toKVTable),
        .ok) := by
  cases op with
  | batchDelete keys watch =>
    simp only [applyLocal, KVStore.batchDeleteLocal, KVTable.removeAll_data, update, events,
      KVTable.eraseAll]
    rfl
  | batchDeleteCAS keys expectedIndices watch =>
    simp only [check] at hcheck
    simp only [applyLocal, KVStore.batchDeleteCASLocal, hcheck, KVTable.removeAllCAS_data, update,
      events, KVTable.eraseAll]
    rfl
  | _ => exact hop.elim

/-- The events of a batch delete say what was removed, where the condition holds. -/
theorem events_filter_iff (hop : op.DeletesBatch) (hcheck : op.check kv.toKVTable = none) :
    (∀ k, (op.events kv.toKVTable).filter (fun e => e.key = k) =
      if k ∈ op.keys then KVStore.deletedEvents k (kv.data.lookup k) else []) ↔
      op.EmptyTwice kv.toKVTable := by
  cases op with
  | batchDelete keys watch =>
    refine iff_of_true (fun k => ?_) trivial
    change _ = if k ∈ keys then KVStore.deletedEvents k (kv.data.lookup k) else []
    rw [events, KVStore.deleteEvents_filter, KVTable.lookup_removeAll]
    split_ifs <;> rfl
  | batchDeleteCAS keys expectedIndices watch =>
    have hfilter : ∀ k, ((batchDeleteCAS keys expectedIndices watch).events kv.toKVTable).filter
        (fun e => e.key = k) = if k ∈ keys then KVStore.deletedEvents k
          (some (if keys.count k = 1 then (kv.data.lookup k).getD .zero else .zero)) else [] := by
      intro k
      rw [events, KVStore.deleteEvents_filter, KVTable.lookup_removeAllCAS_count]
      split_ifs <;> rfl
    have hcount : ∀ k ∈ keys, keys.count k = 1 ∨ 2 ≤ keys.count k := by
      intro k hk
      have := List.count_pos_iff.mpr hk
      omega
    constructor
    · intro h k entry hentry htwice
      have hk : k ∈ keys := List.count_pos_iff.mp (by omega)
      have hne : keys.count k ≠ 1 := by omega
      have hevents := h k
      rw [hfilter] at hevents
      simp only [KVOp.keys, if_pos hk, if_neg hne, hentry, KVStore.deletedEvents] at hevents
      have hvalue := congrArg Event.oldValue (List.singleton_inj.mp hevents)
      exact hvalue.symm
    · intro h k
      change _ = if k ∈ keys then KVStore.deletedEvents k (kv.data.lookup k) else []
      rw [hfilter]
      by_cases hk : k ∈ keys
      · obtain ⟨entry, hentry⟩ := kv.toKVTable.mem_of_checkDeleteAll hcheck hk
        simp only [if_pos hk, hentry, Option.getD_some]
        rcases hcount k hk with hone | htwice
        · rw [if_pos hone]
        · have hvalue : entry.value = [] := h k entry hentry htwice
          have hne : keys.count k ≠ 1 := by omega
          simp only [if_neg hne, KVStore.deletedEvents, KVStore.deleteEvent, hvalue]
          rfl
      · rw [if_neg hk, if_neg hk]
  | _ => exact hop.elim

/-- Both methods report, and under one condition: that no value is lost. -/
theorem reports_iff (hop : op.DeletesBatch) :
    op.Reports kv ↔ (op.check kv.toKVTable = none → kv.watchManager ≠ none →
      op.EmptyTwice kv.toKVTable) := by
  have hremoved : ∀ k, (op.update kv.toKVTable).data.lookup k =
      if k ∈ op.keys then none else kv.data.lookup k := by
    intro k
    cases op with
    | batchDelete keys watch => exact kv.toKVTable.lookup_eraseAll keys k
    | batchDeleteCAS keys expectedIndices watch => exact kv.toKVTable.lookup_eraseAll keys k
    | _ => exact hop.elim
  cases hcheck : op.check kv.toKVTable with
  | some err =>
    have hlocal : (op.applyLocal kv).2.err = some err := by
      cases op with
      | batchDeleteCAS keys expectedIndices watch =>
        simp only [check] at hcheck
        simp only [applyLocal, KVStore.batchDeleteCASLocal, hcheck]
      | batchDelete keys watch => cases hcheck
      | _ => exact hop.elim
    refine iff_of_true ⟨fun herr => ?_, fun herr => ?_⟩ fun h => by cases h
    · rw [apply_of_check_some hcheck] at herr
      cases herr
    · rw [hlocal] at herr
      cases herr
  | none =>
    have hreported : ∀ kv' : KVStore, kv'.toKVTable = op.update kv.toKVTable →
        kv'.watchManager = kv.watchManager.map (· ++ op.events kv.toKVTable) →
        (Reported op.keys kv kv' ↔ (kv.watchManager ≠ none → op.EmptyTwice kv.toKVTable)) := by
      intro kv' htable hwatch
      rw [← events_filter_iff hop hcheck]
      constructor
      · intro h hne
        obtain ⟨log, hlog⟩ := Option.ne_none_iff_exists'.mp hne
        obtain ⟨events, hevents, hfilter⟩ := h.told log hlog
        rw [hwatch, hlog, Option.map_some, Option.some_inj, List.append_right_inj] at hevents
        rw [hevents]
        exact hfilter
      · intro h
        refine ⟨fun k => ?_, fun log hlog => ⟨op.events kv.toKVTable, ?_, ?_⟩⟩
        · rw [htable]
          exact hremoved k
        · rw [hwatch, hlog, Option.map_some]
        · refine h ?_
          rw [hlog]
          exact Option.some_ne_none log
    have hlogs : op.logsErrors = false := by
      cases op with
      | batchDelete keys watch => rfl
      | batchDeleteCAS keys expectedIndices watch => rfl
      | _ => exact hop.elim
    have hlocal := applyLocal_deletes hop hcheck
    have hiff := hreported (op.applyLocal kv).1 (by rw [hlocal]; rfl) (by rw [hlocal]; rfl)
    rw [forall_prop_of_true rfl]
    constructor
    · intro h
      exact hiff.mp (h.2 (by rw [hlocal]; rfl))
    · intro h
      refine ⟨fun herr => ?_, fun _ => hiff.mpr h⟩
      rw [apply_err hcheck, hlogs] at herr
      refine (hreported _ (apply_toKVTable hcheck) ?_).mpr h
      rw [apply_watchManager hcheck, if_pos (.inr herr)]

end

/-- A store with one key, whose watchers listen. -/
def oneKey : KVStore :=
  { KVStore.new with
    toKVTable := KVTable.put ⟨∅, 0⟩ (str "k") (str "v") none
    watchManager := some [] }

/-- The key is listed once: its value is reported. -/
theorem reports_iff_once :
    (batchDeleteCAS [str "k"] (Finmap.singleton (str "k") 1) GoMap.sorted).Reports oneKey := by
  have hop : (batchDeleteCAS [str "k"] (Finmap.singleton (str "k") 1) GoMap.sorted).DeletesBatch :=
    trivial
  refine (reports_iff hop).mpr fun _ _ k entry hentry htwice => ?_
  have hcount : [str "k"].count k ≤ 1 := List.count_le_length
  omega

/-- A key listed twice is reported without its value. -/
theorem twice_loses_value :
    ¬ ∀ (kv : KVStore) (op : KVOp), op.DeletesBatch → op.Reports kv := by
  intro h
  have hreports := h oneKey
    (batchDeleteCAS [str "k", str "k"] (Finmap.singleton (str "k") 1) GoMap.sorted) trivial
  obtain ⟨events, hevents, hfilter⟩ := (hreports.1 (by decide)).told [] rfl
  have htold : ((batchDeleteCAS [str "k", str "k"] (Finmap.singleton (str "k") 1)
      GoMap.sorted).apply oneKey).1.watchManager = some [⟨.delete, str "k", [], []⟩] := by decide
  rw [htold, List.nil_append, Option.some_inj] at hevents
  have hk := hfilter (str "k")
  rw [← hevents] at hk
  exact absurd hk (by decide)

end KVOp

end Konsul
