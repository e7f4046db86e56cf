import Konsul.Store.Atomicity
import Konsul.Store.KVEvents
import Konsul.Store.LocalWrites
import Konsul.Watch.Delivery

/-!
# Replaying the events of a store

A subscriber keeps a map of its own: a set writes the value, a delete removes the
key. One operation after the other, and through the `Local` methods as well, a
watcher of every key that never lacks room is sent exactly the events that keep
such a map equal to the values of the store.
-/

namespace Konsul

open GoLib

/-! ### Maps kept from events -/

namespace Event

def replay (m : GoMap GoString GoString) (e : Event) : GoMap GoString GoString :=
  match e.type with
  | .set => m.insert e.key e.value
  | .delete => m.erase e.key

/-- The event tells what a map holds under its key. -/
def Says (e : Event) (m : GoMap GoString GoString) : Prop :=
  match e.type with
  | .set => m.lookup e.key = some e.value
  | .delete => m.lookup e.key = none

theorem lookup_replay (m : GoMap GoString GoString) (e : Event) (k : GoString) :
    (e.replay m).lookup k =
      if k = e.key then (match e.type with | .set => some e.value | .delete => none)
      else m.lookup k := by
  rw [replay]
  cases e.type with
  | set => exact GoMap.lookup_insert_ite ..
  | delete => exact GoMap.lookup_erase_ite ..

end Event

/-- What a subscriber holds after a list of events. -/
def replay (events : List Event) : GoMap GoString GoString := events.foldl Event.replay ∅

/-- Events that all tell what a map holds, and leave out no key that changed, lead
to that map, in any order and however often they name a key. -/
theorem foldl_replay {events : List Event} {m m' : GoMap GoString GoString}
    (htold : ∀ e ∈ events, e.Says m')
    (hrest : ∀ k, (∀ e ∈ events, e.key ≠ k) → m'.lookup k = m.lookup k) :
    events.foldl Event.replay m = m' := by
  induction events generalizing m with
  | nil => exact Finmap.ext_lookup fun k => (hrest k fun e he => nomatch he).symm
  | cons e events ih =>
    have hhead := htold e (List.mem_cons_self ..)
    refine ih (fun e' he' => htold e' (List.mem_cons_of_mem _ he')) fun k hk => ?_
    rw [Event.lookup_replay]
    split_ifs with heq
    · subst heq
      rw [Event.Says] at hhead
      cases htype : e.type with
      | set => rw [htype] at hhead; exact hhead
      | delete => rw [htype] at hhead; exact hhead
    · refine hrest k fun e' he' => ?_
      rcases List.mem_cons.mp he' with rfl | he'
      · exact Ne.symm heq
      · exact hk e' he'

namespace KVTable

/-- The values of a table, without their versions and flags. -/
def values (t : KVTable) : GoMap GoString GoString := t.data.mapVal fun _ entry => entry.value

variable (t : KVTable)

theorem lookup_values (k : GoString) :
    t.values.lookup k = (t.data.lookup k).map KVEntry.value := GoMap.lookup_mapVal ..

/-- A compare-and-swap batch delete remembers something for each of its keys. -/
theorem mem_removeAllCAS (keys : List GoString) (k : GoString) :
    k ∈ (t.removeAllCAS keys).2 ↔ k ∈ keys := by
  suffices ∀ (t : KVTable) (m : GoMap GoString KVEntry),
      k ∈ (keys.foldl (fun (p : KVTable × GoMap GoString KVEntry) key =>
        (p.1.remove key, p.2.insert key ((p.1.data.lookup key).getD .zero))) (t, m)).2 ↔
        k ∈ keys ∨ k ∈ m by
    have h := this t ∅
    simp only [Finmap.notMem_empty, or_false] at h
    exact h
  induction keys with
  | nil => simp
  | cons key keys ih =>
    intro t m
    rw [List.foldl_cons, ih, Finmap.mem_insert, List.mem_cons]
    tauto

end KVTable

/-! ### The events of one operation -/

namespace KVOp

/-- The events of an operation tell what it leaves, and leave out no key it changes. -/
theorem events_say (t : KVTable) (op : KVOp) :
    (∀ e ∈ op.events t, e.Says (op.update t).values) ∧
      ∀ k, (∀ e ∈ op.events t, e.key ≠ k) →
        (op.update t).values.lookup k = t.values.lookup k := by
  have hset (key value : GoString) (flags : Option UInt64) (old : Option KVEntry) :
      (∀ e ∈ [KVStore.setEvent key value old], e.Says (t.put key value flags).values) ∧
        ∀ k, (∀ e ∈ [KVStore.setEvent key value old], e.key ≠ k) →
          (t.put key value flags).values.lookup k = t.values.lookup k := by
    refine ⟨fun e he => ?_, fun k hk => ?_⟩
    · rw [List.mem_singleton.mp he]
      simp [Event.Says, KVStore.setEvent, KVTable.lookup_values, KVTable.lookup_put]
    · have hne : k ≠ key := Ne.symm (hk _ (List.mem_singleton_self _))
      rw [KVTable.lookup_values, KVTable.lookup_values, KVTable.lookup_put, if_neg hne]
  have hbatch (items : GoMap GoString GoString) (range watch : items.Order)
      (old : GoMap GoString KVEntry) :
      (∀ e ∈ KVStore.setEvents watch.list old, e.Says (t.putList range.list).values) ∧
        ∀ k, (∀ e ∈ KVStore.setEvents watch.list old, e.key ≠ k) →
          (t.putList range.list).values.lookup k = t.values.lookup k := by
    refine ⟨fun e he => ?_, fun k hk => ?_⟩
    · obtain ⟨⟨key, value⟩, hitem, rfl⟩ := List.mem_map.mp he
      have hrange := (range.mem_list_iff key value).mpr ((watch.mem_list_iff key value).mp hitem)
      obtain ⟨entry, hentry, hvalue⟩ := t.value_putList range.nodup_keys hrange
      simp only [Event.Says, KVStore.setEvent, KVTable.lookup_values, hentry, Option.map_some,
        hvalue]
    · have hnot : k ∉ range.list.map Sigma.fst := by
        intro hmem
        rw [range.mem_keys_iff, ← watch.mem_keys_iff] at hmem
        obtain ⟨item, hitem, rfl⟩ := List.mem_map.mp hmem
        exact hk _ (List.mem_map_of_mem hitem) rfl
      rw [KVTable.lookup_values, KVTable.lookup_values, KVTable.lookup_putList_of_notMem _ hnot]
  have hdeletes (keys : List GoString) (m : GoMap GoString KVEntry) (watch : m.Order)
      (hmem : ∀ k ∈ m, k ∈ keys) (hall : ∀ k ∈ keys, k ∉ m → t.data.lookup k = none) :
      (∀ e ∈ KVStore.deleteEvents watch.list, e.Says (t.eraseAll keys).values) ∧
        ∀ k, (∀ e ∈ KVStore.deleteEvents watch.list, e.key ≠ k) →
          (t.eraseAll keys).values.lookup k = t.values.lookup k := by
    refine ⟨fun e he => ?_, fun k hk => ?_⟩
    · obtain ⟨old, hold, rfl⟩ := List.mem_map.mp he
      have hkey : old.1 ∈ keys :=
        hmem old.1 ((watch.mem_keys_iff old.1).mp (List.mem_map_of_mem hold))
      simp only [Event.Says, KVStore.deleteEvent, KVTable.lookup_values, KVTable.eraseAll,
        GoMap.lookup_eraseAll, hkey, ite_true, Option.map_none]
    · have hnot : k ∉ m := by
        intro hmem
        rw [← watch.mem_keys_iff] at hmem
        obtain ⟨old, hold, rfl⟩ := List.mem_map.mp hmem
        exact hk _ (List.mem_map_of_mem hold) rfl
      rw [KVTable.lookup_values, KVTable.lookup_values, KVTable.lookup_eraseAll]
      split_ifs with hkey
      · rw [hall k hkey hnot]
      · rfl
  have hdelete (key : GoString) :
      (∀ e ∈ KVStore.deletedEvents key (t.data.lookup key), e.Says (t.remove key).values) ∧
        ∀ k, (∀ e ∈ KVStore.deletedEvents key (t.data.lookup key), e.key ≠ k) →
          (t.remove key).values.lookup k = t.values.lookup k := by
    refine ⟨fun e he => ?_, fun k hk => ?_⟩
    · have hkey := key_deletedEvents e he
      cases hold : t.data.lookup key with
      | none => rw [hold] at he; cases he
      | some old =>
        rw [hold] at he
        rw [List.mem_singleton.mp he]
        simp [Event.Says, KVStore.deleteEvent, KVTable.lookup_values, KVTable.lookup_remove]
    · rw [KVTable.lookup_values, KVTable.lookup_values, KVTable.lookup_remove]
      split_ifs with heq
      · subst heq
        cases hold : t.data.lookup k with
        | none => rfl
        | some old =>
          rw [hold] at hk
          exact absurd rfl (hk _ (List.mem_singleton_self _))
      · rfl
  cases op with
  | set key value => exact hset key value none _
  | setWithFlags key value flags => exact hset key value (some flags) _
  | setCAS key value expectedIndex => exact hset key value none _
  | delete key => exact hdelete key
  | deleteCAS key expectedIndex => exact hdelete key
  | batchSet items range watch => exact hbatch items range watch _
  | batchSetCAS items expectedIndices check range watch => exact hbatch items range watch _
  | batchDelete keys watch =>
    refine hdeletes keys _ (watch _) (fun k hk => ?_) fun k hk hnot => ?_
    · obtain ⟨old, hold⟩ := Finmap.mem_iff.mp hk
      rw [KVTable.lookup_removeAll] at hold
      by_contra hne
      rw [if_neg hne] at hold
      cases hold
    · have hnone := Finmap.lookup_eq_none.mpr hnot
      rwa [KVTable.lookup_removeAll, if_pos hk] at hnone
  | batchDeleteCAS keys expectedIndices watch =>
    refine hdeletes keys _ (watch _) (fun k hk => (t.mem_removeAllCAS keys k).mp hk)
      fun k hk hnot => ?_
    exact absurd ((t.mem_removeAllCAS keys k).mpr hk) hnot

/-- An operation without an effect has no events. -/
theorem events_of_not_effective {t : KVTable} {op : KVOp} (hcheck : op.check t = none)
    (h : ¬ op.Effective t) : op.events t = [] := by
  have hnone {m : GoMap GoString KVEntry} (watch : m.Order) (hm : ∀ k, k ∉ m) :
      KVStore.deleteEvents watch.list = [] := by
    cases hl : watch.list with
    | nil => rfl
    | cons old rest =>
      have hkey : old.1 ∈ watch.list.map Sigma.fst := by
        rw [hl]
        exact List.mem_cons_self ..
      exact absurd ((watch.mem_keys_iff old.1).mp hkey) (hm old.1)
  have hitems {items : GoMap GoString GoString} (range watch : items.Order)
      (hnil : range.list = []) (old : GoMap GoString KVEntry) :
      KVStore.setEvents watch.list old = [] := by
    have hlen := (range.perm watch).length_eq
    rw [hnil, List.length_nil] at hlen
    rw [List.eq_nil_of_length_eq_zero hlen.symm]
    rfl
  cases op with
  | set key value => exact absurd (List.cons_ne_nil _ _) h
  | setWithFlags key value flags => exact absurd (List.cons_ne_nil _ _) h
  | setCAS key value expectedIndex => exact absurd (List.cons_ne_nil _ _) h
  | delete key => rw [events, Finmap.lookup_eq_none.mpr h]; rfl
  | deleteCAS key expectedIndex => rw [events, Finmap.lookup_eq_none.mpr h]; rfl
  | batchSet items range watch => exact hitems range watch (not_not.mp h) _
  | batchSetCAS items expectedIndices check range watch => exact hitems range watch (not_not.mp h) _
  | batchDelete keys watch =>
    refine hnone (watch _) fun k hk => ?_
    obtain ⟨old, hold⟩ := Finmap.mem_iff.mp hk
    rw [KVTable.lookup_removeAll] at hold
    split_ifs at hold with hkey
    exact h ⟨k, hkey, Finmap.mem_of_lookup_eq_some hold⟩
  | batchDeleteCAS keys expectedIndices watch =>
    refine hnone (watch _) fun k hk => ?_
    have hkey := (t.mem_removeAllCAS keys k).mp hk
    obtain ⟨entry, hentry⟩ := t.mem_of_checkDeleteAll hcheck hkey
    exact h ⟨k, hkey, Finmap.mem_of_lookup_eq_some hentry⟩

end KVOp

namespace Watch

/-! ### A call of Notify with nothing in between -/

namespace Manager

/-- One turn of the inner loop. -/
def offer (re : Regexp) (wm : Manager) (event : Event) (id : GoString) : Manager × Option Panic :=
  match wm.watchers.lookup id with
  | none => (wm, none)
  | some watcher =>
    if wm.canWatch re watcher event.key then
      match wm.channels.lookup id with
      | none => (wm, none)
      | some events =>
        match events.trySend event with
        | none => (wm, some .sendOnClosed)
        | some (events, _) => ({ wm with channels := wm.channels.insert id events }, none)
    else (wm, none)

def offerAll (re : Regexp) (event : Event) : Manager → List GoString → Manager × Option Panic
  | wm, [] => (wm, none)
  | wm, id :: ids =>
    match wm.offer re event id with
    | (wm, some panic) => (wm, some panic)
    | (wm, none) => offerAll re event wm ids

/-- `Notify`. -/
def notify (re : Regexp) (wm : Manager) (event : Event) (range : wm.patterns.Order) :
    Manager × Option Panic :=
  offerAll re event wm (wm.notifyIDs event.key range)

variable {wm : Manager}

/-- Without an evaluator a turn tries the send to a registered watcher, and touches
no other channel. -/
theorem Consistent.offer (h : wm.Consistent) (hacl : wm.aclEval = none) (re : Regexp)
    (event : Event) (id : GoString) :
    ∃ channels, wm.offer re event id = ({ wm with channels }, none) ∧
      ({ wm with channels } : Manager).Consistent ∧
      (∀ id', id' ≠ id → channels.lookup id' = wm.channels.lookup id') ∧
      ∀ events, id ∈ wm.watchers → wm.channels.lookup id = some events → events.hasRoom →
        ∃ events', channels.lookup id = some events' ∧ events'.sent = events.sent ++ [event] := by
  rw [Manager.offer]
  cases hw : wm.watchers.lookup id with
  | none =>
    exact ⟨wm.channels, rfl, h, fun _ _ => rfl,
      fun _ hid _ _ => absurd hid (Finmap.lookup_eq_none.mp hw)⟩
  | some watcher =>
    obtain ⟨events, hevents, hopen⟩ := h.opened id watcher hw
    obtain ⟨events', hsend, hopen', hsent⟩ := Chan.trySend_spec hopen event
    have hcan : wm.canWatch re watcher event.key = true := by
      rw [canWatch, hacl]
    simp only [hcan, ite_true, hevents, hsend]
    refine ⟨_, rfl, h.setChannel hevents fun _ => hopen', fun id' hne => ?_,
      fun c _ hc hroom => ⟨events', ?_, ?_⟩⟩
    · rw [GoMap.lookup_insert_ite, if_neg hne]
    · rw [GoMap.lookup_insert_ite, if_pos rfl]
    · cases hc
      rw [hsent, if_pos hroom]

theorem Consistent.offerAll (h : wm.Consistent) (hacl : wm.aclEval = none) (re : Regexp)
    (event : Event) {ids : List GoString} (hnodup : ids.Nodup) :
    ∃ channels, offerAll re event wm ids = ({ wm with channels }, none) ∧
      ({ wm with channels } : Manager).Consistent ∧
      (∀ id, id ∉ ids → channels.lookup id = wm.channels.lookup id) ∧
      ∀ id events, id ∈ ids → id ∈ wm.watchers → wm.channels.lookup id = some events →
        events.hasRoom →
        ∃ events', channels.lookup id = some events' ∧ events'.sent = events.sent ++ [event] := by
  induction ids generalizing wm with
  | nil => exact ⟨wm.channels, rfl, h, fun _ _ => rfl, fun _ _ hid => nomatch hid⟩
  | cons id ids ih =>
    obtain ⟨hid, hnodup⟩ := List.nodup_cons.mp hnodup
    obtain ⟨first, heq, hcons, hframe, hhead⟩ := h.offer hacl re event id
    obtain ⟨channels, hrun, hlast, hkeep, htail⟩ := ih hcons hacl hnodup
    refine ⟨channels, ?_, hlast, fun id' hid' => ?_, fun id' events hmem hw hevents hroom => ?_⟩
    · rw [Manager.offerAll, heq]
      exact hrun
    · rw [List.mem_cons, not_or] at hid'
      exact (hkeep id' hid'.2).trans (hframe id' hid'.1)
    · rcases List.mem_cons.mp hmem with rfl | hmem
      · obtain ⟨events', hfirst, hsent⟩ := hhead events hw hevents hroom
        exact ⟨events', (hkeep id' hid).trans hfirst, hsent⟩
      · have hne : id' ≠ id := fun heq => hid (heq ▸ hmem)
        exact htail id' events hmem hw ((hframe id' hne).trans hevents) hroom

end Manager

/-! ### A store, its watch manager and the subscriber -/

/-- `pending` are the events the running operation has still to pass to `Notify`. -/
structure Scene where
  store : KVStore
  manager : Manager
  pending : List Event

inductive SceneStep where
  | op (o : KVOp)
  | opLocal (o : KVOp)
  /-- The running operation passes its next event to `Notify`. -/
  | notify (range : (m : GoMap GoString (List GoString)) → m.Order)
  /-- One receive from the channel of a watcher. -/
  | receive (id : GoString)
  | write (op : RegistryOp)

namespace Scene

/-- An operation runs up to its notifications, once those of the last one are made. -/
def run (s : Scene) (apply : KVStore → KVStore × KVResult) : Scene × List Event :=
  if s.pending = [] then
    let store := (apply { s.store with watchManager := some [] }).1
    let events := store.watchManager.getD []
    ({ s with store, pending := events }, events)
  else (s, [])

/-- One step, answered by the events an operation has for the watchers. -/
def step (re : Regexp) (s : Scene) : SceneStep → Scene × List Event
  | .op o => s.run o.apply
  | .opLocal o => s.run o.applyLocal
  | .notify range =>
    match s.pending with
    | [] => (s, [])
    | e :: pending =>
      ({ s with manager := (s.manager.notify re e (range s.manager.patterns)).1, pending }, [])
  | .receive id =>
    match s.manager.channels.lookup id with
    | none => (s, [])
    | some events =>
      ({ s with manager := { s.manager with
        channels := s.manager.channels.insert id events.receive } }, [])
  | .write op => ({ s with manager := (s.manager.apply op).1 }, [])

def machine (re : Regexp) : Machine Scene SceneStep (List Event) := ⟨step re⟩

/-- An empty store, and a manager without an evaluator that has one watcher, of every key. -/
def start (bufferSize maxPerClient : ℤ) (id : GoString) (policies : List GoString)
    (transport : TransportType) (userID : GoString) : Scene :=
  { store := .new
    manager := ((Manager.new none bufferSize maxPerClient).addWatcher id (str "**") policies
      transport userID).1
    pending := [] }

/-- The channel of the watcher has room when it is sent to, and the watcher stays. -/
def Keeps (id : GoString) (s : Scene) : SceneStep → Prop
  | .notify _ => s.pending ≠ [] → ∀ events, s.manager.channels.lookup id = some events →
      events.hasRoom
  | .write op => s.manager.Fresh op ∧ op ≠ .remove id ∧ ∀ range, op ≠ .close range
  | _ => True

/-- The watcher has been sent the events of the store, but those still to be passed on. -/
structure Follows (id : GoString) (s : Scene) : Prop where
  consistent : s.manager.Consistent
  acl : s.manager.aclEval = none
  engine : s.store.engine = none
  watcher : ∃ watcher, s.manager.watchers.lookup id = some watcher ∧ watcher.pattern = str "**"
  flow : ∃ events, s.manager.channels.lookup id = some events ∧
    replay (events.sent ++ s.pending) = s.store.values

theorem matchesPattern_all (key : GoString) : matchesPattern key (str "**") = true := by
  have hstar : contains (str "**") (str "*") = true := by decide
  have hstars : contains (str "**") (str "**") = true := by decide
  have htrim : trimSuffix (str "**") (str "**") = [] := by decide
  unfold matchesPattern
  simp only [hstar, hstars, htrim, hasPrefix, List.isPrefixOf, Bool.not_true, Bool.false_eq_true,
    ite_false, ite_true, ite_self]

variable {re : Regexp} {id : GoString} {s : Scene}

theorem apply_cases {kv : KVStore} (hengine : kv.engine = none) (hwatch : kv.watchManager = some [])
    (o : KVOp) :
    (o.check kv.toKVTable ≠ none ∧ (o.apply kv).1.watchManager = some [] ∧
        (o.apply kv).1.toKVTable = kv.toKVTable) ∨
      (o.check kv.toKVTable = none ∧
        (o.apply kv).1.watchManager = some (o.events kv.toKVTable) ∧
        (o.apply kv).1.toKVTable = o.update kv.toKVTable) := by
  cases hc : o.check kv.toKVTable with
  | some err =>
    rw [KVOp.apply_of_check_some hc]
    exact .inl ⟨by simp, hwatch, rfl⟩
  | none =>
    have hfault : kv.fault = none := by
      rw [KVStore.fault, hengine]
      rfl
    have hnotified : (o.apply kv).1.watchManager = some (o.events kv.toKVTable) := by
      rw [KVOp.apply_watchManager hc, if_pos (.inr hfault), hwatch]
      rfl
    exact .inr ⟨rfl, hnotified, KVOp.apply_toKVTable hc⟩

/-- Replaying the events of an operation keeps up with the values of the table. -/
theorem replay_events (t : KVTable) (o : KVOp) :
    (o.events t).foldl Event.replay t.values = (o.update t).values :=
  foldl_replay (o.events_say t).1 (o.events_say t).2

theorem Follows.op (h : s.Follows id) (o : KVOp) : (s.run o.apply).1.Follows id := by
  rw [Scene.run]
  split_ifs with hpending
  · obtain ⟨events, hevents, hflow⟩ := h.flow
    rw [hpending, List.append_nil] at hflow
    have hlisten : KVStore.watchManager { s.store with watchManager := some [] } = some [] := rfl
    have hengine : (o.apply { s.store with watchManager := some [] }).1.engine = none := by
      rw [KVStore.engine_apply]
      exact h.engine
    rcases apply_cases (by exact h.engine) hlisten o with
      ⟨-, hnone, htable⟩ | ⟨-, hsome, htable⟩
    · refine ⟨h.consistent, h.acl, hengine, h.watcher, events, hevents, ?_⟩
      simp only [hnone, Option.getD_some, List.append_nil, htable]
      exact hflow
    · refine ⟨h.consistent, h.acl, hengine, h.watcher, events, hevents, ?_⟩
      simp only [hsome, Option.getD_some, htable]
      rw [replay] at hflow ⊢
      rw [List.foldl_append, hflow, replay_events]
  · exact h

theorem Follows.opLocal (h : s.Follows id) (o : KVOp) : (s.run o.applyLocal).1.Follows id := by
  have heq : o.applyLocal { s.store with watchManager := some [] } =
      o.apply { s.store with watchManager := some [] } := by
    rw [KVStore.applyLocal_eq]
    exact h.engine
  have hrun : s.run o.applyLocal = s.run o.apply := by
    rw [Scene.run, Scene.run, heq]
  rw [hrun]
  exact h.op o

theorem Follows.notify (h : s.Follows id)
    (range : (m : GoMap GoString (List GoString)) → m.Order) (hkeeps : s.Keeps id (.notify range)) :
    (step re s (.notify range)).1.Follows id := by
  rw [Scene.step]
  cases hpending : s.pending with
  | nil => exact h
  | cons e pending =>
    obtain ⟨watcher, hw, hpattern⟩ := h.watcher
    obtain ⟨events, hevents, hflow⟩ := h.flow
    have hroom := hkeeps (by simp [hpending]) events hevents
    obtain ⟨hnodup, hids⟩ := h.consistent.notifyIDs e.key (range s.manager.patterns)
    have hid : id ∈ s.manager.notifyIDs e.key (range s.manager.patterns) :=
      (hids id).mpr ⟨watcher, hw, hpattern ▸ matchesPattern_all e.key⟩
    obtain ⟨channels, heq, hcons, -, hsent⟩ := h.consistent.offerAll h.acl re e hnodup
    obtain ⟨events', hevents', hsent'⟩ :=
      hsent id events hid (Finmap.mem_of_lookup_eq_some hw) hevents hroom
    have hcall : (s.manager.notify re e (range s.manager.patterns)).1 =
        { s.manager with channels } := congrArg Prod.fst heq
    simp only [hcall]
    refine ⟨hcons, h.acl, h.engine, ⟨watcher, hw, hpattern⟩, events', hevents', ?_⟩
    rw [hsent', List.append_assoc, List.singleton_append, ← hpending]
    exact hflow

theorem Follows.receive (h : s.Follows id) (id' : GoString) :
    (step re s (.receive id')).1.Follows id := by
  rw [Scene.step]
  cases hlookup : s.manager.channels.lookup id' with
  | none => exact h
  | some received =>
    obtain ⟨events, hevents, hflow⟩ := h.flow
    have hopen : received.closed = false → received.receive.closed = false := by
      rw [Chan.receive_closed]
      exact fun hclosed => hclosed
    refine ⟨h.consistent.setChannel hlookup hopen, h.acl, h.engine, h.watcher, ?_⟩
    by_cases hid : id = id'
    · subst hid
      rw [hlookup] at hevents
      cases hevents
      refine ⟨received.receive, Finmap.lookup_insert _, ?_⟩
      rw [Chan.receive_sent]
      exact hflow
    · exact ⟨events, (Finmap.lookup_insert_of_ne _ hid).trans hevents, hflow⟩

theorem Follows.write (h : s.Follows id) {op : RegistryOp} (hkeeps : s.Keeps id (.write op)) :
    (step re s (.write op)).1.Follows id := by
  obtain ⟨hfresh, hremove, hclose⟩ := hkeeps
  obtain ⟨watcher, hw, hpattern⟩ := h.watcher
  obtain ⟨events, hevents, hflow⟩ := h.flow
  obtain ⟨-, hmem, hsent⟩ := h.consistent.apply_channels hfresh
  have hid : id ∈ s.manager.channels := Finmap.mem_of_lookup_eq_some hevents
  obtain ⟨events', hevents'⟩ := Finmap.mem_iff.mp (hmem id hid)
  have hsent' : events'.sent = events.sent := by
    have hnew : (s.manager.apply op).1.sentTo id = some events'.sent := by
      rw [Manager.sentTo, hevents', Option.map_some]
    rcases hsent id _ hnew with hold | ⟨hnot, -⟩
    · rw [Manager.sentTo, hevents, Option.map_some] at hold
      exact (Option.some.inj hold).symm
    · exact absurd hid hnot
  refine ⟨h.consistent.apply hfresh, ?_, h.engine,
    ⟨watcher, h.consistent.apply_watchers hfresh hw hremove hclose, hpattern⟩, events', hevents', ?_⟩
  · exact (h.consistent.aclEval_apply op).trans h.acl
  · rw [hsent']
    exact hflow

theorem Follows.step (h : s.Follows id) {i : SceneStep} (hkeeps : s.Keeps id i) :
    (step re s i).1.Follows id := by
  cases i with
  | op o => exact h.op o
  | opLocal o => exact h.opLocal o
  | notify range => exact h.notify range hkeeps
  | receive id' => exact h.receive id'
  | write op => exact h.write hkeeps

theorem follows_start {bufferSize : ℤ} (hsize : 0 ≤ bufferSize) (maxPerClient : ℤ) (id : GoString)
    (policies : List GoString) (transport : TransportType) (userID : GoString) :
    (start bufferSize maxPerClient id policies transport userID).Follows id := by
  have hnew := Manager.consistent_new none bufferSize maxPerClient
  have hfresh : id ∉ (Manager.new none bufferSize maxPerClient).watchers := Finmap.notMem_empty
  have hcons := hnew.addWatcher hfresh (str "**") policies transport userID
  rcases Manager.addWatcher_cases (Manager.new none bufferSize maxPerClient) id (str "**") policies
      transport userID with ⟨e, he, heq⟩ | ⟨events, hmake, -, heq⟩
  · -- a new manager counts no watcher of the user, and the buffer has a size
    exfalso
    have hzero : (Manager.new none bufferSize maxPerClient).clientCount userID = 0 := rfl
    have hlimit : ¬ ((Manager.new none bufferSize maxPerClient).maxPerClient > 0 ∧ userID ≠ [] ∧
        (Manager.new none bufferSize maxPerClient).clientCount userID ≥
          (Manager.new none bufferSize maxPerClient).maxPerClient) := by
      rintro ⟨hpos, -, hge⟩
      omega
    have hmade : ∃ events : Chan Event,
        Chan.make (Manager.new none bufferSize maxPerClient).bufferSize = some events :=
      ⟨_, if_pos hsize⟩
    obtain ⟨events, hevents⟩ := hmade
    rw [Manager.addWatcher, if_neg hlimit] at heq
    simp only [hevents, Prod.mk.injEq, reduceCtorEq, and_false] at heq
  · have hstart : (start bufferSize maxPerClient id policies transport userID).manager =
        (((({ Manager.new none bufferSize maxPerClient with
          channels := (Manager.new none bufferSize maxPerClient).channels.insert id events
          watchers := (Manager.new none bufferSize maxPerClient).watchers.insert id
            ⟨id, str "**", policies, transport, userID⟩ } : Manager).addPattern (str "**")
              id).addClient userID)) := congrArg Prod.fst heq
    refine ⟨hcons, ?_, rfl, ⟨⟨id, str "**", policies, transport, userID⟩, ?_, rfl⟩, events, ?_, ?_⟩
    · rw [hstart, Manager.aclEval_addClient, Manager.aclEval_addPattern]
      rfl
    · rw [hstart, Manager.watchers_addClient, Manager.watchers_addPattern]
      exact Finmap.lookup_insert _
    · rw [hstart, Manager.channels_addClient, Manager.channels_addPattern]
      exact Finmap.lookup_insert _
    · have hsent : events.sent = [] := (Chan.make_sent hmake).1
      rw [hsent]
      rfl

theorem run_eq_nil {o : KVOp} (hengine : s.store.engine = none)
    (hlen : o.items.length < 2 ^ 64)
    (hsame : (s.run o.apply).1.store.toKVTable = s.store.toKVTable) : (s.run o.apply).2 = [] := by
  rw [Scene.run] at hsame ⊢
  split_ifs with hpending
  · rw [if_pos hpending] at hsame
    have hlisten : KVStore.watchManager { s.store with watchManager := some [] } = some [] := rfl
    rcases apply_cases (by exact hengine) hlisten o with ⟨-, hnone, -⟩ | ⟨hc, hsome, htable⟩
    · simp only [hnone, Option.getD_some]
    · have heffect : ¬ o.Effective s.store.toKVTable := by
        intro heffect
        exact KVOp.update_ne_of_effective heffect hlen (htable.symm.trans hsame)
      simp only [hsome, Option.getD_some]
      exact KVOp.events_of_not_effective hc heffect
  · rfl

/-- Between operations, however they succeed or fail, replaying what a watcher of
every key was sent, received and still buffered, gives the values of the store; and
an operation that changes nothing tells nothing. A Go map has fewer than 2^64 items. -/
theorem replay_eq_values (re : Regexp) {bufferSize : ℤ} (hsize : 0 ≤ bufferSize) (maxPerClient : ℤ)
    (id : GoString) (policies : List GoString) (transport : TransportType) (userID : GoString)
    (steps : List SceneStep)
    (hkeeps : (machine re).Along (Keeps id)
      (start bufferSize maxPerClient id policies transport userID) steps) :
    let s := ((machine re).run (start bufferSize maxPerClient id policies transport userID) steps).1
    (s.pending = [] → ∃ events, s.manager.channels.lookup id = some events ∧
      replay (events.received ++ events.buffer) = s.store.values) ∧
    ∀ o : KVOp, o.items.length < 2 ^ 64 →
      ((step re s (.op o)).1.store.toKVTable = s.store.toKVTable → (step re s (.op o)).2 = []) ∧
      ((step re s (.opLocal o)).1.store.toKVTable = s.store.toKVTable →
        (step re s (.opLocal o)).2 = []) := by
  intro s
  have hfollows : s.Follows id := (machine re).invariant (fun _ _ h hk => h.step hk)
    (follows_start hsize maxPerClient id policies transport userID) hkeeps
  refine ⟨fun hpending => ?_, fun o hlen => ⟨fun hsame => ?_, fun hsame => ?_⟩⟩
  · obtain ⟨events, hevents, hflow⟩ := hfollows.flow
    rw [hpending, List.append_nil] at hflow
    exact ⟨events, hevents, hflow⟩
  · exact run_eq_nil hfollows.engine hlen hsame
  · have heq : o.applyLocal { s.store with watchManager := some [] } =
        o.apply { s.store with watchManager := some [] } := by
      rw [KVStore.applyLocal_eq]
      exact hfollows.engine
    have hrun : s.run o.applyLocal = s.run o.apply := by
      rw [Scene.run, Scene.run, heq]
    rw [Scene.step, hrun] at hsame ⊢
    exact run_eq_nil hfollows.engine hlen hsame

/-- A key is set, a watcher with a buffer of one is told, and another key is deleted. -/
theorem replay_eq_values_one_key :
    (∃ events, ((machine ⟨fun _ => true, fun _ _ => false⟩).run
          (start 1 0 (str "w") [] .sse []) [.op (.set (str "k") (str "a")),
            .notify GoMap.sorted]).1.manager.channels.lookup (str "w") = some events ∧
        replay (events.received ++ events.buffer) =
          ((machine ⟨fun _ => true, fun _ _ => false⟩).run (start 1 0 (str "w") [] .sse [])
            [.op (.set (str "k") (str "a")), .notify GoMap.sorted]).1.store.values) ∧
      (step ⟨fun _ => true, fun _ _ => false⟩ ((machine ⟨fun _ => true, fun _ _ => false⟩).run
          (start 1 0 (str "w") [] .sse [])
          [.op (.set (str "k") (str "a")), .notify GoMap.sorted]).1
        (.op (.delete (str "x")))).2 = [] := by
  have hroom : (((machine ⟨fun _ => true, fun _ _ => false⟩).run (start 1 0 (str "w") [] .sse [])
      [.op (.set (str "k") (str "a"))]).1.manager.channels.lookup (str "w")).map Chan.hasRoom =
        some true := by decide
  have hsize : (0 : ℤ) ≤ 1 := by decide
  have h := replay_eq_values ⟨fun _ => true, fun _ _ => false⟩ hsize 0 (str "w") [] .sse []
    [.op (.set (str "k") (str "a")), .notify GoMap.sorted]
    ⟨trivial, fun _ events hevents => by
      have heq : some events.hasRoom = some true :=
        (congrArg (Option.map Chan.hasRoom) hevents).symm.trans hroom
      exact Option.some.inj heq, trivial⟩
  exact ⟨h.1 rfl, (h.2 (.delete (str "x")) (by decide)).1 (by decide)⟩

end Scene

end Watch

end Konsul
