import Konsul.Watch.Registry

/-!
# Delivery of events

`AddWatcher`, `RemoveWatcher` and `Close` hold the write lock of the manager, and
any number of `Notify` calls share its read lock. A call decides for one watcher
at a time: first it asks the evaluator, then it tries the send, and other calls,
receivers and changes of policy come in between. A `Hub` is the manager with its
calls. `enqueued` records what the sends put into channels.
-/

namespace Konsul.Watch

open GoLib

/-- What a call found when it decided about a watcher. -/
structure Visit where
  id : GoString
  permitted : Bool
  room : Bool
  deriving DecidableEq

/-- A call of `Notify`: the ids its loops have still to visit, the permitted
watcher it is about to send to, the watchers decided about, and the registry as
the call found it under the read lock. -/
structure NotifyCall where
  event : Event
  todo : List GoString
  pending : Option GoString
  visited : List Visit
  registered : GoMap GoString Watcher
  returned : Bool

/-- An event a call put into the channel of a watcher. -/
structure Delivery where
  call : ℕ
  id : GoString
  event : Event
  deriving DecidableEq

/-- The calls stand in the order in which they took the read lock. -/
structure Hub where
  manager : Manager
  calls : List NotifyCall
  enqueued : List Delivery

inductive HubStep where
  | write (op : RegistryOp)
  | notify (event : Event) (range : (m : GoMap GoString (List GoString)) → m.Order)
  | check (n : ℕ)
  | send (n : ℕ)
  | finish (n : ℕ)
  | receive (id : GoString)
  | setPolicies (policies : Evaluator)

namespace Hub

/-- A call holds the read lock. -/
def reading (h : Hub) : Bool := h.calls.any fun call => !call.returned

def hasRoom (h : Hub) (id : GoString) : Bool :=
  match h.manager.channels.lookup id with
  | some events => events.hasRoom
  | none => false

def setCall (h : Hub) (n : ℕ) (call : NotifyCall) : Hub := { h with calls := h.calls.set n call }

/-- The loop head of `Notify` up to the permission check. -/
def check (re : Regexp) (h : Hub) (n : ℕ) (call : NotifyCall) : Hub :=
  match call.todo with
  | [] => h
  | id :: todo =>
    match h.manager.watchers.lookup id with
    | none => h.setCall n { call with todo }
    | some watcher =>
      if h.manager.canWatch re watcher call.event.key then
        h.setCall n { call with todo, pending := some id }
      else
        h.setCall n { call with
          todo, visited := call.visited ++ [⟨id, false, h.hasRoom id⟩] }

/-- The `select` of `Notify`; a nil channel never accepts. -/
def send (h : Hub) (n : ℕ) (call : NotifyCall) (id : GoString) : Hub × Option Panic :=
  let decided := { call with pending := none, visited := call.visited ++ [⟨id, true, h.hasRoom id⟩] }
  match h.manager.channels.lookup id with
  | none => (h.setCall n decided, none)
  | some events =>
    match events.trySend call.event with
    | none => (h, some .sendOnClosed)
    | some (events, accepted) =>
      let wm := { h.manager with channels := h.manager.channels.insert id events }
      ({ h.setCall n decided with
        manager := wm
        enqueued := if accepted then h.enqueued ++ [⟨n, id, call.event⟩] else h.enqueued }, none)

/-- A step that is not possible in the state changes nothing. -/
def step (re : Regexp) (h : Hub) : HubStep → Hub × Option Panic
  | .write op =>
    if h.reading then (h, none)
    else
      let r := h.manager.apply op
      ({ h with manager := r.1 }, r.2)
  | .notify event range =>
    ({ h with calls := h.calls ++
      [⟨event, h.manager.notifyIDs event.key (range h.manager.patterns), none, [],
        h.manager.watchers, false⟩] }, none)
  | .check n =>
    match h.calls[n]? with
    | none => (h, none)
    | some call => if call.pending = none then (h.check re n call, none) else (h, none)
  | .send n =>
    match h.calls[n]? with
    | none => (h, none)
    | some call =>
      match call.pending with
      | none => (h, none)
      | some id => h.send n call id
  | .finish n =>
    match h.calls[n]? with
    | none => (h, none)
    | some call =>
      if call.pending = none ∧ call.todo = [] then (h.setCall n { call with returned := true }, none)
      else (h, none)
  | .receive id =>
    match h.manager.channels.lookup id with
    | none => (h, none)
    | some events =>
      ({ h with manager := { h.manager with
        channels := h.manager.channels.insert id events.receive } }, none)
  | .setPolicies policies =>
    ({ h with manager := { h.manager with aclEval := h.manager.aclEval.map fun _ => policies } },
      none)

def machine (re : Regexp) : Machine Hub HubStep (Option Panic) := ⟨step re⟩

/-- A fresh hub around a new manager. -/
def new (aclEval : Option Evaluator) (bufferSize maxPerClient : ℤ) : Hub :=
  ⟨Manager.new aclEval bufferSize maxPerClient, [], []⟩

/-- A new watcher gets an id no watcher has had. -/
def Fresh (h : Hub) : HubStep → Prop
  | .write op => h.manager.Fresh op
  | _ => True

instance (h : Hub) (i : HubStep) : Decidable (h.Fresh i) :=
  match i with
  | .write op => inferInstanceAs (Decidable (h.manager.Fresh op))
  | .notify .. | .check _ | .send _ | .finish _ | .receive _ | .setPolicies _ => .isTrue trivial

end Hub

/-! ### The ids a call walks -/

namespace Manager

variable {wm : Manager}

theorem Consistent.nodup_watcherIDs (h : wm.Consistent) {p : GoString} {ids : List GoString}
    (hp : wm.patterns.lookup p = some ids) : ids.Nodup := by
  rw [List.nodup_iff_count_le_one]
  intro id
  have hlisted := h.listed id p
  simp only [watcherIDs, hp, Option.getD_some] at hlisted
  rw [hlisted, occurrences]
  split
  · split_ifs <;> omega
  · omega

/-- Each registered watcher with a matching pattern is walked once, and nothing
else is. -/
theorem Consistent.notifyIDs (h : wm.Consistent) (key : GoString) (range : wm.patterns.Order) :
    (wm.notifyIDs key range).Nodup ∧
      ∀ id, id ∈ wm.notifyIDs key range ↔
        ∃ watcher, wm.watchers.lookup id = some watcher ∧ matchesPattern key watcher.pattern := by
  have hmem : ∀ e ∈ range.list, wm.patterns.lookup e.1 = some e.2 :=
    fun e he => (range.mem_list_iff e.1 e.2).mp he
  constructor
  · rw [Manager.notifyIDs, List.nodup_flatMap]
    constructor
    · intro e he
      exact h.nodup_watcherIDs (hmem e (List.mem_of_mem_filter he))
    · have hkeys : range.list.Pairwise fun e e' => e.1 ≠ e'.1 := List.pairwise_map.mp range.nodup_keys
      have hboth : range.list.Pairwise fun e e' => e.1 ≠ e'.1 ∧
          wm.patterns.lookup e.1 = some e.2 ∧ wm.patterns.lookup e'.1 = some e'.2 :=
        hkeys.imp_of_mem fun he he' hne => ⟨hne, hmem _ he, hmem _ he'⟩
      refine (hboth.filter _).imp ?_
      rintro e e' ⟨hne, he, he'⟩ id hid hid'
      obtain ⟨watcher, hw, hpattern⟩ := h.pattern_of_mem he hid
      obtain ⟨watcher', hw', hpattern'⟩ := h.pattern_of_mem he' hid'
      rw [hw] at hw'
      cases hw'
      exact hne (hpattern.symm.trans hpattern')
  · intro id
    rw [Manager.notifyIDs, List.mem_flatMap]
    constructor
    · rintro ⟨e, he, hid⟩
      rw [List.mem_filter] at he
      obtain ⟨watcher, hw, hpattern⟩ := h.pattern_of_mem (hmem e he.1) hid
      exact ⟨watcher, hw, hpattern ▸ he.2⟩
    · rintro ⟨watcher, hw, hmatch⟩
      obtain ⟨ids, hp, hcount⟩ := h.registry.listed id watcher hw
      have hpos : 0 < ids.count id := by omega
      refine ⟨⟨watcher.pattern, ids⟩, ?_, List.count_pos_iff.mp hpos⟩
      rw [List.mem_filter]
      exact ⟨(range.mem_list_iff _ _).mpr hp, hmatch⟩

/-! ### What a call with the write lock leaves in the channels -/

theorem mem_channels_iff (wm : Manager) (id : GoString) :
    id ∈ wm.channels ↔ ∃ sent, wm.sentTo id = some sent := by
  simp [Finmap.mem_iff, sentTo]

/-- No channel disappears or changes what it accepted; a new one is empty. The
only panic is that of a negative buffer size. -/
theorem Consistent.apply_channels (h : wm.Consistent) {op : RegistryOp} (hfresh : wm.Fresh op) :
    (∀ panic, (wm.apply op).2 = some panic → panic = .makeSize) ∧
      (∀ id, id ∈ wm.channels → id ∈ (wm.apply op).1.channels) ∧
      ∀ id sent, (wm.apply op).1.sentTo id = some sent →
        wm.sentTo id = some sent ∨ id ∉ wm.channels ∧ sent = [] := by
  have hkeep : ∀ wm' : Manager, (∀ id, wm'.sentTo id = wm.sentTo id) →
      (∀ id, id ∈ wm.channels → id ∈ wm'.channels) ∧
        ∀ id sent, wm'.sentTo id = some sent →
          wm.sentTo id = some sent ∨ id ∉ wm.channels ∧ sent = [] := by
    intro wm' hsame
    refine ⟨fun id hid => ?_, fun id sent hid => .inl ((hsame id).symm.trans hid)⟩
    rw [mem_channels_iff] at hid ⊢
    rwa [hsame id]
  cases op with
  | add id pattern policies transport userID =>
    rcases addWatcher_cases wm id pattern policies transport userID with
      ⟨e, he, heq⟩ | ⟨events, hmake, -, heq⟩
    · rw [Manager.apply, heq]
      rcases he with rfl | rfl
      · exact ⟨fun panic hp => (by cases hp), hkeep wm fun _ => rfl⟩
      · refine ⟨fun panic hp => ?_, hkeep wm fun _ => rfl⟩
        cases hp
        rfl
    · rw [Manager.apply, heq]
      refine ⟨fun panic hp => (by cases hp), fun id' hid' => ?_, fun id' sent hsent => ?_⟩
      · simp only [channels_addClient, channels_addPattern, Finmap.mem_insert]
        exact .inr hid'
      · simp only [sentTo, channels_addClient, channels_addPattern,
          GoMap.lookup_insert_ite] at hsent
        split_ifs at hsent with hid
        · subst hid
          simp only [Option.map_some, Option.some.injEq, (Chan.make_sent hmake).1] at hsent
          exact .inr ⟨hfresh, hsent.symm⟩
        · exact .inl hsent
  | remove id =>
    rcases h.removeWatcher_cases id with ⟨-, heq⟩ | ⟨watcher, events, hw, heq, hsent⟩
    · rw [Manager.apply, heq]
      exact ⟨fun panic hp => (by cases hp), hkeep wm fun _ => rfl⟩
    · rw [Manager.apply, heq]
      exact ⟨fun panic hp => (by cases hp), hkeep _ hsent⟩
  | close range =>
    obtain ⟨channels, heq, hsent⟩ := h.close_eq (range wm.watchers)
    rw [Manager.apply, heq]
    exact ⟨fun panic hp => (by cases hp), hkeep _ hsent⟩

theorem Consistent.apply_watchers (h : wm.Consistent) {op : RegistryOp} (hfresh : wm.Fresh op)
    {id : GoString} {watcher : Watcher} (hw : wm.watchers.lookup id = some watcher)
    (hremove : op ≠ .remove id) (hclose : ∀ range, op ≠ .close range) :
    (wm.apply op).1.watchers.lookup id = some watcher := by
  cases op with
  | add id' pattern policies transport userID =>
    rw [apply_add]
    rcases addWatcher_cases wm id' pattern policies transport userID with
      ⟨e, -, heq⟩ | ⟨events, -, -, heq⟩
    · rw [heq]
      exact hw
    · have hne : id ≠ id' := by
        rintro rfl
        obtain ⟨events, hevents, -⟩ := h.opened id watcher hw
        exact hfresh (Finmap.mem_iff.mpr ⟨events, hevents⟩)
      rw [heq]
      simp only [watchers_addClient, watchers_addPattern, GoMap.lookup_insert_ite, hne, ite_false]
      exact hw
  | remove id' =>
    have hne : id ≠ id' := fun heq => hremove (heq ▸ rfl)
    rcases h.removeWatcher_cases id' with ⟨-, heq⟩ | ⟨w', events, -, heq, -⟩
    · rw [Manager.apply, heq]
      exact hw
    · rw [Manager.apply, heq]
      simp only [GoMap.lookup_erase_ite, hne, ite_false]
      exact hw
  | close range => exact absurd rfl (hclose range)

end Manager

/-! ### The invariant -/

namespace NotifyCall

/-- Every id the call decides about, in order. -/
def walk (call : NotifyCall) : List GoString :=
  call.visited.map Visit.id ++ (call.pending.toList ++ call.todo)

/-- The call walks the matching watchers, and what it decided about is what it
enqueued under its number. -/
structure Sound (call : NotifyCall) (n : ℕ) (enqueued : List Delivery) : Prop where
  nodup : call.walk.Nodup
  mem_walk : ∀ id, id ∈ call.walk ↔
    ∃ watcher, call.registered.lookup id = some watcher ∧
      matchesPattern call.event.key watcher.pattern
  exact : ∀ id, (∃ d ∈ enqueued, d.call = n ∧ d.id = id) ↔
    ∃ v ∈ call.visited, v.id = id ∧ v.permitted ∧ v.room
  finished : call.returned → call.pending = none ∧ call.todo = []

/-- The call after its send to a watcher. -/
def decide (call : NotifyCall) (id : GoString) (room : Bool) : NotifyCall :=
  { call with pending := none, visited := call.visited ++ [⟨id, true, room⟩] }

variable {call : NotifyCall} {n : ℕ} {id : GoString} {enqueued : List Delivery}

theorem Sound.pending_new (h : call.Sound n enqueued) (hpending : call.pending = some id) :
    ∀ d ∈ enqueued, ¬ (d.call = n ∧ d.id = id) := by
  have hnodup := h.nodup
  simp only [walk, hpending, Option.toList_some, List.singleton_append] at hnodup
  intro d hd hdn
  obtain ⟨v, hv, hvid, -⟩ := (h.exact id).mp ⟨d, hd, hdn⟩
  have hmem : id ∈ call.visited.map Visit.id := hvid ▸ List.mem_map_of_mem hv
  exact (List.nodup_append.mp hnodup).2.2 id hmem id (List.mem_cons_self ..) rfl

theorem Sound.decide (h : call.Sound n enqueued) (hpending : call.pending = some id)
    (hrunning : call.returned = false) (room : Bool) :
    (call.decide id room).Sound n
      (if room then enqueued ++ [⟨n, id, call.event⟩] else enqueued) where
  nodup := by
    have := h.nodup
    simp only [walk, hpending] at this
    simpa [walk, NotifyCall.decide] using this
  mem_walk := by
    have := h.mem_walk
    simp only [walk, hpending] at this
    simpa [walk, NotifyCall.decide] using this
  exact id' := by
    have hold := h.exact id'
    cases room with
    | true =>
      simp only [ite_true, NotifyCall.decide, List.mem_append, List.mem_singleton, or_and_right,
        exists_or, exists_eq_left, hold, true_and, and_true]
    | false => simpa [NotifyCall.decide] using hold
  finished hreturned := by
    simp only [NotifyCall.decide, hrunning] at hreturned
    cases hreturned

theorem Sound.of_other {m : ℕ} (h : call.Sound m enqueued) (hne : n ≠ m) (room : Bool)
    (event : Event) :
    call.Sound m (if room then enqueued ++ [⟨n, id, event⟩] else enqueued) := by
  refine ⟨h.nodup, h.mem_walk, fun id' => ?_, h.finished⟩
  rw [← h.exact id']
  split_ifs
  · simp [or_and_right, exists_or, hne]
  · rfl

end NotifyCall

/-- Replacing a channel by an open one, or a closed one by any, keeps the maps in
agreement. -/
theorem Manager.Consistent.setChannel {wm : Manager} (h : wm.Consistent) {id : GoString}
    {events events' : Chan Event} (hlookup : wm.channels.lookup id = some events)
    (hopen : events.closed = false → events'.closed = false) :
    ({ wm with channels := wm.channels.insert id events' } : Manager).Consistent := by
  obtain ⟨hlisted, hnonempty, hcounted, hbounded, hopened⟩ := h
  refine ⟨hlisted, hnonempty, hcounted, hbounded, fun id' w hw => ?_⟩
  obtain ⟨c, hc, hcopen⟩ := hopened id' w hw
  simp only [GoMap.lookup_insert_ite]
  split_ifs with hid
  · subst hid
    rw [hlookup] at hc
    cases hc
    exact ⟨events', rfl, hopen hcopen⟩
  · exact ⟨c, hc, hcopen⟩

namespace Hub

/-- What every reachable hub satisfies. -/
structure Inv (h : Hub) : Prop where
  consistent : h.manager.Consistent
  sound : ∀ (n : ℕ) (call : NotifyCall), h.calls[n]? = some call → call.Sound n h.enqueued
  held : ∀ (n : ℕ) (call : NotifyCall), h.calls[n]? = some call → call.returned = false →
    call.registered = h.manager.watchers
  source : ∀ d ∈ h.enqueued, ∃ call, h.calls[d.call]? = some call ∧ d.event = call.event
  known : ∀ d ∈ h.enqueued, d.id ∈ h.manager.channels
  once : (h.enqueued.map fun d => (d.call, d.id)).Nodup
  sent : ∀ id sent, h.manager.sentTo id = some sent →
    sent = (h.enqueued.filter fun d => d.id = id).map Delivery.event

theorem inv_new (aclEval : Option Evaluator) (bufferSize maxPerClient : ℤ) :
    (new aclEval bufferSize maxPerClient).Inv where
  consistent := Manager.consistent_new aclEval bufferSize maxPerClient
  sound _ _ hcall := by simp [new] at hcall
  held _ _ hcall := by simp [new] at hcall
  source _ hd := absurd hd List.not_mem_nil
  known _ hd := absurd hd List.not_mem_nil
  once := List.nodup_nil
  sent _ _ hsent := by simp [new, Manager.sentTo, Manager.new] at hsent

variable {re : Regexp} {h : Hub}

theorem reading_eq_false_iff (h : Hub) :
    h.reading = false ↔
      ∀ (n : ℕ) (call : NotifyCall), h.calls[n]? = some call → call.returned = true := by
  simp only [reading, List.any_eq_false, Bool.not_eq_true', Bool.not_eq_false]
  constructor
  · exact fun hall n call hcall => hall call (List.mem_of_getElem? hcall)
  · intro hall call hmem
    obtain ⟨n, hn⟩ := List.getElem?_of_mem hmem
    exact hall n call hn

/-- Rule for a change of the manager that keeps channels and what they accepted;
a registration may change only while no call reads. -/
theorem Inv.manager (hinv : h.Inv) {wm : Manager} (hcons : wm.Consistent)
    (hheld : h.reading = false ∨ wm.watchers = h.manager.watchers)
    (hknown : ∀ id, id ∈ h.manager.channels → id ∈ wm.channels)
    (hsent : ∀ id sent, wm.sentTo id = some sent →
      h.manager.sentTo id = some sent ∨ id ∉ h.manager.channels ∧ sent = []) :
    ({ h with manager := wm } : Hub).Inv where
  consistent := hcons
  sound := hinv.sound
  held n call hcall hrunning := by
    rcases hheld with hno | hsame
    · have := (reading_eq_false_iff h).mp hno n call hcall
      rw [this] at hrunning
      cases hrunning
    · exact (hinv.held n call hcall hrunning).trans hsame.symm
  source := hinv.source
  known d hd := hknown _ (hinv.known d hd)
  once := hinv.once
  sent id sent hid := by
    rcases hsent id sent hid with hold | ⟨hnot, rfl⟩
    · exact hinv.sent id sent hold
    · have hnone : (h.enqueued.filter fun d => d.id = id) = [] := by
        rw [List.filter_eq_nil_iff]
        intro d hd heq
        have := of_decide_eq_true heq
        exact hnot (this ▸ hinv.known d hd)
      rw [hnone, List.map_nil]

/-- Rule for a change of one call that enqueues nothing. -/
theorem Inv.setCall (hinv : h.Inv) {n : ℕ} {call call' : NotifyCall}
    (hcall : h.calls[n]? = some call) (hsound : call'.Sound n h.enqueued)
    (hevent : call'.event = call.event)
    (hheld : call'.returned = false → call'.registered = h.manager.watchers) :
    (h.setCall n call').Inv where
  consistent := hinv.consistent
  sound m c hc := by
    simp only [Hub.setCall, List.getElem?_set] at hc
    split_ifs at hc with hmn hlt
    · cases hc
      exact hmn ▸ hsound
    · exact hinv.sound m c hc
  held m c hc hrunning := by
    simp only [Hub.setCall, List.getElem?_set] at hc
    split_ifs at hc with hmn hlt
    · cases hc
      exact hheld hrunning
    · exact hinv.held m c hc hrunning
  source d hd := by
    obtain ⟨c, hc, he⟩ := hinv.source d hd
    simp only [Hub.setCall, List.getElem?_set]
    by_cases hmn : n = d.call
    · subst hmn
      rw [hcall] at hc
      cases hc
      have hlt : d.call < h.calls.length := (List.getElem?_eq_some_iff.mp hcall).1
      exact ⟨call', by simp [hlt], he.trans hevent.symm⟩
    · exact ⟨c, by simp [hmn, hc], he⟩
  known := hinv.known
  once := hinv.once
  sent := hinv.sent

theorem Inv.notify (hinv : h.Inv) (event : Event)
    (range : (m : GoMap GoString (List GoString)) → m.Order) :
    (step re h (.notify event range)).1.Inv := by
  obtain ⟨hnodup, hmem⟩ := hinv.consistent.notifyIDs event.key (range h.manager.patterns)
  have hnew : ∀ d ∈ h.enqueued, d.call < h.calls.length := by
    intro d hd
    obtain ⟨c, hc, -⟩ := hinv.source d hd
    exact (List.getElem?_eq_some_iff.mp hc).1
  refine ⟨hinv.consistent, ?_, ?_, ?_, hinv.known, hinv.once, hinv.sent⟩
  · intro n call hcall
    simp only [step, List.getElem?_append] at hcall
    split_ifs at hcall with hlt
    · exact hinv.sound n call hcall
    · obtain ⟨hzero, rfl⟩ : n - h.calls.length = 0 ∧ _ = call := by
        have := List.getElem?_eq_some_iff.mp hcall
        obtain ⟨hlt', hget⟩ := this
        simp only [List.length_singleton, Nat.lt_one_iff] at hlt'
        refine ⟨hlt', ?_⟩
        simpa [hlt'] using hget
      constructor
      · simpa [NotifyCall.walk] using hnodup
      · simpa [NotifyCall.walk] using hmem
      · intro id
        constructor
        · rintro ⟨d, hd, hdn, -⟩
          have := hnew d hd
          omega
        · rintro ⟨v, hv, -⟩
          cases hv
      · intro hreturned
        cases hreturned
  · intro n call hcall hrunning
    simp only [step, List.getElem?_append] at hcall
    split_ifs at hcall with hlt
    · exact hinv.held n call hcall hrunning
    · obtain ⟨hlt', hget⟩ := List.getElem?_eq_some_iff.mp hcall
      simp only [List.length_singleton, Nat.lt_one_iff] at hlt'
      simp only [hlt', List.getElem_cons_zero] at hget
      subst hget
      rfl
  · intro d hd
    obtain ⟨c, hc, he⟩ := hinv.source d hd
    refine ⟨c, ?_, he⟩
    simp only [step, List.getElem?_append_left (hnew d hd), hc]

theorem Inv.check (hinv : h.Inv) {n : ℕ} {call : NotifyCall} (hcall : h.calls[n]? = some call)
    (hpending : call.pending = none) : (h.check re n call).Inv := by
  have hsound := hinv.sound n call hcall
  rw [Hub.check]
  split
  · exact hinv
  · next id todo htodo =>
    have hwalk : call.walk = call.visited.map Visit.id ++ id :: todo := by
      simp [NotifyCall.walk, hpending, htodo]
    have hrunning : call.returned = false := by
      by_contra hreturned
      have := (hsound.finished (by simpa using hreturned)).2
      rw [htodo] at this
      cases this
    have hheld := hinv.held n call hcall hrunning
    obtain ⟨watcher, hw, -⟩ := (hsound.mem_walk id).mp (by simp [hwalk])
    rw [hheld] at hw
    simp only [hw]
    split_ifs
    · refine hinv.setCall hcall ⟨?_, ?_, hsound.exact, ?_⟩ rfl fun _ => hheld
      · have := hsound.nodup
        rw [hwalk] at this
        simpa [NotifyCall.walk] using this
      · have := hsound.mem_walk
        rw [hwalk] at this
        simpa [NotifyCall.walk] using this
      · intro hreturned
        rw [hrunning] at hreturned
        cases hreturned
    · refine hinv.setCall hcall ⟨?_, ?_, ?_, ?_⟩ rfl fun _ => hheld
      · have := hsound.nodup
        rw [hwalk] at this
        simpa [NotifyCall.walk, hpending] using this
      · have := hsound.mem_walk
        rw [hwalk] at this
        simpa [NotifyCall.walk, hpending] using this
      · intro id'
        rw [hsound.exact id']
        simp
      · intro hreturned
        rw [hrunning] at hreturned
        cases hreturned

/-- The pending watcher of a call is still registered and its channel open. -/
theorem Inv.pending_open (hinv : h.Inv) {n : ℕ} {call : NotifyCall} {id : GoString}
    (hcall : h.calls[n]? = some call) (hpending : call.pending = some id) :
    call.returned = false ∧ h.manager.Open id := by
  have hsound := hinv.sound n call hcall
  have hrunning : call.returned = false := by
    by_contra hreturned
    have := (hsound.finished (by simpa using hreturned)).1
    rw [hpending] at this
    cases this
  have hmem : id ∈ call.walk := by simp [NotifyCall.walk, hpending]
  obtain ⟨watcher, hw, -⟩ := (hsound.mem_walk id).mp hmem
  rw [hinv.held n call hcall hrunning] at hw
  exact ⟨hrunning, hinv.consistent.opened id watcher hw⟩

/-- What a send does: it enqueues iff the channel has room, and never panics. -/
theorem Inv.send_eq (hinv : h.Inv) {n : ℕ} {call : NotifyCall} {id : GoString}
    (hcall : h.calls[n]? = some call) (hpending : call.pending = some id) :
    ∃ events events', h.manager.channels.lookup id = some events ∧ events'.closed = false ∧
      events'.sent = (if h.hasRoom id then events.sent ++ [call.event] else events.sent) ∧
      h.send n call id =
        ({ manager := { h.manager with channels := h.manager.channels.insert id events' }
           calls := h.calls.set n (call.decide id (h.hasRoom id))
           enqueued := if h.hasRoom id then h.enqueued ++ [⟨n, id, call.event⟩] else h.enqueued },
          none) := by
  obtain ⟨-, events, hlookup, hopen⟩ := hinv.pending_open hcall hpending
  have hroom : h.hasRoom id = events.hasRoom := by rw [hasRoom, hlookup]
  obtain ⟨events', hsend, hopen', hsent⟩ := Chan.trySend_spec hopen call.event
  refine ⟨events, events', hlookup, hopen', by rw [hroom, hsent], ?_⟩
  rw [Hub.send, hlookup]
  simp only [hsend, hroom]
  rfl

theorem Inv.send (hinv : h.Inv) {n : ℕ} {call : NotifyCall} {id : GoString}
    (hcall : h.calls[n]? = some call) (hpending : call.pending = some id) :
    (h.send n call id).1.Inv := by
  have hsound := hinv.sound n call hcall
  obtain ⟨hrunning, -⟩ := hinv.pending_open hcall hpending
  obtain ⟨events, events', hlookup, hopen, hsent, heq⟩ := hinv.send_eq hcall hpending
  rw [heq]
  have hlt : n < h.calls.length := (List.getElem?_eq_some_iff.mp hcall).1
  have hset : (h.calls.set n (call.decide id (h.hasRoom id)))[n]? =
      some (call.decide id (h.hasRoom id)) := by
    simp [hlt]
  have hset_ne : ∀ m, n ≠ m →
      (h.calls.set n (call.decide id (h.hasRoom id)))[m]? = h.calls[m]? := fun m hmn => by
    simp [hmn]
  have hcases : ∀ d, d ∈ (if h.hasRoom id then h.enqueued ++ [⟨n, id, call.event⟩]
      else h.enqueued) → d ∈ h.enqueued ∨ d = ⟨n, id, call.event⟩ := by
    intro d hd
    split_ifs at hd
    · rcases List.mem_append.mp hd with hd | hd
      · exact .inl hd
      · exact .inr (List.mem_singleton.mp hd)
    · exact .inl hd
  constructor
  · exact hinv.consistent.setChannel hlookup fun _ => hopen
  · intro m c hc
    by_cases hmn : n = m
    · subst hmn
      rw [hset] at hc
      cases hc
      exact hsound.decide hpending hrunning _
    · rw [hset_ne m hmn] at hc
      exact (hinv.sound m c hc).of_other hmn _ _
  · intro m c hc hcrunning
    by_cases hmn : n = m
    · subst hmn
      rw [hset] at hc
      cases hc
      exact hinv.held n call hcall hrunning
    · rw [hset_ne m hmn] at hc
      exact hinv.held m c hc hcrunning
  · intro d hd
    rcases hcases d hd with hd | rfl
    · obtain ⟨c, hc, he⟩ := hinv.source d hd
      by_cases hmn : n = d.call
      · subst hmn
        rw [hcall] at hc
        cases hc
        exact ⟨_, hset, he⟩
      · exact ⟨c, (hset_ne _ hmn).trans hc, he⟩
    · exact ⟨_, hset, rfl⟩
  · intro d hd
    rw [Finmap.mem_insert]
    rcases hcases d hd with hd | rfl
    · exact .inr (hinv.known d hd)
    · exact .inl rfl
  · have hnew := hsound.pending_new hpending
    split_ifs
    · rw [List.map_append, List.nodup_append]
      refine ⟨hinv.once, List.nodup_singleton _, ?_⟩
      rintro p hp q hq rfl
      obtain ⟨d, hd, hdp⟩ := List.mem_map.mp hp
      simp only [List.map_cons, List.map_nil, List.mem_singleton] at hq
      rw [hq, Prod.mk.injEq] at hdp
      exact hnew d hd hdp
    · exact hinv.once
  · intro id' sent hid'
    simp only [Manager.sentTo, GoMap.lookup_insert_ite] at hid'
    by_cases hid : id' = id
    · subst hid
      simp only [ite_true, Option.map_some, Option.some.injEq] at hid'
      have hold := hinv.sent id' events.sent (by simp only [Manager.sentTo, hlookup, Option.map_some])
      rw [← hid', hsent]
      split_ifs
      · simp [hold, List.filter_append]
      · exact hold
    · simp only [hid, ite_false] at hid'
      have hold := hinv.sent id' sent hid'
      split_ifs
      · simp [hold, List.filter_append, Ne.symm hid]
      · exact hold

theorem Inv.receive (hinv : h.Inv) {id : GoString} {events : Chan Event}
    (hlookup : h.manager.channels.lookup id = some events) :
    ({ h with manager := { h.manager with
      channels := h.manager.channels.insert id events.receive } } : Hub).Inv := by
  have hsame : ∀ id', ({ h.manager with
      channels := h.manager.channels.insert id events.receive } : Manager).sentTo id' =
      h.manager.sentTo id' := by
    intro id'
    simp only [Manager.sentTo, GoMap.lookup_insert_ite]
    split_ifs with hid
    · rw [hid, hlookup, Option.map_some, Option.map_some, Chan.receive_sent]
    · rfl
  have hopen : events.closed = false → events.receive.closed = false := by
    rw [Chan.receive_closed]
    exact fun hc => hc
  refine hinv.manager (hinv.consistent.setChannel hlookup hopen) (.inr rfl) (fun id' hid' => ?_)
    fun id' sent hsent => .inl ((hsame id').symm.trans hsent)
  rw [Finmap.mem_insert]
  exact .inr hid'

/-! ### What a step does -/

/-- The steps by what they do: a step that is not possible leaves everything, and
the others find the lock, the call or the channel they need. -/
inductive Effect (re : Regexp) (h : Hub) : HubStep → Hub × Option Panic → Prop
  | still (i : HubStep) : h.Effect re i (h, none)
  | wrote {op : RegistryOp} (hno : h.reading = false) :
    h.Effect re (.write op) ({ h with manager := (h.manager.apply op).1 }, (h.manager.apply op).2)
  | began (event : Event) (range : (m : GoMap GoString (List GoString)) → m.Order) :
    h.Effect re (.notify event range) (h.step re (.notify event range))
  | checked {n : ℕ} {call : NotifyCall} (hcall : h.calls[n]? = some call)
      (hpending : call.pending = none) :
    h.Effect re (.check n) (h.check re n call, none)
  | sent {n : ℕ} {call : NotifyCall} {id : GoString} (hcall : h.calls[n]? = some call)
      (hpending : call.pending = some id) :
    h.Effect re (.send n) (h.send n call id)
  | returned {n : ℕ} {call : NotifyCall} (hcall : h.calls[n]? = some call)
      (hpending : call.pending = none) (htodo : call.todo = []) :
    h.Effect re (.finish n) (h.setCall n { call with returned := true }, none)
  | received {id : GoString} {events : Chan Event}
      (hlookup : h.manager.channels.lookup id = some events) :
    h.Effect re (.receive id)
      ({ h with manager := { h.manager with
        channels := h.manager.channels.insert id events.receive } }, none)
  | decided (policies : Evaluator) :
    h.Effect re (.setPolicies policies) (h.step re (.setPolicies policies))

theorem step_effect (re : Regexp) (h : Hub) (i : HubStep) : h.Effect re i (h.step re i) := by
  cases i with
  | write op =>
    rw [step]
    split_ifs with hreading
    · exact .still _
    · exact .wrote (by simpa using hreading)
  | notify event range => exact .began event range
  | check n =>
    rw [step]
    cases hcall : h.calls[n]? with
    | none => exact .still _
    | some call =>
      simp only
      split_ifs with hpending
      · exact .checked hcall hpending
      · exact .still _
  | send n =>
    rw [step]
    cases hcall : h.calls[n]? with
    | none => exact .still _
    | some call =>
      simp only
      cases hpending : call.pending with
      | none => exact .still _
      | some id => exact .sent hcall hpending
  | finish n =>
    rw [step]
    cases hcall : h.calls[n]? with
    | none => exact .still _
    | some call =>
      simp only
      split_ifs with hdone
      · exact .returned hcall hdone.1 hdone.2
      · exact .still _
  | receive id =>
    rw [step]
    cases hlookup : h.manager.channels.lookup id with
    | none => exact .still _
    | some events => exact .received hlookup
  | setPolicies policies => exact .decided policies

/-- A check leaves the calls, or moves one past a watcher; it decides only by a
refusal. -/
theorem check_cases (re : Regexp) (h : Hub) (n : ℕ) (call : NotifyCall) :
    h.check re n call = h ∨
      ∃ call', h.check re n call = h.setCall n call' ∧ call'.event = call.event ∧
        call'.registered = call.registered ∧ call'.returned = call.returned ∧
        (call'.visited = call.visited ∨
          ∃ id, call'.visited = call.visited ++ [⟨id, false, h.hasRoom id⟩]) := by
  rw [check]
  split
  · exact .inl rfl
  · next id _ _ =>
    split
    · exact .inr ⟨_, rfl, rfl, rfl, rfl, .inl rfl⟩
    · split_ifs
      · exact .inr ⟨_, rfl, rfl, rfl, rfl, .inl rfl⟩
      · exact .inr ⟨_, rfl, rfl, rfl, rfl, .inr ⟨id, rfl⟩⟩

/-- A step ends in a good state, and panics at most on a negative buffer size. -/
def Sane (r : Hub × Option Panic) : Prop :=
  r.1.Inv ∧ ∀ panic, r.2 = some panic → panic = .makeSize

theorem Inv.sane (hinv : h.Inv) : Sane (h, none) := ⟨hinv, fun _ hp => (nomatch hp)⟩

theorem Inv.effect (hinv : h.Inv) {i : HubStep} {r : Hub × Option Panic} (hfresh : h.Fresh i)
    (he : h.Effect re i r) : Sane r := by
  cases he with
  | still i => exact hinv.sane
  | wrote hno =>
    obtain ⟨hpanic, hknown, hsent⟩ := hinv.consistent.apply_channels hfresh
    exact ⟨hinv.manager (hinv.consistent.apply hfresh) (.inl hno) hknown hsent, hpanic⟩
  | began event range =>
    have hnew : (h.step re (.notify event range)).1.Inv := hinv.notify event range
    exact hnew.sane
  | checked hcall hpending => exact (hinv.check hcall hpending).sane
  | @sent n call id hcall hpending =>
    obtain ⟨_, _, -, -, -, heq⟩ := hinv.send_eq hcall hpending
    have hnone : (h.send n call id).2 = none := by rw [heq]
    exact ⟨hinv.send hcall hpending, fun panic hp => by simp [hnone] at hp⟩
  | @returned n call hcall hpending htodo =>
    obtain ⟨h1, h2, h3, -⟩ := hinv.sound n call hcall
    have hnew : (h.setCall n { call with returned := true }).Inv :=
      hinv.setCall hcall ⟨h1, h2, h3, fun _ => ⟨hpending, htodo⟩⟩ rfl
        fun hrunning => (nomatch hrunning)
    exact hnew.sane
  | received hlookup => exact (hinv.receive hlookup).sane
  | decided policies =>
    obtain ⟨h1, h2, h3, h4, h5⟩ := hinv.consistent
    have hnew : (h.step re (.setPolicies policies)).1.Inv :=
      hinv.manager ⟨h1, h2, h3, h4, h5⟩ (.inr rfl) (fun _ hid => hid) fun _ _ hsent => .inl hsent
    exact hnew.sane

theorem Inv.step (hinv : h.Inv) {i : HubStep} (hfresh : h.Fresh i) : Sane (Hub.step re h i) :=
  hinv.effect hfresh (step_effect re h i)

/-! ### The order of calls -/

/-- What a later state keeps of an earlier one: events are only appended, none of
them by a call that had returned, and a call keeps its event and its registry. -/
structure Extends (before after : Hub) : Prop where
  enqueued : ∃ later, after.enqueued = before.enqueued ++ later ∧
    ∀ d ∈ later, ∀ call, before.calls[d.call]? = some call → call.returned = false
  calls : ∀ (n : ℕ) (call : NotifyCall), before.calls[n]? = some call →
    ∃ call', after.calls[n]? = some call' ∧ call'.event = call.event ∧
      call'.registered = call.registered ∧ (call.returned → call'.returned)

theorem Extends.refl (h : Hub) : Extends h h where
  enqueued := ⟨[], (List.append_nil _).symm, fun _ hd => absurd hd List.not_mem_nil⟩
  calls _ call hcall := ⟨call, hcall, rfl, rfl, fun hreturned => hreturned⟩

theorem Extends.trans {h h' h'' : Hub} (h1 : Extends h h') (h2 : Extends h' h'') :
    Extends h h'' where
  enqueued := by
    obtain ⟨later, heq, hlater⟩ := h1.enqueued
    obtain ⟨later', heq', hlater'⟩ := h2.enqueued
    refine ⟨later ++ later', by rw [heq', heq, List.append_assoc], fun d hd call hcall => ?_⟩
    rcases List.mem_append.mp hd with hd | hd
    · exact hlater d hd call hcall
    · obtain ⟨call', hcall', -, -, hreturned⟩ := h1.calls _ call hcall
      have hrunning := hlater' d hd call' hcall'
      cases hret : call.returned with
      | false => rfl
      | true => rw [hreturned hret] at hrunning; cases hrunning
  calls n call hcall := by
    obtain ⟨call', hcall', he, hr, hret⟩ := h1.calls n call hcall
    obtain ⟨call'', hcall'', he', hr', hret'⟩ := h2.calls n call' hcall'
    exact ⟨call'', hcall'', he'.trans he, hr'.trans hr, fun hreturned => hret' (hret hreturned)⟩

theorem extends_manager (h : Hub) (wm : Manager) : Extends h { h with manager := wm } :=
  ⟨(Extends.refl h).enqueued, (Extends.refl h).calls⟩

theorem extends_calls {n : ℕ} {call call' : NotifyCall} (hcall : h.calls[n]? = some call)
    (hevent : call'.event = call.event) (hregistered : call'.registered = call.registered)
    (hreturned : call.returned → call'.returned) (m : ℕ) (c : NotifyCall)
    (hc : h.calls[m]? = some c) :
    ∃ c', (h.calls.set n call')[m]? = some c' ∧ c'.event = c.event ∧
      c'.registered = c.registered ∧ (c.returned → c'.returned) := by
  by_cases hmn : n = m
  · subst hmn
    rw [hcall] at hc
    cases hc
    have hlt : n < h.calls.length := (List.getElem?_eq_some_iff.mp hcall).1
    exact ⟨call', by simp [hlt], hevent, hregistered, hreturned⟩
  · exact ⟨c, by simp [hmn, hc], rfl, rfl, fun hret => hret⟩

theorem extends_check (n : ℕ) {call : NotifyCall} (hcall : h.calls[n]? = some call) :
    Extends h (h.check re n call) := by
  rcases check_cases re h n call with heq | ⟨call', heq, hevent, hregistered, hreturned, -⟩
  · rw [heq]
    exact Extends.refl h
  · rw [heq]
    exact ⟨(Extends.refl h).enqueued,
      extends_calls hcall hevent hregistered fun hret => hreturned.trans hret⟩

theorem Inv.extends_send (hinv : h.Inv) {n : ℕ} {call : NotifyCall} {id : GoString}
    (hcall : h.calls[n]? = some call) (hpending : call.pending = some id) :
    Extends h (h.send n call id).1 := by
  obtain ⟨hrunning, -⟩ := hinv.pending_open hcall hpending
  obtain ⟨_, _, -, -, -, heq⟩ := hinv.send_eq hcall hpending
  rw [heq]
  refine ⟨?_, extends_calls hcall rfl rfl fun hret => hret⟩
  simp only
  split_ifs
  · refine ⟨_, rfl, fun d hd c hc => ?_⟩
    rw [List.mem_singleton.mp hd, hcall] at hc
    cases hc
    exact hrunning
  · exact (Extends.refl h).enqueued

/-- What a step does to the calls: it adds one, leaves them, or moves one on. -/
theorem calls_step (h : Hub) (i : HubStep) :
    (∃ event range, i = .notify event range ∧ (Hub.step re h i).1.calls = h.calls ++
        [⟨event, h.manager.notifyIDs event.key (range h.manager.patterns), none, [],
          h.manager.watchers, false⟩]) ∨
      (Hub.step re h i).1.calls = h.calls ∨
      ∃ n call call', h.calls[n]? = some call ∧
        (Hub.step re h i).1.calls = h.calls.set n call' ∧ call'.event = call.event ∧
        call'.registered = call.registered ∧ (call.returned → call'.returned) := by
  have he := step_effect re h i
  generalize Hub.step re h i = r at he ⊢
  cases he with
  | still i => exact .inr (.inl rfl)
  | wrote hno => exact .inr (.inl rfl)
  | began event range => exact .inl ⟨event, range, rfl, rfl⟩
  | @checked n call hcall hpending =>
    rcases check_cases re h n call with heq | ⟨call', heq, hevent, hregistered, hreturned, -⟩
    · exact .inr (.inl (congrArg Hub.calls heq))
    · exact .inr (.inr ⟨n, call, call', hcall, congrArg Hub.calls heq, hevent, hregistered,
        fun hret => hreturned.trans hret⟩)
  | @sent n call id hcall hpending =>
    simp only [Hub.send]
    split
    · exact .inr (.inr ⟨n, call, _, hcall, rfl, rfl, rfl, fun hret => hret⟩)
    · split
      · exact .inr (.inl rfl)
      · exact .inr (.inr ⟨n, call, _, hcall, rfl, rfl, rfl, fun hret => hret⟩)
  | returned hcall hpending htodo =>
    exact .inr (.inr ⟨_, _, _, hcall, rfl, rfl, rfl, fun _ => rfl⟩)
  | received hlookup => exact .inr (.inl rfl)
  | decided policies => exact .inr (.inl rfl)

theorem Inv.extends_effect (hinv : h.Inv) {i : HubStep} {r : Hub × Option Panic}
    (he : h.Effect re i r) : Extends h r.1 := by
  cases he with
  | still i => exact Extends.refl h
  | wrote hno => exact extends_manager h _
  | began event range =>
    refine ⟨(Extends.refl h).enqueued, fun n call hcall => ⟨call, ?_, rfl, rfl, fun hret => hret⟩⟩
    have hlt : n < h.calls.length := (List.getElem?_eq_some_iff.mp hcall).1
    rw [Hub.step, List.getElem?_append_left hlt, hcall]
  | checked hcall hpending => exact extends_check _ hcall
  | sent hcall hpending => exact hinv.extends_send hcall hpending
  | returned hcall hpending htodo =>
    exact ⟨(Extends.refl h).enqueued, extends_calls hcall rfl rfl fun _ => rfl⟩
  | received hlookup => exact extends_manager h _
  | decided policies => exact extends_manager h _

theorem Inv.extends_step (hinv : h.Inv) (i : HubStep) : Extends h (Hub.step re h i).1 :=
  hinv.extends_effect (step_effect re h i)

/-! ### The moments of a decision -/

/-- A check of call `n`, from this state, asks `canWatch` about the registered `id`. -/
def Checks (re : Regexp) (h : Hub) (n : ℕ) (event : Event) (id : GoString) (permitted : Bool) :
    Prop :=
  ∃ call todo watcher, h.calls[n]? = some call ∧ call.event = event ∧ call.pending = none ∧
    call.todo = id :: todo ∧ h.manager.watchers.lookup id = some watcher ∧
    h.manager.canWatch re watcher event.key = permitted

/-- A send of call `n`, from this state, is to `id`, whose channel has room or not. -/
def Sends (h : Hub) (n : ℕ) (event : Event) (id : GoString) (room : Bool) : Prop :=
  ∃ call, h.calls[n]? = some call ∧ call.event = event ∧ call.pending = some id ∧
    h.hasRoom id = room

/-- A check in the run permitted call `n` to send to `id`. -/
def Permitted (re : Regexp) (h : Hub) (steps : List HubStep) (n : ℕ) (event : Event)
    (id : GoString) : Prop :=
  ∃ before later, steps = before ++ .check n :: later ∧
    ((machine re).run h before).1.Checks re n event id true

/-- A visit shows what `canWatch` answered at the check and, if it permitted the watcher,
whether there was room at the send after it. -/
def Decided (re : Regexp) (h : Hub) (steps : List HubStep) (n : ℕ) (event : Event) (v : Visit) :
    Prop :=
  ∃ before later, steps = before ++ .check n :: later ∧
    ((machine re).run h before).1.Checks re n event v.id v.permitted ∧
    (v.permitted = true → ∃ between rest, later = between ++ .send n :: rest ∧
      ((machine re).run h (before ++ .check n :: between)).1.Sends n event v.id v.room)

theorem Permitted.snoc {steps : List HubStep} {n : ℕ} {event : Event} {id : GoString}
    (hp : Permitted re h steps n event id) (i : HubStep) :
    Permitted re h (steps ++ [i]) n event id := by
  obtain ⟨before, later, rfl, hcheck⟩ := hp
  exact ⟨before, later ++ [i], by rw [List.append_assoc, List.cons_append], hcheck⟩

theorem Decided.snoc {steps : List HubStep} {n : ℕ} {event : Event} {v : Visit}
    (hd : Decided re h steps n event v) (i : HubStep) :
    Decided re h (steps ++ [i]) n event v := by
  obtain ⟨before, later, rfl, hcheck, hsend⟩ := hd
  refine ⟨before, later ++ [i], by rw [List.append_assoc, List.cons_append], hcheck, fun hv => ?_⟩
  obtain ⟨between, rest, rfl, hroom⟩ := hsend hv
  exact ⟨between, rest ++ [i], by rw [List.append_assoc, List.cons_append], hroom⟩

/-- How the call numbered `n` changes in a step: not at all, by a check that permits or
refuses, or by a send. -/
inductive Turn (re : Regexp) (h : Hub) (n : ℕ) : HubStep → NotifyCall → Prop
  | began (i : HubStep) {call' : NotifyCall} (hvisited : call'.visited = [])
      (hpending : call'.pending = none) : h.Turn re n i call'
  | same (i : HubStep) {call call' : NotifyCall} (hcall : h.calls[n]? = some call)
      (hevent : call'.event = call.event) (hvisited : call'.visited = call.visited)
      (hpending : call'.pending = call.pending) : h.Turn re n i call'
  | permits {call call' : NotifyCall} {id : GoString} (hcall : h.calls[n]? = some call)
      (hevent : call'.event = call.event) (hcheck : h.Checks re n call.event id true)
      (hvisited : call'.visited = call.visited) (hpending : call'.pending = some id) :
      h.Turn re n (.check n) call'
  | refuses {call call' : NotifyCall} {id : GoString} {room : Bool}
      (hcall : h.calls[n]? = some call) (hevent : call'.event = call.event)
      (hcheck : h.Checks re n call.event id false)
      (hvisited : call'.visited = call.visited ++ [⟨id, false, room⟩])
      (hpending : call'.pending = none) : h.Turn re n (.check n) call'
  | sends {call call' : NotifyCall} {id : GoString} (hcall : h.calls[n]? = some call)
      (hevent : call'.event = call.event) (hsend : call.pending = some id)
      (hvisited : call'.visited = call.visited ++ [⟨id, true, h.hasRoom id⟩])
      (hpending : call'.pending = none) : h.Turn re n (.send n) call'

theorem getElem?_set_cases {calls : List NotifyCall} {m n : ℕ} {call d : NotifyCall}
    (hd : (calls.set m call)[n]? = some d) : m = n ∧ d = call ∨ calls[n]? = some d := by
  rw [List.getElem?_set] at hd
  split_ifs at hd with hmn hlt
  · exact .inl ⟨hmn, (Option.some.inj hd).symm⟩
  · exact .inr hd

theorem turn_check {m n : ℕ} {call call' : NotifyCall} (hcall : h.calls[m]? = some call)
    (hpending : call.pending = none) (hcall' : (h.check re m call).calls[n]? = some call') :
    h.Turn re n (.check m) call' := by
  rw [Hub.check] at hcall'
  split at hcall'
  · exact .same _ hcall' rfl rfl rfl
  · next id todo htodo =>
    split at hcall'
    · rcases getElem?_set_cases hcall' with ⟨rfl, rfl⟩ | hold
      · exact .same _ hcall rfl rfl rfl
      · exact .same _ hold rfl rfl rfl
    · next watcher hw =>
      split_ifs at hcall' with hcan
      · rcases getElem?_set_cases hcall' with ⟨rfl, rfl⟩ | hold
        · exact .permits hcall rfl ⟨call, todo, watcher, hcall, rfl, hpending, htodo, hw, hcan⟩ rfl rfl
        · exact .same _ hold rfl rfl rfl
      · rcases getElem?_set_cases hcall' with ⟨rfl, rfl⟩ | hold
        · have hcannot : h.manager.canWatch re watcher call.event.key = false := by
            simpa using hcan
          exact .refuses hcall rfl ⟨call, todo, watcher, hcall, rfl, hpending, htodo, hw, hcannot⟩
            rfl hpending
        · exact .same _ hold rfl rfl rfl

theorem turn_send {m n : ℕ} {call call' : NotifyCall} {id : GoString}
    (hcall : h.calls[m]? = some call) (hpending : call.pending = some id)
    (hcall' : (h.send m call id).1.calls[n]? = some call') : h.Turn re n (.send m) call' := by
  have hdecided (hset : (h.calls.set m { call with
      pending := none, visited := call.visited ++ [⟨id, true, h.hasRoom id⟩] })[n]? = some call') :
      h.Turn re n (.send m) call' := by
    rcases getElem?_set_cases hset with ⟨rfl, rfl⟩ | hold
    · exact .sends hcall rfl hpending rfl rfl
    · exact .same _ hold rfl rfl rfl
  rw [Hub.send] at hcall'
  split at hcall'
  · exact hdecided hcall'
  · split at hcall'
    · exact .same _ hcall' rfl rfl rfl
    · exact hdecided hcall'

theorem turn_step {i : HubStep} {n : ℕ} {call' : NotifyCall}
    (hcall' : (Hub.step re h i).1.calls[n]? = some call') : h.Turn re n i call' := by
  have he := step_effect re h i
  generalize Hub.step re h i = r at he hcall'
  cases he with
  | still i => exact .same _ hcall' rfl rfl rfl
  | wrote hno => exact .same _ hcall' rfl rfl rfl
  | began event range =>
    have hnext : (h.calls ++ [_])[n]? = some call' := hcall'
    rw [List.getElem?_append] at hnext
    split_ifs at hnext
    · exact .same _ hnext rfl rfl rfl
    · have hlast := List.mem_singleton.mp (List.mem_of_getElem? hnext)
      rw [hlast]
      exact .began _ rfl rfl
  | checked hcall hpending => exact turn_check hcall hpending hcall'
  | sent hcall hpending => exact turn_send hcall hpending hcall'
  | returned hcall hpending htodo =>
    rcases getElem?_set_cases hcall' with ⟨rfl, rfl⟩ | hold
    · exact .same _ hcall rfl rfl rfl
    · exact .same _ hold rfl rfl rfl
  | received hlookup => exact .same _ hcall' rfl rfl rfl
  | decided policies => exact .same _ hcall' rfl rfl rfl

/-- Every visit of a run was decided by its check and its send, and who is to be sent to
was permitted by a check. -/
theorem decided_run (hnone : h.calls = []) {steps : List HubStep} {n : ℕ} {call : NotifyCall}
    (hcall : ((machine re).run h steps).1.calls[n]? = some call) :
    (∀ v ∈ call.visited, Decided re h steps n call.event v) ∧
      ∀ id, call.pending = some id → Permitted re h steps n call.event id := by
  induction steps using List.reverseRecOn generalizing call with
  | nil =>
    rw [Machine.run_nil, hnone] at hcall
    cases hcall
  | append_singleton steps i ih =>
    rw [Machine.run_snoc] at hcall
    have hturn : ((machine re).run h steps).1.Turn re n i call := turn_step hcall
    cases hturn with
    | began _ hvisited hpending =>
      rw [hvisited, hpending]
      exact ⟨fun v hv => absurd hv List.not_mem_nil, fun id hid => nomatch hid⟩
    | same _ hbefore hevent hvisited hpending =>
      obtain ⟨hdecided, hpermitted⟩ := ih hbefore
      rw [hvisited, hpending, hevent]
      exact ⟨fun v hv => (hdecided v hv).snoc i, fun id hid => (hpermitted id hid).snoc i⟩
    | permits hbefore hevent hcheck hvisited hpending =>
      obtain ⟨hdecided, -⟩ := ih hbefore
      rw [hvisited, hpending, hevent]
      refine ⟨fun v hv => (hdecided v hv).snoc _, fun id hid => ?_⟩
      cases hid
      exact ⟨steps, [], rfl, hcheck⟩
    | refuses hbefore hevent hcheck hvisited hpending =>
      obtain ⟨hdecided, -⟩ := ih hbefore
      rw [hvisited, hpending, hevent]
      refine ⟨fun v hv => ?_, fun id hid => nomatch hid⟩
      rcases List.mem_append.mp hv with hv | hv
      · exact (hdecided v hv).snoc _
      · rw [List.mem_singleton.mp hv]
        exact ⟨steps, [], rfl, hcheck, fun hpermitted => nomatch hpermitted⟩
    | @sends before _ id hbefore hevent hsend hvisited hpending =>
      obtain ⟨hdecided, hpermitted⟩ := ih hbefore
      rw [hvisited, hpending, hevent]
      refine ⟨fun v hv => ?_, fun id hid => nomatch hid⟩
      rcases List.mem_append.mp hv with hv | hv
      · exact (hdecided v hv).snoc _
      · rw [List.mem_singleton.mp hv]
        obtain ⟨first, between, rfl, hcheck⟩ := hpermitted id hsend
        refine ⟨first, between ++ [.send n], by rw [List.append_assoc, List.cons_append], hcheck,
          fun _ => ⟨between, [], rfl, before, hbefore, rfl, hsend, rfl⟩⟩

/-! ### Every run -/

/-- Delivery in a state: a channel accepted what the calls enqueued there, in that
order; no call enqueues twice for one watcher, and it enqueues exactly where it
found permission and room; a call that returned has decided once about each
watcher that was registered under a matching pattern, and about no other. -/
structure Exact (h : Hub) : Prop where
  sent : ∀ id events, h.manager.channels.lookup id = some events →
    events.sent = (h.enqueued.filter fun d => d.id = id).map Delivery.event
  source : ∀ d ∈ h.enqueued, ∃ call, h.calls[d.call]? = some call ∧ d.event = call.event
  once : (h.enqueued.map fun d => (d.call, d.id)).Nodup
  exact : ∀ (n : ℕ) (call : NotifyCall), h.calls[n]? = some call →
    ∀ id, (∃ d ∈ h.enqueued, d.call = n ∧ d.id = id) ↔
      ∃ v ∈ call.visited, v.id = id ∧ v.permitted ∧ v.room
  visits : ∀ (n : ℕ) (call : NotifyCall), h.calls[n]? = some call → call.returned →
    (call.visited.map Visit.id).Nodup ∧
      ∀ id, id ∈ call.visited.map Visit.id ↔
        ∃ watcher, call.registered.lookup id = some watcher ∧
          matchesPattern call.event.key watcher.pattern
  held : ∀ (n : ℕ) (call : NotifyCall), h.calls[n]? = some call → call.returned = false →
    call.registered = h.manager.watchers

theorem Inv.delivery (hinv : h.Inv) : h.Exact where
  sent id events hlookup := hinv.sent id events.sent (by simp [Manager.sentTo, hlookup])
  source := hinv.source
  once := hinv.once
  exact n call hcall := (hinv.sound n call hcall).exact
  visits n call hcall hreturned := by
    have hsound := hinv.sound n call hcall
    obtain ⟨hpending, htodo⟩ := hsound.finished hreturned
    have hwalk : call.walk = call.visited.map Visit.id := by
      simp [NotifyCall.walk, hpending, htodo]
    rw [← hwalk]
    exact ⟨hsound.nodup, hsound.mem_walk⟩
  held := hinv.held

/-- In every run, delivery is exact, a call decides by what `canWatch` answers and by the
room there is, nothing is sent on a closed channel or closed twice, and what calls enqueue
after a moment comes from calls that had not returned by then. -/
theorem delivery_exact (re : Regexp) (aclEval : Option Evaluator) (bufferSize maxPerClient : ℤ)
    (steps more : List HubStep)
    (hfresh : (machine re).Along Fresh (new aclEval bufferSize maxPerClient) (steps ++ more)) :
    ((machine re).run (new aclEval bufferSize maxPerClient) (steps ++ more)).1.Exact ∧
      (∀ (n : ℕ) (call : NotifyCall),
        ((machine re).run (new aclEval bufferSize maxPerClient) (steps ++ more)).1.calls[n]? =
          some call → ∀ v ∈ call.visited,
          Decided re (new aclEval bufferSize maxPerClient) (steps ++ more) n call.event v) ∧
      (∀ panic, some panic ∈
          ((machine re).run (new aclEval bufferSize maxPerClient) (steps ++ more)).2 →
        panic ≠ .sendOnClosed ∧ panic ≠ .closeOfClosed) ∧
      Extends ((machine re).run (new aclEval bufferSize maxPerClient) steps).1
        ((machine re).run (new aclEval bufferSize maxPerClient) (steps ++ more)).1 := by
  have hnew : (new aclEval bufferSize maxPerClient).Inv := inv_new aclEval bufferSize maxPerClient
  have hinv : ∀ {is : List HubStep}, (machine re).Along Fresh
      (new aclEval bufferSize maxPerClient) is →
      ((machine re).run (new aclEval bufferSize maxPerClient) is).1.Inv := by
    intro is his
    refine (machine re).invariant (fun h i hi hf => ?_) hnew his
    exact (hi.step hf).1
  refine ⟨(hinv hfresh).delivery, fun n call hcall => (decided_run rfl hcall).1, ?_, ?_⟩
  · intro panic hmem
    have hall : ∀ o ∈ ((machine re).run (new aclEval bufferSize maxPerClient) (steps ++ more)).2,
        ∀ panic, o = some panic → panic = .makeSize := by
      refine (machine re).forall_answers (fun h i hi hf => ?_) hnew hfresh
      exact hi.step hf
    rw [hall _ hmem panic rfl]
    exact ⟨by decide, by decide⟩
  · obtain ⟨hsteps, hmore⟩ := ((machine re).along_append _ _ _ _).mp hfresh
    rw [Machine.run_append]
    have hrun : ∀ is (h : Hub), h.Inv → (machine re).Along Fresh h is →
        Extends h ((machine re).run h is).1 := by
      intro is
      induction is with
      | nil => exact fun h _ _ => Extends.refl h
      | cons i is ih =>
        intro h hi hf
        exact (hi.extends_step i).trans (ih _ (hi.step hf.1).1 hf.2)
    exact hrun more _ (hinv hsteps) hmore

/-- `ann` may read one key. -/
def annReads : Evaluator where
  policies := (∅ : GoMap GoString Policy).insert (str "ann")
    { name := str "ann", description := [], kv := [⟨str "app/mode", [Capability.read]⟩],
      service := [], health := [], backup := [], admin := [] }

/-- An engine for expressions that are an anchored literal. -/
def literal : Regexp := ⟨fun _ => true, fun pattern s => pattern == str "^" ++ s ++ str "$"⟩

/-- Two watchers of a key that is written twice; the removal of one has to wait for the
calls, and comes again after the shutdown. -/
def twoWatchers : List HubStep :=
  [.write (.add (str "w1") (str "app/*") [str "ann"] .sse (str "ann")),
    .write (.add (str "w2") (str "app/mode") [] .sse (str "bob")),
    .notify ⟨.set, str "app/mode", str "on", []⟩ GoMap.sorted,
    .notify ⟨.set, str "app/mode", str "off", []⟩ GoMap.sorted,
    .check 0, .send 0, .check 1, .write (.remove (str "w1")), .send 1, .check 0, .check 1,
    .finish 0, .finish 1, .write (.close GoMap.sorted), .write (.remove (str "w1"))]

/-- Only `ann` is permitted, and her channel has room for one event. -/
theorem delivery_exact_two_watchers :
    ((machine literal).run (new (some annReads) 1 0) twoWatchers).1.enqueued =
      [⟨0, str "w1", ⟨.set, str "app/mode", str "on", []⟩⟩] ∧
    ((machine literal).run (new (some annReads) 1 0) twoWatchers).1.calls.map (·.visited) =
      [[⟨str "w1", true, true⟩, ⟨str "w2", false, true⟩],
        [⟨str "w1", true, false⟩, ⟨str "w2", false, true⟩]] ∧
    ((machine literal).run (new (some annReads) 1 0) twoWatchers).1.Exact ∧
    ∀ (n : ℕ) (call : NotifyCall),
      ((machine literal).run (new (some annReads) 1 0) twoWatchers).1.calls[n]? = some call →
        ∀ v ∈ call.visited, Decided literal (new (some annReads) 1 0) twoWatchers n call.event v := by
  have hfresh : (machine literal).Along Fresh (new (some annReads) 1 0)
      (twoWatchers.take 4 ++ twoWatchers.drop 4) := by
    refine ⟨by decide +kernel, by decide +kernel, ?_⟩
    exact ⟨trivial, trivial, trivial, trivial, trivial, trivial, trivial, trivial, trivial, trivial,
      trivial, trivial, trivial, trivial⟩
  obtain ⟨hexact, hdecided, -, -⟩ := delivery_exact literal (some annReads) 1 0
    (twoWatchers.take 4) (twoWatchers.drop 4) hfresh
  exact ⟨by decide +kernel, by decide +kernel, hexact, hdecided⟩

end Hub

end Konsul.Watch
