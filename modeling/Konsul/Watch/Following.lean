import Konsul.Watch.Delivery

/-!
# What one watcher receives for one key

A watcher that stays registered, may read a key its pattern matches and has room
in its channel is told of the key's changes in the order in which `Notify` was
called for them, as long as the calls for the key do not overlap: at any time it
received all of them but perhaps the last, whose call is still running.
-/

namespace Konsul.Watch

open GoLib

namespace Hub

/-- The events passed to `Notify` for a key, in order. -/
def notified (h : Hub) (k : GoString) : List Event :=
  (h.calls.map NotifyCall.event).filter fun e => e.key = k

/-- The events the channel of an id accepted for a key, in order. -/
def received (h : Hub) (id k : GoString) : List Event :=
  ((h.manager.sentTo id).getD []).filter fun e => e.key = k

/-- The watcher is not removed; it may read the key when a call for the key asks,
and has room when one sends. -/
def Listens (re : Regexp) (id k : GoString) (h : Hub) : HubStep → Prop
  | .write (.remove id') => id' ≠ id
  | .write (.close _) => False
  | .check n => ∀ call todo watcher, h.calls[n]? = some call → call.event.key = k →
      call.todo = id :: todo → h.manager.watchers.lookup id = some watcher →
      h.manager.canWatch re watcher k
  | .send n => ∀ call, h.calls[n]? = some call → call.event.key = k → call.pending = some id →
      h.hasRoom id
  | _ => True

/-- The call enqueued its event for the watcher. -/
def Reached (h : Hub) (n : ℕ) (id : GoString) : Prop := ∃ d ∈ h.enqueued, d.call = n ∧ d.id = id

/-- The events the calls enqueued for the watcher and the key. -/
def got (h : Hub) (id k : GoString) : List Event :=
  ((h.enqueued.filter fun d => d.id = id).map Delivery.event).filter fun e => e.key = k

theorem Inv.received_eq {h : Hub} (hinv : h.Inv) {id : GoString} (hid : id ∈ h.manager.channels)
    (k : GoString) : h.received id k = h.got id k := by
  obtain ⟨sent, hsent⟩ := (Manager.mem_channels_iff h.manager id).mp hid
  rw [received, got, hsent, Option.getD_some, hinv.sent id sent hsent]

/-- From the `n0`-th call on, the watcher was told of all calls for the key that
have returned, and perhaps of one more. `skipped` is what was notified before. -/
structure Following (id k : GoString) (watcher : Watcher) (n0 : ℕ) (skipped : List Event)
    (h : Hub) : Prop where
  registered : h.manager.watchers.lookup id = some watcher
  matching : matchesPattern k watcher.pattern
  bound : n0 ≤ h.calls.length
  old : ∀ (n : ℕ) (call : NotifyCall), n < n0 → h.calls[n]? = some call → call.returned
  seen : ∀ (n : ℕ) (call : NotifyCall), n0 ≤ n → h.calls[n]? = some call →
    call.registered.lookup id = some watcher
  clear : ∀ (n : ℕ) (call : NotifyCall), n0 ≤ n → h.calls[n]? = some call → call.event.key = k →
    ∀ v ∈ call.visited, v.id = id → v.permitted ∧ v.room
  flow : (h.notified k = skipped ++ h.got id k ∧
      ∀ (n : ℕ) (call : NotifyCall), n0 ≤ n → h.calls[n]? = some call → call.event.key = k →
        h.Reached n id) ∨
    ∃ (n : ℕ) (call : NotifyCall), n0 ≤ n ∧ h.calls[n]? = some call ∧ call.event.key = k ∧
      call.returned = false ∧ ¬ h.Reached n id ∧
      h.notified k = skipped ++ h.got id k ++ [call.event] ∧
      ∀ (m : ℕ) (c : NotifyCall), n0 ≤ m → m ≠ n → h.calls[m]? = some c → c.event.key = k →
        h.Reached m id

variable {re : Regexp} {h : Hub} {id k : GoString} {watcher : Watcher} {n0 : ℕ}
  {skipped : List Event}

theorem map_event_set {calls : List NotifyCall} {n : ℕ} {call call' : NotifyCall}
    (hcall : calls[n]? = some call) (hevent : call'.event = call.event) :
    (calls.set n call').map NotifyCall.event = calls.map NotifyCall.event := by
  have h : (calls.map NotifyCall.event)[n]? = some call.event := by
    rw [List.getElem?_map, hcall, Option.map_some]
  obtain ⟨hlt, hget⟩ := List.getElem?_eq_some_iff.mp h
  rw [List.map_set, hevent, ← hget, List.set_getElem_self]

/-- Rule for a change of the manager that keeps the watcher. -/
theorem Following.manager (hf : h.Following id k watcher n0 skipped) {wm : Manager}
    (hw : wm.watchers.lookup id = some watcher) :
    ({ h with manager := wm } : Hub).Following id k watcher n0 skipped :=
  ⟨hw, hf.matching, hf.bound, hf.old, hf.seen, hf.clear, hf.flow⟩

/-- Rule for one call moving on: it may return once the watcher was told. -/
theorem Following.setCall (hf : h.Following id k watcher n0 skipped) {n : ℕ} {call : NotifyCall}
    (hcall : h.calls[n]? = some call) (call' : NotifyCall) (hevent : call'.event = call.event)
    (hregistered : call'.registered = call.registered)
    (hreturned : call.returned → call'.returned)
    (hclear : n0 ≤ n → call.event.key = k → ∀ v ∈ call'.visited, v.id = id → v.permitted ∧ v.room)
    (hrunning : n0 ≤ n → call.event.key = k → call'.returned →
      call.returned ∨ h.Reached n id) :
    (h.setCall n call').Following id k watcher n0 skipped := by
  have hlt : n < h.calls.length := (List.getElem?_eq_some_iff.mp hcall).1
  -- a call of the new list is the one that moved, or an old one
  have hold : ∀ (m : ℕ) (c : NotifyCall), (h.calls.set n call')[m]? = some c →
      (m = n ∧ c = call') ∨ (m ≠ n ∧ h.calls[m]? = some c) := by
    intro m c hc
    by_cases hmn : n = m
    · subst hmn
      rw [List.getElem?_set_self hlt] at hc
      exact .inl ⟨rfl, (Option.some.inj hc).symm⟩
    · rw [List.getElem?_set_ne hmn] at hc
      exact .inr ⟨Ne.symm hmn, hc⟩
  have hnotified : (h.setCall n call').notified k = h.notified k := by
    simp only [notified, Hub.setCall, map_event_set hcall hevent]
  refine ⟨hf.registered, hf.matching, ?_, ?_, ?_, ?_, ?_⟩
  · simp only [Hub.setCall, List.length_set]
    exact hf.bound
  · intro m c hm hc
    rcases hold m c hc with ⟨rfl, rfl⟩ | ⟨-, hc⟩
    · exact hreturned (hf.old m call hm hcall)
    · exact hf.old m c hm hc
  · intro m c hm hc
    rcases hold m c hc with ⟨rfl, rfl⟩ | ⟨-, hc⟩
    · rw [hregistered]
      exact hf.seen m call hm hcall
    · exact hf.seen m c hm hc
  · intro m c hm hc hk
    rcases hold m c hc with ⟨rfl, rfl⟩ | ⟨-, hc⟩
    · rw [hevent] at hk
      exact hclear hm hk
    · exact hf.clear m c hm hc hk
  · rw [hnotified]
    rcases hf.flow with ⟨heq, hall⟩ | ⟨p, c₀, hp, hc₀, hk₀, hrun, hnot, heq, hall⟩
    · refine .inl ⟨heq, fun m c hm hc hk => ?_⟩
      rcases hold m c hc with ⟨rfl, rfl⟩ | ⟨-, hc⟩
      · rw [hevent] at hk
        exact hall m call hm hcall hk
      · exact hall m c hm hc hk
    · have hothers : ∀ (m : ℕ) (c : NotifyCall), n0 ≤ m → m ≠ p → (h.calls.set n call')[m]? = some c →
          c.event.key = k → h.Reached m id := by
        intro m c hm hmp hc hk
        rcases hold m c hc with ⟨rfl, rfl⟩ | ⟨-, hc⟩
        · rw [hevent] at hk
          exact hall m call hm hmp hcall hk
        · exact hall m c hm hmp hc hk
      by_cases hpn : p = n
      · subst hpn
        rw [hcall] at hc₀
        cases hc₀
        have hrun' : call'.returned = false := by
          cases hret : call'.returned with
          | false => rfl
          | true =>
            rcases hrunning hp hk₀ hret with hcr | hreach
            · rw [hcr] at hrun
              cases hrun
            · exact absurd hreach hnot
        refine .inr ⟨p, call', hp, List.getElem?_set_self hlt, hevent ▸ hk₀, hrun', hnot, ?_, hothers⟩
        rw [hevent]
        exact heq
      · exact .inr ⟨p, c₀, hp, (List.getElem?_set_ne (Ne.symm hpn)).trans hc₀, hk₀, hrun, hnot, heq,
          hothers⟩

/-- Rule for an event put into a channel by a running call. -/
theorem Following.enqueue (hf : h.Following id k watcher n0 skipped) {n : ℕ} {call : NotifyCall}
    (hcall : h.calls[n]? = some call) (hrunning : call.returned = false) {id' : GoString}
    (hnew : ¬ h.Reached n id') :
    ({ h with enqueued := h.enqueued ++ [⟨n, id', call.event⟩] } : Hub).Following
      id k watcher n0 skipped := by
  have hn : n0 ≤ n := by
    by_contra hlt
    have := hf.old n call (by omega) hcall
    rw [hrunning] at this
    cases this
  have hmono : ∀ m, h.Reached m id →
      ({ h with enqueued := h.enqueued ++ [⟨n, id', call.event⟩] } : Hub).Reached m id := by
    rintro m ⟨d, hd, hdm⟩
    exact ⟨d, List.mem_append_left _ hd, hdm⟩
  have hreached : ∀ m, ({ h with enqueued := h.enqueued ++ [⟨n, id', call.event⟩] } : Hub).Reached m id
      → h.Reached m id ∨ (m = n ∧ id' = id) := by
    rintro m ⟨d, hd, hdm, hdi⟩
    rcases List.mem_append.mp hd with hd | hd
    · exact .inl ⟨d, hd, hdm, hdi⟩
    · rw [List.mem_singleton.mp hd] at hdm hdi
      exact .inr ⟨hdm.symm, hdi⟩
  have hgot : ({ h with enqueued := h.enqueued ++ [⟨n, id', call.event⟩] } : Hub).got id k =
      h.got id k ++ if id' = id ∧ call.event.key = k then [call.event] else [] := by
    simp only [got, List.filter_append, List.map_append]
    by_cases hid : id' = id
    · by_cases hk : call.event.key = k <;> simp [hid, hk]
    · simp [hid]
  refine ⟨hf.registered, hf.matching, hf.bound, hf.old, hf.seen, hf.clear, ?_⟩
  rw [hgot]
  by_cases hboth : id' = id ∧ call.event.key = k
  · -- the event the watcher was waiting for
    obtain ⟨rfl, hk⟩ := hboth
    rcases hf.flow with ⟨-, hall⟩ | ⟨p, c₀, hp, hc₀, hk₀, -, -, heq, hall⟩
    · exact absurd (hall n call hn hcall hk) hnew
    · have hpn : p = n := by
        by_contra hne
        exact hnew (hall n call hn (Ne.symm hne) hcall hk)
      subst hpn
      rw [hcall] at hc₀
      cases hc₀
      refine .inl ⟨?_, fun m c hm hc hkc => ?_⟩
      · simp only [hk, and_self, ite_true]
        rw [← List.append_assoc]
        exact heq
      · by_cases hmp : m = p
        · subst hmp
          exact ⟨_, List.mem_append_right _ (List.mem_singleton_self _), rfl, rfl⟩
        · exact hmono m (hall m c hm hmp hc hkc)
  · rw [if_neg hboth, List.append_nil]
    rcases hf.flow with ⟨heq, hall⟩ | ⟨p, c₀, hp, hc₀, hk₀, hrun, hnot, heq, hall⟩
    · exact .inl ⟨heq, fun m c hm hc hkc => hmono m (hall m c hm hc hkc)⟩
    · refine .inr ⟨p, c₀, hp, hc₀, hk₀, hrun, fun hr => ?_, heq,
        fun m c hm hmp hc hkc => hmono m (hall m c hm hmp hc hkc)⟩
      rcases hreached p hr with hold | ⟨rfl, rfl⟩
      · exact hnot hold
      · rw [hcall] at hc₀
        cases hc₀
        exact hboth ⟨rfl, hk₀⟩

/-- Rule for a new call: it starts once the calls for its key have returned. -/
theorem Following.notify (hf : h.Following id k watcher n0 skipped) (hinv : h.Inv) {event : Event}
    (range : (m : GoMap GoString (List GoString)) → m.Order)
    (hreturned : ∀ (n : ℕ) (call : NotifyCall), h.calls[n]? = some call →
      call.event.key = event.key → call.returned = true) :
    (step re h (.notify event range)).1.Following id k watcher n0 skipped := by
  have hold : ∀ (m : ℕ) (c : NotifyCall), (step re h (.notify event range)).1.calls[m]? = some c →
      h.calls[m]? = some c ∨
        m = h.calls.length ∧ c.event = event ∧ c.registered = h.manager.watchers ∧
          c.visited = [] ∧ c.returned = false := by
    intro m c hc
    simp only [step] at hc
    by_cases hm : m < h.calls.length
    · rw [List.getElem?_append_left hm] at hc
      exact .inl hc
    · have hlast : m = h.calls.length := by
        have := (List.getElem?_eq_some_iff.mp hc).1
        rw [List.length_append, List.length_singleton] at this
        omega
      subst hlast
      rw [List.getElem?_append_right (le_refl _), Nat.sub_self, List.getElem?_cons_zero] at hc
      cases hc
      exact .inr ⟨rfl, rfl, rfl, rfl, rfl⟩
  have hmap : (step re h (.notify event range)).1.notified k =
      h.notified k ++ [event].filter fun e => e.key = k := by
    simp only [step, notified, List.map_append, List.map_cons, List.map_nil, List.filter_append]
  have hlater : ∀ (m : ℕ) (c : NotifyCall), h.calls[m]? = some c →
      (step re h (.notify event range)).1.calls[m]? = some c := by
    intro m c hc
    have hm : m < h.calls.length := (List.getElem?_eq_some_iff.mp hc).1
    simp only [step]
    rw [List.getElem?_append_left hm, hc]
  refine ⟨hf.registered, hf.matching, ?_, ?_, ?_, ?_, ?_⟩
  · simp only [step, List.length_append]
    exact le_trans hf.bound (Nat.le_add_right _ _)
  · intro m c hm hc
    rcases hold m c hc with hc | ⟨rfl, -⟩
    · exact hf.old m c hm hc
    · exact absurd hm (by have := hf.bound; omega)
  · intro m c hm hc
    rcases hold m c hc with hc | ⟨-, -, hr, -⟩
    · exact hf.seen m c hm hc
    · rw [hr]
      exact hf.registered
  · intro m c hm hc hk v hv
    rcases hold m c hc with hc | ⟨-, -, -, hv', -⟩
    · exact hf.clear m c hm hc hk v hv
    · rw [hv'] at hv
      cases hv
  · rw [hmap]
    by_cases hk : event.key = k
    · -- the calls before have returned, so the watcher is up to date
      rcases hf.flow with ⟨heq, hall⟩ | ⟨p, c₀, -, hc₀, hk₀, hrun, -⟩
      · have hcall : ∃ c, (step re h (.notify event range)).1.calls[h.calls.length]? = some c ∧
            c.event = event ∧ c.returned = false := by
          refine ⟨⟨event, h.manager.notifyIDs event.key (range h.manager.patterns), none, [],
            h.manager.watchers, false⟩, ?_, rfl, rfl⟩
          simp only [step]
          rw [List.getElem?_append_right (le_refl _), Nat.sub_self, List.getElem?_cons_zero]
        obtain ⟨c, hc, he, hrun⟩ := hcall
        refine .inr ⟨h.calls.length, c, hf.bound, hc, he ▸ hk, hrun, ?_, ?_, ?_⟩
        · rintro ⟨d, hd, hdn, -⟩
          obtain ⟨c', hc', -⟩ := hinv.source d hd
          have := (List.getElem?_eq_some_iff.mp hc').1
          omega
        · simp [heq, he, hk, got, step]
        · intro m c' hm hmn hc' hkc
          rcases hold m c' hc' with hc' | ⟨hlast, -⟩
          · exact hall m c' hm hc' hkc
          · exact absurd hlast hmn
      · rw [hreturned p c₀ hc₀ (hk₀.trans hk.symm)] at hrun
        cases hrun
    · have hnone : ([event].filter fun e => e.key = k) = [] := by simp [hk]
      rw [hnone, List.append_nil]
      rcases hf.flow with ⟨heq, hall⟩ | ⟨p, c₀, hp, hc₀, hk₀, hrun, hnot, heq, hall⟩
      · refine .inl ⟨heq, fun m c hm hc hkc => ?_⟩
        rcases hold m c hc with hc | ⟨-, he, -⟩
        · exact hall m c hm hc hkc
        · exact absurd (he ▸ hkc) hk
      · refine .inr ⟨p, c₀, hp, hlater p c₀ hc₀, hk₀, hrun, hnot, heq, fun m c hm hmp hc hkc => ?_⟩
        rcases hold m c hc with hc | ⟨-, he, -⟩
        · exact hall m c hm hmp hc hkc
        · exact absurd (he ▸ hkc) hk

/-- A removal of another watcher, or a new watcher, leaves the watcher there. -/
theorem Following.write (hf : h.Following id k watcher n0 skipped) (hinv : h.Inv) {op : RegistryOp}
    (hfresh : h.manager.Fresh op) (hlistens : Listens re id k h (.write op)) :
    (h.manager.apply op).1.watchers.lookup id = some watcher := by
  refine hinv.consistent.apply_watchers hfresh hf.registered ?_ fun range heq => ?_
  · rintro rfl
    exact hlistens rfl
  · rw [heq] at hlistens
    exact hlistens.elim

theorem Following.check (hf : h.Following id k watcher n0 skipped) {n : ℕ} {call : NotifyCall}
    (hcall : h.calls[n]? = some call) (hlistens : Listens re id k h (.check n)) :
    (h.check re n call).Following id k watcher n0 skipped := by
  rw [Hub.check]
  split
  · exact hf
  · next id' todo htodo =>
    split
    · exact hf.setCall hcall _ rfl rfl (fun hret => hret) (fun hn hk => hf.clear n call hn hcall hk)
        fun _ _ hret => .inl hret
    · next watcher' hw' =>
      split_ifs with hcan
      · exact hf.setCall hcall _ rfl rfl (fun hret => hret)
          (fun hn hk => hf.clear n call hn hcall hk) fun _ _ hret => .inl hret
      · refine hf.setCall hcall _ rfl rfl (fun hret => hret) (fun hn hk v hv hvid => ?_)
          fun _ _ hret => .inl hret
        rcases List.mem_append.mp hv with hv | hv
        · exact hf.clear n call hn hcall hk v hv hvid
        · -- a refusal is never one of the watcher that listens
          rw [List.mem_singleton.mp hv] at hvid
          simp only at hvid
          subst hvid
          have := hlistens call todo watcher' hcall hk htodo hw'
          rw [hk] at hcan
          exact absurd this hcan

theorem Following.send (hf : h.Following id k watcher n0 skipped) (hinv : h.Inv) {n : ℕ}
    {call : NotifyCall} {id' : GoString} (hcall : h.calls[n]? = some call)
    (hpending : call.pending = some id') (hlistens : Listens re id k h (.send n)) :
    (h.send n call id').1.Following id k watcher n0 skipped := by
  obtain ⟨hrunning, -⟩ := hinv.pending_open hcall hpending
  obtain ⟨_, events', -, -, -, heq⟩ := hinv.send_eq hcall hpending
  have hlt : n < h.calls.length := (List.getElem?_eq_some_iff.mp hcall).1
  have hdecided : (h.setCall n (call.decide id' (h.hasRoom id'))).Following
      id k watcher n0 skipped := by
    refine hf.setCall hcall _ rfl rfl (fun hret => hret) (fun hn hk v hv hvid => ?_)
      fun _ _ hret => .inl hret
    rcases List.mem_append.mp hv with hv | hv
    · exact hf.clear n call hn hcall hk v hv hvid
    · rw [List.mem_singleton.mp hv] at hvid ⊢
      simp only at hvid
      subst hvid
      exact ⟨rfl, hlistens call hcall hk hpending⟩
  have hnew : ¬ (h.setCall n (call.decide id' (h.hasRoom id'))).Reached n id' := by
    rintro ⟨d, hd, hdn⟩
    exact (hinv.sound n call hcall).pending_new hpending d hd hdn
  have hcall' : (h.setCall n (call.decide id' (h.hasRoom id'))).calls[n]? =
      some (call.decide id' (h.hasRoom id')) := List.getElem?_set_self hlt
  rw [heq]
  cases hroom : h.hasRoom id' with
  | true =>
    have hsent := hdecided.enqueue hcall' hrunning hnew
    rw [hroom] at hsent
    exact hsent.manager hf.registered
  | false =>
    rw [hroom] at hdecided
    exact hdecided.manager hf.registered

theorem Following.finish (hf : h.Following id k watcher n0 skipped) (hinv : h.Inv) {n : ℕ}
    {call : NotifyCall} (hcall : h.calls[n]? = some call) (hpending : call.pending = none)
    (htodo : call.todo = []) :
    (h.setCall n { call with returned := true }).Following id k watcher n0 skipped := by
  refine hf.setCall hcall _ rfl rfl (fun _ => rfl) (fun hn hk => hf.clear n call hn hcall hk)
    fun hn hk _ => .inr ?_
  have hsound := hinv.sound n call hcall
  have hwalk : id ∈ call.walk := by
    rw [hsound.mem_walk, hk]
    exact ⟨watcher, hf.seen n call hn hcall, hf.matching⟩
  simp only [NotifyCall.walk, hpending, htodo, Option.toList_none, List.append_nil] at hwalk
  obtain ⟨v, hv, hvid⟩ := List.mem_map.mp hwalk
  exact (hsound.exact id).mpr ⟨v, hv, hvid, hf.clear n call hn hcall hk v hv hvid⟩

theorem Following.effect (hf : h.Following id k watcher n0 skipped) (hinv : h.Inv) {i : HubStep}
    {r : Hub × Option Panic} (hnot : ∀ event range, i ≠ .notify event range) (hfresh : h.Fresh i)
    (hlistens : Listens re id k h i) (he : h.Effect re i r) :
    r.1.Following id k watcher n0 skipped := by
  cases he with
  | still i => exact hf
  | wrote hno => exact hf.manager (hf.write hinv hfresh hlistens)
  | began event range => exact absurd rfl (hnot event range)
  | checked hcall hpending => exact hf.check hcall hlistens
  | sent hcall hpending => exact hf.send hinv hcall hpending hlistens
  | returned hcall hpending htodo => exact hf.finish hinv hcall hpending htodo
  | received hlookup => exact hf.manager hf.registered
  | decided policies => exact hf.manager hf.registered

theorem Following.step (hf : h.Following id k watcher n0 skipped) (hinv : h.Inv) {i : HubStep}
    (hnot : ∀ event range, i ≠ .notify event range) (hfresh : h.Fresh i)
    (hlistens : Listens re id k h i) :
    (Hub.step re h i).1.Following id k watcher n0 skipped :=
  hf.effect hinv hnot hfresh hlistens (step_effect re h i)

theorem following_add (hinv : h.Inv) {id pattern : GoString} {policies : List GoString}
    {transport : TransportType} {userID : GoString}
    (hfresh : h.Fresh (.write (.add id pattern policies transport userID)))
    (hadded : (step re h (.write (.add id pattern policies transport userID))).1.manager.watchers.lookup
      id = some watcher) (hmatch : matchesPattern k watcher.pattern) :
    (step re h (.write (.add id pattern policies transport userID))).1.Following
      id k watcher h.calls.length (h.notified k) := by
  have hnone : h.manager.watchers.lookup id = none := by
    rw [Finmap.lookup_eq_none]
    intro hmem
    obtain ⟨w, hw⟩ := Finmap.mem_iff.mp hmem
    obtain ⟨events, hevents, -⟩ := hinv.consistent.opened id w hw
    exact hfresh (Finmap.mem_iff.mpr ⟨events, hevents⟩)
  -- a registration means that no call was running
  have hreading : h.reading = false := by
    cases hr : h.reading with
    | false => rfl
    | true =>
      simp only [step, hr, ite_true, hnone] at hadded
      cases hadded
  have hgot : h.got id k = [] := by
    have hempty : (h.enqueued.filter fun d => d.id = id) = [] := by
      refine List.filter_eq_nil_iff.mpr fun d hd heq => ?_
      exact hfresh ((of_decide_eq_true heq) ▸ hinv.known d hd)
    rw [got, hempty]
    rfl
  have hreturned := (reading_eq_false_iff h).mp hreading
  have hlt : ∀ (n : ℕ) (call : NotifyCall), h.calls.length ≤ n → h.calls[n]? ≠ some call := by
    intro n call hn hcall
    have := (List.getElem?_eq_some_iff.mp hcall).1
    omega
  simp only [step, hreading, Bool.false_eq_true, ite_false] at hadded ⊢
  refine ⟨hadded, hmatch, le_refl _, fun n call _ hcall => hreturned n call hcall,
    fun n call hn hcall => absurd hcall (hlt n call hn),
    fun n call hn hcall => absurd hcall (hlt n call hn), .inl ⟨?_, ?_⟩⟩
  · have hsame : ({ h with manager := (h.manager.apply
        (.add id pattern policies transport userID)).1 } : Hub).got id k = h.got id k := rfl
    rw [hsame, hgot, List.append_nil]
    rfl
  · exact fun n call hn hcall => absurd hcall (hlt n call hn)

end Hub

end Konsul.Watch
