import Konsul.Store.Converge
import Konsul.Store.KVEvents
import Konsul.Watch.Following

/-!
# Commit order and the order of events

`Set`, `SetWithFlags`, `Delete`, `BatchSet` and `BatchDelete` release the lock of
the store before they call the engine and the watch manager; the compare-and-swap
operations hold it throughout. `Watched` is a store with its watch manager and the
writers that have committed, in the order of their commits. If on every key each
notification starts after the earlier ones have returned, a watcher receives the
changes of the key in commit order.
-/

namespace Konsul.Watch

open GoLib

/-- A writer that committed on `table`: the events it has still to notify, and the
`Notify` call it made last. -/
structure Writer where
  op : KVOp
  table : KVTable
  landed : Bool
  todo : List Event
  call : Option ℕ

/-- `holder` is the writer that still holds the lock. -/
structure Watched where
  store : KVStore
  hub : Hub
  writers : List Writer
  holder : Option ℕ

inductive WatchedStep where
  /-- An operation goes through its checks and commits. -/
  | enter (op : KVOp)
  /-- The engine call of the `i`-th writer. -/
  | land (i : ℕ)
  /-- The `i`-th writer passes its next event to `Notify`. -/
  | notify (i : ℕ) (range : (m : GoMap GoString (List GoString)) → m.Order)
  /-- The `i`-th writer returns and with it the lock. -/
  | unlock (i : ℕ)
  /-- Anything else that happens at the watch manager. -/
  | hub (s : HubStep)

namespace Hub

/-- The call, if there was one, has returned. -/
def hasReturned (h : Hub) (call : Option ℕ) : Bool :=
  match call.bind fun n => h.calls[n]? with
  | none => true
  | some call => call.returned

end Hub

namespace Watched

def enter (s : Watched) (op : KVOp) : Watched :=
  let t := s.store.toKVTable
  match op.check t with
  | some _ => s
  | none =>
    { s with
      store := { s.store with toKVTable := op.update t }
      writers := s.writers ++ [⟨op, t, false, op.events t, none⟩]
      holder := if op.outsideLock then none else some s.writers.length }

/-- An operation that reports an engine error returns without notifying. -/
def land (s : Watched) (i : ℕ) (w : Writer) : Watched :=
  let p := s.store.persist (w.op.engineCall w.table)
  let todo := if p.2 = none ∨ w.op.logsErrors then w.todo else []
  { s with store := p.1, writers := s.writers.set i { w with landed := true, todo } }

def step (re : Regexp) (s : Watched) : WatchedStep → Watched × Unit
  | .enter op => (if s.holder = none then s.enter op else s, ())
  | .land i =>
    match s.writers[i]? with
    | none => (s, ())
    | some w => (if w.landed then s else s.land i w, ())
  | .notify i range =>
    match s.writers[i]? with
    | none => (s, ())
    | some w =>
      match w.todo with
      | [] => (s, ())
      | e :: todo =>
        if w.landed ∧ s.hub.hasReturned w.call then
          ({ s with
            hub := (Hub.step re s.hub (.notify e range)).1
            writers := s.writers.set i { w with todo, call := some s.hub.calls.length } }, ())
        else (s, ())
  | .unlock i =>
    match s.writers[i]? with
    | none => (s, ())
    | some w =>
      (if s.holder = some i ∧ w.landed ∧ w.todo = [] ∧ s.hub.hasReturned w.call then
        { s with holder := none }
      else s, ())
  | .hub (.notify ..) => (s, ())
  | .hub i => ({ s with hub := (Hub.step re s.hub i).1 }, ())

def machine (re : Regexp) : Machine Watched WatchedStep Unit := ⟨step re⟩

/-- A store whose watch manager is new. -/
def start (store : KVStore) (aclEval : Option Evaluator) (bufferSize maxPerClient : ℤ) : Watched :=
  ⟨store, .new aclEval bufferSize maxPerClient, [], none⟩

/-- The changes committed for a key, in the order of the commits. -/
def commits (s : Watched) (k : GoString) : List Event :=
  s.writers.flatMap fun w => w.op.commit w.table k

/-- Every writer has notified its events, and every call of `Notify` has returned. -/
def Quiet (s : Watched) : Prop :=
  (∀ w ∈ s.writers, w.todo = []) ∧ ∀ call ∈ s.hub.calls, call.returned

/-! ### Conditions on a step -/

/-- New watchers get ids no watcher has had. -/
def Fresh (s : Watched) : WatchedStep → Prop
  | .hub i => s.hub.Fresh i
  | _ => True

instance (s : Watched) (i : WatchedStep) : Decidable (s.Fresh i) :=
  match i with
  | .hub i => inferInstanceAs (Decidable (s.hub.Fresh i))
  | .enter _ | .land _ | .notify .. | .unlock _ => .isTrue trivial

/-- No writer that reports an engine error meets one, no compare-and-swap batch
delete names a key twice, and a notification starts after all notifications of
earlier commits to its key have returned. -/
def InOrder (s : Watched) : WatchedStep → Prop
  | .enter op => op.NamesOnce
  | .land i => ∀ w, s.writers[i]? = some w → w.op.logsErrors ∨ s.store.fault = none
  | .notify i _ => ∀ w e todo, s.writers[i]? = some w → w.todo = e :: todo →
      ∀ j w', j < i → s.writers[j]? = some w' →
        (∀ e' ∈ w'.todo, e'.key ≠ e.key) ∧
          ∀ n call, w'.call = some n → s.hub.calls[n]? = some call → call.event.key = e.key →
            call.returned
  | _ => True

/-! ### Writers and calls -/

/-- The queue of a key: what was notified and what is still to be notified are the
committed changes, in order; a running call belongs to a writer, and no writer in
front of it has an event for its key left. -/
structure Inv (s : Watched) : Prop where
  hub : s.hub.Inv
  queue : ∀ k, s.commits k =
    s.hub.notified k ++ s.writers.flatMap fun w => w.todo.filter fun e => e.key = k
  made : ∀ (n : ℕ) (call : NotifyCall), s.hub.calls[n]? = some call → call.returned = false →
    ∃ (j : ℕ) (w : Writer), s.writers[j]? = some w ∧ w.call = some n ∧
      ∀ (i : ℕ) (w' : Writer), i < j → s.writers[i]? = some w' →
        ∀ e ∈ w'.todo, e.key ≠ call.event.key

theorem inv_start (store : KVStore) (aclEval : Option Evaluator) (bufferSize maxPerClient : ℤ) :
    (start store aclEval bufferSize maxPerClient).Inv where
  hub := Hub.inv_new aclEval bufferSize maxPerClient
  queue _ := rfl
  made _ _ hcall := by simp [start, Hub.new] at hcall

variable {re : Regexp} {s : Watched}

theorem Inv.returned_of_inOrder (hinv : s.Inv) {i : ℕ}
    {range : (m : GoMap GoString (List GoString)) → m.Order} (horder : s.InOrder (.notify i range))
    {w : Writer} {e : Event} {todo : List Event} (hw : s.writers[i]? = some w)
    (htodo : w.todo = e :: todo) (hreturned : s.hub.hasReturned w.call) (n : ℕ) (call : NotifyCall)
    (hcall : s.hub.calls[n]? = some call) (hkey : call.event.key = e.key) :
    call.returned = true := by
  by_contra hrunning
  obtain ⟨j, w', hw', hmade, hbefore⟩ := hinv.made n call hcall (by simpa using hrunning)
  rcases Nat.lt_trichotomy j i with hji | rfl | hij
  · exact hrunning ((horder w e todo hw htodo j w' hji hw').2 n call hmade hcall hkey)
  · rw [hw] at hw'
    cases hw'
    rw [Hub.hasReturned, hmade, Option.bind_some, hcall] at hreturned
    exact hrunning hreturned
  · have hmem : e ∈ w.todo := by rw [htodo]; exact List.mem_cons_self ..
    exact hbefore i w hij hw e hmem hkey.symm

/-! ### One step -/

theorem flatMap_set {A B : Type} (f : A → List B) {l : List A} {i : ℕ} {a : A} (h : l[i]? = some a)
    (b : A) :
    l.flatMap f = (l.take i).flatMap f ++ (f a ++ (l.drop (i + 1)).flatMap f) ∧
      (l.set i b).flatMap f = (l.take i).flatMap f ++ (f b ++ (l.drop (i + 1)).flatMap f) := by
  obtain ⟨hlt, rfl⟩ := List.getElem?_eq_some_iff.mp h
  constructor
  · have hsplit : l = l.take i ++ l[i] :: l.drop (i + 1) := by
      rw [List.getElem_cons_drop, List.take_append_drop]
    conv_lhs => rw [hsplit]
    rw [List.flatMap_append, List.flatMap_cons]
  · rw [List.set_eq_take_append_cons_drop, if_pos hlt, List.flatMap_append, List.flatMap_cons]

theorem commits_set {i : ℕ} {w : Writer} (hw : s.writers[i]? = some w) (w' : Writer)
    (hop : w'.op = w.op) (htable : w'.table = w.table) (k : GoString) :
    ({ s with writers := s.writers.set i w' } : Watched).commits k = s.commits k := by
  obtain ⟨h1, h2⟩ := flatMap_set (fun w : Writer => w.op.commit w.table k) hw w'
  simp only [commits]
  rw [h1, h2, hop, htable]

theorem Inv.enter (hinv : s.Inv) {op : KVOp} (honce : op.NamesOnce) : (s.enter op).Inv := by
  rw [Watched.enter]
  cases hcheck : op.check s.store.toKVTable with
  | some err => exact hinv
  | none =>
    refine ⟨hinv.hub, fun k => ?_, fun n call hcall hrunning => ?_⟩
    · have hqueue := hinv.queue k
      have hnew := KVOp.events_filter hcheck honce k
      simp only [commits] at hqueue ⊢
      simp only [List.flatMap_append, List.flatMap_cons, List.flatMap_nil, List.append_nil, hqueue,
        hnew, List.append_assoc]
    · obtain ⟨j, w, hw, hmade, hbefore⟩ := hinv.made n call hcall hrunning
      have hlt : j < s.writers.length := (List.getElem?_eq_some_iff.mp hw).1
      refine ⟨j, w, ?_, hmade, fun i w' hij hw' => ?_⟩
      · rw [List.getElem?_append_left hlt, hw]
      · rw [List.getElem?_append_left (by omega)] at hw'
        exact hbefore i w' hij hw'

/-- Rule for a writer that moves on without dropping an event. -/
theorem Inv.setWriter (hinv : s.Inv) {i : ℕ} {w : Writer} (hw : s.writers[i]? = some w)
    (w' : Writer) (hop : w'.op = w.op) (htable : w'.table = w.table) (htodo : w'.todo = w.todo)
    (hcall : w'.call = w.call) (store : KVStore) :
    ({ s with store, writers := s.writers.set i w' } : Watched).Inv := by
  have hlt : i < s.writers.length := (List.getElem?_eq_some_iff.mp hw).1
  refine ⟨hinv.hub, fun k => ?_, fun n call hc hrunning => ?_⟩
  · have hcommits := commits_set hw w' hop htable k
    have hqueue := hinv.queue k
    obtain ⟨h1, h2⟩ := flatMap_set (fun w : Writer => w.todo.filter fun e => e.key = k) hw w'
    simp only [commits] at hcommits hqueue ⊢
    rw [hcommits, hqueue, h1, h2, htodo]
  · obtain ⟨j, w₀, hw₀, hmade, hbefore⟩ := hinv.made n call hc hrunning
    have hold : ∀ (m : ℕ) (v : Writer), (s.writers.set i w')[m]? = some v →
        ∃ v₀, s.writers[m]? = some v₀ ∧ v.todo = v₀.todo ∧ v.call = v₀.call := by
      intro m v hv
      by_cases him : i = m
      · subst him
        simp only [List.getElem?_set_self hlt, Option.some.injEq] at hv
        exact ⟨w, hw, hv ▸ htodo, hv ▸ hcall⟩
      · rw [List.getElem?_set_ne him] at hv
        exact ⟨v, hv, rfl, rfl⟩
    have hj : ∃ v, (s.writers.set i w')[j]? = some v ∧ v.call = some n := by
      by_cases him : i = j
      · subst him
        rw [hw] at hw₀
        cases hw₀
        exact ⟨w', List.getElem?_set_self hlt, hcall.trans hmade⟩
      · exact ⟨w₀, (List.getElem?_set_ne him).trans hw₀, hmade⟩
    obtain ⟨v, hv, hvcall⟩ := hj
    refine ⟨j, v, hv, hvcall, fun m v' hmj hv' => ?_⟩
    obtain ⟨v₀, hv₀, hvtodo, -⟩ := hold m v' hv'
    rw [hvtodo]
    exact hbefore m v₀ hmj hv₀

theorem Inv.land (hinv : s.Inv) {i : ℕ} {w : Writer} (hw : s.writers[i]? = some w)
    (horder : s.InOrder (.land i)) : (s.land i w).Inv := by
  have herr := w.op.persist_engineCall_err s.store w.table
  have hkeeps : (s.store.persist (w.op.engineCall w.table)).2 = none ∨ w.op.logsErrors := by
    rcases horder w hw with hlogs | hfault
    · exact .inr hlogs
    · exact .inl (herr.trans hfault)
  simp only [Watched.land, hkeeps, ite_true]
  exact hinv.setWriter hw { w with landed := true } rfl rfl rfl rfl _

theorem notified_notify (h : Hub) (e : Event)
    (range : (m : GoMap GoString (List GoString)) → m.Order) (k : GoString) :
    (Hub.step re h (.notify e range)).1.notified k =
      h.notified k ++ [e].filter fun e => e.key = k := by
  simp only [Hub.step, Hub.notified, List.map_append, List.map_cons, List.map_nil,
    List.filter_append]

theorem Inv.notify (hinv : s.Inv) {i : ℕ} {range : (m : GoMap GoString (List GoString)) → m.Order}
    (horder : s.InOrder (.notify i range)) {w : Writer} {e : Event} {todo : List Event}
    (hw : s.writers[i]? = some w) (htodo : w.todo = e :: todo)
    (hreturned : s.hub.hasReturned w.call) :
    ({ s with
      hub := (Hub.step re s.hub (.notify e range)).1
      writers := s.writers.set i { w with todo, call := some s.hub.calls.length } } :
      Watched).Inv := by
  have hlt : i < s.writers.length := (List.getElem?_eq_some_iff.mp hw).1
  have hset := List.getElem?_set_self (a := { w with todo, call := some s.hub.calls.length }) hlt
  -- the writers in front have nothing left for the key
  have hfront : ∀ j w', j < i → s.writers[j]? = some w' → ∀ e' ∈ w'.todo, e'.key ≠ e.key :=
    fun j w' hji hw' => (horder w e todo hw htodo j w' hji hw').1
  have hhub : (Hub.step re s.hub (.notify e range)).1.Inv := hinv.hub.notify e range
  refine ⟨hhub, fun k => ?_, fun n call hc hrunning => ?_⟩
  · have hcommits := commits_set hw { w with todo, call := some s.hub.calls.length } rfl rfl k
    have hqueue := hinv.queue k
    obtain ⟨h1, h2⟩ := flatMap_set (fun w : Writer => w.todo.filter fun e => e.key = k) hw
      { w with todo, call := some s.hub.calls.length }
    simp only [commits] at hcommits hqueue ⊢
    rw [hcommits, hqueue, h1, h2, notified_notify, htodo]
    by_cases hk : e.key = k
    · have hnone : (s.writers.take i).flatMap (fun w => w.todo.filter fun e => e.key = k) = [] := by
        refine List.flatMap_eq_nil_iff.mpr fun w' hw' => ?_
        obtain ⟨j, hj⟩ := List.getElem?_of_mem hw'
        have hji : j < i := by
          have := (List.getElem?_eq_some_iff.mp hj).1
          rw [List.length_take] at this
          omega
        rw [List.getElem?_take_of_lt hji] at hj
        refine List.filter_eq_nil_iff.mpr fun e' he' => ?_
        have := hfront j w' hji hj e' he'
        rw [hk] at this
        simpa using this
      simp [hnone, hk]
    · simp [hk]
  · have hcalls : (Hub.step re s.hub (.notify e range)).1.calls = s.hub.calls ++
        [⟨e, s.hub.manager.notifyIDs e.key (range s.hub.manager.patterns), none, [],
          s.hub.manager.watchers, false⟩] := rfl
    simp only [hcalls] at hc
    by_cases hn : n < s.hub.calls.length
    · rw [List.getElem?_append_left hn] at hc
      obtain ⟨j, w₀, hw₀, hmade, hbefore⟩ := hinv.made n call hc hrunning
      have hij : i ≠ j := by
        rintro rfl
        rw [hw] at hw₀
        cases hw₀
        have hret : call.returned = true := by
          rw [Hub.hasReturned, hmade, Option.bind_some, hc] at hreturned
          exact hreturned
        rw [hret] at hrunning
        cases hrunning
      refine ⟨j, w₀, (List.getElem?_set_ne hij).trans hw₀, hmade, fun m w' hmj hw' => ?_⟩
      by_cases him : i = m
      · subst him
        simp only [hset, Option.some.injEq] at hw'
        subst hw'
        intro e' he'
        refine hbefore i w hmj hw e' ?_
        rw [htodo]
        exact List.mem_cons_of_mem _ he'
      · rw [List.getElem?_set_ne him] at hw'
        exact hbefore m w' hmj hw'
    · have hlast : n = s.hub.calls.length := by
        have := (List.getElem?_eq_some_iff.mp hc).1
        rw [List.length_append, List.length_singleton] at this
        omega
      subst hlast
      rw [List.getElem?_append_right (le_refl _), Nat.sub_self, List.getElem?_cons_zero] at hc
      cases hc
      refine ⟨i, _, hset, rfl, fun m w' hmi hw' => ?_⟩
      rw [List.getElem?_set_ne (by omega)] at hw'
      exact hfront m w' hmi hw'

theorem Inv.hubStep (hinv : s.Inv) {i : HubStep} (hnot : ∀ event range, i ≠ .notify event range)
    (hfresh : s.hub.Fresh i) : ({ s with hub := (Hub.step re s.hub i).1 } : Watched).Inv := by
  have hhub : (Hub.step re s.hub i).1.Inv := (hinv.hub.step hfresh).1
  rcases @Hub.calls_step re s.hub i with ⟨event, range, rfl, -⟩ | hcalls | ⟨m, c, c', hc, hcalls, he, -, hr⟩
  · exact absurd rfl (hnot event range)
  · refine ⟨hhub, fun k => ?_, fun n call hcall => ?_⟩
    · simp only [Hub.notified, hcalls]
      exact hinv.queue k
    · simp only [hcalls] at hcall
      exact hinv.made n call hcall
  · refine ⟨hhub, fun k => ?_, fun n call hcall hrunning => ?_⟩
    · simp only [Hub.notified, hcalls, Hub.map_event_set hc he]
      exact hinv.queue k
    · simp only [hcalls] at hcall
      by_cases hmn : m = n
      · subst hmn
        rw [List.getElem?_set_self (List.getElem?_eq_some_iff.mp hc).1] at hcall
        cases hcall
        have hold : c.returned = false := by
          cases hret : c.returned with
          | false => rfl
          | true => rw [hr hret] at hrunning; cases hrunning
        rw [he]
        exact hinv.made m c hc hold
      · rw [List.getElem?_set_ne hmn] at hcall
        exact hinv.made n call hcall hrunning

theorem Inv.step (hinv : s.Inv) {i : WatchedStep} (hfresh : s.Fresh i) (horder : s.InOrder i) :
    (step re s i).1.Inv := by
  cases i with
  | enter op =>
    simp only [Watched.step]
    split_ifs
    · exact hinv.enter horder
    · exact hinv
  | land i =>
    rw [Watched.step]
    cases hw : s.writers[i]? with
    | none => exact hinv
    | some w =>
      simp only
      split_ifs
      · exact hinv
      · exact hinv.land hw horder
  | notify i range =>
    rw [Watched.step]
    cases hw : s.writers[i]? with
    | none => exact hinv
    | some w =>
      simp only
      cases htodo : w.todo with
      | nil => exact hinv
      | cons e todo =>
        simp only
        split_ifs with hready
        · exact hinv.notify horder hw htodo hready.2
        · exact hinv
  | unlock i =>
    rw [Watched.step]
    cases hw : s.writers[i]? with
    | none => exact hinv
    | some w =>
      simp only
      split_ifs
      · exact ⟨hinv.hub, hinv.queue, hinv.made⟩
      · exact hinv
  | hub i =>
    cases i with
    | notify event range => exact hinv
    | write op => exact hinv.hubStep (by simp) hfresh
    | check n => exact hinv.hubStep (by simp) hfresh
    | send n => exact hinv.hubStep (by simp) hfresh
    | finish n => exact hinv.hubStep (by simp) hfresh
    | receive id => exact hinv.hubStep (by simp) hfresh
    | setPolicies policies => exact hinv.hubStep (by simp) hfresh

end Watched

/-! ### The last change and the table -/

/-- The event is about what is stored: the value, or that there is none. -/
def Tells (e : Event) (now : Option KVEntry) : Prop :=
  match e.type with
  | .set => now.map KVEntry.value = some e.value
  | .delete => now = none

/-- What the last of a list of changes leaves of an entry. -/
def Agrees (before : Option KVEntry) (changes : List Event) (after : Option KVEntry) : Prop :=
  match changes.getLast? with
  | none => after = before
  | some e => Tells e after

theorem Agrees.append {a b c : Option KVEntry} {l l' : List Event} (h : Agrees a l b)
    (h' : Agrees b l' c) : Agrees a (l ++ l') c := by
  rw [Agrees] at *
  rw [List.getLast?_append]
  cases hl : l'.getLast? with
  | none =>
    rw [hl] at h'
    simp only at h'
    rw [h']
    exact h
  | some e =>
    rw [hl] at h'
    exact h'

theorem agrees_commit (t : KVTable) (op : KVOp) (k : GoString) :
    Agrees (t.data.lookup k) (op.commit t k) ((op.update t).data.lookup k) := by
  rw [KVOp.commit]
  split_ifs with hk
  · cases hl : (op.update t).data.lookup k with
    | some entry => rfl
    | none =>
      cases hold : t.data.lookup k with
      | none => rfl
      | some old => rfl
  · exact op.lookup_update_of_notMem t hk

namespace Watched

variable {re : Regexp} {s : Watched}

/-- The table holds what the last committed change left. -/
def GoesWith (base : Option KVEntry) (k : GoString) (s : Watched) : Prop :=
  Agrees base (s.commits k) (s.store.data.lookup k)

theorem commits_step (re : Regexp) (s : Watched) (i : WatchedStep) (k : GoString) :
    ∃ changes, (step re s i).1.commits k = s.commits k ++ changes ∧
      Agrees (s.store.data.lookup k) changes ((step re s i).1.store.data.lookup k) := by
  have hnone : ∀ s' : Watched, s'.commits k = s.commits k →
      s'.store.data.lookup k = s.store.data.lookup k →
      ∃ changes, s'.commits k = s.commits k ++ changes ∧
        Agrees (s.store.data.lookup k) changes (s'.store.data.lookup k) :=
    fun s' hcommits hlookup => ⟨[], by rw [hcommits, List.append_nil], hlookup⟩
  cases i with
  | enter op =>
    simp only [Watched.step]
    split_ifs
    · rw [enter]
      cases op.check s.store.toKVTable with
      | some err => exact hnone s rfl rfl
      | none =>
        refine ⟨op.commit s.store.toKVTable k, ?_, agrees_commit s.store.toKVTable op k⟩
        simp only [commits, List.flatMap_append, List.flatMap_cons, List.flatMap_nil,
          List.append_nil]
    · exact hnone s rfl rfl
  | land i =>
    rw [Watched.step]
    cases hw : s.writers[i]? with
    | none => exact hnone s rfl rfl
    | some w =>
      simp only
      split_ifs
      · exact hnone s rfl rfl
      · have hcommits := commits_set hw { w with
          landed := true
          todo := if (s.store.persist (w.op.engineCall w.table)).2 = none ∨ w.op.logsErrors
            then w.todo else [] } rfl rfl k
        refine hnone _ hcommits ?_
        simp only [land, KVStore.persist_toKVTable]
  | notify i range =>
    rw [Watched.step]
    cases hw : s.writers[i]? with
    | none => exact hnone s rfl rfl
    | some w =>
      simp only
      cases htodo : w.todo with
      | nil => exact hnone s rfl rfl
      | cons e todo =>
        simp only
        split_ifs
        · have hcommits := commits_set hw { w with todo, call := some s.hub.calls.length } rfl rfl k
          exact hnone _ hcommits rfl
        · exact hnone s rfl rfl
  | unlock i =>
    rw [Watched.step]
    cases hw : s.writers[i]? with
    | none => exact hnone s rfl rfl
    | some w =>
      simp only
      split_ifs
      · exact hnone _ rfl rfl
      · exact hnone s rfl rfl
  | hub i => cases i <;> exact hnone _ rfl rfl

theorem GoesWith.step {base : Option KVEntry} {k : GoString} (h : s.GoesWith base k)
    (i : WatchedStep) : (step re s i).1.GoesWith base k := by
  obtain ⟨changes, hcommits, hagrees⟩ := commits_step re s i k
  rw [GoesWith, hcommits]
  exact Agrees.append h hagrees

/-! ### One watcher -/

/-- The watcher stays registered, may read the key and has room. -/
def Listens (re : Regexp) (id k : GoString) (s : Watched) : WatchedStep → Prop
  | .hub i => Hub.Listens re id k s.hub i
  | _ => True

theorem following_step {id k : GoString} {watcher : Watcher} {n0 : ℕ} {skipped : List Event}
    (hf : s.hub.Following id k watcher n0 skipped) (hinv : s.Inv) {i : WatchedStep}
    (hfresh : s.Fresh i) (horder : s.InOrder i) (hlistens : Listens re id k s i) :
    (step re s i).1.hub.Following id k watcher n0 skipped := by
  cases i with
  | enter op =>
    simp only [step]
    split_ifs
    · rw [enter]
      split <;> exact hf
    · exact hf
  | land i =>
    rw [step]
    cases hw : s.writers[i]? with
    | none => exact hf
    | some w =>
      simp only
      split_ifs <;> exact hf
  | notify i range =>
    rw [step]
    cases hw : s.writers[i]? with
    | none => exact hf
    | some w =>
      simp only
      cases htodo : w.todo with
      | nil => exact hf
      | cons e todo =>
        simp only
        split_ifs with hready
        · have hnew : (Hub.step re s.hub (.notify e range)).1.Following id k watcher n0 skipped :=
            hf.notify hinv.hub range (hinv.returned_of_inOrder horder hw htodo hready.2)
          exact hnew
        · exact hf
  | unlock i =>
    rw [step]
    cases hw : s.writers[i]? with
    | none => exact hf
    | some w =>
      simp only
      split_ifs <;> exact hf
  | hub i =>
    cases i with
    | notify event range => exact hf
    | write op => exact hf.step hinv.hub (by simp) hfresh hlistens
    | check n => exact hf.step hinv.hub (by simp) hfresh hlistens
    | send n => exact hf.step hinv.hub (by simp) hfresh hlistens
    | finish n => exact hf.step hinv.hub (by simp) hfresh hlistens
    | receive id' => exact hf.step hinv.hub (by simp) hfresh hlistens
    | setPolicies policies => exact hf.step hinv.hub (by simp) hfresh hlistens

/-- What the watcher received of a key continues what was notified before it came,
and is all of it once nobody has anything left to notify. -/
theorem Inv.received (hinv : s.Inv) {id k : GoString} {watcher : Watcher} {n0 : ℕ}
    {skipped : List Event} (hf : s.hub.Following id k watcher n0 skipped) :
    (∃ rest, s.commits k = skipped ++ s.hub.received id k ++ rest) ∧
      (s.Quiet → s.commits k = skipped ++ s.hub.received id k) := by
  obtain ⟨events, hevents, -⟩ := hinv.hub.consistent.opened id watcher hf.registered
  have hreceived := hinv.hub.received_eq (Finmap.mem_iff.mpr ⟨events, hevents⟩) k
  rw [hinv.queue k, hreceived]
  rcases hf.flow with ⟨heq, -⟩ | ⟨n, call, -, hcall, -, hrunning, -, heq, -⟩
  · rw [heq]
    refine ⟨⟨_, rfl⟩, fun hquiet => ?_⟩
    have hnone : (s.writers.flatMap fun w => w.todo.filter fun e => e.key = k) = [] := by
      refine List.flatMap_eq_nil_iff.mpr fun w hw => ?_
      rw [hquiet.1 w hw]
      rfl
    rw [hnone, List.append_nil]
  · rw [heq]
    refine ⟨⟨_, List.append_assoc _ _ _⟩, fun hquiet => ?_⟩
    have := hquiet.2 call (List.mem_of_getElem? hcall)
    rw [this] at hrunning
    cases hrunning

/-- A watcher added in any run receives the changes of a key in the order of their
commits, from the first one notified after it was added; once every writer and
every notification is done, it has received them all and the last one tells what
is stored. -/
theorem events_in_commit_order (re : Regexp) (store : KVStore) (aclEval : Option Evaluator)
    (bufferSize maxPerClient : ℤ) (earlier later : List WatchedStep) (k : GoString)
    (watcher : Watcher) (hmatch : matchesPattern k watcher.pattern)
    (hrun : (machine re).Along (fun s i => s.Fresh i ∧ s.InOrder i)
      (start store aclEval bufferSize maxPerClient)
      (earlier ++ .hub (.write (.add watcher.id watcher.pattern watcher.aclPolicies
        watcher.transport watcher.userID)) :: later))
    (hadded : ((machine re).step
        ((machine re).run (start store aclEval bufferSize maxPerClient) earlier).1
        (.hub (.write (.add watcher.id watcher.pattern watcher.aclPolicies watcher.transport
          watcher.userID)))).1.hub.manager.watchers.lookup watcher.id = some watcher)
    (hlistens : (machine re).Along (Listens re watcher.id k)
      ((machine re).step
        ((machine re).run (start store aclEval bufferSize maxPerClient) earlier).1
        (.hub (.write (.add watcher.id watcher.pattern watcher.aclPolicies watcher.transport
          watcher.userID)))).1 later) :
    let s0 := ((machine re).run (start store aclEval bufferSize maxPerClient) earlier).1
    let s := ((machine re).run (start store aclEval bufferSize maxPerClient)
      (earlier ++ .hub (.write (.add watcher.id watcher.pattern watcher.aclPolicies
        watcher.transport watcher.userID)) :: later)).1
    (∃ rest, s.commits k = s0.hub.notified k ++ s.hub.received watcher.id k ++ rest) ∧
      (s.Quiet → s.commits k = s0.hub.notified k ++ s.hub.received watcher.id k ∧
        ∀ e, (s.hub.received watcher.id k).getLast? = some e → Tells e (s.store.data.lookup k)) := by
  intro s0 s
  obtain ⟨hearlier, ⟨hfresh, -⟩, hlater⟩ := ((machine re).along_append _ _ _ _).mp hrun
  have hstart := inv_start store aclEval bufferSize maxPerClient
  have hinv0 : s0.Inv := by
    refine (machine re).invariant (fun s i h hi => ?_) hstart hearlier
    exact h.step hi.1 hi.2
  have hbase : s.GoesWith (store.data.lookup k) k := by
    have h0 : (start store aclEval bufferSize maxPerClient).GoesWith (store.data.lookup k) k := rfl
    exact (machine re).invariant_run (fun s i h => h.step i) h0 _
  have hadd : ((machine re).step s0 (.hub (.write (.add watcher.id watcher.pattern
      watcher.aclPolicies watcher.transport watcher.userID)))).1.Inv := hinv0.step hfresh trivial
  have hfollow := Hub.following_add hinv0.hub hfresh hadded hmatch
  -- the steps after the registration keep both invariants
  have hboth : s.Inv ∧ s.hub.Following watcher.id k watcher s0.hub.calls.length
      (s0.hub.notified k) := by
    have hsplit : s = ((machine re).run ((machine re).step s0 (.hub (.write (.add watcher.id
        watcher.pattern watcher.aclPolicies watcher.transport watcher.userID)))).1 later).1 := by
      simp only [s, s0, Machine.run_append, Machine.run_cons]
    rw [hsplit]
    have hall : ∀ (is : List WatchedStep) (s : Watched), s.Inv →
        s.hub.Following watcher.id k watcher s0.hub.calls.length (s0.hub.notified k) →
        (machine re).Along (fun s i => s.Fresh i ∧ s.InOrder i) s is →
        (machine re).Along (Listens re watcher.id k) s is →
        ((machine re).run s is).1.Inv ∧ ((machine re).run s is).1.hub.Following watcher.id k watcher
          s0.hub.calls.length (s0.hub.notified k) := by
      intro is
      induction is with
      | nil => exact fun s hi hf _ _ => ⟨hi, hf⟩
      | cons i is ih =>
        intro s hi hf hcond hlis
        exact ih _ (hi.step hcond.1.1 hcond.1.2)
          (following_step hf hi hcond.1.1 hcond.1.2 hlis.1) hcond.2 hlis.2
    exact hall later _ hadd hfollow hlater hlistens
  obtain ⟨hrest, hquiet⟩ := hboth.1.received hboth.2
  refine ⟨hrest, fun hq => ⟨hquiet hq, fun e he => ?_⟩⟩
  rw [GoesWith, Agrees, hquiet hq, List.getLast?_append, he] at hbase
  exact hbase

/-! ### Two writers of one key -/

/-- A watcher of one key, on a node without access control. -/
def modeWatcher : Watcher := ⟨str "w1", str "mode", [], .sse, str "ann"⟩

def addModeWatcher : WatchedStep :=
  .hub (.write (.add (str "w1") (str "mode") [] .sse (str "ann")))

/-- The `n`-th call of `Notify` decides about one watcher and returns. -/
def deliver (n : ℕ) : List WatchedStep := [.hub (.check n), .hub (.send n), .hub (.finish n)]

/-- Two writers of the key commit one after the other. -/
def twoWriters : List WatchedStep :=
  [.enter (.set (str "mode") (str "on")), .enter (.set (str "mode") (str "off")), .land 0, .land 1]

/-- An engine of regular expressions that is not asked. -/
def noRegexp : Regexp := ⟨fun _ => true, fun _ _ => false⟩

/-- A write, its engine call and its notification. -/
def oneWriter : List WatchedStep :=
  [.enter (.set (str "mode") (str "on")), .land 0, .notify 0 GoMap.sorted] ++ deliver 0

theorem events_in_commit_order_one_writer :
    ((machine noRegexp).run (start .new none 8 0) (addModeWatcher :: oneWriter)).1.commits
        (str "mode") =
      ((machine noRegexp).run (start .new none 8 0) (addModeWatcher :: oneWriter)).1.hub.received
        (str "w1") (str "mode") := by
  have hevents := events_in_commit_order noRegexp .new none 8 0 [] oneWriter (str "mode")
    modeWatcher (by decide) ?_ (by decide) ?_
  · exact (hevents.2 ⟨by decide, by decide⟩).1
  · refine ⟨⟨by decide, trivial⟩, ⟨trivial, trivial⟩, ⟨trivial, ?_⟩, ⟨trivial, ?_⟩,
      ⟨trivial, trivial⟩, ⟨trivial, trivial⟩, ⟨trivial, trivial⟩, trivial⟩
    · exact fun _ _ => .inr rfl
    · exact fun _ _ _ _ _ j _ hj => absurd hj (Nat.not_lt_zero j)
  · exact ⟨trivial, trivial, trivial, fun _ _ _ _ _ _ _ => rfl, fun _ _ _ _ => by decide, trivial,
      trivial⟩

/-- The notification of the first of two `Set`s reaches the manager last: when all
is quiet, the watcher's last event says `on` and the store holds `off`. -/
theorem overtaken_event_is_last :
    let s := ((machine noRegexp).run (start .new none 8 0) (addModeWatcher :: (twoWriters ++
      [.notify 1 GoMap.sorted] ++ deliver 0 ++ [.notify 0 GoMap.sorted] ++ deliver 1))).1
    s.Quiet ∧ s.hub.received (str "w1") (str "mode") ≠ s.commits (str "mode") ∧
      (s.hub.received (str "w1") (str "mode")).getLast? =
        some ⟨.set, str "mode", str "on", []⟩ ∧
      (s.store.data.lookup (str "mode")).map KVEntry.value = some (str "off") := by
  refine ⟨⟨?_, ?_⟩, ?_, ?_, ?_⟩
  · decide
  · decide
  · decide
  · decide
  · decide

end Watched

end Konsul.Watch
