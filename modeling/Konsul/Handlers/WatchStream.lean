import Konsul.Handlers.KVWatch
import Konsul.Handlers.WatchOrder
import Mathlib.Data.List.Forall2

/-!
# The life of a stream's watcher

`Streaming` is a session with what a statement about its events needs: which call
of `Notify` each writer made for which of its events, and how many writers had
committed when the watcher was added and when the client disconnected. An event is
due if its writer committed in between. The due events a stream is sent are those
notified before its handler returns.
-/

namespace Konsul.Watch

open GoLib

/-- `made` has the calls of `Notify` with the writers that made them, oldest first. -/
structure Streaming where
  session : Session
  made : List (ℕ × ℕ)
  opened : Option ℕ
  closed : Option ℕ

inductive StreamStep where
  | step (i : SessionStep)
  | disconnect

namespace Hub

/-- The call found that the watcher may not read its key. -/
def Refuses (h : Hub) (n : ℕ) (id : GoString) : Prop :=
  ∃ call, h.calls[n]? = some call ∧ ∃ v ∈ call.visited, v.id = id ∧ v.permitted = false

/-- What a call has decided is what it had decided before the step, a refusal, or
what its send found. -/
theorem visited_step {re : Regexp} {h : Hub} (hinv : h.Inv) (i : HubStep) {n : ℕ}
    {call' : NotifyCall} (hcall' : (Hub.step re h i).1.calls[n]? = some call') {v : Visit}
    (hv : v ∈ call'.visited) :
    (∃ call, h.calls[n]? = some call ∧ v ∈ call.visited) ∨ v.permitted = false ∨
      (i = .send n ∧ ∃ call, h.calls[n]? = some call ∧ call.pending = some v.id ∧
        v.room = h.hasRoom v.id) := by
  have hset : ∀ (m : ℕ) (call new : NotifyCall), h.calls[m]? = some call →
      (h.calls.set m new)[n]? = some call' →
      (h.calls[n]? = some call') ∨ (m = n ∧ h.calls[n]? = some call ∧ call' = new) := by
    intro m call new hcall hnew
    by_cases hmn : m = n
    · subst hmn
      rw [List.getElem?_set_self (List.getElem?_eq_some_iff.mp hcall).1] at hnew
      exact .inr ⟨rfl, hcall, (Option.some.inj hnew).symm⟩
    · rw [List.getElem?_set_ne hmn] at hnew
      exact .inl hnew
  have he := Hub.step_effect re h i
  generalize Hub.step re h i = r at he hcall'
  cases he with
  | still i => exact .inl ⟨call', hcall', hv⟩
  | wrote hno => exact .inl ⟨call', hcall', hv⟩
  | began event range =>
    simp only [Hub.step, List.getElem?_append] at hcall'
    split_ifs at hcall'
    · exact .inl ⟨call', hcall', hv⟩
    · have hmem := List.mem_of_getElem? hcall'
      rw [List.mem_singleton.mp hmem] at hv
      cases hv
  | @checked m call hcall hpending =>
    rcases Hub.check_cases re h m call with heq | ⟨new, heq, -, -, -, hvisited⟩
    · rw [heq] at hcall'
      exact .inl ⟨call', hcall', hv⟩
    · rw [heq] at hcall'
      rcases hset m call new hcall hcall' with hold | ⟨-, hold, rfl⟩
      · exact .inl ⟨call', hold, hv⟩
      · rcases hvisited with hsame | ⟨id, hrefused⟩
        · exact .inl ⟨call, hold, hsame ▸ hv⟩
        · rw [hrefused] at hv
          rcases List.mem_append.mp hv with hv | hv
          · exact .inl ⟨call, hold, hv⟩
          · rw [List.mem_singleton.mp hv]
            exact .inr (.inl rfl)
  | @sent m call id hcall hpending =>
    obtain ⟨events, events', -, -, -, heq⟩ := hinv.send_eq hcall hpending
    simp only [heq] at hcall'
    rcases hset m call _ hcall hcall' with hold | ⟨rfl, hold, rfl⟩
    · exact .inl ⟨call', hold, hv⟩
    · rcases List.mem_append.mp hv with hv | hv
      · exact .inl ⟨call, hold, hv⟩
      · rw [List.mem_singleton.mp hv]
        exact .inr (.inr ⟨rfl, call, hold, hpending, rfl⟩)
  | @returned m call hcall hpending htodo =>
    rcases hset m call _ hcall hcall' with hold | ⟨-, hold, rfl⟩
    · exact .inl ⟨call', hold, hv⟩
    · exact .inl ⟨call, hold, hv⟩
  | received hlookup => exact .inl ⟨call', hcall', hv⟩
  | decided policies => exact .inl ⟨call', hcall', hv⟩

theorem watchers_step (re : Regexp) {h : Hub} (hinv : h.Inv) (i : HubStep) :
    (Hub.step re h i).1.manager.watchers = h.manager.watchers ∨
      ∃ op, i = .write op ∧
        (Hub.step re h i).1.manager.watchers = (h.manager.apply op).1.watchers := by
  have he := Hub.step_effect re h i
  generalize Hub.step re h i = r at he ⊢
  cases he with
  | still i => exact .inl rfl
  | @wrote op hno => exact .inr ⟨op, rfl, rfl⟩
  | began event range => exact .inl rfl
  | @checked n call hcall hpending =>
    rcases Hub.check_cases re h n call with heq | ⟨call', heq, -⟩
    · exact .inl (congrArg (fun h => h.manager.watchers) heq)
    · exact .inl (congrArg (fun h => h.manager.watchers) heq)
  | sent hcall hpending =>
    obtain ⟨events, events', -, -, -, heq⟩ := hinv.send_eq hcall hpending
    simp only [heq, true_or]
  | returned hcall hpending htodo => exact .inl rfl
  | received hlookup => exact .inl rfl
  | decided policies => exact .inl rfl

end Hub

namespace Streaming

variable (re : Regexp) (c : Connection)

/-- The call of `Notify` that a step starts, with its writer. -/
def starts (before after : Watched) : SessionStep → List (ℕ × ℕ)
  | .other (.notify j _) =>
    if before.hub.calls.length < after.hub.calls.length then [(j, before.hub.calls.length)] else []
  | _ => []

def opening (before after : Session) (i : SessionStep) (opened : Option ℕ) : Option ℕ :=
  match i with
  | .add =>
    if before.phase = .admitted ∧ after.phase = .added then some after.watched.writers.length
    else opened
  | _ => opened

def step (s : Streaming) : StreamStep → Streaming × Unit
  | .step i =>
    let session := (s.session.step re c i).1
    ({ session
       made := s.made ++ starts s.session.watched session.watched i
       opened := opening s.session session i s.opened
       closed := s.closed }, ())
  | .disconnect =>
    ({ s with closed := s.closed.or (some s.session.watched.writers.length) }, ())

def machine : Machine Streaming StreamStep Unit := ⟨step re c⟩

def start (store : KVStore) (aclEval : Option Evaluator) (bufferSize maxPerClient : ℤ) :
    Streaming :=
  ⟨.start store aclEval bufferSize maxPerClient, [], none, none⟩

/-- The calls of a writer, oldest first. -/
def callsOf (s : Streaming) (j : ℕ) : List ℕ := (s.made.filter fun p => p.1 = j).map Prod.snd

/-- The writer committed while the stream was open. -/
def Due (s : Streaming) (j : ℕ) : Prop :=
  (∃ n, s.opened = some n ∧ n ≤ j) ∧ ∀ n, s.closed = some n → j < n

/-- The writer is done, and its calls of `Notify` have returned. -/
def Done (s : Streaming) (j : ℕ) (w : Writer) : Prop :=
  w.landed ∧ w.todo = [] ∧ ∀ n ∈ s.callsOf j, ∀ call, s.session.watched.hub.calls[n]? = some call →
    call.returned

/-- Each due event of a key that matches and that the watcher may read was put into
the channel of the watcher, by the call made for it. -/
def Delivers (s : Streaming) : Prop :=
  ∀ j w, s.Due j → s.session.watched.writers[j]? = some w → s.Done j w →
    List.Forall₂ (fun e n => matchesPattern e.key c.pattern →
      ¬ s.session.watched.hub.Refuses n c.id → s.session.watched.hub.Reached n c.id)
      (w.op.events w.table) (s.callsOf j)

/-- The handler has not returned when the notification of a due event starts, the
channel has room when such a call sends, and a due writer reports no engine error.
Ids are new, and the manager is closed at most before the session. -/
def Kept (s : Streaming) : StreamStep → Prop
  | .disconnect => True
  | .step .add => s.session.watched.hub.Fresh (.write c.adding)
  | .step (.other (.land j)) => s.Due j → ∀ w, s.session.watched.writers[j]? = some w →
      w.op.logsErrors ∨ s.session.watched.store.fault = none
  | .step (.other (.notify j _)) => s.Due j → ∀ w e todo,
      s.session.watched.writers[j]? = some w → w.todo = e :: todo →
      matchesPattern e.key c.pattern → s.session.returned = false
  | .step (.other (.hub (.send n))) => ∀ j, s.Due j → (j, n) ∈ s.made →
      ∀ call, s.session.watched.hub.calls[n]? = some call → call.pending = some c.id →
        s.session.watched.hub.hasRoom c.id
  | .step (.other (.hub (.write (.close _)))) => s.opened = none
  | .step (.other i) => s.session.watched.Fresh i
  | .step _ => True

/-! ### Calls and the events they are for -/

/-- The call was made for the event, and found the watcher if the key matches. -/
def Told (h : Hub) (e : Event) (n : ℕ) : Prop :=
  ∃ call, h.calls[n]? = some call ∧ call.event = e ∧
    (matchesPattern e.key c.pattern → call.registered.lookup c.id = some c.watcher)

/-- Where a due writer stands: the events it notified have their calls, the others
are still to be notified. The calls found room, and the watcher is registered
until the handler returns. -/
structure Inv (s : Streaming) : Prop where
  hub : s.session.watched.hub.Inv
  bound : ∀ p ∈ s.made, p.1 < s.session.watched.writers.length
  told : ∀ j w, s.Due j → s.session.watched.writers[j]? = some w →
    ∃ done, w.op.events w.table = done ++ w.todo ∧
      List.Forall₂ (Told c s.session.watched.hub) done (s.callsOf j)
  room : ∀ j n call, s.Due j → (j, n) ∈ s.made → s.session.watched.hub.calls[n]? = some call →
    ∀ v ∈ call.visited, v.id = c.id → v.permitted → v.room
  registered : s.opened.isSome → s.session.returned = false →
    s.session.watched.hub.manager.watchers.lookup c.id = some c.watcher

variable {re : Regexp} {c : Connection} {s s' : Streaming}

theorem inv_start (store : KVStore) (aclEval : Option Evaluator) (bufferSize maxPerClient : ℤ) :
    (start store aclEval bufferSize maxPerClient).Inv c where
  hub := Hub.inv_new aclEval bufferSize maxPerClient
  bound _ hp := absurd hp List.not_mem_nil
  told _ _ hdue := by
    obtain ⟨⟨n, hn, -⟩, -⟩ := hdue
    cases hn
  room _ _ _ _ hmade := absurd hmade List.not_mem_nil
  registered hopened := by cases hopened

theorem Told.mono {h h' : Hub} (hextends : Hub.Extends h h') {e : Event} {n : ℕ}
    (ht : Told c h e n) : Told c h' e n := by
  obtain ⟨call, hcall, he, hregistered⟩ := ht
  obtain ⟨call', hcall', he', hr', -⟩ := hextends.calls n call hcall
  exact ⟨call', hcall', he'.trans he, fun hmatch => hr' ▸ hregistered hmatch⟩

theorem Inv.delivers (h : s.Inv c) : s.Delivers c := by
  intro j w hdue hw hdone
  obtain ⟨hlanded, htodo, hreturned⟩ := hdone
  obtain ⟨done, hevents, htold⟩ := h.told j w hdue hw
  rw [htodo, List.append_nil] at hevents
  rw [hevents]
  have hmade : ∀ n ∈ s.callsOf j, (j, n) ∈ s.made := by
    intro n hn
    obtain ⟨p, hp, rfl⟩ := List.mem_map.mp hn
    obtain ⟨hp, hj⟩ := List.mem_filter.mp hp
    rw [← of_decide_eq_true hj]
    exact hp
  refine (List.forall₂_iff_zip.mpr ⟨htold.length_eq, fun {e n} hen => ?_⟩)
  intro hmatch hpermitted
  obtain ⟨call, hcall, he, hregistered⟩ := (List.forall₂_iff_zip.mp htold).2 hen
  have hn : n ∈ s.callsOf j := (List.of_mem_zip hen).2
  have hsound := h.hub.sound n call hcall
  obtain ⟨hpending, hnone⟩ := hsound.finished (hreturned n hn call hcall)
  have hwalk : c.id ∈ call.walk := by
    rw [hsound.mem_walk, he]
    exact ⟨c.watcher, hregistered hmatch, hmatch⟩
  simp only [NotifyCall.walk, hpending, hnone, Option.toList_none, List.append_nil] at hwalk
  obtain ⟨v, hv, hvid⟩ := List.mem_map.mp hwalk
  have hmay : v.permitted = true := by
    cases hp : v.permitted with
    | true => rfl
    | false => exact absurd ⟨call, hcall, v, hv, hvid, hp⟩ hpermitted
  have hroom := h.room j n call hdue (hmade n hn) hcall v hv hvid hmay
  exact (hsound.exact c.id).mpr ⟨v, hv, hvid, hmay, hroom⟩

/-! ### One step -/

/-- Rule for a step after which a due writer has the same left to notify, or is new. -/
theorem Inv.next (h : s.Inv c) (hhub : s'.session.watched.hub.Inv)
    (hextends : Hub.Extends s.session.watched.hub s'.session.watched.hub)
    (hmade : s'.made = s.made)
    (hlength : s.session.watched.writers.length ≤ s'.session.watched.writers.length)
    (hdue : ∀ j, j < s.session.watched.writers.length → s'.Due j → s.Due j)
    (hwriters : ∀ j w', s'.Due j → s'.session.watched.writers[j]? = some w' →
      (∃ w, s.session.watched.writers[j]? = some w ∧ w'.op = w.op ∧ w'.table = w.table ∧
        w'.todo = w.todo) ∨
      (s.session.watched.writers.length ≤ j ∧ w'.op.events w'.table = w'.todo))
    (hroom : ∀ j n call', s'.Due j → (j, n) ∈ s.made →
      s'.session.watched.hub.calls[n]? = some call' → ∀ v ∈ call'.visited, v.id = c.id →
        v.permitted → v.room ∨
          ∃ call, s.session.watched.hub.calls[n]? = some call ∧ v ∈ call.visited)
    (hregistered : s'.opened.isSome → s'.session.returned = false →
      s'.session.watched.hub.manager.watchers.lookup c.id = some c.watcher) : s'.Inv c := by
  have hcalls : ∀ j, s'.callsOf j = s.callsOf j := fun j => by rw [callsOf, callsOf, hmade]
  refine ⟨hhub, fun p hp => ?_, fun j w' hj hw' => ?_, fun j n call' hj hn hcall' v hv hid hmay => ?_,
    hregistered⟩
  · rw [hmade] at hp
    exact lt_of_lt_of_le (h.bound p hp) hlength
  · rw [hcalls]
    rcases hwriters j w' hj hw' with ⟨w, hw, hop, htable, htodo⟩ | ⟨hnew, htodo⟩
    · have hlt : j < s.session.watched.writers.length := (List.getElem?_eq_some_iff.mp hw).1
      obtain ⟨done, hevents, htold⟩ := h.told j w (hdue j hlt hj) hw
      refine ⟨done, ?_, htold.imp fun _ _ ht => ht.mono hextends⟩
      rw [hop, htable, htodo]
      exact hevents
    · refine ⟨[], htodo, ?_⟩
      have hnone : s.callsOf j = [] := by
        rw [callsOf, List.map_eq_nil_iff]
        refine List.filter_eq_nil_iff.mpr fun p hp heq => ?_
        have hlt := h.bound p hp
        rw [of_decide_eq_true heq] at hlt
        omega
      rw [hnone]
      exact List.Forall₂.nil
  · rw [hmade] at hn
    have hlt := h.bound _ hn
    rcases hroom j n call' hj hn hcall' v hv hid hmay with hroom | ⟨call, hcall, hv⟩
    · exact hroom
    · exact h.room j n call (hdue j hlt hj) hn hcall v hv hid hmay

/-- Rule for a step of the session alone. -/
theorem Inv.session (h : s.Inv c) (hwatched : s'.session.watched = s.session.watched)
    (hmade : s'.made = s.made) (hdue : ∀ j, j < s.session.watched.writers.length → s'.Due j → s.Due j)
    (hopened : s'.opened = s.opened)
    (hreturned : s'.session.returned = false → s.session.returned = false) : s'.Inv c := by
  refine h.next (hwatched ▸ h.hub) (hwatched ▸ Hub.Extends.refl _) hmade (by rw [hwatched]) hdue
    (fun j w' _ hw' => ?_) (fun j n call' _ _ hcall' v hv _ _ => ?_) fun ho hr => ?_
  · rw [hwatched] at hw'
    exact .inl ⟨w', hw', rfl, rfl, rfl⟩
  · rw [hwatched] at hcall'
    exact .inr ⟨call', hcall', hv⟩
  · rw [hwatched]
    rw [hopened] at ho
    exact h.registered ho (hreturned hr)

/-- Rule for a step at the watch manager that starts no call. -/
theorem Inv.hubStep (h : s.Inv c) {i : HubStep} (hfresh : s.session.watched.hub.Fresh i)
    (hsend : ∀ n, i = .send n → ∀ j, s.Due j → (j, n) ∈ s.made →
      ∀ call, s.session.watched.hub.calls[n]? = some call → call.pending = some c.id →
        s.session.watched.hub.hasRoom c.id)
    (hwatched : s'.session.watched =
      { s.session.watched with hub := (Hub.step re s.session.watched.hub i).1 })
    (hmade : s'.made = s.made) (hdue : ∀ j, j < s.session.watched.writers.length → s'.Due j → s.Due j)
    (hregistered : s'.opened.isSome → s'.session.returned = false →
      s'.session.watched.hub.manager.watchers.lookup c.id = some c.watcher) : s'.Inv c := by
  refine h.next ?_ ?_ hmade ?_ hdue (fun j w' _ hw' => ?_) (fun j n call' hj hn hcall' v hv hid hmay => ?_)
    hregistered
  · rw [hwatched]
    exact (h.hub.step hfresh).1
  · rw [hwatched]
    exact h.hub.extends_step i
  · rw [hwatched]
  · rw [hwatched] at hw'
    exact .inl ⟨w', hw', rfl, rfl, rfl⟩
  · rw [hwatched] at hcall'
    rcases Hub.visited_step h.hub i hcall' hv with hold | hrefused | ⟨rfl, call, hcall, hpending, hroom⟩
    · exact .inr hold
    · rw [hrefused] at hmay
      cases hmay
    · rw [hid] at hpending hroom
      rw [hroom]
      exact .inl (hsend n rfl j (hdue j (h.bound _ hn) hj) hn call hcall hpending)

theorem due_of_eq {j : ℕ} (hj : s'.Due j) (hopened : s'.opened = s.opened)
    (hclosed : s'.closed = s.closed) : s.Due j := by
  rw [Due, hopened, hclosed] at hj
  exact hj

/-- Rule for a step at the watch manager that leaves the registry alone. -/
theorem Inv.atManager (h : s.Inv c) {i : HubStep} (hfresh : s.session.watched.hub.Fresh i)
    (hsend : ∀ n, i = .send n → ∀ j, s.Due j → (j, n) ∈ s.made →
      ∀ call, s.session.watched.hub.calls[n]? = some call → call.pending = some c.id →
        s.session.watched.hub.hasRoom c.id)
    (hwrite : ∀ op, i ≠ .write op) :
    ({ s with session := { s.session with watched := { s.session.watched with
      hub := (Hub.step re s.session.watched.hub i).1 } } } : Streaming).Inv c := by
  refine h.hubStep hfresh hsend rfl rfl (fun _ _ hj => hj) fun ho hr => ?_
  rcases Hub.watchers_step re h.hub i with heq | ⟨op, hop, -⟩
  · simp only [heq]
    exact h.registered ho hr
  · exact absurd hop (hwrite op)

theorem Inv.writerStep (h : s.Inv c) (hhub : s'.session.watched.hub = s.session.watched.hub)
    (hmade : s'.made = s.made) (hopened : s'.opened = s.opened) (hclosed : s'.closed = s.closed)
    (hreturned : s'.session.returned = s.session.returned)
    (hlength : s.session.watched.writers.length ≤ s'.session.watched.writers.length)
    (hwriters : ∀ j w', s.Due j → s'.session.watched.writers[j]? = some w' →
      (∃ w, s.session.watched.writers[j]? = some w ∧ w'.op = w.op ∧ w'.table = w.table ∧
        w'.todo = w.todo) ∨
      (s.session.watched.writers.length ≤ j ∧ w'.op.events w'.table = w'.todo)) : s'.Inv c := by
  have hdue : ∀ j, s'.Due j → s.Due j := fun j hj => due_of_eq hj hopened hclosed
  refine h.next (hhub ▸ h.hub) (hhub ▸ Hub.Extends.refl _) hmade hlength (fun j _ => hdue j)
    (fun j w' hj => hwriters j w' (hdue j hj)) (fun j n call' _ _ hcall' v hv _ _ => ?_) fun ho hr => ?_
  · rw [hhub] at hcall'
    exact .inr ⟨call', hcall', hv⟩
  · rw [hopened] at ho
    rw [hreturned] at hr
    rw [hhub]
    exact h.registered ho hr

theorem Inv.notify (h : s.Inv c) {j : ℕ} {range : (m : GoMap GoString (List GoString)) → m.Order}
    {w : Writer} {e : Event} {todo : List Event} (hw : s.session.watched.writers[j]? = some w)
    (htodo : w.todo = e :: todo)
    (hopen : s.Due j → matchesPattern e.key c.pattern → s.session.returned = false)
    (hwatched : s'.session.watched =
      { s.session.watched with
        hub := (Hub.step re s.session.watched.hub (.notify e range)).1
        writers := s.session.watched.writers.set j
          { w with todo, call := some s.session.watched.hub.calls.length } })
    (hmade : s'.made = s.made ++ [(j, s.session.watched.hub.calls.length)])
    (hopened : s'.opened = s.opened) (hclosed : s'.closed = s.closed)
    (hreturned : s'.session.returned = s.session.returned) : s'.Inv c := by
  have hlt : j < s.session.watched.writers.length := (List.getElem?_eq_some_iff.mp hw).1
  have hdue : ∀ j, s'.Due j → s.Due j := fun j hj => due_of_eq hj hopened hclosed
  have hcalls : s'.session.watched.hub.calls = s.session.watched.hub.calls ++
      [⟨e, s.session.watched.hub.manager.notifyIDs e.key
        (range s.session.watched.hub.manager.patterns), none, [],
        s.session.watched.hub.manager.watchers, false⟩] := by
    rw [hwatched]
    rfl
  have hextends : Hub.Extends s.session.watched.hub s'.session.watched.hub := by
    rw [hwatched]
    exact h.hub.extends_step _
  constructor
  · have hinv : (Hub.step re s.session.watched.hub (.notify e range)).1.Inv := h.hub.notify e range
    rw [hwatched]
    exact hinv
  · intro p hp
    rw [hmade] at hp
    rw [hwatched, List.length_set]
    rcases List.mem_append.mp hp with hp | hp
    · exact h.bound p hp
    · rw [List.mem_singleton.mp hp]
      exact hlt
  · intro i w' hi hw'
    have hcallsOf : s'.callsOf i = s.callsOf i ++
        if j = i then [s.session.watched.hub.calls.length] else [] := by
      rw [callsOf, hmade, List.filter_append, List.map_append]
      split_ifs with hij
      · simp only [hij, decide_true, List.filter_cons_of_pos, List.filter_nil, List.map_cons,
          List.map_nil]
        rfl
      · simp only [hij, decide_false, Bool.false_eq_true, not_false_eq_true,
          List.filter_cons_of_neg, List.filter_nil, List.map_nil]
        rfl
    rw [hwatched] at hw'
    rw [hcallsOf]
    by_cases hij : j = i
    · subst hij
      simp only [List.getElem?_set_self hlt, Option.some.injEq] at hw'
      subst hw'
      obtain ⟨done, hevents, htold⟩ := h.told j w (hdue j hi) hw
      refine ⟨done ++ [e], ?_, ?_⟩
      · rw [htodo] at hevents
        simp only [hevents, List.append_assoc, List.singleton_append]
      · rw [if_pos rfl]
        refine List.rel_append (htold.imp fun _ _ ht => ht.mono hextends) ?_
        refine List.Forall₂.cons ⟨⟨e, s.session.watched.hub.manager.notifyIDs e.key
          (range s.session.watched.hub.manager.patterns), none, [],
          s.session.watched.hub.manager.watchers, false⟩, ?_, rfl, fun hmatch => ?_⟩ List.Forall₂.nil
        · rw [hcalls, List.getElem?_append_right (le_refl _), Nat.sub_self]
          rfl
        · have hsome : s.opened.isSome := by
            obtain ⟨⟨n, hn, -⟩, -⟩ := hdue j hi
            rw [hn]
            rfl
          exact h.registered hsome (hopen (hdue j hi) hmatch)
    · rw [List.getElem?_set_ne hij] at hw'
      obtain ⟨done, hevents, htold⟩ := h.told i w' (hdue i hi) hw'
      refine ⟨done, hevents, ?_⟩
      rw [if_neg hij, List.append_nil]
      exact htold.imp fun _ _ ht => ht.mono hextends
  · intro i n call' hi hn hcall' v hv hid hmay
    rw [hcalls, List.getElem?_append] at hcall'
    split_ifs at hcall' with hold
    · rw [hmade] at hn
      rcases List.mem_append.mp hn with hn | hn
      · exact h.room i n call' (hdue i hi) hn hcall' v hv hid hmay
      · rw [List.mem_singleton, Prod.mk.injEq] at hn
        omega
    · rw [List.mem_singleton.mp (List.mem_of_getElem? hcall')] at hv
      cases hv
  · intro ho hr
    rw [hopened] at ho
    rw [hreturned] at hr
    rw [hwatched]
    exact h.registered ho hr

/-- A step of the session that leaves the store and the watch manager alone. -/
theorem session_step (re : Regexp) (c : Connection) (s : Session) {i : SessionStep}
    (hi : i = .authorize ∨ i = .read ∨ (∃ ok, i = .write ok) ∨ i = .wake ∨ i = .leave) :
    (s.step re c i).1.watched = s.watched ∧ (s.step re c i).1.returned = s.returned := by
  rcases hi with rfl | rfl | ⟨ok, rfl⟩ | rfl | rfl
  · simp only [Session.step, Session.authorize]
    split
    · split <;> exact ⟨rfl, rfl⟩
    · exact ⟨rfl, rfl⟩
  · simp only [Session.step, Session.read]
    split
    · split_ifs
      · exact ⟨rfl, rfl⟩
      · split <;> exact ⟨rfl, rfl⟩
      · exact ⟨rfl, rfl⟩
      · exact ⟨rfl, rfl⟩
    · exact ⟨rfl, rfl⟩
  · simp only [Session.step, Session.write]
    split
    · split_ifs <;> exact ⟨rfl, rfl⟩
    · exact ⟨rfl, rfl⟩
  · simp only [Session.step, Session.wake]
    split
    · split
      · exact ⟨rfl, rfl⟩
      · split_ifs <;> exact ⟨rfl, rfl⟩
    · exact ⟨rfl, rfl⟩
  · simp only [Session.step, Session.leave]
    split <;> exact ⟨rfl, rfl⟩

theorem Inv.alone (h : s.Inv c) {i : SessionStep}
    (hi : i = .authorize ∨ i = .read ∨ (∃ ok, i = .write ok) ∨ i = .wake ∨ i = .leave) :
    (s.step re c (.step i)).1.Inv c := by
  obtain ⟨hwatched, hreturned⟩ := session_step re c s.session hi
  have hmade : starts s.session.watched (s.session.step re c i).1.watched i = [] := by
    rcases hi with rfl | rfl | ⟨ok, rfl⟩ | rfl | rfl <;> rfl
  have hopened : opening s.session (s.session.step re c i).1 i s.opened = s.opened := by
    rcases hi with rfl | rfl | ⟨ok, rfl⟩ | rfl | rfl <;> rfl
  refine h.session hwatched ?_ (fun j _ hj => due_of_eq hj hopened rfl) hopened fun hr => ?_
  · simp only [step, hmade, List.append_nil]
  · exact hreturned.symm.trans hr

theorem add_cases (re : Regexp) (c : Connection) (s : Session) :
    s.add re c = s ∨
      s.phase = .admitted ∧ s.watched.hub.reading = false ∧
        (s.add re c).watched = { s.watched with
          hub := (Hub.step re s.watched.hub (.write c.adding)).1 } ∧
        (s.add re c).returned = s.returned ∧
        ((s.add re c).phase = .added → ∃ watcher,
          (s.watched.hub.manager.addWatcher c.id c.pattern c.policies c.endpoint.transport
            c.userID).2 = .ok watcher) := by
  rw [Session.add]
  split
  · next hphase =>
    split_ifs with hreading
    · exact .inl rfl
    · refine .inr ⟨hphase, by simpa using hreading, rfl, rfl, fun hadded => ?_⟩
      simp only at hadded
      split at hadded
      · next watcher hok => exact ⟨watcher, hok⟩
      · cases hadded
      · cases hadded
  · exact .inl rfl

theorem opening_self (s : Session) (i : SessionStep) (opened : Option ℕ) :
    opening s s i opened = opened := by
  cases i with
  | add =>
    have hnot : ¬ (s.phase = .admitted ∧ s.phase = .added) := by
      rintro ⟨hadmitted, hadded⟩
      rw [hadmitted] at hadded
      cases hadded
    exact if_neg hnot
  | other i => rfl
  | authorize => rfl
  | read => rfl
  | write ok => rfl
  | take => rfl
  | wake => rfl
  | leave => rfl
  | finish => rfl

theorem opening_add (before after : Session) (opened : Option ℕ) :
    (after.phase = .added ∧ opening before after .add opened = some after.watched.writers.length) ∨
      opening before after .add opened = opened := by
  by_cases hadded : before.phase = .admitted ∧ after.phase = .added
  · exact .inl ⟨hadded.2, if_pos hadded⟩
  · exact .inr (if_neg hadded)

theorem Inv.add (h : s.Inv c) (hfresh : s.session.watched.hub.Fresh (.write c.adding)) :
    (s.step re c (.step .add)).1.Inv c := by
  rcases add_cases re c s.session with
    hsame | ⟨hphase, hreading, hwatched, hreturned, hok⟩
  · have hopened : opening s.session (s.session.add re c) .add s.opened = s.opened := by
      rw [hsame]
      exact opening_self s.session .add s.opened
    refine h.session ?_ (List.append_nil _) (fun j _ hj => due_of_eq hj hopened rfl) hopened
      fun hr => ?_
    · exact congrArg Session.watched hsame
    · exact (congrArg Session.returned hsame).symm.trans hr
  · refine h.hubStep hfresh (fun n hn => by cases hn) hwatched
      (List.append_nil _) (fun j hlt hj => ?_) fun ho hr => ?_
    · obtain ⟨⟨n, hn, hle⟩, hclosed⟩ := hj
      simp only [step, Session.step] at hn
      rcases opening_add s.session (s.session.add re c) s.opened with ⟨-, heq⟩ | heq
      · rw [heq, hwatched] at hn
        cases hn
        exact absurd hlt (Nat.not_lt.mpr hle)
      · rw [heq] at hn
        exact ⟨⟨n, hn, hle⟩, hclosed⟩
    · have hmanager : (s.step re c (.step .add)).1.session.watched.hub.manager =
          (s.session.watched.hub.manager.apply c.adding).1 := by
        simp only [step, Session.step, hwatched, Hub.step, hreading, Bool.false_eq_true, ite_false]
      rw [hmanager]
      simp only [step, Session.step] at ho
      rcases opening_add s.session (s.session.add re c) s.opened with ⟨hadded, -⟩ | heq
      · obtain ⟨watcher, hok⟩ := hok hadded
        exact Session.lookup_adding hok
      · rw [heq] at ho
        have hold := h.registered ho (hreturned.symm.trans hr)
        have hfresh' : s.session.watched.hub.manager.Fresh c.adding := hfresh
        exact h.hub.consistent.apply_watchers hfresh' hold (fun heq => by cases heq)
          fun range heq => by cases heq

theorem Inv.take (h : s.Inv c) : (s.step re c (.step .take)).1.Inv c := by
  simp only [step, Session.step, Session.take]
  split
  · refine h.hubStep (i := .receive c.id) trivial (fun n hn => by cases hn) rfl (List.append_nil _)
      (fun j _ hj => due_of_eq hj rfl rfl) fun ho hr => ?_
    rcases Hub.watchers_step re h.hub (.receive c.id) with heq | ⟨op, hop, -⟩
    · simp only [Watched.step, heq]
      exact h.registered ho hr
    · cases hop
  · exact h.session rfl (List.append_nil _) (fun j _ hj => due_of_eq hj rfl rfl) rfl fun hr => hr

theorem Inv.finish (h : s.Inv c) : (s.step re c (.step .finish)).1.Inv c := by
  simp only [step, Session.step, Session.finish]
  split_ifs
  · exact h.hubStep (i := .write (.remove c.id)) trivial (fun n hn => by cases hn) rfl
      (List.append_nil _) (fun j _ hj => due_of_eq hj rfl rfl) fun _ hr => by cases hr
  · exact h.session rfl (List.append_nil _) (fun j _ hj => due_of_eq hj rfl rfl) rfl fun hr => hr

theorem Inv.other (h : s.Inv c) {i : WatchedStep} (hkept : Kept c s (.step (.other i)))
    (hnot : Session.owns c i = false) : (s.step re c (.step (.other i))).1.Inv c := by
  have hsession : (s.session.step re c (.other i)).1 =
      { s.session with watched := (Watched.step re s.session.watched i).1 } := by
    simp only [Session.step, hnot, Bool.false_eq_true, ite_false]
  -- a step that starts no call
  have hstarts : ∀ s0 : Session, (s.session.step re c (.other i)).1 = s0 →
      starts s.session.watched s0.watched (.other i) = [] →
      (s.step re c (.step (.other i))).1 = { s with session := s0 } := by
    intro s0 heq hnone
    simp only [step, heq, hnone, List.append_nil]
    rfl
  cases i with
  | enter op =>
    rw [hstarts _ hsession rfl]
    simp only [Watched.step]
    split_ifs
    · simp only [Watched.enter]
      split
      · exact h
      · refine h.writerStep rfl rfl rfl rfl rfl ?_ fun j w' _ hw' => ?_
        · simp only [List.length_append, List.length_singleton]
          omega
        · simp only [List.getElem?_append] at hw'
          split_ifs at hw' with hlt
          · exact .inl ⟨w', hw', rfl, rfl, rfl⟩
          · rw [List.mem_singleton.mp (List.mem_of_getElem? hw')]
            exact .inr ⟨by omega, rfl⟩
    · exact h
  | land j =>
    rw [hstarts _ hsession rfl]
    simp only [Watched.step]
    split
    · exact h
    · next w hw =>
      split_ifs
      · exact h
      · have hlt : j < s.session.watched.writers.length := (List.getElem?_eq_some_iff.mp hw).1
        refine h.writerStep rfl rfl rfl rfl rfl ?_ fun i w' hdue hw' => ?_
        · simp only [Watched.land, List.length_set, le_refl]
        · simp only [Watched.land] at hw'
          by_cases hji : j = i
          · subst hji
            simp only [List.getElem?_set_self hlt, Option.some.injEq] at hw'
            subst hw'
            have hkeeps : (s.session.watched.store.persist (w.op.engineCall w.table)).2 = none ∨
                w.op.logsErrors := by
              rcases hkept hdue w hw with hlogs | hfault
              · exact .inr hlogs
              · exact .inl ((w.op.persist_engineCall_err s.session.watched.store w.table).trans hfault)
            exact .inl ⟨w, hw, rfl, rfl, if_pos hkeeps⟩
          · rw [List.getElem?_set_ne hji] at hw'
            exact .inl ⟨w', hw', rfl, rfl, rfl⟩
  | notify j range =>
    have hidle : (Watched.step re s.session.watched (.notify j range)).1 = s.session.watched →
        (s.step re c (.step (.other (.notify j range)))).1.Inv c := by
      intro heq
      rw [heq] at hsession
      rw [hstarts _ hsession (if_neg (Nat.lt_irrefl _))]
      exact h
    cases hw : s.session.watched.writers[j]? with
    | none => exact hidle (by rw [Watched.step, hw])
    | some w =>
      cases htodo : w.todo with
      | nil => exact hidle (by simp only [Watched.step, hw, htodo])
      | cons e todo =>
        by_cases hready : w.landed ∧ s.session.watched.hub.hasReturned w.call
        · have hstep : (Watched.step re s.session.watched (.notify j range)).1 =
              { s.session.watched with
                hub := (Hub.step re s.session.watched.hub (.notify e range)).1
                writers := s.session.watched.writers.set j
                  { w with todo, call := some s.session.watched.hub.calls.length } } := by
            simp only [Watched.step, hw, htodo, hready, and_self, ite_true]
          have hlonger : s.session.watched.hub.calls.length <
              (Hub.step re s.session.watched.hub (.notify e range)).1.calls.length := by
            simp only [Hub.step, List.length_append, List.length_singleton]
            omega
          have hwatched : (s.step re c (.step (.other (.notify j range)))).1.session.watched =
              { s.session.watched with
                hub := (Hub.step re s.session.watched.hub (.notify e range)).1
                writers := s.session.watched.writers.set j
                  { w with todo, call := some s.session.watched.hub.calls.length } } := by
            simp only [step, hsession, hstep]
          refine h.notify hw htodo (fun hdue hmatch => hkept hdue w e todo hw htodo hmatch) hwatched
            ?_ rfl rfl ?_
          · simp only [step, hsession, hstep, starts, hlonger, ite_true]
          · simp only [step, hsession]
        · refine hidle ?_
          simp only [Watched.step, hw, htodo, hready, ite_false]
  | unlock j =>
    rw [hstarts _ hsession rfl]
    simp only [Watched.step]
    split
    · exact h
    · split_ifs
      · exact h.writerStep rfl rfl rfl rfl rfl (le_refl _) fun _ w' _ hw' => .inl ⟨w', hw', rfl, rfl, rfl⟩
      · exact h
  | hub j =>
    rw [hstarts _ hsession rfl]
    have hkeep : ∀ op, j = .write op → op ≠ .remove c.id := by
      rintro op rfl rfl
      simp [Session.owns] at hnot
    cases j with
    | notify event range => exact h
    | write op =>
      refine h.hubStep (i := .write op) ?_ (fun n hn => by cases hn) rfl rfl
        (fun _ _ hj => due_of_eq hj rfl rfl) fun ho hr => ?_
      · cases op <;> first | exact hkept | exact trivial
      · rcases Hub.watchers_step re h.hub (.write op) with heq | ⟨op', hop, heq⟩
        · simp only [Watched.step, heq]
          exact h.registered ho hr
        · cases hop
          simp only [Watched.step, heq]
          have hfresh : s.session.watched.hub.manager.Fresh op := by
            cases op <;> first | exact hkept | exact trivial
          refine h.hub.consistent.apply_watchers hfresh (h.registered ho hr) (hkeep op rfl) ?_
          rintro range rfl
          rw [hkept] at ho
          cases ho
    | check n =>
      exact h.atManager (i := .check n) trivial (fun _ hn => by cases hn) fun _ hn => by cases hn
    | send n =>
      refine h.atManager (i := .send n) trivial (fun m hm => ?_) fun _ hn => by cases hn
      cases hm
      exact hkept
    | finish n =>
      exact h.atManager (i := .finish n) trivial (fun _ hn => by cases hn) fun _ hn => by cases hn
    | receive id =>
      exact h.atManager (i := .receive id) trivial (fun _ hn => by cases hn) fun _ hn => by cases hn
    | setPolicies policies =>
      exact h.atManager (i := .setPolicies policies) trivial (fun _ hn => by cases hn)
        fun _ hn => by cases hn

theorem Inv.step (h : s.Inv c) {i : StreamStep} (hkept : Kept c s i) : (s.step re c i).1.Inv c := by
  cases i with
  | disconnect =>
    refine h.session rfl rfl (fun j hlt hj => ⟨hj.1, fun n hn => ?_⟩) rfl fun hr => hr
    exact hj.2 n (by simp only [Streaming.step, hn, Option.some_or])
  | step i =>
    cases i with
    | other i =>
      cases hown : Session.owns c i with
      | true =>
        have hsession : (s.session.step re c (.other i)).1 = s.session := by
          simp only [Session.step, hown, ite_true]
        have hmade : starts s.session.watched (s.session.step re c (.other i)).1.watched
            (.other i) = [] := by
          rw [hsession]
          cases i with
          | notify j range => exact if_neg (Nat.lt_irrefl _)
          | enter op => rfl
          | land j => rfl
          | unlock j => rfl
          | hub j => rfl
        refine h.session (congrArg Session.watched hsession) ?_ (fun j _ hj => due_of_eq hj rfl rfl)
          rfl fun hr => ?_
        · simp only [Streaming.step, hmade, List.append_nil]
        · exact (congrArg Session.returned hsession).symm.trans hr
      | false => exact h.other hkept hown
    | authorize => exact h.alone (.inl rfl)
    | add => exact h.add hkept
    | read => exact h.alone (.inr (.inl rfl))
    | write ok => exact h.alone (.inr (.inr (.inl ⟨ok, rfl⟩)))
    | take => exact h.take
    | wake => exact h.alone (.inr (.inr (.inr (.inl rfl))))
    | leave => exact h.alone (.inr (.inr (.inr (.inr rfl))))
    | finish => exact h.finish

/-- In every run whose steps meet `Kept`, each event due to the stream that is
notified is put into the channel of its watcher. -/
theorem delivers_of_kept (re : Regexp) (store : KVStore) (aclEval : Option Evaluator)
    (bufferSize maxPerClient : ℤ) (c : Connection) (steps : List StreamStep)
    (hkept : (machine re c).Along (Kept c) (start store aclEval bufferSize maxPerClient) steps) :
    ((machine re c).run (start store aclEval bufferSize maxPerClient) steps).1.Delivers c := by
  have hinv : ((machine re c).run (start store aclEval bufferSize maxPerClient) steps).1.Inv c := by
    refine (machine re c).invariant (fun s i h hi => ?_)
      (inv_start store aclEval bufferSize maxPerClient) hkept
    exact h.step hi
  exact hinv.delivers

/-- A stream of one key, on a node without access control. -/
def modeStream : Connection where
  endpoint := .sse
  key := str "mode"
  query := []
  claims := some ⟨str "u1", str "ann", [], [], ⟨[], [], none, none, none⟩⟩
  id := str "w1"

def earlyWrite : List SessionStep :=
  [.authorize, .add] ++ Watched.oneWriter.map .other ++ [.finish, .read]

/-- The event is notified before the handler returns. -/
theorem delivers_of_kept_mode :
    ((machine Watched.noRegexp modeStream).run (start .new none 8 0)
      (earlyWrite.map .step)).1.Delivers modeStream := by
  refine delivers_of_kept Watched.noRegexp .new none 8 0 modeStream (earlyWrite.map .step) ?_
  refine ⟨trivial, ?_, trivial, ?_, ?_, trivial, ?_, trivial, trivial, trivial, trivial⟩
  · have hnew : str "w1" ∉ (Manager.new none 8 0).channels := by decide
    exact hnew
  · exact fun _ _ _ => .inr rfl
  · exact fun _ _ _ _ _ _ _ => rfl
  · exact fun _ _ _ _ _ _ => by decide

def lateWrite : List SessionStep :=
  [.authorize, .add, .finish, .read] ++ Watched.oneWriter.map .other

/-- The handler returns, and the stream is open when the key is set: nobody is told. -/
theorem stream_is_not_told :
    ¬ ((machine Watched.noRegexp modeStream).run (start .new none 8 0)
      (lateWrite.map .step)).1.Delivers
        modeStream := by
  intro hdelivers
  have hfor := hdelivers 0 ⟨.set (str "mode") (str "on"), KVStore.new.toKVTable, true, [], some 0⟩
    ⟨⟨0, by decide, Nat.le_refl 0⟩, fun n hn => (nomatch hn)⟩ (by rfl) ⟨rfl, rfl, by decide⟩
  have hcalls : ((machine Watched.noRegexp modeStream).run (start .new none 8 0)
      (lateWrite.map .step)).1.callsOf 0 =
      [0] := by
    decide
  rw [hcalls] at hfor
  cases hfor with
  | cons htold _ =>
    have hnone : ((machine Watched.noRegexp modeStream).run (start .new none 8 0)
        (lateWrite.map .step)
          ).1.session.watched.hub.enqueued = [] := by
      decide
    have hreached := htold (by decide) ?_
    · obtain ⟨d, hd, -⟩ := hreached
      rw [hnone] at hd
      cases hd
    · rintro ⟨call, hcall, v, hv, -⟩
      cases hcall
      cases hv

end Streaming

end Konsul.Watch
