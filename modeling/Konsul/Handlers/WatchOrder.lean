import Konsul.Handlers.KVWatch

/-!
# The values a WebSocket session sends for its key

`WatchWebSocket` reads the initial value after its watcher is registered, so a
change can be both in the value it read and in the channel. Where nothing is
queued or still to be notified when a value is read, the client is sent the
values of the key from some moment on, in the order of their commits.
-/

namespace Konsul

open GoLib

/-- What the key holds after the event. -/
def Event.now (e : Event) : Option GoString :=
  match e.type with
  | .set => some e.value
  | .delete => none

namespace Watch

theorem tells_iff (e : Event) (after : Option KVEntry) :
    Tells e after ↔ after.map KVEntry.value = e.now := by
  rw [Tells, Event.now]
  cases e.type with
  | set => exact Iff.rfl
  | delete => exact Option.map_eq_none_iff.symm

/-- The values a key had, beginning with its entry at the start. -/
def told (base : Option KVEntry) (changes : List Event) : List (Option GoString) :=
  (base.map fun entry => some entry.value).toList ++ changes.map Event.now

theorem told_append (base : Option KVEntry) (l l' : List Event) :
    told base (l ++ l') = told base l ++ l'.map Event.now := by
  rw [told, told, List.map_append, List.append_assoc]

theorem Agrees.last_told {base after : Option KVEntry} {changes : List Event}
    (h : Agrees base changes after) :
    (told base changes).getLast?.join = after.map KVEntry.value := by
  rw [Agrees] at h
  rw [told, List.getLast?_append, List.getLast?_map]
  cases hlast : changes.getLast? with
  | none =>
    rw [hlast] at h
    simp only at h
    rw [h]
    cases base with
    | none => rfl
    | some entry => rfl
  | some e =>
    rw [hlast] at h
    exact ((tells_iff e after).mp h).symm

theorem Agrees.told_some {base : Option KVEntry} {changes : List Event} {entry : KVEntry}
    (h : Agrees base changes (some entry)) :
    ∃ before, told base changes = before ++ [some entry.value] := by
  have hlast := h.last_told
  rw [Option.map_some, Option.join_eq_some_iff] at hlast
  exact List.getLast?_eq_some_iff.mp hlast

/-! ### What a step keeps -/

namespace Hub

/-- Everything the channel of an id accepted, oldest first. -/
def accepted (h : Hub) (id : GoString) : List Event := (h.manager.sentTo id).getD []

theorem received_eq_filter (h : Hub) (id k : GoString) :
    h.received id k = (h.accepted id).filter fun e => e.key = k := rfl

theorem Inv.accepted_eq {h : Hub} (hinv : h.Inv) {id : GoString} (hid : id ∈ h.manager.channels) :
    h.accepted id = (h.enqueued.filter fun d => d.id = id).map Delivery.event := by
  obtain ⟨sent, hsent⟩ := (Manager.mem_channels_iff h.manager id).mp hid
  rw [accepted, hsent, Option.getD_some, hinv.sent id sent hsent]

theorem Following.mem_channels {h : Hub} {id k : GoString} {watcher : Watcher} {n0 : ℕ}
    {skipped : List Event} (hf : h.Following id k watcher n0 skipped) (hinv : h.Inv) :
    id ∈ h.manager.channels := by
  obtain ⟨events, hevents, -⟩ := hinv.consistent.opened id watcher hf.registered
  exact Finmap.mem_iff.mpr ⟨events, hevents⟩

end Hub

namespace Watched

variable {re : Regexp} {s : Watched}

theorem hub_step (re : Regexp) (s : Watched) (i : WatchedStep) :
    (step re s i).1.hub = s.hub ∨ ∃ j, (step re s i).1.hub = (Hub.step re s.hub j).1 := by
  cases i with
  | enter op =>
    simp only [step]
    split_ifs
    · rw [enter]
      split <;> exact .inl rfl
    · exact .inl rfl
  | land i =>
    rw [step]
    split
    · exact .inl rfl
    · split_ifs <;> exact .inl rfl
  | notify i range =>
    rw [step]
    split
    · exact .inl rfl
    · split
      · exact .inl rfl
      · split_ifs
        · exact .inr ⟨_, rfl⟩
        · exact .inl rfl
  | unlock i =>
    rw [step]
    split
    · exact .inl rfl
    · split_ifs <;> exact .inl rfl
  | hub j =>
    cases j with
    | notify event range => exact .inl rfl
    | write op => exact .inr ⟨_, rfl⟩
    | check n => exact .inr ⟨_, rfl⟩
    | send n => exact .inr ⟨_, rfl⟩
    | finish n => exact .inr ⟨_, rfl⟩
    | receive id => exact .inr ⟨_, rfl⟩
    | setPolicies policies => exact .inr ⟨_, rfl⟩

theorem Inv.extends_step (hinv : s.Inv) (re : Regexp) (i : WatchedStep) :
    Hub.Extends s.hub (Watched.step re s i).1.hub := by
  rcases hub_step re s i with heq | ⟨j, heq⟩
  · rw [heq]
    exact Hub.Extends.refl s.hub
  · rw [heq]
    exact hinv.hub.extends_step j

theorem Inv.accepted_prefix (hinv : s.Inv) {i : WatchedStep} (hnext : (Watched.step re s i).1.Inv)
    {id : GoString} (hid : id ∈ s.hub.manager.channels)
    (hid' : id ∈ (Watched.step re s i).1.hub.manager.channels) :
    s.hub.accepted id <+: (Watched.step re s i).1.hub.accepted id := by
  obtain ⟨⟨later, heq, -⟩, -⟩ := hinv.extends_step re i
  rw [hinv.hub.accepted_eq hid, hnext.hub.accepted_eq hid', heq, List.filter_append,
    List.map_append]
  exact List.prefix_append _ _

/-- No change of the key that is committed is queued for the watcher or still to be
notified. -/
def Idle (id k : GoString) (s : Watched) : Prop :=
  (∀ w ∈ s.writers, ∀ e ∈ w.todo, e.key ≠ k) ∧
    (∀ call ∈ s.hub.calls, call.event.key = k → call.returned) ∧ s.hub.received id k = []

theorem Inv.commits_of_idle (hinv : s.Inv) {id k : GoString} {watcher : Watcher} {n0 : ℕ}
    {skipped : List Event} (hf : s.hub.Following id k watcher n0 skipped) (hidle : s.Idle id k) :
    s.commits k = skipped := by
  obtain ⟨htodo, hreturned, hnone⟩ := hidle
  have hqueue : (s.writers.flatMap fun w => w.todo.filter fun e => e.key = k) = [] := by
    refine List.flatMap_eq_nil_iff.mpr fun w hw => List.filter_eq_nil_iff.mpr fun e he => ?_
    simpa using htodo w hw e he
  have hgot : s.hub.got id k = [] := by
    rw [← hinv.hub.received_eq (hf.mem_channels hinv.hub)]
    exact hnone
  rw [hinv.queue k, hqueue, List.append_nil]
  rcases hf.flow with ⟨heq, -⟩ | ⟨n, call, -, hcall, hk, hrunning, -⟩
  · rw [heq, hgot, List.append_nil]
  · rw [hreturned call (List.mem_of_getElem? hcall) hk] at hrunning
    cases hrunning

end Watched

/-! ### The session -/

namespace Session

/-- The values the client was sent for a key. -/
def values (s : Session) (k : GoString) : List (Option GoString) :=
  (s.sent.filter fun e => e.key = k).map Event.now

/-- The values committed for a key, beginning with what was stored at the start. -/
def history (base : Option KVEntry) (s : Session) (k : GoString) : List (Option GoString) :=
  told base (s.watched.commits k)

/-- All writers and notifications are done, and the loop waits with an empty channel. -/
structure Settled (c : Connection) (s : Session) : Prop where
  quiet : s.watched.Quiet
  phase : s.phase = .looping ∨ s.phase = .receiving
  drained : s.taken = (s.watched.hub.accepted c.id).length

/-- The client is sent committed values in the order of the commits, and once
everything is settled it knows what is stored. -/
structure Coherent (base : Option KVEntry) (c : Connection) (s : Session) : Prop where
  ordered : s.values c.pattern <:+: s.history base c.pattern
  last : s.Settled c → (s.values c.pattern).getLast?.join = s.watched.store.get c.pattern

/-- The watcher is registered and the session still reads. -/
def Attached : Phase → Prop
  | .added | .writing .. | .looping | .receiving => True
  | .connecting | .admitted | .refused _ | .ended => False

/-- Ids are new, notifications keep the order of the commits, the watcher may read
the key and has room, and an initial value is read when nothing is on its way. -/
def Steady (re : Regexp) (c : Connection) (s : Session) : SessionStep → Prop
  | .other i => s.watched.Fresh i ∧ s.watched.InOrder i ∧
      (Attached s.phase → Watched.Listens re c.id c.pattern s.watched i)
  | .add => s.watched.hub.Fresh (.write c.adding)
  | .read => (s.watched.store.get c.pattern).isSome → s.watched.Idle c.id c.pattern
  | _ => True

/-- A session past its initial read, with `hand` on the way to the client: what it
was sent begins with the value it read, if there was one, and goes on with what
its channel accepted. `skipped` is what was notified before it was added. -/
structure Passing (base : Option KVEntry) (c : Connection) (hand : List Event) (n0 : ℕ)
    (skipped initial : List Event) (s : Session) : Prop where
  follows : s.watched.hub.Following c.id c.pattern c.watcher n0 skipped
  snapshot : ∃ before, told base skipped = before ++ initial.map Event.now
  absent : initial = [] → ∃ seen, skipped <+: seen ∧ seen <+: s.watched.commits c.pattern ∧
    Agrees base seen none
  keys : ∀ e ∈ initial, e.key = c.pattern
  sent : s.sent ++ hand = initial ++ (s.watched.hub.accepted c.id).take s.taken
  taken : s.taken ≤ (s.watched.hub.accepted c.id).length

/-- What each phase knows of the values sent. -/
def Linked (base : Option KVEntry) (c : Connection) (s : Session) : Phase → Prop
  | .connecting | .admitted => s.sent = [] ∧ s.taken = 0
  | .added => s.sent = [] ∧ s.taken = 0 ∧
      ∃ n0 skipped, s.watched.hub.Following c.id c.pattern c.watcher n0 skipped
  | .writing event _ => ∃ n0 skipped initial, s.Passing base c [event] n0 skipped initial
  | .looping | .receiving => ∃ n0 skipped initial, s.Passing base c [] n0 skipped initial
  | .refused _ | .ended => s.values c.pattern <:+: s.history base c.pattern

structure Inv (base : Option KVEntry) (c : Connection) (s : Session) : Prop where
  watched : s.watched.Inv
  goes : s.watched.GoesWith base c.pattern
  linked : s.Linked base c s.phase

variable {re : Regexp} {base : Option KVEntry} {c : Connection} {s : Session} {hand : List Event}
  {n0 : ℕ} {skipped initial : List Event}

/-! ### What a passing session has sent -/

theorem Passing.filter_sent (h : s.Passing base c hand n0 skipped initial) (l : List Event) :
    ((initial ++ l).filter fun e => e.key = c.pattern) =
      initial ++ l.filter fun e => e.key = c.pattern := by
  have hinitial : (initial.filter fun e => e.key = c.pattern) = initial :=
    List.filter_eq_self.mpr fun e he => decide_eq_true (h.keys e he)
  rw [List.filter_append, hinitial]

theorem Passing.ordered (h : s.Passing base c hand n0 skipped initial) (hinv : s.watched.Inv) :
    s.values c.pattern <:+: s.history base c.pattern := by
  obtain ⟨⟨rest, hcommits⟩, -⟩ := hinv.received h.follows
  obtain ⟨before, hbefore⟩ := h.snapshot
  have hhistory : s.history base c.pattern = before ++
      (initial ++ s.watched.hub.received c.id c.pattern).map Event.now ++ rest.map Event.now := by
    simp only [history, hcommits, told_append, hbefore, List.map_append, List.append_assoc]
  have hsent : s.sent <+: initial ++ s.watched.hub.accepted c.id := by
    have htaken := List.take_prefix s.taken (s.watched.hub.accepted c.id)
    calc s.sent <+: s.sent ++ hand := List.prefix_append ..
      _ = initial ++ (s.watched.hub.accepted c.id).take s.taken := h.sent
      _ <+: initial ++ s.watched.hub.accepted c.id := (List.prefix_append_right_inj initial).mpr htaken
  have hvalues := (hsent.filter fun e => e.key = c.pattern).map Event.now
  rw [h.filter_sent, ← Hub.received_eq_filter] at hvalues
  obtain ⟨tail, htail⟩ := hvalues
  refine ⟨before, tail ++ rest.map Event.now, ?_⟩
  rw [hhistory, ← htail, values]
  simp only [List.append_assoc]

theorem Passing.last (h : s.Passing base c [] n0 skipped initial) (hinv : s.watched.Inv)
    (hgoes : s.watched.GoesWith base c.pattern) (hsettled : s.Settled c) :
    (s.values c.pattern).getLast?.join = s.watched.store.get c.pattern := by
  obtain ⟨before, hbefore⟩ := h.snapshot
  have hcommits := (hinv.received h.follows).2 hsettled.quiet
  have hvalues : s.values c.pattern =
      (initial ++ s.watched.hub.received c.id c.pattern).map Event.now := by
    have hsent := h.sent
    rw [List.append_nil, hsettled.drained, List.take_length] at hsent
    rw [values, hsent, h.filter_sent, ← Hub.received_eq_filter]
  have hlast := Agrees.last_told hgoes
  rw [hvalues]
  cases hend : ((initial ++ s.watched.hub.received c.id c.pattern).map Event.now).getLast? with
  | some value =>
    rw [hcommits, told_append, hbefore, List.append_assoc, ← List.map_append,
      List.getLast?_append, hend] at hlast
    exact hlast
  | none =>
    -- nothing was read and nothing has changed since
    have hnil := List.map_eq_nil_iff.mp (List.getLast?_eq_none_iff.mp hend)
    obtain ⟨hinitial, hreceived⟩ := List.append_eq_nil_iff.mp hnil
    rw [hreceived, List.append_nil] at hcommits
    obtain ⟨seen, hle, hge, hnone⟩ := h.absent hinitial
    have hseen : seen = s.watched.commits c.pattern := by
      rw [← hcommits] at hle
      exact hge.eq_of_length_le hle.length_le
    rw [hseen] at hnone
    rw [hnone.last_told] at hlast
    exact hlast

/-! ### One step -/

theorem history_grows (s : Session) (i : WatchedStep) :
    s.history base c.pattern <+:
      ({ s with watched := (Watched.step re s.watched i).1 } : Session).history base c.pattern := by
  obtain ⟨changes, hcommits, -⟩ := Watched.commits_step re s.watched i c.pattern
  rw [history, history, hcommits, told_append]
  exact List.prefix_append _ _

theorem Passing.watchedStep (h : s.Passing base c hand n0 skipped initial) (hinv : s.watched.Inv)
    {i : WatchedStep} (hfresh : s.watched.Fresh i) (horder : s.watched.InOrder i)
    (hlistens : Watched.Listens re c.id c.pattern s.watched i) :
    ({ s with watched := (Watched.step re s.watched i).1 } : Session).Passing base c hand n0
      skipped initial := by
  have hfollows := Watched.following_step h.follows hinv hfresh horder hlistens
  have hnext : (Watched.step re s.watched i).1.Inv := hinv.step hfresh horder
  obtain ⟨later, hlater⟩ := hinv.accepted_prefix hnext (h.follows.mem_channels hinv.hub)
    (hfollows.mem_channels hnext.hub)
  obtain ⟨changes, hcommits, -⟩ := Watched.commits_step re s.watched i c.pattern
  refine ⟨hfollows, h.snapshot, fun hnone => ?_, h.keys, ?_, ?_⟩
  · obtain ⟨seen, hle, hge, habsent⟩ := h.absent hnone
    refine ⟨seen, hle, ?_, habsent⟩
    rw [hcommits]
    exact hge.trans (List.prefix_append _ _)
  · rw [← hlater, List.take_append_of_le_length h.taken]
    exact h.sent
  · rw [← hlater, List.length_append]
    exact le_trans h.taken (Nat.le_add_right _ _)

theorem Linked.watchedStep {phase : Phase} (h : s.Linked base c phase) (hinv : s.watched.Inv)
    {i : WatchedStep} (hfresh : s.watched.Fresh i) (horder : s.watched.InOrder i)
    (hlistens : Attached phase → Watched.Listens re c.id c.pattern s.watched i) :
    ({ s with watched := (Watched.step re s.watched i).1 } : Session).Linked base c phase := by
  cases phase with
  | connecting => exact h
  | admitted => exact h
  | refused reply => exact h.trans (history_grows s i).isInfix
  | ended => exact h.trans (history_grows s i).isInfix
  | added =>
    obtain ⟨hsent, htaken, n0, skipped, hf⟩ := h
    exact ⟨hsent, htaken, n0, skipped,
      Watched.following_step hf hinv hfresh horder (hlistens trivial)⟩
  | writing event initial =>
    obtain ⟨n0, skipped, initial, hp⟩ := h
    exact ⟨n0, skipped, initial, hp.watchedStep hinv hfresh horder (hlistens trivial)⟩
  | looping =>
    obtain ⟨n0, skipped, initial, hp⟩ := h
    exact ⟨n0, skipped, initial, hp.watchedStep hinv hfresh horder (hlistens trivial)⟩
  | receiving =>
    obtain ⟨n0, skipped, initial, hp⟩ := h
    exact ⟨n0, skipped, initial, hp.watchedStep hinv hfresh horder (hlistens trivial)⟩

theorem Inv.watchedStep (h : s.Inv base c) {i : WatchedStep} (hfresh : s.watched.Fresh i)
    (horder : s.watched.InOrder i)
    (hlistens : Attached s.phase → Watched.Listens re c.id c.pattern s.watched i) :
    ({ s with watched := (Watched.step re s.watched i).1 } : Session).Inv base c :=
  ⟨h.watched.step hfresh horder, h.goes.step i,
    h.linked.watchedStep h.watched hfresh horder hlistens⟩

/-- Rule for a session that moves on by itself. -/
theorem Inv.setPhase (h : s.Inv base c) {s' : Session} (hwatched : s'.watched = s.watched)
    (hlinked : s'.Linked base c s'.phase) : s'.Inv base c :=
  ⟨hwatched ▸ h.watched, hwatched ▸ h.goes, hlinked⟩

theorem lookup_adding {wm : Manager} {watcher : Watcher}
    (h : (wm.addWatcher c.id c.pattern c.policies c.endpoint.transport c.userID).2 = .ok watcher) :
    (wm.apply c.adding).1.watchers.lookup c.id = some c.watcher := by
  rcases Manager.addWatcher_cases wm c.id c.pattern c.policies c.endpoint.transport c.userID with
    ⟨e, -, heq⟩ | ⟨events, -, -, heq⟩
  · rw [heq] at h
    cases h
  · rw [Connection.adding, Manager.apply, heq]
    simp only [Manager.watchers_addClient, Manager.watchers_addPattern, Finmap.lookup_insert]
    rfl

theorem infix_of_sent_nil (h : s.sent = []) (l : List (Option GoString)) :
    s.values c.pattern <:+: l := by
  rw [values, h]
  exact List.nil_infix

theorem Inv.add (h : s.Inv base c) (hfresh : s.watched.hub.Fresh (.write c.adding)) :
    (s.add re c).Inv base c := by
  rw [Session.add]
  have hlinked := h.linked
  cases hphase : s.phase with
  | admitted =>
    simp only
    split_ifs with hreading
    · exact h
    have hinv : (Watched.step re s.watched (.hub (.write c.adding))).1.Inv :=
      h.watched.step hfresh trivial
    refine ⟨hinv, h.goes.step _, ?_⟩
    rw [hphase] at hlinked
    obtain ⟨hsent, htaken⟩ := hlinked
    simp only
    split
    · next watcher hadded =>
      have hlookup : (Hub.step re s.watched.hub (.write c.adding)).1.manager.watchers.lookup c.id =
          some c.watcher := by
        rw [Hub.step, if_neg hreading]
        exact lookup_adding hadded
      have hmatch : matchesPattern c.pattern c.watcher.pattern := by
        rw [matchesPattern, if_pos]
        rfl
      exact ⟨hsent, htaken, _, _, Hub.following_add h.watched.hub hfresh hlookup hmatch⟩
    · exact infix_of_sent_nil hsent _
    · exact infix_of_sent_nil hsent _
  | connecting => exact h
  | refused reply => exact h
  | added => exact h
  | writing event initial => exact h
  | looping => exact h
  | receiving => exact h
  | ended => exact h

/-- The initial read: a value is the last one committed, and if there is none the
changes before the watcher came have left none. -/
theorem Inv.read (h : s.Inv base c) (hkey : containsWildcard c.pattern = false)
    (hidle : (s.watched.store.get c.pattern).isSome → s.watched.Idle c.id c.pattern) :
    (s.read c).Inv base c := by
  rw [Session.read]
  have hlinked := h.linked
  cases hphase : s.phase with
  | added =>
    rw [hphase] at hlinked
    obtain ⟨hsent, htaken, n0, skipped, hf⟩ := hlinked
    have hgoes := h.goes
    rw [Watched.GoesWith] at hgoes
    simp only [hkey, Bool.false_eq_true, ite_false]
    split_ifs
    · split
      · next value hget =>
        refine h.setPhase rfl ?_
        have hcommits := h.watched.commits_of_idle hf (hidle (by rw [hget]; rfl))
        obtain ⟨entry, hentry, rfl⟩ := Option.map_eq_some_iff.mp hget
        rw [hentry, hcommits] at hgoes
        obtain ⟨before, hbefore⟩ := hgoes.told_some
        refine ⟨n0, skipped, [⟨.set, c.pattern, entry.value, []⟩], hf, ⟨before, hbefore⟩, ?_, ?_, ?_, ?_⟩
        · intro hnil
          cases hnil
        · intro e he
          rw [List.mem_singleton.mp he]
        · simp only [hsent, htaken, List.take_zero, List.append_nil, List.nil_append]
        · simp only [htaken, Nat.zero_le]
      · next hget =>
        refine h.setPhase rfl ?_
        rw [Option.map_eq_none_iff.mp hget] at hgoes
        obtain ⟨⟨rest, hcommits⟩, -⟩ := h.watched.received hf
        have hprefix : skipped <+: s.watched.commits c.pattern := by
          rw [hcommits, List.append_assoc]
          exact List.prefix_append _ _
        refine ⟨n0, skipped, [], hf, ⟨told base skipped, ?_⟩, fun _ => ?_, ?_, ?_, ?_⟩
        · rw [List.map_nil, List.append_nil]
        · exact ⟨_, hprefix, List.prefix_refl _, hgoes⟩
        · intro e he
          cases he
        · simp only [hsent, htaken, List.take_zero, List.append_nil]
        · simp only [htaken, Nat.zero_le]
    · exact h
    · exact h
  | connecting => exact h
  | admitted => exact h
  | refused reply => exact h
  | writing event initial => exact h
  | looping => exact h
  | receiving => exact h
  | ended => exact h

theorem Inv.write (h : s.Inv base c) (hsocket : c.endpoint = .webSocket) (ok : Bool) :
    (s.write c ok).Inv base c := by
  rw [Session.write]
  have hlinked := h.linked
  cases hphase : s.phase with
  | writing event initial =>
    rw [hphase] at hlinked
    obtain ⟨n0, skipped, initial, hp⟩ := hlinked
    simp only [hsocket, reduceCtorEq, and_false, ite_false]
    split_ifs
    · refine h.setPhase rfl ⟨n0, skipped, initial, hp.follows, hp.snapshot, hp.absent, hp.keys, ?_,
        hp.taken⟩
      rw [List.append_nil]
      exact hp.sent
    · exact h.setPhase rfl (hp.ordered h.watched)
  | connecting => exact h
  | admitted => exact h
  | refused reply => exact h
  | added => exact h
  | looping => exact h
  | receiving => exact h
  | ended => exact h

theorem Inv.take (h : s.Inv base c) : (s.take re c).Inv base c := by
  rw [Session.take]
  cases hphase : s.phase with
  | looping =>
    have hnext : ({ s with
        watched := (Watched.step re s.watched (.hub (.receive c.id))).1 } : Session).Inv base c :=
      h.watchedStep trivial trivial fun _ => trivial
    have hlinked := hnext.linked
    simp only [hphase] at hlinked
    obtain ⟨n0, skipped, initial, hp⟩ := hlinked
    exact ⟨hnext.watched, hnext.goes,
      ⟨n0, skipped, initial, hp.follows, hp.snapshot, hp.absent, hp.keys, hp.sent, hp.taken⟩⟩
  | connecting => exact h
  | admitted => exact h
  | refused reply => exact h
  | added => exact h
  | writing event initial => exact h
  | receiving => exact h
  | ended => exact h

theorem Inv.wake (h : s.Inv base c) : (s.wake c).Inv base c := by
  rw [Session.wake]
  have hlinked := h.linked
  split
  · next events hphase hevents =>
    rw [hphase] at hlinked
    obtain ⟨n0, skipped, initial, hp⟩ := hlinked
    have haccepted : s.watched.hub.accepted c.id = events.received ++ events.buffer := by
      rw [Hub.accepted, Manager.sentTo, hevents]
      rfl
    split
    · next event hevent =>
      have hlt : s.taken < events.received.length := (List.getElem?_eq_some_iff.mp hevent).1
      refine h.setPhase rfl ⟨n0, skipped, initial, hp.follows, hp.snapshot, hp.absent, hp.keys, ?_, ?_⟩
      · have hsent := hp.sent
        have hget : (s.watched.hub.accepted c.id)[s.taken]? = some event := by
          rw [haccepted, List.getElem?_append_left hlt]
          exact hevent
        rw [List.append_nil] at hsent
        simp only [hsent, List.take_add_one, hget, Option.toList_some, List.append_assoc]
      · simp only [haccepted, List.length_append]
        omega
    · split_ifs
      · exact h.setPhase rfl (hp.ordered h.watched)
      · exact h
  · exact h

theorem Inv.leave (h : s.Inv base c) : s.leave.Inv base c := by
  rw [Session.leave]
  have hlinked := h.linked
  split
  · next hphase =>
    rw [hphase] at hlinked
    obtain ⟨n0, skipped, initial, hp⟩ := hlinked
    exact h.setPhase rfl (hp.ordered h.watched)
  · next hphase =>
    rw [hphase] at hlinked
    obtain ⟨n0, skipped, initial, hp⟩ := hlinked
    exact h.setPhase rfl (hp.ordered h.watched)
  · exact h

theorem Inv.finish (h : s.Inv base c) (hsocket : c.endpoint = .webSocket) :
    (s.finish re c).Inv base c := by
  rw [Session.finish]
  split_ifs with hready
  · have hover : s.phase = .ended := by
      have := hready.1
      rw [mayReturn, hsocket] at this
      exact this
    have hnext : ({ s with watched :=
        (Watched.step re s.watched (.hub (.write (.remove c.id)))).1 } : Session).Inv base c := by
      refine h.watchedStep trivial trivial fun hattached => ?_
      rw [hover] at hattached
      exact hattached.elim
    refine ⟨hnext.watched, hnext.goes, ?_⟩
    have hlinked := hnext.linked
    simp only [hover] at hlinked ⊢
    exact hlinked
  · exact h

theorem Inv.step (h : s.Inv base c) (hsocket : c.endpoint = .webSocket)
    (hkey : containsWildcard c.pattern = false) {i : SessionStep} (hsteady : Steady re c s i) :
    (step re c s i).1.Inv base c := by
  cases i with
  | other i =>
    simp only [Session.step]
    split_ifs
    · exact h
    · exact h.watchedStep hsteady.1 hsteady.2.1 hsteady.2.2
  | authorize =>
    simp only [Session.step, authorize]
    have hlinked := h.linked
    split
    · next hphase =>
      rw [hphase] at hlinked
      split
      · exact h.setPhase rfl (infix_of_sent_nil hlinked.1 _)
      · exact h.setPhase rfl hlinked
    · exact h
  | add => exact h.add hsteady
  | read => exact h.read hkey hsteady
  | write ok => exact h.write hsocket ok
  | take => exact h.take
  | wake => exact h.wake
  | leave => exact h.leave
  | finish => exact h.finish hsocket

/-! ### Whole sessions -/

theorem inv_start (store : KVStore) (aclEval : Option Evaluator) (bufferSize maxPerClient : ℤ) :
    (start store aclEval bufferSize maxPerClient).Inv (store.data.lookup c.pattern) c :=
  ⟨Watched.inv_start store aclEval bufferSize maxPerClient, rfl, rfl, rfl⟩

theorem Inv.coherent (h : s.Inv base c) : s.Coherent base c := by
  have hlinked := h.linked
  constructor
  · cases hphase : s.phase with
    | connecting =>
      rw [hphase] at hlinked
      exact infix_of_sent_nil hlinked.1 _
    | admitted =>
      rw [hphase] at hlinked
      exact infix_of_sent_nil hlinked.1 _
    | added =>
      rw [hphase] at hlinked
      exact infix_of_sent_nil hlinked.1 _
    | refused reply =>
      rw [hphase] at hlinked
      exact hlinked
    | ended =>
      rw [hphase] at hlinked
      exact hlinked
    | writing event initial =>
      rw [hphase] at hlinked
      obtain ⟨n0, skipped, initial, hp⟩ := hlinked
      exact hp.ordered h.watched
    | looping =>
      rw [hphase] at hlinked
      obtain ⟨n0, skipped, initial, hp⟩ := hlinked
      exact hp.ordered h.watched
    | receiving =>
      rw [hphase] at hlinked
      obtain ⟨n0, skipped, initial, hp⟩ := hlinked
      exact hp.ordered h.watched
  · intro hsettled
    rcases hsettled.phase with hphase | hphase
    · rw [hphase] at hlinked
      obtain ⟨n0, skipped, initial, hp⟩ := hlinked
      exact hp.last h.watched h.goes hsettled
    · rw [hphase] at hlinked
      obtain ⟨n0, skipped, initial, hp⟩ := hlinked
      exact hp.last h.watched h.goes hsettled

/-- In every run whose steps are steady, a WebSocket session for one key sends a
stretch of the committed values in the order of the commits, ending with what is
stored once everything is settled. -/
theorem coherent_of_steady (re : Regexp) (store : KVStore) (aclEval : Option Evaluator)
    (bufferSize maxPerClient : ℤ) (c : Connection) (hsocket : c.endpoint = .webSocket)
    (hkey : containsWildcard c.pattern = false) (steps : List SessionStep)
    (hsteady : (machine re c).Along (Steady re c) (start store aclEval bufferSize maxPerClient)
      steps) :
    ((machine re c).run (start store aclEval bufferSize maxPerClient) steps).1.Coherent
      (store.data.lookup c.pattern) c := by
  have hinv : ((machine re c).run (start store aclEval bufferSize maxPerClient) steps).1.Inv
      (store.data.lookup c.pattern) c := by
    refine (machine re c).invariant (fun s i h hi => ?_)
      (inv_start store aclEval bufferSize maxPerClient) hsteady
    exact h.step hsocket hkey hi
  exact hinv.coherent

/-- A client of one key, on a node without access control. -/
def modeConnection : Connection := ⟨.webSocket, str "mode", [], none, str "w1"⟩

/-- The client connects, and one write is notified to it. -/
def modeSession : List SessionStep :=
  [.authorize, .add, .read] ++ Watched.oneWriter.map .other ++ [.take, .wake, .write true]

theorem coherent_of_steady_mode :
    ((machine Watched.noRegexp modeConnection).run (start .new none 8 0) modeSession).1.Coherent
      none modeConnection := by
  refine coherent_of_steady Watched.noRegexp .new none 8 0 modeConnection (by decide) (by decide)
    modeSession ?_
  refine ⟨trivial, ?_, ?_, ⟨trivial, trivial, fun _ => trivial⟩,
    ⟨trivial, ?_, fun _ => trivial⟩, ⟨trivial, ?_, fun _ => trivial⟩,
    ⟨trivial, trivial, fun _ => ?_⟩, ⟨trivial, trivial, fun _ => ?_⟩,
    ⟨trivial, trivial, fun _ => trivial⟩, trivial, trivial, trivial, trivial⟩
  · have hnew : str "w1" ∉ (Manager.new none 8 0).channels := by decide
    exact hnew
  · exact fun hsome => absurd hsome (by decide)
  · exact fun _ _ => .inr rfl
  · exact fun _ _ _ _ _ j _ hj => absurd hj (Nat.not_lt_zero j)
  · exact fun _ _ _ _ _ _ _ => rfl
  · exact fun _ _ _ _ => by decide

/-- Both writes are notified in order before the initial value is read. -/
def lateRead : List SessionStep :=
  let writes : List WatchedStep := Watched.twoWriters ++ [.notify 0 GoMap.sorted] ++
    Watched.deliver 0 ++ [.notify 1 GoMap.sorted] ++ Watched.deliver 1
  [.authorize, .add] ++ writes.map .other ++ [.read, .write true, .take, .wake, .write true]

/-- The client is sent `off`, and then the `on` that was waiting in the channel. -/
theorem older_value_follows :
    let s := ((machine Watched.noRegexp modeConnection).run (start .new none 8 0) lateRead).1
    s.values (str "mode") = [some (str "off"), some (str "on")] ∧
      ¬ (s.values (str "mode")).Sublist (s.history none (str "mode")) := by
  have hvalues : ((machine Watched.noRegexp modeConnection).run (start .new none 8 0)
      lateRead).1.values (str "mode") = [some (str "off"), some (str "on")] := by
    decide
  have hhistory : ((machine Watched.noRegexp modeConnection).run (start .new none 8 0)
      lateRead).1.history none (str "mode") = [some (str "on"), some (str "off")] := by
    decide
  intro s
  refine ⟨hvalues, ?_⟩
  rw [hvalues, hhistory]
  decide

end Session

end Watch

end Konsul
