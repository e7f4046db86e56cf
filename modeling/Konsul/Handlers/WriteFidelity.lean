import Konsul.Handlers.Committed
import Konsul.Raft.Effects

/-!
# What a write reports

An error of the state machine is an answer, not an error, of `ApplyEntry`, and
every write drops the answer. A write reports success whenever its command is
committed and the leader check has left the status alone.
-/

namespace Konsul

open GoLib

/-! ### Requests -/

/-- A write through a method of the node or through an endpoint. -/
inductive WriteRequest where
  | nodeKVSet (key value : GoString)
  | nodeKVSetWithFlags (key value : GoString) (flags : UInt64)
  | nodeKVDelete (key : GoString)
  | nodeKVBatchSet (items : GoMap GoString GoString)
  | nodeKVBatchDelete (keys : List GoString)
  | nodeServiceRegister (name address : GoString) (port : ℤ) (tags : List GoString)
      (metadata : GoMap GoString GoString)
  | nodeServiceDeregister (name : GoString)
  | nodeServiceHeartbeat (name : GoString)
  | kvSet (key value : GoString) (flags : UInt64)
  | kvDelete (key : GoString)
  | register (service : Service)
  | deregister (name : GoString)
  | heartbeat (name : GoString)
  | updateTTLCheck (checkID : GoString)
  | batchKVSet (items : GoMap GoString GoString)
  | batchKVDelete (keys : List GoString)
  | batchServiceRegister (services : List Service)
  | batchServiceDeregister (names : List GoString)

/-- What a method returns, or an endpoint replies. -/
inductive WriteReply where
  | method (err : Option GoError)
  | http (r : Response)

namespace WriteRequest

def handler : WriteRequest → Handler WriteReply
  | nodeKVSet key value => .method <$> Node.kvSet key value
  | nodeKVSetWithFlags key value flags => .method <$> Node.kvSetWithFlags key value flags
  | nodeKVDelete key => .method <$> Node.kvDelete key
  | nodeKVBatchSet items => .method <$> Node.kvBatchSet items
  | nodeKVBatchDelete keys => .method <$> Node.kvBatchDelete keys
  | nodeServiceRegister name address port tags metadata =>
    .method <$> Node.serviceRegister name address port tags metadata
  | nodeServiceDeregister name => .method <$> Node.serviceDeregister name
  | nodeServiceHeartbeat name => .method <$> Node.serviceHeartbeat name
  | kvSet key value flags => .http <$> KVHandler.set true key (some ⟨value, none, flags⟩)
  | kvDelete key => .http <$> KVHandler.delete true key .absent
  | register service => .http <$> ServiceHandler.register true (some ⟨service, none⟩)
  | deregister name => .http <$> ServiceHandler.deregister true name .absent
  | heartbeat name => .http <$> ServiceHandler.heartbeat true name
  | updateTTLCheck checkID => .http <$> HealthCheckHandler.updateTTLCheck true checkID
  | batchKVSet items => .http <$> BatchHandler.batchKVSet true (some items)
  | batchKVDelete keys => .http <$> BatchHandler.batchKVDelete true (some keys)
  | batchServiceRegister services =>
    .http <$> BatchHandler.batchServiceRegister true (some services)
  | batchServiceDeregister names => .http <$> BatchHandler.batchServiceDeregister true (some names)

/-- The reply reports success for a command of the request: a batch of services by
listing the name, an endpoint by its status. -/
def Reports (req : WriteRequest) (reply : WriteReply) (c : Command) : Prop :=
  match req, reply, c with
  | batchServiceRegister _, .http r, .service (.register s) =>
    BatchHandler.Lists r "registered" s.name
  | batchServiceDeregister _, .http r, .service (.deregister name) =>
    BatchHandler.Lists r "deregistered" name
  | _, .http r, _ => r.status = 200
  | _, .method err, _ => err = none

/-- What the request asks for where it proposes a command: `Register` proposes the
service without its health checks. -/
def asks (req : WriteRequest) (c : Command) : Command :=
  match req with
  | register service => .service (.register service)
  | _ => c

/-- The reply says of every command it commits whether the state machine had no
error, and whether the effect asked for is there. -/
def Faithful (L : Surroundings) (f : FSM) (req : WriteRequest) : Prop :=
  ∀ e ∈ (req.handler.run (exec L) (.start f)).1.commits,
    (req.Reports (req.handler.run (exec L) (.start f)).2 e.command ↔ e.answer = .err none) ∧
      (req.Reports (req.handler.run (exec L) (.start f)).2 e.command ↔
        (req.asks e.command).Effect e.now e.after)

/-- The leader check, where there is one, sees the leader. -/
def SeesLeader (L : Surroundings) : WriteRequest → Prop
  | kvSet _ _ _ => L.isLeader
  | kvDelete _ => L.isLeader
  | register _ => L.isLeader
  | deregister _ => L.isLeader
  | heartbeat _ => L.isLeader
  | _ => True

/-- A command the request reports right, in the state before it: one the state machine
accepts and that achieves what was asked for, unless the leader check hides success. -/
def Right (L : Surroundings) (req : WriteRequest) (e : Commit) : Prop :=
  (req.SeesLeader L ↔ (req.asks e.command).Accepted e.before) ∧
    (req.SeesLeader L ↔ (req.asks e.command).Achieved e.now e.before)

/-! ### Commands of a request -/

/-- What a handler does with a command it proposes. -/
structure Serves (L : Surroundings) (req : WriteRequest) (reply : WriteReply) (e : Commit) :
    Prop where
  write : (req.asks e.command).Write
  applied : ∃ ch, e.before.apply e.now (req.asks e.command).json ch = (e.after, e.answer)
  reports : req.Reports reply e.command ↔ req.SeesLeader L

variable {L : Surroundings} {f : FSM} {req : WriteRequest}

theorem Serves.right_iff {reply : WriteReply} {e : Commit} (h : Serves L req reply e) :
    ((req.Reports reply e.command ↔ e.answer = .err none) ∧
      (req.Reports reply e.command ↔ (req.asks e.command).Effect e.now e.after)) ↔
        req.Right L e := by
  obtain ⟨ch, happlied⟩ := h.applied
  have haccepted := e.before.accepted_iff e.now h.write ch
  have heffect := e.before.effect_iff e.now h.write ch
  rw [happlied] at haccepted heffect
  rw [haccepted, heffect, h.reports]
  rfl

theorem serves_of_run {R : Type} {p : Handler R} {reply : R → WriteReply}
    (hreq : req.handler = reply <$> p) {c : Command} {r : R}
    (h : p.run (exec L) (.start f) = ((World.start f).committed ((World.start f).commit L c), r))
    (hserves : Serves L req (reply r) ((World.start f).commit L c)) :
    ∀ e ∈ (req.handler.run (exec L) (.start f)).1.commits,
      Serves L req (req.handler.run (exec L) (.start f)).2 e := by
  rw [hreq, Program.run_map, h]
  intro e he
  rw [List.mem_singleton.mp he]
  exact hserves

theorem serves_of_refused {R : Type} {p : Handler R} {reply : R → WriteReply}
    (hreq : req.handler = reply <$> p) {r : R} (h : p.run (exec L) (.start f) = (.start f, r)) :
    ∀ e ∈ (req.handler.run (exec L) (.start f)).1.commits,
      Serves L req (req.handler.run (exec L) (.start f)).2 e := by
  rw [hreq, Program.run_map, h]
  exact fun e he => absurd he List.not_mem_nil

theorem serves_of_replies {p : Handler Response} (hreq : req.handler = .http <$> p) {c : Command}
    {status : ℕ} (h : Replies p L (.start f) c status) (hwrite : (req.asks c).Write)
    (happlied : ∃ ch, f.apply (L.env 0).now (req.asks c).json ch =
      (((World.start f).commit L c).after, ((World.start f).commit L c).answer))
    (hreports : ∀ body, req.Reports (.http ⟨status, body⟩) c ↔ req.SeesLeader L) :
    ∀ e ∈ (req.handler.run (exec L) (.start f)).1.commits,
      Serves L req (req.handler.run (exec L) (.start f)).2 e := by
  obtain ⟨body, hrun⟩ := h
  exact serves_of_run hreq hrun ⟨hwrite, happlied, hreports body⟩

theorem write_setCommand (key value : GoString) (flags : UInt64) :
    (KVHandler.setCommand key value flags).Write := by
  unfold KVHandler.setCommand
  split_ifs <;> trivial

/-- Every command of a request is a write, and is reported when the leader check
sees the leader. -/
theorem serves (L : Surroundings) (f : FSM) (req : WriteRequest) :
    ∀ e ∈ (req.handler.run (exec L) (.start f)).1.commits,
      Serves L req (req.handler.run (exec L) (.start f)).2 e := by
  have hmethod {req : WriteRequest} {c : Command}
      (hreq : req.handler = .method <$> Node.applyCommand c) (hwrite : c.Write)
      (hasks : req.asks c = c) (hreports : req.Reports (.method none) c ↔ req.SeesLeader L) :
      ∀ e ∈ (req.handler.run (exec L) (.start f)).1.commits,
        Serves L req (req.handler.run (exec L) (.start f)).2 e :=
    serves_of_run hreq (Node.run_applyCommand c)
      ⟨hasks.symm ▸ hwrite, hasks.symm ▸ ⟨L.choice 0 c.json, rfl⟩, hreports⟩
  cases req with
  | nodeKVSet key value => exact hmethod rfl trivial rfl (iff_of_true rfl trivial)
  | nodeKVSetWithFlags key value flags => exact hmethod rfl trivial rfl (iff_of_true rfl trivial)
  | nodeKVDelete key => exact hmethod rfl trivial rfl (iff_of_true rfl trivial)
  | nodeKVBatchSet items => exact hmethod rfl trivial rfl (iff_of_true rfl trivial)
  | nodeKVBatchDelete keys => exact hmethod rfl trivial rfl (iff_of_true rfl trivial)
  | nodeServiceRegister name address port tags metadata =>
    exact hmethod rfl trivial rfl (iff_of_true rfl trivial)
  | nodeServiceDeregister name => exact hmethod rfl trivial rfl (iff_of_true rfl trivial)
  | nodeServiceHeartbeat name => exact hmethod rfl trivial rfl (iff_of_true rfl trivial)
  | kvSet key value flags =>
    exact serves_of_replies rfl (KVHandler.replies_set key value flags)
      (write_setCommand key value flags) ⟨L.choice 0 _, rfl⟩ fun _ => L.status_eq_iff
  | kvDelete key =>
    exact serves_of_replies rfl (KVHandler.replies_delete key) trivial ⟨L.choice 0 _, rfl⟩
      fun _ => L.status_eq_iff
  | register service =>
    exact serves_of_replies rfl (ServiceHandler.replies_register service) trivial
      ⟨L.choice 0 (.service (.register ({ service with checks := [] } : Service).json)), rfl⟩
      fun _ => L.status_eq_iff
  | deregister name =>
    exact serves_of_replies rfl (ServiceHandler.replies_deregister name) trivial
      ⟨L.choice 0 _, rfl⟩ fun _ => L.status_eq_iff
  | heartbeat name =>
    exact serves_of_replies rfl (ServiceHandler.replies_heartbeat name) trivial
      ⟨L.choice 0 _, rfl⟩ fun _ => L.status_eq_iff
  | updateTTLCheck checkID =>
    exact serves_of_replies rfl (HealthCheckHandler.replies_updateTTLCheck checkID) trivial
      ⟨L.choice 0 _, rfl⟩ fun _ => iff_of_true rfl trivial
  | batchKVSet items =>
    rcases BatchHandler.run_batchKVSet items with ⟨response, h⟩ | h
    · exact serves_of_refused rfl h
    · exact serves_of_replies rfl h trivial ⟨L.choice 0 _, rfl⟩ fun _ => iff_of_true rfl trivial
  | batchKVDelete keys =>
    rcases BatchHandler.run_batchKVDelete keys with ⟨response, h⟩ | h
    · exact serves_of_refused rfl h
    · exact serves_of_replies rfl h trivial ⟨L.choice 0 _, rfl⟩ fun _ => iff_of_true rfl trivial
  | batchServiceRegister services =>
    intro e he
    simp only [handler, Program.run_map] at he ⊢
    rcases BatchHandler.commits_batchServiceRegister services _ e he with he | ⟨w, svc, rfl, h⟩
    · exact absurd he List.not_mem_nil
    · exact ⟨trivial, ⟨L.choice w.turn _, rfl⟩, iff_of_true h trivial⟩
  | batchServiceDeregister names =>
    intro e he
    simp only [handler, Program.run_map] at he ⊢
    rcases BatchHandler.commits_batchServiceDeregister names _ e he with he | ⟨w, name, rfl, h⟩
    · exact absurd he List.not_mem_nil
    · exact ⟨trivial, ⟨L.choice w.turn _, rfl⟩, iff_of_true h trivial⟩

/-- When a request reports what became of its commands. -/
theorem faithful_iff_right (L : Surroundings) (f : FSM) (req : WriteRequest) :
    req.Faithful L f ↔ ∀ e ∈ (req.handler.run (exec L) (.start f)).1.commits, req.Right L e := by
  unfold Faithful
  exact forall₂_congr fun e he => (serves L f req e he).right_iff

/-! ### A refusal reported as a success -/

/-- The state machine refuses the tag, and knows no service to keep alive. -/
theorem refusal_reported_as_success :
    ¬ (register { web with tags := [str "a b"] }).Faithful .leader (.fresh 10) ∧
      ¬ (heartbeat (str "web")).Faithful .leader (.fresh 10) := by
  constructor
  · intro h
    have haccepted := (h _ (List.mem_singleton_self _)).1.mp rfl
    revert haccepted
    decide
  · intro h
    obtain ⟨entry, hentry, -⟩ := (h _ (List.mem_singleton_self _)).2.mp rfl
    cases hentry

end WriteRequest

end Konsul
