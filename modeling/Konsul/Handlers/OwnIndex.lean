import Konsul.Handlers.Requests
import Konsul.Raft.Slots

/-!
# The index in the reply to a write

A plain write is one operation and the index its reply shows is read by another
one. A `Desk` is a node that handles any number of requests at once, each
operation by operation, with Raft or without; `own` remembers which record a
plain write has left. In every run in which nothing writes the slot between the
two operations, the reply shows the index of that record, and a later
compare-and-swap with it replaces no other record.
-/

namespace Konsul

open GoLib
open Program (only_bind)

/-! ### Plain writes -/

/-- The handler of a request on a node with or without Raft. -/
def Request.handlerOn (raft : Bool) : Request → Handler Response
  | kvSet key body => KVHandler.set raft key body
  | kvDelete key cas => KVHandler.delete raft key cas
  | register body => ServiceHandler.register raft body
  | deregister name cas => ServiceHandler.deregister raft name cas
  | heartbeat name => ServiceHandler.heartbeat raft name
  | updateTTLCheck checkID => HealthCheckHandler.updateTTLCheck raft checkID
  | addCheck body => HealthCheckHandler.addCheck body
  | batchKVSet body => BatchHandler.batchKVSet raft body
  | batchKVDelete body => BatchHandler.batchKVDelete raft body
  | batchKVSetCAS body => BatchHandler.batchKVSetCAS raft body
  | batchKVDeleteCAS body => BatchHandler.batchKVDeleteCAS raft body
  | batchServiceRegister body => BatchHandler.batchServiceRegister raft body
  | batchServiceDeregister body => BatchHandler.batchServiceDeregister raft body
  | agentBatchUpdate body => AgentHandlers.handleBatchUpdate body
  | agentRegister id => AgentHandlers.handleAgentRegister id
  | agentHealthUpdate parses => AgentHandlers.handleHealthUpdate parses
  | read answer => Program.perform (Op.view answer)

/-- What a `PUT` without a CAS index writes. -/
def Request.plainSlot : Request → Option Slot
  | kvSet key (some ⟨_, none, _⟩) => some (.key key)
  | register (some ⟨service, none⟩) => some (.service service.name)
  | _ => none

def Response.modifyIndex (r : Response) : Option UInt64 :=
  match r.field (str "modify_index") with
  | some (.index n) => some n
  | _ => none

/-! ### The desk -/

structure Task where
  request : Request
  rest : Handler Response
  /-- The slot a plain write has written, and the record it left there. -/
  own : Option (Slot × Stored)

structure Answered where
  request : Request
  own : Option (Slot × Stored)
  response : Response

structure Desk where
  fsm : FSM
  handling : List Task
  answers : List Answered

/-- What an operation meets. `refusal` is the error of `ApplyEntry`, if it fails. -/
structure Moment where
  isLeader : Bool
  leaderAddr : GoString
  refusal : Option GoError
  env : StoreEnv
  choice : (c : Command) → c.Choice

namespace Moment

def perform (m : Moment) (f : FSM) : (op : Op) → FSM × op.Answer
  | .isLeader => (f, m.isLeader)
  | .leaderAddr => (f, m.leaderAddr)
  | .applyEntry c =>
    match m.refusal with
    | some err => (f, .error err)
    | none =>
      let r := f.apply m.env.now c.json (m.choice c.json)
      (r.1, .ok r.2)
  | .kvStore c => f.callKVStore c (m.choice (.kv c))
  | .serviceStore c => f.callServiceStore m.env c (m.choice (.service c))
  | .getKVEntry key => (f, f.kvStore.getEntry key)
  | .getServiceEntry name => (f, f.serviceStore.getEntry m.env.now name)
  | .view answer => (f, answer f)

/-- The slots an operation writes. -/
def written (m : Moment) (f : FSM) : Op → List Slot
  | .applyEntry c =>
    match m.refusal with
    | some _ => []
    | none => c.json.written f.replica (m.choice c.json)
  | .kvStore c => (Command.kv c).written f.replica (m.choice (.kv c))
  | .serviceStore c => (Command.service c).written f.replica (m.choice (.service c))
  | _ => []

def Room (m : Moment) (f : FSM) : Op → Prop
  | .applyEntry c => c.json.Room f.replica (m.choice c.json)
  | .kvStore c => (Command.kv c).Room f.replica (m.choice (.kv c))
  | .serviceStore c => (Command.service c).Room f.replica (m.choice (.service c))
  | _ => True

theorem advance_perform (m : Moment) (f : FSM) (op : Op) (hroom : m.Room f op) :
    Replica.versions.Advance f.replica (m.perform f op).1.replica (m.written f op) := by
  cases op with
  | applyEntry c =>
    simp only [perform, written]
    cases m.refusal with
    | some err => exact .refl
    | none => exact f.advance_apply m.env.now c.json _ hroom
  | kvStore c => exact f.advance_callKVStore c _ hroom
  | serviceStore c => exact f.advance_callServiceStore m.env c _ hroom
  | _ => exact .refl

end Moment

namespace Task

/-- The slot a task has written and goes on to read. -/
def awaits (t : Task) : Option Slot :=
  match t.own, t.rest with
  | some (slot, _), .call _ _ => some slot
  | _, _ => none

/-- What a plain write remembers of an operation that wrote `written`. -/
def remember (t : Task) (written : List Slot) (f : FSM) : Option (Slot × Stored) :=
  match t.request.plainSlot, written with
  | some _, [slot] => (f.replica.stored slot).map fun v => (slot, v)
  | _, _ => t.own

end Task

inductive Desk.Event where
  | request (r : Request)
  /-- The `k`th request being handled performs its next operation, or is answered. -/
  | resume (k : ℕ) (m : Moment)
  /-- An operation of another part of the program, as a GraphQL mutation. -/
  | other (op : Op) (m : Moment)
  /-- The node applies an entry of the log no handler waits for. -/
  | apply (now : Time) (c : Command) (ch : c.Choice)
  | cleanup (now : Time)

namespace Desk

def start (f : FSM) : Desk := { fsm := f, handling := [], answers := [] }

def resume (s : Desk) (k : ℕ) (m : Moment) : Desk :=
  match s.handling[k]? with
  | none => s
  | some t =>
    match t.rest with
    | .ret response =>
      { s with
        handling := s.handling.eraseIdx k
        answers := s.answers ++ [⟨t.request, t.own, response⟩] }
    | .call op next =>
      let r := m.perform s.fsm op
      { s with
        fsm := r.1
        handling := s.handling.set k
          { t with rest := next r.2, own := t.remember (m.written s.fsm op) r.1 } }

def machine (raft : Bool) : Machine Desk Event Unit where
  step s
    | .request r => ({ s with handling := s.handling ++ [⟨r, r.handlerOn raft, none⟩] }, ())
    | .resume k m => (s.resume k m, ())
    | .other op m => ({ s with fsm := (m.perform s.fsm op).1 }, ())
    | .apply now c ch => ({ s with fsm := (s.fsm.apply now c ch).1 }, ())
    | .cleanup now =>
      ({ s with fsm :=
          { s.fsm with serviceStore := (s.fsm.serviceStore.cleanupExpired now).1 } }, ())

/-- The operation a request performs when it goes on. -/
def next (s : Desk) (k : ℕ) : Option Op :=
  match s.handling[k]? with
  | some ⟨_, .call op _, _⟩ => some op
  | _ => none

def written (s : Desk) : Event → List Slot
  | .request _ => []
  | .resume k m => (s.next k).elim [] (m.written s.fsm)
  | .other op m => m.written s.fsm op
  | .apply _ c ch => c.written s.fsm.replica ch
  | .cleanup now => (s.fsm.serviceStore.toServiceTable.expired now).map .service

/-- The counters have room. -/
def Room (s : Desk) : Event → Prop
  | .resume k m => ∀ op ∈ s.next k, m.Room s.fsm op
  | .other op m => m.Room s.fsm op
  | .apply _ c ch => c.Room s.fsm.replica ch
  | _ => True

/-- A plain write that Raft commits is one the state machine accepts under the
name the request gives, and a service has not expired when it is read. -/
def Reaches (s : Desk) : Event → Prop
  | .resume k m => ∀ t ∈ s.handling[k]?, ∀ slot ∈ t.request.plainSlot,
    match s.next k with
    | some (.applyEntry c) => m.refusal = none → c.json.written s.fsm.replica (m.choice c.json) = [slot]
    | some (.getServiceEntry name) =>
      name ∉ s.fsm.serviceStore.toServiceTable.expired m.env.now
    | _ => True
  | _ => True

structure Undisturbed (s : Desk) (e : Event) : Prop where
  apart : ∀ t ∈ s.handling, ∀ slot ∈ t.awaits, slot ∉ s.written e
  reaches : s.Reaches e
  room : s.Room e

theorem advance_step (raft : Bool) (s : Desk) (e : Event) (hroom : s.Room e) :
    Replica.versions.Advance s.fsm.replica ((machine raft).step s e).1.fsm.replica
      (s.written e) := by
  cases e with
  | request r => exact .refl
  | resume k m =>
    simp only [machine, resume, written, next, Room] at hroom ⊢
    cases hget : s.handling[k]? with
    | none => exact .refl
    | some t =>
      obtain ⟨request, rest, own⟩ := t
      cases rest with
      | ret response => exact .refl
      | call op next =>
        rw [hget] at hroom
        exact m.advance_perform s.fsm op (hroom op rfl)
  | other op m => exact m.advance_perform s.fsm op hroom
  | apply now c ch => exact s.fsm.advance_apply now c ch hroom
  | cleanup now => exact s.fsm.advance_cleanupExpired now

end Desk

/-! ### The programs of plain writes -/

/-- A program that answers without an index. -/
inductive Refuses : Handler Response → Prop
  | intro (r : Response) (h : r.modifyIndex = none) : Refuses (.ret r)

/-- A program that reads the slot and answers with the index it finds. -/
inductive Reads : Slot → Handler Response → Prop
  | key (key : GoString) (reply : Option KVEntry → Response)
      (h : ∀ e, (reply e).modifyIndex = some ((e.map KVEntry.modifyIndex).getD 0)) :
      Reads (.key key) (.call (.getKVEntry key) fun e => .ret (reply e))
  | service (name : GoString) (reply : Option ServiceEntry → Response)
      (h : ∀ e, (reply e).modifyIndex = some ((e.map ServiceEntry.modifyIndex).getD 0)) :
      Reads (.service name) (.call (.getServiceEntry name) fun e => .ret (reply e))

/-- A program that writes the slot in one operation and then reads it, or gives up. -/
inductive WritesThenReads (slot : Slot) : Handler Response → Prop
  | refuses {p : Handler Response} (h : Refuses p) : WritesThenReads slot p
  | isLeader (next : Bool → Handler Response) (h : ∀ a, WritesThenReads slot (next a)) :
      WritesThenReads slot (.call .isLeader next)
  | leaderAddr (next : GoString → Handler Response) (h : ∀ a, WritesThenReads slot (next a)) :
      WritesThenReads slot (.call .leaderAddr next)
  | kvStore (c : KVCommand) (next : KVResult → Handler Response) (hputs : (Command.kv c).Puts)
      (hc : ∀ (r : Replica) ch, (Command.kv c).written r ch = [slot])
      (h : ∀ a, Reads slot (next a)) : WritesThenReads slot (.call (.kvStore c) next)
  | serviceStore (service : Service) (next : ServiceResult → Handler Response)
      (hslot : slot = .service service.name) (h : ∀ a, a.err = none → Reads slot (next a))
      (herr : ∀ a, a.err ≠ none → Refuses (next a)) :
      WritesThenReads slot (.call (.serviceStore (.register service)) next)
  | applyEntry (c : Command) (next : Except GoError FsmResponse → Handler Response)
      (hputs : c.json.Puts) (h : ∀ a, Reads slot (next (.ok a))) (herr : ∀ err, Refuses (next (.error err))) :
      WritesThenReads slot (.call (.applyEntry c) next)

/-- The operations of the leader check. -/
def Op.AsksLeader : Op → Prop
  | .isLeader => True
  | .leaderAddr => True
  | _ => False

theorem only_checkLeader (raft : Bool) : (checkLeaderForWrite raft).Only Op.AsksLeader := by
  cases raft with
  | false => trivial
  | true =>
    refine only_bind (Program.only_perform trivial) fun leader => ?_
    split
    · trivial
    · refine only_bind (Program.only_perform trivial) fun addr => ?_
      split <;> trivial

theorem WritesThenReads.bind {R : Type} {slot : Slot} {p : Handler R} {f : R → Handler Response}
    (hp : p.Only Op.AsksLeader) (hf : ∀ r, WritesThenReads slot (f r)) :
    WritesThenReads slot (p >>= f) := by
  induction p with
  | ret r => exact hf r
  | call op next ih =>
    cases op with
    | isLeader => exact .isLeader _ fun a => ih a (hp.2 a)
    | leaderAddr => exact .leaderAddr _ fun a => ih a (hp.2 a)
    | _ => exact hp.1.elim

theorem reads_key (key : GoString) (status : ℕ) (message : GoString) :
    Reads (.key key) (.call (.getKVEntry key) fun entry => .ret (json status
      [(str "message", .text message), (str "key", .text key),
        (str "modify_index", .index ((entry.map KVEntry.modifyIndex).getD 0))])) :=
  .key key _ fun _ => rfl

theorem refuses_replicationFailed (err : GoError) : Refuses (.ret (.replicationFailed err)) :=
  ⟨_, rfl⟩

theorem refuses_badRequest (message : GoString) : Refuses (.ret (.badRequest message)) :=
  ⟨_, rfl⟩

theorem writesThenReads_set (raft : Bool) (key value : GoString) (flags : UInt64) :
    WritesThenReads (.key key) (KVHandler.set raft key (some ⟨value, none, flags⟩)) := by
  refine .bind (only_checkLeader raft) fun status => ?_
  have hreads := reads_key key status (str "key set")
  have hsets (c : KVCommand) (hc : c = .setWithFlags key value flags ∨ c = .set key value) :
      (Command.kv c).Puts ∧ ∀ (r : Replica) ch, (Command.kv c).written r ch = [.key key] := by
    rcases hc with rfl | rfl
    · exact ⟨trivial, fun _ _ => rfl⟩
    · exact ⟨trivial, fun _ _ => rfl⟩
  cases raft with
  | false =>
    have hwrites := hsets (if flags > 0 then .setWithFlags key value flags else .set key value) (by
      split
      · exact Or.inl rfl
      · exact Or.inr rfl)
    exact .kvStore _ _ hwrites.1 hwrites.2 fun _ => hreads
  | true =>
    by_cases hflags : flags > 0
    · simp only [hflags, ite_true]
      exact .applyEntry _ _ trivial (fun _ => hreads) refuses_replicationFailed
    · simp only [hflags, ite_true, ite_false]
      exact .applyEntry _ _ trivial (fun _ => hreads) refuses_replicationFailed

theorem writesThenReads_register (raft : Bool) (service : Service) :
    WritesThenReads (.service service.name)
      (ServiceHandler.register raft (some ⟨service, none⟩)) := by
  refine .bind (only_checkLeader raft) fun status => ?_
  have hreads : Reads (.service service.name)
      (.call (.getServiceEntry service.name) fun entry => .ret
        (ServiceHandler.registered status service
          ((entry.map ServiceEntry.modifyIndex).getD 0))) := .service _ _ fun _ => rfl
  cases raft with
  | false =>
    refine .serviceStore service _ rfl (fun a ha => ?_) fun a ha => ?_
    · obtain ⟨newIndex, found, err⟩ := a
      obtain rfl : err = none := ha
      exact hreads
    · obtain ⟨newIndex, found, err⟩ := a
      obtain ⟨err, rfl⟩ := Option.ne_none_iff_exists'.mp ha
      exact refuses_badRequest _
  | true => exact .applyEntry _ _ trivial (fun _ => hreads) refuses_replicationFailed

theorem writesThenReads_handlerOn (raft : Bool) {r : Request} {slot : Slot}
    (h : r.plainSlot = some slot) : WritesThenReads slot (r.handlerOn raft) := by
  unfold Request.plainSlot at h
  split at h
  · cases h
    exact writesThenReads_set ..
  · cases h
    exact writesThenReads_register ..
  · cases h

/-! ### Tasks on their way -/

/-- How far a plain write has come. -/
inductive Progress (f : FSM) (slot : Slot) : Task → Prop
  | writing {request rest} (h : WritesThenReads slot rest) : Progress f slot ⟨request, rest, none⟩
  | reading {request rest} (v : Stored) (hrest : Reads slot rest)
      (hstored : f.replica.stored slot = some v)
      (hown : Replica.versions.Identifies f.replica slot v) :
      Progress f slot ⟨request, rest, some (slot, v)⟩
  | replied {request own} (v : Stored) (response : Response)
      (hindex : response.modifyIndex = some v.modifyIndex)
      (hown : Replica.versions.Identifies f.replica slot v) (heq : own = some (slot, v)) :
      Progress f slot ⟨request, .ret response, own⟩
  | refused {request own rest} (h : Refuses rest) : Progress f slot ⟨request, rest, own⟩

namespace Desk

/-- A reply of a plain write that shows an index shows that of its own record, and
the index stands for no other record of the slot. -/
def Truthful (f : FSM) (r : Answered) : Prop :=
  ∀ slot n, r.request.plainSlot = some slot → r.response.modifyIndex = some n →
    ∃ v, r.own = some (slot, v) ∧ v.modifyIndex = n ∧
      Replica.versions.Identifies f.replica slot v

structure Inv (s : Desk) : Prop where
  handling : ∀ t ∈ s.handling, ∀ slot, t.request.plainSlot = some slot → Progress s.fsm slot t
  answers : ∀ r ∈ s.answers, Truthful s.fsm r

end Desk

theorem Progress.advance {f f' : FSM} {slot : Slot} {t : Task} {written : List Slot}
    (h : Progress f slot t) (hs : Replica.versions.Advance f.replica f'.replica written)
    (hapart : ∀ slot ∈ t.awaits, slot ∉ written) : Progress f' slot t := by
  cases h with
  | writing h => exact .writing h
  | reading v hrest hstored hown =>
    refine .reading v hrest ?_ (hown.advance hs)
    have hslot : slot ∉ written := by
      cases hrest with
      | key key reply h => exact hapart _ rfl
      | service name reply h => exact hapart _ rfl
    exact (hs.frame slot hslot).trans hstored
  | replied v response hindex hown heq => exact .replied v response hindex (hown.advance hs) heq
  | refused h => exact .refused h

namespace Desk

theorem Truthful.advance {f f' : FSM} {r : Answered} {written : List Slot} (h : Truthful f r)
    (hs : Replica.versions.Advance f.replica f'.replica written) : Truthful f' r := by
  intro slot n hslot hn
  obtain ⟨v, hown, hindex, hv⟩ := h slot n hslot hn
  exact ⟨v, hown, hindex, hv.advance hs⟩

theorem truthful_of_progress {f : FSM} {request : Request} {own : Option (Slot × Stored)}
    {response : Response}
    (h : ∀ slot, request.plainSlot = some slot → Progress f slot ⟨request, .ret response, own⟩) :
    Truthful f ⟨request, own, response⟩ := by
  intro slot n hslot hn
  have hrefuses (h : Refuses (.ret response)) : False := by
    cases h with
    | intro r h =>
      rw [show response.modifyIndex = none from h] at hn
      cases hn
  have hprogress := h slot hslot
  clear h
  cases hprogress with
  | writing h =>
    cases h with
    | refuses h => exact (hrefuses h).elim
  | reading v hrest => cases hrest
  | replied v response hindex hown heq =>
    refine ⟨v, heq, ?_, hown⟩
    exact Option.some.inj (hindex.symm.trans hn)
  | refused h => exact (hrefuses h).elim

end Desk

/-! ### One operation of a plain write -/

theorem Reads.step {f : FSM} {slot : Slot} {op : Op} {next : op.Answer → Handler Response}
    {v : Stored} (request : Request) (h : Reads slot (.call op next))
    (hstored : f.replica.stored slot = some v)
    (hown : Replica.versions.Identifies f.replica slot v) (m : Moment)
    (hlives : ∀ name, op = .getServiceEntry name →
      name ∉ f.serviceStore.toServiceTable.expired m.env.now) :
    Progress (m.perform f op).1 slot ⟨request, next (m.perform f op).2, some (slot, v)⟩ := by
  cases h with
  | key key reply h =>
    obtain ⟨e, he, rfl⟩ := Option.map_eq_some_iff.mp hstored
    refine .replied (.entry e) _ ?_ hown rfl
    have hget : f.kvStore.getEntry key = some e := he
    change (reply (f.kvStore.getEntry key)).modifyIndex = _
    rw [h, hget]
    rfl
  | service name reply h =>
    obtain ⟨r, hr, rfl⟩ := Option.map_eq_some_iff.mp hstored
    refine .replied (.registration r) _ ?_ hown rfl
    obtain ⟨e, he, rfl⟩ := Option.map_eq_some_iff.mp
      ((ServiceTable.lookup_registry _ name).symm.trans hr)
    have halive : ¬ e.expiresAt < m.env.now := fun hexp =>
      hlives name rfl ((ServiceTable.mem_expired_iff _ _ _).mpr ⟨e, he, hexp⟩)
    have hget : f.serviceStore.getEntry m.env.now name = some e := by
      simp only [ServiceStore.getEntry, he, if_neg halive]
    change (reply (f.serviceStore.getEntry m.env.now name)).modifyIndex = _
    rw [h, hget]
    rfl

theorem Progress.written {f f' : FSM} {slot : Slot} {request : Request} {rest : Handler Response}
    (hs : Replica.versions.Advance f.replica f'.replica [slot])
    (hslot : request.plainSlot = some slot) (hrest : Reads slot rest)
    (hput : (f'.replica.stored slot).isSome) :
    Progress f' slot ⟨request, rest,
      (Task.mk request rest none).remember [slot] f'⟩ := by
  obtain ⟨v, hv⟩ := Option.isSome_iff_exists.mp hput
  have hown : (Task.mk request rest none).remember [slot] f' = some (slot, v) := by
    simp only [Task.remember, hslot, hv, Option.map_some]
  rw [hown]
  exact .reading v hrest hv (hs.identifies (List.mem_singleton_self _) hv)

theorem Progress.step {f : FSM} {slot : Slot} {request : Request} {op : Op}
    {next : op.Answer → Handler Response} {own : Option (Slot × Stored)}
    (h : Progress f slot ⟨request, .call op next, own⟩) (hslot : request.plainSlot = some slot)
    (m : Moment) (hroom : m.Room f op)
    (hcommits : ∀ c, op = .applyEntry c → m.refusal = none →
      c.json.written f.replica (m.choice c.json) = [slot])
    (hlives : ∀ name, op = .getServiceEntry name →
      name ∉ f.serviceStore.toServiceTable.expired m.env.now) :
    Progress (m.perform f op).1 slot ⟨request, next (m.perform f op).2,
      (Task.mk request (.call op next) own).remember (m.written f op) (m.perform f op).1⟩ := by
  have hs := m.advance_perform f op hroom
  -- an operation that writes nothing leaves what the task remembers
  have hkeep (hnone : m.written f op = []) :
      (Task.mk request (.call op next) own).remember (m.written f op) (m.perform f op).1 =
        own := by
    simp only [hnone, Task.remember, hslot]
  cases h with
  | writing h =>
    cases h with
    | refuses h => cases h
    | isLeader next h =>
      rw [hkeep rfl]
      exact .writing (h _)
    | leaderAddr next h =>
      rw [hkeep rfl]
      exact .writing (h _)
    | kvStore c next hputs hc h =>
      have hwritten : m.written f (.kvStore c) = [slot] := hc f.replica _
      rw [hwritten] at hs ⊢
      refine .written hs hslot (h _) (f.isSome_callKVStore hputs _ ?_)
      rw [hc]
      exact List.mem_singleton_self _
    | serviceStore service next hservice h herr =>
      by_cases herror : (m.perform f (.serviceStore (.register service))).2.err = none
      · have hvalid : service.Valid := by
          refine (service.valid_iff (m.choice (.service (.register service)))).mpr ?_
          by_contra hinvalid
          obtain ⟨err, hcheck⟩ := Option.ne_none_iff_exists'.mp hinvalid
          simp only [Moment.perform, FSM.callServiceStore, ServiceStore.register, hcheck] at herror
          cases herror
        have hwritten : m.written f (.serviceStore (.register service)) = [slot] := by
          simp only [Moment.written, Command.written, ServiceCommand.written, if_pos hvalid,
            List.map_cons, List.map_nil, hservice]
        rw [hwritten] at hs ⊢
        refine .written hs hslot (h _ herror)
          (f.isSome_register (ServiceStore.completeChecks m.env.toEnv) rfl
            (f.registry_callServiceStore m.env _ _) ?_)
        simp only [ServiceCommand.written, if_pos hvalid, List.map_cons, List.map_nil, hservice,
          List.mem_singleton]
      · exact .refused (herr _ herror)
    | applyEntry c next hputs h herr =>
      simp only [Moment.perform, Moment.written] at hs ⊢
      cases hrefusal : m.refusal with
      | some err => exact .refused (herr err)
      | none =>
        have hwritten := hcommits c rfl hrefusal
        rw [hrefusal] at hs
        simp only [hwritten] at hs ⊢
        refine .written hs hslot (h _) (f.isSome_apply _ hputs _ ?_)
        rw [hwritten]
        exact List.mem_singleton_self _
  | reading v hrest hstored hown =>
    have hstep := hrest.step request hstored hown m hlives
    cases hrest with
    | key key reply h =>
      rw [hkeep rfl]
      exact hstep
    | service name reply h =>
      rw [hkeep rfl]
      exact hstep
  | refused h => cases h

/-! ### Runs -/

namespace Desk

variable {s : Desk} {e : Event}

theorem Undisturbed.advance (raft : Bool) (h : Undisturbed s e) :
    Replica.versions.Advance s.fsm.replica ((machine raft).step s e).1.fsm.replica
      (s.written e) := advance_step raft s e h.room

/-- What a step does to the stores leaves the other tasks and the answers as they are. -/
theorem Inv.others (raft : Bool) (h : Inv s) (he : Undisturbed s e) :
    (∀ t ∈ s.handling, ∀ slot, t.request.plainSlot = some slot →
      Progress ((machine raft).step s e).1.fsm slot t) ∧
    ∀ r ∈ s.answers, Truthful ((machine raft).step s e).1.fsm r :=
  ⟨fun t ht slot hslot => (h.handling t ht slot hslot).advance (he.advance raft) (he.apart t ht),
    fun r hr => (h.answers r hr).advance (he.advance raft)⟩

theorem Inv.resume (h : Inv s) {k : ℕ} {m : Moment} (he : Undisturbed s (.resume k m)) :
    Inv (s.resume k m) := by
  obtain ⟨hhandling, hanswers⟩ := h.others true he
  have hreaches := he.reaches
  have hroom := he.room
  simp only [machine] at hhandling hanswers
  simp only [Reaches, Room, next] at hreaches hroom
  unfold Desk.resume at hhandling hanswers ⊢
  cases hget : s.handling[k]? with
  | none => exact h
  | some t =>
    have ht := List.mem_of_getElem? hget
    obtain ⟨request, rest, own⟩ := t
    rw [hget] at hhandling hanswers hreaches hroom
    cases rest with
    | ret response =>
      refine ⟨fun t ht => h.handling t (List.mem_of_mem_eraseIdx ht), fun r hr => ?_⟩
      rcases List.mem_append.mp hr with hr | hr
      · exact h.answers r hr
      · obtain rfl := List.mem_singleton.mp hr
        exact truthful_of_progress fun slot hslot => h.handling _ ht slot hslot
    | call op next =>
      refine ⟨fun t' ht' slot hslot => ?_, hanswers⟩
      rcases List.mem_or_eq_of_mem_set ht' with ht' | rfl
      · exact hhandling t' ht' slot hslot
      · have hmeets := hreaches _ rfl slot hslot
        refine (h.handling _ ht slot hslot).step hslot m (hroom op rfl) ?_ ?_
        · rintro c rfl hrefusal
          exact hmeets hrefusal
        · rintro name rfl
          exact hmeets

theorem Inv.step (raft : Bool) (h : Inv s) (he : Undisturbed s e) : Inv ((machine raft).step s e).1 := by
  obtain ⟨hhandling, hanswers⟩ := h.others raft he
  cases e with
  | request r =>
    refine ⟨fun t ht slot hslot => ?_, hanswers⟩
    rcases List.mem_append.mp ht with ht | ht
    · exact hhandling t ht slot hslot
    · obtain rfl := List.mem_singleton.mp ht
      exact .writing (writesThenReads_handlerOn raft hslot)
  | resume k m => exact h.resume he
  | other op m => exact ⟨hhandling, hanswers⟩
  | apply now c ch => exact ⟨hhandling, hanswers⟩
  | cleanup now => exact ⟨hhandling, hanswers⟩

/-- A compare-and-swap of the slot with index `n`, alone or in a batch, passes its check. -/
inductive CasAccepts (f : FSM) (n : UInt64) : Slot → Prop
  | setCAS (key : GoString) (h : f.kvStore.toKVTable.checkSetCAS key n = none) :
      CasAccepts f n (.key key)
  | deleteCAS (key : GoString) (h : f.kvStore.toKVTable.checkDeleteCAS key n = none) :
      CasAccepts f n (.key key)
  | batchSetCAS (key value : GoString) (items : GoMap GoString GoString)
      (expectedIndices : GoMap GoString UInt64) (check : items.Order)
      (h : f.kvStore.toKVTable.checkSetAll check.list expectedIndices = none)
      (hkey : items.lookup key = some value) (hn : expectedIndices.lookup key = some n) :
      CasAccepts f n (.key key)
  | batchDeleteCAS (key : GoString) (keys : List GoString)
      (expectedIndices : GoMap GoString UInt64)
      (h : f.kvStore.toKVTable.checkDeleteAll keys expectedIndices = none) (hkey : key ∈ keys)
      (hn : expectedIndices.lookup key = some n) : CasAccepts f n (.key key)
  | registerCAS (name : GoString)
      (h : f.serviceStore.toServiceTable.checkRegisterCAS name n = none) :
      CasAccepts f n (.service name)
  | deregisterCAS (name : GoString)
      (h : f.serviceStore.toServiceTable.checkDeregisterCAS name n = none) :
      CasAccepts f n (.service name)

theorem CasAccepts.stored {f : FSM} {n : UInt64} {slot : Slot} (h : CasAccepts f n slot)
    (hn : n ≠ 0) : ∃ v, f.replica.stored slot = some v ∧ v.modifyIndex = n := by
  have hset (key : GoString) (h : f.kvStore.toKVTable.checkSetCAS key n = none) :
      ∃ v, f.replica.stored (.key key) = some v ∧ v.modifyIndex = n := by
    simp only [KVTable.checkSetCAS, if_neg hn] at h
    split at h
    · rename_i e he
      split_ifs at h with hne
      exact ⟨.entry e, congrArg (Option.map Stored.entry) he, not_not.mp hne⟩
    · cases h
  have hdelete (key : GoString) (h : f.kvStore.toKVTable.checkDeleteCAS key n = none) :
      ∃ v, f.replica.stored (.key key) = some v ∧ v.modifyIndex = n := by
    simp only [KVTable.checkDeleteCAS] at h
    split at h
    · cases h
    · rename_i e he
      split_ifs at h with hne
      exact ⟨.entry e, congrArg (Option.map Stored.entry) he, not_not.mp hne⟩
  cases h with
  | setCAS key h => exact hset key h
  | deleteCAS key h => exact hdelete key h
  | batchSetCAS key value items expectedIndices check h hkey hindex =>
    have hitem := List.findSome?_eq_none_iff.mp h ⟨key, value⟩
      ((check.mem_list_iff key value).mpr hkey)
    rw [KVTable.expected, hindex] at hitem
    exact hset key hitem
  | batchDeleteCAS key keys expectedIndices h hkey hindex =>
    have hitem := List.findSome?_eq_none_iff.mp h key hkey
    rw [KVTable.expected, hindex] at hitem
    exact hdelete key hitem
  | registerCAS name h =>
    rw [ServiceTable.checkRegisterCAS_registry] at h
    simp only [Registry.checkRegisterCAS, if_neg hn] at h
    split at h
    · rename_i r hr
      split_ifs at h with hne
      exact ⟨.registration r, congrArg (Option.map Stored.registration) hr, not_not.mp hne⟩
    · cases h
  | deregisterCAS name h =>
    rw [ServiceTable.checkDeregisterCAS_registry] at h
    simp only [Registry.checkDeregisterCAS] at h
    split at h
    · cases h
    · rename_i r hr
      split_ifs at h with hne
      exact ⟨.registration r, congrArg (Option.map Stored.registration) hr, not_not.mp hne⟩

/-- In every run in which nothing writes a slot between a plain write of it and the
read that follows, the index of the reply is that of the record the write has left,
and what a later compare-and-swap with this index replaces is that record. -/
theorem index_of_own_write (raft : Bool) (f : FSM) (events : List Event)
    (h : (machine raft).Along Undisturbed (start f) events) :
    ∀ r ∈ ((machine raft).run (start f) events).1.answers, ∀ slot n,
      r.request.plainSlot = some slot → r.response.modifyIndex = some n →
        ∃ v, r.own = some (slot, v) ∧ v.modifyIndex = n ∧
          (CasAccepts ((machine raft).run (start f) events).1.fsm n slot →
            ((machine raft).run (start f) events).1.fsm.replica.stored slot = some v) := by
  have hstart : Inv (start f) := ⟨fun t ht => (nomatch ht), fun r hr => (nomatch hr)⟩
  have hinv : Inv ((machine raft).run (start f) events).1 := by
    refine (machine raft).invariant (fun s e hs he => ?_) hstart h
    exact hs.step raft he
  intro r hr slot n hslot hn
  obtain ⟨v, hown, hindex, hv⟩ := hinv.answers r hr slot n hslot hn
  refine ⟨v, hown, hindex, fun hcas => ?_⟩
  have hpos : n ≠ 0 := by
    rintro rfl
    have hpos : 0 < v.modifyIndex.toNat := hv.pos
    rw [hindex] at hpos
    exact absurd hpos (by decide)
  obtain ⟨v', hstored, hsame⟩ := hcas.stored hpos
  have heq : v' = v := hv.only v' hstored (by
    change v'.modifyIndex.toNat = v.modifyIndex.toNat
    rw [hsame, hindex])
  rw [hstored, heq]

/-- An operation on a node without Raft. -/
def calm : Moment :=
  { isLeader := false, leaderAddr := [], refusal := none
    env := Surroundings.leader.env 0, choice := Surroundings.leader.choice 0 }

def putMode (value : GoString) : Request := .kvSet (str "mode") (some ⟨value, none, 0⟩)

/-- One client's write: the operation, the read, the reply. -/
def oneWrite : List Event := [.request (putMode (str "on")), .resume 0 calm, .resume 0 calm, .resume 0 calm]

theorem undisturbed_oneWrite : (machine false).Along Undisturbed (start (.fresh 0)) oneWrite := by
  refine ⟨⟨?_, ?_, ?_⟩, ⟨?_, ?_, ?_⟩, ⟨?_, ?_, ?_⟩, ⟨?_, ?_, ?_⟩, trivial⟩
  · decide
  · trivial
  · trivial
  · decide
  · rintro t ⟨⟩ slot ⟨⟩
    trivial
  · rintro op ⟨⟩
    show _ < _
    decide
  · decide
  · rintro t ⟨⟩ slot ⟨⟩
    trivial
  · rintro op ⟨⟩
    trivial
  · decide
  · rintro t ⟨⟩ slot ⟨⟩
    trivial
  · rintro op ⟨⟩

theorem index_of_own_write_one_client :
    ((machine false).run (start (.fresh 0)) oneWrite).1.answers.map
        (fun r => (r.own, r.response.modifyIndex)) =
      [(some (.key (str "mode"), .entry ⟨str "on", 1, 1, 0⟩), some 1)] ∧
    ∀ r ∈ ((machine false).run (start (.fresh 0)) oneWrite).1.answers, ∀ slot n,
      r.request.plainSlot = some slot → r.response.modifyIndex = some n →
        ∃ v, r.own = some (slot, v) ∧ v.modifyIndex = n ∧
          (CasAccepts ((machine false).run (start (.fresh 0)) oneWrite).1.fsm n slot →
            ((machine false).run (start (.fresh 0)) oneWrite).1.fsm.replica.stored slot =
              some v) :=
  ⟨by decide, index_of_own_write false (.fresh 0) oneWrite undisturbed_oneWrite⟩

/-- Two clients write `mode`, and the first one reads after the second has written:
it is told the other's index, and its compare-and-swap replaces the other's entry. -/
def twoWrites : List Event :=
  [.request (putMode (str "on")), .request (putMode (str "off")), .resume 0 calm, .resume 1 calm,
    .resume 0 calm, .resume 0 calm]

theorem index_of_other_write :
    ((machine false).run (start (.fresh 0)) twoWrites).1.answers.map
        (fun r => (r.own, r.response.modifyIndex)) =
      [(some (.key (str "mode"), .entry ⟨str "on", 1, 1, 0⟩), some 2)] ∧
    CasAccepts ((machine false).run (start (.fresh 0)) twoWrites).1.fsm 2 (.key (str "mode")) ∧
    ((machine false).run (start (.fresh 0)) twoWrites).1.fsm.replica.stored (.key (str "mode")) =
      some (.entry ⟨str "off", 2, 1, 0⟩) := by
  refine ⟨by decide, .setCAS _ (by decide), by decide⟩

end Desk

end Konsul
