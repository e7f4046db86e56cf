import Konsul.Handlers.Batch

/-!
# Requests and the operations of their handlers

On a node with Raft every handler but one leaves the node's own stores alone:
whatever its operations answer, it only proposes commands and reads.
-/

namespace Konsul

open GoLib

/-! ### Requests -/

/-- A request to a key, service, batch, health check or agent endpoint. -/
inductive Request where
  | kvSet (key : GoString) (body : Option KVSetBody)
  | kvDelete (key : GoString) (cas : CasParam)
  | register (body : Option RegisterBody)
  | deregister (name : GoString) (cas : CasParam)
  | heartbeat (name : GoString)
  | updateTTLCheck (checkID : GoString)
  | addCheck (body : Option CheckDefinition)
  | batchKVSet (body : Option (GoMap GoString GoString))
  | batchKVDelete (body : Option (List GoString))
  | batchKVSetCAS (body : Option BatchHandler.BatchKVSetCASRequest)
  | batchKVDeleteCAS (body : Option BatchHandler.BatchKVDeleteCASRequest)
  | batchServiceRegister (body : Option (List Service))
  | batchServiceDeregister (body : Option (List GoString))
  | agentBatchUpdate (body : Option BatchUpdate)
  | agentRegister (id : Option GoString)
  | agentHealthUpdate (parses : Bool)
  /-- An endpoint that reads the stores and answers. -/
  | read (answer : FSM → Response)

/-- The handler of a request on a node with Raft. -/
def Request.handler : Request → Handler Response
  | kvSet key body => KVHandler.set true key body
  | kvDelete key cas => KVHandler.delete true key cas
  | register body => ServiceHandler.register true body
  | deregister name cas => ServiceHandler.deregister true name cas
  | heartbeat name => ServiceHandler.heartbeat true name
  | updateTTLCheck checkID => HealthCheckHandler.updateTTLCheck true checkID
  | addCheck body => HealthCheckHandler.addCheck body
  | batchKVSet body => BatchHandler.batchKVSet true body
  | batchKVDelete body => BatchHandler.batchKVDelete true body
  | batchKVSetCAS body => BatchHandler.batchKVSetCAS true body
  | batchKVDeleteCAS body => BatchHandler.batchKVDeleteCAS true body
  | batchServiceRegister body => BatchHandler.batchServiceRegister true body
  | batchServiceDeregister body => BatchHandler.batchServiceDeregister true body
  | agentBatchUpdate body => AgentHandlers.handleBatchUpdate body
  | agentRegister id => AgentHandlers.handleAgentRegister id
  | agentHealthUpdate parses => AgentHandlers.handleHealthUpdate parses
  | read answer => Program.perform (Op.view answer)

/-! ### The operations of the handlers -/

/-- Operations that leave the node's own stores alone. -/
def Op.ThroughLog : Op → Prop
  | .kvStore _ => False
  | .serviceStore _ => False
  | _ => True

/-- Operations a handler can come to: those, and the two calls of the agent protocol. -/
def Op.Reachable : Op → Prop
  | .kvStore _ => False
  | .serviceStore (.register _) => True
  | .serviceStore (.deregister _) => True
  | .serviceStore _ => False
  | _ => True

theorem Op.ThroughLog.reachable {op : Op} (h : op.ThroughLog) : op.Reachable := by
  cases op with
  | kvStore c => exact h
  | serviceStore c => exact h.elim
  | _ => trivial

namespace Node

theorem only_applyEntry (c : Command) : (applyEntry c).Only Op.ThroughLog :=
  Program.only_perform trivial

theorem only_leaderAddr : leaderAddr.Only Op.ThroughLog := Program.only_perform trivial

theorem only_applyCommand (c : Command) : (applyCommand c).Only Op.ThroughLog := by
  refine Program.only_bind (only_applyEntry c) fun r => ?_
  cases r <;> trivial

end Node

open Program (only_bind)

theorem only_checkLeaderForWrite : (checkLeaderForWrite true).Only Op.ThroughLog := by
  refine only_bind (Program.only_perform trivial) fun leader => ?_
  split
  · trivial
  · refine only_bind Node.only_leaderAddr fun addr => ?_
    split <;> trivial

/-- What becomes of an error of the log. -/
theorem only_errReply {R : Type} (known err : GoError) (redirected : GoString → R) (refused : R) :
    (if GoError.is known err then (do return redirected (← Node.leaderAddr)) else return refused :
      Handler R).Only Op.ThroughLog := by
  split
  · exact only_bind Node.only_leaderAddr fun _ => trivial
  · trivial

theorem only_setReply (key : GoString) (err : Option GoError) (reply : Option KVEntry → Response) :
    (match err with
      | some err => return .replicationFailed err
      | none => do return reply (← Program.perform (Op.getKVEntry key)) :
        Handler Response).Only Op.ThroughLog := by
  cases err with
  | none => exact only_bind (Program.only_perform trivial) fun _ => trivial
  | some err => trivial

theorem only_kvSet (key : GoString) (body : Option KVSetBody) :
    (KVHandler.set true key body).Only Op.ThroughLog := by
  refine only_bind only_checkLeaderForWrite fun status => ?_
  split
  · trivial
  · split
    · refine only_bind (only_bind (Node.only_applyEntry _) fun _ => trivial) fun r => ?_
      obtain ⟨_, err⟩ := r
      cases err with
      | none => trivial
      | some err => exact only_errReply _ err _ _
    · dsimp only
      split
      · split
        · exact only_bind (Node.only_applyCommand _) fun err => only_setReply key err _
        · exact only_bind (Node.only_applyCommand _) fun err => only_setReply key err _
      · contradiction

theorem only_kvDelete (key : GoString) (cas : CasParam) :
    (KVHandler.delete true key cas).Only Op.ThroughLog := by
  refine only_bind only_checkLeaderForWrite fun status => ?_
  cases cas with
  | invalid => trivial
  | index expectedIndex =>
    refine only_bind (only_bind (Node.only_applyEntry _) fun _ => trivial) fun err => ?_
    cases err with
    | none => trivial
    | some err => exact only_errReply _ err _ _
  | absent =>
    refine only_bind (Node.only_applyCommand _) fun err => ?_
    cases err <;> trivial

theorem only_register (body : Option RegisterBody) :
    (ServiceHandler.register true body).Only Op.ThroughLog := by
  refine only_bind only_checkLeaderForWrite fun status => ?_
  split
  · trivial
  · refine only_bind (Node.only_applyEntry _) fun r => ?_
    cases r with
    | error err => exact only_errReply _ err _ _
    | ok resp => trivial
  · refine only_bind (Node.only_applyCommand _) fun err => ?_
    cases err with
    | some err => trivial
    | none =>
      simp only [Option.map_none, Program.pure_eq, Program.ret_bind]
      exact only_bind (Program.only_perform trivial) fun _ => trivial

theorem only_deregister (name : GoString) (cas : CasParam) :
    (ServiceHandler.deregister true name cas).Only Op.ThroughLog := by
  refine only_bind only_checkLeaderForWrite fun status => ?_
  cases cas with
  | invalid => trivial
  | index expectedIndex =>
    refine only_bind (Node.only_applyEntry _) fun r => ?_
    cases r with
    | error err => exact only_errReply _ err _ _
    | ok resp => trivial
  | absent =>
    refine only_bind (Node.only_applyCommand _) fun err => ?_
    cases err <;> trivial

theorem only_heartbeat (name : GoString) :
    (ServiceHandler.heartbeat true name).Only Op.ThroughLog := by
  refine only_bind only_checkLeaderForWrite fun status => ?_
  refine only_bind (Node.only_applyCommand _) fun err => ?_
  cases err <;> trivial

theorem only_updateTTLCheck (checkID : GoString) :
    (HealthCheckHandler.updateTTLCheck true checkID).Only Op.ThroughLog := by
  refine only_bind (Node.only_applyEntry _) fun r => ?_
  cases r with
  | error err => exact only_errReply _ err _ _
  | ok resp => trivial

namespace BatchHandler

theorem only_applyBatch (c : Command) (failed : Response) :
    (applyBatch c failed).Only Op.ThroughLog := by
  refine only_bind (Node.only_applyEntry _) fun r => ?_
  cases r with
  | error err => exact only_errReply _ err _ _
  | ok resp => trivial

theorem only_batchKVSet (body : Option (GoMap GoString GoString)) :
    (batchKVSet true body).Only Op.ThroughLog := by
  unfold batchKVSet
  split
  · trivial
  · split
    · trivial
    · split
      · trivial
      · refine only_bind (only_applyBatch _ _) fun failure => ?_
        cases failure <;> trivial

theorem only_batchKVDelete (body : Option (List GoString)) :
    (batchKVDelete true body).Only Op.ThroughLog := by
  unfold batchKVDelete
  split
  · trivial
  · split
    · trivial
    · split
      · trivial
      · refine only_bind (only_applyBatch _ _) fun failure => ?_
        cases failure <;> trivial

theorem only_batchKVSetCAS (body : Option BatchKVSetCASRequest) :
    (batchKVSetCAS true body).Only Op.ThroughLog := by
  unfold batchKVSetCAS
  split
  · trivial
  · split
    · trivial
    · split
      · trivial
      · split
        · trivial
        · refine only_bind (only_bind (Node.only_applyEntry _) fun _ => trivial) fun r => ?_
          obtain ⟨_, err⟩ := r
          cases err with
          | none => trivial
          | some err => exact only_errReply _ err _ _

theorem only_batchKVDeleteCAS (body : Option BatchKVDeleteCASRequest) :
    (batchKVDeleteCAS true body).Only Op.ThroughLog := by
  unfold batchKVDeleteCAS
  split
  · trivial
  · split
    · trivial
    · split
      · trivial
      · split
        · trivial
        · refine only_bind (only_bind (Node.only_applyEntry _) fun _ => trivial) fun err => ?_
          cases err with
          | none => trivial
          | some err => exact only_errReply _ err _ _

theorem only_registerOne (svc : Service) : (registerOne true svc).Only Op.ThroughLog := by
  unfold registerOne
  split
  · trivial
  · refine only_bind (Node.only_applyEntry _) fun r => ?_
    cases r with
    | error err => exact only_errReply _ err _ _
    | ok resp => trivial

theorem only_registerAll (services : List Service) (registered failed : List GoString) :
    (registerAll true registered failed services).Only Op.ThroughLog := by
  induction services generalizing registered failed with
  | nil => trivial
  | cons svc services ih =>
    refine only_bind (only_registerOne svc) fun outcome => ?_
    cases outcome with
    | done name => exact ih _ _
    | failed name => exact ih _ _
    | stopped response => trivial

theorem only_batchServiceRegister (body : Option (List Service)) :
    (batchServiceRegister true body).Only Op.ThroughLog := by
  unfold batchServiceRegister
  split
  · trivial
  · split
    · trivial
    · split
      · trivial
      · exact only_registerAll _ _ _

theorem only_deregisterOne (name : GoString) :
    (deregisterOne true name).Only Op.ThroughLog := by
  refine only_bind (Node.only_applyEntry _) fun r => ?_
  cases r with
  | error err => exact only_errReply _ err _ _
  | ok resp => trivial

theorem only_deregisterAll (names deregistered : List GoString) :
    (deregisterAll true deregistered names).Only Op.ThroughLog := by
  induction names generalizing deregistered with
  | nil => trivial
  | cons name names ih =>
    refine only_bind (only_deregisterOne name) fun outcome => ?_
    cases outcome with
    | done name => exact ih _
    | failed name => exact ih _
    | stopped response => trivial

theorem only_batchServiceDeregister (body : Option (List GoString)) :
    (batchServiceDeregister true body).Only Op.ThroughLog := by
  unfold batchServiceDeregister
  split
  · trivial
  · split
    · trivial
    · split
      · trivial
      · exact only_deregisterAll _ _

end BatchHandler

theorem only_processUpdate (update : ServiceUpdate) :
    (AgentHandlers.processUpdate update).Only Op.Reachable := by
  unfold AgentHandlers.processUpdate
  split
  · split
    · exact only_bind (Program.only_perform trivial) fun _ => trivial
    · trivial
  · split
    · exact only_bind (Program.only_perform trivial) fun _ => trivial
    · trivial

theorem only_processUpdates (updates : List ServiceUpdate) :
    (AgentHandlers.processUpdates updates).Only Op.Reachable := by
  induction updates with
  | nil => trivial
  | cons update updates ih => exact only_bind (only_processUpdate update) fun _ => ih

theorem only_handleBatchUpdate (body : Option BatchUpdate) :
    (AgentHandlers.handleBatchUpdate body).Only Op.Reachable := by
  cases body with
  | none => trivial
  | some req => exact only_bind (only_processUpdates req.updates) fun _ => trivial

/-- The update of an agent is the only request whose handler calls a store. -/
theorem Request.only_throughLog {r : Request} (hr : ∀ body, r ≠ agentBatchUpdate body) :
    r.handler.Only Op.ThroughLog := by
  cases r with
  | kvSet key body => exact only_kvSet key body
  | kvDelete key cas => exact only_kvDelete key cas
  | register body => exact only_register body
  | deregister name cas => exact only_deregister name cas
  | heartbeat name => exact only_heartbeat name
  | updateTTLCheck checkID => exact only_updateTTLCheck checkID
  | addCheck body => cases body <;> trivial
  | batchKVSet body => exact BatchHandler.only_batchKVSet body
  | batchKVDelete body => exact BatchHandler.only_batchKVDelete body
  | batchKVSetCAS body => exact BatchHandler.only_batchKVSetCAS body
  | batchKVDeleteCAS body => exact BatchHandler.only_batchKVDeleteCAS body
  | batchServiceRegister body => exact BatchHandler.only_batchServiceRegister body
  | batchServiceDeregister body => exact BatchHandler.only_batchServiceDeregister body
  | agentBatchUpdate body => exact absurd rfl (hr body)
  | agentRegister id =>
    cases id with
    | none => trivial
    | some id =>
      rw [handler, AgentHandlers.handleAgentRegister]
      split <;> trivial
  | agentHealthUpdate parses => cases parses <;> trivial
  | read answer => exact Program.only_perform trivial

theorem Request.only_reachable (r : Request) : r.handler.Only Op.Reachable := by
  by_cases hr : ∃ body, r = agentBatchUpdate body
  · obtain ⟨body, rfl⟩ := hr
    exact only_handleBatchUpdate body
  · exact (only_throughLog fun body h => hr ⟨body, h⟩).mono fun _ => Op.ThroughLog.reachable

end Konsul
