import Konsul.Handlers.Batch

/-!
# Handlers on a node whose entries are committed

What the leader check, the methods of the node and the compare-and-swap handlers
come to when every command they propose is committed.
-/

namespace Konsul

open GoLib

/-- The status the leader check leaves. -/
def Surroundings.status (L : Surroundings) : ℕ :=
  if L.isLeader then 200 else if L.leaderAddr = [] then 503 else 307

theorem Surroundings.status_eq_iff (L : Surroundings) : L.status = 200 ↔ L.isLeader := by
  unfold status
  split_ifs with h <;> simp [h]

/-- The error in an answer of the state machine; without one the command was applied. -/
def FsmResponse.error : FsmResponse → Option GoError
  | .err e => e
  | .cas r => r.err

variable (L : Surroundings) (w : World)

theorem run_checkLeaderForWrite : (checkLeaderForWrite true).run (exec L) w = (w, L.status) := by
  have hleader : (Node.isLeader).run (exec L) w = (w, L.isLeader) := rfl
  have haddr : (Node.leaderAddr).run (exec L) w = (w, L.leaderAddr) := rfl
  simp only [checkLeaderForWrite, Surroundings.status, ite_true, Program.run_bind, hleader]
  split_ifs with h
  · rfl
  · simp only [Program.run_bind, haddr, if_pos ‹_›]
    rfl
  · simp only [Program.run_bind, haddr, if_neg ‹_›]
    rfl

/-- The reply of a handler that goes by the answer of the state machine. -/
def replyTo (leader : GoString) (refused : GoError → Response) (applied : Response) :
    Option GoError → Response
  | some err => if GoError.is errNotLeader err then .notLeader leader else refused err
  | none => applied

theorem run_refused (err : GoError) (r : Response) :
    (if (true && GoError.is errNotLeader err) = true then
        do return .notLeader (← Node.leaderAddr)
      else return r : Handler Response).run (exec L) w =
      (w, if GoError.is errNotLeader err then .notLeader L.leaderAddr else r) := by
  rw [Bool.true_and]
  split_ifs <;> rfl

variable {L w}

namespace Node

theorem run_applyEntry (c : Command) :
    (applyEntry c).run (exec L) w = (w.committed (w.commit L c), .ok (w.commit L c).answer) := rfl

theorem run_applyCommand (c : Command) :
    (applyCommand c).run (exec L) w = (w.committed (w.commit L c), none) := rfl

end Node

/-! ### Compare-and-swap -/

section

variable {r : CASResult}

theorem KVHandler.run_set_cas {key value : GoString} (flags : UInt64) {expectedIndex : UInt64}
    (h : (w.commit L (.kv (.setCAS key value expectedIndex))).answer = .cas r) :
    (KVHandler.set true key (some ⟨value, some expectedIndex, flags⟩)).run (exec L) w =
      (w.committed (w.commit L (.kv (.setCAS key value expectedIndex))),
        replyTo L.leaderAddr
          (fun err => casRefused err (.notFound (str "Key not found"))
            (.internalError (str "Failed to set key")))
          (json L.status [(str "message", .text (str "key set")), (str "key", .text key),
            (str "modify_index", .index r.newIndex)]) r.err) := by
  simp only [KVHandler.set, KVHandler.setCAS, Node.kvSetCAS, Program.run_bind,
    run_checkLeaderForWrite, Node.run_applyEntry, h, Node.casResult, ite_true, Program.pure_eq,
    Program.run_ret]
  cases r.err with
  | some err => exact run_refused L _ err _
  | none => rfl

theorem KVHandler.run_delete_cas {key : GoString} {expectedIndex : UInt64}
    (h : (w.commit L (.kv (.deleteCAS key expectedIndex))).answer = .cas r) :
    (KVHandler.delete true key (.index expectedIndex)).run (exec L) w =
      (w.committed (w.commit L (.kv (.deleteCAS key expectedIndex))),
        replyTo L.leaderAddr
          (fun err => casRefused err (.notFound (str "Key not found"))
            (.internalError (str "Failed to delete key")))
          (KVHandler.deleted L.status key) r.err) := by
  simp only [KVHandler.delete, KVHandler.deleteCAS, Node.kvDeleteCAS, Program.run_bind,
    run_checkLeaderForWrite, Node.run_applyEntry, h, Node.casResult, ite_true, Program.pure_eq,
    Program.run_ret]
  cases r.err with
  | some err => exact run_refused L _ err _
  | none => rfl

/-- A batch is refused before the log or goes by the answer of the state machine. -/
theorem BatchHandler.run_batchKVSetCAS {req : BatchKVSetCASRequest}
    (h : (w.commit L (.kv (.batchSetCAS req.items req.expectedIndices))).answer = .cas r) :
    (∃ response, (batchKVSetCAS true (some req)).run (exec L) w = (w, response)) ∨
      (batchKVSetCAS true (some req)).run (exec L) w =
        (w.committed (w.commit L (.kv (.batchSetCAS req.items req.expectedIndices))),
          replyTo L.leaderAddr
            (fun err => casRefused err (.notFound err.error)
              (.internalError (str "Failed to set keys")))
            (json 200 [
              (str "message", .text (str "Successfully set " ++ number req.items.keys.card ++
                str " keys with CAS")),
              (str "new_indices", .indices r.newIndices),
              (str "count", .count req.items.keys.card)]) r.err) := by
  simp only [batchKVSetCAS, ite_true]
  split_ifs
  · exact .inl ⟨_, rfl⟩
  · exact .inl ⟨_, rfl⟩
  · split
    · exact .inl ⟨_, rfl⟩
    · refine .inr ?_
      simp only [Node.kvBatchSetCAS, Program.run_bind, Node.run_applyEntry, h, Node.casResult,
        Program.pure_eq, Program.run_ret]
      cases r.err with
      | some err => exact run_refused L _ err _
      | none => rfl

theorem BatchHandler.run_batchKVDeleteCAS {req : BatchKVDeleteCASRequest}
    (h : (w.commit L (.kv (.batchDeleteCAS req.keys req.expectedIndices))).answer = .cas r) :
    (∃ response, (batchKVDeleteCAS true (some req)).run (exec L) w = (w, response)) ∨
      (batchKVDeleteCAS true (some req)).run (exec L) w =
        (w.committed (w.commit L (.kv (.batchDeleteCAS req.keys req.expectedIndices))),
          replyTo L.leaderAddr
            (fun err => casRefused err (.notFound err.error)
              (.internalError (str "Failed to delete keys")))
            (json 200 [
              (str "message", .text (str "Successfully deleted " ++ number req.keys.length ++
                str " keys with CAS")),
              (str "keys", .texts req.keys),
              (str "count", .count req.keys.length)]) r.err) := by
  simp only [batchKVDeleteCAS, ite_true]
  split_ifs
  · exact .inl ⟨_, rfl⟩
  · exact .inl ⟨_, rfl⟩
  · split
    · exact .inl ⟨_, rfl⟩
    · refine .inr ?_
      simp only [Node.kvBatchDeleteCAS, Program.run_bind, Node.run_applyEntry, h, Node.casResult,
        Program.pure_eq, Program.run_ret]
      cases r.err with
      | some err => exact run_refused L _ err _
      | none => rfl

end

/-- `Register` reports an index 0 whatever the answer is. -/
theorem ServiceHandler.run_register_cas (service : Service) (expectedIndex : UInt64) :
    (ServiceHandler.register true (some ⟨service, some expectedIndex⟩)).run (exec L) w =
      (w.committed (w.commit L (.service (.registerCAS service expectedIndex))),
        registered L.status service 0) := by
  simp only [register, registerCAS, Program.run_bind, run_checkLeaderForWrite,
    Node.run_applyEntry, ite_true, Program.pure_eq, Program.run_ret]
  cases (w.commit L (.service (.registerCAS service expectedIndex))).answer <;> rfl

theorem ServiceHandler.run_deregister_cas (name : GoString) (expectedIndex : UInt64) :
    (ServiceHandler.deregister true name (.index expectedIndex)).run (exec L) w =
      (w.committed (w.commit L (.service (.deregisterCAS name expectedIndex))),
        deregistered L.status name) := by
  simp only [deregister, deregisterCAS, Program.run_bind, run_checkLeaderForWrite,
    Node.run_applyEntry, ite_true, Program.pure_eq, Program.run_ret]

theorem run_kvCas (key value : GoString) (index : ℤ) :
    (kvCas true none key value index).run (exec L) w =
      (w.committed (w.commit L (.kv (.setCAS key value (UInt64.ofInt index)))),
        .ok (some ⟨key, value⟩)) := by
  simp only [kvCas, Program.run_bind, Node.run_applyEntry, ite_true, Program.pure_eq,
    Program.run_ret]

/-! ### Other writes -/

/-- A reply with this status, whatever its body. -/
def Replies (p : Handler Response) (L : Surroundings) (w : World) (c : Command) (status : ℕ) :
    Prop :=
  ∃ body, p.run (exec L) w = (w.committed (w.commit L c), ⟨status, body⟩)

def KVHandler.setCommand (key value : GoString) (flags : UInt64) : Command :=
  .kv (if flags > 0 then .setWithFlags key value flags else .set key value)

theorem KVHandler.replies_set (key value : GoString) (flags : UInt64) :
    Replies (KVHandler.set true key (some ⟨value, none, flags⟩)) L w (setCommand key value flags)
      L.status := by
  simp only [Replies, KVHandler.set, setCommand, Program.run_bind, run_checkLeaderForWrite,
    ite_true]
  split_ifs <;>
    exact ⟨_, rfl⟩

theorem KVHandler.replies_delete (key : GoString) :
    Replies (KVHandler.delete true key .absent) L w (.kv (.delete key)) L.status := by
  simp only [Replies, KVHandler.delete, Program.run_bind, run_checkLeaderForWrite, ite_true]
  exact ⟨_, rfl⟩

theorem ServiceHandler.replies_register (service : Service) :
    Replies (ServiceHandler.register true (some ⟨service, none⟩)) L w
      (.service (.register { service with checks := [] })) L.status := by
  simp only [Replies, ServiceHandler.register, Program.run_bind, run_checkLeaderForWrite, ite_true]
  exact ⟨_, rfl⟩

theorem ServiceHandler.replies_deregister (name : GoString) :
    Replies (ServiceHandler.deregister true name .absent) L w (.service (.deregister name))
      L.status := by
  simp only [Replies, ServiceHandler.deregister, Program.run_bind, run_checkLeaderForWrite,
    ite_true]
  exact ⟨_, rfl⟩

theorem ServiceHandler.replies_heartbeat (name : GoString) :
    Replies (ServiceHandler.heartbeat true name) L w (.service (.heartbeat name)) L.status := by
  simp only [Replies, ServiceHandler.heartbeat, Program.run_bind, run_checkLeaderForWrite,
    ite_true]
  exact ⟨_, rfl⟩

theorem HealthCheckHandler.replies_updateTTLCheck (checkID : GoString) :
    Replies (HealthCheckHandler.updateTTLCheck true checkID) L w (.service (.ttlUpdate checkID))
      200 := by
  simp only [Replies, HealthCheckHandler.updateTTLCheck, ite_true]
  exact ⟨_, rfl⟩

namespace BatchHandler

theorem run_batchKVSet (items : GoMap GoString GoString) :
    (∃ response, (batchKVSet true (some items)).run (exec L) w = (w, response)) ∨
      Replies (batchKVSet true (some items)) L w (.kv (.batchSet items)) 200 := by
  simp only [Replies, batchKVSet, ite_true]
  split_ifs
  · exact .inl ⟨_, rfl⟩
  · exact .inl ⟨_, rfl⟩
  · exact .inr ⟨_, rfl⟩

theorem run_batchKVDelete (keys : List GoString) :
    (∃ response, (batchKVDelete true (some keys)).run (exec L) w = (w, response)) ∨
      Replies (batchKVDelete true (some keys)) L w (.kv (.batchDelete keys)) 200 := by
  simp only [Replies, batchKVDelete, ite_true]
  split_ifs
  · exact .inl ⟨_, rfl⟩
  · exact .inl ⟨_, rfl⟩
  · exact .inr ⟨_, rfl⟩

/-- A reply that has the name in a list. -/
def Lists (r : Response) (field : String) (name : GoString) : Prop :=
  ∃ names, r.field (str field) = some (.texts names) ∧ name ∈ names

theorem run_registerOne (svc : Service) :
    (∃ name, (registerOne true svc).run (exec L) w = (w, .failed name)) ∨
      (registerOne true svc).run (exec L) w =
        (w.committed (w.commit L (.service (.register svc))), .done svc.name) := by
  unfold registerOne
  split
  · exact .inl ⟨_, rfl⟩
  · exact .inr rfl

theorem commits_registerAll (services : List Service) (registered failed : List GoString)
    (w : World) :
    (∀ name ∈ registered,
      Lists ((registerAll true registered failed services).run (exec L) w).2 "registered" name) ∧
    ∀ e ∈ ((registerAll true registered failed services).run (exec L) w).1.commits,
      e ∈ w.commits ∨ ∃ (w' : World) (svc : Service),
        e = w'.commit L (.service (.register svc)) ∧
          Lists ((registerAll true registered failed services).run (exec L) w).2 "registered"
            svc.name := by
  induction services generalizing registered failed w with
  | nil => exact ⟨fun name hname => ⟨registered, rfl, hname⟩, fun e he => .inl he⟩
  | cons svc services ih =>
    simp only [registerAll, Program.run_bind]
    rcases run_registerOne (L := L) (w := w) svc with ⟨name, h⟩ | h
    · rw [h]
      exact ih registered (failed ++ [name]) w
    · rw [h]
      obtain ⟨hlists, hcommits⟩ := ih (registered ++ [svc.name]) failed
        (w.committed (w.commit L (.service (.register svc))))
      refine ⟨fun name hname => hlists name (List.mem_append_left _ hname), fun e he => ?_⟩
      rcases hcommits e he with he | he
      · rcases List.mem_append.mp he with he | he
        · exact .inl he
        · refine .inr ⟨w, svc, List.mem_singleton.mp he, ?_⟩
          exact hlists svc.name (List.mem_append_right _ (List.mem_singleton_self _))
      · exact .inr he

theorem commits_batchServiceRegister (services : List Service) (w : World) :
    ∀ e ∈ ((batchServiceRegister true (some services)).run (exec L) w).1.commits,
      e ∈ w.commits ∨ ∃ (w' : World) (svc : Service),
        e = w'.commit L (.service (.register svc)) ∧
          Lists ((batchServiceRegister true (some services)).run (exec L) w).2 "registered"
            svc.name := by
  simp only [batchServiceRegister]
  split_ifs
  · exact fun e he => .inl he
  · exact fun e he => .inl he
  · exact (commits_registerAll services [] [] w).2

theorem commits_deregisterAll (names deregistered : List GoString) (w : World) :
    (∀ name ∈ deregistered,
      Lists ((deregisterAll true deregistered names).run (exec L) w).2 "deregistered" name) ∧
    ∀ e ∈ ((deregisterAll true deregistered names).run (exec L) w).1.commits,
      e ∈ w.commits ∨ ∃ (w' : World) (name : GoString),
        e = w'.commit L (.service (.deregister name)) ∧
          Lists ((deregisterAll true deregistered names).run (exec L) w).2 "deregistered" name := by
  induction names generalizing deregistered w with
  | nil => exact ⟨fun name hname => ⟨deregistered, rfl, hname⟩, fun e he => .inl he⟩
  | cons name names ih =>
    have hone : (deregisterOne true name).run (exec L) w =
        (w.committed (w.commit L (.service (.deregister name))), .done name) := rfl
    simp only [deregisterAll, Program.run_bind, hone]
    obtain ⟨hlists, hcommits⟩ := ih (deregistered ++ [name])
      (w.committed (w.commit L (.service (.deregister name))))
    refine ⟨fun name hname => hlists name (List.mem_append_left _ hname), fun e he => ?_⟩
    rcases hcommits e he with he | he
    · rcases List.mem_append.mp he with he | he
      · exact .inl he
      · refine .inr ⟨w, name, List.mem_singleton.mp he, ?_⟩
        exact hlists name (List.mem_append_right _ (List.mem_singleton_self _))
    · exact .inr he

theorem commits_batchServiceDeregister (names : List GoString) (w : World) :
    ∀ e ∈ ((batchServiceDeregister true (some names)).run (exec L) w).1.commits,
      e ∈ w.commits ∨ ∃ (w' : World) (name : GoString),
        e = w'.commit L (.service (.deregister name)) ∧
          Lists ((batchServiceDeregister true (some names)).run (exec L) w).2 "deregistered"
            name := by
  simp only [batchServiceDeregister]
  split_ifs
  · exact fun e he => .inl he
  · exact fun e he => .inl he
  · exact (commits_deregisterAll names [] w).2

end BatchHandler

end Konsul
