import Konsul.Handlers.Leadership

/-!
# Which writes are refused cleanly

Two error variables say that a node is not the leader, one of the Raft library and one of
this repository, and each handler compares the error of a write with one of them, or with
none. `Request.CleanWhen` says when that is right.
-/

namespace Konsul

open GoLib

variable {τ : ℕ → RaftMoment} {calls : ℕ → (c : StoreCall) → c.Answer}

open Trace

/-! ### Handlers that propose one command -/

theorem proposesOnce_unknown {p : Handler Response} {c : Command}
    {next : Except GoError FsmResponse → Handler Response} (hp : p = .call (.applyEntry c) next)
    (hquiet : ∀ r, (next r).Only Op.Quiet)
    (hreply : ∀ err t, ((next (.error err)).run (execOp τ calls) t).2.status = 500) :
    ProposesOnce τ calls none p := by
  refine ⟨c, next, hp, hquiet, fun err t => iff_of_false ?_ ?_⟩
  · exact Response.not_isNotLeader (hreply err t) (by decide)
  · rintro ⟨known, h, -⟩
    exact nomatch h

/-- A handler that answers an error that is `known` with the leader, and others as `refused`
says. -/
theorem proposesOnce_known {p : Handler Response} {c : Command} {known : GoError}
    {next : Except GoError FsmResponse → Handler Response} (refused : GoError → Response)
    (hp : p = .call (.applyEntry c) next)
    (hnext : ∀ err, next (.error err) =
      if GoError.is known err then (do return .notLeader (← Node.leaderAddr))
      else .ret (refused err))
    (hok : ∀ resp, (next (.ok resp)).Only Op.Quiet)
    (hrefused : ∀ err, ¬ (refused err).IsNotLeader) :
    ProposesOnce τ calls (some known) p := by
  have hleader : (do return .notLeader (← Node.leaderAddr) : Handler Response).Only Op.Quiet :=
    Program.only_bind (Program.only_perform trivial) fun _ => trivial
  refine ⟨c, next, hp, fun r => ?_, fun err t => ?_⟩
  · cases r with
    | ok resp => exact hok resp
    | error err =>
      rw [hnext]
      split_ifs
      · exact hleader
      · trivial
  · rw [hnext]
    by_cases his : GoError.is known err = true
    · rw [if_pos his]
      exact iff_of_true (Response.isNotLeader_notLeader _) ⟨known, rfl, his⟩
    · rw [if_neg his]
      refine iff_of_false (hrefused err) ?_
      rintro ⟨known', hknown, his'⟩
      cases hknown
      exact his his'

theorem not_isNotLeader_casRefused (err : GoError) {notFound failed : Response}
    (hnotFound : ¬ notFound.IsNotLeader) (hfailed : ¬ failed.IsNotLeader) :
    ¬ (casRefused err notFound failed).IsNotLeader := by
  unfold casRefused
  split_ifs
  · exact Response.not_isNotLeader (n := 409) rfl (by decide)
  · exact hnotFound
  · exact hfailed

theorem not_isNotLeader_badRequest (message : GoString) :
    ¬ (Response.badRequest message).IsNotLeader :=
  Response.not_isNotLeader (n := 400) rfl (by decide)

theorem not_isNotLeader_notFound (message : GoString) :
    ¬ (Response.notFound message).IsNotLeader :=
  Response.not_isNotLeader (n := 404) rfl (by decide)

theorem not_isNotLeader_internalError (message : GoString) :
    ¬ (Response.internalError message).IsNotLeader :=
  Response.not_isNotLeader (n := 500) rfl (by decide)

theorem quiet_notLeader :
    (do return .notLeader (← Node.leaderAddr) : Handler Response).Only Op.Quiet :=
  Program.only_bind (Program.only_perform trivial) fun _ => trivial

/-- Any error of a compare-and-swap operation is answered without a check or a write. -/
theorem quiet_casReply (err : Option GoError) (refused : GoError → Response) (done : Response) :
    (match err with
      | some err =>
        if true && GoError.is errNotLeader err then (do return .notLeader (← Node.leaderAddr))
        else return refused err
      | none => return done : Handler Response).Only Op.Quiet := by
  cases err with
  | none => trivial
  | some err =>
    dsimp only
    split
    · exact quiet_notLeader
    · trivial

theorem proposesOnce_plain {c : Command} {done : Handler Response} (hdone : done.Only Op.Quiet) :
    ProposesOnce τ calls none (do
      match ← Node.applyCommand c with
      | some err => return .replicationFailed err
      | none => done) := by
  refine proposesOnce_unknown (c := c) rfl (fun r => ?_) fun err t => rfl
  cases r with
  | error err => trivial
  | ok resp => exact hdone

theorem plain_clean_iff {c : ℕ → Command} {done : ℕ → Handler Response}
    (hdone : ∀ status, (done status).Only Op.Quiet) :
    CleanRun ((checkLeaderForWrite true >>= fun status => do
        match ← Node.applyCommand (c status) with
        | some err => return .replicationFailed err
        | none => done status).run (execOp τ calls) .start) ↔ CheckedClean τ fun _ => False := by
  rw [← known_none]
  exact checked_clean_iff fun status => proposesOnce_plain (hdone status)

theorem guard_clean_iff {P : Prop} [Decidable P] {r : Response} {p : Handler Response} :
    CleanRun ((if P then .ret r else p).run (execOp τ calls) .start) ↔
      (¬ P → CleanRun (p.run (execOp τ calls) .start)) := by
  by_cases hP : P
  · rw [if_pos hP]
    exact iff_of_true (quiet_clean trivial) fun h => absurd hP h
  · rw [if_neg hP]
    exact (imp_iff_right hP).symm

namespace KVHandler

theorem proposesOnce_setCAS (status : ℕ) (key value : GoString) (expectedIndex : UInt64) :
    ProposesOnce τ calls (some errNotLeader) (setCAS true status key value expectedIndex) := by
  refine proposesOnce_known (c := .kv (.setCAS key value expectedIndex))
    (fun err => casRefused err (.notFound (str "Key not found"))
      (.internalError (str "Failed to set key"))) rfl (fun _ => rfl) (fun resp => ?_) fun err =>
    not_isNotLeader_casRefused err (not_isNotLeader_notFound _) (not_isNotLeader_internalError _)
  exact quiet_casReply _ _ _

theorem set_clean_iff (key : GoString) (body : KVSetBody) :
    CleanRun ((set true key (some body)).run (execOp τ calls) .start) ↔
      CheckedClean τ (if body.cas.isSome then Attempt.ByNode else fun _ => False) := by
  obtain ⟨value, cas, flags⟩ := body
  cases cas with
  | some expectedIndex =>
    rw [Option.isSome_some, if_pos rfl, ← known_errNotLeader]
    exact checked_clean_iff fun status => proposesOnce_setCAS status key value expectedIndex
  | none =>
    rw [Option.isSome_none, if_neg Bool.false_ne_true, ← known_none]
    refine checked_clean_iff fun status => ?_
    dsimp only [ite_true]
    by_cases hflags : flags > 0
    · rw [if_pos hflags]
      exact proposesOnce_plain (Program.only_bind (Program.only_perform trivial) fun _ => trivial)
    · rw [if_neg hflags]
      exact proposesOnce_plain (Program.only_bind (Program.only_perform trivial) fun _ => trivial)

theorem proposesOnce_deleteCAS (status : ℕ) (key : GoString) (expectedIndex : UInt64) :
    ProposesOnce τ calls (some errNotLeader) (deleteCAS true status key expectedIndex) := by
  refine proposesOnce_known (c := .kv (.deleteCAS key expectedIndex))
    (fun err => casRefused err (.notFound (str "Key not found"))
      (.internalError (str "Failed to delete key"))) rfl (fun _ => rfl) (fun resp => ?_) fun err =>
    not_isNotLeader_casRefused err (not_isNotLeader_notFound _) (not_isNotLeader_internalError _)
  exact quiet_casReply _ _ _

theorem deleteCAS_clean_iff (key : GoString) (expectedIndex : UInt64) :
    CleanRun ((delete true key (.index expectedIndex)).run (execOp τ calls) .start) ↔
      CheckedClean τ Attempt.ByNode := by
  rw [← known_errNotLeader]
  exact checked_clean_iff fun status => proposesOnce_deleteCAS status key expectedIndex

end KVHandler

/-! ### Services and checks -/

namespace ServiceHandler

theorem proposesOnce_registerCAS (status : ℕ) (svc : Service) (expectedIndex : UInt64) :
    ProposesOnce τ calls (some hashiErrNotLeader) (registerCAS true status svc expectedIndex) := by
  refine proposesOnce_known (c := .service (.registerCAS svc expectedIndex))
    (fun err => casRefused err (.notFound (str "Service not found"))
      (.badRequest err.error)) rfl (fun _ => rfl) (fun _ => trivial) fun err =>
    not_isNotLeader_casRefused err (not_isNotLeader_notFound _) (not_isNotLeader_badRequest _)

theorem proposesOnce_deregisterCAS (status : ℕ) (name : GoString) (expectedIndex : UInt64) :
    ProposesOnce τ calls (some hashiErrNotLeader)
      (deregisterCAS true status name expectedIndex) := by
  refine proposesOnce_known (c := .service (.deregisterCAS name expectedIndex))
    (fun err => casRefused err (.notFound (str "Service not found"))
      (.internalError (str "Failed to deregister service"))) rfl (fun _ => rfl)
    (fun _ => trivial) fun err =>
    not_isNotLeader_casRefused err (not_isNotLeader_notFound _) (not_isNotLeader_internalError _)

theorem proposesOnce_register (status : ℕ) (svc : Service) :
    ProposesOnce τ calls none (do
      let err ← Node.serviceRegister svc.name svc.address svc.port svc.tags svc.metadata
      match err.map Response.replicationFailed with
      | some response => return response
      | none =>
        let entry ← Program.perform (Op.getServiceEntry svc.name)
        return registered status svc ((entry.map ServiceEntry.modifyIndex).getD 0)) := by
  refine proposesOnce_unknown (c := .service (.register { svc with checks := [] })) rfl
    (fun r => ?_) fun err t => rfl
  cases r with
  | error err => trivial
  | ok resp => exact And.intro trivial fun _ => trivial

theorem register_clean_iff (body : RegisterBody) :
    CleanRun ((register true (some body)).run (execOp τ calls) .start) ↔
      CheckedClean τ (if body.cas.isSome then Attempt.ByLibrary else fun _ => False) := by
  obtain ⟨svc, cas⟩ := body
  cases cas with
  | some expectedIndex =>
    rw [Option.isSome_some, if_pos rfl, ← known_hashiErrNotLeader]
    exact checked_clean_iff fun status => proposesOnce_registerCAS status svc expectedIndex
  | none =>
    rw [Option.isSome_none, if_neg Bool.false_ne_true, ← known_none]
    exact checked_clean_iff fun status => proposesOnce_register status svc

theorem deregisterCAS_clean_iff (name : GoString) (expectedIndex : UInt64) :
    CleanRun ((deregister true name (.index expectedIndex)).run (execOp τ calls) .start) ↔
      CheckedClean τ Attempt.ByLibrary := by
  rw [← known_hashiErrNotLeader]
  exact checked_clean_iff fun status => proposesOnce_deregisterCAS status name expectedIndex

end ServiceHandler

theorem proposesOnce_updateTTLCheck (checkID : GoString) :
    ProposesOnce τ calls (some hashiErrNotLeader)
      (HealthCheckHandler.updateTTLCheck true checkID) :=
  proposesOnce_known (c := .service (.ttlUpdate checkID))
    (fun err => .badRequest err.error) rfl (fun _ => rfl) (fun _ => trivial)
    fun _ => not_isNotLeader_badRequest _

theorem updateTTLCheck_clean_iff (checkID : GoString) :
    CleanRun ((HealthCheckHandler.updateTTLCheck true checkID).run (execOp τ calls) .start) ↔
      UncheckedClean τ Attempt.ByLibrary := by
  rw [← known_hashiErrNotLeader]
  exact (proposesOnce_updateTTLCheck checkID).clean_iff

/-! ### Batches of keys -/

namespace BatchHandler

theorem proposesOnce_applyBatch (c : Command) (failed done : Response)
    (hfailed : ¬ failed.IsNotLeader) :
    ProposesOnce τ calls (some hashiErrNotLeader) (do
      match ← applyBatch c failed with
      | some response => return response
      | none => return done) := by
  refine proposesOnce_known (c := c) (fun _ => failed) rfl (fun err => ?_)
    (fun resp => trivial) fun _ => hfailed
  by_cases his : GoError.is hashiErrNotLeader err = true
  · simp only [Program.bind, his, ite_true]
    rfl
  · simp only [Program.bind, his, Bool.false_eq_true, ite_false]
    rfl

theorem proposesOnce_batchSetCAS (items : GoMap GoString GoString)
    (expectedIndices : GoMap GoString UInt64) (done : GoMap GoString UInt64 → Response) :
    ProposesOnce τ calls (some errNotLeader) (do
      let (newIndices, err) ← Node.kvBatchSetCAS items expectedIndices
      match err with
      | some err =>
        if true && GoError.is errNotLeader err then
          return .notLeader (← Node.leaderAddr)
        return casRefused err (.notFound err.error) (.internalError (str "Failed to set keys"))
      | none => return done newIndices) := by
  refine proposesOnce_known (c := .kv (.batchSetCAS items expectedIndices))
    (fun err => casRefused err (.notFound err.error)
      (.internalError (str "Failed to set keys"))) rfl (fun _ => rfl) (fun resp => ?_) fun err =>
    not_isNotLeader_casRefused err (not_isNotLeader_notFound _) (not_isNotLeader_internalError _)
  exact quiet_casReply _ _ _

theorem proposesOnce_batchDeleteCAS (keys : List GoString)
    (expectedIndices : GoMap GoString UInt64) (done : Response) :
    ProposesOnce τ calls (some errNotLeader) (do
      let err ← Node.kvBatchDeleteCAS keys expectedIndices
      match err with
      | some err =>
        if true && GoError.is errNotLeader err then
          return .notLeader (← Node.leaderAddr)
        return casRefused err (.notFound err.error) (.internalError (str "Failed to delete keys"))
      | none => return done) := by
  refine proposesOnce_known (c := .kv (.batchDeleteCAS keys expectedIndices))
    (fun err => casRefused err (.notFound err.error)
      (.internalError (str "Failed to delete keys"))) rfl (fun _ => rfl) (fun resp => ?_) fun err =>
    not_isNotLeader_casRefused err (not_isNotLeader_notFound _) (not_isNotLeader_internalError _)
  exact quiet_casReply _ _ _

theorem batchKVSet_clean_iff (body : Option (GoMap GoString GoString)) :
    CleanRun ((batchKVSet true body).run (execOp τ calls) .start) ↔
      (∀ items, body = some items → items.keys.card ≠ 0 → items.keys.card ≤ 1000 →
        UncheckedClean τ Attempt.ByLibrary) := by
  cases body with
  | none => exact iff_of_true (quiet_clean trivial) nofun
  | some items =>
    rw [← known_hashiErrNotLeader]
    simp only [Option.some.injEq, forall_eq', ← not_lt]
    refine guard_clean_iff.trans (forall_congr' fun _ => ?_)
    refine guard_clean_iff.trans (forall_congr' fun _ => ?_)
    exact (proposesOnce_applyBatch _ _ _ (not_isNotLeader_internalError _)).clean_iff

theorem batchKVDelete_clean_iff (body : Option (List GoString)) :
    CleanRun ((batchKVDelete true body).run (execOp τ calls) .start) ↔
      (∀ keys, body = some keys → keys.length ≠ 0 → keys.length ≤ 1000 →
        UncheckedClean τ Attempt.ByLibrary) := by
  cases body with
  | none => exact iff_of_true (quiet_clean trivial) nofun
  | some keys =>
    rw [← known_hashiErrNotLeader]
    simp only [Option.some.injEq, forall_eq', ← not_lt]
    refine guard_clean_iff.trans (forall_congr' fun _ => ?_)
    refine guard_clean_iff.trans (forall_congr' fun _ => ?_)
    exact (proposesOnce_applyBatch _ _ _ (not_isNotLeader_internalError _)).clean_iff

theorem batchKVSetCAS_clean_iff (body : Option BatchKVSetCASRequest) :
    CleanRun ((batchKVSetCAS true body).run (execOp τ calls) .start) ↔
      (∀ req, body = some req → req.items.keys.card ≠ 0 → req.items.keys.card ≤ 1000 →
        missingIndex ((GoMap.sorted req.items).list.map Sigma.fst) req.expectedIndices = none →
        UncheckedClean τ Attempt.ByNode) := by
  cases body with
  | none => exact iff_of_true (quiet_clean trivial) fun _ h => by cases h
  | some req =>
    rw [← known_errNotLeader]
    simp only [Option.some.injEq, forall_eq', ← not_lt]
    refine guard_clean_iff.trans (forall_congr' fun _ => ?_)
    refine guard_clean_iff.trans (forall_congr' fun _ => ?_)
    cases missingIndex ((GoMap.sorted req.items).list.map Sigma.fst) req.expectedIndices with
    | some key => exact iff_of_true (quiet_clean trivial) fun h => by cases h
    | none =>
      rw [imp_iff_right rfl]
      exact (proposesOnce_batchSetCAS req.items req.expectedIndices fun newIndices =>
        json 200 [
          (str "message", .text (str "Successfully set " ++ number req.items.keys.card ++
            str " keys with CAS")),
          (str "new_indices", .indices newIndices),
          (str "count", .count req.items.keys.card)]).clean_iff

theorem batchKVDeleteCAS_clean_iff (body : Option BatchKVDeleteCASRequest) :
    CleanRun ((batchKVDeleteCAS true body).run (execOp τ calls) .start) ↔
      (∀ req, body = some req → req.keys.length ≠ 0 → req.keys.length ≤ 1000 →
        missingIndex req.keys req.expectedIndices = none → UncheckedClean τ Attempt.ByNode) := by
  cases body with
  | none => exact iff_of_true (quiet_clean trivial) nofun
  | some req =>
    rw [← known_errNotLeader]
    simp only [Option.some.injEq, forall_eq', ← not_lt]
    refine guard_clean_iff.trans (forall_congr' fun _ => ?_)
    refine guard_clean_iff.trans (forall_congr' fun _ => ?_)
    cases missingIndex req.keys req.expectedIndices with
    | some key => exact iff_of_true (quiet_clean trivial) nofun
    | none =>
      rw [imp_iff_right rfl]
      exact (proposesOnce_batchDeleteCAS req.keys req.expectedIndices _).clean_iff

/-! ### Batches of services -/

/-- The attempts of so many turns. -/
def attemptsFrom (τ : ℕ → RaftMoment) (turn n : ℕ) : List Attempt :=
  (List.range' turn n).map fun i => (τ i).attempt

theorem attemptsFrom_succ (turn n : ℕ) :
    attemptsFrom τ turn (n + 1) = (τ turn).attempt :: attemptsFrom τ (turn + 1) n := by
  rw [attemptsFrom, List.range'_succ]
  rfl

theorem mem_attemptsFrom_iff (n : ℕ) (a : Attempt) :
    a ∈ attemptsFrom τ 0 n ↔ ∃ i < n, (τ i).attempt = a := by
  simp [attemptsFrom]

/-- The trace after one more attempt. -/
def attempted (τ : ℕ → RaftMoment) (t : Trace) : Trace :=
  { t.next with attempts := t.attempts ++ [(τ t.turn).attempt] }

theorem byLibrary_iff {a : Attempt} {err : GoError} (h : a.applied = .error err) :
    a.ByLibrary ↔ GoError.is hashiErrNotLeader err = true := by
  rw [← known_hashiErrNotLeader]
  exact known_of_error h

theorem committed_of_ok {a : Attempt} {answer : FsmResponse} (h : a.applied = .ok answer) :
    a.Committed := by
  cases a with
  | none => exact nomatch h
  | some outcome =>
    cases outcome with
    | committed answer => trivial
    | _ => exact nomatch h

variable (τ calls) in
/-- One turn of the loop: it goes on unless the error is the one looked for. -/
theorem trace_registerOne (svc : Service) (t : Trace) (hsvc : precheck svc = none) :
    ((τ t.turn).attempt.ByLibrary ∧ ∃ leader,
      (registerOne true svc).run (execOp τ calls) t =
        ((attempted τ t).next, .stopped (.notLeader leader))) ∨
    (¬ (τ t.turn).attempt.ByLibrary ∧ ∃ outcome,
      (outcome = .done svc.name ∨ outcome = .failed svc.name) ∧
      (registerOne true svc).run (execOp τ calls) t = (attempted τ t, outcome)) := by
  unfold registerOne
  rw [hsvc]
  have hexec : execOp τ calls t (.applyEntry (.service (.register svc))) =
      (attempted τ t, (τ t.turn).attempt.applied) := rfl
  simp only [ite_true, Node.applyEntry, Program.run_perform_bind, hexec]
  cases happlied : (τ t.turn).attempt.applied with
  | ok answer =>
    have hnot : ¬ (τ t.turn).attempt.ByLibrary := fun h => h.not_committed (committed_of_ok happlied)
    exact Or.inr ⟨hnot, .done svc.name, Or.inl rfl, rfl⟩
  | error err =>
    by_cases his : GoError.is hashiErrNotLeader err = true
    · refine Or.inl ⟨(byLibrary_iff happlied).mpr his, (τ (t.turn + 1)).leaderAddr, ?_⟩
      simp only [his, ite_true, Node.leaderAddr, Program.run_perform_bind]
      rfl
    · refine Or.inr ⟨mt (byLibrary_iff happlied).mp his, .failed svc.name, Or.inr rfl, ?_⟩
      simp only [his, Bool.false_eq_true, ite_false]
      rfl

/-- What a loop over commands tried, and how it answered. -/
structure Tried (τ : ℕ → RaftMoment) (t : Trace) (n : ℕ) (r : Trace × Response)
    (tried : List Attempt) : Prop where
  checks : r.1.checks = t.checks
  direct : r.1.direct = t.direct
  attempts : r.1.attempts = t.attempts ++ tried
  within : tried <+: attemptsFrom τ t.turn n
  reply : r.2.IsNotLeader ↔ ∃ a ∈ tried, a.ByLibrary

theorem Tried.cons {t : Trace} {n : ℕ} {r : Trace × Response} {tried : List Attempt}
    (h : Tried τ (attempted τ t) n r tried) (hlost : ¬ (τ t.turn).attempt.ByLibrary) :
    Tried τ t (n + 1) r ((τ t.turn).attempt :: tried) := by
  refine ⟨h.checks, h.direct, ?_, ?_, ?_⟩
  · rw [h.attempts, attempted, List.append_assoc, List.singleton_append]
  · rw [attemptsFrom_succ]
    exact List.cons_prefix_cons.mpr ⟨rfl, h.within⟩
  · rw [h.reply, List.exists_mem_cons_iff, or_iff_right hlost]

theorem tried_last {t t' : Trace} {n : ℕ} {response : Response} (hchecks : t'.checks = t.checks)
    (hdirect : t'.direct = t.direct) (hattempts : t'.attempts = (attempted τ t).attempts)
    (hreply : response.IsNotLeader ↔ (τ t.turn).attempt.ByLibrary) :
    Tried τ t (n + 1) (t', response) [(τ t.turn).attempt] := by
  refine ⟨hchecks, hdirect, hattempts, ?_, ?_⟩
  · rw [attemptsFrom_succ]
    exact List.cons_prefix_cons.mpr ⟨rfl, List.nil_prefix⟩
  · rw [hreply]
    simp

theorem tried_none (t : Trace) {response : Response} (hresponse : ¬ response.IsNotLeader) :
    Tried τ t 0 (t, response) [] :=
  ⟨rfl, rfl, (List.append_nil _).symm, List.nil_prefix, iff_of_false hresponse (by simp)⟩

variable (τ calls) in
/-- The loop ends early only with the reply of a node that is not the leader. -/
theorem tried_registerAll (services : List Service) (registered failed : List GoString)
    (t : Trace) :
    ∃ tried, Tried τ t (services.filter fun svc => precheck svc = none).length
        ((registerAll true registered failed services).run (execOp τ calls) t) tried ∧
      ((∃ a ∈ tried, a.ByLibrary) ∨
        tried = attemptsFrom τ t.turn
          (services.filter fun svc => precheck svc = none).length) := by
  induction services generalizing registered failed t with
  | nil =>
    have hreply : ¬ (registerReply registered failed).IsNotLeader :=
      Response.not_isNotLeader (n := 200) rfl (by decide)
    exact ⟨[], tried_none t hreply, Or.inr rfl⟩
  | cons svc services ih =>
    unfold registerAll
    rw [Program.run_bind]
    cases hsvc : precheck svc with
    | some name =>
      have hrun : (registerOne true svc).run (execOp τ calls) t = (t, .failed name) := by
        rw [registerOne, hsvc]
        rfl
      rw [hrun, List.filter_cons_of_neg (by simp [hsvc])]
      exact ih registered (failed ++ [name]) t
    | none =>
      rw [List.filter_cons_of_pos (by simp [hsvc]), List.length_cons]
      rcases trace_registerOne τ calls svc t hsvc with
        ⟨hlost, leader, hrun⟩ | ⟨hlost, outcome, houtcome, hrun⟩
      · rw [hrun]
        refine ⟨[(τ t.turn).attempt], tried_last rfl rfl rfl ?_, Or.inl ⟨_, ?_, hlost⟩⟩
        · exact iff_of_true (Response.isNotLeader_notLeader leader) hlost
        · exact List.mem_singleton_self _
      · rw [hrun]
        have hnext (registered failed : List GoString) :
            ∃ tried, Tried τ t ((services.filter fun svc => precheck svc = none).length + 1)
                ((registerAll true registered failed services).run (execOp τ calls)
                  (attempted τ t)) tried ∧
              ((∃ a ∈ tried, a.ByLibrary) ∨ tried = attemptsFrom τ t.turn
                ((services.filter fun svc => precheck svc = none).length + 1)) := by
          obtain ⟨tried, htried, hend⟩ := ih registered failed (attempted τ t)
          refine ⟨_, htried.cons hlost, ?_⟩
          rcases hend with ⟨a, ha, hfound⟩ | hall
          · exact Or.inl ⟨a, List.mem_cons_of_mem _ ha, hfound⟩
          · rw [attemptsFrom_succ, hall]
            exact Or.inr rfl
        rcases houtcome with rfl | rfl
        · exact hnext (registered ++ [svc.name]) failed
        · exact hnext registered (failed ++ [svc.name])

theorem not_committed_of_error {a : Attempt} {err : GoError} (h : a.applied = .error err) :
    ¬ a.Committed := by
  cases a with
  | none => exact id
  | some outcome =>
    cases outcome with
    | committed answer => exact nomatch h
    | _ => exact id

variable (τ calls) in
theorem trace_deregisterOne (name : GoString) (t : Trace) :
    ((τ t.turn).attempt.Committed ∧
      (deregisterOne true name).run (execOp τ calls) t = (attempted τ t, .done name)) ∨
    (¬ (τ t.turn).attempt.Committed ∧ ∃ t' response,
      (deregisterOne true name).run (execOp τ calls) t = (t', .stopped response) ∧
        t'.checks = t.checks ∧ t'.direct = t.direct ∧
        t'.attempts = (attempted τ t).attempts ∧
        (response.IsNotLeader ↔ (τ t.turn).attempt.ByLibrary)) := by
  have hexec : execOp τ calls t (.applyEntry (.service (.deregister name))) =
      (attempted τ t, (τ t.turn).attempt.applied) := rfl
  simp only [deregisterOne, ite_true, Node.applyEntry, Program.run_perform_bind, hexec]
  cases happlied : (τ t.turn).attempt.applied with
  | ok answer => exact Or.inl ⟨committed_of_ok happlied, rfl⟩
  | error err =>
    refine Or.inr ⟨not_committed_of_error happlied, ?_⟩
    by_cases his : GoError.is hashiErrNotLeader err = true
    · refine ⟨(attempted τ t).next, .notLeader (τ (t.turn + 1)).leaderAddr, ?_, rfl, rfl, rfl, ?_⟩
      · simp only [his, ite_true, Node.leaderAddr, Program.run_perform_bind]
        rfl
      · exact iff_of_true (Response.isNotLeader_notLeader _) ((byLibrary_iff happlied).mpr his)
    · refine ⟨attempted τ t, .internalError (str "Failed to deregister services"), ?_, rfl, rfl,
        rfl, ?_⟩
      · simp only [his, Bool.false_eq_true, ite_false]
        rfl
      · exact iff_of_false (not_isNotLeader_internalError _) (mt (byLibrary_iff happlied).mp his)

/-- The first of so many attempts that is not committed is the one a loop ends with well. -/
def EndsWell (τ : ℕ → RaftMoment) (turn n : ℕ) : Prop :=
  ∀ i < n, (∀ j < i, (τ (turn + j)).attempt.Committed) →
    (τ (turn + i)).attempt.LeaderGone → (τ (turn + i)).attempt.ByLibrary

theorem endsWell_succ_of_committed {turn n : ℕ} (h : (τ turn).attempt.Committed) :
    EndsWell τ turn (n + 1) ↔ EndsWell τ (turn + 1) n := by
  constructor
  · intro hends i hi hbefore hgone
    have hturn : turn + 1 + i = turn + (i + 1) := by omega
    rw [hturn] at hgone ⊢
    refine hends (i + 1) (by omega) (fun j hj => ?_) hgone
    cases j with
    | zero => exact h
    | succ j =>
      have hbefore := hbefore j (by omega)
      rwa [show turn + 1 + j = turn + (j + 1) by omega] at hbefore
  · intro hends i hi hbefore hgone
    cases i with
    | zero => exact absurd h hgone.not_committed
    | succ i =>
      have hturn : turn + (i + 1) = turn + 1 + i := by omega
      rw [hturn] at hgone ⊢
      refine hends i (by omega) (fun j hj => ?_) hgone
      have hbefore := hbefore (j + 1) (by omega)
      rwa [show turn + (j + 1) = turn + 1 + j by omega] at hbefore

theorem endsWell_succ_of_not {turn n : ℕ} (h : ¬ (τ turn).attempt.Committed) :
    EndsWell τ turn (n + 1) ↔ ((τ turn).attempt.LeaderGone → (τ turn).attempt.ByLibrary) := by
  constructor
  · exact fun hends => hends 0 (by omega) (fun j hj => absurd hj (Nat.not_lt_zero j))
  · intro hlost i hi hbefore
    cases i with
    | zero => exact hlost
    | succ i => exact absurd (hbefore 0 (by omega)) h

variable (τ calls) in
theorem tried_deregisterAll (names deregistered : List GoString) (t : Trace) :
    ∃ tried, Tried τ t names.length
        ((deregisterAll true deregistered names).run (execOp τ calls) t) tried ∧
      (((∃ a ∈ tried, a.LeaderGone) → ∃ a ∈ tried, a.ByLibrary) ↔
        EndsWell τ t.turn names.length) := by
  induction names generalizing deregistered t with
  | nil =>
    refine ⟨[], tried_none t (Response.not_isNotLeader (n := 200) rfl (by decide)), ?_⟩
    exact iff_of_true (fun ⟨a, ha, _⟩ => nomatch ha) fun i hi => absurd hi (Nat.not_lt_zero i)
  | cons name names ih =>
    unfold deregisterAll
    rw [Program.run_bind, List.length_cons]
    rcases trace_deregisterOne τ calls name t with
      ⟨hcommitted, hrun⟩ | ⟨hnot, t', response, hrun, hchecks, hdirect, hattempts, hreply⟩
    · rw [hrun, endsWell_succ_of_committed hcommitted]
      obtain ⟨tried, htried, hend⟩ := ih (deregistered ++ [name]) (attempted τ t)
      have hgone : ¬ (τ t.turn).attempt.LeaderGone := fun h => h.not_committed hcommitted
      have hlost : ¬ (τ t.turn).attempt.ByLibrary := fun h => h.not_committed hcommitted
      refine ⟨_, htried.cons hlost, ?_⟩
      rw [List.exists_mem_cons_iff, List.exists_mem_cons_iff, or_iff_right hgone,
        or_iff_right hlost]
      exact hend
    · rw [hrun, endsWell_succ_of_not hnot]
      refine ⟨_, tried_last hchecks hdirect hattempts hreply, ?_⟩
      simp

theorem clean_of_tried {n : ℕ} {r : Trace × Response} {tried : List Attempt}
    (h : Tried τ .start n r tried) :
    CleanRun r ↔ ((∃ a ∈ tried, a.LeaderGone) → ∃ a ∈ tried, a.ByLibrary) := by
  have hattempts : r.1.attempts = tried := h.attempts
  have hunchecked : false ∉ r.1.checks := by
    rw [h.checks]
    exact List.not_mem_nil
  unfold CleanRun
  rw [clean_iff_of_attempts hunchecked h.direct, hattempts, h.reply]

/-- Some attempt fails with the error looked for, if one fails for want of a leader. -/
def OneLost (τ : ℕ → RaftMoment) (n : ℕ) : Prop :=
  (∃ i < n, (τ i).attempt.LeaderGone) → ∃ i < n, (τ i).attempt.ByLibrary

theorem registerAll_clean_iff (services : List Service) :
    CleanRun ((registerAll true [] [] services).run (execOp τ calls) .start) ↔
      OneLost τ (services.filter fun svc => precheck svc = none).length := by
  obtain ⟨tried, htried, hend⟩ := tried_registerAll τ calls services [] [] .start
  rw [clean_of_tried htried]
  have hmem {P : Attempt → Prop} : (∃ i < (services.filter fun svc => precheck svc = none).length,
        P (τ i).attempt) ↔
      ∃ a ∈ attemptsFrom τ 0 (services.filter fun svc => precheck svc = none).length, P a := by
    constructor
    · rintro ⟨i, hi, h⟩
      exact ⟨_, (mem_attemptsFrom_iff _ _).mpr ⟨i, hi, rfl⟩, h⟩
    · rintro ⟨a, ha, h⟩
      obtain ⟨i, hi, rfl⟩ := (mem_attemptsFrom_iff _ _).mp ha
      exact ⟨i, hi, h⟩
  unfold OneLost
  rw [hmem, hmem]
  rcases hend with hlost | hall
  · obtain ⟨a, ha, hfound⟩ := hlost
    exact iff_of_true (fun _ => ⟨a, ha, hfound⟩) fun _ => ⟨a, htried.within.subset ha, hfound⟩
  · rw [hall]
    rfl

theorem deregisterAll_clean_iff (names : List GoString) :
    CleanRun ((deregisterAll true [] names).run (execOp τ calls) .start) ↔
      EndsWell τ 0 names.length := by
  obtain ⟨tried, htried, hend⟩ := tried_deregisterAll τ calls names [] .start
  rw [clean_of_tried htried]
  exact hend

theorem batchServiceRegister_clean_iff (body : Option (List Service)) :
    CleanRun ((batchServiceRegister true body).run (execOp τ calls) .start) ↔
      (∀ services, body = some services → services.length ≠ 0 → services.length ≤ 100 →
        OneLost τ (services.filter fun svc => precheck svc = none).length) := by
  cases body with
  | none => exact iff_of_true (quiet_clean trivial) nofun
  | some services =>
    simp only [Option.some.injEq, forall_eq', ← not_lt]
    refine guard_clean_iff.trans (forall_congr' fun _ => ?_)
    refine guard_clean_iff.trans (forall_congr' fun _ => ?_)
    exact registerAll_clean_iff services

theorem batchServiceDeregister_clean_iff (body : Option (List GoString)) :
    CleanRun ((batchServiceDeregister true body).run (execOp τ calls) .start) ↔
      (∀ names, body = some names → names.length ≠ 0 → names.length ≤ 100 →
        EndsWell τ 0 names.length) := by
  cases body with
  | none => exact iff_of_true (quiet_clean trivial) nofun
  | some names =>
    simp only [Option.some.injEq, forall_eq', ← not_lt]
    refine guard_clean_iff.trans (forall_congr' fun _ => ?_)
    refine guard_clean_iff.trans (forall_congr' fun _ => ?_)
    exact deregisterAll_clean_iff names

end BatchHandler

/-! ### Updates of an agent -/

/-- The update comes to a call of the store. -/
def ServiceUpdate.Calls (update : ServiceUpdate) : Bool :=
  if update.type = str "add" ∨ update.type = str "update" then update.service.isSome
  else update.type = str "delete"

theorem trace_processUpdate (update : ServiceUpdate) (t : Trace) :
    ((AgentHandlers.processUpdate update).run (execOp τ calls) t).1 =
      if update.Calls then { t.next with direct := t.direct ++ [(τ t.turn).isLeader] } else t := by
  unfold AgentHandlers.processUpdate ServiceUpdate.Calls
  by_cases htype : update.type = str "add" ∨ update.type = str "update"
  · simp only [if_pos htype]
    cases update.service <;> rfl
  · simp only [if_neg htype]
    by_cases hdelete : update.type = str "delete"
    · simp only [hdelete, ite_true, decide_true]
      rfl
    · simp only [hdelete, ite_false, decide_false, Bool.false_eq_true]
      rfl

variable (τ calls) in
theorem trace_processUpdates (updates : List ServiceUpdate) (t : Trace) :
    let r := (AgentHandlers.processUpdates updates).run (execOp τ calls) t
    r.1.checks = t.checks ∧ r.1.attempts = t.attempts ∧ r.1.direct = t.direct ++
      (List.range' t.turn (updates.filter ServiceUpdate.Calls).length).map fun i =>
        (τ i).isLeader := by
  induction updates generalizing t with
  | nil => exact ⟨rfl, rfl, (List.append_nil _).symm⟩
  | cons update updates ih =>
    unfold AgentHandlers.processUpdates
    rw [Program.run_bind, trace_processUpdate]
    by_cases hcalls : update.Calls = true
    · rw [if_pos hcalls, List.filter_cons_of_pos hcalls, List.length_cons, List.range'_succ]
      obtain ⟨hchecks, hattempts, hdirect⟩ :=
        ih { t.next with direct := t.direct ++ [(τ t.turn).isLeader] }
      refine ⟨hchecks, hattempts, hdirect.trans ?_⟩
      rw [List.map_cons, List.append_assoc, List.singleton_append]
      rfl
    · rw [if_neg hcalls, List.filter_cons_of_neg hcalls]
      exact ih t

namespace AgentHandlers

theorem quiet_agentRegister (id : Option GoString) : (handleAgentRegister id).Only Op.Quiet := by
  cases id with
  | none => trivial
  | some id =>
    rw [handleAgentRegister]
    split <;> trivial

theorem handleBatchUpdate_clean_iff (body : Option BatchUpdate) :
    CleanRun ((handleBatchUpdate body).run (execOp τ calls) .start) ↔
      ∀ req, body = some req →
        ∀ i < (req.updates.filter ServiceUpdate.Calls).length, (τ i).isLeader = true := by
  cases body with
  | none => exact iff_of_true (quiet_clean trivial) fun _ h => by cases h
  | some req => ?_
  simp only [Option.some.injEq, forall_eq']
  unfold handleBatchUpdate
  dsimp only
  rw [Program.run_bind]
  obtain ⟨hchecks, hattempts, hdirect⟩ :=
    trace_processUpdates τ calls req.updates .start
  generalize (processUpdates req.updates).run (execOp τ calls) .start = r
    at hchecks hattempts hdirect
  have hcall : false ∈ r.1.direct ↔
      ∃ i < (req.updates.filter ServiceUpdate.Calls).length, (τ i).isLeader = false := by
    rw [hdirect]
    simp [start]
  have hreply : ¬ (json 200 [(str "status", .text (str "processed")),
      (str "count", .count req.updates.length)]).IsNotLeader :=
    Response.not_isNotLeader (n := 200) rfl (by decide)
  have hunchecked : false ∉ r.1.checks := by
    rw [hchecks]
    exact List.not_mem_nil
  have hgone : ¬ ∃ a ∈ r.1.attempts, a.LeaderGone := by
    rw [hattempts]
    rintro ⟨a, ha, -⟩
    cases ha
  refine (clean_iff_of_unchecked hunchecked).trans ?_
  rw [or_iff_right hgone, hcall]
  refine (imp_iff_not hreply).trans ?_
  simp only [not_exists, not_and, Bool.not_eq_false]

end AgentHandlers

/-! ### GraphQL -/

/-- Calls that neither check nor write. -/
def StoreCall.Quiet : StoreCall → Prop
  | .op o => o.Quiet
  | _ => True

variable (τ calls) in
theorem quiet_reader {R : Type} {p : Reader R} (h : p.Only StoreCall.Quiet) (t : Trace) :
    (p.run (Trace.exec τ calls) t).1.done = t.done := by
  refine h.run_eq (fun t c hc => ?_) t
  cases c with
  | op o =>
    cases o with
    | leaderAddr | getKVEntry | getServiceEntry | view => rfl
    | _ => exact hc.elim
  | _ => rfl

/-- The requirement on a field that starts at a trace. -/
def CleanField (r : Trace × FieldResult) : Prop := r.1.Clean r.2.IsNotLeader

theorem clean_of_quiet {p : Reader FieldResult} (h : p.Only StoreCall.Quiet) (turn : ℕ) :
    CleanField (p.run (Trace.exec τ calls) ⟨turn, [], [], []⟩) := by
  have hdone := quiet_reader τ calls h ⟨turn, [], [], []⟩
  simp only [done, Prod.mk.injEq] at hdone
  obtain ⟨hchecks, hattempts, hdirect⟩ := hdone
  have hunchecked :
      false ∉ (p.run (Trace.exec τ calls) ⟨turn, [], [], []⟩).1.checks := by
    rw [hchecks]
    exact List.not_mem_nil
  refine (clean_iff_of_attempts hunchecked hdirect).mpr ?_
  rintro ⟨a, ha, -⟩
  rw [hattempts] at ha
  cases ha

/-- Either of the two variables. -/
def SaysNotLeader (err : GoError) : Prop :=
  GoError.is errNotLeader err = true ∨ GoError.is hashiErrNotLeader err = true

theorem SaysNotLeader.wrap {err : GoError} (h : SaysNotLeader err) (message : GoString) :
    SaysNotLeader (.wrap message err) := by
  have his (target : GoError) (hi : GoError.is target err = true) :
      GoError.is target (.wrap message err) = true := by
    rw [GoError.is, hi, Bool.or_true]
  exact h.imp (his _) (his _)

theorem leaderGone_applied {a : Attempt} (h : a.LeaderGone) :
    ∃ err, a.applied = .error err ∧ SaysNotLeader err ∧ isCASConflict err = false ∧
      isNotFound err = false := by
  have hkonsul : SaysNotLeader errNotLeader := Or.inl (by decide)
  have hhashi : SaysNotLeader hashiErrNotLeader := Or.inr (by decide)
  cases a with
  | none => exact ⟨_, rfl, hkonsul, rfl, rfl⟩
  | some outcome =>
    cases outcome with
    | notLeader => exact ⟨_, rfl, hhashi.wrap _, rfl, rfl⟩
    | leadershipLost => exact ⟨_, rfl, hkonsul, rfl, rfl⟩
    | committed answer => exact h.elim
    | failed err logged => exact h.elim

theorem SaysNotLeader.applyError {err : GoError} (h : SaysNotLeader err)
    {failed : GoError → GoError} (hfailed : SaysNotLeader err → SaysNotLeader (failed err)) :
    SaysNotLeader (applyError failed err) := by
  unfold Konsul.applyError
  split_ifs
  · exact h.wrap _
  · exact hfailed h

theorem clean_of_proposal {c : Command} {next : Except GoError FsmResponse → Reader FieldResult}
    (hquiet : ∀ r, (next r).Only StoreCall.Quiet)
    (hreply : ∀ err, SaysNotLeader err → isCASConflict err = false → isNotFound err = false →
      ∃ err', next (.error err) = .ret (.error err') ∧ SaysNotLeader err') (turn : ℕ) :
    CleanField (Program.run (Trace.exec τ calls) (.call (.op (.applyEntry c)) next)
      ⟨turn, [], [], []⟩) := by
  let t : Trace := ⟨turn + 1, [], [(τ turn).attempt], []⟩
  have hrun : Program.run (Trace.exec τ calls) (.call (.op (.applyEntry c)) next)
      ⟨turn, [], [], []⟩ = (next (τ turn).attempt.applied).run (Trace.exec τ calls) t := rfl
  have hdone := quiet_reader τ calls (hquiet (τ turn).attempt.applied) t
  simp only [done, Prod.mk.injEq] at hdone
  obtain ⟨hchecks, hattempts, hdirect⟩ := hdone
  rw [hrun]
  have hunchecked : false ∉ ((next (τ turn).attempt.applied).run (Trace.exec τ calls) t).1.checks := by
    rw [hchecks]
    exact List.not_mem_nil
  refine (clean_iff_of_attempts hunchecked hdirect).mpr ?_
  rintro ⟨a, ha, hgone⟩
  rw [hattempts] at ha
  cases List.mem_singleton.mp ha
  obtain ⟨err, happlied, hsays, hconflict, hmissing⟩ := leaderGone_applied hgone
  obtain ⟨err', hnext, hsays'⟩ := hreply err hsays hconflict hmissing
  rw [happlied, hnext]
  exact ⟨err', rfl, hsays'⟩

namespace Resolver

theorem kvSet_clean (key value : GoString) (turn : ℕ) :
    CleanField ((kvSet true key value).run (Trace.exec τ calls) ⟨turn, [], [], []⟩) := by
  refine clean_of_proposal (c := .kv (.set key value)) (fun r => ?_) (fun err hsays _ _ => ?_) turn
  · cases r <;> trivial
  · exact ⟨_, rfl, hsays.applyError id⟩

theorem kvDelete_clean (key : GoString) (turn : ℕ) :
    CleanField ((kvDelete true key).run (Trace.exec τ calls) ⟨turn, [], [], []⟩) := by
  have hget : Trace.exec τ calls ⟨turn, [], [], []⟩ (.kvGet key) =
      (⟨turn + 1, [], [], []⟩, calls turn (.kvGet key)) := rfl
  unfold kvDelete
  rw [Program.run_perform_bind, hget]
  cases calls turn (.kvGet key) with
  | none => exact clean_of_quiet (p := .ret (.ok (.flag false))) trivial (turn + 1)
  | some value =>
    refine clean_of_proposal (c := .kv (.delete key)) (fun r => ?_) (fun err hsays _ _ => ?_)
      (turn + 1)
    · cases r <;> trivial
    · exact ⟨_, rfl, hsays.applyError id⟩

theorem deregisterService_clean (name : GoString) (turn : ℕ) :
    CleanField ((deregisterService true name).run (Trace.exec τ calls) ⟨turn, [], [], []⟩) := by
  have hget : Trace.exec τ calls ⟨turn, [], [], []⟩ (.serviceGet name) =
      (⟨turn + 1, [], [], []⟩, calls turn (.serviceGet name)) := rfl
  unfold deregisterService
  rw [Program.run_perform_bind, hget]
  cases calls turn (.serviceGet name) with
  | none => exact clean_of_quiet (p := .ret (.ok (.flag false))) trivial (turn + 1)
  | some svc =>
    refine clean_of_proposal (c := .service (.deregister name)) (fun r => ?_)
      (fun err hsays _ _ => ?_) (turn + 1)
    · cases r <;> trivial
    · exact ⟨_, rfl, hsays.applyError id⟩

theorem registerService_clean (input : RegisterServiceInput) (turn : ℕ) :
    CleanField ((registerService true input).run (Trace.exec τ calls) ⟨turn, [], [], []⟩) := by
  refine clean_of_proposal (c := .service (.register input.service)) (fun r => ?_)
    (fun err hsays _ _ => ?_) turn
  · cases r with
    | error err => trivial
    | ok resp =>
      refine And.intro trivial fun entries => ?_
      cases entries <;> trivial
  · exact ⟨_, rfl, hsays.applyError fun h => h.wrap _⟩

theorem updateHeartbeat_clean (name : GoString) (turn : ℕ) :
    CleanField ((updateHeartbeat true name).run (Trace.exec τ calls) ⟨turn, [], [], []⟩) := by
  refine clean_of_proposal (c := .service (.heartbeat name)) (fun r => ?_)
    (fun err hsays _ _ => ?_) turn
  · cases r with
    | error err => trivial
    | ok resp => cases resp <;> trivial
  · exact ⟨_, rfl, hsays.applyError id⟩

/-- What `kvCAS` makes of the answer of `ApplyEntry`. -/
def casField (key value : GoString) : Except GoError FsmResponse → FieldResult
  | .ok _ => .ok (.pair ⟨key, value⟩)
  | .error err =>
    if isCASConflict err || isNotFound err then .ok .null
    else if GoError.is hashiErrNotLeader err then .error (.wrap (str "not leader") err)
    else .error err

theorem kvCAS_eq (key value : GoString) (index : ℤ) :
    kvCAS true key value index =
      .call (.op (.applyEntry (.kv (.setCAS key value (UInt64.ofInt index))))) fun r =>
        .ret (casField key value r) := by
  refine congrArg (Program.call _) (funext fun r => ?_)
  cases r with
  | ok resp => rfl
  | error err =>
    unfold casField
    by_cases hcas : (isCASConflict err || isNotFound err) = true
    · simp only [Program.bind, Program.pure_eq, Program.ret_bind, hcas, ite_true]
      rfl
    · simp only [Program.bind, Program.pure_eq, Program.ret_bind, hcas, Bool.false_eq_true,
        ite_false]
      by_cases his : GoError.is hashiErrNotLeader err = true
      · simp only [his, ite_true]
        rfl
      · simp only [his, Bool.false_eq_true, ite_false]
        rfl

theorem kvCAS_clean (key value : GoString) (index : ℤ) (turn : ℕ) :
    CleanField ((kvCAS true key value index).run (Trace.exec τ calls) ⟨turn, [], [], []⟩) := by
  rw [kvCAS_eq]
  have hquiet (r : Except GoError FsmResponse) :
      (.ret (casField key value r) : Reader FieldResult).Only StoreCall.Quiet := trivial
  refine clean_of_proposal hquiet (fun err hsays hconflict hmissing => ?_) turn
  unfold casField
  simp only [hconflict, hmissing, Bool.or_self, Bool.false_eq_true, ite_false]
  split_ifs
  · exact ⟨_, rfl, hsays.wrap _⟩
  · exact ⟨err, rfl, hsays⟩

end Resolver

/-! ### Every write -/

/-- A write by a request of its own, or by a field of a GraphQL document. -/
inductive LeaderWrite where
  | request (r : Request)
  | field (f : MutationField)

/-- When a request is refused cleanly, if it is refused. -/
def Request.CleanWhen (τ : ℕ → RaftMoment) : Request → Prop
  | kvSet _ none | kvDelete _ .invalid | register none | deregister _ .invalid =>
    (τ 0).isLeader = true
  | kvSet _ (some body) =>
    CheckedClean τ (if body.cas.isSome then Attempt.ByNode else fun _ => False)
  | kvDelete _ (.index _) => CheckedClean τ Attempt.ByNode
  | register (some body) =>
    CheckedClean τ (if body.cas.isSome then Attempt.ByLibrary else fun _ => False)
  | deregister _ (.index _) => CheckedClean τ Attempt.ByLibrary
  | kvDelete _ .absent | deregister _ .absent | heartbeat _ => CheckedClean τ fun _ => False
  | updateTTLCheck _ => UncheckedClean τ Attempt.ByLibrary
  | batchKVSet body => ∀ items, body = some items → items.keys.card ≠ 0 →
      items.keys.card ≤ 1000 → UncheckedClean τ Attempt.ByLibrary
  | batchKVDelete body => ∀ keys, body = some keys → keys.length ≠ 0 → keys.length ≤ 1000 →
      UncheckedClean τ Attempt.ByLibrary
  | batchKVSetCAS body => ∀ req, body = some req → req.items.keys.card ≠ 0 →
      req.items.keys.card ≤ 1000 →
      BatchHandler.missingIndex ((GoMap.sorted req.items).list.map Sigma.fst)
        req.expectedIndices = none → UncheckedClean τ Attempt.ByNode
  | batchKVDeleteCAS body => ∀ req, body = some req → req.keys.length ≠ 0 →
      req.keys.length ≤ 1000 → BatchHandler.missingIndex req.keys req.expectedIndices = none →
      UncheckedClean τ Attempt.ByNode
  | batchServiceRegister body => ∀ services, body = some services → services.length ≠ 0 →
      services.length ≤ 100 →
      BatchHandler.OneLost τ (services.filter fun svc => BatchHandler.precheck svc = none).length
  | batchServiceDeregister body => ∀ names, body = some names → names.length ≠ 0 →
      names.length ≤ 100 → BatchHandler.EndsWell τ 0 names.length
  | agentBatchUpdate body => ∀ req, body = some req →
      ∀ i < (req.updates.filter ServiceUpdate.Calls).length, (τ i).isLeader = true
  | addCheck _ | agentRegister _ | agentHealthUpdate _ | read _ => True

namespace LeaderWrite

def Clean (τ : ℕ → RaftMoment) (calls : ℕ → (c : StoreCall) → c.Answer) : LeaderWrite → Prop
  | request r => CleanRun (r.handler.run (execOp τ calls) .start)
  | field f => CleanField ((f.resolve true).run (Trace.exec τ calls) .start)

def CleanWhen (τ : ℕ → RaftMoment) : LeaderWrite → Prop
  | request r => r.CleanWhen τ
  | field _ => True

end LeaderWrite

theorem Resolver.clean (f : MutationField) :
    CleanField ((f.resolve true).run (Trace.exec τ calls) .start) := by
  cases f with
  | kvSet key value => exact kvSet_clean key value 0
  | kvDelete key => exact kvDelete_clean key 0
  | kvCAS key value index => exact kvCAS_clean key value index 0
  | registerService input => exact registerService_clean input 0
  | deregisterService name => exact deregisterService_clean name 0
  | updateHeartbeat name => exact updateHeartbeat_clean name 0

/-- Whatever becomes of the leadership, a write is refused cleanly just when its handler
knows the error it gets. -/
theorem writes_refused_cleanly_iff (w : LeaderWrite) (τ : ℕ → RaftMoment)
    (calls : ℕ → (c : StoreCall) → c.Answer) : w.Clean τ calls ↔ w.CleanWhen τ := by
  cases w with
  | field f => exact iff_of_true (Resolver.clean f) trivial
  | request r =>
    cases r with
    | kvSet key body =>
      cases body with
      | none => exact checked_ret_clean_iff (not_isNotLeader_badRequest _)
      | some body => exact KVHandler.set_clean_iff key body
    | kvDelete key cas =>
      cases cas with
      | invalid => exact checked_ret_clean_iff (not_isNotLeader_badRequest _)
      | index expectedIndex => exact KVHandler.deleteCAS_clean_iff key expectedIndex
      | absent => exact plain_clean_iff fun _ => trivial
    | register body =>
      cases body with
      | none => exact checked_ret_clean_iff (not_isNotLeader_badRequest _)
      | some body => exact ServiceHandler.register_clean_iff body
    | deregister name cas =>
      cases cas with
      | invalid => exact checked_ret_clean_iff (not_isNotLeader_badRequest _)
      | index expectedIndex => exact ServiceHandler.deregisterCAS_clean_iff name expectedIndex
      | absent => exact plain_clean_iff fun _ => trivial
    | heartbeat name => exact plain_clean_iff fun _ => trivial
    | updateTTLCheck checkID => exact updateTTLCheck_clean_iff checkID
    | addCheck body => exact iff_of_true (quiet_clean (by cases body <;> trivial)) trivial
    | batchKVSet body => exact BatchHandler.batchKVSet_clean_iff body
    | batchKVDelete body => exact BatchHandler.batchKVDelete_clean_iff body
    | batchKVSetCAS body => exact BatchHandler.batchKVSetCAS_clean_iff body
    | batchKVDeleteCAS body => exact BatchHandler.batchKVDeleteCAS_clean_iff body
    | batchServiceRegister body => exact BatchHandler.batchServiceRegister_clean_iff body
    | batchServiceDeregister body => exact BatchHandler.batchServiceDeregister_clean_iff body
    | agentBatchUpdate body => exact AgentHandlers.handleBatchUpdate_clean_iff body
    | agentRegister id =>
      exact iff_of_true (quiet_clean (AgentHandlers.quiet_agentRegister id)) trivial
    | agentHealthUpdate parses =>
      exact iff_of_true (quiet_clean (by cases parses <;> trivial)) trivial
    | read answer => exact iff_of_true (quiet_clean (Program.only_perform trivial)) trivial

/-- A key written on a follower: the leader check answers, and the failure of the proposal
takes its place. -/
theorem set_on_follower_not_clean :
    ¬ ∀ (w : LeaderWrite) (τ : ℕ → RaftMoment) (calls : ℕ → (c : StoreCall) → c.Answer),
      w.Clean τ calls := by
  intro h
  let τ : ℕ → RaftMoment := fun _ => ⟨false, str "10.0.0.1:7000", .notLeader⟩
  let calls : ℕ → (c : StoreCall) → c.Answer := fun _ c => StoreCall.nonempty_answer c |>.some
  have hclean := h (.request (.kvSet (str "k") (some ⟨str "v", none, 0⟩))) τ calls
  have hchecked : CheckedClean τ fun _ => False :=
    (KVHandler.set_clean_iff (str "k") ⟨str "v", none, 0⟩).mp hclean
  exact hchecked.1

end Konsul
