import Konsul.Handlers.Committed

/-!
# What a compare-and-swap request reports

A refusal of the state machine is an answer, not an error, of `ApplyEntry`. The
handlers that go through the methods of the node look at it; `Register`,
`Deregister` and `KvCas` assert it to be a number, which it never is, and report
success.
-/

namespace Konsul

open GoLib

/-! ### Requests and replies -/

inductive CASRequest where
  | kvSet (key value : GoString) (flags expectedIndex : UInt64)
  | kvDelete (key : GoString) (expectedIndex : UInt64)
  | batchSet (req : BatchHandler.BatchKVSetCASRequest)
  | batchDelete (req : BatchHandler.BatchKVDeleteCASRequest)
  | register (service : Service) (expectedIndex : UInt64)
  | deregister (name : GoString) (expectedIndex : UInt64)
  | mutation (denied : Option GoError) (key value : GoString) (index : ℤ)

inductive Reply where
  | http (r : Response)
  | graphql (r : Except GoError (Option KVPair))

def CASRequest.handler : CASRequest → Handler Reply
  | .kvSet key value flags expectedIndex =>
    Reply.http <$> KVHandler.set true key (some ⟨value, some expectedIndex, flags⟩)
  | .kvDelete key expectedIndex => Reply.http <$> KVHandler.delete true key (.index expectedIndex)
  | .batchSet req => Reply.http <$> BatchHandler.batchKVSetCAS true (some req)
  | .batchDelete req => Reply.http <$> BatchHandler.batchKVDeleteCAS true (some req)
  | .register service expectedIndex =>
    Reply.http <$> ServiceHandler.register true (some ⟨service, some expectedIndex⟩)
  | .deregister name expectedIndex =>
    Reply.http <$> ServiceHandler.deregister true name (.index expectedIndex)
  | .mutation denied key value index => Reply.graphql <$> kvCas true denied key value index

namespace Reply

def Success : Reply → Prop
  | http r => r.status = 200
  | graphql r => ∃ pair, r = .ok (some pair)

/-- The mutation answers null to a conflict and to a missing key. -/
def Conflict : Reply → Prop
  | http r => r.status = 409
  | graphql r => r = .ok none

def NotFound : Reply → Prop
  | http r => r.status = 404
  | graphql r => r = .ok none

/-- The reply has this value in a field. -/
def Shows (name : String) (value : Value) : Reply → Prop
  | http r => r.field (str name) = some value
  | graphql _ => False

end Reply

def FsmResponse.newIndex : FsmResponse → UInt64
  | .err _ => 0
  | .cas r => r.newIndex

def FsmResponse.newIndices : FsmResponse → GoMap GoString UInt64
  | .err _ => ∅
  | .cas r => r.newIndices

/-- Replies to a set, a registration and a batch of sets have a place for the new
index; a deletion has no new index, and the pair of a mutation shows none. -/
def CASRequest.Shows (answer : FsmResponse) (reply : Reply) : CASRequest → Prop
  | .kvSet .. => reply.Shows "modify_index" (.index answer.newIndex)
  | .register .. => reply.Shows "modify_index" (.index answer.newIndex)
  | .batchSet .. => reply.Shows "new_indices" (.indices answer.newIndices)
  | _ => True

/-- The reply reports the answer of the state machine. -/
structure Reports (req : CASRequest) (reply : Reply) (answer : FsmResponse) : Prop where
  success : reply.Success ↔ answer.error = none
  index : answer.error = none → req.Shows answer reply
  conflict : ∀ err, answer.error = some err → isCASConflict err → reply.Conflict
  notFound : ∀ err, answer.error = some err → isNotFound err → reply.NotFound

/-- Whatever the request commits, its reply reports the answer. -/
def CASRequest.Faithful (L : Surroundings) (f : FSM) (req : CASRequest) : Prop :=
  ∀ e ∈ (req.handler.run (exec L) (.start f)).1.commits,
    Reports req (req.handler.run (exec L) (.start f)).2 e.answer

/-- When it does. -/
def CASRequest.Reported (L : Surroundings) (f : FSM) : CASRequest → Prop
  | .kvSet key _ _ expectedIndex =>
    L.isLeader ∨ f.kvStore.toKVTable.checkSetCAS (jsonString key) expectedIndex ≠ none
  | .kvDelete key expectedIndex =>
    L.isLeader ∨ f.kvStore.toKVTable.checkDeleteCAS (jsonString key) expectedIndex ≠ none
  | .batchSet _ => True
  | .batchDelete _ => True
  | .register service expectedIndex =>
    if L.isLeader then
      service.json.Valid ∧
        f.serviceStore.toServiceTable.checkRegisterCAS service.json.name expectedIndex = none ∧
        f.serviceStore.toServiceTable.nextIndex = 0
    else ¬ service.json.Valid
  | .deregister name expectedIndex =>
    L.isLeader ∧
      f.serviceStore.toServiceTable.checkDeregisterCAS (jsonString name) expectedIndex = none
  | .mutation denied key _ index =>
    denied ≠ none ∨
      f.kvStore.toKVTable.checkSetCAS (jsonString key) (UInt64.ofInt index) = none

/-! ### Refusals -/

/-- The errors a comparison of indices can answer. -/
def GoError.Refusal (err : GoError) : Prop := isCASConflict err ∨ isNotFound err

theorem ServiceTable.checkRegisterCAS_refusal {t : ServiceTable} {name : GoString}
    {expectedIndex : UInt64} {err : GoError} (h : t.checkRegisterCAS name expectedIndex = some err) :
    err.Refusal := by
  unfold checkRegisterCAS at h
  split at h
  · split_ifs at h <;> exact Option.some.inj h ▸ .inl rfl
  · split_ifs at h
    exact Option.some.inj h ▸ .inr rfl

theorem ServiceTable.checkDeregisterCAS_refusal {t : ServiceTable} {name : GoString}
    {expectedIndex : UInt64} {err : GoError}
    (h : t.checkDeregisterCAS name expectedIndex = some err) : err.Refusal := by
  unfold checkDeregisterCAS at h
  split at h
  · exact Option.some.inj h ▸ .inr rfl
  · split_ifs at h
    exact Option.some.inj h ▸ .inl rfl

theorem validateService_not_refusal {service : Service} {range : service.metadata.Order}
    {err : GoError} (h : validateService service range = some err) : ¬ err.Refusal := by
  have htext (message : GoString) : ¬ (GoError.text message).Refusal := by
    rintro (h | h) <;> exact Bool.noConfusion h
  have hwrap (message : GoString) (cause : GoError) : ¬ (GoError.wrap message cause).Refusal := by
    rintro (h | h) <;> exact Bool.noConfusion h
  unfold validateService at h
  split_ifs at h
  · exact Option.some.inj h ▸ htext _
  · exact Option.some.inj h ▸ htext _
  · exact Option.some.inj h ▸ htext _
  · exact Option.some.inj h ▸ htext _
  · split at h
    · exact Option.some.inj h ▸ hwrap _ _
    · split at h
      · exact Option.some.inj h ▸ hwrap _ _
      · cases h

/-- `errors.Is` finds an error variable neither in a conflict nor in a missing entry. -/
theorem GoError.not_refusal_of_is {err : GoError} (h : GoError.is errNotLeader err = true) :
    ¬ err.Refusal := by
  rintro (hc | hn)
  · cases err <;> simp_all [isCASConflict, GoError.is, errNotLeader]
  · cases err <;> simp_all [isNotFound, GoError.is, errNotLeader]

/-! ### Reporting -/

section

variable {req : CASRequest} {answer : FsmResponse}

theorem reports_applied {r : Response} (ha : answer.error = none)
    (hindex : req.Shows answer (.http r)) : Reports req (.http r) answer ↔ r.status = 200 := by
  refine ⟨fun h => h.success.mpr ha, fun h => ⟨⟨fun _ => ha, fun _ => h⟩, fun _ => hindex, ?_, ?_⟩⟩
  · intro err he
    rw [ha] at he
    cases he
  · intro err he
    rw [ha] at he
    cases he

variable {err : GoError}

theorem reports_casRefused (ha : answer.error = some err) {notFound failed : Response}
    (hn : notFound.status = 404) (hf : failed.status ≠ 200) :
    Reports req (.http (casRefused err notFound failed)) answer := by
  have hsome {err' : GoError} (h : answer.error = some err') : err' = err :=
    Option.some.inj (h.symm.trans ha)
  refine ⟨⟨fun h => ?_, fun h => absurd (h.symm.trans ha) (by simp)⟩,
    fun h => absurd (h.symm.trans ha) (by simp), fun err' he hc => ?_, fun err' he hc => ?_⟩
  · simp only [Reply.Success, casRefused] at h
    split_ifs at h
    · exact absurd h (by decide : (409 : ℕ) ≠ 200)
    · rw [hn] at h
      exact absurd h (by decide)
    · exact absurd h hf
  · rw [hsome he] at hc
    simp only [Reply.Conflict, casRefused, hc, ite_true]
    rfl
  · rw [hsome he] at hc
    have hconflict : isCASConflict err = false := by
      cases err <;> first | rfl | cases hc
    simp only [Reply.NotFound, casRefused, hconflict, hc, Bool.false_eq_true, ite_true, ite_false, hn]

theorem reports_replyTo {r : CASResult} {leader : GoString} {notFound : GoError → Response}
    {failed applied : Response} (hn : ∀ err, (notFound err).status = 404)
    (hf : failed.status ≠ 200) (hindex : r.err = none → req.Shows (.cas r) (.http applied)) :
    Reports req (.http (replyTo leader (fun err => casRefused err (notFound err) failed) applied
      r.err)) (.cas r) ↔ applied.status = 200 ∨ r.err ≠ none := by
  have herror : (FsmResponse.cas r).error = r.err := rfl
  cases ha : r.err with
  | none =>
    have happlied := reports_applied (herror.trans ha) (hindex ha)
    simp only [replyTo, happlied, ne_eq, not_true_eq_false, or_false]
  | some err =>
    have hsome {err' : GoError} (h : (FsmResponse.cas r).error = some err') : err' = err :=
      Option.some.inj (h.symm.trans ha)
    refine iff_of_true ?_ (.inr (by simp))
    simp only [replyTo]
    split_ifs with his
    · have hrefusal := GoError.not_refusal_of_is his
      refine ⟨⟨fun h => absurd h (by decide : (503 : ℕ) ≠ 200), fun h => ?_⟩, fun h => ?_,
        fun err' he hc => ?_, fun err' he hc => ?_⟩
      · exact absurd (h.symm.trans ha) (by simp)
      · exact absurd (h.symm.trans ha) (by simp)
      · exact absurd (.inl (hsome he ▸ hc)) hrefusal
      · exact absurd (.inr (hsome he ▸ hc)) hrefusal
    · exact reports_casRefused (herror.trans ha) (hn err) hf

theorem not_reports_status (ha : answer.error = some err) (hr : err.Refusal) (L : Surroundings)
    {body : List (GoString × Value)} : ¬ Reports req (.http ⟨L.status, body⟩) answer := by
  have hstatus : L.status = 200 ∨ L.status = 503 ∨ L.status = 307 := by
    unfold Surroundings.status
    split_ifs <;> simp
  intro h
  rcases hr with hc | hn
  · have h409 : L.status = 409 := h.conflict err ha hc
    omega
  · have h404 : L.status = 404 := h.notFound err ha hn
    omega

end

/-! ### Each request -/

section

variable (L : Surroundings) (w : World)

theorem answer_setCAS (key value : GoString) (expectedIndex : UInt64) :
    ∃ r, (w.commit L (.kv (.setCAS key value expectedIndex))).answer = .cas r ∧
      r.err = w.fsm.kvStore.toKVTable.checkSetCAS (jsonString key) expectedIndex := by
  have h := (FSM.applyKV_eq w.fsm.kvStore
    (.setCAS (jsonString key) (jsonString value) expectedIndex) ()).2
  simp only [KVTable.applyCommand] at h
  cases hcheck : w.fsm.kvStore.toKVTable.checkSetCAS (jsonString key) expectedIndex with
  | some err => exact ⟨_, h.trans (by rw [hcheck]), rfl⟩
  | none => exact ⟨_, h.trans (by rw [hcheck]), rfl⟩

theorem answer_deleteCAS (key : GoString) (expectedIndex : UInt64) :
    ∃ r, (w.commit L (.kv (.deleteCAS key expectedIndex))).answer = .cas r ∧
      r.err = w.fsm.kvStore.toKVTable.checkDeleteCAS (jsonString key) expectedIndex := by
  have h := (FSM.applyKV_eq w.fsm.kvStore (.deleteCAS (jsonString key) expectedIndex) ()).2
  simp only [KVTable.applyCommand] at h
  cases hcheck : w.fsm.kvStore.toKVTable.checkDeleteCAS (jsonString key) expectedIndex with
  | some err => exact ⟨_, h.trans (by rw [hcheck]), rfl⟩
  | none => exact ⟨_, h.trans (by rw [hcheck]), rfl⟩

theorem answer_batchSetCAS (items : GoMap GoString GoString)
    (expectedIndices : GoMap GoString UInt64) :
    ∃ r, (w.commit L (.kv (.batchSetCAS items expectedIndices))).answer = .cas r := by
  exact ⟨_, rfl⟩

theorem answer_batchDeleteCAS (keys : List GoString) (expectedIndices : GoMap GoString UInt64) :
    ∃ r, (w.commit L (.kv (.batchDeleteCAS keys expectedIndices))).answer = .cas r :=
  ⟨_, rfl⟩

theorem answer_registerCAS (service : Service) (expectedIndex : UInt64) :
    (¬ service.json.Valid ∧
      ∃ err, (w.commit L (.service (.registerCAS service expectedIndex))).answer =
        .cas ⟨0, ∅, some err⟩ ∧ ¬ err.Refusal) ∨
    (service.json.Valid ∧
      (w.commit L (.service (.registerCAS service expectedIndex))).answer =
        match w.fsm.serviceStore.toServiceTable.checkRegisterCAS service.json.name expectedIndex with
        | some err => .cas ⟨0, ∅, some err⟩
        | none => .cas ⟨w.fsm.serviceStore.toServiceTable.nextIndex, ∅, none⟩) := by
  let range : service.json.metadata.Order :=
    L.choice w.turn (.service (.registerCAS service.json expectedIndex))
  let r := w.fsm.serviceStore.registerCASLocal (L.env w.turn).now (FSM.serviceData service.json)
    range expectedIndex
  have hanswer : (w.commit L (.service (.registerCAS service expectedIndex))).answer =
      .cas ⟨r.2.1, ∅, r.2.2⟩ := rfl
  have hvalidate : validateService (FSM.serviceData service.json).toService range =
      validateService service.json range := rfl
  have hname : (FSM.serviceData service.json).name = service.json.name := rfl
  simp only [hanswer, r, ServiceStore.registerCASLocal, hvalidate, hname]
  rw [service.json.valid_iff range]
  cases hv : validateService service.json range with
  | some err => exact .inl ⟨by simp, err, rfl, validateService_not_refusal hv⟩
  | none =>
    refine .inr ⟨rfl, ?_⟩
    dsimp only
    cases w.fsm.serviceStore.toServiceTable.checkRegisterCAS service.json.name expectedIndex <;>
      rfl

theorem answer_deregisterCAS (name : GoString) (expectedIndex : UInt64) :
    (w.commit L (.service (.deregisterCAS name expectedIndex))).answer.error =
      w.fsm.serviceStore.toServiceTable.checkDeregisterCAS (jsonString name) expectedIndex := by
  simp only [World.commit, Command.json, ServiceCommand.json, FSM.apply, FSM.applyService,
    ServiceStore.deregisterCASLocal]
  cases w.fsm.serviceStore.toServiceTable.checkDeregisterCAS (jsonString name) expectedIndex <;> rfl

end

namespace CASRequest

variable {L : Surroundings} {f : FSM} {req : CASRequest}

theorem faithful_iff {R : Type} {p : Handler R} {reply : R → Reply} (hreq : req.handler = reply <$> p)
    {c : Command} {r : R}
    (h : p.run (exec L) (.start f) = ((World.start f).committed ((World.start f).commit L c), r)) :
    req.Faithful L f ↔ Reports req (reply r) ((World.start f).commit L c).answer := by
  unfold Faithful
  rw [hreq, Program.run_map, h]
  simp only [World.committed, World.start, List.nil_append, List.mem_singleton, forall_eq]

theorem faithful_of_refused {R : Type} {p : Handler R} {reply : R → Reply}
    (hreq : req.handler = reply <$> p) {r : R} (h : p.run (exec L) (.start f) = (.start f, r)) :
    req.Faithful L f := by
  unfold Faithful
  rw [hreq, Program.run_map, h]
  exact fun e he => absurd he List.not_mem_nil

theorem faithful_kvSet_iff (key value : GoString) (flags expectedIndex : UInt64) :
    (kvSet key value flags expectedIndex).Faithful L f ↔
      (kvSet key value flags expectedIndex).Reported L f := by
  obtain ⟨r, hr, herr⟩ := answer_setCAS L (.start f) key value expectedIndex
  rw [faithful_iff rfl (KVHandler.run_set_cas flags hr), hr]
  refine Iff.trans (reports_replyTo ?_ ?_ ?_) ?_
  · exact fun _ => rfl
  · decide
  · exact fun _ => rfl
  simp only [Reported, json, L.status_eq_iff, herr]
  rfl

theorem faithful_kvDelete_iff (key : GoString) (expectedIndex : UInt64) :
    (kvDelete key expectedIndex).Faithful L f ↔ (kvDelete key expectedIndex).Reported L f := by
  obtain ⟨r, hr, herr⟩ := answer_deleteCAS L (.start f) key expectedIndex
  rw [faithful_iff rfl (KVHandler.run_delete_cas hr), hr]
  refine Iff.trans (reports_replyTo ?_ ?_ ?_) ?_
  · exact fun _ => rfl
  · decide
  · exact fun _ => trivial
  simp only [Reported, KVHandler.deleted, json, L.status_eq_iff, herr]
  rfl

theorem faithful_batchSet (body : BatchHandler.BatchKVSetCASRequest) :
    (batchSet body).Faithful L f := by
  obtain ⟨r, hr⟩ := answer_batchSetCAS L (.start f) body.items body.expectedIndices
  rcases BatchHandler.run_batchKVSetCAS hr with ⟨response, h⟩ | h
  · exact faithful_of_refused rfl h
  · rw [faithful_iff rfl h, hr]
    refine Iff.mpr (reports_replyTo ?_ ?_ ?_) (.inl rfl)
    · exact fun _ => rfl
    · decide
    · exact fun _ => rfl

theorem faithful_batchDelete (body : BatchHandler.BatchKVDeleteCASRequest) :
    (batchDelete body).Faithful L f := by
  obtain ⟨r, hr⟩ := answer_batchDeleteCAS L (.start f) body.keys body.expectedIndices
  rcases BatchHandler.run_batchKVDeleteCAS hr with ⟨response, h⟩ | h
  · exact faithful_of_refused rfl h
  · rw [faithful_iff rfl h, hr]
    refine Iff.mpr (reports_replyTo ?_ ?_ ?_) (.inl rfl)
    · exact fun _ => rfl
    · decide
    · exact fun _ => trivial

theorem faithful_register_iff (service : Service) (expectedIndex : UInt64) :
    (register service expectedIndex).Faithful L f ↔
      (register service expectedIndex).Reported L f := by
  rw [faithful_iff rfl (ServiceHandler.run_register_cas service expectedIndex)]
  rcases answer_registerCAS L (.start f) service expectedIndex with ⟨hvalid, err, h, hr⟩ | ⟨hvalid, h⟩
  · -- a validation error has no status of its own to report
    rw [h]
    by_cases hleader : L.isLeader
    · have hstatus := L.status_eq_iff.mpr hleader
      simp only [Reported, hleader, ite_true, hvalid, false_and, iff_false]
      intro hreports
      exact nomatch hreports.success.mp hstatus
    · have hstatus := mt L.status_eq_iff.mp hleader
      simp only [Reported, hleader, hvalid, Bool.false_eq_true, ite_false, not_false_eq_true, iff_true]
      refine ⟨⟨fun hs => absurd hs hstatus, fun he => (nomatch he)⟩, fun he => (nomatch he), ?_, ?_⟩
      · exact fun err' he hc => absurd (.inl (Option.some.inj he ▸ hc)) hr
      · exact fun err' he hc => absurd (.inr (Option.some.inj he ▸ hc)) hr
  · rw [h]
    simp only [Reported, World.start, hvalid, true_and, not_true_eq_false]
    cases hcheck :
        f.serviceStore.toServiceTable.checkRegisterCAS service.json.name expectedIndex with
    | some err =>
      have hr := ServiceTable.checkRegisterCAS_refusal hcheck
      refine iff_of_false (not_reports_status rfl hr L) ?_
      split_ifs <;> simp
    | none =>
      have hfield : (ServiceHandler.registered L.status service 0).field (str "modify_index") =
          some (.index 0) := rfl
      by_cases hleader : L.isLeader
      · have hstatus := L.status_eq_iff.mpr hleader
        simp only [hleader, ite_true, true_and]
        constructor
        · intro hreports
          have hshows := hreports.index rfl
          exact (Value.index.inj (Option.some.inj (hfield.symm.trans hshows))).symm
        · intro hzero
          refine (reports_applied rfl ?_).mpr hstatus
          change _ = some (Value.index f.serviceStore.toServiceTable.nextIndex)
          rw [hzero]
          exact hfield
      · simp only [hleader, Bool.false_eq_true, ite_false, iff_false]
        intro hreports
        exact hleader (L.status_eq_iff.mp (hreports.success.mpr rfl))

theorem faithful_deregister_iff (name : GoString) (expectedIndex : UInt64) :
    (deregister name expectedIndex).Faithful L f ↔ (deregister name expectedIndex).Reported L f := by
  rw [faithful_iff rfl (ServiceHandler.run_deregister_cas name expectedIndex)]
  have herror := answer_deregisterCAS L (.start f) name expectedIndex
  simp only [Reported]
  cases hcheck : f.serviceStore.toServiceTable.checkDeregisterCAS (jsonString name) expectedIndex with
  | none =>
    refine Iff.trans (reports_applied (herror.trans hcheck) ?_) ?_
    · trivial
    · exact L.status_eq_iff.trans (and_iff_left rfl).symm
  | some err =>
    have hr := ServiceTable.checkDeregisterCAS_refusal hcheck
    exact iff_of_false (not_reports_status (herror.trans hcheck) hr L) (by simp)

theorem faithful_mutation_iff (denied : Option GoError) (key value : GoString) (index : ℤ) :
    (mutation denied key value index).Faithful L f ↔
      (mutation denied key value index).Reported L f := by
  cases denied with
  | some err => exact iff_of_true (faithful_of_refused rfl rfl) (.inl (by simp))
  | none =>
    obtain ⟨r, hr, herr⟩ := answer_setCAS L (.start f) key value (UInt64.ofInt index)
    rw [faithful_iff rfl (run_kvCas key value index), hr]
    simp only [Reported, ne_eq, not_true_eq_false, false_or]
    change _ ↔ (World.start f).fsm.kvStore.toKVTable.checkSetCAS _ _ = none
    rw [← herr]
    refine ⟨fun h => h.success.mp ⟨_, rfl⟩, fun h => ⟨⟨fun _ => h, fun _ => ⟨_, rfl⟩⟩, ?_, ?_, ?_⟩⟩
    · exact fun _ => trivial
    · exact fun err he => absurd (h.symm.trans he) (by simp)
    · exact fun err he => absurd (h.symm.trans he) (by simp)

/-- When a request reports what became of its command. -/
theorem faithful_iff_reported (L : Surroundings) (f : FSM) (req : CASRequest) :
    req.Faithful L f ↔ req.Reported L f := by
  cases req with
  | kvSet key value flags expectedIndex => exact faithful_kvSet_iff key value flags expectedIndex
  | kvDelete key expectedIndex => exact faithful_kvDelete_iff key expectedIndex
  | batchSet body => exact iff_of_true (faithful_batchSet body) trivial
  | batchDelete body => exact iff_of_true (faithful_batchDelete body) trivial
  | register service expectedIndex => exact faithful_register_iff service expectedIndex
  | deregister name expectedIndex => exact faithful_deregister_iff name expectedIndex
  | mutation denied key value index => exact faithful_mutation_iff denied key value index

/-! ### A conflict reported as a success -/

/-- The service is registered, and a registration asks for a new one. -/
theorem conflict_reported_as_success :
    ¬ (CASRequest.register web 0).Faithful .leader
      ((FSM.fresh 10).apply 0 (.service (.register web)) noMetadata).1 := by
  intro h
  have hreports := h _ (List.mem_singleton_self _)
  have happlied := hreports.success.mp rfl
  revert happlied
  decide

end CASRequest

end Konsul
