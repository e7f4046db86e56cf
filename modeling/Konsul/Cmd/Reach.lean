import Konsul.Cmd.Routes

/-!
# Which requests reach an entry

`Within G` says of a call that it touches an entry only where `G` allows its
capability, `Silent` that it touches none, whatever it answers. A handler is
bounded by what its calls are; `Idle` says of the input of a route when its
handler touches nothing at all.
-/

namespace Konsul

open GoLib
open Program (only_bind only_bind_ret_iff only_perform)

def StoreCall.Within (G : Capability → Slot → Prop) (c : StoreCall) : Prop :=
  ∀ a slot, c.Touches a slot → G c.capability slot

def StoreCall.Silent (c : StoreCall) : Prop := ∀ a slot, ¬ c.Touches a slot

def Op.Within (G : Capability → Slot → Prop) (o : Op) : Prop :=
  ∀ slot, o.Touches slot → G o.capability slot

def Op.Silent (o : Op) : Prop := ∀ slot, ¬ o.Touches slot

instance (o : Op) : Nonempty o.Answer := by
  cases o with
  | isLeader => exact ⟨true⟩
  | leaderAddr => exact ⟨[]⟩
  | applyEntry c => exact ⟨.ok (.err none)⟩
  | kvStore c => exact ⟨KVResult.ok⟩
  | serviceStore c => exact ⟨⟨0, false, none⟩⟩
  | getKVEntry key => exact ⟨none⟩
  | getServiceEntry name => exact ⟨none⟩
  | view answer => exact ⟨⟨200, []⟩⟩

/-! ### Handlers that write -/

section

variable {R : Type} {P : StoreCall → Prop}

theorem ofHandler_only_iff (h : Handler R) :
    (Reader.ofHandler h).Only P ↔ h.Only fun o => P (.op o) := by
  induction h with
  | ret r => exact Iff.rfl
  | call o next ih => exact and_congr_right fun _ => forall_congr' ih

theorem writes_only_iff (h : Handler Response) :
    (writes h).Only P ↔ h.Only fun o => P (.op o) :=
  (only_bind_ret_iff (Reader.ofHandler h) Display.response).trans (ofHandler_only_iff h)

end

theorem writes_within_iff (G : Capability → Slot → Prop) (h : Handler Response) :
    (writes h).Only (StoreCall.Within G) ↔ h.Only (Op.Within G) := by
  have hop (o : Op) : (StoreCall.op o).Within G ↔ o.Within G := by
    obtain ⟨a⟩ : Nonempty o.Answer := inferInstance
    exact ⟨fun h => h a, fun h _ => h⟩
  refine (writes_only_iff h).trans (iff_of_eq (congrArg (Program.Only · h) ?_))
  exact funext fun o => propext (hop o)

theorem writes_silent_iff (h : Handler Response) :
    (writes h).Only StoreCall.Silent ↔ h.Only Op.Silent :=
  writes_within_iff (fun _ _ => False) h

/-- What becomes of a string that is sent through the log. -/
def sent (raft : Bool) (s : GoString) : GoString := if raft then jsonString s else s

theorem only_checkLeader_bind_iff {R : Type} {P : Op → Prop} (hask : ∀ o, o.AsksLeader → P o)
    (raft : Bool) {f : ℕ → Handler R} {C : Prop} (hf : ∀ status, (f status).Only P ↔ C) :
    (checkLeaderForWrite raft >>= f).Only P ↔ C := by
  have hcheck := (only_checkLeader raft).mono hask
  refine ⟨fun h => ?_, fun h => only_bind hcheck fun status => (hf status).mpr h⟩
  cases raft with
  | false => exact (hf 200).mp h
  | true => exact (hf 200).mp (h.2 true)

theorem asksLeader_silent (o : Op) (h : o.AsksLeader) : o.Silent := by
  cases o with
  | isLeader => exact fun _ => id
  | leaderAddr => exact fun _ => id
  | _ => exact h.elim

theorem Op.Silent.within {o : Op} (h : o.Silent) (G : Capability → Slot → Prop) : o.Within G :=
  fun slot htouch => absurd htouch (h slot)

theorem asksLeader_within (G : Capability → Slot → Prop) (o : Op) (h : o.AsksLeader) :
    o.Within G := (asksLeader_silent o h).within G

/-! ### Keys -/

namespace KVHandler

variable {P : Op → Prop} (hask : ∀ o, o.AsksLeader → P o) (raft : Bool) (status : ℕ)
  (key : GoString)

include hask

theorem only_refused (err : GoError) (failed : Response) :
    (if raft && GoError.is errNotLeader err then
      (do return .notLeader (← Node.leaderAddr) : Handler Response)
    else return failed).Only P := by
  split
  · exact only_bind (only_perform (hask _ trivial)) fun _ => trivial
  · trivial

theorem only_casReply (err : Option GoError) (refused : GoError → Response) (reply : Response) :
    (match err with
      | some err => do
        if raft && GoError.is errNotLeader err then
          return .notLeader (← Node.leaderAddr)
        return refused err
      | none => return reply : Handler Response).Only P := by
  cases err with
  | none => trivial
  | some err => exact only_refused hask raft err _

theorem setCAS_only_iff (value : GoString) (expectedIndex : UInt64) :
    (setCAS raft status key value expectedIndex).Only P ↔
      P (if raft then .applyEntry (.kv (.setCAS key value expectedIndex))
        else .kvStore (.setCAS key value expectedIndex)) := by
  cases raft with
  | false => exact ⟨And.left, fun h => ⟨h, fun r => only_casReply hask false r.err _ _⟩⟩
  | true =>
    exact ⟨And.left, fun h => ⟨h, fun r => only_casReply hask true (Node.casResult r).err _ _⟩⟩

theorem deleteCAS_only_iff (expectedIndex : UInt64) :
    (deleteCAS raft status key expectedIndex).Only P ↔
      P (if raft then .applyEntry (.kv (.deleteCAS key expectedIndex))
        else .kvStore (.deleteCAS key expectedIndex)) := by
  cases raft with
  | false => exact ⟨And.left, fun h => ⟨h, fun r => only_casReply hask false r.err _ _⟩⟩
  | true =>
    exact ⟨And.left, fun h => ⟨h, fun r => only_casReply hask true (Node.casResult r).err _ _⟩⟩

omit hask

theorem single_within_iff (G : Capability → Slot → Prop) (c : KVCommand)
    (hnames : ∀ k, c.Names k ↔ k = key) (hjson : ∀ k, c.json.Names k ↔ k = jsonString key) :
    (if raft then .applyEntry (.kv c) else .kvStore c : Op).Within G ↔
      G (Command.kv c).capability (.key (sent raft key)) := by
  cases raft with
  | false =>
    refine ⟨fun h => h (.key key) ((hnames key).mpr rfl), fun h slot hslot => ?_⟩
    cases slot with
    | key k => exact (hnames k).mp hslot ▸ h
    | service name => exact hslot.elim
  | true =>
    refine ⟨fun h => h (.key (jsonString key)) ((hjson _).mpr rfl), fun h slot hslot => ?_⟩
    cases slot with
    | key k => exact (hjson k).mp hslot ▸ h
    | service name => exact hslot.elim

/-- The handler reads the entry back under the key as it came. -/
theorem setReply_only_iff (key : GoString) (c : KVCommand) (reply : Option KVEntry → Response) :
    (Node.applyCommand (.kv c) >>= fun err => match err with
      | some err => (return .replicationFailed err : Handler Response)
      | none => do return reply (← Program.perform (Op.getKVEntry key))).Only P ↔
      P (.applyEntry (.kv c)) ∧ P (.getKVEntry key) := by
  refine ⟨fun h => ⟨h.1, (h.2 (.ok (.err none))).1⟩, fun h => ⟨h.1, fun a => ?_⟩⟩
  cases a with
  | error err => trivial
  | ok resp => exact ⟨h.2, fun _ => trivial⟩

theorem set_within_iff (G : Capability → Slot → Prop) (body : Option KVSetBody) :
    (set raft key body).Only (Op.Within G) ↔ ∀ b, body = some b →
      G .write (.key (sent raft key)) ∧ (b.cas = none → G .write (.key key)) := by
  refine only_checkLeader_bind_iff (asksLeader_within G) raft fun status => ?_
  match body with
  | none => exact iff_of_true trivial fun b h => by cases h
  | some ⟨value, some expectedIndex, flags⟩ =>
    refine (setCAS_only_iff (asksLeader_within G) raft status key value expectedIndex).trans ?_
    refine (single_within_iff raft key G _ (fun _ => Iff.rfl) fun _ => Iff.rfl).trans ?_
    refine ⟨fun h b hb => ?_, fun h => (h _ rfl).1⟩
    obtain rfl := Option.some.inj hb
    exact ⟨h, fun hcas => by cases hcas⟩
  | some ⟨value, none, flags⟩ =>
    have hbody : (∀ b, some (KVSetBody.mk value none flags) = some b →
        G .write (.key (sent raft key)) ∧ (b.cas = none → G .write (.key key))) ↔
        G .write (.key (sent raft key)) ∧ G .write (.key key) :=
      ⟨fun h => ⟨(h _ rfl).1, (h _ rfl).2 rfl⟩, fun h b _ => ⟨h.1, fun _ => h.2⟩⟩
    have hread : (Op.getKVEntry key).Within G ↔ G .write (.key key) :=
      ⟨fun h => h _ rfl, fun h slot hslot => by obtain rfl := hslot; exact h⟩
    have hcall (c : KVCommand) (hc : c = .setWithFlags key value flags ∨ c = .set key value) :
        (if raft then .applyEntry (.kv c) else .kvStore c : Op).Within G ↔
          G .write (.key (sent raft key)) := by
      rcases hc with rfl | rfl
      · exact single_within_iff raft key G _ (fun _ => Iff.rfl) fun _ => Iff.rfl
      · exact single_within_iff raft key G _ (fun _ => Iff.rfl) fun _ => Iff.rfl
    rw [hbody]
    cases raft with
    | false =>
      have hc : (if flags > 0 then .setWithFlags key value flags else .set key value) =
          KVCommand.setWithFlags key value flags ∨
          (if flags > 0 then .setWithFlags key value flags else .set key value) =
          KVCommand.set key value := by
        split
        · exact Or.inl rfl
        · exact Or.inr rfl
      exact ⟨fun h => ⟨(hcall _ hc).mp h.1, hread.mp (h.2 KVResult.ok).1⟩,
        fun h => ⟨(hcall _ hc).mpr h.1, fun _ => ⟨hread.mpr h.2, fun _ => trivial⟩⟩⟩
    | true =>
      have happly (c : KVCommand) (hc : c = .setWithFlags key value flags ∨ c = .set key value)
          (reply : Option KVEntry → Response) :=
        (setReply_only_iff (P := Op.Within G) key c reply).trans (and_congr (hcall c hc) hread)
      by_cases hflags : flags > 0
      · simp only [hflags, ite_true]
        exact happly _ (Or.inl rfl) _
      · simp only [hflags, ite_true, ite_false]
        exact happly _ (Or.inr rfl) _

theorem delete_within_iff (G : Capability → Slot → Prop) (cas : CasParam) :
    (delete raft key cas).Only (Op.Within G) ↔
      (cas ≠ .invalid → G .delete (.key (sent raft key))) := by
  refine only_checkLeader_bind_iff (asksLeader_within G) raft fun status => ?_
  have hcall (c : KVCommand) := single_within_iff raft key G c
  cases cas with
  | invalid => exact iff_of_true trivial fun h => absurd rfl h
  | index expectedIndex =>
    refine (deleteCAS_only_iff (asksLeader_within G) raft status key expectedIndex).trans ?_
    refine (hcall (.deleteCAS key expectedIndex) (fun _ => Iff.rfl) fun _ => Iff.rfl).trans ?_
    exact ⟨fun h _ => h, fun h => h fun hcas => nomatch hcas⟩
  | absent =>
    have hdelete := hcall (.delete key) (fun _ => Iff.rfl) fun _ => Iff.rfl
    refine Iff.trans ?_ ⟨fun h _ => h, fun h => h fun hcas => nomatch hcas⟩
    cases raft with
    | false => exact ⟨fun h => hdelete.mp h.1, fun h => ⟨hdelete.mpr h, fun _ => trivial⟩⟩
    | true =>
      refine ⟨fun h => hdelete.mp h.1, fun h => ⟨hdelete.mpr h, fun a => ?_⟩⟩
      cases a <;> trivial

end KVHandler

/-! ### Services -/

namespace ServiceHandler

variable (raft : Bool)

theorem register_silent_iff (body : Option RegisterBody) :
    (register raft body).Only Op.Silent ↔ body = none := by
  refine only_checkLeader_bind_iff asksLeader_silent raft fun status => ?_
  match body with
  | none => exact iff_of_true trivial rfl
  | some ⟨svc, some expectedIndex⟩ =>
    refine iff_of_false (fun h => ?_) (fun h => nomatch h)
    cases raft with
    | true =>
      have hsilent : (Op.applyEntry (.service (.registerCAS svc expectedIndex))).Silent := h.1
      exact hsilent (.service (jsonString svc.name)) rfl
    | false =>
      have hsilent : (Op.serviceStore (.registerCAS svc expectedIndex)).Silent := h.1
      exact hsilent (.service svc.name) rfl
  | some ⟨svc, none⟩ =>
    refine iff_of_false (fun h => ?_) (fun h => nomatch h)
    cases raft with
    | true =>
      have hsilent : (Op.applyEntry (.service (.register { svc with checks := [] }))).Silent := h.1
      exact hsilent (.service (jsonString svc.name)) rfl
    | false =>
      have hsilent : (Op.serviceStore (.register svc)).Silent := h.1
      exact hsilent (.service svc.name) rfl

theorem deregister_silent_iff (name : GoString) (cas : CasParam) :
    (deregister raft name cas).Only Op.Silent ↔ cas = .invalid := by
  refine only_checkLeader_bind_iff asksLeader_silent raft fun status => ?_
  cases cas with
  | invalid => exact iff_of_true trivial rfl
  | index expectedIndex =>
    refine iff_of_false (fun h => ?_) (fun h => nomatch h)
    cases raft with
    | true =>
      have hsilent : (Op.applyEntry (.service (.deregisterCAS name expectedIndex))).Silent := h.1
      exact hsilent (.service (jsonString name)) rfl
    | false =>
      have hsilent : (Op.serviceStore (.deregisterCAS name expectedIndex)).Silent := h.1
      exact hsilent (.service name) rfl
  | absent =>
    refine iff_of_false (fun h => ?_) (fun h => nomatch h)
    cases raft with
    | true =>
      have hsilent : (Op.applyEntry (.service (.deregister name))).Silent := h.1
      exact hsilent (.service (jsonString name)) rfl
    | false =>
      have hsilent : (Op.serviceStore (.deregister name)).Silent := h.1
      exact hsilent (.service name) rfl

theorem heartbeat_not_silent (name : GoString) : ¬ (heartbeat raft name).Only Op.Silent := by
  refine (only_checkLeader_bind_iff asksLeader_silent raft (C := False) fun status => ?_).mp
  refine iff_of_false (fun h => ?_) id
  cases raft with
  | true =>
    have hsilent : (Op.applyEntry (.service (.heartbeat name))).Silent := h.1
    exact hsilent (.service (jsonString name)) rfl
  | false =>
    have hsilent : (Op.serviceStore (.heartbeat name)).Silent := h.1
    exact hsilent (.service name) rfl

end ServiceHandler

theorem updateTTLCheck_silent (raft : Bool) (checkID : GoString) :
    (HealthCheckHandler.updateTTLCheck raft checkID).Only Op.Silent := by
  cases raft with
  | true =>
    have hcall : (Op.applyEntry (.service (.ttlUpdate checkID))).Silent :=
      fun slot htouch => by cases slot <;> exact htouch
    refine only_bind (only_perform hcall) fun r => ?_
    cases r with
    | ok resp => trivial
    | error err =>
      dsimp only
      split
      · exact only_bind (only_perform (asksLeader_silent _ trivial)) fun _ => trivial
      · trivial
  | false =>
    have hcall : (Op.serviceStore (.ttlUpdate checkID)).Silent :=
      fun slot htouch => by cases slot <;> exact htouch
    refine only_bind (only_perform hcall) fun r => ?_
    split <;> trivial

/-! ### Agents -/

/-- An update of a batch that calls the store. -/
def ServiceUpdate.Acts (update : ServiceUpdate) : Prop :=
  if update.type = str "add" ∨ update.type = str "update" then update.service ≠ none
  else update.type = str "delete"

namespace AgentHandlers

theorem processUpdate_silent_iff (update : ServiceUpdate) :
    (processUpdate update).Only Op.Silent ↔ ¬ update.Acts := by
  obtain ⟨type, serviceName, service⟩ := update
  unfold processUpdate ServiceUpdate.Acts
  split_ifs with hadd hdelete
  · cases service with
    | none => exact iff_of_true trivial fun h => h rfl
    | some service =>
      refine iff_of_false (fun h => ?_) fun h => h fun hnone => nomatch hnone
      have hsilent : (Op.serviceStore (.register service)).Silent := h.1
      exact hsilent (.service service.name) rfl
  · refine iff_of_false (fun h => ?_) fun h => h hdelete
    have hsilent : (Op.serviceStore (.deregister serviceName)).Silent := h.1
    exact hsilent (.service serviceName) rfl
  · exact iff_of_true trivial hdelete

theorem processUpdate_of_not_acts {update : ServiceUpdate} (h : ¬ update.Acts) :
    processUpdate update = pure () := by
  obtain ⟨type, serviceName, service⟩ := update
  unfold ServiceUpdate.Acts at h
  unfold processUpdate
  split_ifs at h ⊢
  · obtain rfl := not_not.mp h
    rfl
  · rfl

theorem processUpdates_silent_iff (updates : List ServiceUpdate) :
    (processUpdates updates).Only Op.Silent ↔ ∀ u ∈ updates, ¬ u.Acts := by
  induction updates with
  | nil => exact iff_of_true trivial fun u hu => absurd hu List.not_mem_nil
  | cons update updates ih =>
    rw [List.forall_mem_cons, ← ih]
    by_cases hacts : update.Acts
    · refine iff_of_false (fun h => ?_) fun h => h.1 hacts
      exact (processUpdate_silent_iff update).mp h.of_bind hacts
    · rw [processUpdates, processUpdate_of_not_acts hacts]
      exact (and_iff_right hacts).symm

theorem handleBatchUpdate_silent_iff (body : Option BatchUpdate) :
    (handleBatchUpdate body).Only Op.Silent ↔ ∀ b, body = some b → ∀ u ∈ b.updates, ¬ u.Acts := by
  cases body with
  | none => exact iff_of_true trivial fun b h => nomatch h
  | some b =>
    refine (only_bind_ret_iff (processUpdates b.updates) _).trans ?_
    refine (processUpdates_silent_iff b.updates).trans ?_
    exact ⟨fun h b' hb => Option.some.inj hb ▸ h, fun h => h b rfl⟩

end AgentHandlers

/-! ### Batches -/

theorem limits_only_iff {Op : Type} {Answer : Op → Type} {R : Type} {P : Op → Prop} {n max : ℕ}
    {r₁ r₂ : R} {p : Program Op Answer R} :
    (if n = 0 then pure r₁ else if n > max then pure r₂ else p).Only P ↔
      n = 0 ∨ n > max ∨ p.Only P := by
  split_ifs with hempty hmany
  · exact iff_of_true trivial (Or.inl hempty)
  · exact iff_of_true trivial (Or.inr (Or.inl hmany))
  · rw [or_iff_right hempty, or_iff_right hmany]

theorem forall_body_iff {B : Type} {b : B} {C : B → Prop} :
    (∀ b', some b = some b' → C b') ↔ C b :=
  ⟨fun h => h b rfl, fun h _ hb => Option.some.inj hb ▸ h⟩

theorem exists_mem_of_card {V : Type} {items : GoMap GoString V} (h : items.keys.card ≠ 0) :
    ∃ key, key ∈ items := by
  obtain ⟨key, hkey⟩ := Finset.card_ne_zero.mp h
  exact ⟨key, Finmap.mem_keys.mp hkey⟩

theorem exists_mem_of_length {α : Type} {l : List α} (h : l.length ≠ 0) : ∃ a, a ∈ l :=
  List.exists_mem_of_ne_nil l fun hnil => h (hnil ▸ rfl)

namespace BatchHandler

variable (raft : Bool)

theorem batchKVSet_silent_iff (body : Option (GoMap GoString GoString)) :
    (batchKVSet raft body).Only Op.Silent ↔
      ∀ items, body = some items → items.keys.card = 0 ∨ items.keys.card > 1000 := by
  cases body with
  | none => exact iff_of_true trivial fun b h => nomatch h
  | some items =>
    refine limits_only_iff.trans (Iff.trans ?_ forall_body_iff.symm)
    refine or_congr_right' fun hcard => or_iff_left fun h => ?_
    obtain ⟨key, hkey⟩ := exists_mem_of_card hcard
    cases raft with
    | true =>
      have hsilent : (Op.applyEntry (.kv (.batchSet items))).Silent := h.1
      exact hsilent (.key (jsonString key)) (mem_jsonMap jsonString hkey)
    | false =>
      have hsilent : (Op.kvStore (.batchSet items)).Silent := h.1
      exact hsilent (.key key) hkey

theorem batchKVDelete_silent_iff (body : Option (List GoString)) :
    (batchKVDelete raft body).Only Op.Silent ↔
      ∀ keys, body = some keys → keys.length = 0 ∨ keys.length > 1000 := by
  cases body with
  | none => exact iff_of_true trivial fun b h => nomatch h
  | some keys =>
    refine limits_only_iff.trans (Iff.trans ?_ forall_body_iff.symm)
    refine or_congr_right' fun hcard => or_iff_left fun h => ?_
    obtain ⟨key, hkey⟩ := exists_mem_of_length hcard
    cases raft with
    | true =>
      have hsilent : (Op.applyEntry (.kv (.batchDelete keys))).Silent := h.1
      exact hsilent (.key (jsonString key)) (List.mem_map_of_mem hkey)
    | false =>
      have hsilent : (Op.kvStore (.batchDelete keys)).Silent := h.1
      exact hsilent (.key key) hkey

theorem batchKVSetCAS_silent_iff (body : Option BatchKVSetCASRequest) :
    (batchKVSetCAS raft body).Only Op.Silent ↔ ∀ req, body = some req →
      req.items.keys.card = 0 ∨ req.items.keys.card > 1000 ∨
      missingIndex ((GoMap.sorted req.items).list.map Sigma.fst) req.expectedIndices ≠ none := by
  cases body with
  | none => exact iff_of_true trivial fun b h => by cases h
  | some req =>
    refine limits_only_iff.trans (Iff.trans ?_ forall_body_iff.symm)
    refine or_congr_right' fun hcard => or_congr_right ?_
    obtain ⟨key, hkey⟩ := exists_mem_of_card hcard
    split
    · rename_i key hmissing
      exact iff_of_true trivial (by rw [hmissing]; exact fun h => by cases h)
    · rename_i hmissing
      refine iff_of_false (fun h => ?_) (not_not.mpr hmissing)
      cases raft with
      | true =>
        have hsilent : (Op.applyEntry (.kv (.batchSetCAS req.items req.expectedIndices))).Silent :=
          h.1
        exact hsilent (.key (jsonString key)) (mem_jsonMap jsonString hkey)
      | false =>
        have hsilent : (Op.kvStore (.batchSetCAS req.items req.expectedIndices)).Silent := h.1
        exact hsilent (.key key) hkey

theorem batchKVDeleteCAS_silent_iff (body : Option BatchKVDeleteCASRequest) :
    (batchKVDeleteCAS raft body).Only Op.Silent ↔ ∀ req, body = some req →
      req.keys.length = 0 ∨ req.keys.length > 1000 ∨
      missingIndex req.keys req.expectedIndices ≠ none := by
  cases body with
  | none => exact iff_of_true trivial fun b h => nomatch h
  | some req =>
    refine limits_only_iff.trans (Iff.trans ?_ forall_body_iff.symm)
    refine or_congr_right' fun hcard => or_congr_right ?_
    obtain ⟨key, hkey⟩ := exists_mem_of_length hcard
    split
    · rename_i key hmissing
      exact iff_of_true trivial (by rw [hmissing]; exact fun h => nomatch h)
    · rename_i hmissing
      refine iff_of_false (fun h => ?_) (not_not.mpr hmissing)
      cases raft with
      | true =>
        have hsilent :
            (Op.applyEntry (.kv (.batchDeleteCAS req.keys req.expectedIndices))).Silent := h.1
        exact hsilent (.key (jsonString key)) (List.mem_map_of_mem hkey)
      | false =>
        have hsilent : (Op.kvStore (.batchDeleteCAS req.keys req.expectedIndices)).Silent := h.1
        exact hsilent (.key key) hkey

theorem registerOne_of_precheck {svc : Service} (h : precheck svc ≠ none) :
    ∃ name, registerOne raft svc = pure (.failed name) := by
  obtain ⟨name, hname⟩ := Option.ne_none_iff_exists'.mp h
  exact ⟨name, by rw [registerOne, hname]⟩

theorem registerOne_not_silent {svc : Service} (h : precheck svc = none) :
    ¬ (registerOne raft svc).Only Op.Silent := by
  rw [registerOne, h]
  intro h
  cases raft with
  | true =>
    have hsilent : (Op.applyEntry (.service (.register svc))).Silent := h.1
    exact hsilent (.service (jsonString svc.name)) rfl
  | false =>
    have hsilent : (Op.serviceStore (.register svc)).Silent := h.1
    exact hsilent (.service svc.name) rfl

theorem registerAll_silent_iff (services : List Service) (registered failed : List GoString) :
    (registerAll raft registered failed services).Only Op.Silent ↔
      ∀ svc ∈ services, precheck svc ≠ none := by
  induction services generalizing registered failed with
  | nil => exact iff_of_true trivial fun u hu => absurd hu List.not_mem_nil
  | cons svc services ih =>
    rw [List.forall_mem_cons]
    by_cases hcheck : precheck svc = none
    · refine iff_of_false (fun h => ?_) fun h => h.1 hcheck
      exact registerOne_not_silent raft hcheck h.of_bind
    · obtain ⟨name, hname⟩ := registerOne_of_precheck raft hcheck
      rw [registerAll, hname, and_iff_right hcheck]
      exact ih _ _

theorem batchServiceRegister_silent_iff (body : Option (List Service)) :
    (batchServiceRegister raft body).Only Op.Silent ↔ ∀ services, body = some services →
      services.length = 0 ∨ services.length > 100 ∨ ∀ svc ∈ services, precheck svc ≠ none := by
  cases body with
  | none => exact iff_of_true trivial fun b h => nomatch h
  | some services =>
    refine limits_only_iff.trans (Iff.trans ?_ forall_body_iff.symm)
    exact or_congr_right (or_congr_right (registerAll_silent_iff raft services [] []))

theorem deregisterOne_not_silent (name : GoString) :
    ¬ (deregisterOne raft name).Only Op.Silent := by
  intro h
  cases raft with
  | true =>
    have hsilent : (Op.applyEntry (.service (.deregister name))).Silent := h.1
    exact hsilent (.service (jsonString name)) rfl
  | false =>
    have hsilent : (Op.serviceStore (.deregister name)).Silent := h.1
    exact hsilent (.service name) rfl

theorem batchServiceDeregister_silent_iff (body : Option (List GoString)) :
    (batchServiceDeregister raft body).Only Op.Silent ↔
      ∀ names, body = some names → names.length = 0 ∨ names.length > 100 := by
  cases body with
  | none => exact iff_of_true trivial fun b h => nomatch h
  | some names =>
    refine limits_only_iff.trans (Iff.trans ?_ forall_body_iff.symm)
    refine or_congr_right' fun hcard => or_iff_left fun h => ?_
    cases names with
    | nil => exact hcard rfl
    | cons name names => exact deregisterOne_not_silent raft name h.of_bind

end BatchHandler

/-! ### Handlers that read -/

section

variable {P : StoreCall → Prop}

theorem consistentRead_only_iff (h : P .ensureLinearizableRead) (raft consistent : Bool)
    (read : Reader Display) : (consistentRead raft consistent read).Only P ↔ read.Only P := by
  unfold consistentRead
  split
  · refine ⟨fun honly => honly.2 none, fun honly => ⟨h, fun a => ?_⟩⟩
    cases a with
    | none => exact honly
    | some err => trivial
  · exact Iff.rfl

theorem kvGet_only_iff (h : P .ensureLinearizableRead) (raft consistent includeMetadata : Bool)
    (key : GoString) : (KVHandler.get raft consistent includeMetadata key).Only P ↔
      P (if includeMetadata then .kvGetEntry key else .kvGet key) := by
  refine (consistentRead_only_iff h raft consistent _).trans ?_
  cases includeMetadata with
  | true => exact ⟨And.left, fun h => ⟨h, fun a => by cases a <;> trivial⟩⟩
  | false => exact ⟨And.left, fun h => ⟨h, fun a => by cases a <;> trivial⟩⟩

theorem kvList_only_iff (h : P .ensureLinearizableRead) (raft consistent : Bool) :
    (KVHandler.list raft consistent).Only P ↔ P .kvList :=
  (consistentRead_only_iff h raft consistent _).trans ⟨And.left, fun h => ⟨h, fun _ => trivial⟩⟩

end

theorem getAll_silent_iff (names : List GoString) (found : GoMap GoString Service)
    (notFound : List GoString) :
    (BatchHandler.getAll found notFound names).Only StoreCall.Silent ↔ names = [] := by
  cases names with
  | nil => exact iff_of_true trivial rfl
  | cons name names =>
    refine iff_of_false (fun h => ?_) fun h => nomatch h
    have hsilent : (StoreCall.serviceGet name).Silent := h.1
    exact hsilent none (.service name) rfl

theorem batchServiceGet_silent_iff (body : Option (List GoString)) :
    (BatchHandler.batchServiceGet body).Only StoreCall.Silent ↔
      ∀ names, body = some names → names.length = 0 ∨ names.length > 100 := by
  cases body with
  | none => exact iff_of_true trivial fun b h => nomatch h
  | some names =>
    refine limits_only_iff.trans (Iff.trans ?_ forall_body_iff.symm)
    refine or_congr_right' fun hcard => or_iff_left fun h => ?_
    obtain rfl := (getAll_silent_iff names ∅ []).mp h
    exact hcard rfl

theorem batchKVGet_silent_iff (raft consistent : Bool) (body : Option (List GoString)) :
    (BatchHandler.batchKVGet raft consistent body).Only StoreCall.Silent ↔
      ∀ keys, body = some keys → keys.length = 0 ∨ keys.length > 1000 := by
  cases body with
  | none => exact iff_of_true trivial fun b h => nomatch h
  | some keys =>
    refine limits_only_iff.trans (Iff.trans ?_ forall_body_iff.symm)
    refine or_congr_right' fun hcard => or_iff_left fun h => ?_
    obtain ⟨key, hkey⟩ := exists_mem_of_length hcard
    have honly := (consistentRead_only_iff (fun _ _ => id) raft consistent _).mp h
    have hsilent : (StoreCall.kvBatchGet keys).Silent := honly.1
    exact hsilent (∅, []) (.key key) ⟨key, hkey, rfl⟩

/-- A service, for an answer with something in it. -/
def someService : Service := ⟨[], [], 0, [], ∅, []⟩

def someCheck : Check :=
  { id := [], name := [], serviceID := [], type := .http, status := .passing, output := []
    lastCheck := 0, interval := 0, timeout := 0, http := [], method := [], headers := ∅
    tlsSkipVerify := false, tcp := [], grpc := [], grpcUseTLS := false, ttl := 0, expiresAt := none }

theorem serviceList_not_silent : ¬ StoreCall.serviceList.Silent := fun h =>
  h [someService] (.service []) ⟨someService, List.mem_singleton_self _, rfl⟩

theorem serviceListAll_not_silent : ¬ StoreCall.serviceListAll.Silent := fun h =>
  h [⟨someService, 0, 0, 0⟩] (.service []) ⟨_, List.mem_singleton_self _, rfl⟩

theorem queryByTags_not_silent (tags : List GoString) : ¬ (StoreCall.queryByTags tags).Silent :=
  fun h => h [someService] (.service []) ⟨someService, List.mem_singleton_self _, rfl⟩

theorem queryByMetadata_not_silent (filters : GoMap GoString GoString) :
    ¬ (StoreCall.queryByMetadata filters).Silent :=
  fun h => h [someService] (.service []) ⟨someService, List.mem_singleton_self _, rfl⟩

theorem queryByTagsAndMetadata_not_silent (tags : List GoString)
    (filters : GoMap GoString GoString) :
    ¬ (StoreCall.queryByTagsAndMetadata tags filters).Silent :=
  fun h => h [someService] (.service []) ⟨someService, List.mem_singleton_self _, rfl⟩

theorem refused_or_silent_iff {R : Type} {C : Prop} [Decidable C] {r : R} {c : StoreCall}
    {next : c.Answer → Reader R} (hc : ¬ c.Silent) :
    (if C then pure r else Program.perform c >>= next).Only StoreCall.Silent ↔ C := by
  split_ifs with h
  · exact iff_of_true trivial h
  · exact iff_of_false (fun honly => hc honly.1) h

namespace ServiceHandler

theorem get_not_silent (includeMetadata : Bool) (name : GoString) :
    ¬ (get includeMetadata name).Only StoreCall.Silent := by
  cases includeMetadata with
  | true =>
    intro h
    have hsilent : (StoreCall.serviceGetEntry name).Silent := h.1
    exact hsilent none (.service name) rfl
  | false =>
    intro h
    have hsilent : (StoreCall.serviceGet name).Silent := h.1
    exact hsilent none (.service name) rfl

end ServiceHandler

namespace AgentHandlers

theorem handleAgentSync_silent_iff (body : Option SyncRequest) :
    (handleAgentSync body).Only StoreCall.Silent ↔ body = none := by
  cases body with
  | none => exact iff_of_true trivial rfl
  | some req =>
    refine iff_of_false (fun h => ?_) fun h => nomatch h
    have hservices : StoreCall.getAllServiceUpdates.Silent := (h.2 0).1
    exact hservices [([], ⟨someService, 0, 0, 0⟩)] (.service []) ⟨_, List.mem_singleton_self _, rfl⟩

end AgentHandlers

namespace BackupHandler

variable (engine : Option EngineKind)

theorem createBackup_silent : (createBackup engine).Only StoreCall.Silent := by
  cases engine with
  | none => trivial
  | some kind => exact ⟨fun _ _ => id, fun a => by cases a <;> trivial⟩

theorem restoreBackup_silent_iff (body : Option GoString) :
    (restoreBackup engine body).Only StoreCall.Silent ↔
      engine = none ∨ body = none ∨ body = some [] := by
  cases engine with
  | none => exact iff_of_true trivial (Or.inl rfl)
  | some kind =>
    cases body with
    | none => exact iff_of_true trivial (Or.inr (Or.inl rfl))
    | some backupPath =>
      rw [or_iff_right (fun h => nomatch h), or_iff_right (fun h => nomatch h), Option.some_inj]
      refine refused_or_silent_iff fun h => ?_
      exact h none (.key []) rfl

theorem exportData_silent_iff :
    (exportData engine).Only StoreCall.Silent ↔ engine ≠ some .badger := by
  match engine with
  | none => exact iff_of_true trivial fun h => nomatch h
  | some .memory => exact iff_of_true trivial fun h => nomatch h
  | some .badger =>
    refine iff_of_false (fun h => ?_) fun h => h rfl
    have hsilent : StoreCall.exportData.Silent := h.1
    refine hsilent (.ok ⟨∅, [([], [])]⟩) (.service []) ⟨[], List.mem_singleton_self _⟩

theorem importData_silent_iff (body : Option (List (Bytes × Json))) :
    (importData engine body).Only StoreCall.Silent ↔
      ∀ data, engine = some .badger → body = some data → ∀ slot, ¬ Imports data slot := by
  match engine, body with
  | none, body => exact iff_of_true trivial fun data h => nomatch h
  | some .memory, none => exact iff_of_true trivial fun data h => nomatch h
  | some .memory, some data => exact iff_of_true trivial fun data h => nomatch h
  | some .badger, none => exact iff_of_true trivial fun data _ h => nomatch h
  | some .badger, some data =>
    constructor
    · intro h data' _ hbody slot himports
      obtain rfl := Option.some.inj hbody
      have hsilent : (StoreCall.importData data).Silent := h.1
      exact hsilent none slot ⟨rfl, himports⟩
    · intro h
      refine ⟨fun a slot htouch => h data rfl rfl slot htouch.2, fun a => ?_⟩
      cases a <;> trivial

end BackupHandler

/-! ### Routes -/

/-- Whether the handler of a route touches no entry, for this input. -/
def Target.Idle (S : Server) : Target → Prop
  | .kvList _ => False
  | .kvGet _ _ _ => False
  | .kvSet _ body => body = none
  | .kvDelete _ cas => cas = .invalid
  | .register body => body = none
  | .deregister _ cas => cas = .invalid
  | .heartbeat _ => False
  | .serviceList => False
  | .serviceGet _ _ => False
  | .queryByTags args => args.firstTags = []
  | .queryByMetadata args => args.filters.keys.card = 0
  | .queryByTagsAndMetadata args => args.tagList = [] ∧ args.metaFilters.keys.card = 0
  | .agentRegister _ => True
  | .agentSync body => body = none
  | .agentBatchUpdate body => ∀ b, body = some b → ∀ u ∈ b.updates, ¬ u.Acts
  | .agentHealthUpdate _ => True
  | .selectService _ => False
  | .selectServiceByTags args => args.tagList = []
  | .selectServiceByMetadata args => args.filters.keys.card = 0
  | .selectServiceByQuery args => args.tagList = [] ∧ args.metaFilters.keys.card = 0
  | .batchKVGet _ body => ∀ keys, body = some keys → keys.length = 0 ∨ keys.length > 1000
  | .batchKVSet body =>
    ∀ items, body = some items → items.keys.card = 0 ∨ items.keys.card > 1000
  | .batchKVDelete body => ∀ keys, body = some keys → keys.length = 0 ∨ keys.length > 1000
  | .batchKVSetCAS body => ∀ req, body = some req →
    req.items.keys.card = 0 ∨ req.items.keys.card > 1000 ∨
    BatchHandler.missingIndex ((GoMap.sorted req.items).list.map Sigma.fst) req.expectedIndices ≠
      none
  | .batchKVDeleteCAS body => ∀ req, body = some req →
    req.keys.length = 0 ∨ req.keys.length > 1000 ∨
    BatchHandler.missingIndex req.keys req.expectedIndices ≠ none
  | .batchServiceGet body => ∀ names, body = some names → names.length = 0 ∨ names.length > 100
  | .batchServiceRegister body => ∀ services, body = some services →
    services.length = 0 ∨ services.length > 100 ∨
    ∀ svc ∈ services, BatchHandler.precheck svc ≠ none
  | .batchServiceDeregister body =>
    ∀ names, body = some names → names.length = 0 ∨ names.length > 100
  | .healthCheck => True
  | .liveness => True
  | .listChecks => False
  | .serviceChecks _ => False
  | .updateTTLCheck _ => True
  | .createBackup => True
  | .restoreBackup body => S.engine = none ∨ body = none ∨ body = some []
  | .exportData => S.engine ≠ some .badger
  | .importData body =>
    ∀ data, S.engine = some .badger → body = some data → ∀ slot, ¬ Imports data slot
  | .listBackups => True
  | .graphql _ => True
  | .other => True

theorem Target.idle_iff (S : Server) (t : Target) :
    (t.handler S).Only StoreCall.Silent ↔ t.Idle S := by
  have hlinear : StoreCall.ensureLinearizableRead.Silent := fun _ _ => id
  cases t with
  | kvList consistent =>
    refine (kvList_only_iff hlinear _ _).trans (iff_of_false (fun h => ?_) id)
    exact h [[]] (.key []) ⟨[], List.mem_singleton_self _, rfl⟩
  | kvGet key consistent includeMetadata =>
    refine (kvGet_only_iff hlinear _ _ _ _).trans (iff_of_false (fun h => ?_) id)
    cases includeMetadata with
    | true => exact h none (.key key) rfl
    | false => exact h none (.key key) rfl
  | kvSet key body =>
    refine (writes_silent_iff _).trans ((KVHandler.set_within_iff _ _ (fun _ _ => False) _).trans ?_)
    cases body with
    | none => exact iff_of_true (fun b h => nomatch h) rfl
    | some b => exact iff_of_false (fun h => (h b rfl).1) fun h => nomatch h
  | kvDelete key cas =>
    refine (writes_silent_iff _).trans
      ((KVHandler.delete_within_iff _ _ (fun _ _ => False) _).trans ?_)
    exact not_not
  | register body => exact (writes_silent_iff _).trans (ServiceHandler.register_silent_iff _ _)
  | deregister name cas =>
    exact (writes_silent_iff _).trans (ServiceHandler.deregister_silent_iff _ _ _)
  | heartbeat name =>
    refine (writes_silent_iff _).trans (iff_of_false ?_ id)
    exact ServiceHandler.heartbeat_not_silent _ _
  | serviceList => exact iff_of_false (fun h => serviceList_not_silent h.1) id
  | serviceGet name includeMetadata =>
    exact iff_of_false (ServiceHandler.get_not_silent includeMetadata name) id
  | queryByTags args => exact refused_or_silent_iff (queryByTags_not_silent _)
  | queryByMetadata args => exact refused_or_silent_iff (queryByMetadata_not_silent _)
  | queryByTagsAndMetadata args =>
    exact refused_or_silent_iff (queryByTagsAndMetadata_not_silent _ _)
  | agentRegister id =>
    refine (writes_silent_iff _).trans (iff_of_true ?_ trivial)
    unfold AgentHandlers.handleAgentRegister
    split
    · trivial
    · split <;> trivial
  | agentSync body => exact AgentHandlers.handleAgentSync_silent_iff body
  | agentBatchUpdate body =>
    exact (writes_silent_iff _).trans (AgentHandlers.handleBatchUpdate_silent_iff body)
  | agentHealthUpdate parses =>
    refine (writes_silent_iff _).trans (iff_of_true ?_ trivial)
    unfold AgentHandlers.handleHealthUpdate
    split <;> trivial
  | selectService name => exact iff_of_false (fun h => queryByTags_not_silent _ h.1) id
  | selectServiceByTags args => exact refused_or_silent_iff (queryByTags_not_silent _)
  | selectServiceByMetadata args => exact refused_or_silent_iff (queryByMetadata_not_silent _)
  | selectServiceByQuery args =>
    exact refused_or_silent_iff (queryByTagsAndMetadata_not_silent _ _)
  | batchKVGet consistent body => exact batchKVGet_silent_iff _ _ _
  | batchKVSet body =>
    exact (writes_silent_iff _).trans (BatchHandler.batchKVSet_silent_iff _ _)
  | batchKVDelete body =>
    exact (writes_silent_iff _).trans (BatchHandler.batchKVDelete_silent_iff _ _)
  | batchKVSetCAS body =>
    exact (writes_silent_iff _).trans (BatchHandler.batchKVSetCAS_silent_iff _ _)
  | batchKVDeleteCAS body =>
    exact (writes_silent_iff _).trans (BatchHandler.batchKVDeleteCAS_silent_iff _ _)
  | batchServiceGet body => exact batchServiceGet_silent_iff body
  | batchServiceRegister body =>
    exact (writes_silent_iff _).trans (BatchHandler.batchServiceRegister_silent_iff _ _)
  | batchServiceDeregister body =>
    exact (writes_silent_iff _).trans (BatchHandler.batchServiceDeregister_silent_iff _ _)
  | healthCheck => exact iff_of_true ⟨fun _ _ => id, fun _ => trivial⟩ trivial
  | liveness => exact iff_of_true trivial trivial
  | listChecks =>
    refine iff_of_false (fun h => ?_) id
    have hsilent : StoreCall.getAllHealthChecks.Silent := h.1
    exact hsilent [someCheck] (.service []) ⟨someCheck, List.mem_singleton_self _, rfl⟩
  | serviceChecks name =>
    refine iff_of_false (fun h => ?_) id
    have hsilent : (StoreCall.getHealthChecks name).Silent := h.1
    exact hsilent [] (.service name) rfl
  | updateTTLCheck checkID =>
    exact (writes_silent_iff _).trans (iff_of_true (updateTTLCheck_silent _ _) trivial)
  | createBackup => exact iff_of_true (BackupHandler.createBackup_silent _) trivial
  | restoreBackup body => exact BackupHandler.restoreBackup_silent_iff _ _
  | exportData => exact BackupHandler.exportData_silent_iff _
  | importData body => exact BackupHandler.importData_silent_iff _ _
  | listBackups =>
    refine iff_of_true (?_ : (BackupHandler.listBackups S.engine).Only _) trivial
    cases S.engine <;> trivial
  | graphql operation => exact iff_of_true trivial trivial
  | other => exact iff_of_true trivial trivial

end Konsul
