import Konsul.Handlers.LogOnly
import Konsul.Raft.SnapshotReplay

/-!
# Reads along the log

A client may read from any node. Over the cluster stands a simpler model: one log, and
for every node a position in it. `Replica.after` is the state a log leads to, and a node
shows the state of its position (`At`). Positions and the log only grow, so a read at a
node that has come at least as far as another one shows what that one showed, changed by
the entries in between and by nothing else.
-/

namespace Konsul

open GoLib
open FSM (Applied)

/-! ### The state a log leads to -/

/-- No map of the command has an order that shows, in whatever state it is applied. -/
def Command.Settled : Command → Prop
  | .kv (.batchSet items) => items.keys.card ≤ 1
  | .kv (.batchSetCAS items _) => items.keys.card ≤ 1
  | .service (.registerCAS s _) => s.OneError
  | _ => True

theorem KVTable.failingKeys_card_le (t : KVTable) (items : GoMap GoString GoString)
    (expectedIndices : GoMap GoString UInt64) :
    (t.failingKeys items expectedIndices).card ≤ items.keys.card :=
  Finset.card_filter_le _ _

namespace Replica

theorem orderFree_of_settled (s : Replica) {c : Command} (h : c.Settled) : s.OrderFree c := by
  match c, h with
  | .kv (.batchSet items), h => exact h
  | .kv (.batchSetCAS items expectedIndices), h =>
    have hcard := s.kv.failingKeys_card_le items expectedIndices
    have hitems : items.keys.card ≤ 1 := h
    show _ ∨ _ ∧ _
    by_cases hempty : s.kv.failingKeys items expectedIndices = ∅
    · exact Or.inr ⟨hempty, hitems⟩
    · have hpos := Finset.card_pos.mpr (Finset.nonempty_iff_ne_empty.mpr hempty)
      exact Or.inl (by omega)
  | .kv (.set _ _), _ => trivial
  | .kv (.setWithFlags _ _ _), _ => trivial
  | .kv (.delete _), _ => trivial
  | .kv (.batchDelete _), _ => trivial
  | .kv (.setCAS _ _ _), _ => trivial
  | .kv (.deleteCAS _ _), _ => trivial
  | .kv (.batchDeleteCAS _ _), _ => trivial
  | .service (.register _), _ => trivial
  | .service (.deregister _), _ => trivial
  | .service (.heartbeat _), _ => trivial
  | .service (.ttlUpdate _), _ => trivial
  | .service (.registerCAS _ _), h => exact h
  | .service (.deregisterCAS _ _), _ => trivial
  | .undecodable _, _ => trivial

def after (s : Replica) (log : List Command) : Replica :=
  (chooser.machine.run s (log.map fun c => ⟨c, c.sortedChoice⟩)).1

@[simp] theorem after_nil (s : Replica) : s.after [] = s := rfl

theorem after_append (s : Replica) (log log' : List Command) :
    s.after (log ++ log') = (s.after log).after log' := by
  simp only [after, List.map_append, chooser.machine.run_append]

/-- Whatever orders the maps of a settled log are visited in, it leads to one state. -/
theorem run_settled (s : Replica) (q : List (Σ c : Command, c.Choice))
    (h : ∀ c ∈ q.map Sigma.fst, c.Settled) :
    (chooser.machine.run s q).1 = s.after (q.map Sigma.fst) := by
  have hsettled : ∀ e ∈ q, e.1.Settled := fun e he => h e.1 (List.mem_map_of_mem he)
  have hfree : chooser.machine.Along (fun s e => chooser.Free s e.1) s q :=
    (chooser.machine.along_of_forall s hsettled).mono _ fun s e he =>
      (free_iff s e.1).mpr (s.orderFree_of_settled he)
  have hlog : q.map Sigma.fst =
      ((q.map Sigma.fst).map fun c => (⟨c, c.sortedChoice⟩ : Σ c : Command, c.Choice)).map
        Sigma.fst := by
    rw [List.map_map]
    exact (List.map_id _).symm
  have hrun := chooser.run_eq_of_free hlog hfree
  rw [hrun]
  rfl

end Replica

theorem FSM.replica_run_settled (f : FSM) (r : List Applied)
    (h : ∀ c ∈ r.map Applied.command, c.Settled) :
    (FSM.machine.run f r).1.replica = f.replica.after (r.map Applied.command) := by
  have hrun := congrArg Prod.fst (FSM.replica_run f r)
  rw [← FSM.map_fst_choiceOf] at h ⊢
  rw [← Replica.run_settled f.replica _ h]
  exact hrun.symm

/-! ### Nodes and their positions -/

namespace Cluster

variable {ι : Type} [DecidableEq ι] {first : ι → FSM} {s : Cluster ι}

theorem Follows.step (h : Follows first s) {e : Event ι} (he : Harmless s e) :
    Follows first (machine.step s e).1 := by
  cases e with
  | request i r =>
    exact ⟨h.stores, h.applied_le, fun p hp => by
      rcases List.mem_append.mp hp with hp | hp
      · exact h.handling p hp
      · rw [List.mem_singleton.mp hp]
        exact r.only_reachable⟩
  | resume k e => exact h.resume he
  | commit k => exact h.commit k
  | apply i now choice => exact h.apply i now choice

theorem follows_run (events : List (Event ι)) (h : machine.Along Harmless (start first) events) :
    Follows first (machine.run (start first) events).1 :=
  machine.invariant (fun _ _ hs he => hs.step he) follows_start h

/-- The node shows the state of its position in the log. -/
def At (base : Replica) (s : Cluster ι) (i : ι) : Prop :=
  (s.members i).fsm.replica = base.after (s.log.take (s.members i).applied)

omit [DecidableEq ι] in
theorem Follows.at (h : Follows first s) {base : Replica} {i : ι}
    (hfirst : (first i).replica = base) (hlog : ∀ c ∈ s.log, c.Settled) : At base s i := by
  obtain ⟨r, hr, hreplica⟩ := h.stores i
  have hsettled : ∀ c ∈ r.map Applied.command, c.Settled := by
    intro c hc
    rw [hr] at hc
    exact hlog c (List.mem_of_mem_take hc)
  rw [At, hreplica, FSM.replica_run_settled _ _ hsettled, hr, hfirst]

/-- The log only gets longer, and no node goes back in it. -/
structure Ahead (s s' : Cluster ι) : Prop where
  log : s.log <+: s'.log
  applied : ∀ i, (s.members i).applied ≤ (s'.members i).applied

omit [DecidableEq ι] in
theorem Ahead.refl (s : Cluster ι) : Ahead s s := ⟨List.prefix_rfl, fun _ => le_rfl⟩

omit [DecidableEq ι] in
theorem Ahead.trans {s s' s'' : Cluster ι} (h : Ahead s s') (h' : Ahead s' s'') : Ahead s s'' :=
  ⟨h.log.trans h'.log, fun i => (h.applied i).trans (h'.applied i)⟩

theorem ahead_step (s : Cluster ι) (e : Event ι) : Ahead s (machine.step s e).1 := by
  cases e with
  | request i r => exact ⟨List.prefix_rfl, fun _ => le_rfl⟩
  | resume k e =>
    show Ahead s (s.resume k e)
    unfold Cluster.resume
    split
    · exact Ahead.refl s
    · exact ⟨List.prefix_rfl, fun _ => le_rfl⟩
    · refine ⟨List.prefix_rfl, fun j => ?_⟩
      simp only [setFSM, Function.update_apply]
      split_ifs with hj
      · rw [hj]
      · exact le_rfl
  | commit k =>
    show Ahead s (s.commit k)
    unfold Cluster.commit
    split
    · exact Ahead.refl s
    · exact ⟨List.prefix_append _ _, fun _ => le_rfl⟩
  | apply i now choice =>
    show Ahead s (s.apply i now choice)
    unfold Cluster.apply
    split
    · exact Ahead.refl s
    · refine ⟨List.prefix_rfl, fun j => ?_⟩
      simp only [Function.update_apply]
      split_ifs with hj
      · rw [hj]
        exact Nat.le_succ _
      · exact le_rfl

theorem ahead_run (s : Cluster ι) (events : List (Event ι)) :
    Ahead s (machine.run s events).1 := by
  induction events generalizing s with
  | nil => exact Ahead.refl s
  | cons e events ih => exact (ahead_step s e).trans (ih _)

/-- Nodes that start alike and run as `Harmless` says, with a settled log. Then no node
goes back in the log, and of two reads, at whatever nodes, the later one shows what the
earlier one showed followed by the entries in between, if its node has come as far. -/
theorem reads_monotone (first : ι → FSM) (base : Replica) (hfirst : ∀ i, (first i).replica = base)
    (before after : List (Event ι))
    (h : machine.Along Harmless (start first) (before ++ after))
    (hlog : ∀ c ∈ (machine.run (start first) (before ++ after)).1.log, c.Settled) (i j : ι) :
    let s := (machine.run (start first) before).1
    let s' := (machine.run (start first) (before ++ after)).1
    (s.members i).applied ≤ (s'.members i).applied ∧
      ((s.members i).applied ≤ (s'.members j).applied →
        (s'.members j).fsm.replica = (s.members i).fsm.replica.after
          ((s'.log.take (s'.members j).applied).drop (s.members i).applied)) := by
  intro s s'
  have hs : s' = (machine.run s after).1 := by
    show (machine.run (start first) (before ++ after)).1 = _
    rw [machine.run_append]
  have hahead : Ahead s s' := hs ▸ ahead_run s after
  have hbefore := (machine.along_append _ _ before after).mp h
  have hfollows : Follows first s := follows_run before hbefore.1
  have hsettled : ∀ c ∈ s.log, c.Settled := fun c hc => hlog c (hahead.log.subset hc)
  have hati : At base s i := hfollows.at (hfirst i) hsettled
  have hatj : At base s' j := (follows_run (before ++ after) h).at (hfirst j) hlog
  refine ⟨hahead.applied i, fun hle => ?_⟩
  have htake : s.log.take (s.members i).applied = s'.log.take (s.members i).applied := by
    obtain ⟨rest, hrest⟩ := hahead.log
    rw [← hrest, List.take_append_of_le_length (hfollows.applied_le i)]
  have hcut : s'.log.take (s'.members j).applied =
      s'.log.take (s.members i).applied ++
        (s'.log.take (s'.members j).applied).drop (s.members i).applied := by
    have hmin : min (s.members i).applied (s'.members j).applied = (s.members i).applied := by omega
    have hfront := List.take_append_drop (s.members i).applied (s'.log.take (s'.members j).applied)
    rw [List.take_take, hmin] at hfront
    exact hfront.symm
  rw [At] at hati hatj
  rw [hatj, hati, htake]
  exact (congrArg base.after hcut).trans (Replica.after_append _ _ _)

/-- The first of two nodes has applied a write when it is read; the second is read after
it has applied that write and a deletion. -/
def writeAndDelete : List (Event Bool) × List (Event Bool) :=
  ([.request false (.kvSet (str "a") (some ⟨str "1", none, 0⟩)), .resume 0 encounter,
      .resume 0 encounter, .commit 0, .apply false 0 Command.sortedChoice],
    [.request false (.kvDelete (str "a") .absent), .resume 1 encounter, .resume 1 encounter,
      .commit 0, .apply true 0 Command.sortedChoice, .apply true 0 Command.sortedChoice])

theorem reads_monotone_two_nodes :
    ((machine.run (start fun _ => FSM.fresh 0)
        (writeAndDelete.1 ++ writeAndDelete.2)).1.members true).fsm.replica =
      ((machine.run (start fun _ => FSM.fresh 0) writeAndDelete.1).1.members false).fsm.replica.after
        [.kv (.delete (str "a"))] := by
  have hlog : (machine.run (start fun _ : Bool => FSM.fresh 0)
      (writeAndDelete.1 ++ writeAndDelete.2)).1.log =
        [.kv (.set (str "a") (str "1")), .kv (.delete (str "a"))] := rfl
  refine (reads_monotone (fun _ : Bool => FSM.fresh 0) (FSM.fresh 0).replica (fun _ => rfl)
    writeAndDelete.1 writeAndDelete.2 ?_ ?_ false true).2 ?_
  · exact ⟨trivial, trivial, trivial, trivial, trivial, trivial, trivial, trivial, trivial, trivial,
      trivial, trivial⟩
  · intro c hc
    rw [hlog] at hc
    rcases List.mem_pair.mp hc with rfl | rfl
    · trivial
    · trivial
  · decide

end Cluster

end Konsul
