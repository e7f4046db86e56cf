import Konsul.Handlers.Requests
import Konsul.Raft.Replica

/-!
# Writes go through the log

A cluster of nodes with Raft enabled. Requests are handled concurrently, one
operation at a time; Raft may commit what was proposed in any order, or not at
all, and `ApplyEntry` may answer anything; every node applies the committed log
at its own pace. A node's stores are then those of a prefix of the log, as long
as the one handler that calls a store itself changes nothing there.
-/

namespace Konsul

open GoLib
open FSM (Applied)

/-! ### The cluster -/

/-- A node: its stores, and how many entries of the log it has applied. -/
structure Member where
  fsm : FSM
  applied : ℕ

structure Cluster (ι : Type) where
  members : ι → Member
  /-- The committed log. -/
  log : List Command
  /-- Commands handed to Raft and not committed. -/
  proposed : List Command
  /-- Requests being handled, each on a node. -/
  handling : List (ι × Handler Response)

/-- What a handler meets when it goes on: of Raft, and of the node's surroundings. -/
structure Encounter where
  isLeader : Bool
  leaderAddr : GoString
  applyEntry : Except GoError FsmResponse
  env : StoreEnv
  choice : (c : Command) → c.Choice

inductive Cluster.Event (ι : Type) where
  | request (i : ι) (r : Request)
  /-- The `k`th request being handled performs its next operation, or is answered. -/
  | resume (k : ℕ) (e : Encounter)
  /-- The `k`th proposed command is committed. -/
  | commit (k : ℕ)
  /-- A node applies the next entry of the log. -/
  | apply (i : ι) (now : Time) (choice : (c : Command) → c.Choice)

/-- An operation on a node. -/
def Encounter.perform (e : Encounter) (f : FSM) : (op : Op) → FSM × op.Answer
  | .isLeader => (f, e.isLeader)
  | .leaderAddr => (f, e.leaderAddr)
  | .applyEntry _ => (f, e.applyEntry)
  | .kvStore c => f.callKVStore c (e.choice (.kv c))
  | .serviceStore c => f.callServiceStore e.env c (e.choice (.service c))
  | .getKVEntry key => (f, f.kvStore.getEntry key)
  | .getServiceEntry name => (f, f.serviceStore.getEntry e.env.now name)
  | .view answer => (f, answer f)

/-- The command an operation proposes. -/
def Op.proposes : Op → List Command
  | .applyEntry c => [c.json]
  | _ => []

namespace Cluster

variable {ι : Type} [DecidableEq ι]

def start (members : ι → FSM) : Cluster ι :=
  { members := fun i => ⟨members i, 0⟩, log := [], proposed := [], handling := [] }

def setFSM (s : Cluster ι) (i : ι) (f : FSM) : Cluster ι :=
  { s with members := Function.update s.members i { s.members i with fsm := f } }

def resume (s : Cluster ι) (k : ℕ) (e : Encounter) : Cluster ι :=
  match s.handling[k]? with
  | none => s
  | some (_, .ret _) => { s with handling := s.handling.eraseIdx k }
  | some (i, .call op next) =>
    let r := e.perform (s.members i).fsm op
    { s.setFSM i r.1 with
      proposed := s.proposed ++ op.proposes
      handling := s.handling.set k (i, next r.2) }

def commit (s : Cluster ι) (k : ℕ) : Cluster ι :=
  match s.proposed[k]? with
  | none => s
  | some c => { s with log := s.log ++ [c], proposed := s.proposed.eraseIdx k }

def apply (s : Cluster ι) (i : ι) (now : Time) (choice : (c : Command) → c.Choice) : Cluster ι :=
  match s.log[(s.members i).applied]? with
  | none => s
  | some c =>
    let f := ((s.members i).fsm.apply now c (choice c)).1
    { s with members := Function.update s.members i ⟨f, (s.members i).applied + 1⟩ }

def machine : Machine (Cluster ι) (Event ι) Unit where
  step s
    | .request i r => ({ s with handling := s.handling ++ [(i, r.handler)] }, ())
    | .resume k e => (s.resume k e, ())
    | .commit k => (s.commit k, ())
    | .apply i now choice => (s.apply i now choice, ())

/-! ### Stores of a prefix of the log -/

/-- A direct call that has nothing to do: the service is invalid, or not there. -/
def Idle (f : FSM) : ServiceCommand → Prop
  | .register service => ¬ service.Valid
  | .deregister name => name ∉ f.serviceStore.data
  | _ => True

/-- Where a handler calls the node's service store, the call has nothing to do. -/
def Harmless (s : Cluster ι) : Event ι → Prop
  | .resume k _ =>
    match s.handling[k]? with
    | some (i, .call (.serviceStore c) _) => Idle (s.members i).fsm c
    | _ => True
  | _ => True

theorem replica_deregister {f : FSM} {name : GoString} (h : name ∉ f.serviceStore.data) :
    ({ f with serviceStore := f.serviceStore.deregister name } : FSM).replica = f.replica := by
  have htable : (f.serviceStore.deregister name).toServiceTable =
      f.serviceStore.toServiceTable.remove name := ServiceStore.persist_toServiceTable _ _
  have hregistry : (f.serviceStore.toServiceTable.remove name).registry =
      f.serviceStore.toServiceTable.registry := by
    rw [ServiceTable.registry_remove, Registry.remove]
    have hdata : f.serviceStore.registry.data.erase name = f.serviceStore.registry.data := by
      refine Finmap.ext_lookup fun k => ?_
      rw [GoMap.lookup_erase_ite, ServiceTable.lookup_registry]
      split_ifs with hk
      · rw [hk, Finmap.lookup_eq_none.mpr h, Option.map_none]
      · rfl
    rw [hdata]
  simp only [FSM.replica, htable, hregistry]

theorem replica_callServiceStore {f : FSM} {c : ServiceCommand} (hc : Op.Reachable (.serviceStore c))
    (h : Idle f c) (env : StoreEnv) (ch : c.Choice) :
    (f.callServiceStore env c ch).1.replica = f.replica := by
  cases c with
  | register service =>
    have hrange := mt (service.valid_iff ch).mpr h
    obtain ⟨err, herr⟩ := Option.ne_none_iff_exists'.mp hrange
    simp only [FSM.callServiceStore, ServiceStore.register, herr]
  | deregister name => exact replica_deregister h
  | _ => exact hc.elim

theorem replica_perform {f : FSM} {op : Op} (hop : op.Reachable)
    (h : ∀ c, op = .serviceStore c → Idle f c) (e : Encounter) :
    (e.perform f op).1.replica = f.replica := by
  cases op with
  | kvStore c => exact hop.elim
  | serviceStore c => exact replica_callServiceStore hop (h c rfl) _ _
  | _ => rfl

/-- Every node's stores are those of the entries it has applied. -/
structure Follows (first : ι → FSM) (s : Cluster ι) : Prop where
  stores : ∀ i, ∃ r : List Applied, r.map Applied.command = s.log.take (s.members i).applied ∧
    (s.members i).fsm.replica = (FSM.machine.run (first i) r).1.replica
  applied_le : ∀ i, (s.members i).applied ≤ s.log.length
  handling : ∀ h ∈ s.handling, h.2.Only Op.Reachable

variable {first : ι → FSM} {s : Cluster ι}

omit [DecidableEq ι] in
theorem follows_start : Follows first (start first) :=
  ⟨fun _ => ⟨[], rfl, rfl⟩, fun _ => Nat.zero_le _, fun _ h => absurd h List.not_mem_nil⟩

theorem Follows.resume (h : Follows first s) {k : ℕ} {e : Encounter}
    (hk : Harmless s (.resume k e)) : Follows first (s.resume k e) := by
  simp only [Harmless] at hk
  unfold Cluster.resume
  split
  · exact h
  · exact ⟨h.stores, h.applied_le, fun p hp => h.handling p (List.mem_of_mem_eraseIdx hp)⟩
  · rename_i i op next hget
    have honly : Program.Only Op.Reachable (.call op next) :=
      h.handling _ (List.mem_of_getElem? hget)
    have hreplica : (e.perform (s.members i).fsm op).1.replica = (s.members i).fsm.replica := by
      refine replica_perform honly.1 (fun c hc => ?_) e
      subst hc
      rw [hget] at hk
      exact hk
    refine ⟨fun j => ?_, fun j => ?_, fun p hp => ?_⟩
    · simp only [setFSM, Function.update_apply]
      split_ifs with hj
      · rw [hreplica, hj]
        exact h.stores i
      · exact h.stores j
    · simp only [setFSM, Function.update_apply]
      split_ifs
      · exact h.applied_le i
      · exact h.applied_le j
    · rcases List.mem_or_eq_of_mem_set hp with hp | rfl
      · exact h.handling p hp
      · exact honly.2 _

omit [DecidableEq ι] in
theorem Follows.commit (h : Follows first s) (k : ℕ) : Follows first (s.commit k) := by
  unfold Cluster.commit
  split
  · exact h
  · rename_i c hget
    refine ⟨fun i => ?_, fun i => ?_, h.handling⟩
    · rw [List.take_append_of_le_length (h.applied_le i)]
      exact h.stores i
    · rw [List.length_append]
      exact Nat.le_add_right_of_le (h.applied_le i)

theorem Follows.apply (h : Follows first s) (i : ι) (now : Time)
    (choice : (c : Command) → c.Choice) : Follows first (s.apply i now choice) := by
  unfold Cluster.apply
  split
  · exact h
  · rename_i c hget
    refine ⟨fun j => ?_, fun j => ?_, h.handling⟩
    · simp only [Function.update_apply]
      split_ifs with hj
      · subst hj
        obtain ⟨r, hr, hreplica⟩ := h.stores j
        refine ⟨r ++ [⟨c, choice c, now⟩], ?_, ?_⟩
        · rw [List.map_append, hr, List.take_add_one, hget]
          rfl
        · have h1 := FSM.step_replica (s.members j).fsm ⟨c, choice c, now⟩
          have h2 := FSM.step_replica (FSM.machine.run (first j) r).1 ⟨c, choice c, now⟩
          rw [hreplica, h2] at h1
          rw [FSM.machine.run_snoc]
          exact (congrArg Prod.fst h1).symm
      · exact h.stores j
    · simp only [Function.update_apply]
      split_ifs with hj
      · exact (List.getElem?_eq_some_iff.mp hget).1
      · exact h.applied_le j

/-- In a run in which no direct call of a handler has anything to do, every node's
stores are at all times those of a prefix of the committed log; and only the update
of an agent has a handler that makes such calls. -/
theorem stores_follow_log (first : ι → FSM) (events : List (Event ι))
    (h : machine.Along Harmless (start first) events) (i : ι) :
    (∃ r : List Applied,
      r.map Applied.command <+: (machine.run (start first) events).1.log ∧
        ((machine.run (start first) events).1.members i).fsm.replica =
          (FSM.machine.run (first i) r).1.replica) ∧
      ∀ r : Request, (∀ body, r ≠ .agentBatchUpdate body) → r.handler.Only Op.ThroughLog := by
  have hfollows : Follows first (machine.run (start first) events).1 := by
    refine machine.invariant (fun s e hs he => ?_) follows_start h
    cases e with
    | request i r =>
      refine ⟨hs.stores, hs.applied_le, fun p hp => ?_⟩
      rcases List.mem_append.mp hp with hp | hp
      · exact hs.handling p hp
      · rw [List.mem_singleton.mp hp]
        exact r.only_reachable
    | resume k e => exact hs.resume he
    | commit k => exact hs.commit k
    | apply i now choice => exact hs.apply i now choice
  obtain ⟨r, hr, hreplica⟩ := hfollows.stores i
  exact ⟨⟨r, hr ▸ List.take_prefix _ _, hreplica⟩, fun _ => Request.only_throughLog⟩

/-! ### Agents -/

def encounter : Encounter :=
  { isLeader := true, leaderAddr := [], applyEntry := .ok (.err none)
    env := Surroundings.leader.env 0
    choice := Command.sortedChoice }

def agentUpdate (type : String) : Request :=
  .agentBatchUpdate (some ⟨str "agent-1", [⟨str type, str "web", some web⟩]⟩)

/-- A key is set through the first of two nodes, which both apply the command; then
an agent asks the second to delete a service it does not have. -/
def setAndDelete : List (Event Bool) :=
  [.request false (.kvSet (str "a") (some ⟨str "1", none, 0⟩)), .resume 0 encounter,
    .resume 0 encounter, .commit 0, .apply false 0 Command.sortedChoice,
    .apply true 0 Command.sortedChoice, .request true (agentUpdate "delete"), .resume 1 encounter]

theorem stores_follow_log_two_nodes :
    (∃ r : List Applied,
      r.map Applied.command <+: (machine.run (start fun _ => FSM.fresh 0) setAndDelete).1.log ∧
        ((machine.run (start fun _ => FSM.fresh 0) setAndDelete).1.members true).fsm.replica =
          (FSM.machine.run (FSM.fresh 0) r).1.replica) ∧
      ∀ r : Request, (∀ body, r ≠ .agentBatchUpdate body) → r.handler.Only Op.ThroughLog := by
  refine stores_follow_log (fun _ => FSM.fresh 0) setAndDelete ?_ true
  refine ⟨trivial, trivial, trivial, trivial, trivial, trivial, trivial, ?_, trivial⟩
  change str "web" ∉ (_ : GoMap GoString ServiceEntry)
  decide

/-- An agent registers a service: the node has it, and the log is empty. -/
theorem agent_update_bypasses_log :
    ¬ ∃ r : List Applied,
      r.map Applied.command <+: (machine.run (start fun _ : Unit => FSM.fresh 0)
          [.request () (agentUpdate "add"), .resume 0 encounter]).1.log ∧
        ((machine.run (start fun _ : Unit => FSM.fresh 0)
          [.request () (agentUpdate "add"), .resume 0 encounter]).1.members ()).fsm.replica =
            (FSM.machine.run (FSM.fresh 0) r).1.replica := by
  rintro ⟨r, hr, hreplica⟩
  have hlog : (machine.run (start fun _ : Unit => FSM.fresh 0)
      [.request () (agentUpdate "add"), .resume 0 encounter]).1.log = [] := rfl
  rw [hlog, List.prefix_nil, List.map_eq_nil_iff] at hr
  subst hr
  have hregistered := congrArg (fun t : Replica => (t.services.data.lookup (str "web")).isSome) hreplica
  revert hregistered
  decide

end Cluster

end Konsul
