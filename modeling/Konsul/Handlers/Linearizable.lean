import Konsul.Handlers.MonotoneReads
import Konsul.Handlers.Reads
import Konsul.Lib.Linearizable

/-!
# Acknowledged writes and consistent reads (internal/raft/node.go, internal/handlers/kv.go)

`ApplyEntry` hands a command to Raft and waits for a future: it returns what
`KonsulFSM.Apply` returned for the entry on this node, or an error, after which the
command may still be committed or not. `EnsureLinearizableRead` waits for a barrier, which
is committed like an entry, and for the node to have applied the log up to it; the store is
read some time after it has returned. Nodes crash, and start again with the log to apply.

Under all this lies one store. Its calls are those of `ApplyEntry`, and the consistent
reads of the key-value table, from the call of `EnsureLinearizableRead` to the read of the
store.
-/

namespace Konsul

open GoLib

namespace KVStore

/-- `List`. -/
def list (kv : KVStore) (range : kv.data.Order) : List GoString := range.list.map Sigma.fst

/-- `BatchGet`. -/
def batchGet (kv : KVStore) (keys : List GoString) : GoMap GoString GoString × List GoString :=
  keys.foldl (fun r key =>
    match kv.data.lookup key with
    | some entry => (r.1.insert key entry.value, r.2)
    | none => (r.1, r.2 ++ [key])) (∅, [])

/-- The calls that read the store. -/
def read (kv : KVStore) (range : kv.data.Order) : (c : StoreCall) → Option c.Answer
  | .kvGet key => some (kv.get key)
  | .kvGetEntry key => some (kv.getEntry key)
  | .kvList => some (kv.list range)
  | .kvBatchGet keys => some (kv.batchGet keys)
  | _ => none

end KVStore

namespace Replica

/-- A command on a replica, with the answer of `Apply`. -/
def applyCommand (s : Replica) : (c : Command) → c.Choice → Replica × Option FsmResponse
  | .kv c, ch =>
    let r := s.kv.applyCommand c ch
    ({ s with kv := r.1 }, some r.2)
  | .service c, ch =>
    let r := s.services.applyCommand c ch
    ({ s with services := r.1 }, r.2)
  | .undecodable answer, _ => (s, some answer)

theorem chooser_step (s : Replica) (c : Command) (ch : c.Choice) :
    chooser.step s c ch =
      ((s.applyCommand c ch).1, (s.applyCommand c ch).2.bind FsmResponse.casResult) := by
  cases c <;> rfl

end Replica

/-- What an answer of `Apply` tells of the replica. A TTL update is answered by the health checks
of the node, and which error refuses a registration depends on the order of its metadata. -/
def Command.tells : Command → FsmResponse → Option FsmResponse
  | .service (.ttlUpdate _), _ => none
  | .service (.register s), .err (some _) =>
    some (.err (validateService s.toSnapshot.toService (GoMap.sorted s.metadata)))
  | _, answer => some answer

namespace FSM

/-- Where the order of the metadata does not show, a registry answers as the service store does. -/
theorem applyService_tells (s : ServiceStore) (now : Time) {c : ServiceCommand}
    (h : (Command.service c).Settled) (choice : c.Choice) :
    (s.toServiceTable.registry.applyCommand c c.sortedChoice).2 =
      (Command.service c).tells (applyService s now c choice).2 := by
  have happly := (applyService_eq s now c choice).2
  cases c with
  | register service =>
    rcases Replica.validate_cases service.toSnapshot.toService (GoMap.sorted service.metadata) choice with
      ⟨hsorted, hchoice⟩ | ⟨err, err', hsorted, hchoice⟩
    · simp only [Registry.applyCommand, ServiceCommand.sortedChoice, hsorted, applyService, serviceData,
        ServiceStore.registerLocal, hchoice, Command.tells]
    · simp only [Registry.applyCommand, ServiceCommand.sortedChoice, hsorted, applyService, serviceData,
        ServiceStore.registerLocal, hchoice, Command.tells]
  | deregister name => rfl
  | heartbeat name => rfl
  | ttlUpdate checkID => rfl
  | registerCAS service expectedIndex =>
    have hsame : validateService service.toSnapshot.toService (GoMap.sorted service.metadata) =
      validateService service.toSnapshot.toService choice := h (GoMap.sorted service.metadata) choice
    rcases Registry.applyCommand_answer s.toServiceTable.registry (.registerCAS service expectedIndex)
      choice with ⟨checkID, hc⟩ | ⟨answer, hanswer⟩
    · cases hc
    · have hsorted : (s.toServiceTable.registry.applyCommand (.registerCAS service expectedIndex)
          (GoMap.sorted service.metadata)).2 = some answer := by
        rw [← hanswer]
        simp only [Registry.applyCommand, hsame]
      exact hsorted.trans (congrArg some (happly answer hanswer).symm)
  | deregisterCAS name expectedIndex =>
    rcases Registry.applyCommand_answer s.toServiceTable.registry (.deregisterCAS name expectedIndex)
      choice with ⟨checkID, hc⟩ | ⟨answer, hanswer⟩
    · cases hc
    · exact hanswer.trans (congrArg some (happly answer hanswer).symm)

/-- A settled command does to the replica of a node, and is answered there, as on the replica alone. -/
theorem step_settled (f : FSM) {c : Command} (h : c.Settled) (now : Time) (choice : c.Choice) :
    f.replica.applyCommand c c.sortedChoice =
      ((f.apply now c choice).1.replica, c.tells (f.apply now c choice).2) := by
  have hfree := (Replica.free_iff f.replica c).mpr (f.replica.orderFree_of_settled h) c.sortedChoice choice
  have hstep := hfree.trans (step_replica f ⟨c, choice, now⟩)
  rw [Replica.chooser_step] at hstep
  have hreplica := congrArg Prod.fst hstep
  refine Prod.ext hreplica ?_
  cases c with
  | kv c =>
    have hanswer := KVTable.answer_eq_of_casResult (congrArg Prod.snd hfree)
    have happly := (applyKV_eq f.kvStore c choice).2
    exact congrArg some (hanswer.trans happly.symm)
  | service c => exact applyService_tells f.serviceStore now h choice
  | undecodable answer => rfl

end FSM

namespace Replicated

/-! ### One store -/

inductive Call where
  | write (c : Command)
  | read

inductive Reply where
  /-- Of a write, what `Apply` returned of the replica. -/
  | result (r : Option FsmResponse)
  | table (t : KVTable)

/-- One replica that takes a call at a time. -/
def oneStore : Machine Replica Call Reply where
  step s
    | .write c =>
      let r := s.applyCommand c c.sortedChoice
      (r.1, .result r.2)
    | .read => (s, .table s.kv)

/-! ### The nodes -/

/-- The name of a call. -/
inductive Future where
  | apply (n : ℕ)
  | read (n : ℕ)
  deriving DecidableEq

namespace Future

def number : Future → ℕ
  | apply n => n
  | read n => n

def isRead : Future → Bool
  | apply _ => false
  | read _ => true

end Future

structure Peer where
  fsm : FSM
  /-- What `Apply` returned, entry by entry. -/
  returned : List (Command × FsmResponse)

/-- Where the handler of a request is. -/
inductive Activity where
  /-- After `EnsureLinearizableRead`, with its number and the place of its barrier in the log. -/
  | running (ensured : Option (ℕ × ℕ)) (rest : Reader Display)
  | applying (n : ℕ) (next : Except GoError FsmResponse → Reader Display)
  | ensuring (n : ℕ) (barrier : Option ℕ) (next : Option GoError → Reader Display)

end Replicated

inductive Demand where
  | write (r : Request)
  | get (consistent includeMetadata : Bool) (key : GoString)
  | list (consistent : Bool)
  | batchKVGet (consistent : Bool) (body : Option (List GoString))

/-- The handler of a node with Raft. -/
def Demand.reader : Demand → Reader Display
  | write r => do return .response (← Reader.ofHandler r.handler)
  | get consistent includeMetadata key => KVHandler.get true consistent includeMetadata key
  | list consistent => KVHandler.list true consistent
  | batchKVGet consistent body => BatchHandler.batchKVGet true consistent body

structure Replicated (ι : Type) where
  peers : ι → Replicated.Peer
  /-- The committed log, with the numbers of the calls that its entries are of. -/
  log : List (ℕ × Command)
  proposed : List (ℕ × Command)
  handling : List (ι × Replicated.Activity)
  futures : ℕ
  /-- The calls and their answers, in the order of time. -/
  history : List (Happening Replicated.Future Replicated.Call Replicated.Reply)

inductive Replicated.Event (ι : Type) where
  | request (i : ι) (d : Demand)
  | resume (k : ℕ) (e : Encounter) (range : (m : GoMap GoString KVEntry) → m.Order)
  | commit (k : ℕ)
  /-- The barrier of the `k`th request is committed. -/
  | barrier (k : ℕ)
  | apply (i : ι) (now : Time) (choice : (c : Command) → c.Choice)
  /-- What the `k`th request waits for is there. -/
  | answer (k : ℕ)
  | fail (k : ℕ) (err : GoError)
  /-- The node crashes, with the requests it handles, and starts again. -/
  | restart (i : ι) (f : FSM)

namespace Replicated

variable {ι : Type} [DecidableEq ι]

def start (first : ι → FSM) : Replicated ι :=
  { peers := fun i => ⟨first i, []⟩, log := [], proposed := [], handling := [], futures := 0, history := [] }

def setPeer (s : Replicated ι) (i : ι) (p : Peer) : Replicated ι :=
  { s with peers := Function.update s.peers i p }

def setActivity (s : Replicated ι) (k : ℕ) (i : ι) (a : Activity) : Replicated ι :=
  { s with handling := s.handling.set k (i, a) }

/-- The next operation of a handler on node `i`. -/
def perform (s : Replicated ι) (k : ℕ) (i : ι) (ensured : Option (ℕ × ℕ)) (e : Encounter)
    (range : (m : GoMap GoString KVEntry) → m.Order) : Reader Display → Replicated ι
  | .ret _ => { s with handling := s.handling.eraseIdx k }
  | .call (.op (.applyEntry c)) next =>
    { s.setActivity k i (.applying s.futures next) with
      proposed := s.proposed ++ [(s.futures, c.json)]
      futures := s.futures + 1
      history := s.history ++ [.call (.apply s.futures) (.write c.json)] }
  | .call (.op op) next =>
    let r := e.perform (s.peers i).fsm op
    (s.setPeer i { s.peers i with fsm := r.1 }).setActivity k i (.running ensured (next r.2))
  | .call .ensureLinearizableRead next =>
    { s.setActivity k i (.ensuring s.futures none next) with
      futures := s.futures + 1
      history := s.history ++ [.call (.read s.futures) .read] }
  | .call c next =>
    let kv := (s.peers i).fsm.kvStore
    match kv.read (range kv.data) c with
    | none => s
    | some a =>
      { s.setActivity k i (.running none (next a)) with
        history := s.history ++
          (ensured.map fun p => .answer (.read p.1) (.table kv.toKVTable)).toList }

def resume (s : Replicated ι) (k : ℕ) (e : Encounter) (range : (m : GoMap GoString KVEntry) → m.Order) :
    Replicated ι :=
  match s.handling[k]? with
  | some (i, .running ensured rest) => s.perform k i ensured e range rest
  | _ => s

def commit (s : Replicated ι) (k : ℕ) : Replicated ι :=
  match s.proposed[k]? with
  | none => s
  | some p => { s with log := s.log ++ [p], proposed := s.proposed.eraseIdx k }

def barrier (s : Replicated ι) (k : ℕ) : Replicated ι :=
  match s.handling[k]? with
  | some (i, .ensuring n none next) => s.setActivity k i (.ensuring n (some s.log.length) next)
  | _ => s

def apply (s : Replicated ι) (i : ι) (now : Time) (choice : (c : Command) → c.Choice) : Replicated ι :=
  match s.log[(s.peers i).returned.length]? with
  | none => s
  | some p =>
    let r := (s.peers i).fsm.apply now p.2 (choice p.2)
    s.setPeer i ⟨r.1, (s.peers i).returned ++ [(p.2, r.2)]⟩

def answer (s : Replicated ι) (k : ℕ) : Replicated ι :=
  match s.handling[k]? with
  | some (i, .applying n next) =>
    match (s.peers i).returned[(s.log.map Prod.fst).idxOf n]? with
    | none => s
    | some (c, response) =>
      { s.setActivity k i (.running none (next (.ok response))) with
        history := s.history ++ [.answer (.apply n) (.result (c.tells response))] }
  | some (i, .ensuring n (some place) next) =>
    if place ≤ (s.peers i).returned.length then
      s.setActivity k i (.running (some (n, place)) (next none))
    else s
  | _ => s

def fail (s : Replicated ι) (k : ℕ) (err : GoError) : Replicated ι :=
  match s.handling[k]? with
  | some (i, .applying _ next) => s.setActivity k i (.running none (next (.error err)))
  | some (i, .ensuring _ _ next) => s.setActivity k i (.running none (next (some err)))
  | _ => s

/-- The node's stores are those it starts with, and it has the log to apply. -/
def restart (s : Replicated ι) (i : ι) (f : FSM) : Replicated ι :=
  { s.setPeer i ⟨f, []⟩ with handling := s.handling.filter fun h => h.1 ≠ i }

def machine : Machine (Replicated ι) (Event ι) Unit where
  step s
    | .request i d => ({ s with handling := s.handling ++ [(i, .running none d.reader)] }, ())
    | .resume k e range => (s.resume k e range, ())
    | .commit k => (s.commit k, ())
    | .barrier k => (s.barrier k, ())
    | .apply i now choice => (s.apply i now choice, ())
    | .answer k => (s.answer k, ())
    | .fail k err => (s.fail k err, ())
    | .restart i f => (s.restart i f, ())

/-! ### What the handlers do -/

def Allowed : StoreCall → Prop
  | .op o => o.Reachable
  | _ => True

theorem only_ofHandler {R : Type} {p : Handler R} (h : p.Only Op.Reachable) :
    (Reader.ofHandler p).Only Allowed := by
  induction p with
  | ret r => trivial
  | call o next ih => exact ⟨h.1, fun a => ih a (h.2 a)⟩

theorem only_consistentRead {raft consistent : Bool} {read : Reader Display} (h : read.Only Allowed) :
    (consistentRead raft consistent read).Only Allowed := by
  unfold consistentRead
  split
  · refine ⟨trivial, fun err => ?_⟩
    cases err with
    | none => exact h
    | some err => trivial
  · exact h

theorem only_reader (d : Demand) : d.reader.Only Allowed := by
  cases d with
  | write r => exact Program.only_bind (only_ofHandler r.only_reachable) fun _ => trivial
  | get consistent includeMetadata key =>
    refine only_consistentRead ?_
    split
    · refine ⟨trivial, fun entry => ?_⟩
      cases entry <;> trivial
    · refine ⟨trivial, fun value => ?_⟩
      cases value <;> trivial
  | list consistent => exact only_consistentRead ⟨trivial, fun _ => trivial⟩
  | batchKVGet consistent body =>
    show (BatchHandler.batchKVGet true consistent body).Only Allowed
    unfold BatchHandler.batchKVGet
    cases body with
    | none => trivial
    | some keys =>
      dsimp only
      split_ifs
      · trivial
      · trivial
      · exact only_consistentRead ⟨trivial, fun _ => trivial⟩

namespace Activity

def Allowed : Activity → Prop
  | running _ rest => rest.Only Replicated.Allowed
  | applying _ next => ∀ a, (next a).Only Replicated.Allowed
  | ensuring _ _ next => ∀ a, (next a).Only Replicated.Allowed

/-- The consistent read that is on its way. -/
def reading : Activity → Option ℕ
  | running ensured _ => ensured.map Prod.fst
  | applying _ _ => none
  | ensuring n _ _ => some n

/-- The place of its barrier. -/
def place : Activity → Option ℕ
  | running ensured _ => ensured.map Prod.snd
  | applying _ _ => none
  | ensuring _ barrier _ => barrier

/-- The place up to which the node has the log. -/
def ensured : Activity → Option ℕ
  | running ensured _ => ensured.map Prod.snd
  | _ => none

end Activity

/-! ### What every run keeps -/

/-- Direct calls of the service store have nothing to do, no map of a committed command has an
order that shows, and nodes start as they started first. -/
def Calm (base : Replica) (s : Replicated ι) : Event ι → Prop
  | .resume k _ _ =>
    match s.handling[k]? with
    | some (i, .running _ (.call (.op (.serviceStore c)) _)) => Cluster.Idle (s.peers i).fsm c
    | _ => True
  | .commit k => ∀ p, s.proposed[k]? = some p → p.2.Settled
  | .restart _ f => f.replica = base
  | _ => True

def entry (p : ℕ × Command) : Future × Call := (.apply p.1, .write p.2)

/-- What a node shows and what `Apply` returned there are those of the entries it has applied. -/
def Shows (base : Replica) (s : Replicated ι) (i : ι) : Prop :=
  ((s.peers i).fsm.replica, (s.peers i).returned.map fun r => Reply.result (r.1.tells r.2)) =
    oneStore.run base ((s.log.take (s.peers i).returned.length).map fun p => .write p.2)

abbrev Order := List (Future × Call)

/-- Calls answered before a consistent read was called lie in front of its barrier. -/
def Ahead (s : Replicated ι) (order : Order) (n b : ℕ) : Prop :=
  ∀ k o c, [Happening.answer k o, .call (.read n) c].Sublist s.history →
    k ∈ (Machine.front Future.isRead b order).map Prod.fst

/-- A consistent read on its way, on node `i`. -/
structure OnItsWay (s : Replicated ι) (order : Order) (i : ι) (a : Activity) (n : ℕ) : Prop where
  old : n < s.futures
  called : Happening.call (.read n) .read ∈ s.history
  unanswered : .read n ∉ order.map Prod.fst
  ahead : ∀ b, a.place = some b → b ≤ s.log.length ∧ Ahead s order n b
  ensured : ∀ b, a.ensured = some b → b ≤ (s.peers i).returned.length

structure Inv (base : Replica) (order : Order) (s : Replicated ι) : Prop where
  shows : ∀ i, s.Shows base i
  applied_le : ∀ i, (s.peers i).returned.length ≤ s.log.length
  allowed : ∀ h ∈ s.handling, h.2.Allowed
  settled : ∀ p ∈ s.log, p.2.Settled
  distinct : ((s.log ++ s.proposed).map Prod.fst).Nodup
  proposed_old : ∀ p ∈ s.proposed, p.1 < s.futures
  made : ∀ p ∈ s.proposed, Happening.call (.apply p.1) (.write p.2) ∈ s.history
  explained : oneStore.Linearizes base s.history order
  entries : Machine.writes Future.isRead order = s.log.map entry
  old : ∀ p ∈ order, p.1.number < s.futures
  reads : ∀ p ∈ order, p.1.isRead = true → p.2 = .read
  apart : (s.handling.filterMap fun h => h.2.reading).Nodup
  onWay : ∀ h ∈ s.handling, ∀ n, h.2.reading = some n → OnItsWay s order h.1 h.2 n

variable {base : Replica} {order : Order} {s : Replicated ι}

omit [DecidableEq ι] in
theorem inv_start {first : ι → FSM} (hfirst : ∀ i, (first i).replica = base) :
    Inv base [] (start first) where
  shows i := Prod.ext (hfirst i) rfl
  applied_le _ := Nat.zero_le _
  allowed _ h := absurd h List.not_mem_nil
  settled _ h := absurd h List.not_mem_nil
  distinct := List.nodup_nil
  proposed_old _ h := absurd h List.not_mem_nil
  made _ h := absurd h List.not_mem_nil
  explained := Machine.linearizes_nil
  entries := rfl
  old _ h := absurd h List.not_mem_nil
  reads _ h := absurd h List.not_mem_nil
  apart := List.nodup_nil
  onWay _ h := absurd h List.not_mem_nil

/-! #### One request goes on -/

omit [DecidableEq ι] in
/-- What concerns a consistent read on its way, where no state but these has changed. -/
theorem OnItsWay.later {i : ι} {a : Activity} {n : ℕ} (h : OnItsWay s order i a n) {s' : Replicated ι}
    {order' : Order} (hfutures : s.futures ≤ s'.futures) (hlog : s.log.length ≤ s'.log.length)
    (happlied : (s.peers i).returned.length ≤ (s'.peers i).returned.length)
    (hhistory : ∃ more, s'.history = s.history ++ more ∧ ∀ e ∈ more, ∀ c, e ≠ .call (.read n) c)
    (hunanswered : .read n ∉ order'.map Prod.fst)
    (hfront : ∀ b, (Machine.front Future.isRead b order).Sublist (Machine.front Future.isRead b order')) :
    OnItsWay s' order' i a n where
  old := h.old.trans_le hfutures
  called := by
    obtain ⟨more, heq, -⟩ := hhistory
    exact heq ▸ List.mem_append_left _ h.called
  unanswered := hunanswered
  ahead b hb := by
    obtain ⟨hle, hahead⟩ := h.ahead b hb
    refine ⟨hle.trans hlog, fun k o c hsub => ?_⟩
    obtain ⟨more, heq, hmore⟩ := hhistory
    have hold : [Happening.answer k o, .call (.read n) c].Sublist s.history := by
      rw [heq] at hsub
      clear heq
      induction more using List.reverseRecOn with
      | nil => exact List.append_nil s.history ▸ hsub
      | append_singleton more e ih =>
        rw [← List.append_assoc] at hsub
        rcases pair_sublist_snoc.mp hsub with hsub | hlast
        · exact ih hsub fun e he => hmore e (List.mem_append_left _ he)
        · exact absurd hlast.2.symm (hmore e (List.mem_append_right _ (List.mem_singleton.mpr rfl)) c)
    exact ((hfront b).map Prod.fst).subset (hahead k o c hold)
  ensured b hb := (h.ensured b hb).trans happlied

omit [DecidableEq ι] in
theorem OnItsWay.moved {i : ι} {a : Activity} {n : ℕ} (h : OnItsWay s order i a n)
    (handling : List (ι × Activity)) : OnItsWay { s with handling } order i a n :=
  ⟨h.old, h.called, h.unanswered, h.ahead, h.ensured⟩

theorem filterMap_set {α β : Type*} {f : α → Option β} {l : List α} {k : ℕ} {y : α}
    (hget : l[k]? = some y) (x : α) :
    ∃ before after, l.filterMap f = before ++ ((f y).toList ++ after) ∧
      (l.set k x).filterMap f = before ++ ((f x).toList ++ after) := by
  obtain ⟨hlt, hy⟩ := List.getElem?_eq_some_iff.mp hget
  refine ⟨(l.take k).filterMap f, (l.drop (k + 1)).filterMap f, ?_, ?_⟩
  · have hsplit : l = l.take k ++ y :: l.drop (k + 1) := by
      rw [← hy, List.getElem_cons_drop, List.take_append_drop]
    conv_lhs => rw [hsplit, List.filterMap_append, List.filterMap_cons]
    cases f y <;> rfl
  · rw [List.set_eq_take_append_cons_drop, if_pos hlt, List.filterMap_append, List.filterMap_cons]
    cases f x <;> rfl

omit [DecidableEq ι] in
theorem Inv.setActivity (h : Inv base order s) {k : ℕ} {i : ι} {a a' : Activity}
    (hget : s.handling[k]? = some (i, a)) (hallowed : a'.Allowed)
    (hreading : ∀ n, a'.reading = some n → OnItsWay s order i a' n ∧
      (a.reading = some n ∨ n ∉ s.handling.filterMap fun h => h.2.reading)) :
    Inv base order (s.setActivity k i a') := by
  refine { h with allowed := fun t ht => ?_, apart := ?_, onWay := fun t ht n hn => ?_ }
  · rcases List.mem_or_eq_of_mem_set ht with ht | rfl
    · exact h.allowed t ht
    · exact hallowed
  · obtain ⟨before, after, hold, hnew⟩ := filterMap_set (f := fun h : ι × Activity => h.2.reading) hget (i, a')
    have hapart := h.apart
    rw [hold] at hapart
    show ((s.handling.set k (i, a')).filterMap fun h => h.2.reading).Nodup
    rw [hnew]
    dsimp only at hold hapart ⊢
    have hrest : (before ++ after).Nodup :=
      hapart.sublist ((List.Sublist.refl _).append (List.sublist_append_right _ _))
    cases hn : a'.reading with
    | none => exact hrest
    | some n =>
      rcases (hreading n hn).2 with hsame | hfresh
      · rw [hsame] at hapart
        exact hapart
      · rw [hold] at hfresh
        refine List.perm_middle.nodup_iff.mpr (List.nodup_cons.mpr ⟨fun hmem => hfresh ?_, hrest⟩)
        rcases List.mem_append.mp hmem with hm | hm
        · exact List.mem_append_left _ hm
        · exact List.mem_append_right _ (List.mem_append_right _ hm)
  · rcases List.mem_or_eq_of_mem_set ht with ht | rfl
    · exact (h.onWay t ht n hn).moved _
    · exact (hreading n hn).1.moved _

omit [DecidableEq ι] in
theorem Inv.idle (h : Inv base order s) {k : ℕ} {i : ι} {a : Activity}
    (hget : s.handling[k]? = some (i, a)) {rest : Reader Display} (hrest : rest.Only Replicated.Allowed) :
    Inv base order (s.setActivity k i (.running none rest)) :=
  h.setActivity hget hrest fun _ hn => by cases hn

omit [DecidableEq ι] in
/-- Fewer requests are handled. -/
theorem Inv.drop (h : Inv base order s) {handling : List (ι × Activity)} (hsub : handling.Sublist s.handling) :
    Inv base order { s with handling } := by
  exact { h with
                  allowed := fun t ht => h.allowed t (hsub.subset ht),
                  apart := h.apart.sublist (hsub.filterMap _),
                  onWay := fun t ht n hn => (h.onWay t (hsub.subset ht) n hn).moved _ }

/-- A node that shows the state of its place in the log, and has not gone back if it handles requests. -/
theorem Inv.setPeer (h : Inv base order s) (i : ι) {p : Peer} (hle : p.returned.length ≤ s.log.length)
    (hshows : (p.fsm.replica, p.returned.map fun r => Reply.result (r.1.tells r.2)) =
      oneStore.run base ((s.log.take p.returned.length).map fun p => .write p.2))
    (hkeeps : ∀ t ∈ s.handling, t.1 = i → (s.peers i).returned.length ≤ p.returned.length) :
    Inv base order (s.setPeer i p) := by
  refine { h with shows := fun j => ?_, applied_le := fun j => ?_, onWay := fun t ht n hn => ?_ }
  · simp only [Shows, Replicated.setPeer, Function.update_apply]
    split_ifs with hj
    · exact hshows
    · exact h.shows j
  · simp only [Replicated.setPeer, Function.update_apply]
    split_ifs with hj
    · exact hle
    · exact h.applied_le j
  · have hway := h.onWay t ht n hn
    refine hway.later le_rfl le_rfl ?_ ⟨[], (List.append_nil _).symm, fun _ he => absurd he List.not_mem_nil⟩
      hway.unanswered fun b => List.Sublist.refl _
    simp only [Replicated.setPeer, Function.update_apply]
    split_ifs with hj
    · exact hj ▸ hkeeps t ht hj
    · exact le_rfl

/-! #### Calls and answers -/

omit [DecidableEq ι] in
/-- The number of the next call is new. -/
theorem Inv.fresh (h : Inv base order s) {k : Future} (hk : k.number = s.futures) :
    k ∉ order.map Prod.fst := by
  intro hmem
  obtain ⟨p, hp, rfl⟩ := List.mem_map.mp hmem
  have hlt := h.old p hp
  omega

omit [DecidableEq ι] in
/-- A place in the order is one in the log. -/
theorem Inv.mem_log (h : Inv base order s) {n : ℕ} (hn : .apply n ∈ order.map Prod.fst) :
    n ∈ s.log.map Prod.fst := by
  obtain ⟨⟨k, c⟩, hp, rfl⟩ := List.mem_map.mp hn
  have hwrite : (Future.apply n, c) ∈ Machine.writes Future.isRead order :=
    List.mem_filter.mpr ⟨hp, rfl⟩
  rw [h.entries] at hwrite
  obtain ⟨q, hq, heq⟩ := List.mem_map.mp hwrite
  obtain ⟨hnum, -⟩ := Prod.mk.inj heq
  cases hnum
  exact List.mem_map_of_mem hq

omit [DecidableEq ι] in
theorem Inv.onWay_later (h : Inv base order s) {futures : ℕ} {history : List (Happening Future Call Reply)}
    (hfutures : s.futures ≤ futures)
    (hhistory : ∃ more, history = s.history ++ more ∧
      ∀ e ∈ more, ∀ n < s.futures, ∀ c, e ≠ .call (.read n) c) :
    ∀ t ∈ s.handling, ∀ n, t.2.reading = some n →
      OnItsWay { s with futures, history } order t.1 t.2 n := by
  intro t ht n hn
  have hway := h.onWay t ht n hn
  obtain ⟨more, heq, hmore⟩ := hhistory
  exact hway.later hfutures le_rfl le_rfl ⟨more, heq, fun e he => hmore e he n hway.old⟩ hway.unanswered
    fun b => List.Sublist.refl _

omit [DecidableEq ι] in
theorem Inv.propose (h : Inv base order s) (c : Command) :
    Inv base order { s with
      proposed := s.proposed ++ [(s.futures, c)]
      futures := s.futures + 1
      history := s.history ++ [.call (.apply s.futures) (.write c)] } := by
  have hnew : s.futures ∉ (s.log ++ s.proposed).map Prod.fst := by
    intro hmem
    obtain ⟨p, hp, heq⟩ := List.mem_map.mp hmem
    rcases List.mem_append.mp hp with hp | hp
    · have hentry : entry p ∈ Machine.writes Future.isRead order := by
        rw [h.entries]
        exact List.mem_map_of_mem hp
      have hlt : p.1 < s.futures := h.old (entry p) (List.mem_of_mem_filter hentry)
      omega
    · have hlt := h.proposed_old p hp
      omega
  refine
    { shows := h.shows, applied_le := h.applied_le, allowed := h.allowed, settled := h.settled,
      distinct := ?_, proposed_old := fun p hp => ?_, made := fun p hp => ?_,
      explained := h.explained.call (h.fresh rfl) _, entries := h.entries,
      old := fun p hp => (h.old p hp).trans (Nat.lt_succ_self _), reads := h.reads, apart := h.apart,
      onWay := fun t ht n hn => ?_ }
  · rw [← List.append_assoc, List.map_append]
    show (((s.log ++ s.proposed).map Prod.fst) ++ [s.futures]).Nodup
    rw [← List.concat_eq_append]
    exact h.distinct.concat hnew
  · show p.1 < s.futures + 1
    rcases List.mem_append.mp hp with hp | hp
    · have hlt := h.proposed_old p hp
      omega
    · rw [List.mem_singleton.mp hp]
      exact Nat.lt_succ_self _
  · rcases List.mem_append.mp hp with hp | hp
    · exact List.mem_append_left _ (h.made p hp)
    · rw [List.mem_singleton.mp hp]
      exact List.mem_append_right _ (List.mem_singleton.mpr rfl)
  · have hway := h.onWay t ht n hn
    refine hway.later (Nat.le_succ _) le_rfl le_rfl ⟨_, rfl, fun e he => ?_⟩ hway.unanswered
      fun b => List.Sublist.refl _
    rw [List.mem_singleton.mp he]
    exact fun c heq => by cases heq

omit [DecidableEq ι] in
/-- A consistent read is called. -/
theorem Inv.begin (h : Inv base order s) :
    Inv base order { s with
      futures := s.futures + 1
      history := s.history ++ [.call (.read s.futures) .read] } := by
  refine
    { shows := h.shows, applied_le := h.applied_le, allowed := h.allowed, settled := h.settled,
      distinct := h.distinct, proposed_old := fun p hp => (h.proposed_old p hp).trans (Nat.lt_succ_self _),
      made := fun p hp => List.mem_append_left _ (h.made p hp),
      explained := h.explained.call (h.fresh rfl) _, entries := h.entries,
      old := fun p hp => (h.old p hp).trans (Nat.lt_succ_self _), reads := h.reads, apart := h.apart,
      onWay := h.onWay_later (Nat.le_succ _) ⟨_, rfl, fun e he n hn => ?_⟩ }
  rw [List.mem_singleton.mp he]
  intro c heq
  simp only [Happening.call.injEq, Future.read.injEq] at heq
  omega

omit [DecidableEq ι] in
theorem Inv.pure (h : Inv base order s) :
    ∀ p ∈ order, p.1.isRead = true → ∀ r, (oneStore.step r p.2).1 = r := by
  intro p hp hread r
  rw [h.reads p hp hread]
  rfl

omit [DecidableEq ι] in
/-- What `Apply` returned at a node is what the one store answers at the place of the entry. -/
theorem Inv.of_returned (h : Inv base order s) {i : ι} {n : ℕ} {p : ℕ × Command} {c : Command}
    {response : FsmResponse} (hp : s.log[n]? = some p)
    (hresponse : (s.peers i).returned[n]? = some (c, response)) :
    (entry p, Reply.result (c.tells response)) ∈ order.zip (oneStore.run base (order.map Prod.snd)).2 := by
  refine (Machine.run_writes Future.isRead h.pure base).2 _ ?_
  have hcommands : (s.log.map entry).map Prod.snd = s.log.map fun p => Call.write p.2 := by
    rw [List.map_map]
    rfl
  rw [h.entries, hcommands]
  have hanswer : (oneStore.run base (s.log.map fun p => Call.write p.2)).2[n]? =
      some (.result (c.tells response)) := by
    have hshows := congrArg Prod.snd (h.shows i)
    have hsplit := List.take_append_drop (s.peers i).returned.length s.log
    have hlt := (List.getElem?_eq_some_iff.mp hresponse).1
    dsimp only at hshows
    rw [← hsplit, List.map_append, Machine.run_append]
    dsimp only
    rw [← hshows, List.getElem?_append_left (by rw [List.length_map]; exact hlt), List.getElem?_map,
      hresponse]
    rfl
  have hentry : (s.log.map entry)[n]? = some (entry p) := by
    rw [List.getElem?_map, hp]
    rfl
  have hzip : ((s.log.map entry).zip (oneStore.run base (s.log.map fun p => Call.write p.2)).2)[n]? =
      some (entry p, .result (c.tells response)) := List.getElem?_zip_eq_some.mpr ⟨hentry, hanswer⟩
  exact List.mem_of_getElem? hzip

omit [DecidableEq ι] in
theorem Inv.answerWrite (h : Inv base order s) {i : ι} {n : ℕ} {c : Command} {response : FsmResponse}
    (hresponse : (s.peers i).returned[(s.log.map Prod.fst).idxOf n]? = some (c, response)) :
    Inv base order { s with history := s.history ++ [.answer (.apply n) (.result (c.tells response))] } := by
  obtain ⟨hlt, -⟩ := List.getElem?_eq_some_iff.mp hresponse
  have hle := h.applied_le i
  have hmem : n ∈ s.log.map Prod.fst := by
    refine List.idxOf_lt_length_iff.mp ?_
    rw [List.length_map]
    omega
  have hplace : (s.log.map Prod.fst)[(s.log.map Prod.fst).idxOf n]? = some n := List.getElem?_idxOf hmem
  rw [List.getElem?_map] at hplace
  obtain ⟨p, hp, hpn⟩ := Option.map_eq_some_iff.mp hplace
  have hanswer := h.of_returned hp hresponse
  rw [entry, hpn] at hanswer
  exact
    { shows := h.shows, applied_le := h.applied_le, allowed := h.allowed, settled := h.settled,
      distinct := h.distinct, proposed_old := h.proposed_old,
      made := fun p hp => List.mem_append_left _ (h.made p hp),
      explained := h.explained.answer hanswer, entries := h.entries, old := h.old, reads := h.reads,
      apart := h.apart,
      onWay := h.onWay_later le_rfl ⟨_, rfl, fun e he n _ => by
        rw [List.mem_singleton.mp he]
        exact fun c heq => by cases heq⟩ }

/-- The order in which a consistent read of node `i` has been put behind what the node has applied. -/
def withRead (s : Replicated ι) (order : Order) (i : ι) (n : ℕ) : Order :=
  let before := Machine.front Future.isRead (s.peers i).returned.length order
  before ++ (.read n, .read) :: order.drop before.length

omit [DecidableEq ι] in
/-- A consistent read is answered from the table of a node that has the log up to its barrier. -/
theorem Inv.answerRead (h : Inv base order s) {i : ι} {a : Activity} {n b : ℕ}
    (hway : OnItsWay s order i a n) (hplace : a.place = some b) (hensured : a.ensured = some b)
    (hgone : ∀ t ∈ s.handling, t.2.reading ≠ some n) :
    Inv base (s.withRead order i n) { s with
      history := s.history ++ [.answer (.read n) (.table (s.peers i).fsm.kvStore.toKVTable)] } := by
  let m := (s.peers i).returned.length
  let before := Machine.front Future.isRead m order
  let after := order.drop before.length
  have horder : before ++ after = order := by
    obtain ⟨rest, hrest⟩ := Machine.front_le Future.isRead m order
    show before ++ order.drop before.length = order
    rw [← hrest, List.drop_left]
  have hgrown : order.Sublist (before ++ (.read n, .read) :: after) := by
    rw [← horder]
    exact (List.Sublist.refl before).append (List.sublist_cons_self _ _)
  have hstate : (oneStore.run base (before.map Prod.snd)).1 = (s.peers i).fsm.replica := by
    have hbefore : ∀ p ∈ before, p.1.isRead = true → ∀ r, (oneStore.step r p.2).1 = r :=
      fun p hp => h.pure p ((Machine.front_le Future.isRead m order).subset hp)
    rw [(Machine.run_writes Future.isRead hbefore base).1, Machine.writes_front, h.entries, ← List.map_take,
      List.map_map]
    exact (congrArg Prod.fst (h.shows i)).symm
  have hmem (p : Future × Call) (hp : p ∈ before ++ (.read n, .read) :: after) :
      p = (.read n, .read) ∨ p ∈ order := by
    rw [← horder]
    rcases List.mem_append.mp hp with hp | hp
    · exact Or.inr (List.mem_append_left _ hp)
    · rcases List.mem_cons.mp hp with hp | hp
      · exact Or.inl hp
      · exact Or.inr (List.mem_append_right _ hp)
  have hexplained : oneStore.Linearizes base
      (s.history ++ [.answer (.read n) (.table (s.peers i).fsm.kvStore.toKVTable)])
      (before ++ (.read n, .read) :: after) := by
    have hold : oneStore.Linearizes base s.history (before ++ after) := horder.symm ▸ h.explained
    refine hold.insert hway.called (horder.symm ▸ hway.unanswered) ?_ fun k o c hsub => ?_
    · rw [hstate]
      rfl
    · have hahead := (hway.ahead b hplace).2 k o c hsub
      have hmono := Machine.front_mono Future.isRead (hway.ensured b hensured) order
      exact (hmono.sublist.map Prod.fst).subset hahead
  have hwrites : Machine.writes Future.isRead (before ++ (.read n, .read) :: after) =
      Machine.writes Future.isRead order := by
    rw [← horder, Machine.writes, Machine.writes, List.filter_append, List.filter_append]
    exact congrArg _ (Machine.writes_cons_read Future.isRead rfl after)
  refine
    { shows := h.shows, applied_le := h.applied_le, allowed := h.allowed, settled := h.settled,
      distinct := h.distinct, proposed_old := h.proposed_old,
      made := fun p hp => List.mem_append_left _ (h.made p hp), explained := hexplained,
      entries := hwrites.trans h.entries, old := fun p hp => ?_, reads := fun p hp hread => ?_,
      apart := h.apart, onWay := fun t ht n' hn' => ?_ }
  · rcases hmem p hp with rfl | hp
    · exact hway.old
    · exact h.old p hp
  · rcases hmem p hp with rfl | hp
    · rfl
    · exact h.reads p hp hread
  · have hother := h.onWay t ht n' hn'
    refine hother.later le_rfl le_rfl le_rfl ⟨_, rfl, fun e he => ?_⟩ (fun hin => ?_) fun b' => ?_
    · rw [List.mem_singleton.mp he]
      exact fun c heq => by cases heq
    · obtain ⟨p, hp, heq⟩ := List.mem_map.mp hin
      rcases hmem p hp with rfl | hp
      · cases heq
        exact hgone t ht hn'
      · exact hother.unanswered (List.mem_map.mpr ⟨p, hp, heq⟩)
    · have hinsert := Machine.front_insert Future.isRead (p := (.read n, .read)) rfl b' before after
      rw [horder] at hinsert
      exact hinsert

omit [DecidableEq ι] in
/-- No other request has the consistent read of this one. -/
theorem Inv.notMem_reading (h : Inv base order s) {k : ℕ} {i : ι} {a : Activity} {n : ℕ}
    (hget : s.handling[k]? = some (i, a)) (hn : a.reading = some n) {a' : Activity} (hn' : a'.reading = none) :
    ∀ t ∈ (s.setActivity k i a').handling, t.2.reading ≠ some n := by
  intro t ht heq
  obtain ⟨before, after, hold, hnew⟩ := filterMap_set (f := fun h : ι × Activity => h.2.reading) hget (i, a')
  have hapart := h.apart
  dsimp only at hold hnew
  rw [hold, hn] at hapart
  rw [hn'] at hnew
  have hmem : n ∈ (s.handling.set k (i, a')).filterMap fun h => h.2.reading :=
    List.mem_filterMap.mpr ⟨t, ht, heq⟩
  rw [hnew] at hmem
  exact (List.nodup_cons.mp (List.perm_middle.nodup_iff.mp hapart)).1 hmem

/-! #### Steps -/

theorem Inv.perform (h : Inv base order s) {k : ℕ} {i : ι} {ensured : Option (ℕ × ℕ)} {rest : Reader Display}
    (hget : s.handling[k]? = some (i, .running ensured rest))
    (hidle : ∀ c next, rest = .call (.op (.serviceStore c)) next → Cluster.Idle (s.peers i).fsm c)
    (e : Encounter) (range : (m : GoMap GoString KVEntry) → m.Order) :
    ∃ order', Inv base order' (s.perform k i ensured e range rest) := by
  have hrest : rest.Only Replicated.Allowed := h.allowed _ (List.mem_of_getElem? hget)
  have honway := h.onWay _ (List.mem_of_getElem? hget)
  unfold Replicated.perform
  split
  · exact ⟨order, h.drop (List.eraseIdx_sublist ..)⟩
  · rename_i c next
    have hproposed := h.propose c.json
    exact ⟨order, hproposed.setActivity hget hrest.2 fun _ hn => by cases hn⟩
  · rename_i op next _
    have hreplica : (e.perform (s.peers i).fsm op).1.replica = (s.peers i).fsm.replica := by
      refine Cluster.replica_perform hrest.1 (fun c hc => ?_) e
      subst hc
      exact hidle c next rfl
    have hpeer := h.setPeer i (p := { s.peers i with fsm := (e.perform (s.peers i).fsm op).1 })
      (h.applied_le i) (by rw [hreplica]; exact h.shows i) fun _ _ _ => le_rfl
    refine ⟨order, hpeer.setActivity hget (hrest.2 _) fun n hn => ⟨?_, Or.inl hn⟩⟩
    have hway := hpeer.onWay _ (List.mem_of_getElem? hget) n hn
    exact ⟨hway.old, hway.called, hway.unanswered, hway.ahead, hway.ensured⟩
  · rename_i next
    refine ⟨order, h.begin.setActivity hget hrest.2 fun n hn => ?_⟩
    obtain rfl : s.futures = n := Option.some.inj hn
    constructor
    · exact
        { old := Nat.lt_succ_self _
          called := List.mem_append_right _ (List.mem_singleton.mpr rfl)
          unanswered := h.fresh rfl
          ahead := fun _ hb => by cases hb
          ensured := fun _ hb => by cases hb }
    · refine Or.inr fun hmem => ?_
      obtain ⟨t, ht, htn⟩ := List.mem_filterMap.mp hmem
      exact absurd (h.onWay t ht _ htn).old (lt_irrefl _)
  · rename_i c next _ _ _
    cases hread : (s.peers i).fsm.kvStore.read (range (s.peers i).fsm.kvStore.data) c with
    | none =>
      dsimp only
      rw [hread]
      exact ⟨order, h⟩
    | some a =>
      have hset := h.idle hget (hrest.2 a)
      dsimp only
      rw [hread]
      dsimp only
      cases ensured with
      | none =>
        rw [Option.map_none, Option.toList_none, List.append_nil]
        exact ⟨order, hset⟩
      | some p =>
        have hway := (honway p.1 rfl).moved (s.handling.set k (i, .running none (next a)))
        exact ⟨_, hset.answerRead hway rfl rfl (h.notMem_reading hget rfl rfl)⟩

theorem Inv.resume (h : Inv base order s) {k : ℕ} {e : Encounter}
    {range : (m : GoMap GoString KVEntry) → m.Order} (hk : Calm base s (.resume k e range)) :
    ∃ order', Inv base order' (s.resume k e range) := by
  unfold Replicated.resume
  split
  · rename_i i ensured rest hget
    refine h.perform hget (fun c next hrest => ?_) e range
    simp only [Calm, hget, hrest] at hk
    exact hk
  · exact ⟨order, h⟩

omit [DecidableEq ι] in
theorem Inv.commit (h : Inv base order s) {k : ℕ} (hk : ∀ p, s.proposed[k]? = some p → p.2.Settled) :
    ∃ order', Inv base order' (s.commit k) := by
  unfold Replicated.commit
  split
  · exact ⟨order, h⟩
  · rename_i p hget
    obtain ⟨hlt, hp⟩ := List.getElem?_eq_some_iff.mp hget
    have hperm : (s.log ++ [p] ++ s.proposed.eraseIdx k).Perm (s.log ++ s.proposed) := by
      rw [List.append_assoc, List.singleton_append, ← hp]
      exact (List.getElem_cons_eraseIdx_perm hlt).append_left s.log
    have hmem : p ∈ s.proposed := List.mem_of_getElem? hget
    have hnew : .apply p.1 ∉ order.map Prod.fst := by
      intro horder
      have hsplit := h.distinct
      rw [List.map_append, List.nodup_append] at hsplit
      exact hsplit.2.2 p.1 (h.mem_log horder) p.1 (List.mem_map_of_mem hmem) rfl
    refine ⟨order ++ [entry p],
      { shows := fun i => ?_, applied_le := fun i => ?_, allowed := h.allowed, settled := fun q hq => ?_,
        distinct := (hperm.map Prod.fst).nodup_iff.mpr h.distinct,
        proposed_old := fun q hq => h.proposed_old q (List.mem_of_mem_eraseIdx hq),
        made := fun q hq => h.made q (List.mem_of_mem_eraseIdx hq),
        explained := h.explained.effect (h.made p hmem) hnew, entries := ?_, old := fun q hq => ?_,
        reads := fun q hq hread => ?_, apart := h.apart, onWay := fun t ht n hn => ?_ }⟩
    · have hle := h.applied_le i
      have hshows := h.shows i
      rw [Shows] at hshows ⊢
      rw [List.take_append_of_le_length hle]
      exact hshows
    · have hle := h.applied_le i
      rw [List.length_append]
      exact Nat.le_add_right_of_le hle
    · rcases List.mem_append.mp hq with hq | hq
      · exact h.settled q hq
      · rw [List.mem_singleton.mp hq]
        exact hk p hget
    · rw [Machine.writes, List.filter_append, List.map_append, ← h.entries]
      rfl
    · rcases List.mem_append.mp hq with hq | hq
      · exact h.old q hq
      · rw [List.mem_singleton.mp hq]
        exact h.proposed_old p hmem
    · rcases List.mem_append.mp hq with hq | hq
      · exact h.reads q hq hread
      · rw [List.mem_singleton.mp hq] at hread
        cases hread
    · have hway := h.onWay t ht n hn
      refine hway.later le_rfl ?_ le_rfl ⟨[], (List.append_nil _).symm, fun _ he => absurd he List.not_mem_nil⟩
        (fun hin => ?_) fun b => (Machine.front_append Future.isRead b order [entry p]).sublist
      · rw [List.length_append]
        exact Nat.le_add_right _ _
      · rw [List.map_append] at hin
        rcases List.mem_append.mp hin with hin | hin
        · exact hway.unanswered hin
        · cases List.mem_singleton.mp hin

omit [DecidableEq ι] in
/-- A barrier is behind everything that has been answered. -/
theorem Inv.barrier (h : Inv base order s) (k : ℕ) : Inv base order (s.barrier k) := by
  unfold Replicated.barrier
  split
  · rename_i i n next hget
    have hallowed : Activity.Allowed (.ensuring n none next) := h.allowed _ (List.mem_of_getElem? hget)
    refine h.setActivity hget hallowed fun n' hn' => ⟨?_, Or.inl hn'⟩
    have hway := h.onWay _ (List.mem_of_getElem? hget) n' hn'
    refine ⟨hway.old, hway.called, hway.unanswered, fun b hb => ?_, fun _ hb => by cases hb⟩
    obtain rfl : s.log.length = b := Option.some.inj hb
    refine ⟨le_rfl, fun k' o c hsub => ?_⟩
    have hlength : (Machine.writes Future.isRead order).length ≤ s.log.length := by
      rw [h.entries, List.length_map]
    rw [Machine.front_of_le Future.isRead hlength]
    exact h.explained.mem_of_answered (hsub.subset (List.mem_cons_self ..))
  · exact h

theorem Inv.apply (h : Inv base order s) (i : ι) (now : Time) (choice : (c : Command) → c.Choice) :
    Inv base order (s.apply i now choice) := by
  unfold Replicated.apply
  split
  · exact h
  · rename_i p hget
    obtain ⟨hlt, hp⟩ := List.getElem?_eq_some_iff.mp hget
    refine h.setPeer i ?_ ?_ fun _ _ _ => ?_
    · rw [List.length_append, List.length_singleton]
      exact hlt
    · have hshows := h.shows i
      rw [Shows] at hshows
      have hstep := FSM.step_settled (s.peers i).fsm (h.settled p (List.mem_of_getElem? hget)) now (choice p.2)
      have hcalls (l : List (ℕ × Command)) :
          (l ++ [p]).map (fun q => Call.write q.2) = l.map (fun q => .write q.2) ++ [.write p.2] :=
        List.map_append
      rw [List.length_append, List.length_singleton, List.take_add_one, hget, Option.toList_some, hcalls,
        Machine.run_snoc, ← hshows]
      dsimp only [oneStore]
      rw [hstep, List.map_append]
      rfl
    · rw [List.length_append]
      exact Nat.le_add_right _ _

omit [DecidableEq ι] in
theorem Inv.answer (h : Inv base order s) (k : ℕ) : Inv base order (s.answer k) := by
  unfold Replicated.answer
  split
  · rename_i i n next hget
    have hallowed : Activity.Allowed (.applying n next) := h.allowed _ (List.mem_of_getElem? hget)
    split
    · exact h
    · rename_i response hresponse
      exact (h.answerWrite hresponse).idle hget (hallowed _)
  · rename_i i n place next hget
    have hallowed : Activity.Allowed (.ensuring n (some place) next) := h.allowed _ (List.mem_of_getElem? hget)
    split_ifs with hle
    · refine h.setActivity hget (hallowed none) fun n' hn' => ⟨?_, Or.inl hn'⟩
      have hway := h.onWay _ (List.mem_of_getElem? hget) n' hn'
      refine ⟨hway.old, hway.called, hway.unanswered, hway.ahead, fun b hb => ?_⟩
      obtain rfl : place = b := Option.some.inj hb
      exact hle
    · exact h
  · exact h

omit [DecidableEq ι] in
theorem Inv.fail (h : Inv base order s) (k : ℕ) (err : GoError) : Inv base order (s.fail k err) := by
  unfold Replicated.fail
  split
  · rename_i i n next hget
    have hallowed : Activity.Allowed (.applying n next) := h.allowed _ (List.mem_of_getElem? hget)
    exact h.idle hget (hallowed _)
  · rename_i i n place next hget
    have hallowed : Activity.Allowed (.ensuring n place next) := h.allowed _ (List.mem_of_getElem? hget)
    exact h.idle hget (hallowed _)
  · exact h

theorem Inv.restart (h : Inv base order s) (i : ι) {f : FSM} (hf : f.replica = base) :
    Inv base order (s.restart i f) := by
  have hdropped := h.drop (List.filter_sublist (p := fun t : ι × Activity => t.1 ≠ i) (l := s.handling))
  refine hdropped.setPeer i (p := ⟨f, []⟩) (Nat.zero_le _) (Prod.ext hf rfl) fun t ht heq => ?_
  exact absurd heq (by simpa using (List.mem_filter.mp ht).2)

theorem Inv.step (h : Inv base order s) {e : Event ι} (he : Calm base s e) :
    ∃ order', Inv base order' (machine.step s e).1 := by
  cases e with
  | request i d =>
    refine ⟨order, { h with allowed := fun t ht => ?_, apart := ?_, onWay := fun t ht n hn => ?_ }⟩
    · rcases List.mem_append.mp ht with ht | ht
      · exact h.allowed t ht
      · rw [List.mem_singleton.mp ht]
        exact only_reader d
    · show ((s.handling ++ [(i, Activity.running none d.reader)]).filterMap _).Nodup
      rw [List.filterMap_append]
      exact (List.append_nil (s.handling.filterMap fun h => h.2.reading)).symm ▸ h.apart
    · rcases List.mem_append.mp ht with ht | ht
      · exact (h.onWay t ht n hn).moved _
      · rw [List.mem_singleton.mp ht] at hn
        cases hn
  | resume k e range => exact h.resume he
  | commit k => exact h.commit he
  | barrier k => exact ⟨order, h.barrier k⟩
  | apply i now choice => exact ⟨order, h.apply i now choice⟩
  | answer k => exact ⟨order, h.answer k⟩
  | fail k err => exact ⟨order, h.fail k err⟩
  | restart i f => exact ⟨order, h.restart i he⟩

theorem inv_run {first : ι → FSM} (hfirst : ∀ i, (first i).replica = base) {events : List (Event ι)}
    (h : machine.Along (Calm base) (start first) events) :
    ∃ order, Inv base order (machine.run (start first) events).1 := by
  have hstep (s : Replicated ι) (e : Event ι) (hs : ∃ order, Inv base order s) (he : Calm base s e) :
      ∃ order, Inv base order (machine.step s e).1 := by
    obtain ⟨order, hs⟩ := hs
    exact hs.step he
  exact machine.invariant hstep ⟨[], inv_start hfirst⟩ h

/-- Requests to any nodes, commits, barriers and applications in any order, errors and crashes
at any moment: some order of the calls explains every write and every consistent read that was
answered, and in it the writes stand as in the log. -/
theorem calls_linearizable (first : ι → FSM) (base : Replica) (hfirst : ∀ i, (first i).replica = base)
    (events : List (Event ι)) (h : machine.Along (Calm base) (start first) events) :
    let s := (machine.run (start first) events).1
    ∃ order, oneStore.Linearizes base s.history order ∧
      Machine.writes Future.isRead order = s.log.map entry := by
  obtain ⟨order, hinv⟩ := inv_run hfirst h
  exact ⟨order, hinv.explained, hinv.entries⟩

/-- Two clients create one key by compare-and-swap, each at its node, and a third reads it. The
read is answered when one of the writes has been committed and applied. -/
def race : List (Event Bool) :=
  [.request false (.write (.kvSet (str "a") (some ⟨str "1", some 0, 0⟩))),
    .request true (.write (.kvSet (str "a") (some ⟨str "2", some 0, 0⟩))),
    .request true (.get true false (str "a")), .resume 0 Cluster.encounter GoMap.sorted,
    .resume 1 Cluster.encounter GoMap.sorted, .resume 2 Cluster.encounter GoMap.sorted,
    .resume 0 Cluster.encounter GoMap.sorted, .resume 1 Cluster.encounter GoMap.sorted, .commit 1,
    .barrier 2, .commit 0, .apply true 0 Command.sortedChoice, .answer 2,
    .resume 2 Cluster.encounter GoMap.sorted, .apply true 0 Command.sortedChoice, .answer 1,
    .apply false 0 Command.sortedChoice, .apply false 0 Command.sortedChoice, .answer 0]

theorem calm_race : machine.Along (Calm (FSM.fresh 0).replica) (start fun _ => FSM.fresh 0) race := by
  refine ⟨trivial, trivial, trivial, trivial, trivial, trivial, trivial, trivial, fun p hp => ?_, trivial,
    fun p hp => ?_, trivial, trivial, trivial, trivial, trivial, trivial, trivial, trivial, trivial⟩
  · cases hp
    trivial
  · cases hp
    trivial

theorem calls_linearizable_race :
    ∃ order, oneStore.Linearizes (FSM.fresh 0).replica
        (machine.run (start fun _ => FSM.fresh 0) race).1.history order ∧
      Machine.writes Future.isRead order =
        [entry (2, .kv (.setCAS (str "a") (str "2") 0)), entry (1, .kv (.setCAS (str "a") (str "1") 0))] :=
  calls_linearizable (fun _ => FSM.fresh 0) (FSM.fresh 0).replica (fun _ => rfl) race calm_race

/-! ### What an answered write leaves -/

/-- Entries stay in the log, what was seen was seen, and the node goes on from where it was. -/
structure Later (i : ι) (s s' : Replicated ι) : Prop where
  log : s.log <+: s'.log
  history : s.history <+: s'.history
  applied : (s.peers i).returned.length ≤ (s'.peers i).returned.length

omit [DecidableEq ι] in
theorem Later.trans {i : ι} {s s' s'' : Replicated ι} (h : Later i s s') (h' : Later i s' s'') :
    Later i s s'' :=
  ⟨h.log.trans h'.log, h.history.trans h'.history, h.applied.trans h'.applied⟩

omit [DecidableEq ι] in
/-- Calls are made and answered, and nothing else. -/
theorem later_of_eq {i : ι} {s s' : Replicated ι} (hlog : s'.log = s.log) (hpeers : s'.peers = s.peers)
    {more : List (Happening Future Call Reply)} (hhistory : s'.history = s.history ++ more) :
    Later i s s' := by
  constructor
  · rw [hlog]
  · rw [hhistory]
    exact List.prefix_append _ _
  · rw [hpeers]

omit [DecidableEq ι] in
theorem later_of_handling {i : ι} (s : Replicated ι) (handling : List (ι × Activity)) :
    Later i s { s with handling } :=
  later_of_eq rfl rfl (List.append_nil _).symm

theorem later_setPeer (i : ι) (s : Replicated ι) (j : ι) {p : Peer}
    (hp : (s.peers j).returned.length ≤ p.returned.length) : Later i s (s.setPeer j p) := by
  constructor
  · exact List.prefix_rfl
  · exact List.prefix_rfl
  · simp only [setPeer, Function.update_apply]
    split_ifs with hj
    · exact hj ▸ hp
    · exact le_rfl

theorem later_perform (i : ι) (s : Replicated ι) (k : ℕ) (j : ι) (ensured : Option (ℕ × ℕ)) (e : Encounter)
    (range : (m : GoMap GoString KVEntry) → m.Order) (rest : Reader Display) :
    Later i s (s.perform k j ensured e range rest) := by
  unfold Replicated.perform
  split
  · exact later_of_handling ..
  · exact later_of_eq rfl rfl rfl
  · rename_i op next _
    have hpeer := later_setPeer i s j (p := { s.peers j with fsm := (e.perform (s.peers j).fsm op).1 }) le_rfl
    exact hpeer.trans (later_of_handling ..)
  · exact later_of_eq rfl rfl rfl
  · dsimp only
    split
    · exact later_of_handling s s.handling
    · exact later_of_eq rfl rfl rfl

theorem later_step {i : ι} (s : Replicated ι) {e : Event ι} (he : ∀ f, e ≠ .restart i f) :
    Later i s (machine.step s e).1 := by
  have hsame : Later i s s := later_of_handling s s.handling
  cases e with
  | request j d => exact later_of_handling ..
  | resume k e range =>
    show Later i s (s.resume k e range)
    unfold Replicated.resume
    split
    · exact later_perform ..
    · exact hsame
  | commit k =>
    show Later i s (s.commit k)
    unfold Replicated.commit
    split
    · exact hsame
    · exact ⟨List.prefix_append _ _, List.prefix_rfl, le_rfl⟩
  | barrier k =>
    show Later i s (s.barrier k)
    unfold Replicated.barrier
    split
    · exact later_of_handling ..
    · exact hsame
  | apply j now choice =>
    show Later i s (s.apply j now choice)
    unfold Replicated.apply
    split
    · exact hsame
    · have hgrown (r : Command × FsmResponse) :
          (s.peers j).returned.length ≤ ((s.peers j).returned ++ [r]).length := by
        rw [List.length_append]
        omega
      exact later_setPeer i s j (hgrown _)
  | answer k =>
    show Later i s (s.answer k)
    unfold Replicated.answer
    split
    · split
      · exact hsame
      · exact later_of_eq rfl rfl rfl
    · split_ifs
      · exact later_of_handling ..
      · exact hsame
    · exact hsame
  | fail k err =>
    show Later i s (s.fail k err)
    unfold Replicated.fail
    split
    · exact later_of_handling ..
    · exact later_of_handling ..
    · exact hsame
  | restart j f =>
    have hne : i ≠ j := fun heq => he f (heq ▸ rfl)
    constructor
    · exact List.prefix_rfl
    · exact List.prefix_rfl
    · show _ ≤ (Function.update s.peers j ⟨f, []⟩ i).returned.length
      rw [Function.update_of_ne hne]

theorem later_run {i : ι} (s : Replicated ι) {events : List (Event ι)}
    (h : ∀ f, .restart i f ∉ events) : Later i s (machine.run s events).1 := by
  induction events generalizing s with
  | nil => exact later_of_handling s s.handling
  | cons e events ih =>
    have hstep : Later i s (machine.step s e).1 :=
      later_step s fun f heq => h f (heq ▸ List.mem_cons_self ..)
    exact hstep.trans (ih _ fun f hf => h f (List.mem_cons_of_mem _ hf))

theorem oneStore_after (s : Replica) (log : List (ℕ × Command)) :
    (oneStore.run s (log.map fun p => .write p.2)).1 = s.after (log.map Prod.snd) := by
  induction log generalizing s with
  | nil => rfl
  | cons p log ih =>
    have hstep : s.after [p.2] = (s.applyCommand p.2 p.2.sortedChoice).1 :=
      congrArg Prod.fst (s.chooser_step p.2 p.2.sortedChoice)
    rw [List.map_cons, List.map_cons, ← List.singleton_append (x := p.2), Replica.after_append, hstep]
    exact ih _

omit [DecidableEq ι] in
/-- What a call of `ApplyEntry` waits for is there when the node has applied its entry. -/
theorem history_answer {k n : ℕ} {i : ι} {next : Except GoError FsmResponse → Reader Display}
    (hwaits : s.handling[k]? = some (i, .applying n next))
    (hthere : (s.log.map Prod.fst).idxOf n < (s.peers i).returned.length) :
    ∃ o, Happening.answer (.apply n) o ∈ (s.answer k).history := by
  have hresponse := List.getElem?_eq_getElem hthere
  unfold Replicated.answer
  rw [hwaits]
  dsimp only
  rw [hresponse]
  exact ⟨_, List.mem_append_right _ (List.mem_singleton.mpr rfl)⟩

/-- Once `ApplyEntry` has been answered at a node, the node shows the state of a part of the log
that has the entry in it, whatever comes after, until it crashes. -/
theorem own_write_shown (first : ι → FSM) (base : Replica) (hfirst : ∀ i, (first i).replica = base)
    (before after : List (Event ι)) (k : ℕ)
    (h : machine.Along (Calm base) (start first) (before ++ .answer k :: after)) {i : ι} {n : ℕ}
    {next : Except GoError FsmResponse → Reader Display}
    (hwaits : (machine.run (start first) before).1.handling[k]? = some (i, .applying n next))
    (hthere : ((machine.run (start first) before).1.log.map Prod.fst).idxOf n <
      ((machine.run (start first) before).1.peers i).returned.length)
    (hup : ∀ f, .restart i f ∉ after) :
    let s := (machine.run (start first) (before ++ .answer k :: after)).1
    (∃ o, Happening.answer (.apply n) o ∈ s.history) ∧
      ∃ shown, shown <+: s.log ∧ n ∈ shown.map Prod.fst ∧
        (s.peers i).fsm.replica = base.after (shown.map Prod.snd) := by
  intro s
  have hbefore := ((machine.along_append _ _ before _).mp h).1
  obtain ⟨order, hinv⟩ := inv_run hfirst hbefore
  obtain ⟨order', hinv'⟩ := inv_run hfirst h
  have hlast : s = (machine.run ((machine.run (start first) before).1.answer k) after).1 := by
    show (machine.run (start first) (before ++ .answer k :: after)).1 = _
    rw [machine.run_append]
    rfl
  have hstep : Later i (machine.run (start first) before).1 ((machine.run (start first) before).1.answer k) :=
    later_step (e := .answer k) _ fun _ heq => by cases heq
  have hafter : Later i ((machine.run (start first) before).1.answer k) s := hlast ▸ later_run _ hup
  have hlater := hstep.trans hafter
  constructor
  · obtain ⟨o, ho⟩ := history_answer hwaits hthere
    exact ⟨o, hafter.history.subset ho⟩
  · refine ⟨s.log.take (s.peers i).returned.length, List.take_prefix _ _, ?_, ?_⟩
    · have hle := hinv.applied_le i
      have hmem := List.idxOf_lt_length_iff.mp (show _ < (List.map Prod.fst _).length by
        rw [List.length_map]
        exact hthere.trans_le hle)
      have hnumbers := hlater.log.map Prod.fst
      rw [List.map_take, List.mem_take_iff_idxOf_lt (hnumbers.subset hmem), ← hnumbers.idxOf_eq_of_mem hmem]
      exact hthere.trans_le hlater.applied
    · rw [← oneStore_after]
      exact congrArg Prod.fst (hinv'.shows i)

theorem own_write_shown_race :
    let s := (machine.run (start fun _ => FSM.fresh 0) race).1
    (∃ o, Happening.answer (.apply 2) o ∈ s.history) ∧
      ∃ shown, shown <+: s.log ∧ 2 ∈ shown.map Prod.fst ∧
        (s.peers true).fsm.replica = (FSM.fresh 0).replica.after (shown.map Prod.snd) :=
  own_write_shown (fun _ => FSM.fresh 0) (FSM.fresh 0).replica (fun _ => rfl) (race.take 15)
    (race.drop 16) 1 calm_race rfl (show 0 < 2 by decide) fun f hf => by
      simp [race] at hf

end Replicated

end Konsul
