import Konsul.Raft.Node

/-!
# The servers of the cluster (raft/node.go)

`join` and `leave` ask the Raft library for one change of its configuration after
another. A `Library` is what it answers during one call of theirs: each change is
made whole or fails and leaves the configuration as it was.
-/

namespace Konsul

open GoLib

namespace Cluster

inductive ServerSuffrage where
  | voter
  | nonvoter
  | staging
  deriving DecidableEq

structure Server where
  suffrage : ServerSuffrage
  id : GoString
  address : GoString
  deriving DecidableEq

/-- The library keeps one server of an id. -/
structure Configuration where
  servers : List Server
  nodup : (servers.map Server.id).Nodup

instance : Membership Server Configuration := ⟨fun c s => s ∈ c.servers⟩

theorem Configuration.mem_servers {c : Configuration} {s : Server} : s ∈ c.servers ↔ s ∈ c :=
  Iff.rfl

theorem Configuration.eq_of_id {c : Configuration} {s t : Server} (hs : s ∈ c) (ht : t ∈ c)
    (h : s.id = t.id) : s = t :=
  List.inj_on_of_nodup_map c.nodup hs ht h

inductive RaftState where
  | follower
  | candidate
  | leader
  | shutdown
  deriving DecidableEq

/-! ### The library -/

inductive Op where
  | state
  | getConfiguration
  | removeServer (id : GoString)
  | addVoter (id address : GoString)

abbrev Op.Answer : Op → Type
  | .state => RaftState
  | .getConfiguration => Except GoError Configuration
  | .removeServer _ => Option GoError
  | .addVoter _ _ => Option GoError

/-- `hashicorp/raft`, from the start of a call to its end. -/
structure Library where
  state : RaftState
  /-- The error of reading the configuration, if any. -/
  getConfiguration : Option GoError
  removeServer : Configuration → GoString → Except GoError Configuration
  addVoter : Configuration → GoString → GoString → Except GoError Configuration

/-- What the library documents of the changes it makes. -/
structure Library.Documented (L : Library) : Prop where
  removed : ∀ {c d id}, L.removeServer c id = .ok d → ∀ s, s ∈ d ↔ s ∈ c ∧ s.id ≠ id
  added : ∀ {c d id address}, L.addVoter c id address = .ok d →
    ∀ s, s ∈ d ↔ s = ⟨.voter, id, address⟩ ∨ s ∈ c ∧ s.id ≠ id

/-- A change that fails is not made. -/
def changed (c : Configuration) : Except GoError Configuration → Configuration × Option GoError
  | .ok d => (d, none)
  | .error err => (c, some err)

def Library.exec (L : Library) (c : Configuration) : (op : Op) → Configuration × op.Answer
  | .state => (c, L.state)
  | .getConfiguration =>
    (c, match L.getConfiguration with
      | some err => .error err
      | none => .ok c)
  | .removeServer id => changed c (L.removeServer c id)
  | .addVoter id address => changed c (L.addVoter c id address)

/-! ### Methods of the node -/

abbrev Method := Program Op Op.Answer

def state : Method RaftState := .perform Op.state
def getConfiguration : Method (Except GoError Configuration) := .perform Op.getConfiguration
def removeServer (id : GoString) : Method (Option GoError) := .perform (Op.removeServer id)
def addVoter (id address : GoString) : Method (Option GoError) := .perform (Op.addVoter id address)

/-- The loop of `Join` over the servers it read; `some` is a return from inside it. -/
def joinLoop (nodeID addr : GoString) : List Server → Method (Option (Option GoError))
  | [] => return none
  | srv :: servers =>
    if srv.id = nodeID then
      if srv.address = addr then return some none
      else do
        match ← removeServer srv.id with
        | some err => return some (some (.wrap (str "failed to remove existing node") err))
        | none => joinLoop nodeID addr servers
    else joinLoop nodeID addr servers

def join (nodeID addr : GoString) : Method (Option GoError) := do
  if (← state) ≠ .leader then return some errNotLeader
  match ← getConfiguration with
  | .error err => return some (.wrap (str "failed to get configuration") err)
  | .ok c =>
    match ← joinLoop nodeID addr c.servers with
    | some result => return result
    | none =>
      match ← addVoter nodeID addr with
      | some err => return some (.wrap (str "failed to add voter") err)
      | none => return none

def leave (nodeID : GoString) : Method (Option GoError) := do
  if (← state) ≠ .leader then return some errNotLeader
  match ← removeServer nodeID with
  | some err => return some (.wrap (str "failed to remove server") err)
  | none => return none

/-! ### What a call does -/

section

variable (L : Library) (c : Configuration) (nodeID addr : GoString)

theorem run_joinLoop_of_absent {servers : List Server} (h : ∀ s ∈ servers, s.id ≠ nodeID) :
    (joinLoop nodeID addr servers).run L.exec c = (c, none) := by
  induction servers with
  | nil => rfl
  | cons srv servers ih =>
    have hne : srv.id ≠ nodeID := h srv (List.mem_cons_self ..)
    rw [joinLoop, if_neg hne]
    exact ih fun s hs => h s (List.mem_cons_of_mem _ hs)

/-- What the loop makes of the one server of the id. -/
def meet (srv : Server) : Configuration × Option (Option GoError) :=
  if srv.address = addr then (c, some none)
  else
    match L.removeServer c nodeID with
    | .ok d => (d, none)
    | .error err => (c, some (some (.wrap (str "failed to remove existing node") err)))

theorem run_joinLoop_of_mem {servers : List Server} {srv : Server}
    (hnodup : (servers.map Server.id).Nodup) (hs : srv ∈ servers) (hid : srv.id = nodeID) :
    (joinLoop nodeID addr servers).run L.exec c = meet L c nodeID addr srv := by
  induction servers with
  | nil => cases hs
  | cons t servers ih =>
    rw [List.map_cons, List.nodup_cons] at hnodup
    rcases List.mem_cons.mp hs with rfl | hs
    · -- no other server has the id, so the rest of the loop does nothing
      have habsent : ∀ s ∈ servers, s.id ≠ nodeID := by
        intro s hmem heq
        apply hnodup.1
        rw [hid, ← heq]
        exact List.mem_map_of_mem hmem
      rw [joinLoop, if_pos hid, meet]
      by_cases haddr : srv.address = addr
      · rw [if_pos haddr, if_pos haddr]
        rfl
      · rw [if_neg haddr, if_neg haddr, removeServer, Program.run_perform_bind, hid]
        cases hremove : L.removeServer c nodeID with
        | ok d =>
          simp only [Library.exec, changed, hremove]
          exact run_joinLoop_of_absent L d nodeID addr habsent
        | error err => simp only [Library.exec, changed, hremove]; rfl
    · have hne : t.id ≠ nodeID := by
        intro heq
        apply hnodup.1
        rw [heq, ← hid]
        exact List.mem_map_of_mem hs
      rw [joinLoop, if_neg hne]
      exact ih hnodup.2 hs

/-- The call at the end of `Join`. -/
def finish : Configuration × Option GoError :=
  match L.addVoter c nodeID addr with
  | .ok d => (d, none)
  | .error err => (c, some (.wrap (str "failed to add voter") err))

/-- The library lets the call change the cluster. -/
def Library.Willing : Prop := L.state = .leader ∧ L.getConfiguration = none

variable {L}

theorem run_join_of_not_willing (h : ¬ L.Willing) :
    ∃ err, (join nodeID addr).run L.exec c = (c, some err) := by
  by_cases hstate : L.state = .leader
  · cases hget : L.getConfiguration with
    | none => exact absurd ⟨hstate, hget⟩ h
    | some err =>
      refine ⟨.wrap (str "failed to get configuration") err, ?_⟩
      simp [join, state, getConfiguration, Program.run_perform_bind, Library.exec, hstate, hget]
  · refine ⟨errNotLeader, ?_⟩
    simp [join, state, Program.run_perform_bind, Library.exec, hstate]

theorem run_join_of_willing (h : L.Willing) :
    (join nodeID addr).run L.exec c =
      match (joinLoop nodeID addr c.servers).run L.exec c with
      | (d, some result) => (d, result)
      | (d, none) => finish L d nodeID addr := by
  rw [join, state, Program.run_perform_bind]
  simp only [Library.exec, h.1, ne_eq, not_true, if_false]
  rw [getConfiguration, Program.run_perform_bind]
  simp only [Library.exec, h.2, Program.run_bind]
  obtain ⟨d, result⟩ := (joinLoop nodeID addr c.servers).run L.exec c
  cases result with
  | some result => rfl
  | none =>
    show (addVoter nodeID addr >>= _).run L.exec d = finish L d nodeID addr
    rw [addVoter, Program.run_perform_bind]
    cases hadd : L.addVoter d nodeID addr <;> simp only [Library.exec, changed, finish, hadd] <;> rfl

theorem run_join_of_absent (h : L.Willing) (habsent : ∀ s ∈ c, s.id ≠ nodeID) :
    (join nodeID addr).run L.exec c = finish L c nodeID addr := by
  rw [run_join_of_willing c nodeID addr h, run_joinLoop_of_absent L c nodeID addr habsent]

variable {c nodeID} in
theorem run_join_of_mem (h : L.Willing) {srv : Server} (hs : srv ∈ c) (hid : srv.id = nodeID) :
    (join nodeID addr).run L.exec c =
      if srv.address = addr then (c, none)
      else
        match L.removeServer c nodeID with
        | .ok d => finish L d nodeID addr
        | .error err => (c, some (.wrap (str "failed to remove existing node") err)) := by
  rw [run_join_of_willing c nodeID addr h, run_joinLoop_of_mem L c nodeID addr c.nodup hs hid, meet]
  by_cases haddr : srv.address = addr
  · rw [if_pos haddr, if_pos haddr]
  · rw [if_neg haddr, if_neg haddr]
    cases L.removeServer c nodeID <;> rfl

theorem run_leave :
    (leave nodeID).run L.exec c =
      if L.state = .leader then
        match L.removeServer c nodeID with
        | .ok d => (d, none)
        | .error err => (c, some (.wrap (str "failed to remove server") err))
      else (c, some errNotLeader) := by
  rw [leave, state, Program.run_perform_bind]
  by_cases hstate : L.state = .leader
  · simp only [Library.exec, hstate, ne_eq, not_true, if_false, if_true]
    show (removeServer nodeID >>= _).run L.exec c = _
    rw [removeServer, Program.run_perform_bind]
    cases hremove : L.removeServer c nodeID <;> simp only [Library.exec, changed, hremove] <;> rfl
  · simp only [Library.exec, hstate, ne_eq, not_false_eq_true, if_true, if_false]
    rfl

end

/-! ### What is left of the cluster -/

def Same (c d : Configuration) : Prop := ∀ s, s ∈ d ↔ s ∈ c

/-- `d` has the servers of `c` but for the one of the id. -/
def Without (c : Configuration) (id : GoString) (d : Configuration) : Prop :=
  ∀ s, s ∈ d ↔ s ∈ c ∧ s.id ≠ id

/-- The servers of other ids are those of `c`. -/
def OthersKept (c : Configuration) (id : GoString) (d : Configuration) : Prop :=
  ∀ s : Server, s.id ≠ id → (s ∈ d ↔ s ∈ c)

theorem Same.others {c d : Configuration} (h : Same c d) (id : GoString) : OthersKept c id d :=
  fun s _ => h s

theorem Without.others {c d : Configuration} {id : GoString} (h : Without c id d) :
    OthersKept c id d := fun s hs => by rw [h s, and_iff_left hs]

theorem Without.of_absent {c : Configuration} {id : GoString} (h : ∀ s ∈ c, s.id ≠ id) :
    Without c id c := fun s => ⟨fun hs => ⟨hs, h s hs⟩, fun hs => hs.1⟩

theorem OthersKept.trans {c d e : Configuration} {id : GoString} (h : OthersKept c id d)
    (h' : OthersKept d id e) : OthersKept c id e :=
  fun s hs => (h' s hs).trans (h s hs)

/-- An error leaves the cluster as it was, and without one the node is a voter at the
address among the other servers. -/
def JoinKept (c : Configuration) (nodeID addr : GoString)
    (after : Configuration × Option GoError) : Prop :=
  (after.2 ≠ none → Same c after.1) ∧
    (after.2 = none → ⟨.voter, nodeID, addr⟩ ∈ after.1 ∧ OthersKept c nodeID after.1)

/-- An error leaves the cluster as it was, and without one the node is gone from it. -/
def LeaveKept (c : Configuration) (nodeID : GoString)
    (after : Configuration × Option GoError) : Prop :=
  (after.2 ≠ none → Same c after.1) ∧ (after.2 = none → Without c nodeID after.1)

section

variable {L : Library} {c d : Configuration} {nodeID addr : GoString}

theorem JoinKept.of_error (err : GoError) : JoinKept c nodeID addr (c, some err) :=
  ⟨fun _ s => Iff.rfl, fun h => by cases h⟩

theorem joinKept_none_iff :
    JoinKept c nodeID addr (d, none) ↔
      ⟨.voter, nodeID, addr⟩ ∈ d ∧ OthersKept c nodeID d :=
  ⟨fun h => h.2 rfl, fun h => ⟨fun hne => absurd rfl hne, fun _ => h⟩⟩

theorem joinKept_some_iff (err : GoError) :
    JoinKept c nodeID addr (d, some err) ↔ Same c d :=
  ⟨fun h => h.1 (by simp), fun h => ⟨fun _ => h, fun hnone => by cases hnone⟩⟩

theorem othersKept_finish (hL : L.Documented) (c : Configuration) (nodeID addr : GoString) :
    OthersKept c nodeID (finish L c nodeID addr).1 := by
  rw [finish]
  cases hadd : L.addVoter c nodeID addr with
  | ok d =>
    intro s hs
    have hnew : s ≠ ⟨.voter, nodeID, addr⟩ := by
      rintro rfl
      exact hs rfl
    show s ∈ d ↔ s ∈ c
    rw [hL.added hadd s, or_iff_right hnew, and_iff_left hs]
  | error err => exact fun s _ => Iff.rfl

/-- With the server of the id out of the way, the join is kept iff the voter is added or
nothing was in the way. -/
theorem joinKept_finish_iff (hL : L.Documented) (hd : Without c nodeID d) :
    JoinKept c nodeID addr (finish L d nodeID addr) ↔
      (∃ e, L.addVoter d nodeID addr = .ok e) ∨ ∀ s ∈ c, s.id ≠ nodeID := by
  rw [finish]
  cases hadd : L.addVoter d nodeID addr with
  | ok e =>
    have hmem : ⟨.voter, nodeID, addr⟩ ∈ e := (hL.added hadd _).mpr (Or.inl rfl)
    have hothers : OthersKept d nodeID e := by
      simpa only [finish, hadd] using othersKept_finish hL d nodeID addr
    exact iff_of_true (joinKept_none_iff.mpr ⟨hmem, hd.others.trans hothers⟩) (Or.inl ⟨e, rfl⟩)
  | error err =>
    rw [joinKept_some_iff]
    constructor
    · intro h
      right
      intro s hs
      exact ((hd s).mp ((h s).mpr hs)).2
    · rintro (⟨e, he⟩ | habsent)
      · cases he
      · intro s
        rw [hd s, and_iff_left_of_imp (habsent s)]

/-- The node is no member, or a voter at the address, or it can be moved there if it can be
removed at all. -/
def Joinable (L : Library) (c : Configuration) (nodeID addr : GoString) : Prop :=
  ∀ srv ∈ c, srv.id = nodeID →
    (srv.address = addr → srv.suffrage = .voter) ∧
      (srv.address ≠ addr → ∀ d, L.removeServer c nodeID = .ok d →
        ∃ e, L.addVoter d nodeID addr = .ok e)

theorem joinable_iff_of_mem {srv : Server} (hs : srv ∈ c) (hid : srv.id = nodeID) :
    Joinable L c nodeID addr ↔
      (srv.address = addr → srv.suffrage = .voter) ∧
        (srv.address ≠ addr → ∀ d, L.removeServer c nodeID = .ok d →
          ∃ e, L.addVoter d nodeID addr = .ok e) := by
  constructor
  · intro h
    exact h srv hs hid
  · intro h t ht htid
    rw [Configuration.eq_of_id ht hs (htid.trans hid.symm)]
    exact h

/-- A call to join keeps its promise iff the library refuses it or the node is joinable. -/
theorem join_kept_iff (hL : L.Documented) (c : Configuration) (nodeID addr : GoString) :
    JoinKept c nodeID addr ((join nodeID addr).run L.exec c) ↔
      (L.Willing → Joinable L c nodeID addr) := by
  by_cases hwilling : L.Willing
  · rw [imp_iff_right hwilling]
    by_cases hmem : ∃ srv ∈ c, srv.id = nodeID
    · obtain ⟨srv, hs, hid⟩ := hmem
      rw [joinable_iff_of_mem hs hid, run_join_of_mem addr hwilling hs hid]
      by_cases haddr : srv.address = addr
      · -- the node is found at the address and nothing is done
        rw [if_pos haddr, joinKept_none_iff]
        have hothers : OthersKept c nodeID c := fun s _ => Iff.rfl
        constructor
        · intro h
          have heq : srv = ⟨.voter, nodeID, addr⟩ := Configuration.eq_of_id hs h.1 hid
          exact ⟨fun _ => by rw [heq], fun hne => absurd haddr hne⟩
        · intro h
          have heq : srv = ⟨.voter, nodeID, addr⟩ := by
            obtain ⟨suffrage, id, address⟩ := srv
            cases hid
            cases haddr
            cases h.1 rfl
            rfl
          exact ⟨heq ▸ hs, hothers⟩
      · rw [if_neg haddr]
        cases hremove : L.removeServer c nodeID with
        | ok d =>
          have hstays : ¬ ∀ s ∈ c, s.id ≠ nodeID := fun h => h srv hs hid
          show JoinKept c nodeID addr (finish L d nodeID addr) ↔ _
          rw [joinKept_finish_iff hL (hL.removed hremove)]
          simp only [hstays, or_false, haddr, false_imp_iff, true_and, ne_eq, not_false_eq_true,
            true_imp_iff, Except.ok.injEq, forall_eq']
        | error err =>
          refine iff_of_true (JoinKept.of_error _) ⟨fun h => absurd h haddr, fun _ d hd => ?_⟩
          cases hd
    · have habsent : ∀ s ∈ c, s.id ≠ nodeID := fun s hs hid => hmem ⟨s, hs, hid⟩
      rw [run_join_of_absent c nodeID addr hwilling habsent]
      refine iff_of_true ?_ fun s hs hid => absurd hid (habsent s hs)
      exact (joinKept_finish_iff hL (Without.of_absent habsent)).mpr (Or.inr habsent)
  · obtain ⟨err, herr⟩ := run_join_of_not_willing c nodeID addr hwilling
    rw [herr]
    exact iff_of_true (JoinKept.of_error err) fun h => absurd h hwilling

end

/-! ### One call after another -/

inductive Request where
  | join (nodeID addr : GoString)
  | leave (nodeID : GoString)

namespace Request

def nodeID : Request → GoString
  | join nodeID _ => nodeID
  | leave nodeID => nodeID

def method : Request → Method (Option GoError)
  | join nodeID addr => Cluster.join nodeID addr
  | leave nodeID => Cluster.leave nodeID

end Request

section

variable {L : Library} (hL : L.Documented)
include hL

theorem othersKept_join (c : Configuration) (nodeID addr : GoString) :
    OthersKept c nodeID ((join nodeID addr).run L.exec c).1 := by
  by_cases hwilling : L.Willing
  · by_cases hmem : ∃ srv ∈ c, srv.id = nodeID
    · obtain ⟨srv, hs, hid⟩ := hmem
      rw [run_join_of_mem addr hwilling hs hid]
      by_cases haddr : srv.address = addr
      · rw [if_pos haddr]
        exact fun s _ => Iff.rfl
      · rw [if_neg haddr]
        cases hremove : L.removeServer c nodeID with
        | ok d =>
          have hothers : OthersKept c nodeID d := Without.others (hL.removed hremove)
          exact hothers.trans (othersKept_finish hL d nodeID addr)
        | error err => exact fun s _ => Iff.rfl
    · have habsent : ∀ s ∈ c, s.id ≠ nodeID := fun s hs hid => hmem ⟨s, hs, hid⟩
      rw [run_join_of_absent c nodeID addr hwilling habsent]
      exact othersKept_finish hL c nodeID addr
  · obtain ⟨err, herr⟩ := run_join_of_not_willing c nodeID addr hwilling
    rw [herr]
    exact fun s _ => Iff.rfl

theorem leave_kept (c : Configuration) (nodeID : GoString) :
    LeaveKept c nodeID ((leave nodeID).run L.exec c) := by
  rw [run_leave]
  by_cases hstate : L.state = .leader
  · rw [if_pos hstate]
    cases hremove : L.removeServer c nodeID with
    | ok d => exact ⟨fun h => absurd rfl h, fun _ => hL.removed hremove⟩
    | error err => exact ⟨fun _ s => Iff.rfl, fun h => by cases h⟩
  · rw [if_neg hstate]
    exact ⟨fun _ s => Iff.rfl, fun h => by cases h⟩

theorem othersKept_method (c : Configuration) (q : Request) :
    OthersKept c q.nodeID (q.method.run L.exec c).1 := by
  cases q with
  | join nodeID addr => exact othersKept_join hL c nodeID addr
  | leave nodeID =>
    have h := leave_kept hL c nodeID
    by_cases hnone : ((leave nodeID).run L.exec c).2 = none
    · exact (h.2 hnone).others
    · exact (h.1 hnone).others nodeID

end

/-- The cluster after the calls, each with the library as it was then. -/
def configurationAfter (calls : List (Library × Request)) (c : Configuration) : Configuration :=
  calls.foldl (fun c call => (call.2.method.run call.1.exec c).1) c

/-- A server that no call names is the server it was. -/
theorem mem_configurationAfter_iff {calls : List (Library × Request)} {s : Server}
    (hL : ∀ call ∈ calls, call.1.Documented) (hs : ∀ call ∈ calls, s.id ≠ call.2.nodeID)
    (c : Configuration) : s ∈ configurationAfter calls c ↔ s ∈ c := by
  induction calls generalizing c with
  | nil => exact Iff.rfl
  | cons call calls ih =>
    have hstep : s ∈ (call.2.method.run call.1.exec c).1 ↔ s ∈ c :=
      othersKept_method (hL call (List.mem_cons_self ..)) c call.2 s
        (hs call (List.mem_cons_self ..))
    have hrest := ih (fun q hq => hL q (List.mem_cons_of_mem _ hq))
      (fun q hq => hs q (List.mem_cons_of_mem _ hq)) (call.2.method.run call.1.exec c).1
    exact hrest.trans hstep

/-! ### A library that checks the configurations it makes -/

/-- Ids and addresses are unique, and somebody can vote. -/
def checked (servers : List Server) : Except GoError Configuration :=
  if hid : (servers.map Server.id).Nodup then
    if (servers.map Server.address).Nodup then
      if ∃ s ∈ servers, s.suffrage = .voter then .ok ⟨servers, hid⟩
      else .error (.text (str "need at least one voter in configuration"))
    else .error (.text (str "found duplicate address in configuration"))
  else .error (.text (str "found duplicate ID in configuration"))

/-- A leader whose changes fail only when they make a configuration that is refused. -/
def checking : Library where
  state := .leader
  getConfiguration := none
  removeServer c id := checked (c.servers.filter (·.id ≠ id))
  addVoter c id address :=
    checked (c.servers.filter (·.id ≠ id) ++ [⟨.voter, id, address⟩])

theorem servers_of_checked {servers : List Server} {d : Configuration}
    (h : checked servers = .ok d) : d.servers = servers := by
  rw [checked] at h
  split at h
  · split at h
    · split at h
      · cases h
        rfl
      · cases h
    · cases h
  · cases h

theorem checking_documented : checking.Documented where
  removed h s := by
    rw [← Configuration.mem_servers, servers_of_checked h]
    simp [Configuration.mem_servers]
  added h s := by
    rw [← Configuration.mem_servers, servers_of_checked h]
    simp [Configuration.mem_servers, or_comm]

def threeServers : Configuration where
  servers := [⟨.voter, str "n1", str "a1"⟩, ⟨.voter, str "n2", str "a2"⟩,
    ⟨.voter, str "n3", str "a3"⟩]
  nodup := by decide +kernel

/-- Moving a node to the address of another removes it from the cluster. -/
theorem join_loses_node :
    ¬ JoinKept threeServers (str "n2") (str "a3")
      ((join (str "n2") (str "a3")).run checking.exec threeServers) := by
  intro h
  have hfails : ((join (str "n2") (str "a3")).run checking.exec threeServers).2 =
      some (.wrap (str "failed to add voter")
        (.text (str "found duplicate address in configuration"))) := by decide +kernel
  have hgone : ⟨.voter, str "n2", str "a2"⟩ ∉
      ((join (str "n2") (str "a3")).run checking.exec threeServers).1.servers := by decide +kernel
  have hwas : ⟨.voter, str "n2", str "a2"⟩ ∈ threeServers.servers := by decide +kernel
  exact hgone ((h.1 (by rw [hfails]; simp) _).mpr hwas)

/-- A node moved to an address of its own. -/
theorem join_moves_node :
    JoinKept threeServers (str "n2") (str "a4")
        ((join (str "n2") (str "a4")).run checking.exec threeServers) ↔
      (checking.Willing → Joinable checking threeServers (str "n2") (str "a4")) :=
  join_kept_iff checking_documented threeServers (str "n2") (str "a4")

end Cluster

end Konsul
