import Konsul.Lib.Program
import Konsul.Raft.FSM
import Konsul.Store.ServiceJson

/-!
# The node a handler works on

A handler is a program over `Op`: calls of its Raft node and of the node's own
stores. A command travels through the log as JSON text (`Command.json`). `exec`
is a node whose entries are committed: `ApplyEntry` answers what its own state
machine answered.
-/

namespace Konsul

open GoLib

/-! ### Commands on the wire -/

def KVCommand.json : KVCommand → KVCommand
  | .set key value => .set (jsonString key) (jsonString value)
  | .setWithFlags key value flags => .setWithFlags (jsonString key) (jsonString value) flags
  | .delete key => .delete (jsonString key)
  | .batchSet items => .batchSet (jsonMap jsonString items)
  | .batchDelete keys => .batchDelete (keys.map jsonString)
  | .setCAS key value expectedIndex => .setCAS (jsonString key) (jsonString value) expectedIndex
  | .deleteCAS key expectedIndex => .deleteCAS (jsonString key) expectedIndex
  | .batchSetCAS items expectedIndices =>
    .batchSetCAS (jsonMap jsonString items) (jsonMap id expectedIndices)
  | .batchDeleteCAS keys expectedIndices =>
    .batchDeleteCAS (keys.map jsonString) (jsonMap id expectedIndices)

def ServiceCommand.json : ServiceCommand → ServiceCommand
  | .register service => .register service.json
  | .deregister name => .deregister (jsonString name)
  | .heartbeat name => .heartbeat (jsonString name)
  | .ttlUpdate checkID => .ttlUpdate (jsonString checkID)
  | .registerCAS service expectedIndex => .registerCAS service.json expectedIndex
  | .deregisterCAS name expectedIndex => .deregisterCAS (jsonString name) expectedIndex

/-- The command `Apply` decodes from what `NewCommand` and `Marshal` wrote. -/
def Command.json : Command → Command
  | .kv c => .kv c.json
  | .service c => .service c.json
  | .undecodable answer => .undecodable answer

/-! ### Replies -/

/-- A value of a reply's JSON object. -/
inductive Value where
  | text (s : GoString)
  | texts (l : List GoString)
  | count (n : ℕ)
  | index (n : UInt64)
  | indices (m : GoMap GoString UInt64)
  | service (s : ServiceDataSnapshot)
  deriving DecidableEq

/-- Status and JSON object of a reply. -/
structure Response where
  status : ℕ
  body : List (GoString × Value)
  deriving DecidableEq

namespace Response

def field (r : Response) (name : GoString) : Option Value := r.body.lookup name

/-- The error replies of the middleware, which also carry the request's id, path and time. -/
def errorResponse (status : ℕ) (error message : GoString) : Response :=
  ⟨status, [(str "error", .text error), (str "message", .text message)]⟩

def badRequest (message : GoString) : Response := errorResponse 400 (str "Bad Request") message

def notFound (message : GoString) : Response := errorResponse 404 (str "Not Found") message

def internalError (message : GoString) : Response :=
  errorResponse 500 (str "Internal Server Error") message

def casConflict (err : GoError) : Response :=
  errorResponse 409 (str "CAS conflict") err.error

def replicationFailed (err : GoError) : Response :=
  errorResponse 500 (str "replication failed") err.error

def notLeader (leader : GoString) : Response :=
  ⟨503, [(str "error", .text (str "not leader")), (str "leader", .text leader)]⟩

end Response

/-! ### Operations -/

inductive Op where
  | isLeader
  | leaderAddr
  | applyEntry (c : Command)
  /-- The method of the node's own `KVStore` of this name. -/
  | kvStore (c : KVCommand)
  /-- The method of the node's own `ServiceStore` of this name. -/
  | serviceStore (c : ServiceCommand)
  | getKVEntry (key : GoString)
  | getServiceEntry (name : GoString)
  /-- Any other look at the stores. -/
  | view (answer : FSM → Response)

/-- What a method of the service store returns, with zero values for what it does not. -/
structure ServiceResult where
  newIndex : UInt64
  found : Bool
  err : Option GoError
  deriving DecidableEq

abbrev Op.Answer : Op → Type
  | .isLeader => Bool
  | .leaderAddr => GoString
  | .applyEntry _ => Except GoError FsmResponse
  | .kvStore _ => KVResult
  | .serviceStore _ => ServiceResult
  | .getKVEntry _ => Option KVEntry
  | .getServiceEntry _ => Option ServiceEntry
  | .view _ => Response

abbrev Handler := Program Op Op.Answer

def KVCommand.toOp : (c : KVCommand) → c.Choice → KVOp
  | .set key value, _ => .set key value
  | .setWithFlags key value flags, _ => .setWithFlags key value flags
  | .delete key, _ => .delete key
  | .batchSet items, (range, watch) => .batchSet items range watch
  | .batchDelete keys, watch => .batchDelete keys watch
  | .setCAS key value expectedIndex, _ => .setCAS key value expectedIndex
  | .deleteCAS key expectedIndex, _ => .deleteCAS key expectedIndex
  | .batchSetCAS items expectedIndices, (check, range, watch) =>
    .batchSetCAS items expectedIndices check range watch
  | .batchDeleteCAS keys expectedIndices, watch => .batchDeleteCAS keys expectedIndices watch

namespace FSM

def callKVStore (f : FSM) (c : KVCommand) (ch : c.Choice) : FSM × KVResult :=
  let r := (c.toOp ch).apply f.kvStore
  ({ f with kvStore := r.1 }, r.2)

def callServiceStore (f : FSM) (env : StoreEnv) : (c : ServiceCommand) → c.Choice →
    FSM × ServiceResult
  | .register service, range =>
    let r := f.serviceStore.register env service range
    ({ f with serviceStore := r.1 }, ⟨0, false, r.2⟩)
  | .deregister name, _ =>
    ({ f with serviceStore := f.serviceStore.deregister name }, ⟨0, false, none⟩)
  | .heartbeat name, _ =>
    let r := f.serviceStore.heartbeat env name
    ({ f with serviceStore := r.1 }, ⟨0, r.2, none⟩)
  | .ttlUpdate checkID, _ =>
    let r := f.serviceStore.updateTTLCheck env.now checkID
    ({ f with serviceStore := r.1 }, ⟨0, false, r.2⟩)
  | .registerCAS service expectedIndex, range =>
    let r := f.serviceStore.registerCAS env service range expectedIndex
    ({ f with serviceStore := r.1 }, ⟨r.2.1, false, r.2.2⟩)
  | .deregisterCAS name expectedIndex, _ =>
    let r := f.serviceStore.deregisterCAS name expectedIndex
    ({ f with serviceStore := r.1 }, ⟨0, false, r.2⟩)

end FSM

/-! ### A node whose entries are committed -/

/-- The surroundings of a handler: what the leader check sees, and the clock, the
identifiers and the map orders at every turn. -/
structure Surroundings where
  isLeader : Bool
  leaderAddr : GoString
  env : ℕ → StoreEnv
  choice : ℕ → (c : Command) → c.Choice

/-- The leader, with every loop in the order of the keys. -/
def Surroundings.leader : Surroundings :=
  { isLeader := true, leaderAddr := []
    env := fun _ =>
      { now := 0, newUUID := fun _ => [], parseDuration := fun _ => none
        marshalEntry := fun _ => .ok [] }
    choice := fun _ => Command.sortedChoice }

/-- A command that went through the log. -/
structure Commit where
  before : FSM
  command : Command
  now : Time
  answer : FsmResponse
  after : FSM

structure World where
  fsm : FSM
  turn : ℕ
  commits : List Commit

def World.start (f : FSM) : World := ⟨f, 0, []⟩

/-- What comes of a command that is committed now. -/
def World.commit (w : World) (L : Surroundings) (c : Command) : Commit :=
  let now := (L.env w.turn).now
  let r := w.fsm.apply now c.json (L.choice w.turn c.json)
  { before := w.fsm, command := c, now, answer := r.2, after := r.1 }

def World.committed (w : World) (e : Commit) : World :=
  { fsm := e.after, turn := w.turn + 1, commits := w.commits ++ [e] }

def exec (L : Surroundings) (w : World) : (op : Op) → World × op.Answer
  | .isLeader => (w, L.isLeader)
  | .leaderAddr => (w, L.leaderAddr)
  | .applyEntry c => (w.committed (w.commit L c), .ok (w.commit L c).answer)
  | .kvStore c =>
    let r := w.fsm.callKVStore c (L.choice w.turn (.kv c))
    ({ w with fsm := r.1, turn := w.turn + 1 }, r.2)
  | .serviceStore c =>
    let r := w.fsm.callServiceStore (L.env w.turn) c (L.choice w.turn (.service c))
    ({ w with fsm := r.1, turn := w.turn + 1 }, r.2)
  | .getKVEntry key => (w, w.fsm.kvStore.getEntry key)
  | .getServiceEntry name => (w, w.fsm.serviceStore.getEntry (L.env w.turn).now name)
  | .view answer => (w, answer w.fsm)

/-! ### Methods of the node -/

namespace GoError

/-- `errors.Is(err, target)` for an error variable. -/
def is (target : GoError) : GoError → Bool
  | wrap message cause => target = wrap message cause || is target cause
  | err => target = err

/-- The type `%T` prints. -/
def typeName : GoError → GoString
  | casConflict .. => str "*store.CASConflictError"
  | notFound .. => str "*store.NotFoundError"
  | sentinel .. => str "*errors.errorString"
  | text _ => str "*errors.errorString"
  | wrap .. => str "*fmt.wrapError"

end GoError

/-- `konsulraft.ErrNotLeader`. -/
def errNotLeader : GoError :=
  .sentinel (str "github.com/neogan74/konsul/internal/raft") (str "not the leader")

/-- `hashiraft.ErrNotLeader`, of the Raft library. -/
def hashiErrNotLeader : GoError :=
  .sentinel (str "github.com/hashicorp/raft") (str "node is not the leader")

namespace Node

def isLeader : Handler Bool := .perform Op.isLeader

def leaderAddr : Handler GoString := .perform Op.leaderAddr

/-- Marshalling a command never fails. -/
def applyEntry (c : Command) : Handler (Except GoError FsmResponse) := .perform (Op.applyEntry c)

/-- The answer of the state machine is dropped. -/
def applyCommand (c : Command) : Handler (Option GoError) := do
  match ← applyEntry c with
  | .error err => pure (some err)
  | .ok _ => pure none

def kvSet (key value : GoString) : Handler (Option GoError) :=
  applyCommand (.kv (.set key value))

def kvSetWithFlags (key value : GoString) (flags : UInt64) : Handler (Option GoError) :=
  applyCommand (.kv (.setWithFlags key value flags))

def kvDelete (key : GoString) : Handler (Option GoError) := applyCommand (.kv (.delete key))

def kvBatchSet (items : GoMap GoString GoString) : Handler (Option GoError) :=
  applyCommand (.kv (.batchSet items))

def kvBatchDelete (keys : List GoString) : Handler (Option GoError) :=
  applyCommand (.kv (.batchDelete keys))

/-- The answer of a compare-and-swap command; any other answer is an error. -/
def casResult : Except GoError FsmResponse → CASResult
  | .error err => ⟨0, ∅, some err⟩
  | .ok (.cas r) => r
  | .ok (.err e) =>
    let typeName := match e with
      | some err => err.typeName
      | none => str "<nil>"
    ⟨0, ∅, some (.text (str "unexpected FSM response type: " ++ typeName))⟩

def kvSetCAS (key value : GoString) (expectedIndex : UInt64) :
    Handler (UInt64 × Option GoError) := do
  let res := casResult (← applyEntry (.kv (.setCAS key value expectedIndex)))
  pure (res.newIndex, res.err)

def kvDeleteCAS (key : GoString) (expectedIndex : UInt64) : Handler (Option GoError) := do
  let res := casResult (← applyEntry (.kv (.deleteCAS key expectedIndex)))
  pure res.err

def kvBatchSetCAS (items : GoMap GoString GoString) (expectedIndices : GoMap GoString UInt64) :
    Handler (GoMap GoString UInt64 × Option GoError) := do
  let res := casResult (← applyEntry (.kv (.batchSetCAS items expectedIndices)))
  pure (res.newIndices, res.err)

def kvBatchDeleteCAS (keys : List GoString) (expectedIndices : GoMap GoString UInt64) :
    Handler (Option GoError) := do
  let res := casResult (← applyEntry (.kv (.batchDeleteCAS keys expectedIndices)))
  pure res.err

def serviceRegister (name address : GoString) (port : ℤ) (tags : List GoString)
    (metadata : GoMap GoString GoString) : Handler (Option GoError) :=
  applyCommand (.service (.register { name, address, port, tags, metadata, checks := [] }))

def serviceDeregister (name : GoString) : Handler (Option GoError) :=
  applyCommand (.service (.deregister name))

def serviceHeartbeat (name : GoString) : Handler (Option GoError) :=
  applyCommand (.service (.heartbeat name))

end Node

end Konsul
