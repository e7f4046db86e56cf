import Konsul.Auth.JWT
import Konsul.Watch.CommitOrder

/-!
# Watch sessions (internal/handlers/kv_watch.go)

`WatchWebSocket` and `WatchSSE` add a watcher, read the value of the key unless the
pattern has a wildcard, and then pass on what arrives in the channel of the
watcher. A `Session` is one such connection next to the writers of the store. Both
handlers remove the watcher as they return: `WatchWebSocket` after its loop, and
`WatchSSE` before it, because fasthttp runs the stream function of a handler that
has returned. Pings and keep-alive comments are left out.
-/

namespace Konsul.Watch

open GoLib

def containsWildcard (pattern : GoString) : Bool := contains pattern (str "*")

inductive Endpoint where
  | webSocket
  | sse
  deriving DecidableEq

def Endpoint.transport : Endpoint → TransportType
  | .webSocket => .websocket
  | .sse => .sse

/-- What a handler answers instead of a session: the error and message of the JSON
text, with the status of an HTTP reply or the close frame of a WebSocket. -/
structure WatchReply where
  status : Option ℕ
  error : GoString
  message : GoString
  closeFrame : Option (ℕ × GoString)
  deriving DecidableEq

def unauthorized : WatchReply :=
  ⟨some 401, str "unauthorized", str "authentication required", none⟩

def forbidden : Endpoint → WatchReply
  | .sse =>
    ⟨some 403, str "forbidden", str "insufficient permissions to watch this key pattern", none⟩
  | .webSocket =>
    ⟨none, str "forbidden", str "insufficient permissions to watch this key pattern",
      some (1000, str "forbidden")⟩

def failedToAdd (err : GoError) : Endpoint → WatchReply
  | .sse => ⟨some 500, str "failed to add watcher", err.error, none⟩
  | .webSocket => ⟨none, str "failed to add watcher", err.error, some (1011, err.error)⟩

/-- A connection: the handler, what it reads of the request, and the UUID
`AddWatcher` will generate. -/
structure Connection where
  endpoint : Endpoint
  key : GoString
  query : GoString
  claims : Option Claims
  id : GoString

namespace Connection

/-- The path parameter, or else the query parameter, or else every key. -/
def pattern (c : Connection) : GoString :=
  if c.key = [] then (if c.query = [] then str "*" else c.query) else c.key

def claimedID (c : Connection) : GoString :=
  match c.claims with
  | none => []
  | some claims => if claims.userID = [] then claims.username else claims.userID

def userID (c : Connection) : GoString :=
  match c.endpoint with
  | .webSocket => if c.claimedID = [] then str "anonymous" else c.claimedID
  | .sse => c.claimedID

def policies (c : Connection) : List GoString :=
  match c.claims with
  | none => []
  | some claims => claims.policies

def watcher (c : Connection) : Watcher where
  id := c.id
  pattern := c.pattern
  aclPolicies := c.policies
  transport := c.endpoint.transport
  userID := c.userID

/-- The checks before `AddWatcher`; only `WatchSSE` insists on claims. -/
def refusal (re : Regexp) (c : Connection) (aclEval : Option Evaluator) : Option WatchReply :=
  if c.endpoint = .sse ∧ c.claims.isNone then some unauthorized
  else
    match aclEval with
    | none => none
    | some aclEval =>
      if aclEval.evaluate re c.policies (newKVResource c.pattern) Capability.read then none
      else some (forbidden c.endpoint)

def adding (c : Connection) : RegistryOp :=
  .add c.id c.pattern c.policies c.endpoint.transport c.userID

end Connection

/-- Where a session stands. `writing` has an event in hand for the client, which is
the initial one or came from the channel. -/
inductive Phase where
  | connecting
  | admitted
  | refused (reply : WatchReply)
  | added
  | writing (event : Event) (initial : Bool)
  | looping
  | receiving
  | ended
  deriving DecidableEq

/-- `returned` says that the handler has returned and removed the watcher, `sent` is
what the client was sent, and `taken` counts the events taken from the channel. -/
structure Session where
  watched : Watched
  phase : Phase
  returned : Bool
  sent : List Event
  taken : ℕ

inductive SessionStep where
  /-- A step of a writer, a notification or another watcher. -/
  | other (i : WatchedStep)
  | authorize
  | add
  | read
  /-- The write to the client, which may fail. -/
  | write (ok : Bool)
  | take
  | wake
  /-- The client is gone, or a ping fails. -/
  | leave
  /-- The handler returns. -/
  | finish

namespace Session

variable (re : Regexp) (c : Connection)

/-- Only the session receives from its channel and removes its watcher. -/
def owns : WatchedStep → Bool
  | .hub (.receive id) => id = c.id
  | .hub (.write (.remove id)) => id = c.id
  | _ => false

def authorize (s : Session) : Session :=
  match s.phase with
  | .connecting =>
    match c.refusal re s.watched.hub.manager.aclEval with
    | some reply => { s with phase := .refused reply }
    | none => { s with phase := .admitted }
  | _ => s

/-- `AddWatcher` waits for the calls of `Notify` that run. -/
def add (s : Session) : Session :=
  match s.phase with
  | .admitted =>
    if s.watched.hub.reading then s
    else
      { s with
        watched := (s.watched.step re (.hub (.write c.adding))).1
        phase :=
          match (s.watched.hub.manager.addWatcher c.id c.pattern c.policies c.endpoint.transport
            c.userID).2 with
          | .ok _ => .added
          | .error (.inl err) => .refused (failedToAdd err c.endpoint)
          | .error (.inr _) => .ended }
  | _ => s

def started (s : Session) : Bool :=
  match c.endpoint with
  | .webSocket => true
  | .sse => s.returned

/-- The initial value; a writer that holds the lock of the store is waited for. -/
def read (s : Session) : Session :=
  match s.phase with
  | .added =>
    if s.started c then
      if containsWildcard c.pattern then { s with phase := .looping }
      else if s.watched.holder = none then
        match s.watched.store.get c.pattern with
        | some value => { s with phase := .writing ⟨.set, c.pattern, value, []⟩ true }
        | none => { s with phase := .looping }
      else s
    else s
  | _ => s

/-- `WatchSSE` ignores an error of the initial write. -/
def write (ok : Bool) (s : Session) : Session :=
  match s.phase with
  | .writing event initial =>
    if ok then { s with sent := s.sent ++ [event], phase := .looping }
    else if initial ∧ c.endpoint = .sse then { s with phase := .looping }
    else { s with phase := .ended }
  | _ => s

/-- The `select` of the loop asks the channel. -/
def take (s : Session) : Session :=
  match s.phase with
  | .looping =>
    { s with watched := (s.watched.step re (.hub (.receive c.id))).1, phase := .receiving }
  | _ => s

/-- The channel has handed over an event, or is closed and empty. -/
def wake (s : Session) : Session :=
  match s.phase, s.watched.hub.manager.channels.lookup c.id with
  | .receiving, some events =>
    match events.received[s.taken]? with
    | some event => { s with phase := .writing event false, taken := s.taken + 1 }
    | none => if events.closed then { s with phase := .ended } else s
  | _, _ => s

def leave (s : Session) : Session :=
  match s.phase with
  | .looping | .receiving => { s with phase := .ended }
  | _ => s

/-- The handler has nothing left to do. -/
def mayReturn (s : Session) : Prop :=
  match c.endpoint with
  | .webSocket => s.phase = .ended
  | .sse => s.phase = .added

instance (s : Session) : Decidable (s.mayReturn c) := by
  unfold mayReturn
  split <;> infer_instance

/-- The deferred `RemoveWatcher`. -/
def finish (s : Session) : Session :=
  if s.mayReturn c ∧ s.returned = false ∧ s.watched.hub.reading = false then
    { s with watched := (s.watched.step re (.hub (.write (.remove c.id)))).1, returned := true }
  else s

def step (s : Session) : SessionStep → Session × Unit
  | .other i =>
    (if owns c i then s else { s with watched := (s.watched.step re i).1 }, ())
  | .authorize => (s.authorize re c, ())
  | .add => (s.add re c, ())
  | .read => (s.read c, ())
  | .write ok => (s.write c ok, ())
  | .take => (s.take re c, ())
  | .wake => (s.wake c, ())
  | .leave => (s.leave, ())
  | .finish => (s.finish re c, ())

def machine : Machine Session SessionStep Unit := ⟨step re c⟩

def start (store : KVStore) (aclEval : Option Evaluator) (bufferSize maxPerClient : ℤ) : Session :=
  ⟨.start store aclEval bufferSize maxPerClient, .connecting, false, [], 0⟩

end Session

end Konsul.Watch
