import Konsul.Acl.Evaluator
import Konsul.Lib.Chan
import Konsul.Store.KV

/-!
# The watch manager (internal/watch/manager.go, types.go, errors.go)

The manager keeps the registered watchers by id, the ids registered under each
pattern in the order they were added, and the number of watchers of each user.
`channels` is the heap the `Events` fields point into: the channel of every
watcher ever made, under its id.
-/

namespace Konsul.Watch

open GoLib

def ErrTooManyWatchers : GoError :=
  .sentinel (str "watch") (str "too many watchers for this client")

inductive TransportType where
  | websocket
  | sse
  | graphql
  deriving DecidableEq

/-- `Watcher` without its channel and its time of creation. -/
structure Watcher where
  id : GoString
  pattern : GoString
  aclPolicies : List GoString
  transport : TransportType
  userID : GoString
  deriving DecidableEq

/-- The panics of the channel operations. -/
inductive Panic where
  | makeSize
  | closeOfClosed
  | sendOnClosed
  deriving DecidableEq

structure Manager where
  watchers : GoMap GoString Watcher
  patterns : GoMap GoString (List GoString)
  clientCounts : GoMap GoString ℤ
  aclEval : Option Evaluator
  bufferSize : ℤ
  maxPerClient : ℤ
  channels : GoMap GoString (Chan Event)

namespace Manager

/-- `NewManager`. -/
def new (aclEval : Option Evaluator) (bufferSize maxPerClient : ℤ) : Manager :=
  { watchers := ∅, patterns := ∅, clientCounts := ∅, aclEval, bufferSize, maxPerClient,
    channels := ∅ }

/-! ### The maps a registration is kept in -/

/-- The zero value for a user without a count. -/
def clientCount (wm : Manager) (userID : GoString) : ℤ := (wm.clientCounts.lookup userID).getD 0

def watcherIDs (wm : Manager) (pattern : GoString) : List GoString :=
  (wm.patterns.lookup pattern).getD []

def addPattern (wm : Manager) (pattern id : GoString) : Manager :=
  { wm with patterns := wm.patterns.insert pattern (wm.watcherIDs pattern ++ [id]) }

def addClient (wm : Manager) (userID : GoString) : Manager :=
  if userID ≠ [] then
    { wm with clientCounts := wm.clientCounts.insert userID (wm.clientCount userID + 1) }
  else wm

/-- The first occurrence of the id leaves its list, and an empty list the map. -/
def removePattern (wm : Manager) (pattern id : GoString) : Manager :=
  let ids := wm.watcherIDs pattern
  let wm :=
    if id ∈ ids then { wm with patterns := wm.patterns.insert pattern (ids.erase id) } else wm
  if (wm.watcherIDs pattern).length = 0 then { wm with patterns := wm.patterns.erase pattern }
  else wm

def removeClient (wm : Manager) (userID : GoString) : Manager :=
  if userID ≠ [] then
    let wm := { wm with
      clientCounts := wm.clientCounts.insert userID (wm.clientCount userID - 1) }
    if wm.clientCount userID = 0 then { wm with clientCounts := wm.clientCounts.erase userID }
    else wm
  else wm

/-- `close(watcher.Events)` and the deletion of the watcher. -/
def closeWatcher (wm : Manager) (id : GoString) : Manager × Option Panic :=
  match (wm.channels.lookup id).bind Chan.close with
  | none => (wm, some .closeOfClosed)
  | some events =>
    ({ wm with channels := wm.channels.insert id events, watchers := wm.watchers.erase id }, none)

/-! ### The operations -/

/-- `AddWatcher`; `id` is the generated UUID. -/
def addWatcher (wm : Manager) (id pattern : GoString) (policies : List GoString)
    (transport : TransportType) (userID : GoString) : Manager × Except (GoError ⊕ Panic) Watcher :=
  if wm.maxPerClient > 0 ∧ userID ≠ [] ∧ wm.clientCount userID ≥ wm.maxPerClient then
    (wm, .error (.inl ErrTooManyWatchers))
  else
    match Chan.make wm.bufferSize with
    | none => (wm, .error (.inr .makeSize))
    | some events =>
      let watcher : Watcher := { id, pattern, aclPolicies := policies, transport, userID }
      let wm := { wm with
        channels := wm.channels.insert id events
        watchers := wm.watchers.insert id watcher }
      ((wm.addPattern pattern id).addClient userID, .ok watcher)

/-- `RemoveWatcher`. -/
def removeWatcher (wm : Manager) (id : GoString) : Manager × Option Panic :=
  match wm.watchers.lookup id with
  | none => (wm, none)
  | some watcher =>
    ((wm.removePattern watcher.pattern id).removeClient watcher.userID).closeWatcher id

/-- The loop of `Close` over the watchers. -/
def closeWatchers (wm : Manager) : List GoString → Manager × Option Panic
  | [] => (wm, none)
  | id :: ids =>
    match wm.closeWatcher id with
    | (wm, some panic) => (wm, some panic)
    | (wm, none) => wm.closeWatchers ids

/-- `Close`. -/
def close (wm : Manager) (range : wm.watchers.Order) : Manager × Option Panic :=
  match wm.closeWatchers (range.list.map Sigma.fst) with
  | (wm, some panic) => (wm, some panic)
  | (wm, none) => ({ wm with patterns := ∅, clientCounts := ∅ }, none)

/-- `GetWatchersByUser`. -/
def getWatchersByUser (wm : Manager) (userID : GoString) : ℤ := wm.clientCount userID

end Manager

/-! ### Matching and permission -/

/-- `matchesPattern`. -/
def matchesPattern (key pattern : GoString) : Bool :=
  if key = pattern then true
  else if !contains pattern (str "*") then false
  else if contains pattern (str "**") then hasPrefix key (trimSuffix pattern (str "**"))
  else
    match Path.matchPath pattern key with
    | .ok matched => matched
    | .error _ => false

/-- `canWatch`. -/
def Manager.canWatch (re : Regexp) (wm : Manager) (watcher : Watcher) (key : GoString) : Bool :=
  match wm.aclEval with
  | none => true
  | some aclEval => aclEval.evaluate re watcher.aclPolicies (newKVResource key) Capability.read

/-- The ids `Notify` walks: pattern by pattern in the order of the map, and each
list from its front. -/
def Manager.notifyIDs (wm : Manager) (key : GoString) (range : wm.patterns.Order) :
    List GoString :=
  (range.list.filter fun e => matchesPattern key e.1).flatMap Sigma.snd

end Konsul.Watch
