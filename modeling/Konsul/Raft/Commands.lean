import Konsul.Store.KV
import Konsul.Store.Service

/-!
# Commands of the log

The commands `UnmarshalCommand` and the payload decoders yield, one constructor
a kind, and the orders in which applying one visits its maps (`Choice`).
-/

namespace Konsul

open GoLib

inductive KVCommand where
  | set (key value : GoString)
  | setWithFlags (key value : GoString) (flags : UInt64)
  | delete (key : GoString)
  | batchSet (items : GoMap GoString GoString)
  | batchDelete (keys : List GoString)
  | setCAS (key value : GoString) (expectedIndex : UInt64)
  | deleteCAS (key : GoString) (expectedIndex : UInt64)
  | batchSetCAS (items : GoMap GoString GoString) (expectedIndices : GoMap GoString UInt64)
  | batchDeleteCAS (keys : List GoString) (expectedIndices : GoMap GoString UInt64)

inductive ServiceCommand where
  | register (service : Service)
  | deregister (name : GoString)
  | heartbeat (name : GoString)
  | ttlUpdate (checkID : GoString)
  | registerCAS (service : Service) (expectedIndex : UInt64)
  | deregisterCAS (name : GoString) (expectedIndex : UInt64)

/-- `CASResult`. -/
structure CASResult where
  newIndex : UInt64
  newIndices : GoMap GoString UInt64
  err : Option GoError
  deriving DecidableEq

/-- The value `Apply` returns: an `error`, which may be nil, or a `*CASResult`. -/
inductive FsmResponse where
  | err (e : Option GoError)
  | cas (r : CASResult)
  deriving DecidableEq

inductive Command where
  | kv (c : KVCommand)
  | service (c : ServiceCommand)
  /-- An entry that does not decode, with the answer it gets. -/
  | undecodable (answer : FsmResponse)

/-- The orders of the loops over the maps of a command: for a batch write the
check, the update and the notification of the items. -/
def KVCommand.Choice : KVCommand → Type
  | .batchSet items => items.Order × items.Order
  | .batchSetCAS items _ => items.Order × items.Order × items.Order
  | .batchDelete _ => KVStore.Visit
  | .batchDeleteCAS _ _ => KVStore.Visit
  | _ => Unit

/-- For a registration the order of the metadata when it is validated. -/
def ServiceCommand.Choice : ServiceCommand → Type
  | .register service => service.metadata.Order
  | .registerCAS service _ => service.metadata.Order
  | _ => Unit

def Command.Choice : Command → Type
  | .kv c => c.Choice
  | .service c => c.Choice
  | .undecodable _ => Unit

/-- Every loop in the order of the keys. -/
def KVCommand.sortedChoice : (c : KVCommand) → c.Choice
  | .batchSet items => (GoMap.sorted items, GoMap.sorted items)
  | .batchSetCAS items _ => (GoMap.sorted items, GoMap.sorted items, GoMap.sorted items)
  | .batchDelete _ => GoMap.sorted
  | .batchDeleteCAS _ _ => GoMap.sorted
  | .set _ _ => ()
  | .setWithFlags _ _ _ => ()
  | .delete _ => ()
  | .setCAS _ _ _ => ()
  | .deleteCAS _ _ => ()

def ServiceCommand.sortedChoice : (c : ServiceCommand) → c.Choice
  | .register service => GoMap.sorted service.metadata
  | .registerCAS service _ => GoMap.sorted service.metadata
  | .deregister _ => ()
  | .heartbeat _ => ()
  | .ttlUpdate _ => ()
  | .deregisterCAS _ _ => ()

def Command.sortedChoice : (c : Command) → c.Choice
  | .kv c => c.sortedChoice
  | .service c => c.sortedChoice
  | .undecodable _ => ()

instance (c : Command) : Nonempty c.Choice := ⟨c.sortedChoice⟩

/-! ### A service -/

def web : Service :=
  { name := str "web", address := str "10.0.0.1", port := 80, tags := [], metadata := ∅, checks := [] }

def noMetadata : GoMap.Order web.metadata := ⟨[], rfl⟩

end Konsul
