import Konsul.Lib.JsonUntyped
import Konsul.Lib.PrefixMap
import Konsul.Persistence.Memory

/-!
# The engine on a Badger database

Keys of the store and names of services share one database, told apart by a prefix. An
item may carry the second it expires at, and the database shows it no more from then
on. A transaction is the list of its writes. The clock reads 1970 or later.
-/

namespace Konsul

open GoLib

/-- An item of the database; `expiresAt` is 0 for one that stays. -/
structure Item where
  value : Bytes
  expiresAt : ℕ
  deriving DecidableEq

namespace Item

/-- `Entry.WithTTL`. -/
def withTTL (value : Bytes) (now : Time) (ttl : Duration) : Item :=
  ⟨value, (Time.unix (now + ttl)).toNat⟩

def expired (now : Time) (item : Item) : Bool :=
  item.expiresAt ≠ 0 && item.expiresAt ≤ (Time.unix now).toNat

end Item

inductive TxnWrite where
  | set (key : Bytes) (item : Item)
  | delete (key : Bytes)

structure BadgerEngine where
  db : GoMap Bytes Item

def kvPrefix : Bytes := str "kv:"
def servicePrefix : Bytes := str "svc:"

namespace BadgerEngine

def new : BadgerEngine := ⟨∅⟩

/-! ### The database -/

def write (b : BadgerEngine) : TxnWrite → BadgerEngine
  | .set key item => ⟨b.db.insert key item⟩
  | .delete key => ⟨b.db.erase key⟩

/-- A transaction that commits. -/
def update (b : BadgerEngine) (txn : List TxnWrite) : BadgerEngine := txn.foldl write b

/-- `txn.Get`. -/
def find (b : BadgerEngine) (now : Time) (key : Bytes) : Option Item :=
  (b.db.lookup key).filter fun item => !item.expired now

/-- What an iterator passes, in the order of the keys. -/
def items (b : BadgerEngine) (now : Time) : List (Bytes × Item) :=
  ((GoMap.sorted b.db).list.filter fun e => !e.2.expired now).map fun e => (e.1, e.2)

theorem seek_items (b : BadgerEngine) (now : Time) (pfx : Bytes) :
    seek (b.items now) pfx = (b.items now).filter fun e => hasPrefix e.1 pfx := by
  refine seek_eq_filter ?_ pfx
  exact List.pairwise_map.mpr ((GoMap.pairwise_sorted b.db).filter _)

/-! ### The engine -/

def get (b : BadgerEngine) (now : Time) (key : GoString) : Except GoError Bytes :=
  match b.find now (kvPrefix ++ key) with
  | some item => .ok item.value
  | none => .error (.text (str "key not found"))

def set (key : GoString) (value : Bytes) : List TxnWrite := [.set (kvPrefix ++ key) ⟨value, 0⟩]

def delete (key : GoString) : List TxnWrite := [.delete (kvPrefix ++ key)]

def list (b : BadgerEngine) (now : Time) (pfx : GoString) : List GoString :=
  (seek (b.items now) (kvPrefix ++ pfx)).map fun e => trimPrefix e.1 kvPrefix

def getService (b : BadgerEngine) (now : Time) (name : GoString) : Except GoError Bytes :=
  match b.find now (servicePrefix ++ name) with
  | some item =>
    if item.expiresAt ≠ 0 ∧ (item.expiresAt : ℤ) < now.unix then
      .error (.text (str "service expired"))
    else .ok item.value
  | none => .error (.text (str "service not found"))

def setService (now : Time) (name : GoString) (data : Bytes) (ttl : Duration) : List TxnWrite :=
  [.set (servicePrefix ++ name) (.withTTL data now ttl)]

def deleteService (name : GoString) : List TxnWrite := [.delete (servicePrefix ++ name)]

def listServices (b : BadgerEngine) (now : Time) : List GoString :=
  ((seek (b.items now) servicePrefix).filter fun e =>
    ¬ (e.2.expiresAt ≠ 0 ∧ (e.2.expiresAt : ℤ) < now.unix)).map fun e =>
      trimPrefix e.1 servicePrefix

def batchSet (items : GoMap GoString Bytes) : List TxnWrite :=
  (GoMap.sorted items).list.flatMap fun e => set e.1 e.2

def batchDelete (keys : List GoString) : List TxnWrite := keys.flatMap delete

/-! ### Export and import -/

/-- The two maps of `ExportData`. -/
structure Exported where
  kv : GoMap GoString GoString
  services : GoMap GoString Json

/-- A record that is an object, or null. -/
def serviceInfo (value : Bytes) : Option Json :=
  match Json.parse value with
  | some (.obj ms) => if Json.inRangeMembers ms then some (.obj ms) else none
  | some .null => some .null
  | _ => none

def exportData (b : BadgerEngine) (now : Time) : Exported :=
  { kv := .ofEntries ((b.items now).filterMap fun e =>
      if hasPrefix e.1 kvPrefix then some ⟨trimPrefix e.1 kvPrefix, e.2.value⟩ else none)
    services := .ofEntries ((b.items now).filterMap fun e =>
      if hasPrefix e.1 kvPrefix then none
      else if hasPrefix e.1 servicePrefix then
        (serviceInfo e.2.value).map fun info => ⟨trimPrefix e.1 servicePrefix, info⟩
      else none) }

/-- The body of the reply to `GET /export`. -/
def Exported.json (x : Exported) : Json :=
  .obj [(str "kv", (Json.Codec.map .string).write x.kv),
    (str "services",
      .obj ((GoMap.sorted x.services).list.map fun e => (e.1, e.2.written)))]

/-- The transaction of `ImportData`. -/
def importData (data : GoMap Bytes Json) : List TxnWrite :=
  let kv := ((data.lookup (str "kv")).bind Json.asMap).getD ∅
  let services := ((data.lookup (str "services")).bind Json.asMap).getD ∅
  ((GoMap.sorted kv).list.filterMap fun e =>
    (Json.asString e.2).map fun value => .set (kvPrefix ++ e.1) ⟨value, 0⟩) ++
  (GoMap.sorted services).list.map fun e => .set (servicePrefix ++ e.1) ⟨e.2.written.print, 0⟩

end BadgerEngine

end Konsul
