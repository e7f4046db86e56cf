import Konsul.Lib.GoMap
import Konsul.Lib.Strings
import Konsul.Store.Errors

/-!
# The persistence engine

The contents of a `MemoryEngine`, with the error an engine that is failing
returns from every call; a call that fails leaves the contents as they are.
`fault` is `none` in a `MemoryEngine`.
-/

namespace Konsul

open GoLib

/-- `serviceEntry`. -/
structure ServiceRecord where
  data : Bytes
  expiresAt : Time
  deriving DecidableEq

structure Engine where
  kvData : GoMap GoString Bytes
  svcData : GoMap GoString ServiceRecord
  fault : Option GoError

namespace Engine

/-- `NewMemoryEngine`. -/
def new : Engine := ⟨∅, ∅, none⟩

def attempt (m : Engine) (update : Engine → Engine) : Engine × Option GoError :=
  match m.fault with
  | some err => (m, some err)
  | none => (update m, none)

def get (m : Engine) (key : GoString) : Except GoError Bytes :=
  match m.fault with
  | some err => .error err
  | none =>
    match m.kvData.lookup key with
    | some val => .ok val
    | none => .error (.text (str "key not found"))

def set (m : Engine) (key : GoString) (value : Bytes) : Engine × Option GoError :=
  m.attempt fun m => { m with kvData := m.kvData.insert key value }

def delete (m : Engine) (key : GoString) : Engine × Option GoError :=
  m.attempt fun m => { m with kvData := m.kvData.erase key }

/-- `List`, in the order of its loop. -/
def list (m : Engine) (pfx : GoString) (range : m.kvData.Order) : Except GoError (List GoString) :=
  match m.fault with
  | some err => .error err
  | none => .ok ((range.list.map Sigma.fst).filter fun key => hasPrefix key pfx)

/-- Entries written one after the other; `BatchSet` ranges over a map, whose
keys are distinct, so that the order does not show. -/
def batchSet (m : Engine) (items : GoMap GoString Bytes) : Engine × Option GoError :=
  m.attempt fun m => { m with kvData := items ∪ m.kvData }

def batchDelete (m : Engine) (keys : List GoString) : Engine × Option GoError :=
  m.attempt fun m => { m with kvData := GoMap.eraseAll m.kvData keys }

def getService (m : Engine) (now : Time) (name : GoString) : Except GoError Bytes :=
  match m.fault with
  | some err => .error err
  | none =>
    match m.svcData.lookup name with
    | some entry =>
      if now < entry.expiresAt then .ok entry.data else .error (.text (str "service not found"))
    | none => .error (.text (str "service not found"))

/-- `ListServices`, in the order of its loop. -/
def listServices (m : Engine) (now : Time) (range : m.svcData.Order) :
    Except GoError (List GoString) :=
  match m.fault with
  | some err => .error err
  | none => .ok ((range.list.filter fun e => now < e.2.expiresAt).map Sigma.fst)

def setService (m : Engine) (now : Time) (name : GoString) (data : Bytes) (ttl : Duration) :
    Engine × Option GoError :=
  m.attempt fun m => { m with svcData := m.svcData.insert name ⟨data, now + ttl⟩ }

def deleteService (m : Engine) (name : GoString) : Engine × Option GoError :=
  m.attempt fun m => { m with svcData := m.svcData.erase name }

end Engine

end Konsul
