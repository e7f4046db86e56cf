import Konsul.Handlers.Reads
import Konsul.Store.ServiceJson

/-!
# What an agent and its server exchange

Requests and responses are JSON texts. `json` is what the other side reads: strings
made valid UTF-8, numbers and times as they were. An entry whose expiry has no text
makes the whole document fail.
-/

namespace Konsul

open GoLib

namespace Agent

def updateTypeAdd : GoString := str "add"

def updateTypeUpdate : GoString := str "update"

def updateTypeDelete : GoString := str "delete"

structure ServiceUpdate where
  type : GoString
  serviceName : GoString
  service : Option Service
  entry : Option ServiceEntry
  deriving DecidableEq

structure KVUpdate where
  type : GoString
  key : GoString
  entry : Option KVEntry
  deriving DecidableEq

/-- The server sends no health updates, so the response has none. -/
structure SyncResponse where
  currentIndex : ℤ
  serviceUpdates : List ServiceUpdate
  kvUpdates : List KVUpdate

def ServiceUpdate.json (u : ServiceUpdate) : ServiceUpdate :=
  ⟨jsonString u.type, jsonString u.serviceName, u.service.map Service.json,
    u.entry.map ServiceEntry.json⟩

/-- The update as the server declares its struct: it reads no entry. -/
def ServiceUpdate.forServer (u : ServiceUpdate) : Konsul.ServiceUpdate :=
  ⟨u.type, u.serviceName, u.service⟩

def KVUpdate.json (u : KVUpdate) : KVUpdate :=
  ⟨jsonString u.type, jsonString u.key, u.entry.map KVEntry.clean⟩

/-- `json.Marshal` of an update in the time zone `z` succeeds. -/
def ServiceUpdate.Marshals (z : Rfc3339.Zone) (u : ServiceUpdate) : Bool :=
  u.entry.all fun e => (Rfc3339.format z e.expiresAt).isSome

/-- The response as the agent decodes it, `none` when it cannot be marshalled. -/
def SyncResponse.received (z : Rfc3339.Zone) (r : SyncResponse) : Option SyncResponse :=
  if r.serviceUpdates.all (·.Marshals z) then
    some ⟨r.currentIndex, r.serviceUpdates.map ServiceUpdate.json, r.kvUpdates.map KVUpdate.json⟩
  else none

end Agent

def SyncRequest.json (r : SyncRequest) : SyncRequest :=
  ⟨jsonString r.agentID, r.lastSyncIndex, r.watchedPrefixes.map jsonString, r.fullSync⟩

end Konsul
