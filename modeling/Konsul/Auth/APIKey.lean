import Konsul.Lib.GoMap
import Konsul.Lib.JsonRoundTrip
import Konsul.Lib.Machine
import Konsul.Store.Errors

/-!
# API keys

The service keeps its keys under the hashes of their texts and manages them by their ids:
a revocation, an update and a deletion go through the map in no particular order until
they meet the id. Random bytes and ids are inputs of the call that draws them.
-/

namespace Konsul

open GoLib

/-- `hex.EncodeToString`. -/
def hexEncode (src : Bytes) : Bytes :=
  src.flatMap fun b => [Json.hexDigit (b.toNat / 16), Json.hexDigit (b.toNat % 16)]

theorem hexDigit_inj {m n : ℕ} (hm : m < 16) (hn : n < 16) (h : Json.hexDigit m = Json.hexDigit n) :
    m = n := by
  have hm' := Json.hexVal_hexDigit hm
  rw [h, Json.hexVal_hexDigit hn] at hm'
  exact (Option.some.inj hm').symm

theorem hexEncode_injective : Function.Injective hexEncode := by
  intro s t h
  induction s generalizing t with
  | nil =>
    cases t with
    | nil => rfl
    | cons b t => cases h
  | cons b s ih =>
    cases t with
    | nil => cases h
    | cons c t =>
      simp only [hexEncode, List.flatMap_cons, List.cons_append, List.nil_append,
        List.cons.injEq] at h
      obtain ⟨hhigh, hlow, hrest⟩ := h
      have hb := b.toNat_lt
      have hc := c.toNat_lt
      have hhigh' := hexDigit_inj (by omega) (by omega) hhigh
      have hlow' := hexDigit_inj (by omega) (by omega) hlow
      have hbyte : b = c := UInt8.toNat_inj.mp (by omega)
      rw [hbyte, ih hrest]

def ErrAPIKeyNotFound : GoError := .sentinel (str "auth") (str "API key not found")
def ErrAPIKeyExpired : GoError := .sentinel (str "auth") (str "API key has expired")
def ErrAPIKeyDisabled : GoError := .sentinel (str "auth") (str "API key is disabled")

structure APIKey where
  id : GoString
  name : GoString
  keyHash : GoString
  permissions : List GoString
  metadata : GoMap GoString GoString
  createdAt : Time
  /-- A key without one never expires. -/
  expiresAt : Option Time
  lastUsedAt : Option Time
  enabled : Bool
  deriving DecidableEq

structure APIKeyService where
  /-- Key hash to key. -/
  keys : GoMap GoString APIKey
  keyPrefix : GoString

/-- The order in which a range visits the keys. -/
abbrev APIKeyRange := (m : GoMap GoString APIKey) → m.Order

namespace APIKeyService

def newAPIKeyService (keyPrefix : GoString) : APIKeyService :=
  ⟨∅, if keyPrefix = [] then str "konsul" else keyPrefix⟩

/-- The text of the key drawn as `keyBytes`. -/
def keyString (keyPrefix keyBytes : GoString) : GoString :=
  keyPrefix ++ str "_" ++ hexEncode keyBytes

variable (sha256 : Bytes → Bytes)

def keyHash (s : GoString) : GoString := hexEncode (sha256 s)

/-- `random` is what `rand.Read` draws, or its error. -/
def generateAPIKey (a : APIKeyService) (name : GoString) (permissions : List GoString)
    (metadata : GoMap GoString GoString) (expiresAt : Option Time) (random : Except GoError Bytes)
    (id : GoString) (now : Time) : APIKeyService × Except GoError (GoString × APIKey) :=
  if name = [] then (a, .error (.text (str "API key name cannot be empty")))
  else
    match random with
    | .error e => (a, .error (.wrap (str "failed to generate random key") e))
    | .ok keyBytes =>
      let s := keyString a.keyPrefix keyBytes
      let apiKey : APIKey :=
        { id, name, keyHash := keyHash sha256 s, permissions, metadata, createdAt := now,
          expiresAt, lastUsedAt := none, enabled := true }
      ({ a with keys := a.keys.insert (keyHash sha256 s) apiKey }, .ok (s, apiKey))

def validateAPIKey (a : APIKeyService) (s : GoString) (now : Time) :
    APIKeyService × Except GoError APIKey :=
  if s = [] then (a, .error ErrAPIKeyNotFound)
  else
    match a.keys.lookup (keyHash sha256 s) with
    | none => (a, .error ErrAPIKeyNotFound)
    | some apiKey =>
      if !apiKey.enabled then (a, .error ErrAPIKeyDisabled)
      else if ∃ expiresAt ∈ apiKey.expiresAt, expiresAt < now then (a, .error ErrAPIKeyExpired)
      else
        let used := { apiKey with lastUsedAt := some now }
        ({ a with keys := a.keys.insert (keyHash sha256 s) used }, .ok used)

variable {sha256}

/-- The first key with the id, under its hash. -/
def scan (a : APIKeyService) (range : APIKeyRange) (keyID : GoString) :
    Option (Σ _ : GoString, APIKey) :=
  (range a.keys).list.find? fun e => e.2.id = keyID

/-- A loop that changes the key with the id. -/
def change (a : APIKeyService) (range : APIKeyRange) (keyID : GoString) (f : APIKey → APIKey) :
    APIKeyService × Option GoError :=
  match a.scan range keyID with
  | some e => ({ a with keys := a.keys.insert e.1 (f e.2) }, none)
  | none => (a, some ErrAPIKeyNotFound)

def revokeAPIKey (a : APIKeyService) (range : APIKeyRange) (keyID : GoString) :
    APIKeyService × Option GoError :=
  a.change range keyID fun apiKey => { apiKey with enabled := false }

def deleteAPIKey (a : APIKeyService) (range : APIKeyRange) (keyID : GoString) :
    APIKeyService × Option GoError :=
  match a.scan range keyID with
  | some e => ({ a with keys := a.keys.erase e.1 }, none)
  | none => (a, some ErrAPIKeyNotFound)

/-- An argument that is `none` is a nil slice, map or pointer. -/
def updateAPIKey (a : APIKeyService) (range : APIKeyRange) (keyID name : GoString)
    (permissions : Option (List GoString)) (metadata : Option (GoMap GoString GoString))
    (enabled : Option Bool) : APIKeyService × Option GoError :=
  a.change range keyID fun apiKey =>
    { apiKey with
      name := if name ≠ [] then name else apiKey.name
      permissions := permissions.getD apiKey.permissions
      metadata := metadata.getD apiKey.metadata
      enabled := enabled.getD apiKey.enabled }

end APIKeyService

/-! ### Runs -/

inductive APIKeyCall where
  | generate (name : GoString) (permissions : List GoString) (metadata : GoMap GoString GoString)
      (expiresAt : Option Time) (random : Except GoError Bytes) (id : GoString) (now : Time)
  | validate (s : GoString) (now : Time)
  | revoke (range : APIKeyRange) (keyID : GoString)
  | delete (range : APIKeyRange) (keyID : GoString)
  | update (range : APIKeyRange) (keyID name : GoString) (permissions : Option (List GoString))
      (metadata : Option (GoMap GoString GoString)) (enabled : Option Bool)

inductive APIKeyAnswer where
  | generated (r : Except GoError (GoString × APIKey))
  | validated (r : Except GoError APIKey)
  | done (err : Option GoError)

namespace APIKeyService

variable (sha256 : Bytes → Bytes)

def step (a : APIKeyService) : APIKeyCall → APIKeyService × APIKeyAnswer
  | .generate name permissions metadata expiresAt random id now =>
    let r := a.generateAPIKey sha256 name permissions metadata expiresAt random id now
    (r.1, .generated r.2)
  | .validate s now =>
    let r := a.validateAPIKey sha256 s now
    (r.1, .validated r.2)
  | .revoke range keyID =>
    let r := a.revokeAPIKey range keyID
    (r.1, .done r.2)
  | .delete range keyID =>
    let r := a.deleteAPIKey range keyID
    (r.1, .done r.2)
  | .update range keyID name permissions metadata enabled =>
    let r := a.updateAPIKey range keyID name permissions metadata enabled
    (r.1, .done r.2)

def machine : Machine APIKeyService APIKeyCall APIKeyAnswer := ⟨step sha256⟩

end APIKeyService

end Konsul
