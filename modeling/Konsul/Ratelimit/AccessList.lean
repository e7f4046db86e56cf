import Konsul.Lib.GoMap
import Konsul.Store.Errors

/-!
# The access list

Two maps, of whitelisted and of blacklisted identifiers. An entry carries the type of
its identifier, and the maps are keyed by the identifier alone.
-/

namespace Konsul.Ratelimit

open GoLib

/-- The zero `time.Time`. -/
def zeroTime : Time := -62135596800000000000

structure WhitelistEntry where
  identifier : GoString
  type : GoString
  reason : GoString
  addedAt : Time
  /-- An entry without one never expires. -/
  expiresAt : Option Time
  addedBy : GoString
  deriving DecidableEq

structure BlacklistEntry where
  identifier : GoString
  type : GoString
  reason : GoString
  addedAt : Time
  expiresAt : Time
  addedBy : GoString
  deriving DecidableEq

structure AccessList where
  whitelisted : GoMap GoString WhitelistEntry
  blacklisted : GoMap GoString BlacklistEntry

def WhitelistEntry.Expired (entry : WhitelistEntry) (now : Time) : Prop :=
  ∃ expiresAt ∈ entry.expiresAt, expiresAt < now

def BlacklistEntry.Expired (entry : BlacklistEntry) (now : Time) : Prop := entry.expiresAt < now

instance (entry : WhitelistEntry) (now : Time) : Decidable (entry.Expired now) :=
  inferInstanceAs (Decidable (∃ expiresAt ∈ entry.expiresAt, expiresAt < now))

instance (entry : BlacklistEntry) (now : Time) : Decidable (entry.Expired now) :=
  inferInstanceAs (Decidable (entry.expiresAt < now))

namespace AccessList

def newAccessList : AccessList := ⟨∅, ∅⟩

def isWhitelisted (a : AccessList) (identifier : GoString) (now : Time) : Bool :=
  match a.whitelisted.lookup identifier with
  | none => false
  | some entry => if entry.Expired now then false else true

def isBlacklisted (a : AccessList) (identifier : GoString) (now : Time) : Bool :=
  match a.blacklisted.lookup identifier with
  | none => false
  | some entry => if entry.Expired now then false else true

/-- The checks that both kinds of entry share. -/
def check (identifier type : GoString) : Option GoError :=
  if identifier = [] then some (.text (str "identifier cannot be empty"))
  else if type ≠ str "ip" ∧ type ≠ str "apikey" then
    some (.text (str "type must be 'ip' or 'apikey'"))
  else none

def addToWhitelist (a : AccessList) (entry : WhitelistEntry) (now : Time) :
    AccessList × Option GoError :=
  match check entry.identifier entry.type with
  | some e => (a, some e)
  | none =>
    let entry := if entry.addedAt = zeroTime then { entry with addedAt := now } else entry
    ({ a with whitelisted := a.whitelisted.insert entry.identifier entry }, none)

def addToBlacklist (a : AccessList) (entry : BlacklistEntry) (now : Time) :
    AccessList × Option GoError :=
  match check entry.identifier entry.type with
  | some e => (a, some e)
  | none =>
    if entry.expiresAt = zeroTime then
      (a, some (.text (str "expiresAt is required for blacklist entries")))
    else
      let entry := if entry.addedAt = zeroTime then { entry with addedAt := now } else entry
      ({ a with blacklisted := a.blacklisted.insert entry.identifier entry }, none)

def removeFromWhitelist (a : AccessList) (identifier : GoString) : AccessList × Bool :=
  match a.whitelisted.lookup identifier with
  | some _ => ({ a with whitelisted := a.whitelisted.erase identifier }, true)
  | none => (a, false)

def removeFromBlacklist (a : AccessList) (identifier : GoString) : AccessList × Bool :=
  match a.blacklisted.lookup identifier with
  | some _ => ({ a with blacklisted := a.blacklisted.erase identifier }, true)
  | none => (a, false)

/-- Each map loses its expired entries, in whatever order the range visits them. -/
def cleanup (a : AccessList) (now : Time) : AccessList :=
  { whitelisted := GoMap.collect a.whitelisted fun _ entry =>
      if entry.Expired now then none else some entry
    blacklisted := GoMap.collect a.blacklisted fun _ entry =>
      if entry.Expired now then none else some entry }

/-! ### What is in force -/

/-- The whitelist entry of an identifier, while it lasts. -/
def bypass (a : AccessList) (identifier : GoString) (now : Time) : Option WhitelistEntry :=
  (a.whitelisted.lookup identifier).filter fun entry => ¬ entry.Expired now

/-- The blacklist entry of an identifier, while it lasts. -/
def block (a : AccessList) (identifier : GoString) (now : Time) : Option BlacklistEntry :=
  (a.blacklisted.lookup identifier).filter fun entry => ¬ entry.Expired now

variable (a : AccessList) (identifier : GoString) (now : Time)

theorem isWhitelisted_eq :
    a.isWhitelisted identifier now = (a.bypass identifier now).isSome := by
  unfold isWhitelisted bypass
  cases a.whitelisted.lookup identifier with
  | none => rfl
  | some entry => by_cases h : entry.Expired now <;> simp [h]

theorem isBlacklisted_eq :
    a.isBlacklisted identifier now = (a.block identifier now).isSome := by
  unfold isBlacklisted block
  cases a.blacklisted.lookup identifier with
  | none => rfl
  | some entry => by_cases h : entry.Expired now <;> simp [h]

end AccessList

end Konsul.Ratelimit
