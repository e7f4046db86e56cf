import Konsul.Lib.GoMap
import Konsul.Store.Errors

/-!
# Health checks

The registered checks of a `healthcheck.Manager`. Probes of HTTP, TCP and gRPC
checks run in goroutines of their own; what they find is `performCheck`'s argument.

`Env` is what an operation draws from outside the program: the clock, fresh
identifiers and the duration parser of the standard library.
-/

namespace Konsul

open GoLib

structure Env where
  now : Time
  /-- The identifiers `uuid.New` returns, in order. -/
  newUUID : ℕ → GoString
  /-- `time.ParseDuration`. -/
  parseDuration : GoString → Option Duration

structure CheckDefinition where
  id : GoString
  name : GoString
  serviceID : GoString
  http : GoString
  tcp : GoString
  grpc : GoString
  ttl : GoString
  interval : GoString
  timeout : GoString
  method : GoString
  headers : GoMap GoString GoString
  tlsSkipVerify : Bool
  grpcUseTLS : Bool
  deriving DecidableEq

inductive CheckType where
  | ttl
  | http
  | tcp
  | grpc
  deriving DecidableEq

inductive Status where
  | passing
  | warning
  | critical
  deriving DecidableEq

/-- `expiresAt` is `none` for the zero time. -/
structure Check where
  id : GoString
  name : GoString
  serviceID : GoString
  type : CheckType
  status : Status
  output : GoString
  lastCheck : Time
  interval : Duration
  timeout : Duration
  http : GoString
  method : GoString
  headers : GoMap GoString GoString
  tlsSkipVerify : Bool
  tcp : GoString
  grpc : GoString
  grpcUseTLS : Bool
  ttl : Duration
  expiresAt : Option Time
  deriving DecidableEq

structure Manager where
  checks : GoMap GoString Check
  deriving DecidableEq

namespace Manager

/-- `NewManager`. -/
def new : Manager := ⟨∅⟩

/-- `time.Second`. -/
def second : Duration := 1000000000

/-- A check with several targets is of the first type in this order. -/
def checkType (d : CheckDefinition) : CheckType :=
  if d.http ≠ [] then .http
  else if d.tcp ≠ [] then .tcp
  else if d.grpc ≠ [] then .grpc
  else .ttl

/-- A duration of the definition; one that does not parse reads as the default. -/
def durationOr (env : Env) (s : GoString) (default : Duration) : Duration :=
  if s = [] then default else (env.parseDuration s).getD default

/-- The definition as `AddCheck` leaves it: with an identifier. -/
def withID (d : CheckDefinition) (newID : GoString) : CheckDefinition :=
  if d.id = [] then { d with id := newID } else d

def newCheck (env : Env) (d : CheckDefinition) : Check :=
  let ttl := durationOr env d.ttl 0
  { id := d.id
    name := d.name
    serviceID := d.serviceID
    type := checkType d
    status := .critical
    output := []
    lastCheck := env.now
    interval := durationOr env d.interval (30 * second)
    timeout := durationOr env d.timeout (10 * second)
    http := d.http
    method := d.method
    headers := d.headers
    tlsSkipVerify := d.tlsSkipVerify
    tcp := d.tcp
    grpc := d.grpc
    grpcUseTLS := d.grpcUseTLS
    ttl
    expiresAt := if checkType d = .ttl ∧ 0 < ttl then some (env.now + ttl) else none }

/-- `AddCheck` of a definition that has its identifier; it returns no error. -/
def addCheck (m : Manager) (env : Env) (d : CheckDefinition) : Manager :=
  { checks := m.checks.insert d.id (newCheck env d) }

def updateTTLCheck (m : Manager) (now : Time) (id : GoString) : Manager × Option GoError :=
  match m.checks.lookup id with
  | none => (m, some (.text (str "check not found")))
  | some check =>
    if check.type ≠ .ttl then (m, some (.text (str "check is not a TTL check")))
    else
      ({ checks := m.checks.insert id { check with
          status := .passing
          output := str "TTL check passed"
          lastCheck := now
          expiresAt := if 0 < check.ttl then some (now + check.ttl) else check.expiresAt } }, none)

/-- `performCheck` of a registered check; only a check that is no TTL check has a goroutine
that calls it. -/
def performCheck (m : Manager) (now : Time) (id : GoString) (status : Status)
    (output : GoString) : Manager :=
  match m.checks.lookup id with
  | none => m
  | some check =>
    if check.type = .ttl then m
    else { checks := m.checks.insert id { check with status, output, lastCheck := now } }

end Manager

end Konsul
