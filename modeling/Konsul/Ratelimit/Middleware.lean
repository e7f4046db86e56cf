import Konsul.Ratelimit.AccessList
import Konsul.Ratelimit.Service
import Konsul.Ratelimit.Timeline

/-!
# The middleware

A request is blocked or let through by the access list, or else counted against the
limiter of its client. Each step of the middleware reads the clock for itself, and the
limiter is asked twice for the headers of a denied request.
-/

namespace Konsul.Ratelimit

open GoLib

/-- Where a request comes from; the API key is empty unless authentication set one. -/
structure Client where
  ip : GoString
  apiKeyID : GoString
  deriving DecidableEq

namespace Client

def limiterType (c : Client) : GoString := if c.apiKeyID ≠ [] then str "apikey" else str "ip"

def rawIdentifier (c : Client) : GoString := if c.apiKeyID ≠ [] then c.apiKeyID else c.ip

def identifier (c : Client) : GoString := c.limiterType ++ str ":" ++ c.rawIdentifier

end Client

/-- The clock readings of one request. -/
structure Readings where
  blacklist : Time
  whitelist : Time
  getLimiter : Time
  allow : Time
  headers : Time
  again : Time
  reply : Time

/-- The readings follow one clock. -/
def Readings.Ordered (r : Readings) : Prop :=
  r.blacklist ≤ r.whitelist ∧ r.whitelist ≤ r.getLimiter ∧ r.getLimiter ≤ r.allow ∧
    r.allow ≤ r.headers ∧ r.headers ≤ r.again ∧ r.again ≤ r.reply

instance (r : Readings) : Decidable r.Ordered := by unfold Readings.Ordered; infer_instance

inductive Reply where
  /-- The next handler is called, with these headers set. -/
  | next (headers : Option Headers)
  | accessDenied (identifier : GoString)
  | tooManyRequests (headers : Headers) (identifier : GoString) (retryAfter : ℕ) (resetAt : ℤ)
  deriving DecidableEq

/-- A value of a reply's JSON object; a time is written in RFC 3339. -/
inductive Field where
  | text (s : GoString)
  | number (n : ℕ)
  | time (t : Time)
  deriving DecidableEq

/-- The status of a refusal, and its body. -/
def Reply.refusal : Reply → Option (ℕ × List (GoString × Field))
  | .next _ => none
  | .accessDenied identifier =>
    some (403, [(str "error", .text (str "access_denied")),
      (str "message", .text (str "Your access has been blocked")),
      (str "identifier", .text identifier)])
  | .tooManyRequests _ identifier retryAfter resetAt =>
    some (429, [(str "error", .text (str "rate_limit_exceeded")),
      (str "message", .text (str "Rate limit exceeded. Please retry after " ++
        decimal retryAfter ++ str " seconds.")),
      (str "identifier", .text identifier),
      (str "retry_after", .number retryAfter),
      (str "reset_at", .time (resetAt * 1000000000))])

/-- The seconds left until `resetAt`, at least one. -/
def retryAfter (resetAt : ℤ) (now : Time) : ℕ :=
  let left := truncate (seconds (resetAt * 1000000000 - now))
  if left < 1 then 1 else left.toNat

/-- A request on the limiter of its client. -/
def Limiter.serve (l : Limiter ℚ) (identifier path : GoString) (r : Readings) :
    Limiter ℚ × Reply :=
  let a := l.allowWithEndpoint path r.allow
  let h := a.1.getHeaders r.headers
  if a.2 then (h.1, .next (some h.2))
  else
    let again := h.1.getHeaders r.again
    (again.1, .tooManyRequests h.2 identifier (retryAfter again.2.resetAt r.reply)
      again.2.resetAt)

/-- A request on a store that may be nil; `getLimiter` returns a limiter of the heap. -/
def Store.serve (store : Option (Store ℚ)) (c : Client) (path : GoString) (r : Readings) :
    Option (Store ℚ) × Reply :=
  match store with
  | none => (none, .next none)
  | some store =>
    let g := store.getLimiter c.rawIdentifier r.getLimiter
    match g.1.heap[g.2]? with
    | none => (some g.1, .next none)
    | some l =>
      let a := l.serve c.identifier path r
      (some { g.1 with heap := g.1.heap.set g.2 a.1 }, a.2)

/-- The service with its access list. -/
structure Guard where
  service : Service
  accessList : AccessList

/-- `RateLimitMiddleware`. -/
def Guard.handle (s : Guard) (c : Client) (path : GoString) (r : Readings) : Guard × Reply :=
  if s.accessList.isBlacklisted c.rawIdentifier r.blacklist then (s, .accessDenied c.identifier)
  else if s.accessList.isWhitelisted c.rawIdentifier r.whitelist then (s, .next none)
  else if c.apiKeyID ≠ [] then
    let a := Store.serve s.service.keyStore c path r
    ({ s with service := { s.service with keyStore := a.1 } }, a.2)
  else
    let a := Store.serve s.service.ipStore c path r
    ({ s with service := { s.service with ipStore := a.1 } }, a.2)

end Konsul.Ratelimit
