import Konsul.Lib.GoMap
import Konsul.Ratelimit.Limiter

/-!
# The limiters of all clients

A limiter is an object that the map of the store and the callers in flight refer to:
`heap` lists the limiters created so far, and a reference is an index into it. A
request, or an adjustment by an administrator, is two steps: `GetLimiter`, and then a
call on the limiter it returned. A run interleaves these steps, resets and the turns
of the cleanup loop, which takes its time once and the lock of one limiter a turn.
-/

namespace Konsul.Ratelimit

open GoLib

structure Store (F : Type) where
  limiters : GoMap GoString ℕ
  rate : F
  burst : ℤ
  heap : List (Limiter F)
  /-- What `GetLimiter` returned to the callers that have not used it yet. -/
  held : GoMap ℕ ℕ

/-- What a request meets: the decision and the limits it was taken under. -/
structure Verdict (F : Type) where
  allowed : Bool
  limits : F × ℤ
  deriving DecidableEq

inductive Step (F : Type) where
  | getLimiter (caller : ℕ) (key : GoString) (now : Time)
  | allow (caller : ℕ) (endpoint : GoString) (now : Time)
  | setCustomConfig (caller : ℕ) (rate : F) (burst : ℤ) (duration : Duration) (now : Time)
  | clearCustomConfig (caller : ℕ)
  | reset (key : GoString)
  | resetAll
  /-- The turn of `cleanupExpired` for one key, in a pass that began at `now`. -/
  | cleanup (key : GoString) (now : Time)
  deriving DecidableEq

namespace Store

variable {F : Type}

/-- `NewStore`; the cleanup goroutine is the environment's `cleanup` steps. -/
def newStore (rate : F) (burst : ℤ) : Store F :=
  { limiters := ∅, rate := rate, burst := burst, heap := [], held := ∅ }

def reset (s : Store F) (key : GoString) : Store F := { s with limiters := s.limiters.erase key }

def resetAll (s : Store F) : Store F := { s with limiters := ∅ }

/-- Five minutes. -/
def threshold : Duration := 300000000000

/-- The body of the loop of `cleanupExpired`. -/
def expire (s : Store F) (now : Time) (key : GoString) : Store F :=
  match s.limiters.lookup key with
  | none => s
  | some limiter =>
    match s.heap[limiter]? with
    | none => s
    | some l =>
      if threshold < now - l.lastUpdate then { s with limiters := s.limiters.erase key } else s

/-- A pass that nothing comes between; `range` lists the keys of the map. -/
def cleanupExpired (s : Store F) (now : Time) (range : List GoString) : Store F :=
  range.foldl (fun s key => s.expire now key) s

/-- The limiter a caller holds. -/
def limiterOf (s : Store F) (caller : ℕ) : Option (Limiter F) :=
  (s.held.lookup caller).bind fun limiter => s.heap[limiter]?

/-- A caller's one call on the limiter it holds. -/
def call (s : Store F) (caller : ℕ) (f : Limiter F → Limiter F) : Store F :=
  match s.held.lookup caller with
  | none => s
  | some limiter =>
    { s with heap := s.heap.modify limiter f, held := s.held.erase caller }

variable [Add F] [Sub F] [Mul F] [OfNat F 1] [IntCast F] [LE F] [LT F] [DecidableLE F]
  [DecidableLT F] [GoFloat F]

/-- The limiter of `key`, created if there is none. -/
def getLimiter (s : Store F) (key : GoString) (now : Time) : Store F × ℕ :=
  match s.limiters.lookup key with
  | some limiter => (s, limiter)
  | none =>
    ({ s with heap := s.heap ++ [Limiter.newLimiter s.rate s.burst now]
              limiters := s.limiters.insert key s.heap.length }, s.heap.length)

def step (s : Store F) : Step F → Store F × Option (Verdict F)
  | .getLimiter caller key now =>
    let r := s.getLimiter key now
    ({ r.1 with held := r.1.held.insert caller r.2 }, none)
  | .allow caller endpoint now =>
    (s.call caller fun l => (l.allowWithEndpoint endpoint now).1,
      (s.limiterOf caller).map fun l =>
        ⟨(l.allowWithEndpoint endpoint now).2, (l.getEffectiveConfig now).2⟩)
  | .setCustomConfig caller rate burst duration now =>
    (s.call caller fun l => l.setCustomConfig rate burst duration now, none)
  | .clearCustomConfig caller => (s.call caller Limiter.clearCustomConfig, none)
  | .reset key => (s.reset key, none)
  | .resetAll => (s.resetAll, none)
  | .cleanup key now => (s.expire now key, none)

def machine : Machine (Store F) (Step F) (Option (Verdict F)) := ⟨step⟩

/-- An uninterrupted pass is a run of its turns. -/
theorem cleanupExpired_eq_run (s : Store F) (now : Time) (range : List GoString) :
    s.cleanupExpired now range = (machine.run s (range.map fun key => .cleanup key now)).1 := by
  induction range generalizing s with
  | nil => rfl
  | cons key range ih => exact ih (s.expire now key)

end Store

namespace Step

variable {F : Type}

def isCleanup : Step F → Bool
  | cleanup .. => true
  | _ => false

/-- The clock a step reads. -/
def reading : Step F → Option Time
  | getLimiter _ _ now => some now
  | allow _ _ now => some now
  | setCustomConfig _ _ _ _ now => some now
  | cleanup _ now => some now
  | _ => none

/-- The latest time known once the step is taken. -/
def advance (t : Time) (e : Step F) : Time := max t (e.reading.getD t)

/-- A pass of the cleanup loop may have read its time before steps that came between
its turns; every other step reads the clock when it is taken. -/
def InTime (t : Time) (e : Step F) : Prop :=
  e.isCleanup = false → ∀ now ∈ e.reading, t ≤ now

end Step

/-- The readings of a run that starts at `t` follow one clock. -/
def Clocked {F : Type} : Time → List (Step F) → Prop
  | _, [] => True
  | t, e :: es => e.InTime t ∧ Clocked (e.advance t) es

/-- What the requests of a run from a new store meet. -/
def verdicts {F : Type} [Add F] [Sub F] [Mul F] [OfNat F 1] [IntCast F] [LE F] [LT F] [DecidableLE F]
    [DecidableLT F] [GoFloat F] (rate : F) (burst : ℤ) (es : List (Step F)) : List (Verdict F) :=
  (Store.machine.run (Store.newStore rate burst) es).2.reduceOption

end Konsul.Ratelimit
