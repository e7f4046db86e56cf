import Konsul.Ratelimit.Limiter

/-!
# A limiter under administration, and its headers

Beside the requests, an administrator sets and clears a custom limit or resets the
limiter, and the headers of a reply are read off it. The clock moves in steps of its
own, so that a custom limit that ends is seen by time alone.
-/

namespace Konsul.Ratelimit

open GoLib

structure Headers where
  limit : ℤ
  remaining : ℤ
  resetAt : ℤ
  deriving DecidableEq

namespace Limiter

variable {F : Type} [Sub F] [Mul F] [Div F] [OfNat F 0] [OfNat F 1] [IntCast F] [LT F]
  [DecidableEq F] [DecidableLT F] [GoFloat F]

def reset (l : Limiter F) (now : Time) : Limiter F := { l with tokens := l.burst, lastUpdate := now }

/-- `time.Duration(secondsToWait * float64(time.Second))`; a division by zero is infinite. -/
def wait (tokensNeeded rate : F) : Duration :=
  if rate = 0 then -2 ^ 63 else GoFloat.toInt (tokensNeeded / rate * ((1000000000 : ℤ) : F))

def getHeaders (l : Limiter F) (now : Time) : Limiter F × Headers :=
  let r := l.getEffectiveConfig now
  let remaining := GoFloat.toInt r.1.tokens
  (r.1,
    { limit := r.2.2
      remaining := if remaining < 0 then 0 else remaining
      resetAt :=
        if r.1.tokens < 1 then Time.unix (now + wait (1 - r.1.tokens) r.2.1)
        else Time.unix now })

variable (l : Limiter F) (now : Time)

theorem getHeaders_limit : (l.getHeaders now).2.limit = (l.limits now).2 := by
  rw [← getEffectiveConfig_snd]
  rfl

/-- The whole tokens of the last request. -/
theorem getHeaders_remaining : (l.getHeaders now).2.remaining = max 0 (GoFloat.toInt l.tokens) := by
  obtain ⟨custom, hfst, -⟩ := getEffectiveConfig_fst l now
  simp only [getHeaders, hfst]
  split_ifs <;> omega

/-- Reading the headers drops at most a custom limit that is over. -/
theorem getHeaders_fst : ∃ custom,
    (l.getHeaders now).1 = { l with customConfig := custom } ∧
      ∀ t, now ≤ t → ({ l with customConfig := custom } : Limiter F).pending t = l.pending t :=
  getEffectiveConfig_fst l now

end Limiter

/-- A limiter and the time. -/
structure Timeline (F : Type) where
  limiter : Limiter F
  now : Time
  deriving DecidableEq

/-- What happens to a limiter. -/
inductive Event (F : Type) where
  | advance (nanoseconds : ℕ)
  | request (endpoint : GoString)
  | setCustomConfig (rate : F) (burst : ℤ) (duration : Duration)
  | clearCustomConfig
  | reset
  | getHeaders
  deriving DecidableEq

namespace Timeline

variable {F : Type}

/-- The limits in force. -/
def limits (s : Timeline F) : F × ℤ := s.limiter.limits s.now

/-- The time since the last update, in seconds. -/
def elapsed [GoFloat F] (s : Timeline F) : F := GoFloat.elapsed s.now s.limiter.lastUpdate

variable [Add F] [Sub F] [Mul F] [Div F] [OfNat F 0] [OfNat F 1] [IntCast F] [LE F] [LT F]
  [DecidableEq F] [DecidableLE F] [DecidableLT F] [GoFloat F]

/-- `NewLimiter` at a time. -/
def start (rate : F) (burst : ℤ) (now : Time) : Timeline F :=
  ⟨Limiter.newLimiter rate burst now, now⟩

/-- What an event makes of the limiter; the answer is that of a request. -/
def step (s : Timeline F) : Event F → Timeline F × Option Bool
  | .advance d => ({ s with now := s.now + d }, none)
  | .request endpoint =>
    let r := s.limiter.allowWithEndpoint endpoint s.now
    ({ s with limiter := r.1 }, some r.2)
  | .setCustomConfig rate burst duration =>
    ({ s with limiter := s.limiter.setCustomConfig rate burst duration s.now }, none)
  | .clearCustomConfig => ({ s with limiter := s.limiter.clearCustomConfig }, none)
  | .reset => ({ s with limiter := s.limiter.reset s.now }, none)
  | .getHeaders => ({ s with limiter := (s.limiter.getHeaders s.now).1 }, none)

def machine : Machine (Timeline F) (Event F) (Option Bool) := ⟨step⟩

variable (s : Timeline F)

/-- The limits in force once a custom limit is set: it counts if it lasts at all. -/
theorem limits_setCustomConfig (rate : F) (burst : ℤ) (duration : Duration) :
    (s.step (.setCustomConfig rate burst duration)).1.limits =
      if 0 < duration then (rate, burst) else (s.limiter.rate, s.limiter.burst) := by
  simp only [limits, step, Limiter.setCustomConfig, Limiter.limits, Limiter.pending,
    Option.bind_some]
  have hlasts : s.now < s.now + duration ↔ 0 < duration := lt_add_iff_pos_right s.now
  simp only [hlasts]
  by_cases h : 0 < duration
  · simp only [h, if_true]
  · simp only [h, if_false]

theorem limits_reset : (s.step .reset).1.limits = s.limits := rfl

theorem limits_getHeaders : (s.step .getHeaders).1.limits = s.limits := by
  obtain ⟨custom, hfst, hpending⟩ := s.limiter.getHeaders_fst s.now
  simp only [limits, step, Limiter.limits, hfst, hpending s.now le_rfl]

theorem limits_request (endpoint : GoString) : (s.step (.request endpoint)).1.limits = s.limits :=
  s.limiter.limits_allowWithEndpoint endpoint s.now

end Timeline

end Konsul.Ratelimit
