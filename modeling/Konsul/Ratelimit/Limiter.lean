import Konsul.Lib.Rounding
import Konsul.Lib.TokenBucket
import Konsul.Store.Errors

/-!
# The limiter of one client

`rate` is in tokens per second, and a clock reading is an argument of the operation that
takes it. The code computes with the numbers `F` that it is given: float64 (`F64`), or the
rationals, where it is exact. With no custom limit an exact limiter is a lazily filled bucket.
-/

namespace Konsul.Ratelimit

open GoLib

/-- `Duration.Seconds`, exact. -/
def seconds (d : Duration) : ℚ := d / 1000000000

/-- The conversion to an `int` drops the fraction. -/
def truncate (x : ℚ) : ℤ := if x < 0 then ⌈x⌉ else ⌊x⌋

/-- The conversion to an `int64`; a value without a place there becomes the smallest, as
on amd64. -/
def toInt64 (x : ℚ) : ℤ :=
  if -2 ^ 63 ≤ truncate x ∧ truncate x < 2 ^ 63 then truncate x else -2 ^ 63

/-- Beside the arithmetic: `now.Sub(last).Seconds()`, and the conversion to an integer. -/
class GoFloat (F : Type) where
  elapsed : Time → Time → F
  toInt : F → ℤ

instance : GoFloat ℚ := ⟨fun now last => seconds (now - last), toInt64⟩

theorem elapsed_rat (now last : Time) : (GoFloat.elapsed now last : ℚ) = seconds (now - last) := rfl

/-- `Sub` ends at the longest `Duration`. -/
instance : GoFloat F64 :=
  ⟨fun now last => F64.seconds (max (-2 ^ 63) (min (2 ^ 63 - 1) (now - last))), F64.toInt64⟩

theorem elapsed_self (t : Time) : (GoFloat.elapsed t t : F64) = 0 := by
  show F64.seconds (max (-2 ^ 63) (min (2 ^ 63 - 1) (t - t))) = 0
  rw [sub_self]
  exact F64.seconds_zero

theorem elapsed_finite (t last : Time) : (GoFloat.elapsed t last : F64).IsFinite :=
  F64.seconds_finite (by omega) (by omega)

/-- The clock as the code reads it does not go back either. -/
theorem elapsed_mono {t t' : Time} (h : t ≤ t') (last : Time) :
    (GoFloat.elapsed t last : F64) ≤ GoFloat.elapsed t' last := by
  have hclamp := max_le_max (le_refl (-2 ^ 63 : ℤ))
    (min_le_min (le_refl (2 ^ 63 - 1 : ℤ)) (sub_le_sub_right h last))
  exact F64.seconds_mono (by omega) hclamp (by omega)

structure CustomConfig (F : Type) where
  rate : F
  burst : ℤ
  expiresAt : Time
  deriving DecidableEq

structure Violation (F : Type) where
  timestamp : Time
  endpoint : GoString
  remaining : F
  deriving DecidableEq

structure Limiter (F : Type) where
  rate : F
  burst : ℤ
  tokens : F
  lastUpdate : Time
  requestsAllowed : UInt64
  requestsDenied : UInt64
  firstSeen : Time
  lastRequest : Time
  violations : List (Violation F)
  customConfig : Option (CustomConfig F)
  deriving DecidableEq

theorem seconds_sub (t u : Time) : seconds (t - u) = seconds t - seconds u := by
  unfold seconds
  push_cast
  ring

theorem seconds_le {t u : Time} : seconds t ≤ seconds u ↔ t ≤ u := by
  unfold seconds
  rw [div_le_div_iff_of_pos_right (by norm_num)]
  exact Int.cast_le

def maxViolations : ℕ := 100

namespace Limiter

variable {F : Type}

/-- An expired custom limit is dropped once its time is past, not at it. -/
def getEffectiveConfig (l : Limiter F) (now : Time) : Limiter F × F × ℤ :=
  match l.customConfig with
  | none => (l, l.rate, l.burst)
  | some c =>
    if now < c.expiresAt then (l, c.rate, c.burst)
    else if c.expiresAt < now then ({ l with customConfig := none }, l.rate, l.burst)
    else (l, l.rate, l.burst)

def recordViolation (l : Limiter F) (v : Violation F) : Limiter F :=
  let all := l.violations ++ [v]
  { l with violations :=
      if maxViolations < all.length then all.drop (all.length - maxViolations) else all }

def clearCustomConfig (l : Limiter F) : Limiter F := { l with customConfig := none }

/-- The custom limit in force at `t`. -/
def pending (l : Limiter F) (t : Time) : Option (CustomConfig F) :=
  l.customConfig.bind fun c => if t < c.expiresAt then some c else none

/-- The rate and the burst in force at `t`. -/
def limits (l : Limiter F) (t : Time) : F × ℤ :=
  match l.pending t with
  | none => (l.rate, l.burst)
  | some c => (c.rate, c.burst)

section

variable (l : Limiter F) (t now : Time)

theorem getEffectiveConfig_snd : (l.getEffectiveConfig now).2 = l.limits now := by
  unfold getEffectiveConfig limits pending
  cases l.customConfig with
  | none => rfl
  | some c =>
    by_cases h : now < c.expiresAt
    · simp only [h, if_true, Option.bind_some]
    · simp only [h, if_false, Option.bind_some]
      split_ifs <;> rfl

theorem getEffectiveConfig_fst : ∃ custom,
    (l.getEffectiveConfig now).1 = { l with customConfig := custom } ∧
      ∀ t, now ≤ t → ({ l with customConfig := custom } : Limiter F).pending t = l.pending t := by
  unfold getEffectiveConfig pending
  cases hc : l.customConfig with
  | none => exact ⟨none, by simp only [← hc], fun _ _ => rfl⟩
  | some c =>
    by_cases h : now < c.expiresAt
    · exact ⟨some c, by simp only [h, if_true, ← hc], fun _ _ => rfl⟩
    · by_cases h' : c.expiresAt < now
      · refine ⟨none, by simp only [h, h', if_false, if_true], fun t ht => ?_⟩
        have hpast : ¬ t < c.expiresAt := not_lt.mpr (h'.le.trans ht)
        simp only [Option.bind_none, Option.bind_some, hpast, if_false]
      · exact ⟨some c, by simp only [h, h', if_false, ← hc], fun _ _ => rfl⟩

theorem getEffectiveConfig_of_none {l : Limiter F} (hnone : l.customConfig = none) (t : Time) :
    l.getEffectiveConfig t = (l, l.rate, l.burst) := by
  unfold getEffectiveConfig
  rw [hnone]

theorem pending_of_none (h : l.customConfig = none) : l.pending t = none := by
  unfold pending
  rw [h]
  rfl

theorem limits_of_pending (h : l.pending t = none) : l.limits t = (l.rate, l.burst) := by
  unfold limits
  rw [h]

end

variable [Add F] [Sub F] [Mul F] [OfNat F 1] [IntCast F] [LE F] [LT F] [DecidableLE F]
  [DecidableLT F] [GoFloat F]

def newLimiter (rate : F) (burst : ℤ) (now : Time) : Limiter F :=
  { rate := rate, burst := burst, tokens := burst, lastUpdate := now, requestsAllowed := 0,
    requestsDenied := 0, firstSeen := now, lastRequest := now, violations := [],
    customConfig := none }

def allowWithEndpoint (l : Limiter F) (endpoint : GoString) (now : Time) : Limiter F × Bool :=
  let r := { l with lastRequest := now }.getEffectiveConfig now
  let elapsed : F := GoFloat.elapsed now r.1.lastUpdate
  let filled := r.1.tokens + elapsed * r.2.1
  let tokens := if (r.2.2 : F) < filled then (r.2.2 : F) else filled
  let l' := { r.1 with tokens := tokens, lastUpdate := now }
  if 1 ≤ tokens then
    ({ l' with tokens := tokens - 1, requestsAllowed := l'.requestsAllowed + 1 }, true)
  else
    ({ l' with requestsDenied := l'.requestsDenied + 1 }.recordViolation ⟨now, endpoint, tokens⟩,
      false)

def setCustomConfig (l : Limiter F) (rate : F) (burst : ℤ) (duration : Duration) (now : Time) :
    Limiter F :=
  { l with
    customConfig := some ⟨rate, burst, now + duration⟩
    tokens := if (burst : F) < l.tokens then (burst : F) else l.tokens }

/-- A run of requests, each with its endpoint and its time. -/
def requests : Machine (Limiter F) (GoString × Time) Bool :=
  ⟨fun l r => l.allowWithEndpoint r.1 r.2⟩

/-- The tokens filled up at a rate, and cut to the burst. -/
def refill (tokens elapsed rate : F) (burst : ℤ) : F :=
  if (burst : F) < tokens + elapsed * rate then (burst : F) else tokens + elapsed * rate

/-- What a request finds. -/
def level (l : Limiter F) (now : Time) : F :=
  refill l.tokens (GoFloat.elapsed now l.lastUpdate) (l.limits now).1 (l.limits now).2

/-- What a request does to the tokens, and its answer. -/
theorem allowWithEndpoint_eq (l : Limiter F) (endpoint : GoString) (now : Time) :
    (l.allowWithEndpoint endpoint now).1.tokens =
        (if 1 ≤ l.level now then l.level now - 1 else l.level now) ∧
      (l.allowWithEndpoint endpoint now).1.lastUpdate = now ∧
      (l.allowWithEndpoint endpoint now).2 = decide (1 ≤ l.level now) := by
  have hlimits := getEffectiveConfig_snd { l with lastRequest := now } now
  obtain ⟨custom, hfst, -⟩ := getEffectiveConfig_fst { l with lastRequest := now } now
  have hsame : ({ l with lastRequest := now } : Limiter F).limits now = l.limits now := rfl
  rw [hsame] at hlimits
  generalize hlevel : l.level now = tokens
  simp only [level, refill] at hlevel
  simp only [allowWithEndpoint, hfst, hlimits, hlevel, recordViolation]
  by_cases hgrant : 1 ≤ tokens
  · simp only [hgrant, if_true, decide_true, and_self]
  · simp only [hgrant, if_false, decide_false, and_self]

/-- Beside the bucket and the counts, a request leaves the limiter as it was. -/
theorem allowWithEndpoint_keeps (l : Limiter F) (endpoint : GoString) (now : Time) :
    (l.allowWithEndpoint endpoint now).1.rate = l.rate ∧
      (l.allowWithEndpoint endpoint now).1.burst = l.burst ∧
      ∀ t, now ≤ t → (l.allowWithEndpoint endpoint now).1.pending t = l.pending t := by
  obtain ⟨custom, hfst, hpending⟩ := getEffectiveConfig_fst { l with lastRequest := now } now
  unfold allowWithEndpoint
  simp only [hfst]
  split_ifs <;> exact ⟨rfl, rfl, hpending⟩

theorem limits_allowWithEndpoint (l : Limiter F) (endpoint : GoString) (now : Time) :
    (l.allowWithEndpoint endpoint now).1.limits now = l.limits now := by
  obtain ⟨hrate, hburst, hpending⟩ := l.allowWithEndpoint_keeps endpoint now
  rw [limits, limits, hpending now le_rfl, hrate, hburst]

theorem customConfig_allowWithEndpoint {l : Limiter F} (hnone : l.customConfig = none)
    (endpoint : GoString) (t : Time) : (l.allowWithEndpoint endpoint t).1.customConfig = none := by
  have hsame : ({ l with lastRequest := t } : Limiter F).customConfig = none := hnone
  simp only [allowWithEndpoint, getEffectiveConfig_of_none hsame]
  split_ifs <;> exact hnone

/-! ### Exact limiters -/

def bucket (l : Limiter ℚ) : TokenBucket ℚ := ⟨l.tokens, seconds l.lastUpdate⟩

/-- A request takes from the bucket filled at the limits in force. -/
theorem allowWithEndpoint_take (l : Limiter ℚ) (endpoint : GoString) (now : Time) :
    ((l.allowWithEndpoint endpoint now).1.bucket, (l.allowWithEndpoint endpoint now).2) =
      l.bucket.take (l.limits now).1 ((l.limits now).2 : ℚ) (seconds now) := by
  have hmin : ∀ a b : ℚ, (if a < b then a else b) = min a b := by
    intro a b
    split_ifs with h
    · exact (min_eq_left h.le).symm
    · exact (min_eq_right (not_lt.mp h)).symm
  have hlevel : l.level now = l.bucket.level (l.limits now).1 ((l.limits now).2 : ℚ) (seconds now) := by
    simp only [level, refill, TokenBucket.level, bucket, GoFloat.elapsed, seconds_sub, hmin]
  obtain ⟨htokens, hlast, hgrant⟩ := l.allowWithEndpoint_eq endpoint now
  rw [hlevel] at htokens hgrant
  rw [bucket, htokens, hlast, hgrant, TokenBucket.take]
  split_ifs with h
  · rw [decide_eq_true h]
  · rw [decide_eq_false h]

/-- The times of a run, in seconds. -/
def times (rs : List (GoString × Time)) : List ℚ := rs.map fun r => seconds r.2

/-- The clock of a run starting at `t` does not go back. -/
def Ordered (t : Time) (rs : List (GoString × Time)) : Prop :=
  (t :: rs.map Prod.snd).Pairwise (· ≤ ·)

theorem Ordered.from {t : Time} {rs : List (GoString × Time)} (h : Ordered t rs) :
    TokenBucket.From (seconds t) (times rs) := by
  have hmap := h.map seconds (fun a b hab => seconds_le.mpr hab)
  simpa [TokenBucket.From, times, Function.comp_def] using hmap

/-- Without a custom limit a limiter is the bucket of its rate and burst. -/
theorem requests_run {l : Limiter ℚ} (hnone : l.customConfig = none)
    (rs : List (GoString × Time)) :
    (TokenBucket.machine l.rate (l.burst : ℚ)).run l.bucket (times rs) =
      ((requests.run l rs).1.bucket, (requests.run l rs).2) := by
  induction rs generalizing l with
  | nil => rfl
  | cons r rs ih =>
    obtain ⟨endpoint, now⟩ := r
    have htake := allowWithEndpoint_take l endpoint now
    obtain ⟨hrate, hburst, -⟩ := allowWithEndpoint_keeps l endpoint now
    have hrest := ih (customConfig_allowWithEndpoint hnone endpoint now)
    rw [hrate, hburst] at hrest
    rw [limits_of_pending l now (pending_of_none l now hnone)] at htake
    have h1 : (l.bucket.take l.rate (l.burst : ℚ) (seconds now)).1 =
        (l.allowWithEndpoint endpoint now).1.bucket := by rw [← htake]
    have h2 : (l.bucket.take l.rate (l.burst : ℚ) (seconds now)).2 =
        (l.allowWithEndpoint endpoint now).2 := by rw [← htake]
    have hstep : (TokenBucket.machine l.rate (l.burst : ℚ)).step l.bucket (seconds now) =
        ((l.allowWithEndpoint endpoint now).1.bucket, (l.allowWithEndpoint endpoint now).2) :=
      Prod.ext h1 h2
    change (TokenBucket.machine l.rate (l.burst : ℚ)).run l.bucket (seconds now :: times rs) = _
    rw [Machine.run_cons, hstep, hrest]
    rfl

/-- How many requests of a run are allowed in the `T` seconds from `start` on, both
ends included. -/
def allowedWithin (start T : ℚ) (rs : List (GoString × Time)) (answers : List Bool) : ℕ :=
  TokenBucket.granted (fun t => decide (start ≤ t ∧ t ≤ start + T)) (times rs) answers

/-- Consecutive requests at least one token's time apart. -/
def Spaced (rate : ℚ) (rs : List (GoString × Time)) : Prop :=
  (times rs).IsChain fun t u => t + 1 / rate ≤ u

/-- The tokens stay between none and the burst, no window of `T` seconds sees more
than the burst and what `T` seconds bring, and spaced requests are never denied. -/
theorem token_bucket_bound {rate : ℚ} {burst : ℤ} (hrate : 0 < rate) (hburst : 1 ≤ burst)
    (created : Time) (rs : List (GoString × Time)) (hclock : Ordered created rs) :
    (∀ n, 0 ≤ (requests.run (newLimiter rate burst created) (rs.take n)).1.tokens ∧
      (requests.run (newLimiter rate burst created) (rs.take n)).1.tokens ≤ burst) ∧
    (∀ start T : ℚ, 0 ≤ T →
      (allowedWithin start T rs (requests.run (newLimiter rate burst created) rs).2 : ℚ) ≤
        burst + rate * T) ∧
    (Spaced rate rs → ∀ a ∈ (requests.run (newLimiter rate burst created) rs).2, a = true) := by
  have hb : (1 : ℚ) ≤ burst := by exact_mod_cast hburst
  have hb0 : (0 : ℚ) ≤ burst := by linarith
  have hrun := fun rs => requests_run (l := newLimiter rate burst created) rfl rs
  have hfrom : TokenBucket.From (newLimiter rate burst created).bucket.last (times rs) :=
    hclock.from
  refine ⟨fun n => ?_, fun start T hT => ?_, fun hspaced => ?_⟩
  · have hprefix : TokenBucket.From (newLimiter rate burst created).bucket.last
        (times (rs.take n)) := by
      have := hfrom.take n
      rwa [times, ← List.map_take] at this
    have hbounds := TokenBucket.run_bounds hrate.le hb0 (s := (newLimiter rate burst created).bucket)
      hb0 le_rfl hprefix
    have heq := hrun (rs.take n)
    change (TokenBucket.machine rate (burst : ℚ)).run _ _ = _ at heq
    rw [heq] at hbounds
    exact hbounds
  · have hwindow := TokenBucket.window_le hrate.le hb0
      (s := (newLimiter rate burst created).bucket) hb0 hfrom start hT
    have heq := hrun rs
    change (TokenBucket.machine rate (burst : ℚ)).run _ _ = _ at heq
    rw [heq] at hwindow
    exact hwindow
  · have hfirst : ∀ t ∈ (times rs).head?,
        1 ≤ (newLimiter rate burst created).bucket.level rate (burst : ℚ) t := by
      intro t ht
      have hmem : t ∈ times rs := List.mem_of_mem_head? ht
      have hlate := hfrom.le_mem hmem
      have hflow := mul_nonneg (sub_nonneg.mpr hlate) hrate.le
      exact le_min hb (hb.trans (le_add_of_nonneg_right hflow))
    have hall := TokenBucket.all_granted hrate hb (s := (newLimiter rate burst created).bucket)
      hb0 hfirst hspaced
    have heq := hrun rs
    change (TokenBucket.machine rate (burst : ℚ)).run _ _ = _ at heq
    rw [heq] at hall
    exact hall

/-- A full bucket of two, three requests in one second: the third is one too many. -/
theorem token_bucket_bound_three :
    (0 : ℚ) < 1 ∧ (1 : ℤ) ≤ 2 ∧ Ordered 0 [([], 0), ([], 0), ([], 500000000)] ∧
    (requests.run (newLimiter (1 : ℚ) 2 0) [([], 0), ([], 0), ([], 500000000)]).2 =
      [true, true, false] ∧
    (allowedWithin 0 1 [([], 0), ([], 0), ([], 500000000)]
      (requests.run (newLimiter (1 : ℚ) 2 0) [([], 0), ([], 0), ([], 500000000)]).2 : ℚ) ≤
        (2 : ℤ) + 1 * 1 := by
  have hclock : Ordered 0 [([], 0), ([], 0), ([], 500000000)] := by
    unfold Ordered
    decide
  exact ⟨one_pos, by decide, hclock, by decide +kernel,
    (token_bucket_bound one_pos (by decide) 0 _ hclock).2.1 0 1 zero_le_one⟩

end Limiter

end Konsul.Ratelimit
