import Konsul.Ratelimit.Middleware
import Mathlib.Algebra.Order.Group.MinMax

/-!
# How long a denied client is told to wait

The wait is cut to nanoseconds, its end to a whole second, and the difference with the
clock once more to whole seconds, and at least one second is told. What is cut off each
time is missing at the end of the wait.
-/

namespace Konsul.Ratelimit

open GoLib

theorem retryAfter_eq (resetAt : ℤ) (now : Time) :
    (retryAfter resetAt now : ℤ) = max 1 ((resetAt * 1000000000 - now) / 1000000000) := by
  have hfloor : ⌊seconds (resetAt * 1000000000 - now)⌋ =
      (resetAt * 1000000000 - now) / 1000000000 := by
    simpa only [seconds, Nat.cast_ofNat] using
      Rat.floor_intCast_div_natCast (resetAt * 1000000000 - now) 1000000000
  unfold retryAfter truncate
  by_cases hneg : seconds (resetAt * 1000000000 - now) < 0
  · have hceil : ⌈seconds (resetAt * 1000000000 - now)⌉ ≤ 0 :=
      Int.ceil_le.mpr (by exact_mod_cast hneg.le)
    have hlow := (Int.floor_le_ceil (seconds (resetAt * 1000000000 - now))).trans hceil
    rw [hfloor] at hlow
    simp only [hneg, if_true]
    rw [if_pos (by omega), max_eq_left (by omega)]
    rfl
  · simp only [hneg, if_false, hfloor]
    generalize (resetAt * 1000000000 - now) / 1000000000 = left
    split_ifs <;> omega

/-- Of a time, what is cut off down to a whole second. -/
def pastSecond (t : Time) : ℤ := t % 1000000000

/-- Of a time, what is missing up to a whole second. -/
def toSecond (t : Time) : ℤ := -t % 1000000000

/-- The end told after the cuts, seen from the denial: one second after the reply, or the
wait less what was cut off and more by what passed before it was read. -/
theorem told_end (wait again now : ℤ) :
    now + max 1 (((again + wait) / 1000000000 * 1000000000 - now) / 1000000000) * 1000000000 =
      max (now + 1000000000) (again + wait - pastSecond (again + wait) - toSecond now) := by
  unfold pastSecond toSecond
  omega

namespace Limiter

/-- The tokens at `t`, before the cap. -/
def filled (l : Limiter ℚ) (t : Time) : ℚ := l.tokens + seconds (t - l.lastUpdate) * l.rate

/-- The nanoseconds that a request denied at `t` has to wait for its token. -/
def due (l : Limiter ℚ) (t : Time) : ℚ := (1 - l.filled t) / l.rate * 1000000000

/-- The wait is over one second after the reply; or what the roundings cut off passes
between the denial and the reading of the headers. -/
def Covered (l : Limiter ℚ) (r : Readings) : Prop :=
  l.due r.allow ≤ (r.reply + 1000000000 - r.allow : ℤ) ∨
    l.due r.allow - toInt64 (l.due r.allow) +
        (pastSecond (r.again + toInt64 (l.due r.allow)) + toSecond r.reply : ℤ) ≤
      (r.again - r.allow : ℤ)

variable {l : Limiter ℚ} {identifier path : GoString} {r : Readings}

theorem due_le_iff (hrate : 0 < l.rate) (t u : Time) :
    1 ≤ l.filled t + (seconds u - seconds t) * l.rate ↔ l.due t ≤ (u - t : ℤ) := by
  rw [← seconds_sub, due, seconds]
  have hscale : (0 : ℚ) < 1000000000 := by norm_num
  rw [← le_div_iff₀ hscale, div_le_iff₀ hrate]
  constructor <;> intro h <;> linarith

theorem limits_of_none (hnone : l.customConfig = none) (t : Time) : l.limits t = (l.rate, l.burst) :=
  limits_of_pending l t (pending_of_none l t hnone)

/-- A request without a custom limit in the way is allowed when its token is there. -/
theorem allowed_iff (hnone : l.customConfig = none) (hburst : 1 ≤ l.burst) (endpoint : GoString)
    (t : Time) : (l.allowWithEndpoint endpoint t).2 = true ↔ 1 ≤ l.filled t := by
  have hb : (1 : ℚ) ≤ l.burst := by exact_mod_cast hburst
  have htake := congrArg Prod.snd (l.allowWithEndpoint_take endpoint t)
  rw [TokenBucket.take_snd, limits_of_none hnone] at htake
  change (l.allowWithEndpoint endpoint t).2 = _ at htake
  rw [htake, decide_eq_true_iff, TokenBucket.level, le_min_iff, and_iff_right hb, filled,
    seconds_sub]
  rfl

theorem requests_fixed (rate : ℚ) (burst : ℤ) (created : Time) (rs : List (GoString × Time)) :
    (requests.run (newLimiter rate burst created) rs).1.rate = rate ∧
      (requests.run (newLimiter rate burst created) rs).1.burst = burst ∧
      (requests.run (newLimiter rate burst created) rs).1.customConfig = none := by
  refine @Machine.invariant_run _ _ _ requests
    (fun l => l.rate = rate ∧ l.burst = burst ∧ l.customConfig = none) ?_ _ ⟨rfl, rfl, rfl⟩ rs
  rintro l ⟨endpoint, now⟩ ⟨hrate, hburst, hnone⟩
  obtain ⟨hrate', hburst', -⟩ := l.allowWithEndpoint_keeps endpoint now
  exact ⟨hrate'.trans hrate, hburst'.trans hburst,
    customConfig_allowWithEndpoint hnone endpoint now⟩

theorem bucket_of_denied (hnone : l.customConfig = none) (hburst : 1 ≤ l.burst)
    (endpoint : GoString) (t : Time) (hdenied : (l.allowWithEndpoint endpoint t).2 = false) :
    l.filled t < 1 ∧
      (l.allowWithEndpoint endpoint t).1.bucket = ⟨l.filled t, seconds t⟩ := by
  have hb : (1 : ℚ) ≤ l.burst := by exact_mod_cast hburst
  have hlow : l.filled t < 1 :=
    not_le.mp ((allowed_iff hnone hburst endpoint t).not.mp (ne_true_of_eq_false hdenied))
  have hlevel : l.bucket.level l.rate (l.burst : ℚ) (seconds t) = l.filled t := by
    rw [TokenBucket.level, filled, seconds_sub]
    rw [filled, seconds_sub] at hlow
    exact min_eq_right (hlow.le.trans hb)
  have htake := congrArg Prod.fst (l.allowWithEndpoint_take endpoint t)
  rw [limits_of_none hnone, TokenBucket.take, hlevel, if_neg hlow.not_ge] at htake
  exact ⟨hlow, htake⟩

theorem serve_denied (hnone : l.customConfig = none) (hburst : 1 ≤ l.burst) {headers : Headers}
    {n : ℕ} {resetAt : ℤ}
    (hreply : (l.serve identifier path r).2 = .tooManyRequests headers identifier n resetAt) :
    (l.serve identifier path r).1 = (l.allowWithEndpoint path r.allow).1 ∧
      (l.allowWithEndpoint path r.allow).2 = false ∧
      n = retryAfter (Time.unix (r.again + wait (1 - l.filled r.allow) l.rate)) r.reply := by
  have hdenied : (l.allowWithEndpoint path r.allow).2 = false := by
    by_contra htrue
    rw [serve, if_pos (eq_true_of_ne_false htrue)] at hreply
    cases hreply
  obtain ⟨hlow, hbucket⟩ := bucket_of_denied hnone hburst path r.allow hdenied
  have htokens : (l.allowWithEndpoint path r.allow).1.tokens = l.filled r.allow :=
    congrArg TokenBucket.tokens hbucket
  have hrate := (l.allowWithEndpoint_keeps path r.allow).1
  have hquiet := getEffectiveConfig_of_none
    (customConfig_allowWithEndpoint hnone path r.allow)
  have hserve : l.serve identifier path r = ((l.allowWithEndpoint path r.allow).1,
      .tooManyRequests ((l.allowWithEndpoint path r.allow).1.getHeaders r.headers).2 identifier
        (retryAfter (Time.unix (r.again + wait (1 - l.filled r.allow) l.rate)) r.reply)
        (Time.unix (r.again + wait (1 - l.filled r.allow) l.rate))) := by
    simp only [serve, hdenied, getHeaders, hquiet, htokens, hlow, hrate, Bool.false_eq_true,
      if_false, if_true]
  rw [hserve] at hreply ⊢
  cases hreply
  exact ⟨rfl, hdenied, rfl⟩

/-- After a denial every request from the end of the told wait on is allowed iff the wait
is covered. -/
theorem retry_after_iff {rate : ℚ} {burst : ℤ} (hrate : 0 < rate) (hburst : 1 ≤ burst)
    (created : Time) (history : List (GoString × Time)) (identifier path : GoString) (r : Readings)
    {l : Limiter ℚ} (hl : l = (requests.run (newLimiter rate burst created) history).1)
    {headers : Headers} {n : ℕ} {resetAt : ℤ}
    (hreply : (l.serve identifier path r).2 = .tooManyRequests headers identifier n resetAt) :
    (∀ endpoint t, r.reply + n * 1000000000 ≤ t →
      ((l.serve identifier path r).1.allowWithEndpoint endpoint t).2 = true) ↔ l.Covered r := by
  obtain ⟨hlrate, hlburst, hnone⟩ := requests_fixed rate burst created history
  rw [← hl] at hlrate hlburst hnone
  rw [← hlrate] at hrate
  rw [← hlburst] at hburst
  obtain ⟨hleft, hdenied, rfl⟩ := serve_denied hnone hburst hreply
  obtain ⟨-, hbucket⟩ := bucket_of_denied hnone hburst path r.allow hdenied
  have hnone' := customConfig_allowWithEndpoint hnone path r.allow
  obtain ⟨hrate', hburst', -⟩ := l.allowWithEndpoint_keeps path r.allow
  have hallowed : ∀ endpoint t,
      ((l.allowWithEndpoint path r.allow).1.allowWithEndpoint endpoint t).2 = true ↔
        l.due r.allow ≤ (t - r.allow : ℤ) := by
    intro endpoint t
    rw [allowed_iff hnone' (hburst'.symm ▸ hburst), ← due_le_iff hrate, filled, seconds_sub, hrate']
    rw [show (l.allowWithEndpoint path r.allow).1.tokens = l.filled r.allow from
      congrArg TokenBucket.tokens hbucket,
      show seconds (l.allowWithEndpoint path r.allow).1.lastUpdate = seconds r.allow from
      congrArg TokenBucket.last hbucket]
  have hwait : wait (1 - l.filled r.allow) l.rate = toInt64 (l.due r.allow) := if_neg hrate.ne'
  have hend := told_end (toInt64 (l.due r.allow)) r.again r.reply
  rw [hleft, hwait]
  simp only [hallowed]
  rw [retryAfter_eq, Time.unix, hend]
  have hfirst : ∀ told : Time, (∀ (_ : GoString) (t : Time), told ≤ t →
      l.due r.allow ≤ (t - r.allow : ℤ)) ↔ l.due r.allow ≤ (told - r.allow : ℤ) := by
    intro told
    constructor
    · intro h
      exact h [] told le_rfl
    · intro h _ t ht
      exact h.trans (Int.cast_le.mpr (sub_le_sub_right ht r.allow))
  rw [hfirst, ← max_sub_sub_right, Int.cast_max, le_max_iff, Covered]
  refine or_congr Iff.rfl ?_
  push_cast
  constructor <;> intro h <;> linarith

/-- Readings that all fall on one instant. -/
def atOnce (t : Time) : Readings := ⟨t, t, t, t, t, t, t⟩

/-- One request a second, and two at once: the second is told one second and then
allowed. -/
theorem retry_after_one_second :
    ((requests.run (newLimiter (1 : ℚ) 1 0) [([], 0)]).1.serve (str "ip:10.0.0.1") [] (atOnce 0)).2 =
      .tooManyRequests ⟨1, 0, 1⟩ (str "ip:10.0.0.1") 1 1 ∧
    ((∀ endpoint t, (atOnce 0).reply + (1 : ℕ) * 1000000000 ≤ t →
      (((requests.run (newLimiter (1 : ℚ) 1 0) [([], 0)]).1.serve (str "ip:10.0.0.1") []
        (atOnce 0)).1.allowWithEndpoint endpoint t).2 = true) ↔
      (requests.run (newLimiter (1 : ℚ) 1 0) [([], 0)]).1.Covered (atOnce 0)) := by
  have hreply : ((requests.run (newLimiter (1 : ℚ) 1 0) [([], 0)]).1.serve (str "ip:10.0.0.1") []
      (atOnce 0)).2 = .tooManyRequests ⟨1, 0, 1⟩ (str "ip:10.0.0.1") 1 1 := by decide +kernel
  exact ⟨hreply, retry_after_iff one_pos le_rfl 0 [([], 0)] _ [] (atOnce 0) rfl hreply⟩

/-- Two requests in three seconds: the second one at once is told one second, and denied
again when it is over. -/
theorem denied_after_wait : ¬ ∀ (rate : ℚ) (burst : ℤ) (created : Time)
    (history : List (GoString × Time)) (identifier path : GoString) (r : Readings)
    (headers : Headers) (n : ℕ) (resetAt : ℤ), 0 < rate → 1 ≤ burst →
    Ordered created (history ++ [(path, r.allow)]) → r.Ordered →
    ((requests.run (newLimiter rate burst created) history).1.serve identifier path r).2 =
      .tooManyRequests headers identifier n resetAt →
    ∀ endpoint t, r.reply + n * 1000000000 ≤ t →
      (((requests.run (newLimiter rate burst created) history).1.serve identifier path
        r).1.allowWithEndpoint endpoint t).2 = true := by
  intro h
  have hretry := h (2 / 3) 1 0 [([], 0)] (str "ip:10.0.0.1") [] (atOnce 0) ⟨1, 0, 1⟩ 1 1
    (by norm_num) le_rfl (by unfold Ordered; decide) (by decide) (by decide +kernel) [] 1000000000
    (by decide)
  exact absurd hretry (by decide +kernel)

end Limiter

end Konsul.Ratelimit
