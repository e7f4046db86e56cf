import Konsul.Ratelimit.Timeline

/-!
# The quota that the headers advertise

The headers are read off the tokens of the last request, and only a request and a new
custom limit bring the tokens within the burst. So the quota is consistent after a
request, and stays so until the burst in force falls below the tokens or a whole token
flows in. The tokens are float64: more than 2 ^ 53 of them are not counted down one by one,
and at a rate that is not finite they are no number after the first request.
-/

namespace Konsul.Ratelimit

open GoLib Limiter

/-- The whole tokens that the headers show. -/
def counted (tokens : F64) : ℤ := max 0 tokens.toInt64

/-- The tokens are within the burst, and filled up they make as many whole ones. -/
def Settled (tokens elapsed rate : F64) (burst : ℤ) : Prop :=
  counted tokens ≤ burst ∧
    if rate.IsFinite then
      ¬ F64.limit < refill tokens elapsed rate burst ∧
        F64.whole (refill tokens elapsed rate burst) = counted tokens
    else counted tokens = if 1 ≤ refill tokens elapsed rate burst then 1 else 0

theorem counted_nonneg (tokens : F64) : 0 ≤ counted tokens := le_max_left _ _

theorem counted_ne (tokens : F64) : counted tokens ≠ 2 ^ 53 + 1 := by
  have hne := tokens.toInt64_ne
  unfold counted
  omega

theorem counted_eq_whole {tokens : F64} (h : ¬ F64.limit < tokens) :
    counted tokens = F64.whole tokens := F64.max_toInt64 h

theorem counted_of_not_le {tokens : F64} (h : ¬ 1 ≤ tokens) : counted tokens = 0 := by
  have hsmall : ¬ F64.limit < tokens := by
    intro hlt
    have hone : 1 ≤ F64.limit := by decide +kernel
    exact h ⟨hone.1, hlt.2.1, hone.2.2.trans hlt.2.2.le⟩
  rw [counted_eq_whole hsmall, F64.whole_of_not_le h]

section

variable {tokens elapsed rate : F64} {burst : ℤ}

theorem not_lt_refill : ¬ (burst : F64) < refill tokens elapsed rate burst := by
  unfold refill
  split_ifs with h
  · exact fun hlt => absurd hlt.2.2 (lt_irrefl _)
  · exact h

/-- At once nothing flows in. -/
theorem refill_zero (hrate : rate.IsFinite) (h : ¬ (burst : F64) < tokens) :
    refill tokens 0 rate burst = tokens := by
  rw [refill, F64.zero_mul hrate, F64.add_zero, if_neg h]

theorem refill_nan (hrate : ¬ rate.IsFinite) : refill tokens 0 rate burst = .nan := by
  rw [refill, F64.add_zero_mul hrate, if_neg fun hlt => hlt.2.1 rfl]

end

/-- As far as integers are float64: the tokens are below the burst plus one, and what has
flowed in behind them completes no whole token that there is room for. -/
theorem settled_iff {tokens elapsed rate : F64} {burst : ℤ} (hrate : rate.IsFinite)
    (hburst : burst < 2 ^ 53) (htokens : ¬ F64.limit < tokens) :
    Settled tokens elapsed rate burst ↔
      0 ≤ burst ∧ ¬ ((burst + 1 : ℤ) : F64) ≤ tokens ∧ ∀ k : ℤ, 0 < k → k ≤ burst →
        ((k : F64) ≤ tokens + elapsed * rate ↔ (k : F64) ≤ tokens) := by
  by_cases hneg : burst < 0
  · have hcounted := counted_nonneg tokens
    exact iff_of_false (fun h => hneg.not_ge (hcounted.trans h.1)) fun h => hneg.not_ge h.1
  · have hcap : ¬ F64.limit < (burst : F64) := F64.not_lt_of_le (F64.intCast_mono hburst.le)
    have hroom : refill tokens elapsed rate burst = .nan ∨
        refill tokens elapsed rate burst ≤ (burst : F64) := by
      refine or_iff_not_imp_left.mpr fun hnan => ?_
      exact F64.le_of_not_lt (F64.intCast_finite burst).ne_nan hnan not_lt_refill
    have hsmall : ¬ F64.limit < refill tokens elapsed rate burst := by
      rcases hroom with hnan | hle
      · rw [hnan]
        exact fun hlt => hlt.2.1 rfl
      · exact fun hlt => hcap (F64.lt_of_lt_of_le hlt hle)
    have hwithin : F64.whole (refill tokens elapsed rate burst) ≤ burst := by
      rcases hroom with hnan | hle
      · rw [hnan]
        exact not_lt.mp hneg
      · exact (F64.whole_mono hle hcap).trans (F64.whole_intCast (not_lt.mp hneg) hburst.le).le
    have hfilled : ∀ k : ℤ, 0 < k → k ≤ burst → ((k : F64) ≤ tokens + elapsed * rate ↔
        k ≤ F64.whole (refill tokens elapsed rate burst)) := by
      intro k hk hkb
      have hkburst : (k : F64) ≤ burst := F64.intCast_mono hkb
      rw [← F64.intCast_le_iff hk (by omega) hsmall, refill]
      split_ifs with hless
      · exact iff_of_true (F64.le_trans hkburst ⟨hless.1, hless.2.1, hless.2.2.le⟩) hkburst
      · exact Iff.rfl
    have hwhole : ∀ k : ℤ, 0 < k → k ≤ burst + 1 → ((k : F64) ≤ tokens ↔ k ≤ F64.whole tokens) :=
      fun k hk hkb => F64.intCast_le_iff hk (by omega) htokens
    have hnonneg := F64.whole_nonneg (refill tokens elapsed rate burst)
    have hnonneg' := F64.whole_nonneg tokens
    rw [Settled, if_pos hrate, counted_eq_whole htokens, and_iff_right hsmall,
      hwhole (burst + 1) (by omega) le_rfl]
    constructor
    · rintro ⟨hle, heq⟩
      refine ⟨by omega, by omega, fun k hk hkb => ?_⟩
      rw [hfilled k hk hkb, hwhole k hk (by omega), heq]
    · rintro ⟨-, hle, hagree⟩
      have hsame : ∀ k : ℤ, 0 < k → k ≤ burst →
          (k ≤ F64.whole (refill tokens elapsed rate burst) ↔ k ≤ F64.whole tokens) := by
        intro k hk hkb
        rw [← hfilled k hk hkb, ← hwhole k hk (by omega)]
        exact hagree k hk hkb
      have hkept := hsame (F64.whole tokens)
      have hcame := hsame (F64.whole (refill tokens elapsed rate burst))
      omega

-- three seconds at the float64 next to a third of a token make a whole one
example : ¬ Settled 0 (F64.seconds 3000000000) (.ofRat (1 / 3)) 1 := by
  unfold Settled
  decide +kernel

/-! ### Requests at one instant -/

/-- What a request leaves of what it found. -/
def spend (level : F64) : F64 := if 1 ≤ level then level - 1 else level

theorem not_lt_spend {b level : F64} (h : ¬ b < level) : ¬ b < spend level := by
  unfold spend
  split_ifs with hone
  · exact fun hlt => h (F64.lt_of_lt_of_le hlt (F64.sub_one_le hone.2.1))
  · exact h

theorem whole_spend_le {level : F64} (h : ¬ F64.limit < level) :
    F64.whole (spend level) ≤ F64.whole level := by
  unfold spend
  split_ifs with hone
  · exact F64.whole_mono (F64.sub_one_le hone.2.1) h
  · exact le_rfl

/-- What is left was counted where what was found was. -/
theorem settled_spend {level rate : F64} {burst : ℤ} (hrate : rate.IsFinite)
    (hlevel : ¬ (burst : F64) < level) (hsmall : ¬ F64.limit < level)
    (hwhole : F64.whole level ≤ burst) : Settled (spend level) 0 rate burst := by
  have hcounted := counted_eq_whole (not_lt_spend hsmall)
  have hless := whole_spend_le hsmall
  rw [Settled, if_pos hrate, refill_zero hrate (not_lt_spend hlevel), hcounted]
  exact ⟨hless.trans hwhole, not_lt_spend hsmall, rfl⟩

theorem settled_spend_iff {level rate : F64} {burst : ℤ} (hrate : ¬ rate.IsFinite)
    (hburst : 0 ≤ burst) :
    Settled (spend level) 0 rate burst ↔ (1 ≤ level → counted (level - 1) = 0) := by
  have hnan : ¬ 1 ≤ F64.nan := fun hle => hle.2.1 rfl
  rw [Settled, if_neg hrate, refill_nan hrate, if_neg hnan, spend]
  by_cases hone : 1 ≤ level
  · rw [if_pos hone]
    constructor
    · intro h _
      exact h.2
    · intro h
      have hzero := h hone
      omega
  · rw [if_neg hone, counted_of_not_le hone]
    exact ⟨fun _ h => absurd h hone, fun _ => ⟨hburst, rfl⟩⟩

/-- How many of `m` requests at one instant are allowed, from so many tokens on. -/
def allowedAt (rate : F64) (m : ℕ) (level : F64) : ℕ :=
  if rate.IsFinite then F64.countdown m level else if 1 ≤ level then min m 1 else 0

theorem allowedAt_iff {rate level : F64} {u : ℤ} (hu : 0 ≤ u) (hodd : u ≠ 2 ^ 53 + 1) :
    (∀ m : ℕ, (allowedAt rate m level : ℤ) = min (m : ℤ) u) ↔
      if rate.IsFinite then ¬ F64.limit < level ∧ F64.whole level = u
      else u = if 1 ≤ level then 1 else 0 := by
  unfold allowedAt
  by_cases hrate : rate.IsFinite
  · simp only [hrate, if_true]
    exact F64.countdown_iff hu hodd
  · simp only [hrate, if_false]
    constructor
    · intro h
      have htwo := h 2
      split_ifs at htwo ⊢ <;> omega
    · intro h m
      rw [h]
      split_ifs <;> omega

namespace Limiter

variable (l : Limiter F64) (endpoint : GoString) (now : Time)

theorem tokens_allowWithEndpoint :
    (l.allowWithEndpoint endpoint now).1.tokens = spend (l.level now) :=
  (l.allowWithEndpoint_eq endpoint now).1

/-- What the next request at the same instant finds. -/
theorem level_allowWithEndpoint : (l.allowWithEndpoint endpoint now).1.level now =
    if (l.limits now).1.IsFinite then spend (l.level now) else .nan := by
  obtain ⟨-, hlast, -⟩ := l.allowWithEndpoint_eq endpoint now
  rw [level, hlast, elapsed_self, limits_allowWithEndpoint, tokens_allowWithEndpoint]
  by_cases hrate : (l.limits now).1.IsFinite
  · have hlevel : ¬ ((l.limits now).2 : F64) < l.level now := not_lt_refill
    rw [if_pos hrate, refill_zero hrate (not_lt_spend hlevel)]
  · rw [if_neg hrate, refill_nan hrate]

theorem count_at (endpoints : List GoString) :
    (requests.run l (endpoints.map fun e => (e, now))).2.count true =
      allowedAt (l.limits now).1 endpoints.length (l.level now) := by
  induction endpoints generalizing l with
  | nil =>
    simp only [allowedAt, List.length_nil, F64.countdown, Nat.zero_min, ite_self]
    rfl
  | cons e endpoints ih =>
    obtain ⟨-, -, hgrant⟩ := l.allowWithEndpoint_eq e now
    have hrest := ih (l.allowWithEndpoint e now).1
    rw [limits_allowWithEndpoint, level_allowWithEndpoint] at hrest
    rw [List.map_cons, Machine.run_cons]
    show ((l.allowWithEndpoint e now).2 ::
      (requests.run (l.allowWithEndpoint e now).1 _).2).count true = _
    rw [List.count_cons, hrest, hgrant, List.length_cons]
    by_cases hrate : (l.limits now).1.IsFinite
    · simp only [allowedAt, hrate, if_true, F64.countdown, spend]
      by_cases hone : 1 ≤ l.level now
      · simp only [hone, if_true, decide_true, beq_self_eq_true]
      · simp only [hone, if_false, decide_false]
        rfl
    · have hnan : ¬ 1 ≤ F64.nan := fun hle => hle.2.1 rfl
      simp only [allowedAt, hrate, if_false, hnan]
      by_cases hone : 1 ≤ l.level now
      · simp only [hone, if_true, decide_true, beq_self_eq_true]
        omega
      · simp only [hone, if_false, decide_false]
        rfl

end Limiter

namespace Timeline

/-- The headers read now are right: the requests left are within the limit, and so many
more are allowed while no time passes. -/
def Consistent (s : Timeline F64) : Prop :=
  let r := s.limiter.getHeaders s.now
  0 ≤ r.2.remaining ∧ r.2.remaining ≤ r.2.limit ∧
    ∀ endpoints : List GoString,
      ((Limiter.requests.run r.1 (endpoints.map fun e => (e, s.now))).2.count true : ℤ) =
        min (endpoints.length : ℤ) r.2.remaining

variable {s : Timeline F64}

theorem consistent_iff :
    s.Consistent ↔ Settled s.limiter.tokens s.elapsed s.limits.1 s.limits.2 := by
  obtain ⟨custom, hfst, hpending⟩ := s.limiter.getHeaders_fst s.now
  have hlimits : (s.limiter.getHeaders s.now).1.limits s.now = s.limits := by
    simp only [limits, Limiter.limits, hfst, hpending s.now le_rfl]
  have hlevel : (s.limiter.getHeaders s.now).1.level s.now =
      refill s.limiter.tokens s.elapsed s.limits.1 s.limits.2 := by
    rw [level, hlimits, hfst]
    rfl
  have hremaining : (s.limiter.getHeaders s.now).2.remaining = counted s.limiter.tokens :=
    s.limiter.getHeaders_remaining s.now
  have hnonneg := counted_nonneg s.limiter.tokens
  rw [Consistent, hremaining, s.limiter.getHeaders_limit, and_iff_right hnonneg, Settled,
    ← allowedAt_iff hnonneg (counted_ne _)]
  refine and_congr_right fun _ => ?_
  simp only [Limiter.count_at, hlimits, hlevel]
  constructor
  · intro h m
    have hmany := h (List.replicate m [])
    rwa [List.length_replicate] at hmany
  · intro h endpoints
    exact h endpoints.length

/-- What an event must leave: tokens within the burst in force after it, and none of them
uncounted. A request leaves that at every finite rate. -/
def Settles (s : Timeline F64) : Event F64 → Prop
  | .advance d =>
    Settled s.limiter.tokens (GoFloat.elapsed (s.now + d) s.limiter.lastUpdate)
      (s.limiter.limits (s.now + d)).1 (s.limiter.limits (s.now + d)).2
  | .request _ =>
    s.limits.1.IsFinite ∨
      (1 ≤ s.limiter.level s.now → counted (s.limiter.level s.now - 1) = 0)
  | .setCustomConfig rate burst duration =>
    Settled (if (burst : F64) < s.limiter.tokens then (burst : F64) else s.limiter.tokens) s.elapsed
      (if 0 < duration then rate else s.limiter.rate)
      (if 0 < duration then burst else s.limiter.burst)
  | .clearCustomConfig => Settled s.limiter.tokens s.elapsed s.limiter.rate s.limiter.burst
  | .reset => Settled (s.limiter.burst : F64) 0 s.limits.1 s.limits.2
  | .getHeaders => True

/-- An event keeps the quota consistent iff it settles the tokens. -/
theorem step_consistent_iff (h : s.Consistent) (i : Event F64) :
    (s.step i).1.Consistent ↔ s.Settles i := by
  have hbefore := consistent_iff.mp h
  rw [consistent_iff]
  cases i with
  | advance d => exact Iff.rfl
  | request endpoint =>
    obtain ⟨hburst, hsettled⟩ := hbefore
    have hnow : (s.step (.request endpoint)).1.elapsed = 0 := by
      obtain ⟨-, hlast, -⟩ := s.limiter.allowWithEndpoint_eq endpoint s.now
      show GoFloat.elapsed s.now (s.limiter.allowWithEndpoint endpoint s.now).1.lastUpdate = (0 : F64)
      rw [hlast, elapsed_self]
    have htokens : (s.step (.request endpoint)).1.limiter.tokens = spend (s.limiter.level s.now) :=
      s.limiter.tokens_allowWithEndpoint endpoint s.now
    rw [limits_request, hnow, htokens]
    by_cases hrate : s.limits.1.IsFinite
    · rw [if_pos hrate] at hsettled
      exact iff_of_true (settled_spend hrate not_lt_refill hsettled.1 (hsettled.2.le.trans hburst))
        (.inl hrate)
    · rw [settled_spend_iff hrate ((counted_nonneg _).trans hburst)]
      exact (or_iff_right hrate).symm
  | setCustomConfig rate burst duration =>
    rw [limits_setCustomConfig, apply_ite Prod.fst, apply_ite Prod.snd]
    exact Iff.rfl
  | clearCustomConfig => exact Iff.rfl
  | reset =>
    have hnow : (s.step .reset).1.elapsed = 0 := elapsed_self s.now
    rw [hnow, limits_reset]
    exact Iff.rfl
  | getHeaders =>
    obtain ⟨custom, hfst, -⟩ := s.limiter.getHeaders_fst s.now
    have hsame : (s.step .getHeaders).1.limiter.tokens = s.limiter.tokens ∧
        (s.step .getHeaders).1.elapsed = s.elapsed := by
      simp only [elapsed, step, hfst, and_self]
    rw [hsame.1, hsame.2, limits_getHeaders]
    exact iff_of_true hbefore trivial

/-- The quota is consistent in every state that a run reaches iff the full limiter is settled,
and every event of the run settles the tokens. -/
theorem quota_consistent_iff (rate : F64) (burst : ℤ) (created : Time) (events : List (Event F64)) :
    (∀ n, (machine.run (start rate burst created) (events.take n)).1.Consistent) ↔
      Settled (burst : F64) 0 rate burst ∧
        machine.Along Settles (start rate burst created) events := by
  have hstart : (start rate burst created).Consistent ↔ Settled (burst : F64) 0 rate burst := by
    have hnow : (start rate burst created).elapsed = 0 := elapsed_self created
    rw [consistent_iff, hnow]
    exact Iff.rfl
  by_cases hsettled : Settled (burst : F64) 0 rate burst
  · rw [and_iff_right hsettled]
    exact @Machine.forall_take_iff_along _ _ _ machine Settles (fun _ => True) Consistent
      (fun _ _ _ => trivial) (fun _ i _ h => step_consistent_iff h i) _ trivial
      (hstart.mpr hsettled) events
  · exact iff_of_false (fun h => hsettled (hstart.mp (h 0))) fun h => hsettled h.1

/-- A client cut to a burst of five and then reset is told of ten requests. -/
theorem reset_beyond_limit : ¬ ∀ (rate : F64) (burst : ℤ) (created : Time)
    (events : List (Event F64)) (n : ℕ), 0 < rate → 0 < burst →
      (machine.run (start rate burst created) (events.take n)).1.Consistent := by
  intro h
  have hcut := h (.ofRat 10) 10 0 [.setCustomConfig (.ofRat 10) 5 3600000000000, .reset] 2
    (by decide +kernel) (by decide)
  exact absurd hcut.2.1 (by decide +kernel)

end Timeline

end Konsul.Ratelimit
