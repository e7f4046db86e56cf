import Konsul.Ratelimit.Timeline
import Mathlib.Algebra.BigOperators.Intervals

/-!
# What a limiter credits, and what was earned

A request credits the whole time since the last one at the rate in force when it comes.
Beside the limiter a ledger keeps what that time has earned: the integral of the rate
in force at each moment. Limits change at whole nanoseconds, so the integral is a sum
over the nanoseconds.
-/

namespace Konsul.Ratelimit

open GoLib

namespace Limiter

/-- The integral of the rate in force over the `d` nanoseconds from `now` on. -/
def earned (l : Limiter ℚ) (now : Time) (d : ℕ) : ℚ :=
  ∑ i ∈ Finset.range d, seconds 1 * (l.limits (now + i)).1

variable (l : Limiter ℚ) (now : Time)

theorem seconds_nat (d : ℕ) : seconds d = d * seconds 1 := by
  unfold seconds
  push_cast
  ring

theorem earned_add (d e : ℕ) : l.earned now (d + e) = l.earned now d + l.earned (now + d) e := by
  simp only [earned, Finset.sum_range_add, Nat.cast_add, add_assoc]

theorem earned_of_constant {rate : ℚ} {d : ℕ} (h : ∀ i < d, (l.limits (now + i)).1 = rate) :
    l.earned now d = seconds d * rate := by
  have hsum : l.earned now d = ∑ _i ∈ Finset.range d, seconds 1 * rate :=
    Finset.sum_congr rfl fun i hi => by rw [h i (Finset.mem_range.mp hi)]
  rw [hsum, Finset.sum_const, Finset.card_range, nsmul_eq_mul, seconds_nat d]
  ring

theorem before_iff (now e : ℤ) (i : ℕ) : now + i < e ↔ i < (e - now).toNat := by omega

/-- The custom limit in force ends within the `d` nanoseconds, or not at all. -/
theorem limits_advance (d : ℕ) :
    (∀ i ≤ d, l.limits (now + i) = l.limits now) ∨
      ∃ k, 0 < k ∧ k ≤ d ∧ (∀ i < k, l.limits (now + i) = l.limits now) ∧
        ∀ i, k ≤ i → l.limits (now + i) = (l.rate, l.burst) := by
  unfold limits pending
  cases l.customConfig with
  | none => exact .inl fun _ _ => rfl
  | some c =>
    simp only [Option.bind_some]
    have hnow : now < c.expiresAt ↔ 0 < (c.expiresAt - now).toNat := by
      rw [Int.lt_toNat, Nat.cast_zero]
      exact sub_pos.symm
    simp only [before_iff, hnow]
    generalize (c.expiresAt - now).toNat = left
    by_cases hover : left = 0 ∨ d < left
    · refine .inl fun i hi => ?_
      have hboth : i < left ↔ 0 < left := by omega
      simp only [hboth]
    · refine .inr ⟨left, by omega, by omega, fun i hi => ?_, fun i hi => ?_⟩
      · have hboth : i < left ↔ 0 < left := by omega
        simp only [hboth]
      · have hend : ¬ i < left := by omega
        simp only [hend, if_false]

end Limiter

/-- A limiter in time, and what the time since its last update has earned. -/
structure Ledger where
  timeline : Timeline ℚ
  earned : ℚ

namespace Ledger

def start (rate : ℚ) (burst : ℤ) (now : Time) : Ledger := ⟨.start rate burst now, 0⟩

/-- The limiter takes its step; a request and a reset open a new interval. -/
def step (x : Ledger) (i : Event ℚ) : Ledger × Option Bool :=
  let r := x.timeline.step i
  (⟨r.1, match i with
    | .advance d => x.earned + x.timeline.limiter.earned x.timeline.now d
    | .request _ | .reset => 0
    | _ => x.earned⟩, r.2)

def machine : Machine Ledger (Event ℚ) (Option Bool) := ⟨step⟩

/-- The tokens that a request made now finds. -/
def found (x : Ledger) (endpoint : GoString) : ℚ :=
  let r := x.timeline.limiter.allowWithEndpoint endpoint x.timeline.now
  r.1.tokens + if r.2 then 1 else 0

/-- A request made now finds the tokens of the last one and what was earned since, up to
the burst. -/
def Accrues (x : Ledger) : Prop :=
  ∀ endpoint, x.found endpoint =
    min (x.timeline.limits.2 : ℚ) (x.timeline.limiter.tokens + x.earned)

/-- What a request made now credits, before the cap, is what was earned. -/
def Priced (x : Ledger) : Prop := x.timeline.elapsed * x.timeline.limits.1 = x.earned

variable {x : Ledger}

theorem found_eq (x : Ledger) (endpoint : GoString) : x.found endpoint =
    min (x.timeline.limits.2 : ℚ)
      (x.timeline.limiter.tokens + x.timeline.elapsed * x.timeline.limits.1) := by
  have htake := x.timeline.limiter.allowWithEndpoint_take endpoint x.timeline.now
  have hpaid := TokenBucket.take_tokens (r := x.timeline.limits.1)
    (b := (x.timeline.limits.2 : ℚ)) (s := x.timeline.limiter.bucket) (seconds x.timeline.now)
  have hsame := congrArg
    (fun r : TokenBucket ℚ × Bool => r.1.tokens + if r.2 then 1 else 0) htake
  rw [Timeline.elapsed, elapsed_rat, seconds_sub]
  exact hsame.trans hpaid

theorem Priced.accrues (h : x.Priced) : x.Accrues := by
  intro endpoint
  rw [← h, found_eq]

/-- The rate in force changes only while nothing is left to credit. -/
def KeepsRate (x : Ledger) : Event ℚ → Prop
  | .advance d =>
    (x.timeline.limiter.limits (x.timeline.now + d)).1 = x.timeline.limits.1
  | .setCustomConfig rate _ duration =>
    x.timeline.now = x.timeline.limiter.lastUpdate ∨
      (if 0 < duration then rate else x.timeline.limiter.rate) = x.timeline.limits.1
  | .clearCustomConfig =>
    x.timeline.now = x.timeline.limiter.lastUpdate ∨
      x.timeline.limiter.rate = x.timeline.limits.1
  | .request _ | .reset | .getHeaders => True

/-- The last update is not in the future. -/
def Past (x : Ledger) : Prop := x.timeline.limiter.lastUpdate ≤ x.timeline.now

theorem elapsed_eq_zero_iff (s : Timeline ℚ) : s.elapsed = 0 ↔ s.now = s.limiter.lastUpdate := by
  rw [Timeline.elapsed, elapsed_rat, seconds, div_eq_zero_iff, or_iff_left (by norm_num), Int.cast_eq_zero]
  exact sub_eq_zero

theorem lastUpdate_request (s : Timeline ℚ) (endpoint : GoString) :
    (s.step (.request endpoint)).1.limiter.lastUpdate = s.now := by
  simp only [Timeline.step, Limiter.allowWithEndpoint]
  split_ifs <;> rfl

theorem lastUpdate_getHeaders (s : Timeline ℚ) :
    (s.step .getHeaders).1.limiter.lastUpdate = s.limiter.lastUpdate := by
  obtain ⟨custom, hfst, -⟩ := s.limiter.getHeaders_fst s.now
  simp only [Timeline.step, hfst]

theorem past_step (h : x.Past) (i : Event ℚ) : (x.step i).1.Past := by
  cases i with
  | advance d =>
    change x.timeline.limiter.lastUpdate ≤ x.timeline.now + d
    exact h.trans (le_add_of_nonneg_right (Int.natCast_nonneg d))
  | request endpoint => exact (lastUpdate_request x.timeline endpoint).le
  | setCustomConfig rate burst duration => exact h
  | clearCustomConfig => exact h
  | reset => exact le_refl x.timeline.now
  | getHeaders => exact (lastUpdate_getHeaders x.timeline).le.trans h

/-- Time is credited as it was earned iff the rate in force is the same at its end. -/
theorem priced_advance_iff (hpast : x.Past) (h : x.Priced) (d : ℕ) :
    (x.step (.advance d)).1.Priced ↔ x.KeepsRate (.advance d) := by
  obtain ⟨⟨l, now⟩, e⟩ := x
  have hsince : seconds (now + d - l.lastUpdate) = seconds (now - l.lastUpdate) + seconds d := by
    rw [← sub_add_eq_add_sub, seconds, Int.cast_add, add_div]
    rfl
  simp only [Priced, KeepsRate, Past, step, Timeline.step, Timeline.elapsed, elapsed_rat,
    Timeline.limits] at hpast h ⊢
  rw [← h, hsince]
  rcases l.limits_advance now d with hsame | ⟨k, hk, hkd, hbefore, hafter⟩
  · have hearned : l.earned now d = seconds d * (l.limits now).1 :=
      l.earned_of_constant now fun i hi => by rw [hsame i hi.le]
    rw [hearned, hsame d le_rfl, add_mul]
    exact iff_of_true rfl rfl
  · have hsplit : l.earned now d = seconds k * (l.limits now).1 + seconds (d - k : ℕ) * l.rate := by
      obtain ⟨e, rfl⟩ := Nat.exists_eq_add_of_le hkd
      have hfirst : l.earned now k = seconds k * (l.limits now).1 :=
        l.earned_of_constant now fun i hi => by rw [hbefore i hi]
      have hrest : l.earned (now + k) e = seconds e * l.rate := by
        refine l.earned_of_constant (now + k) fun i _ => ?_
        have hlater := hafter (k + i) (Nat.le_add_right k i)
        rw [Nat.cast_add, ← add_assoc] at hlater
        rw [hlater]
      rw [l.earned_add, hfirst, hrest, Nat.add_sub_cancel_left]
    have hparts : seconds d = seconds k + seconds (d - k : ℕ) := by
      rw [Limiter.seconds_nat, Limiter.seconds_nat k, Limiter.seconds_nat (d - k), ← add_mul,
        ← Nat.cast_add, Nat.add_sub_cancel' hkd]
    have hlate : (l.limits (now + d)).1 = l.rate := by rw [hafter d hkd]
    have hpositive : 0 < seconds (now - l.lastUpdate) + seconds k := by
      have hk0 : 0 < seconds (k : ℕ) := by
        unfold seconds
        positivity
      have hsince0 : 0 ≤ seconds (now - l.lastUpdate) := by
        unfold seconds
        have hcast : (0 : ℚ) ≤ ((now - l.lastUpdate : ℤ) : ℚ) := by
          exact_mod_cast sub_nonneg.mpr hpast
        positivity
      linarith
    rw [hsplit, hparts, hlate]
    constructor
    · intro heq
      have hzero : (seconds (now - l.lastUpdate) + seconds k) * (l.rate - (l.limits now).1) = 0 := by
        linarith
      exact sub_eq_zero.mp ((mul_eq_zero.mp hzero).resolve_left hpositive.ne')
    · intro heq
      rw [heq]
      ring

/-- Limits set at a moment leave the credit as it was earned iff the rate stays the same
or there is nothing to credit. -/
theorem priced_change_iff {x' : Ledger} (h : x.Priced) (hearned : x'.earned = x.earned)
    (helapsed : x'.timeline.elapsed = x.timeline.elapsed) :
    x'.Priced ↔ x.timeline.now = x.timeline.limiter.lastUpdate ∨
      x'.timeline.limits.1 = x.timeline.limits.1 := by
  rw [Priced, hearned, helapsed, ← h, mul_eq_mul_left_iff, elapsed_eq_zero_iff, or_comm]

theorem priced_step_iff (hpast : x.Past) (h : x.Priced) (i : Event ℚ) :
    (x.step i).1.Priced ↔ x.KeepsRate i := by
  have hfresh : ∀ x' : Ledger, x'.earned = 0 → x'.timeline.now = x'.timeline.limiter.lastUpdate →
      x'.Priced := by
    intro x' hearned hnow
    rw [Priced, hearned, (elapsed_eq_zero_iff _).mpr hnow, zero_mul]
  cases i with
  | advance d => exact priced_advance_iff hpast h d
  | request endpoint =>
    exact iff_of_true (hfresh _ rfl (lastUpdate_request x.timeline endpoint).symm) trivial
  | setCustomConfig rate burst duration =>
    have hrate : (x.timeline.step (.setCustomConfig rate burst duration)).1.limits.1 =
        if 0 < duration then rate else x.timeline.limiter.rate := by
      rw [Timeline.limits_setCustomConfig, apply_ite Prod.fst]
    rw [KeepsRate, ← hrate]
    exact priced_change_iff h rfl rfl
  | clearCustomConfig => exact priced_change_iff h rfl rfl
  | reset => exact iff_of_true (hfresh _ rfl rfl) trivial
  | getHeaders =>
    have hsame : (x.step .getHeaders).1.Priced ↔ x.Priced := by
      have helapsed : (x.timeline.step .getHeaders).1.elapsed = x.timeline.elapsed := by
        rw [Timeline.elapsed, lastUpdate_getHeaders]
        rfl
      change (x.timeline.step .getHeaders).1.elapsed * (x.timeline.step .getHeaders).1.limits.1 =
        x.earned ↔ _
      rw [helapsed, Timeline.limits_getHeaders]
      exact Iff.rfl
    exact iff_of_true (hsame.mpr h) trivial

/-- While the rate in force changes only right after a request, every request finds what
its time has earned; and only then is the credit what was earned in every state. -/
theorem tokens_accrue_at_rate (rate : ℚ) (burst : ℤ) (created : Time) (events : List (Event ℚ)) :
    (machine.Along KeepsRate (start rate burst created) events →
      ∀ n, (machine.run (start rate burst created) (events.take n)).1.Accrues) ∧
    ((∀ n, (machine.run (start rate burst created) (events.take n)).1.Priced) ↔
      machine.Along KeepsRate (start rate burst created) events) := by
  have hstart : (start rate burst created).Priced := by
    have hnow : (start rate burst created).timeline.elapsed = 0 :=
      (elapsed_eq_zero_iff _).mpr rfl
    rw [Priced, hnow, zero_mul]
    rfl
  have hpast : (start rate burst created).Past := le_refl created
  have hiff := @Machine.forall_take_iff_along _ _ _ machine KeepsRate Past Priced
    (fun _ i h => past_step h i) (fun _ i hpast h => priced_step_iff hpast h i) _ hpast hstart events
  exact ⟨fun hkeeps n => ((hiff.mpr hkeeps) n).accrues, hiff⟩

/-- A custom limit set and cleared right after a request, and one at the base rate that ends. -/
def adjusted : List (Event ℚ) :=
  [.request [], .setCustomConfig 4 5 3600000000000, .advance 500000000, .request [],
    .clearCustomConfig, .setCustomConfig 1 5 1000000000, .advance 1500000000]

theorem tokens_accrue_half_second :
    machine.Along KeepsRate (start 1 2 0) adjusted ∧
      (machine.run (start 1 2 0) (adjusted.take 3)).1.found [] = 3 ∧
      (machine.run (start 1 2 0) (adjusted.take 7)).1.Accrues := by
  have hkeeps : machine.Along KeepsRate (start 1 2 0) adjusted := by
    refine ⟨trivial, .inl ?_, ?_, trivial, .inl ?_, .inl ?_, ?_, trivial⟩
    · decide +kernel
    · unfold KeepsRate
      decide +kernel
    · decide +kernel
    · decide +kernel
    · unfold KeepsRate
      decide +kernel
  exact ⟨hkeeps, by decide +kernel, (tokens_accrue_at_rate 1 2 0 _).1 hkeeps 7⟩

/-- A bucket of two, emptied at one token a second. -/
def emptied : Ledger := (machine.run (start 1 2 0) [.request [], .request []]).1

/-- The half second before a custom limit is set is paid at the custom rate. -/
theorem custom_rate_pays_the_past : ¬ ∀ (rate : ℚ) (burst : ℤ) (created : Time)
    (events : List (Event ℚ)) (n : ℕ), 0 < rate → 0 < burst →
      (machine.run (start rate burst created) (events.take n)).1.Accrues := by
  intro h
  have hwait : (emptied.step (.advance 500000000)).1.Priced :=
    (priced_advance_iff (by unfold Past; decide +kernel) (by unfold Priced; decide +kernel) _).mpr
      (by unfold KeepsRate; decide +kernel)
  have hpaid : ((emptied.step (.advance 500000000)).1.step
      (.setCustomConfig 2 2 3600000000000)).1.Accrues :=
    h 1 2 0 [.request [], .request [], .advance 500000000, .setCustomConfig 2 2 3600000000000] 4
      (by decide) (by decide)
  have hearned : ((emptied.step (.advance 500000000)).1.step
      (.setCustomConfig 2 2 3600000000000)).1.earned =
        (emptied.step (.advance 500000000)).1.timeline.elapsed *
          (emptied.step (.advance 500000000)).1.timeline.limits.1 := hwait.symm
  have hfound := hpaid []
  rw [hearned] at hfound
  exact absurd hfound (by decide +kernel)

end Ledger

end Konsul.Ratelimit
