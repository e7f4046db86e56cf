import Konsul.Loadbalancer.Proportion

/-!
# Overflow of weights

A sum of weights past the largest `int` wraps around. The first partial sum that wraps is
negative, and then the weighted random selection cannot pick the instance it is the sum up
to, or panics.
-/

namespace Konsul

open GoLib SmoothRoundRobin

namespace Balancer

/-- A pick on this state wraps no weight: neither where a weight is added nor where the total
is subtracted. -/
def NoWrap (current ws : List ℤ) : Prop :=
  (∀ (i : ℕ) c w, current[i]? = some c → ws[i]? = some w → wrapInt (c + w) = c + w) ∧
  ∀ v, (raise current ws)[maxIdx (raise current ws)]? = some v →
    wrapInt (v - totalWeight ws) = v - totalWeight ws

/-- The weights of the instances do not overflow: both totals are the sum and positive, the
weighted random selection does not panic and can pick every instance, and the selections of
weighted round-robin wrap no current weight. -/
structure NeverOverflow (instances : List Service) : Prop where
  total : instances ≠ [] → 0 < totalWeight (instances.map extractWeight) ∧
    totalWeight (instances.map extractWeight) = (instances.map extractWeight).sum ∧
    totalWeight (instances.map positiveWeight) = (instances.map extractWeight).sum
  noPanic : ∀ draw, selectWeightedRandom draw instances ≠ none
  picked : ∀ svc ∈ instances, ∃ draw, selectWeightedRandom draw instances = some svc
  noWrap : allEqual (instances.map extractWeight) = false → ∀ b shared serviceName,
    currentWeights shared serviceName instances.length = List.replicate instances.length 0 →
    ∀ k, NoWrap (currentWeights ((weightedMachine serviceName instances).run (b, shared)
      (List.replicate k ())).1.2 serviceName instances.length) (instances.map extractWeight)

/-! ### Weighted random -/

theorem passedAt_lt {r cumulative : ℤ} {ws : List ℤ} {i : ℕ}
    (h : passedAt r cumulative ws = some i) : i < ws.length := by
  induction ws generalizing cumulative i with
  | nil => cases h
  | cons w ws ih =>
    rw [passedAt] at h
    split_ifs at h
    · cases h
      exact Nat.zero_lt_succ _
    · obtain ⟨j, hj, rfl⟩ := Option.map_eq_some_iff.mp h
      exact Nat.succ_lt_succ (ih hj)

/-- The sum of the weights before an instance picks it. -/
theorem passedAt_prefix {cumulative : ℤ} {ws : List ℤ} (hws : ∀ w ∈ ws, 0 < w)
    (hcumulative : 0 ≤ cumulative) (hsum : cumulative + ws.sum < 2 ^ 63) {i : ℕ}
    (hi : i < ws.length) : passedAt (cumulative + (ws.take i).sum) cumulative ws = some i := by
  induction ws generalizing cumulative i with
  | nil => exact absurd hi (Nat.not_lt_zero i)
  | cons w ws ih =>
    have hrest : ∀ v ∈ ws, 0 < v := fun v hv => hws v (List.mem_cons_of_mem w hv)
    have hw : 0 < w := hws w List.mem_cons_self
    have hnonneg : 0 ≤ ws.sum := List.sum_nonneg fun v hv => (hrest v hv).le
    rw [List.sum_cons] at hsum
    have hwrap : wrapInt (cumulative + w) = cumulative + w :=
      wrapInt_of_range (by omega) (by omega)
    rw [passedAt]
    simp only [hwrap]
    cases i with
    | zero =>
      rw [List.take_zero, List.sum_nil, add_zero, if_pos (by omega)]
    | succ i =>
      have htake : 0 ≤ (ws.take i).sum :=
        List.sum_nonneg fun v hv => (hrest v (List.mem_of_mem_take hv)).le
      have hnext := ih hrest (by omega : 0 ≤ cumulative + w) (by omega)
        (Nat.lt_of_succ_lt_succ hi)
      rw [List.take_succ_cons, List.sum_cons, if_neg (by omega), ← add_assoc, hnext]
      rfl

section

variable {instances : List Service}

theorem map_positiveWeight (instances : List Service) :
    instances.map positiveWeight = instances.map extractWeight :=
  List.map_congr_left fun svc _ => positiveWeight_eq svc

theorem selectRandom_eq (draw : ℕ) (hne : instances ≠ []) :
    selectRandom draw instances = instances[draw % instances.length]? := by
  have hlength : 0 < instances.length := List.length_pos_iff.mpr hne
  rw [selectRandom, intn, if_pos (by omega), Option.bind_some]
  rfl

theorem sum_pos (hne : instances ≠ []) : 0 < (instances.map extractWeight).sum :=
  List.sum_pos _ (weights_pos instances) fun h => hne (List.map_eq_nil_iff.mp h)

theorem selectWeightedRandom_eq (draw : ℕ) (hne : instances ≠ [])
    (hdiffer : allEqual (instances.map extractWeight) = false)
    (hlt : (instances.map extractWeight).sum < 2 ^ 63) : selectWeightedRandom draw instances =
      instances[(passedAt (draw % (instances.map extractWeight).sum) 0
        (instances.map extractWeight)).getD (instances.length - 1)]? := by
  have htotal := totalWeight_of_lt (weights_pos instances) hlt
  rw [selectWeightedRandom, if_neg hne]
  simp only [map_positiveWeight, hdiffer, Bool.false_eq_true, if_false]
  rw [htotal, intn, if_pos (sum_pos hne), Option.bind_some]

theorem weightedRandom_noPanic (hlt : (instances.map extractWeight).sum < 2 ^ 63) (draw : ℕ) :
    selectWeightedRandom draw instances ≠ none := by
  by_cases hne : instances = []
  · rw [selectWeightedRandom, if_pos hne]
    nofun
  have hlength : 0 < instances.length := List.length_pos_iff.mpr hne
  cases hequal : allEqual (instances.map extractWeight) with
  | true =>
    rw [selectWeightedRandom, if_neg hne]
    simp only [map_positiveWeight, hequal, if_true]
    rw [selectRandom_eq draw hne, Ne, List.getElem?_eq_none_iff, not_le]
    exact Nat.mod_lt draw hlength
  | false =>
    rw [selectWeightedRandom_eq draw hne hequal hlt, Ne, List.getElem?_eq_none_iff, not_le]
    cases hpassed : passedAt (draw % (instances.map extractWeight).sum) 0
        (instances.map extractWeight) with
    | none => exact Nat.sub_lt hlength one_pos
    | some i =>
      have hi := passedAt_lt hpassed
      rwa [List.length_map] at hi

theorem weightedRandom_picks (hlt : (instances.map extractWeight).sum < 2 ^ 63) {svc : Service}
    (hsvc : svc ∈ instances) : ∃ draw, selectWeightedRandom draw instances = some svc := by
  have hne : instances ≠ [] := List.ne_nil_of_mem hsvc
  obtain ⟨i, hi, rfl⟩ := List.getElem_of_mem hsvc
  have hi' : i < (instances.map extractWeight).length := by rwa [List.length_map]
  cases hequal : allEqual (instances.map extractWeight) with
  | true =>
    refine ⟨i, ?_⟩
    rw [selectWeightedRandom, if_neg hne]
    simp only [map_positiveWeight, hequal, if_true]
    rw [selectRandom_eq i hne, Nat.mod_eq_of_lt hi, List.getElem?_eq_getElem hi]
  | false =>
    have hpos := weights_pos instances
    have hbefore : 0 ≤ ((instances.map extractWeight).take i).sum :=
      List.sum_nonneg fun w hw => (hpos w (List.mem_of_mem_take hw)).le
    have hless : ((instances.map extractWeight).take i).sum < (instances.map extractWeight).sum := by
      have hsplit := congrArg List.sum (List.take_append_drop i (instances.map extractWeight))
      have hrest : 0 < ((instances.map extractWeight).drop i).sum :=
        List.sum_pos _ (fun w hw => hpos w (List.mem_of_mem_drop hw))
          fun hnil => absurd (List.drop_eq_nil_iff.mp hnil) (not_le.mpr hi')
      rw [List.sum_append] at hsplit
      omega
    refine ⟨((instances.map extractWeight).take i).sum.toNat, ?_⟩
    rw [selectWeightedRandom_eq _ hne hequal hlt, Int.toNat_of_nonneg hbefore,
      Int.emod_eq_of_lt hbefore hless]
    have hpassed := passedAt_prefix hpos le_rfl (by omega) hi'
    rw [zero_add] at hpassed
    rw [hpassed, Option.getD_some, List.getElem?_eq_getElem hi]

/-- Where the state is the credit after some picks, a pick wraps nothing just when no weight
that is added to reaches 2^63. -/
theorem noWrap_iff (hn : 0 < (instances.map extractWeight).length)
    (hlt : (instances.map extractWeight).sum < 2 ^ 63) (k : ℕ) :
    NoWrap (List.ofFn (credit (instances.map extractWeight).get
        (picks (instances.map extractWeight).get (pickMax hn) k))) (instances.map extractWeight) ↔
      ∀ i, credit (instances.map extractWeight).get
        (picks (instances.map extractWeight).get (pickMax hn) k) i +
          (instances.map extractWeight).get i < 2 ^ 63 := by
  have hpos := weights_pos instances
  have htotal := totalWeight_of_lt hpos hlt
  constructor
  · intro h i
    have hsame := h.1 i _ _ ((List.getElem?_ofFn).trans (dif_pos i.isLt))
      (List.getElem?_eq_getElem i.isLt)
    exact ((wrapInt_eq_iff _).mp hsame).2
  · intro h
    have hsum : 0 < ∑ i, (instances.map extractWeight).get i := by
      rw [sum_get]
      exact sum_pos (List.map_eq_nil_iff.not.mp (List.length_pos_iff.mp hn))
    have hget : ∀ i, 0 < (instances.map extractWeight).get i := fun i =>
      hpos _ (List.get_mem _ i)
    have hearned := earned_picks (picksPositive_pickMax hn) hsum k
    have hrange : ∀ i, -2 ^ 63 ≤ credit (instances.map extractWeight).get
        (picks (instances.map extractWeight).get (pickMax hn) k) i +
          (instances.map extractWeight).get i := by
      intro i
      have hlow := hearned.neg_total_lt (fun i => (hget i).le) hsum i
      have hi := hget i
      rw [sum_get] at hlow
      omega
    refine ⟨fun i c w hc hw => ?_, fun v hv => ?_⟩
    · obtain ⟨hi, rfl⟩ := List.getElem?_eq_some_iff.mp hw
      rw [List.getElem?_ofFn, dif_pos hi] at hc
      cases hc
      exact wrapInt_of_range (hrange ⟨i, hi⟩) (h ⟨i, hi⟩)
    · rw [raise_ofFn fun i => ⟨hrange i, h i⟩] at hv
      have hpicked : credit (instances.map extractWeight).get
          (picks (instances.map extractWeight).get (pickMax hn) k)
            (pickAt (instances.map extractWeight).get (pickMax hn) k) +
          (instances.map extractWeight).get
            (pickAt (instances.map extractWeight).get (pickMax hn) k) = v := by
        obtain ⟨hidx, hget⟩ := List.getElem?_eq_some_iff.mp hv
        rwa [List.getElem_ofFn] at hget
      have hcredited := picksPositive_pickMax hn (fun i => credit (instances.map extractWeight).get
        (picks (instances.map extractWeight).get (pickMax hn) k) i +
          (instances.map extractWeight).get i)
        (by rw [Finset.sum_add_distrib, sum_credit, zero_add]; exact hsum)
      have hpositive : 0 < v := hpicked ▸ hcredited
      have hhigh : v < 2 ^ 63 := hpicked ▸ h _
      have hone : 0 < (instances.map extractWeight).sum := sum_get _ ▸ hsum
      rw [htotal]
      exact wrapInt_of_range (by omega) (by omega)

/-- The weights of a list of instances do not overflow just when their sum is below 2^63 and,
where they differ, no current weight of the smooth round-robin over them reaches 2^63. -/
theorem neverOverflow_iff (instances : List Service) : NeverOverflow instances ↔
    (instances.map extractWeight).sum < 2 ^ 63 ∧
      (allEqual (instances.map extractWeight) = false → ∀ h,
        Below (instances.map extractWeight).get (pickMax h) (2 ^ 63)) := by
  have hlength : (instances.map extractWeight).length = instances.length := List.length_map _
  constructor
  · intro h
    have hlt : (instances.map extractWeight).sum < 2 ^ 63 := by
      by_cases hne : instances = []
      · rw [hne]
        decide
      · rw [← (h.total hne).2.1]
        exact (totalWeight_range _).2
    refine ⟨hlt, fun hdiffer hn k => ?_⟩
    have hzero : currentWeights ⟨∅⟩ [] instances.length = List.replicate instances.length 0 := rfl
    induction k using Nat.strong_induction_on with
    | _ k ih =>
      obtain ⟨hstate, -, -⟩ := run_weightedMachine (b := new .weightedRoundRobin) hdiffer hlt hzero
        hn k ih
      have hwrap := h.noWrap hdiffer (new .weightedRoundRobin) ⟨∅⟩ [] hzero k
      rw [hstate] at hwrap
      exact (noWrap_iff hn hlt k).mp hwrap
  · rintro ⟨hlt, hbelow⟩
    have htotal := totalWeight_of_lt (weights_pos instances) hlt
    refine ⟨fun hne => ⟨?_, htotal, ?_⟩, weightedRandom_noPanic hlt,
      fun svc hsvc => weightedRandom_picks hlt hsvc, fun hdiffer b shared serviceName hfresh k => ?_⟩
    · rw [htotal]
      exact sum_pos hne
    · rw [map_positiveWeight, htotal]
    · have hne : instances ≠ [] := by
        rintro rfl
        exact absurd hdiffer (by decide)
      have hn : 0 < (instances.map extractWeight).length := by
        rw [hlength]
        exact List.length_pos_iff.mpr hne
      obtain ⟨hstate, -, -⟩ := run_weightedMachine (b := b) hdiffer hlt hfresh hn k
        fun t _ => hbelow hdiffer hn t
      rw [hstate]
      exact (noWrap_iff hn hlt k).mpr (hbelow hdiffer hn k)

/-- Two weights that the store accepts: the total wraps, and the weighted random selection
panics. -/
theorem total_wraps : selectWeightedRandom 0 [weighted (str "api-1") (str "9223372036854775807"),
      weighted (str "api-2") (str "1")] = none ∧
    ¬ NeverOverflow [weighted (str "api-1") (str "9223372036854775807"),
      weighted (str "api-2") (str "1")] := by
  have hpanic : selectWeightedRandom 0 [weighted (str "api-1") (str "9223372036854775807"),
      weighted (str "api-2") (str "1")] = none := by
    decide +kernel
  exact ⟨hpanic, fun h => h.noPanic 0 hpanic⟩

end

end Balancer

end Konsul
