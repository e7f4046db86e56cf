import Konsul.Lib.Machine
import Konsul.Loadbalancer.Weights
import Mathlib.Algebra.BigOperators.Fin

/-!
# Shares of weighted round-robin

Selections of one service among the same instances, from a fresh weight state. As long as
the total is small enough, the weight state is the credit of each instance after the picks
so far, and the selections are those of the smooth round-robin.
-/

namespace Konsul

open GoLib SmoothRoundRobin

namespace Balancer

/-- No weight of the smooth round-robin over the weights leaves the range of an `int`. -/
structure Fits (ws : List ℤ) : Prop where
  total : ws.sum < 2 ^ 63
  below : ∀ h : 0 < ws.length, Below ws.get (pickMax h) (2 ^ 63)

/-- Selections of a service among the same instances. -/
def weightedMachine (serviceName : GoString) (instances : List Service) :
    Machine (Balancer × Shared) Unit (Option Service) :=
  ⟨fun s _ => s.1.selectWeightedRoundRobin s.2 serviceName instances⟩

section

variable {ws : List ℤ}

theorem sum_get (ws : List ℤ) : ∑ i, ws.get i = ws.sum := Fin.sum_univ_getElem ws

theorem fits_of_mul_lt (hws : ∀ w ∈ ws, 0 < w) (h : ws.length * ws.sum < 2 ^ 63) : Fits ws := by
  have hget : ∀ i, 0 ≤ ws.get i := fun i => (hws _ (List.get_mem ws i)).le
  have hnonneg : 0 ≤ ws.sum := List.sum_nonneg fun w hw => (hws w hw).le
  cases ws with
  | nil => exact ⟨by decide, fun h => absurd h (lt_irrefl 0)⟩
  | cons w ws =>
    have hlength : (1 : ℤ) ≤ (w :: ws).length := by simp
    have hsum : 0 < (w :: ws).sum := by
      have hw := hws w List.mem_cons_self
      have hrest : 0 ≤ ws.sum := List.sum_nonneg fun v hv => (hws v (List.mem_cons_of_mem w hv)).le
      rw [List.sum_cons]
      omega
    refine ⟨(le_mul_of_one_le_left hnonneg hlength).trans_lt h, fun hn => ?_⟩
    refine below_of_mul_lt (picksPositive_pickMax hn) hget ?_ ?_
    · rw [sum_get]
      exact hsum
    · rw [Fintype.card_fin, sum_get]
      exact h

/-- The state of the code is the credit after the picks, as long as everything fits. -/
theorem weights_step (hn : 0 < ws.length) (hws : ∀ w ∈ ws, 0 < w) (hlt : ws.sum < 2 ^ 63) {k : ℕ}
    (hbelow : ∀ i, credit ws.get (picks ws.get (pickMax hn) k) i + ws.get i < 2 ^ 63) :
    raise (List.ofFn (credit ws.get (picks ws.get (pickMax hn) k))) ws =
        List.ofFn (fun i => credit ws.get (picks ws.get (pickMax hn) k) i + ws.get i) ∧
      nextWeights (List.ofFn (credit ws.get (picks ws.get (pickMax hn) k))) ws =
        List.ofFn (credit ws.get (picks ws.get (pickMax hn) (k + 1))) := by
  have hget : ∀ i, 0 ≤ ws.get i := fun i => (hws _ (List.get_mem ws i)).le
  have hpick := picksPositive_pickMax hn
  have htotal : totalWeight ws = ∑ i, ws.get i := by
    rw [sum_get, totalWeight_of_lt hws hlt]
  have hsum : 0 < ∑ i, ws.get i := by
    have hle : ws.get ⟨0, hn⟩ ≤ ∑ i, ws.get i :=
      Finset.single_le_sum (fun i _ => hget i) (Finset.mem_univ _)
    have hpos := hws _ (List.get_mem ws ⟨0, hn⟩)
    omega
  have hlimit : ∑ i, ws.get i < 2 ^ 63 := by
    rw [sum_get]
    exact hlt
  have hearned := earned_picks hpick hsum k
  have hrange : ∀ i, -2 ^ 63 ≤ credit ws.get (picks ws.get (pickMax hn) k) i + ws.get i ∧
      credit ws.get (picks ws.get (pickMax hn) k) i + ws.get i < 2 ^ 63 := by
    intro i
    have hlow := hearned.neg_total_lt hget hsum i
    have hi := hget i
    exact ⟨by omega, hbelow i⟩
  refine ⟨raise_ofFn hrange, ?_⟩
  rw [nextWeights_ofFn hn hrange, picks]
  · congr 1
    funext i
    rw [credit_snoc, htotal]
  · intro i hi
    have hcredited : 0 < credit ws.get (picks ws.get (pickMax hn) k) i + ws.get i := by
      rw [hi]
      refine hpick (fun i => credit ws.get (picks ws.get (pickMax hn) k) i + ws.get i) ?_
      rw [Finset.sum_add_distrib, sum_credit, zero_add]
      exact hsum
    have hhigh := (hrange i).2
    rw [htotal]
    omega

end

section

variable {b : Balancer} {shared : Shared} {serviceName : GoString} {instances : List Service}

theorem selectWeightedRoundRobin_eq (hdiffer : allEqual (instances.map extractWeight) = false)
    (htotal : totalWeight (instances.map extractWeight) ≠ 0) :
    b.selectWeightedRoundRobin shared serviceName instances =
      ((b, ⟨shared.weightStates.insert (weightKey serviceName)
          (nextWeights (currentWeights shared serviceName instances.length)
            (instances.map extractWeight))⟩),
        instances[maxIdx (raise (currentWeights shared serviceName instances.length)
          (instances.map extractWeight))]?) := by
  have hne : instances ≠ [] := by
    rintro rfl
    exact absurd hdiffer (by decide)
  rw [selectWeightedRoundRobin, if_neg hne]
  simp only [htotal, hdiffer, Bool.false_eq_true, or_self, if_false]

theorem currentWeights_insert {state : List ℤ} {size : ℕ} (hsize : state.length = size) :
    currentWeights ⟨shared.weightStates.insert (weightKey serviceName) state⟩ serviceName size =
      state := by
  rw [currentWeights, Finmap.lookup_insert]
  simp [Option.filter, hsize]

theorem weights_pos (instances : List Service) : ∀ w ∈ instances.map extractWeight, 0 < w := by
  intro w hw
  obtain ⟨svc, -, rfl⟩ := List.mem_map.mp hw
  exact (extractWeight_range svc).1

theorem totalWeight_ne_zero (hlt : (instances.map extractWeight).sum < 2 ^ 63)
    (hn : 0 < (instances.map extractWeight).length) :
    totalWeight (instances.map extractWeight) ≠ 0 := by
  have hpos := weights_pos instances
  rw [totalWeight_of_lt hpos hlt, ← sum_get]
  refine (Finset.sum_pos (fun i _ => hpos _ (List.get_mem _ i)) ⟨⟨0, hn⟩, Finset.mem_univ _⟩).ne'

/-- After `k` selections from a fresh state in which everything fits: the state and the
selections. -/
theorem run_weightedMachine (hdiffer : allEqual (instances.map extractWeight) = false)
    (hlt : (instances.map extractWeight).sum < 2 ^ 63)
    (hfresh : currentWeights shared serviceName instances.length =
      List.replicate instances.length 0)
    (hn : 0 < (instances.map extractWeight).length) (k : ℕ)
    (hbelow : ∀ t < k, ∀ i, credit (instances.map extractWeight).get
      (picks (instances.map extractWeight).get (pickMax hn) t) i +
        (instances.map extractWeight).get i < 2 ^ 63) :
    currentWeights ((weightedMachine serviceName instances).run (b, shared)
        (List.replicate k ())).1.2 serviceName instances.length =
      List.ofFn (credit (instances.map extractWeight).get
        (picks (instances.map extractWeight).get (pickMax hn) k)) ∧
    (0 < k → ((weightedMachine serviceName instances).run (b, shared)
        (List.replicate k ())).1.2.weightStates.lookup (weightKey serviceName) =
      some (List.ofFn (credit (instances.map extractWeight).get
        (picks (instances.map extractWeight).get (pickMax hn) k)))) ∧
    ((weightedMachine serviceName instances).run (b, shared) (List.replicate k ())).2 =
      (List.range k).map fun t =>
        instances[(pickAt (instances.map extractWeight).get (pickMax hn) t).val]? := by
  have hlength : (instances.map extractWeight).length = instances.length := List.length_map _
  induction k with
  | zero =>
    refine ⟨?_, fun h => absurd h (lt_irrefl 0), rfl⟩
    refine hfresh.trans (List.ext_getElem (by simp) fun i hi hi' => ?_)
    simp [picks]
  | succ k ih =>
    obtain ⟨hstate, -, hanswers⟩ := ih fun t ht => hbelow t (Nat.lt_succ_of_lt ht)
    obtain ⟨hraise, hnext⟩ := weights_step hn (weights_pos instances) hlt (hbelow k k.lt_succ_self)
    rw [List.replicate_succ', Machine.run_snoc]
    have hstep : ∀ s, (weightedMachine serviceName instances).step s () =
        s.1.selectWeightedRoundRobin s.2 serviceName instances := fun _ => rfl
    rw [hstep, selectWeightedRoundRobin_eq hdiffer (totalWeight_ne_zero hlt hn), hstate, hraise,
      hnext]
    refine ⟨currentWeights_insert (by simp), fun _ => Finmap.lookup_insert _, ?_⟩
    rw [hanswers, List.range_succ, List.map_append]
    rfl

/-- With weights that differ and a small total, from a fresh state: the credits cancel out
after each selection, every row of as many selections as the total has each instance as often
as it weighs, and after each such round the state is zeros again. -/
theorem proportional (b : Balancer) (shared : Shared) (serviceName : GoString)
    (instances : List Service) (hdiffer : allEqual (instances.map extractWeight) = false)
    (hfits : Fits (instances.map extractWeight))
    (hfresh : currentWeights shared serviceName instances.length =
      List.replicate instances.length 0) :
    (∀ k, 0 < k → ∃ state, ((weightedMachine serviceName instances).run (b, shared)
        (List.replicate k ())).1.2.weightStates.lookup (weightKey serviceName) = some state ∧
      state.length = instances.length ∧ state.sum = 0) ∧
    (∃ chosen : ℕ → Fin instances.length,
      (∀ k, ((weightedMachine serviceName instances).run (b, shared) (List.replicate k ())).2 =
        (List.range k).map fun t => some (instances.get (chosen t))) ∧
      ∀ m i, (((List.range' m (instances.map extractWeight).sum.toNat).map chosen).count i : ℤ) =
        extractWeight (instances.get i)) ∧
    ∀ m, 0 < m → ((weightedMachine serviceName instances).run (b, shared)
        (List.replicate (m * (instances.map extractWeight).sum.toNat) ())).1.2.weightStates.lookup
          (weightKey serviceName) = some (List.replicate instances.length 0) := by
  have hlength : (instances.map extractWeight).length = instances.length := List.length_map _
  have hn : 0 < (instances.map extractWeight).length := by
    rcases instances with _ | ⟨svc, rest⟩
    · exact absurd hdiffer (by decide)
    · simp
  have hpos := weights_pos instances
  have hget : ∀ i, 0 ≤ (instances.map extractWeight).get i := fun i =>
    (hpos _ (List.get_mem _ i)).le
  have hpick := picksPositive_pickMax hn
  have hsum : 0 < (instances.map extractWeight).sum := by
    rw [← sum_get]
    exact Finset.sum_pos (fun i _ => hpos _ (List.get_mem _ i)) ⟨⟨0, hn⟩, Finset.mem_univ _⟩
  have htotal : ∑ i, (instances.map extractWeight).get i =
      ((instances.map extractWeight).sum.toNat : ℤ) := by
    rw [sum_get, Int.toNat_of_nonneg hsum.le]
  have htotalPos : 0 < (instances.map extractWeight).sum.toNat := by omega
  have hrun := fun k => run_weightedMachine (b := b) hdiffer hfits.total hfresh hn k
    fun t _ => hfits.below hn t
  refine ⟨fun k hk => ⟨_, (hrun k).2.1 hk, ?_, ?_⟩, ⟨fun t => Fin.cast hlength
    (pickAt (instances.map extractWeight).get (pickMax hn) t), fun k => ?_, fun m i => ?_⟩,
    fun m hm => ?_⟩
  · rw [List.length_ofFn, hlength]
  · rw [List.sum_ofFn, sum_credit]
  · rw [(hrun k).2.2]
    refine List.map_congr_left fun t _ => ?_
    exact List.getElem?_eq_getElem (Fin.cast hlength
      (pickAt (instances.map extractWeight).get (pickMax hn) t)).isLt
  · have hcount := count_window hpick hget htotalPos htotal m (Fin.cast hlength.symm i)
    have hmap : (List.range' m (instances.map extractWeight).sum.toNat).map (fun t =>
        Fin.cast hlength (pickAt (instances.map extractWeight).get (pickMax hn) t)) =
        ((List.range' m (instances.map extractWeight).sum.toNat).map
          (pickAt (instances.map extractWeight).get (pickMax hn))).map (Fin.cast hlength) := by
      rw [List.map_map]
      rfl
    have hi : i = Fin.cast hlength (Fin.cast hlength.symm i) := rfl
    rw [hmap, hi, List.count_map_of_injective _ _ (Fin.cast_injective hlength), hcount]
    simp
  · rw [(hrun _).2.1 (Nat.mul_pos hm htotalPos)]
    congr 1
    refine List.ext_getElem (by simp) fun i hi hi' => ?_
    simp only [List.getElem_ofFn, List.getElem_replicate]
    exact credit_picks_mul hpick hget htotalPos htotal m _

/-- An instance with a weight in its metadata. -/
def weighted (name weight : GoString) : Service :=
  ⟨name, str "10.0.0.1", 8080, [], (∅ : GoMap GoString GoString).insert (str "weight") weight, []⟩

theorem proportional_six : ((weightedMachine (str "service:api") [weighted (str "api-1") (str "1"),
      weighted (str "api-2") (str "3"), weighted (str "api-3") (str "2")]).run
        (new .weightedRoundRobin, ⟨∅⟩) (List.replicate 6 ())).1.2.weightStates.lookup
          (weightKey (str "service:api")) = some [0, 0, 0] := by
  have hweights : [weighted (str "api-1") (str "1"), weighted (str "api-2") (str "3"),
      weighted (str "api-3") (str "2")].map extractWeight = [1, 3, 2] := by decide
  have hfits : Fits ([weighted (str "api-1") (str "1"), weighted (str "api-2") (str "3"),
      weighted (str "api-3") (str "2")].map extractWeight) := by
    refine fits_of_mul_lt (weights_pos _) ?_
    rw [hweights]
    decide
  have h := (proportional (new .weightedRoundRobin) ⟨∅⟩ (str "service:api") _
    (by rw [hweights]; decide) hfits rfl).2.2 1 one_pos
  rw [hweights] at h
  exact h

end

end Balancer

end Konsul
