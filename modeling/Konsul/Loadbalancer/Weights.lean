import Konsul.Lib.RoundRobin
import Konsul.Loadbalancer.Balancer

/-!
# Weights

The weights of a list of instances and the smooth round-robin over them, as the code has it
in machine integers and as it is in unbounded ones. While nothing leaves the range of an
`int` the two are the same.
-/

namespace Konsul

open GoLib SmoothRoundRobin

/-! ### The weight of an instance -/

theorem atoi_le {s : Bytes} {n : ℤ} (h : atoi s = some n) : n < 2 ^ 63 := by
  have hunsigned : ∀ (digits : Bytes) (limit : ℕ) (n : ℤ),
      (if digits ≠ [] ∧ digits.all isDigit ∧ decimalValue digits ≤ limit then
        some (decimalValue digits : ℤ) else none) = some n → 0 ≤ n ∧ n ≤ limit := by
    intro digits limit n h
    split_ifs at h with hcond
    cases h
    exact ⟨Int.natCast_nonneg _, Int.ofNat_le.mpr hcond.2.2⟩
  unfold atoi at h
  simp only at h
  split at h
  · have hle := (hunsigned _ _ _ h).2
    omega
  · obtain ⟨m, hm, rfl⟩ := Option.map_eq_some_iff.mp h
    have hpos := (hunsigned _ _ _ hm).1
    omega
  · have hle := (hunsigned _ _ _ h).2
    omega

theorem extractWeight_range (svc : Service) :
    0 < extractWeight svc ∧ extractWeight svc < 2 ^ 63 := by
  unfold extractWeight
  cases svc.metadata.lookup (str "weight") with
  | none => decide
  | some weightStr =>
    cases hweight : atoi weightStr with
    | none => simp only [hweight]; decide
    | some weight =>
      have hlt := atoi_le hweight
      simp only [hweight]
      split_ifs with hle
      · decide
      · exact ⟨not_le.mp hle, hlt⟩

theorem positiveWeight_eq (svc : Service) : positiveWeight svc = extractWeight svc :=
  if_neg (not_le.mpr (extractWeight_range svc).1)

/-! ### The total -/

theorem totalWeight_snoc (ws : List ℤ) (w : ℤ) :
    totalWeight (ws ++ [w]) = wrapInt (totalWeight ws + w) := by
  rw [totalWeight, List.foldl_append]
  rfl

theorem totalWeight_of_lt {ws : List ℤ} (hws : ∀ w ∈ ws, 0 < w) (h : ws.sum < 2 ^ 63) :
    totalWeight ws = ws.sum := by
  induction ws using List.reverseRecOn with
  | nil => rfl
  | append_singleton ws w ih =>
    have hold : ∀ v ∈ ws, 0 < v := fun v hv => hws v (List.mem_append_left _ hv)
    have hw : 0 < w := hws w (List.mem_append_right _ (List.mem_singleton_self w))
    have hnonneg : 0 ≤ ws.sum := List.sum_nonneg fun v hv => (hold v hv).le
    rw [List.sum_append, List.sum_singleton] at h ⊢
    rw [totalWeight_snoc, ih hold (by omega), wrapInt_of_range (by omega) h]

theorem totalWeight_range (ws : List ℤ) : -2 ^ 63 ≤ totalWeight ws ∧ totalWeight ws < 2 ^ 63 := by
  induction ws using List.reverseRecOn with
  | nil => decide
  | append_singleton ws w _ =>
    rw [totalWeight_snoc]
    exact wrapInt_range _

/-! ### The greatest of a list -/

namespace Balancer

/-- What the loop knows about the weights it has seen. -/
theorem maxRound_spec (l : List ℤ) : (∀ x ∈ l, x ≤ (l.zipIdx.foldl maxRound (0, -2 ^ 31)).2) ∧
    -2 ^ 31 ≤ (l.zipIdx.foldl maxRound (0, -2 ^ 31)).2 ∧
    (l[(l.zipIdx.foldl maxRound (0, -2 ^ 31)).1]? = some (l.zipIdx.foldl maxRound (0, -2 ^ 31)).2 ∨
      (l.zipIdx.foldl maxRound (0, -2 ^ 31)) = (0, -2 ^ 31)) := by
  induction l using List.reverseRecOn with
  | nil => exact ⟨fun x hx => absurd hx List.not_mem_nil, le_rfl, .inr rfl⟩
  | append_singleton l x ih =>
    have hfold : (l ++ [x]).zipIdx.foldl maxRound (0, -2 ^ 31) =
        maxRound (l.zipIdx.foldl maxRound (0, -2 ^ 31)) (x, l.length) := by
      rw [List.zipIdx_append, List.foldl_append, Nat.zero_add]
      rfl
    rw [hfold]
    generalize l.zipIdx.foldl maxRound (0, -2 ^ 31) = best at ih
    obtain ⟨hall, hlow, hat⟩ := ih
    unfold maxRound
    by_cases hx : x > best.2
    · simp only [if_pos hx]
      refine ⟨fun y hy => ?_, by omega, .inl ?_⟩
      · rcases List.mem_append.mp hy with hy | hy
        · exact (hall y hy).trans hx.le
        · exact (List.mem_singleton.mp hy).le
      · rw [List.getElem?_append_right le_rfl, Nat.sub_self]
        rfl
    · simp only [if_neg hx]
      refine ⟨fun y hy => ?_, hlow, ?_⟩
      · rcases List.mem_append.mp hy with hy | hy
        · exact hall y hy
        · rw [List.mem_singleton.mp hy]
          exact not_lt.mp hx
      · rcases hat with hat | hat
        · left
          rw [List.getElem?_append_left (List.getElem?_eq_some_iff.mp hat).1]
          exact hat
        · exact .inr hat

theorem maxIdx_lt {l : List ℤ} (h : 0 < l.length) : maxIdx l < l.length := by
  obtain ⟨-, -, hat | hat⟩ := maxRound_spec l
  · exact (List.getElem?_eq_some_iff.mp hat).1
  · rw [maxIdx, hat]
    exact h

/-- Where something is positive, what stands at `maxIdx` is. -/
theorem getElem?_maxIdx_pos {l : List ℤ} {x : ℤ} (hx : x ∈ l) (hpos : 0 < x) :
    ∃ v, l[maxIdx l]? = some v ∧ 0 < v := by
  obtain ⟨hall, -, hat | hat⟩ := maxRound_spec l
  · exact ⟨_, hat, hpos.trans_le (hall x hx)⟩
  · have hle := hall x hx
    rw [hat] at hle
    exact absurd (hpos.trans_le hle) (by decide)

/-- The code's pick as a rule on weights by their index. -/
def pickMax {n : ℕ} (hn : 0 < n) (r : Fin n → ℤ) : Fin n :=
  ⟨maxIdx (List.ofFn r), by
    have hlt := maxIdx_lt (l := List.ofFn r) (by rwa [List.length_ofFn])
    rwa [List.length_ofFn] at hlt⟩

theorem picksPositive_pickMax {n : ℕ} (hn : 0 < n) : PicksPositive (pickMax hn) := by
  intro r hsum
  have hsome : ∃ i, 0 < r i := by
    by_contra hnone
    have hall : ∀ i ∈ (Finset.univ : Finset (Fin n)), r i ≤ 0 := fun i _ =>
      not_lt.mp fun hi => hnone ⟨i, hi⟩
    exact absurd (Finset.sum_nonpos hall) (not_le.mpr hsum)
  obtain ⟨i, hi⟩ := hsome
  obtain ⟨v, hv, hpos⟩ := getElem?_maxIdx_pos ((List.mem_ofFn' r (r i)).mpr ⟨i, rfl⟩) hi
  obtain ⟨hlt, hget⟩ := List.getElem?_eq_some_iff.mp hv
  rw [List.getElem_ofFn] at hget
  have hpick : r (pickMax hn r) = v := hget
  rw [hpick]
  exact hpos

/-! ### A pick in machine integers -/

variable {ws : List ℤ}

theorem raise_ofFn {c : Fin ws.length → ℤ}
    (h : ∀ i, -2 ^ 63 ≤ c i + ws.get i ∧ c i + ws.get i < 2 ^ 63) :
    raise (List.ofFn c) ws = List.ofFn fun i => c i + ws.get i := by
  refine List.ext_getElem (by simp [raise]) fun i hi hi' => ?_
  simp only [raise, List.getElem_zipWith, List.getElem_ofFn]
  rw [List.length_ofFn] at hi'
  exact wrapInt_of_range (h ⟨i, hi'⟩).1 (h ⟨i, hi'⟩).2

theorem nextWeights_ofFn (hn : 0 < ws.length) {c : Fin ws.length → ℤ}
    (h : ∀ i, -2 ^ 63 ≤ c i + ws.get i ∧ c i + ws.get i < 2 ^ 63)
    (hpay : ∀ i, i = pickMax hn (fun i => c i + ws.get i) →
      -2 ^ 63 ≤ c i + ws.get i - totalWeight ws ∧ c i + ws.get i - totalWeight ws < 2 ^ 63) :
    nextWeights (List.ofFn c) ws = List.ofFn fun i => c i + ws.get i -
      if i = pickMax hn (fun i => c i + ws.get i) then totalWeight ws else 0 := by
  unfold nextWeights
  rw [raise_ofFn h]
  refine List.ext_getElem (by simp) fun i hi hi' => ?_
  rw [List.length_ofFn] at hi'
  simp only [List.getElem_modify, List.getElem_ofFn]
  have hat : maxIdx (List.ofFn fun i => c i + ws.get i) = i ↔
      (⟨i, hi'⟩ : Fin ws.length) = pickMax hn fun i => c i + ws.get i := by
    rw [Fin.ext_iff, eq_comm]
    rfl
  by_cases hpick : (⟨i, hi'⟩ : Fin ws.length) = pickMax hn fun i => c i + ws.get i
  · rw [if_pos (hat.mpr hpick), if_pos hpick]
    exact wrapInt_of_range (hpay _ hpick).1 (hpay _ hpick).2
  · rw [if_neg fun h => hpick (hat.mp h), if_neg hpick, sub_zero]

end Balancer

end Konsul
