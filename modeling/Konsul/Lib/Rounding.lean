import Konsul.Lib.Float64
import Mathlib.Algebra.Order.Floor.Ring
import Mathlib.Data.Int.Log
import Mathlib.Data.Rat.Floor
import Mathlib.Tactic.Linarith
import Mathlib.Tactic.Ring

/-!
# The arithmetic of float64

A `float64` is a rational number of the form `n * 2 ^ e` with 53 bits for `n`, or infinite,
or not a number; an operation rounds to the nearest one. `Float64.round` keeps the order,
and what needs no rounding. A number up to 2 ^ 53 is counted down exactly (`countdown_eq`);
from 2 ^ 53 + 4 on it is itself again when one is taken off.
-/

namespace GoLib

/-! ### The nearest integer -/

/-- No integer is nearer to `x`; of two the even one. -/
structure Nearest (x : ℚ) (n : ℤ) : Prop where
  low : 2 * x - 1 ≤ 2 * n
  high : 2 * n ≤ 2 * x + 1
  even : 2 * (n : ℚ) = 2 * x - 1 ∨ 2 * (n : ℚ) = 2 * x + 1 → n % 2 = 0

namespace Nearest

variable {x y : ℚ} {m n : ℤ}

theorem mono (hx : Nearest x m) (hy : Nearest y n) (h : x ≤ y) : m ≤ n := by
  by_contra hlt
  have hle : n + 1 ≤ m := by omega
  have hcast : (n : ℚ) + 1 ≤ m := by exact_mod_cast hle
  have hhigh := hx.high
  have hlow := hy.low
  -- both are halfway, so both integers are even
  have hm := hx.even (Or.inr (by linarith))
  have hn := hy.even (Or.inl (by linarith))
  have hnext : m ≤ n + 1 := by
    have hq : (m : ℚ) ≤ n + 1 := by linarith
    exact_mod_cast hq
  omega

theorem intCast (n : ℤ) : Nearest (n : ℚ) n where
  low := by linarith
  high := by linarith
  even h := by
    rcases h with h | h <;> linarith

theorem neg (h : Nearest x n) : Nearest (-x) (-n) where
  low := by
    push_cast
    linarith [h.high]
  high := by
    push_cast
    linarith [h.low]
  even h' := by
    push_cast at h'
    have hn := h.even (h'.symm.imp (fun h => by linarith) fun h => by linarith)
    omega

theorem le_intCast (h : Nearest x m) (hle : x ≤ n) : m ≤ n := h.mono (intCast n) hle

theorem intCast_le (h : Nearest x m) (hle : (n : ℚ) ≤ x) : n ≤ m := (intCast n).mono h hle

end Nearest

namespace Float64

theorem nearest_halfEven (num : ℕ) {den : ℕ} (hden : 0 < den) :
    Nearest (num / den : ℚ) (halfEven num den : ℤ) := by
  have hpos : (0 : ℚ) < den := by exact_mod_cast hden
  have hsplit : (num : ℚ) = den * (num / den : ℕ) + (num % den : ℕ) := by
    exact_mod_cast (Nat.div_add_mod num den).symm
  have hx : (num / den : ℚ) = (num / den : ℕ) + (num % den : ℕ) / (den : ℚ) := by
    rw [hsplit]
    field_simp
  have hrest : ((num % den : ℕ) : ℚ) / den < 1 := by
    rw [div_lt_one hpos]
    exact_mod_cast Nat.mod_lt num hden
  have hrest0 : (0 : ℚ) ≤ ((num % den : ℕ) : ℚ) / den := by positivity
  have habove : (1 : ℚ) < 2 * (((num % den : ℕ) : ℚ) / den) ↔ den < 2 * (num % den) := by
    rw [mul_div_assoc', lt_div_iff₀ hpos, one_mul]
    exact_mod_cast Iff.rfl
  have hhalf : 2 * (((num % den : ℕ) : ℚ) / den) = 1 ↔ 2 * (num % den) = den := by
    rw [mul_div_assoc', div_eq_one_iff_eq hpos.ne']
    exact_mod_cast Iff.rfl
  clear hsplit
  rw [hx]
  generalize ((num % den : ℕ) : ℚ) / den = t at *
  unfold halfEven
  simp only
  generalize num / den = a
  split_ifs with hup
  · have ht : 1 ≤ 2 * t := by
      rcases hup with h | h
      · exact (habove.mpr h).le
      · exact (hhalf.mpr h.1).ge
    constructor
    · push_cast
      linarith
    · push_cast
      linarith
    · intro h
      push_cast at h
      have hexact : 2 * t = 1 := by
        rcases h with h | h <;> linarith
      rcases hup with h | h
      · have := habove.mpr h
        linarith
      · push_cast
        omega
  · rw [not_or, ← habove, ← hhalf, not_lt] at hup
    constructor
    · push_cast
      linarith
    · push_cast
      linarith
    · intro h
      push_cast at h
      have hexact : 2 * t = 1 := by
        rcases h with h | h <;> linarith
      have hodd : ¬ a % 2 = 1 := fun hodd => hup.2 ⟨hexact, hodd⟩
      omega

theorem scaled_eq (num : ℕ) {base den : ℕ} (hbase : 0 < base) (hden : 0 < den) (e : ℤ) :
    ((scaled base num den e).1 : ℚ) / (scaled base num den e).2 = num / den * (base : ℚ) ^ e ∧
      0 < (scaled base num den e).2 := by
  have hb : (base : ℚ) ≠ 0 := by exact_mod_cast hbase.ne'
  have hd : (den : ℚ) ≠ 0 := by exact_mod_cast hden.ne'
  unfold scaled
  split_ifs with h
  · refine ⟨?_, hden⟩
    have hpow : (base : ℚ) ^ e = (base : ℚ) ^ e.toNat := by
      rw [← zpow_natCast, Int.toNat_of_nonneg h]
    rw [hpow]
    push_cast
    field_simp
  · refine ⟨?_, by positivity⟩
    have hpow : (base : ℚ) ^ e = ((base : ℚ) ^ (-e).toNat)⁻¹ := by
      rw [← zpow_natCast, Int.toNat_of_nonneg (by omega), zpow_neg, inv_inv]
    rw [hpow]
    push_cast
    field_simp

/-- The exponent found from the logarithms of the parts is that of the fraction. -/
theorem logFrom_eq {num den : ℕ} (hnum : 0 < num) (hden : 0 < den) :
    logFrom 2 num den ((Nat.log2 num : ℤ) - Nat.log2 den) = Int.log 2 (num / den : ℚ) := by
  have hx : (0 : ℚ) < num / den := by positivity
  have htwo : (0 : ℚ) < 2 := two_pos
  set d : ℤ := (Nat.log2 num : ℤ) - Nat.log2 den with hd
  have hnumLow : (2 : ℚ) ^ (Nat.log2 num : ℤ) ≤ num := by
    rw [zpow_natCast]
    exact_mod_cast Nat.log2_self_le hnum.ne'
  have hnumHigh : (num : ℚ) < 2 ^ ((Nat.log2 num : ℤ) + 1) := by
    rw [← Nat.cast_succ, zpow_natCast]
    exact_mod_cast Nat.lt_log2_self
  have hdenLow : (2 : ℚ) ^ (Nat.log2 den : ℤ) ≤ den := by
    rw [zpow_natCast]
    exact_mod_cast Nat.log2_self_le hden.ne'
  have hdenHigh : (den : ℚ) < 2 ^ ((Nat.log2 den : ℤ) + 1) := by
    rw [← Nat.cast_succ, zpow_natCast]
    exact_mod_cast Nat.lt_log2_self
  have hdenPos : (0 : ℚ) < den := by exact_mod_cast hden
  have hlow : (2 : ℚ) ^ (d - 1) ≤ num / den := by
    rw [le_div_iff₀ hdenPos]
    calc (2 : ℚ) ^ (d - 1) * den ≤ 2 ^ (d - 1) * 2 ^ ((Nat.log2 den : ℤ) + 1) :=
          mul_le_mul_of_nonneg_left hdenHigh.le (zpow_pos htwo _).le
      _ = 2 ^ (Nat.log2 num : ℤ) := by
          rw [← zpow_add₀ htwo.ne']
          congr 1
          omega
      _ ≤ num := hnumLow
  have hhigh : (num / den : ℚ) < 2 ^ (d + 1) := by
    rw [div_lt_iff₀ hdenPos]
    calc (num : ℚ) < 2 ^ ((Nat.log2 num : ℤ) + 1) := hnumHigh
      _ = 2 ^ (d + 1) * 2 ^ (Nat.log2 den : ℤ) := by
          rw [← zpow_add₀ htwo.ne']
          congr 1
          omega
      _ ≤ 2 ^ (d + 1) * den := mul_le_mul_of_nonneg_left hdenLow (zpow_pos htwo _).le
  obtain ⟨hscaled, hpos⟩ := scaled_eq num two_pos hden (-d)
  have hposQ : (0 : ℚ) < (scaled 2 num den (-d)).2 := by exact_mod_cast hpos
  have hless : (scaled 2 num den (-d)).1 < (scaled 2 num den (-d)).2 ↔ (num / den : ℚ) < 2 ^ d := by
    rw [← Nat.cast_lt (α := ℚ), ← div_lt_one hposQ, hscaled, zpow_neg, Nat.cast_ofNat,
      ← div_eq_mul_inv, div_lt_one (zpow_pos htwo d)]
  have hbase : ((2 : ℕ) : ℚ) = 2 := Nat.cast_ofNat
  have hlog {l : ℤ} (hlow : (2 : ℚ) ^ l ≤ num / den) (hhigh : (num / den : ℚ) < 2 ^ (l + 1)) :
      Int.log 2 (num / den : ℚ) = l := by
    have hle := (Int.zpow_le_iff_le_log (b := 2) one_lt_two hx).mp (by rwa [hbase])
    have hlt := (Int.lt_zpow_iff_log_lt (b := 2) one_lt_two hx).mp (by rwa [hbase])
    omega
  unfold logFrom
  simp only [hless]
  split_ifs with h
  · refine (hlog hlow ?_).symm
    rwa [sub_add_cancel]
  · exact (hlog (not_lt.mp h) hhigh).symm

/-- The rational number it stands for. -/
def value (f : Float64) : ℚ := f.mantissa * 2 ^ f.exponent

/-- The last place of the numbers of the size of `x`. -/
def grid (x : ℚ) : ℤ := max (-1074) (Int.log 2 |x| - 52)

theorem ofRatio_spec {num den : ℕ} (hnum : 0 < num) (hden : 0 < den) :
    ∃ n : ℤ, Nearest (num / den / 2 ^ grid (num / den)) n ∧
      (ofRatio num den).value = n * 2 ^ grid (num / den) := by
  have habs : |(num / den : ℚ)| = num / den := abs_of_nonneg (by positivity)
  have hgrid : max (-1074) (logFrom 2 num den ((Nat.log2 num : ℤ) - Nat.log2 den) - 52) =
      grid (num / den) := by
    rw [grid, habs, logFrom_eq hnum hden]
  obtain ⟨hscaled, hpos⟩ := scaled_eq num two_pos hden (-grid (num / den))
  have hnearest := nearest_halfEven (scaled 2 num den (-grid (num / den))).1 hpos
  rw [hscaled, zpow_neg, Nat.cast_ofNat, ← div_eq_mul_inv] at hnearest
  refine ⟨_, hnearest, ?_⟩
  unfold ofRatio value
  simp only [hgrid]
  split_ifs with h
  · rw [h, zpow_add₀ two_ne_zero]
    push_cast
    ring
  · push_cast
    ring

/-! ### Rounding -/

/-- The nearest float64, as long as its exponent has a place. -/
def round (x : ℚ) : ℚ :=
  if x < 0 then -(ofRatio x.num.natAbs x.den).value else (ofRatio x.num.natAbs x.den).value

variable {x y r : ℚ}

theorem grid_pos (x : ℚ) : (0 : ℚ) < 2 ^ grid x := zpow_pos two_pos _

theorem round_zero : round 0 = 0 := by decide +kernel

/-- 53 bits hold a number in its last places. -/
theorem abs_le_grid (x : ℚ) : |x| ≤ 2 ^ 53 * 2 ^ grid x := by
  have hlt := Int.lt_zpow_succ_log_self (b := 2) one_lt_two |x|
  rw [Nat.cast_ofNat] at hlt
  have hbits : (2 : ℚ) ^ 53 * 2 ^ grid x = 2 ^ (53 + grid x) := by
    rw [zpow_add₀ two_ne_zero]
    norm_num
  rw [hbits]
  refine hlt.le.trans (zpow_le_zpow_right₀ one_le_two ?_)
  unfold grid
  omega

theorem round_spec (x : ℚ) :
    ∃ n : ℤ, Nearest (x / 2 ^ grid x) n ∧ round x = n * 2 ^ grid x := by
  have hratio (hx : x ≠ 0) : ∃ n : ℤ, Nearest (|x| / 2 ^ grid x) n ∧
      (ofRatio x.num.natAbs x.den).value = n * 2 ^ grid x := by
    have hnum : 0 < x.num.natAbs := Int.natAbs_pos.mpr (Rat.num_ne_zero.mpr hx)
    have habs : (x.num.natAbs : ℚ) / x.den = |x| := by
      rw [Nat.cast_natAbs, Int.cast_abs, ← abs_of_pos (Nat.cast_pos.mpr x.den_pos : (0 : ℚ) < x.den),
        ← abs_div, Rat.num_div_den]
    have hspec := ofRatio_spec hnum x.den_pos
    have hgrid : grid |x| = grid x := by rw [grid, abs_abs, grid]
    rwa [habs, hgrid] at hspec
  rcases lt_trichotomy x 0 with hneg | rfl | hpos
  · obtain ⟨n, hnearest, hvalue⟩ := hratio hneg.ne
    refine ⟨-n, ?_, ?_⟩
    · have h := hnearest.neg
      rwa [abs_of_neg hneg, ← neg_div, neg_neg] at h
    · rw [round, if_pos hneg, hvalue]
      push_cast
      ring
  · refine ⟨0, ?_, ?_⟩
    · have h := Nearest.intCast 0
      rwa [Int.cast_zero, ← zero_div ((2 : ℚ) ^ grid 0)] at h
    · rw [Int.cast_zero, zero_mul, round_zero]
  · obtain ⟨n, hnearest, hvalue⟩ := hratio hpos.ne'
    rw [abs_of_pos hpos] at hnearest
    exact ⟨n, hnearest, by rw [round, if_neg hpos.not_gt, hvalue]⟩

theorem round_neg (x : ℚ) : round (-x) = -round x := by
  rcases lt_trichotomy x 0 with hneg | rfl | hpos
  · rw [round, round, Rat.num_neg_eq_neg_num, Int.natAbs_neg, Rat.den_neg_eq_den,
      if_neg (by linarith), if_pos hneg, neg_neg]
  · rw [neg_zero, round_zero, neg_zero]
  · rw [round, round, Rat.num_neg_eq_neg_num, Int.natAbs_neg, Rat.den_neg_eq_den,
      if_pos (by linarith), if_neg (by linarith)]

/-- A bound among the multiples of the last place is kept. -/
theorem round_le_of_le {k : ℤ} (hr : r = k * 2 ^ grid x) (h : x ≤ r) : round x ≤ r := by
  obtain ⟨n, hnearest, hround⟩ := round_spec x
  have hpos := grid_pos x
  have hle : n ≤ k := hnearest.le_intCast ((div_le_iff₀ hpos).mpr (hr ▸ h))
  rw [hround, hr]
  exact mul_le_mul_of_nonneg_right (by exact_mod_cast hle) hpos.le

theorem le_round_of_le {k : ℤ} (hr : r = k * 2 ^ grid x) (h : r ≤ x) : r ≤ round x := by
  obtain ⟨n, hnearest, hround⟩ := round_spec x
  have hpos := grid_pos x
  have hle : k ≤ n := hnearest.intCast_le ((le_div_iff₀ hpos).mpr (hr ▸ h))
  rw [hround, hr]
  exact mul_le_mul_of_nonneg_right (by exact_mod_cast hle) hpos.le

theorem round_of_multiple {k : ℤ} (hx : x = k * 2 ^ grid x) : round x = x :=
  le_antisymm (round_le_of_le hx le_rfl) (le_round_of_le hx le_rfl)

/-- A power of two is a multiple of every smaller one. -/
theorem zpow_eq_mul {g e : ℤ} (h : g ≤ e) : (2 : ℚ) ^ e = ((2 ^ (e - g).toNat : ℤ) : ℚ) * 2 ^ g := by
  have hnat : ((2 ^ (e - g).toNat : ℤ) : ℚ) = (2 : ℚ) ^ (e - g) := by
    rw [Int.cast_pow, Int.cast_ofNat, ← zpow_natCast, Int.toNat_of_nonneg (by omega)]
  rw [hnat, ← zpow_add₀ two_ne_zero, sub_add_cancel]

theorem round_nonneg (h : 0 ≤ x) : 0 ≤ round x :=
  le_round_of_le (k := 0) (by rw [Int.cast_zero, zero_mul]) h

theorem round_nonpos (h : x ≤ 0) : round x ≤ 0 :=
  round_le_of_le (k := 0) (by rw [Int.cast_zero, zero_mul]) h

theorem round_mono_of_pos (hx : 0 < x) (h : x ≤ y) : round x ≤ round y := by
  have hy : 0 < y := hx.trans_le h
  have hlog : Int.log 2 x ≤ Int.log 2 y := Int.log_mono_right hx h
  have hgx : grid x = max (-1074) (Int.log 2 x - 52) := by rw [grid, abs_of_pos hx]
  have hgy : grid y = max (-1074) (Int.log 2 y - 52) := by rw [grid, abs_of_pos hy]
  by_cases hsame : grid x = grid y
  · obtain ⟨m, hm, hroundx⟩ := round_spec x
    obtain ⟨n, hn, hroundy⟩ := round_spec y
    rw [hsame] at hm hroundx
    have hpos := grid_pos y
    have hle : m ≤ n := hm.mono hn (div_le_div_of_nonneg_right h hpos.le)
    rw [hroundx, hroundy]
    exact mul_le_mul_of_nonneg_right (by exact_mod_cast hle) hpos.le
  · -- a power of two lies between them
    have hless : Int.log 2 x < Int.log 2 y := by omega
    have hbase : ((2 : ℕ) : ℚ) = 2 := Nat.cast_ofNat
    have hbelow : x ≤ 2 ^ Int.log 2 y := by
      have hlt := (Int.lt_zpow_iff_log_lt (b := 2) one_lt_two hx).mpr hless
      rw [hbase] at hlt
      exact hlt.le
    have habove : (2 : ℚ) ^ Int.log 2 y ≤ y := by
      have hle := Int.zpow_log_le_self (b := 2) one_lt_two hy
      rwa [hbase] at hle
    have hroundx : round x ≤ 2 ^ Int.log 2 y :=
      round_le_of_le (zpow_eq_mul (show grid x ≤ Int.log 2 y by omega)) hbelow
    have hroundy : (2 : ℚ) ^ Int.log 2 y ≤ round y :=
      le_round_of_le (zpow_eq_mul (show grid y ≤ Int.log 2 y by omega)) habove
    exact hroundx.trans hroundy

theorem round_mono (h : x ≤ y) : round x ≤ round y := by
  rcases lt_or_ge 0 x with hx | hx
  · exact round_mono_of_pos hx h
  · rcases lt_or_ge y 0 with hy | hy
    · have hneg := round_mono_of_pos (x := -y) (y := -x) (by linarith) (by linarith)
      rw [round_neg, round_neg] at hneg
      linarith
    · exact (round_nonpos hx).trans (round_nonneg hy)

/-- What 53 bits hold needs no rounding. -/
theorem round_of_mul_zpow {m k : ℤ} (hx : x = m * 2 ^ k) (hm : |m| ≤ 2 ^ 53) (hk : -1074 ≤ k) :
    round x = x := by
  have hshort {m k : ℤ} (hx : x = m * 2 ^ k) (hm : |m| < 2 ^ 53) (hk : -1074 ≤ k) :
      round x = x := by
    by_cases hzero : x = 0
    · rw [hzero, round_zero]
    · have hpos : 0 < |x| := abs_pos.mpr hzero
      have hsize : |x| < ((2 : ℕ) : ℚ) ^ (53 + k) := by
        rw [hx, abs_mul, abs_of_pos (zpow_pos two_pos k : (0 : ℚ) < 2 ^ k), Nat.cast_ofNat,
          zpow_add₀ two_ne_zero]
        refine mul_lt_mul_of_pos_right ?_ (zpow_pos two_pos k)
        exact_mod_cast hm
      have hlog := (Int.lt_zpow_iff_log_lt one_lt_two hpos).mp hsize
      have hgrid : grid x ≤ k := by
        unfold grid
        omega
      refine round_of_multiple (k := m * 2 ^ (k - grid x).toNat) ?_
      rw [Int.cast_mul, mul_assoc, ← zpow_eq_mul hgrid]
      exact hx
  rcases hm.lt_or_eq with hlt | heq
  · exact hshort hx hlt hk
  · have hunit : ∃ u : ℤ, |u| = 1 ∧ m = u * 2 ^ 53 := by
      rcases abs_eq (by positivity) |>.mp heq with hm | hm
      · exact ⟨1, rfl, by omega⟩
      · exact ⟨-1, rfl, by omega⟩
    obtain ⟨u, hu, rfl⟩ := hunit
    refine hshort (m := u) (k := 53 + k) ?_ (by omega) (by omega)
    rw [hx, zpow_add₀ two_ne_zero, ← mul_assoc]
    push_cast
    norm_num

theorem round_intCast {n : ℤ} (h : |n| ≤ 2 ^ 53) : round n = n :=
  round_of_mul_zpow (k := 0) (by rw [zpow_zero, mul_one]) h (by omega)

theorem round_round (x : ℚ) : round (round x) = round x := by
  obtain ⟨n, hnearest, hround⟩ := round_spec x
  have hpos := grid_pos x
  have hsize := abs_le.mp (abs_le_grid x)
  have hn : |n| ≤ 2 ^ 53 := by
    rw [abs_le]
    constructor
    · refine hnearest.intCast_le ((le_div_iff₀ hpos).mpr ?_)
      push_cast
      linarith
    · refine hnearest.le_intCast ((div_le_iff₀ hpos).mpr ?_)
      push_cast
      exact hsize.2
  exact round_of_mul_zpow hround hn (le_max_left _ _)

/-- A float64 is so many of its last places. -/
theorem eq_mul_grid (h : round x = x) : ∃ n : ℤ, x = n * 2 ^ grid x := by
  obtain ⟨n, -, hround⟩ := round_spec x
  exact ⟨n, h.symm.trans hround⟩

/-- Up to 2 ^ 53 a float64 is counted down exactly. -/
theorem round_sub_one (h : round x = x) (hlow : 1 ≤ x) (hhigh : x ≤ 2 ^ 53) :
    round (x - 1) = x - 1 := by
  obtain ⟨n, hn⟩ := eq_mul_grid h
  rcases hhigh.lt_or_eq with hlt | rfl
  · have hpos : 0 < |x| := abs_pos.mpr (by linarith)
    have hlog : Int.log 2 |x| < 53 := by
      refine (Int.lt_zpow_iff_log_lt (b := 2) one_lt_two hpos).mp ?_
      rw [abs_of_pos (by linarith), Nat.cast_ofNat]
      exact hlt
    have hgrid : grid x ≤ 0 := by
      unfold grid
      omega
    have hunit : (0 : ℚ) < 2 ^ grid x := grid_pos x
    obtain ⟨u, hu, hone⟩ : ∃ u : ℤ, 0 ≤ u ∧ (1 : ℚ) = u * 2 ^ grid x := by
      have hone := zpow_eq_mul hgrid
      rw [zpow_zero] at hone
      exact ⟨_, by positivity, hone⟩
    have hless : x - 1 = ((n - u : ℤ) : ℚ) * 2 ^ grid x := by
      rw [Int.cast_sub, sub_mul, ← hn, ← hone]
    have hbits : n ≤ 2 ^ 53 := by
      have hsize := abs_le_grid x
      rw [abs_of_pos (by linarith)] at hsize
      have hle : (n : ℚ) ≤ 2 ^ 53 := le_of_mul_le_mul_right (hn ▸ hsize) hunit
      exact_mod_cast hle
    have hleft : u ≤ n := by
      have hle : (u : ℚ) ≤ n := le_of_mul_le_mul_right (by rw [← hone, ← hn]; exact hlow) hunit
      exact_mod_cast hle
    refine round_of_mul_zpow hless ?_ (le_max_left _ _)
    rw [abs_of_nonneg (by omega)]
    omega
  · have hint : (2 : ℚ) ^ 53 - 1 = ((2 ^ 53 - 1 : ℤ) : ℚ) := by norm_num
    rw [hint]
    exact round_intCast (by norm_num)

/-- Above 2 ^ 53 there are even integers only. -/
theorem even_of_gt (h : round x = x) (hx : 2 ^ 53 < x) : ∃ n : ℤ, x = 2 * n := by
  obtain ⟨n, hn⟩ := eq_mul_grid h
  have hpos : 0 < |x| := abs_pos.mpr (by linarith)
  have hlog : 53 ≤ Int.log 2 |x| := by
    refine (Int.zpow_le_iff_le_log (b := 2) one_lt_two hpos).mp ?_
    rw [abs_of_pos (by linarith), Nat.cast_ofNat]
    exact hx.le
  have hgrid : 1 ≤ grid x := by
    unfold grid
    omega
  have hpower := zpow_eq_mul hgrid
  refine ⟨n * 2 ^ (grid x - 1).toNat, ?_⟩
  rw [zpow_one] at hpower
  calc x = n * 2 ^ grid x := hn
    _ = n * (((2 ^ (grid x - 1).toNat : ℤ) : ℚ) * 2) := by rw [hpower]
    _ = 2 * ((n * 2 ^ (grid x - 1).toNat : ℤ) : ℚ) := by
      rw [Int.cast_mul]
      ring

end Float64

/-! ### Operations on float64 -/

/-- A `float64`. Zeros have no sign here, and there is one NaN. -/
inductive F64 where
  | nan
  | inf (negative : Bool)
  | finite (x : ℚ) (h : Float64.round x = x ∧ |x| < 2 ^ 1024)
  deriving DecidableEq

namespace F64

open Float64

/-- The float64 nearest to `x`; where it has no place, infinity. -/
def ofRat (x : ℚ) : F64 :=
  if h : |Float64.round x| < 2 ^ 1024 then .finite (Float64.round x) ⟨round_round x, h⟩
  else .inf (x < 0)

def neg : F64 → F64
  | nan => nan
  | inf negative => inf !negative
  | finite x h => finite (-x) ⟨by rw [round_neg, h.1], by rw [abs_neg]; exact h.2⟩

def add : F64 → F64 → F64
  | finite x _, finite y _ => ofRat (x + y)
  | finite _ _, inf b => inf b
  | inf a, finite _ _ => inf a
  | inf a, inf b => if a = b then inf a else nan
  | _, _ => nan

def mul : F64 → F64 → F64
  | finite x _, finite y _ => ofRat (x * y)
  | finite x _, inf b => if x = 0 then nan else inf (b ^^ decide (x < 0))
  | inf a, finite y _ => if y = 0 then nan else inf (a ^^ decide (y < 0))
  | inf a, inf b => inf (a ^^ b)
  | _, _ => nan

/-- Division; by zero as by a positive zero. -/
def div : F64 → F64 → F64
  | finite x _, finite y _ =>
    if y = 0 then if x = 0 then nan else inf (x < 0) else ofRat (x / y)
  | finite _ _, inf _ => ofRat 0
  | inf a, finite y _ => inf (a ^^ decide (y < 0))
  | inf _, inf _ => nan
  | _, _ => nan

/-- The place of a number; a NaN has none. -/
def key : F64 → WithBot (WithTop ℚ)
  | finite x _ => ((x : WithTop ℚ) : WithBot (WithTop ℚ))
  | inf false => ((⊤ : WithTop ℚ) : WithBot (WithTop ℚ))
  | _ => ⊥

instance : Add F64 := ⟨add⟩
instance : Sub F64 := ⟨fun a b => add a (neg b)⟩
instance : Mul F64 := ⟨mul⟩
instance : Div F64 := ⟨div⟩
instance : LE F64 := ⟨fun a b => a ≠ nan ∧ b ≠ nan ∧ a.key ≤ b.key⟩
instance : LT F64 := ⟨fun a b => a ≠ nan ∧ b ≠ nan ∧ a.key < b.key⟩
instance : DecidableLE F64 := fun a b =>
  inferInstanceAs (Decidable (a ≠ nan ∧ b ≠ nan ∧ a.key ≤ b.key))
instance : DecidableLT F64 := fun a b =>
  inferInstanceAs (Decidable (a ≠ nan ∧ b ≠ nan ∧ a.key < b.key))

/-- The conversion of an `int`, which has 64 bits. -/
instance : IntCast F64 := ⟨fun n => ofRat (max (-2 ^ 63) (min (2 ^ 63) n) : ℤ)⟩
instance : Zero F64 := ⟨ofRat 0⟩
instance : One F64 := ⟨ofRat 1⟩

/-- `Duration.Seconds`, of so many nanoseconds. -/
def seconds (d : ℤ) : F64 :=
  ((d.tdiv 1000000000 : ℤ) : F64) + ((d.tmod 1000000000 : ℤ) : F64) / ((1000000000 : ℤ) : F64)

def IsFinite : F64 → Prop
  | finite _ _ => True
  | _ => False

instance : DecidablePred IsFinite
  | finite _ _ => .isTrue trivial
  | nan => .isFalse id
  | inf _ => .isFalse id

/-! ### The order -/

variable {x y : ℚ} {a b c : F64}

theorem key_injective (ha : a ≠ nan) (hb : b ≠ nan) (h : a.key = b.key) : a = b := by
  cases a with
  | nan => exact absurd rfl ha
  | inf p =>
    cases b with
    | nan => exact absurd rfl hb
    | inf q => cases p <;> cases q <;> first | rfl | cases h
    | finite y hy => cases p <;> simp [key] at h
  | finite x hx =>
    cases b with
    | nan => exact absurd rfl hb
    | inf q => cases q <;> simp [key] at h
    | finite y hy =>
      have heq : x = y := WithTop.coe_injective (WithBot.coe_injective h)
      subst heq
      rfl

protected theorem le_trans (hab : a ≤ b) (hbc : b ≤ c) : a ≤ c :=
  ⟨hab.1, hbc.2.1, hab.2.2.trans hbc.2.2⟩

protected theorem le_antisymm (hab : a ≤ b) (hba : b ≤ a) : a = b :=
  key_injective hab.1 hab.2.1 (hab.2.2.antisymm hba.2.2)

theorem IsFinite.ne_nan (h : a.IsFinite) : a ≠ nan := by
  intro heq
  rw [heq] at h
  exact h

theorem le_of_not_lt (ha : a ≠ nan) (hb : b ≠ nan) (h : ¬ a < b) : b ≤ a :=
  ⟨hb, ha, not_lt.mp fun hlt => h ⟨ha, hb, hlt⟩⟩

theorem not_lt_of_le (h : a ≤ b) : ¬ b < a := fun hlt => h.2.2.not_gt hlt.2.2

protected theorem lt_of_le_of_lt (hab : a ≤ b) (hbc : b < c) : a < c :=
  ⟨hab.1, hbc.2.1, hab.2.2.trans_lt hbc.2.2⟩

protected theorem lt_of_lt_of_le (hab : a < b) (hbc : b ≤ c) : a < c :=
  ⟨hab.1, hbc.2.1, hab.2.2.trans_le hbc.2.2⟩

theorem finite_le_iff {hx : Float64.round x = x ∧ |x| < 2 ^ 1024}
    {hy : Float64.round y = y ∧ |y| < 2 ^ 1024} : finite x hx ≤ finite y hy ↔ x ≤ y := by
  constructor
  · intro h
    exact WithTop.coe_le_coe.mp (WithBot.coe_le_coe.mp h.2.2)
  · intro h
    exact ⟨nofun, nofun, WithBot.coe_le_coe.mpr (WithTop.coe_le_coe.mpr h)⟩

theorem inf_le (ha : a ≠ nan) : inf true ≤ a := ⟨nofun, ha, bot_le⟩

theorem le_inf (ha : a ≠ nan) : a ≤ inf false := by
  refine ⟨ha, nofun, ?_⟩
  cases a with
  | nan => exact absurd rfl ha
  | inf p => cases p with
    | true => exact bot_le
    | false => exact le_rfl
  | finite x hx => exact WithBot.coe_le_coe.mpr le_top

/-! ### Rounding -/

theorem ofRat_of_round (h : Float64.round x = x) (hx : |x| < 2 ^ 1024) :
    ofRat x = finite x ⟨h, hx⟩ := by
  unfold ofRat
  simp only [h]
  rw [dif_pos hx]

theorem ofRat_mono (h : x ≤ y) : ofRat x ≤ ofRat y := by
  have hround := round_mono h
  have hbig : (0 : ℚ) < 2 ^ 1024 := pow_pos two_pos 1024
  unfold ofRat
  split_ifs with hx hy hy
  · exact finite_le_iff.mpr hround
  · have hpos : 0 < y := by
      by_contra hneg
      have hlow := (abs_lt.mp hx).1
      have hnonpos := round_nonpos (not_lt.mp hneg)
      exact hy (abs_lt.mpr ⟨hlow.trans_le hround, hnonpos.trans_lt hbig⟩)
    rw [decide_eq_false hpos.not_gt]
    exact le_inf nofun
  · have hneg : x < 0 := by
      by_contra hpos
      have hhigh := (abs_lt.mp hy).2
      have hnonneg := round_nonneg (not_lt.mp hpos)
      exact hx (abs_lt.mpr ⟨(neg_lt_zero.mpr hbig).trans_le hnonneg, hround.trans_lt hhigh⟩)
    rw [decide_eq_true hneg]
    exact inf_le nofun
  · rcases lt_or_ge x 0 with hneg | hpos
    · rw [decide_eq_true hneg]
      exact inf_le nofun
    · rw [decide_eq_false hpos.not_gt, decide_eq_false (hpos.trans h).not_gt]
      exact ⟨nofun, nofun, le_rfl⟩

theorem bound_of_le {n : ℤ} (h : |n| ≤ 2 ^ 53) : |(n : ℚ)| < 2 ^ 1024 := by
  have hle : |(n : ℚ)| ≤ 2 ^ 53 := by exact_mod_cast h
  exact hle.trans_lt (pow_lt_pow_right₀ one_lt_two (by decide))

theorem intCast_eq {n : ℤ} (h : |n| ≤ 2 ^ 53) :
    ((n : ℤ) : F64) = finite n ⟨round_intCast h, bound_of_le h⟩ := by
  have hclamp : max (-2 ^ 63) (min (2 ^ 63) n) = n := by
    rw [abs_le] at h
    omega
  have hcast : ((n : ℤ) : F64) = ofRat ((max (-2 ^ 63) (min (2 ^ 63) n) : ℤ) : ℚ) := rfl
  rw [hcast, hclamp]
  exact ofRat_of_round (round_intCast h) (bound_of_le h)

theorem intCast_mono {m n : ℤ} (h : m ≤ n) : (m : F64) ≤ n := by
  have hclamp := max_le_max (le_refl (-2 ^ 63 : ℤ)) (min_le_min (le_refl (2 ^ 63 : ℤ)) h)
  exact ofRat_mono (Int.cast_le.mpr hclamp)

theorem intCast_finite (n : ℤ) : ((n : ℤ) : F64).IsFinite := by
  have hbits {z : ℤ} (hlow : -2 ^ 63 ≤ z) (hhigh : z ≤ 2 ^ 63) : |Float64.round z| < 2 ^ 1024 := by
    have htop : Float64.round ((2 : ℚ) ^ 63) = 2 ^ 63 :=
      round_of_mul_zpow (m := 1) (k := 63) (by norm_num) (by norm_num) (by norm_num)
    have hbottom : Float64.round (-(2 : ℚ) ^ 63) = -2 ^ 63 := by rw [round_neg, htop]
    have hle := round_mono (x := (z : ℚ)) (y := 2 ^ 63) (by exact_mod_cast hhigh)
    have hge := round_mono (x := -(2 : ℚ) ^ 63) (y := z) (by exact_mod_cast hlow)
    rw [htop] at hle
    rw [hbottom] at hge
    exact (abs_le.mpr ⟨hge, hle⟩).trans_lt (pow_lt_pow_right₀ one_lt_two (by decide))
  have hcast : ((n : ℤ) : F64) = ofRat ((max (-2 ^ 63) (min (2 ^ 63) n) : ℤ) : ℚ) := rfl
  rw [hcast, ofRat, dif_pos (hbits (by omega) (by omega))]
  trivial

theorem ofRat_self {hx : Float64.round x = x ∧ |x| < 2 ^ 1024} : ofRat x = finite x hx :=
  ofRat_of_round hx.1 hx.2

theorem zero_fits : |(0 : ℚ)| < 2 ^ 1024 := by
  rw [abs_zero]
  positivity

theorem zero_eq : (0 : F64) = finite 0 ⟨round_zero, zero_fits⟩ := ofRat_self

theorem one_eq : ∃ h, (1 : F64) = finite 1 h := by
  have hone : Float64.round 1 = 1 := by
    have h := round_intCast (n := 1) (by norm_num)
    rwa [Int.cast_one] at h
  exact ⟨⟨hone, by rw [abs_one]; exact one_lt_pow₀ one_lt_two (by decide)⟩, ofRat_self⟩

protected theorem add_zero (a : F64) : a + 0 = a := by
  rw [zero_eq]
  cases a with
  | nan => rfl
  | inf p => rfl
  | finite x hx =>
    show ofRat (x + 0) = _
    rw [add_zero]
    exact ofRat_self

protected theorem zero_mul (h : a.IsFinite) : 0 * a = 0 := by
  rw [zero_eq]
  cases a with
  | nan => exact h.elim
  | inf p => exact h.elim
  | finite x hx =>
    show ofRat (0 * x) = _
    rw [zero_mul]
    exact ofRat_self

/-- A NaN in any case. -/
theorem add_zero_mul (h : ¬ a.IsFinite) : b + 0 * a = nan := by
  have hnan : (0 : F64) * a = nan := by
    rw [zero_eq]
    cases a with
    | nan => rfl
    | inf p => rfl
    | finite x hx => exact absurd trivial h
  rw [hnan]
  cases b <;> rfl

/-! ### More time, more tokens -/

theorem mul_mono (hb : b.IsFinite) (hc : c.IsFinite) (h : b ≤ c) (ha : 0 ≤ a) (hfin : a.IsFinite) :
    b * a ≤ c * a := by
  cases a with
  | nan => exact hfin.elim
  | inf p => exact hfin.elim
  | finite z hz =>
    cases b with
    | nan => exact hb.elim
    | inf p => exact hb.elim
    | finite x hx =>
      cases c with
      | nan => exact hc.elim
      | inf p => exact hc.elim
      | finite y hy =>
        rw [zero_eq] at ha
        exact ofRat_mono (mul_le_mul_of_nonneg_right (finite_le_iff.mp h) (finite_le_iff.mp ha))

theorem le_add_of_le {t u v : F64} (hb : b.IsFinite) (h : b ≤ t + u) (huv : u ≤ v) : b ≤ t + v := by
  have hlow : ¬ b ≤ inf true := by
    cases b with
    | nan => exact hb.elim
    | inf p => exact hb.elim
    | finite z hz => exact fun hle => absurd hle.2.2 (not_le.mpr (WithBot.bot_lt_coe _))
  have hhigh : b ≤ inf false := le_inf h.1
  have hnan : t + u ≠ nan := h.2.1
  cases u with
  | nan => cases t <;> exact absurd rfl hnan
  | inf p =>
    cases p with
    | true => cases t with
      | nan => exact absurd rfl hnan
      | finite x hx => exact absurd h hlow
      | inf q => cases q with
        | true => exact absurd h hlow
        | false => exact absurd rfl hnan
    | false =>
      rw [F64.le_antisymm (le_inf huv.2.1) huv]
      exact h
  | finite x hx =>
    cases t with
    | nan => exact absurd rfl hnan
    | inf q =>
      cases q with
      | true => exact absurd h hlow
      | false => cases v with
        | nan => exact absurd rfl huv.2.1
        | inf p => cases p with
          | true => exact absurd huv.2.2 (not_le.mpr (WithBot.bot_lt_coe _))
          | false => exact hhigh
        | finite y hy => exact hhigh
    | finite z hz =>
      cases v with
      | nan => exact absurd rfl huv.2.1
      | inf p => cases p with
        | true => exact absurd huv.2.2 (not_le.mpr (WithBot.bot_lt_coe _))
        | false => exact hhigh
      | finite y hy =>
        exact F64.le_trans h (ofRat_mono (add_le_add_right (finite_le_iff.mp huv) z))

theorem finite_div {hx : Float64.round x = x ∧ |x| < 2 ^ 1024}
    {hy : Float64.round y = y ∧ |y| < 2 ^ 1024} (h : y ≠ 0) :
    finite x hx / finite y hy = ofRat (x / y) := if_neg h

theorem split_nanoseconds (d : ℤ) :
    1000000000 * d.tdiv 1000000000 + d.tmod 1000000000 = d ∧
      -1000000000 < d.tmod 1000000000 ∧ d.tmod 1000000000 < 1000000000 ∧
      (0 ≤ d → 0 ≤ d.tmod 1000000000) ∧ (d ≤ 0 → d.tmod 1000000000 ≤ 0) := by
  refine ⟨Int.mul_tdiv_add_tmod d _, Int.lt_tmod_of_pos d (by decide), Int.tmod_lt_of_pos d (by decide),
    Int.tmod_nonneg _, fun h => ?_⟩
  have hneg := Int.tmod_nonneg (a := -d) 1000000000 (by omega)
  rw [Int.neg_tmod] at hneg
  omega

/-- The seconds and the part of a second, each as a float64. -/
def secondsOf (d : ℤ) : ℚ :=
  (d.tdiv 1000000000 : ℤ) + Float64.round ((d.tmod 1000000000 : ℤ) / 1000000000)

theorem round_part (d : ℤ) : |Float64.round ((d.tmod 1000000000 : ℤ) / 1000000000)| ≤ 1 := by
  obtain ⟨-, hlow, hhigh, -, -⟩ := split_nanoseconds d
  have hone : Float64.round 1 = 1 := by exact_mod_cast round_intCast (n := 1) (by norm_num)
  have hle : ((d.tmod 1000000000 : ℤ) : ℚ) ≤ 1000000000 := by exact_mod_cast hhigh.le
  have hge : -1000000000 ≤ ((d.tmod 1000000000 : ℤ) : ℚ) := by exact_mod_cast hlow.le
  have hup := round_mono (x := (d.tmod 1000000000 : ℤ) / 1000000000) (y := 1) (by linarith)
  have hdown := round_mono (x := -1) (y := (d.tmod 1000000000 : ℤ) / 1000000000) (by linarith)
  rw [hone] at hup
  rw [round_neg, hone] at hdown
  exact abs_le.mpr ⟨hdown, hup⟩

theorem secondsOf_mono {d d' : ℤ} (h : d ≤ d') : secondsOf d ≤ secondsOf d' := by
  obtain ⟨hd, hlow, hhigh, hnonneg, hnonpos⟩ := split_nanoseconds d
  obtain ⟨hd', hlow', hhigh', hnonneg', hnonpos'⟩ := split_nanoseconds d'
  have hpart := abs_le.mp (round_part d)
  have hpart' := abs_le.mp (round_part d')
  unfold secondsOf
  rcases lt_trichotomy (d.tdiv 1000000000) (d'.tdiv 1000000000) with hless | hsame | hmore
  · have hstep : ((d.tdiv 1000000000 : ℤ) : ℚ) + 1 ≤ (d'.tdiv 1000000000 : ℤ) := by
      exact_mod_cast hless
    by_cases hsign : 0 < d'.tdiv 1000000000
    · have hpart0 : 0 ≤ Float64.round ((d'.tmod 1000000000 : ℤ) / 1000000000) := by
        have hmod := hnonneg' (by omega)
        exact round_nonneg (div_nonneg (by exact_mod_cast hmod) (by norm_num))
      linarith
    · have hpart0 : Float64.round ((d.tmod 1000000000 : ℤ) / 1000000000) ≤ 0 := by
        have hmod := hnonpos (by omega)
        exact round_nonpos (div_nonpos_of_nonpos_of_nonneg (by exact_mod_cast hmod) (by norm_num))
      linarith
  · have hmod : d.tmod 1000000000 ≤ d'.tmod 1000000000 := by omega
    have hmodQ : ((d.tmod 1000000000 : ℤ) : ℚ) ≤ (d'.tmod 1000000000 : ℤ) := by exact_mod_cast hmod
    have hround := round_mono (div_le_div_of_nonneg_right hmodQ (by norm_num : (0 : ℚ) ≤ 1000000000))
    rw [hsame]
    linarith
  · omega

theorem seconds_zero : seconds 0 = 0 := by decide +kernel

theorem seconds_eq {d : ℤ} (hlow : -2 ^ 63 ≤ d) (hhigh : d < 2 ^ 63) :
    ∃ h, seconds d = finite (Float64.round (secondsOf d)) h := by
  obtain ⟨hd, hmodLow, hmodHigh, -, -⟩ := split_nanoseconds d
  have hwhole := intCast_eq (n := d.tdiv 1000000000) (abs_le.mpr ⟨by omega, by omega⟩)
  have hrest := intCast_eq (n := d.tmod 1000000000) (abs_le.mpr ⟨by omega, by omega⟩)
  have hunit := intCast_eq (n := 1000000000) (by norm_num)
  have hbig : (1 : ℚ) < 2 ^ 1024 := one_lt_pow₀ one_lt_two (by decide)
  have hpart := round_part d
  have hpartFits := hpart.trans_lt hbig
  have hquot : ((d.tmod 1000000000 : ℤ) : F64) / ((1000000000 : ℤ) : F64) =
      finite (Float64.round ((d.tmod 1000000000 : ℤ) / 1000000000)) ⟨round_round _, hpartFits⟩ := by
    rw [hrest, hunit]
    rw [finite_div (by norm_num), Int.cast_ofNat, ofRat, dif_pos hpartFits]
  have hsum : seconds d = ofRat (secondsOf d) := by
    rw [seconds, hquot, hwhole]
    rfl
  have hfits : |Float64.round (secondsOf d)| < 2 ^ 1024 := by
    have hcount : |d.tdiv 1000000000| ≤ 2 ^ 53 - 1 := abs_le.mpr ⟨by omega, by omega⟩
    have hcountQ : |((d.tdiv 1000000000 : ℤ) : ℚ)| ≤ ((2 ^ 53 - 1 : ℤ) : ℚ) := by exact_mod_cast hcount
    have hsize : |secondsOf d| ≤ ((2 ^ 53 : ℤ) : ℚ) := by
      refine (abs_add_le _ _).trans ?_
      push_cast at hcountQ ⊢
      linarith
    have htop := round_intCast (n := 2 ^ 53) (by norm_num)
    have hle := round_mono (abs_le.mp hsize).2
    have hge := round_mono (abs_le.mp hsize).1
    rw [htop] at hle
    rw [round_neg, htop] at hge
    exact (abs_le.mpr ⟨hge, hle⟩).trans_lt (bound_of_le (n := 2 ^ 53) (by norm_num) |>.trans_le' (le_abs_self _))
  exact ⟨⟨round_round _, hfits⟩, by rw [hsum, ofRat, dif_pos hfits]⟩

theorem seconds_finite {d : ℤ} (hlow : -2 ^ 63 ≤ d) (hhigh : d < 2 ^ 63) : (seconds d).IsFinite := by
  obtain ⟨h, hd⟩ := seconds_eq hlow hhigh
  rw [hd]
  trivial

theorem seconds_mono {d d' : ℤ} (hlow : -2 ^ 63 ≤ d) (h : d ≤ d') (hhigh : d' < 2 ^ 63) :
    seconds d ≤ seconds d' := by
  obtain ⟨hx, hd⟩ := seconds_eq hlow (h.trans_lt hhigh)
  obtain ⟨hy, hd'⟩ := seconds_eq (hlow.trans h) hhigh
  rw [hd, hd']
  exact finite_le_iff.mpr (round_mono (secondsOf_mono h))

/-! ### Counting down -/

/-- How many of `m` times one can be taken off. -/
def countdown : ℕ → F64 → ℕ
  | 0, _ => 0
  | m + 1, a => if 1 ≤ a then countdown m (a - 1) + 1 else countdown m a

/-- The ones in a number. -/
def whole : F64 → ℤ
  | finite x _ => max 0 ⌊x⌋
  | _ => 0

theorem whole_nonneg (a : F64) : 0 ≤ whole a := by
  cases a with
  | nan => exact le_rfl
  | inf p => exact le_rfl
  | finite x hx => exact le_max_left _ _

theorem countdown_of_not_le (h : ¬ 1 ≤ a) (m : ℕ) : countdown m a = 0 := by
  induction m with
  | zero => rfl
  | succ m ih => rw [countdown, if_neg h, ih]

/-- 2 ^ 53, as far as every integer has a float64. -/
def limit : F64 := ((2 ^ 53 : ℤ) : F64)

theorem limit_eq : ∃ h, limit = finite (2 ^ 53) h := by
  have h := intCast_eq (n := 2 ^ 53) (by norm_num)
  push_cast at h
  exact ⟨_, h⟩

theorem limit_lt_inf : limit < inf false := by decide +kernel

theorem not_limit_lt_finite_iff {hx : Float64.round x = x ∧ |x| < 2 ^ 1024} :
    ¬ limit < finite x hx ↔ x ≤ 2 ^ 53 := by
  obtain ⟨h, hlimit⟩ := limit_eq
  rw [hlimit]
  constructor
  · intro hlt
    exact finite_le_iff.mp (le_of_not_lt nofun nofun hlt)
  · intro hle
    exact not_lt_of_le (finite_le_iff.mpr hle)

theorem one_le_finite_iff {hx : Float64.round x = x ∧ |x| < 2 ^ 1024} :
    1 ≤ finite x hx ↔ 1 ≤ x := by
  obtain ⟨h, hone⟩ := one_eq
  rw [hone]
  exact finite_le_iff

theorem finite_sub_one {hx : Float64.round x = x ∧ |x| < 2 ^ 1024} :
    finite x hx - 1 = ofRat (x - 1) := by
  obtain ⟨h, hone⟩ := one_eq
  rw [hone, sub_eq_add_neg]
  rfl

theorem sub_one_le (h : a ≠ nan) : a - 1 ≤ a := by
  cases a with
  | nan => exact absurd rfl h
  | inf p =>
    have hsame : inf p - 1 = inf p := by
      obtain ⟨h1, hone⟩ := one_eq
      rw [hone]
      rfl
    rw [hsame]
    exact ⟨nofun, nofun, le_rfl⟩
  | finite x hx =>
    have hself : ofRat x = finite x hx := ofRat_self
    rw [finite_sub_one, ← hself]
    exact ofRat_mono (sub_le_self x zero_le_one)

theorem whole_of_not_le (h : ¬ 1 ≤ a) : whole a = 0 := by
  cases a with
  | nan => rfl
  | inf p => rfl
  | finite x hx =>
    have hlt : x < 1 := not_le.mp fun hle => h (one_le_finite_iff.mpr hle)
    have hfloor : ⌊x⌋ < 1 := Int.floor_lt.mpr (by exact_mod_cast hlt)
    exact max_eq_left (by omega)

theorem whole_mono (h : a ≤ b) (hb : ¬ limit < b) : whole a ≤ whole b := by
  cases b with
  | nan => exact absurd rfl h.2.1
  | inf q =>
    cases q with
    | true => cases a with
      | nan => exact absurd rfl h.1
      | inf p => exact le_rfl
      | finite x hx => exact absurd h.2.2 (not_le.mpr (WithBot.bot_lt_coe _))
    | false => exact absurd limit_lt_inf hb
  | finite y hy => cases a with
    | nan => exact absurd rfl h.1
    | inf p => exact le_max_left _ _
    | finite x hx => exact max_le_max le_rfl (Int.floor_le_floor (finite_le_iff.mp h))

theorem whole_intCast {n : ℤ} (hn : 0 ≤ n) (h : n ≤ 2 ^ 53) : whole (n : F64) = n := by
  rw [intCast_eq (abs_le.mpr ⟨by omega, h⟩), whole, Int.floor_intCast]
  exact max_eq_right hn

theorem intCast_le_iff {k : ℤ} (hpos : 0 < k) (hk : k ≤ 2 ^ 53) (ha : ¬ limit < a) :
    (k : F64) ≤ a ↔ k ≤ whole a := by
  rw [intCast_eq (abs_le.mpr ⟨by omega, hk⟩)]
  cases a with
  | nan => exact iff_of_false (fun h => h.2.1 rfl) hpos.not_ge
  | inf p =>
    cases p with
    | true => exact iff_of_false (fun h => absurd h.2.2 (not_le.mpr (WithBot.bot_lt_coe _))) hpos.not_ge
    | false => exact absurd limit_lt_inf ha
  | finite x hx =>
    rw [finite_le_iff, ← Int.le_floor, whole]
    omega

theorem countdown_eq (h : ¬ limit < a) (m : ℕ) : (countdown m a : ℤ) = min (m : ℤ) (whole a) := by
  induction m generalizing a with
  | zero => exact (min_eq_left (whole_nonneg a)).symm
  | succ m ih =>
    by_cases hone : 1 ≤ a
    · cases a with
      | nan => exact absurd rfl hone.2.1
      | inf p =>
        cases p with
        | true =>
          obtain ⟨h1, heq⟩ := one_eq
          rw [heq] at hone
          exact absurd hone.2.2 (not_le.mpr (WithBot.bot_lt_coe _))
        | false => exact absurd limit_lt_inf h
      | finite x hx =>
        have hlow := one_le_finite_iff.mp hone
        have hhigh := not_limit_lt_finite_iff.mp h
        have hexact := round_sub_one hx.1 hlow hhigh
        have hfits : |x - 1| < 2 ^ 1024 := by
          rw [abs_of_nonneg (by linarith)]
          exact (by linarith : x - 1 ≤ 2 ^ 53).trans_lt (pow_lt_pow_right₀ one_lt_two (by decide))
        have hnext : finite x hx - 1 = finite (x - 1) ⟨hexact, hfits⟩ := by
          rw [finite_sub_one, ofRat_of_round hexact hfits]
        have hfloor : 1 ≤ ⌊x⌋ := Int.le_floor.mpr (by exact_mod_cast hlow)
        have hrest := ih (a := finite (x - 1) ⟨hexact, hfits⟩)
          (not_limit_lt_finite_iff.mpr (by linarith))
        simp only [whole, Int.floor_sub_one] at hrest
        rw [countdown, if_pos hone, hnext]
        simp only [whole]
        push_cast
        omega
    · rw [countdown, if_neg hone, countdown_of_not_le hone, whole_of_not_le hone]
      exact (min_eq_right (by omega)).symm

/-- One less than 2 ^ 53 + 4, or than more, is rounded up again. -/
theorem countdown_of_le {h : Float64.round (2 ^ 53 + 4) = 2 ^ 53 + 4 ∧ |(2 : ℚ) ^ 53 + 4| < 2 ^ 1024}
    (ha : finite (2 ^ 53 + 4) h ≤ a) (m : ℕ) : countdown m a = m := by
  have hstuck : ofRat (2 ^ 53 + 4 - 1) = finite (2 ^ 53 + 4) h := by
    have hround : Float64.round (2 ^ 53 + 4 - 1) = 2 ^ 53 + 4 := by decide +kernel
    have hfits : |Float64.round (2 ^ 53 + 4 - 1)| < 2 ^ 1024 := by
      rw [hround]
      exact h.2
    rw [ofRat, dif_pos hfits]
    simp only [hround]
  induction m generalizing a with
  | zero => rfl
  | succ m ih =>
    have hlarge : 1 ≤ finite (2 ^ 53 + 4) h := one_le_finite_iff.mpr (by norm_num)
    have hone : 1 ≤ a := F64.le_trans hlarge ha
    rw [countdown, if_pos hone, ih]
    cases a with
    | nan => exact absurd rfl ha.2.1
    | inf p =>
      obtain ⟨h1, heq⟩ := one_eq
      rw [heq]
      cases p with
      | true => exact absurd ha.2.2 (not_le.mpr (WithBot.bot_lt_coe _))
      | false => exact le_inf nofun
    | finite x hx =>
      rw [finite_sub_one, ← hstuck]
      exact ofRat_mono (sub_le_sub_right (finite_le_iff.mp ha) 1)

/-- Above 2 ^ 53 a number is counted down by 2 ^ 53 + 1, or by no end. -/
theorem countdown_above (h : limit < a) :
    (∀ m : ℕ, (countdown m a : ℤ) = min (m : ℤ) (2 ^ 53 + 1)) ∨ ∀ m, countdown m a = m := by
  have hfour : Float64.round (2 ^ 53 + 4) = 2 ^ 53 + 4 ∧ |(2 : ℚ) ^ 53 + 4| < 2 ^ 1024 := by
    decide +kernel
  obtain ⟨hl, hlimit⟩ := limit_eq
  cases a with
  | nan => exact absurd rfl h.2.1
  | inf p =>
    cases p with
    | true => exact absurd h.2.2 not_lt_bot
    | false => exact Or.inr (countdown_of_le (h := hfour) (le_inf nofun))
  | finite x hx =>
    have hgt : 2 ^ 53 < x := by
      rw [hlimit] at h
      exact WithTop.coe_lt_coe.mp (WithBot.coe_lt_coe.mp h.2.2)
    obtain ⟨n, hn⟩ := even_of_gt hx.1 hgt
    have hhalf : 2 ^ 52 + 1 ≤ n := by
      have hlt : (2 : ℚ) ^ 52 < n := by linarith
      exact_mod_cast hlt
    rcases hhalf.eq_or_lt with heq | hlt
    · left
      have hx2 : x = 2 ^ 53 + 2 := by
        rw [hn, ← heq]
        norm_num
      subst hx2
      intro m
      cases m with
      | zero => rfl
      | succ m =>
        have hone : 1 ≤ finite (2 ^ 53 + 2) hx := one_le_finite_iff.mpr (by norm_num)
        have hnext : finite (2 ^ 53 + 2) hx - 1 = limit := by
          have hround : Float64.round (2 ^ 53 + 2 - 1) = 2 ^ 53 := by decide +kernel
          have hfits : |Float64.round (2 ^ 53 + 2 - 1)| < 2 ^ 1024 := by
            rw [hround]
            exact hl.2
          rw [finite_sub_one, ofRat, dif_pos hfits, hlimit]
          simp only [hround]
        have hwhole : whole limit = 2 ^ 53 := by
          rw [hlimit, whole]
          norm_num
        have hrest := countdown_eq (a := limit) (fun hlt => absurd hlt.2.2 (lt_irrefl _)) m
        rw [hwhole] at hrest
        rw [countdown, if_pos hone, hnext]
        push_cast
        omega
    · right
      refine countdown_of_le (h := hfour) (finite_le_iff.mpr ?_)
      have hle : (2 : ℚ) ^ 52 + 2 ≤ n := by exact_mod_cast hlt
      linarith

/-- The conversion to an `int64`, which drops the fraction; a number without a place there
becomes the smallest, as on amd64. -/
def toInt64 : F64 → ℤ
  | finite x _ =>
    let n := if x < 0 then ⌈x⌉ else ⌊x⌋
    if -2 ^ 63 ≤ n ∧ n < 2 ^ 63 then n else -2 ^ 63
  | _ => -2 ^ 63

theorem max_toInt64 (h : ¬ limit < a) : max 0 a.toInt64 = whole a := by
  cases a with
  | nan => rfl
  | inf p => rfl
  | finite x hx =>
    have hhigh := not_limit_lt_finite_iff.mp h
    unfold toInt64 whole
    by_cases hneg : x < 0
    · have hceil : ⌈x⌉ ≤ 0 := Int.ceil_le.mpr (by exact_mod_cast hneg.le)
      have hfloor : ⌊x⌋ ≤ 0 := (Int.floor_le_ceil x).trans hceil
      simp only [if_pos hneg]
      split_ifs <;> omega
    · have hfloor : 0 ≤ ⌊x⌋ := Int.floor_nonneg.mpr (not_lt.mp hneg)
      have hless : ⌊x⌋ ≤ 2 ^ 53 := by
        have hlt : ⌊x⌋ < 2 ^ 53 + 1 := Int.floor_lt.mpr (by push_cast; linarith)
        omega
      simp only [if_neg hneg]
      rw [if_pos ⟨by omega, by omega⟩]

/-- An odd integer above 2 ^ 53 is no float64. -/
theorem toInt64_ne (a : F64) : a.toInt64 ≠ 2 ^ 53 + 1 := by
  cases a with
  | nan => decide
  | inf p => exact fun h => absurd h (show (-2 ^ 63 : ℤ) ≠ 2 ^ 53 + 1 by decide)
  | finite x hx =>
    unfold toInt64
    simp only
    split_ifs with hneg hfits hfits
    · have hceil : ⌈x⌉ ≤ 0 := Int.ceil_le.mpr (by exact_mod_cast hneg.le)
      omega
    · decide
    · intro hfloor
      have hle : ((2 ^ 53 + 1 : ℤ) : ℚ) ≤ x := hfloor ▸ Int.floor_le x
      push_cast at hle
      obtain ⟨n, hn⟩ := even_of_gt hx.1 (by linarith)
      have heven : ⌊x⌋ = 2 * n := by
        have hcast : x = ((2 * n : ℤ) : ℚ) := by
          push_cast
          exact hn
        rw [hcast, Int.floor_intCast]
      omega
    · decide

/-- A number counts down by so many ones iff it is at most 2 ^ 53 and they are its whole part. -/
theorem countdown_iff {u : ℤ} (hu : 0 ≤ u) (hodd : u ≠ 2 ^ 53 + 1) :
    (∀ m : ℕ, (countdown m a : ℤ) = min (m : ℤ) u) ↔ ¬ limit < a ∧ whole a = u := by
  constructor
  · intro h
    have hmore := h (u.toNat + 1)
    have hlimit : ¬ limit < a := by
      intro hlt
      rcases countdown_above hlt with hall | hall
      · have heq := hall (u.toNat + 2 ^ 53 + 2)
        have heq' := h (u.toNat + 2 ^ 53 + 2)
        push_cast at heq heq'
        omega
      · rw [hall] at hmore
        push_cast at hmore
        omega
    refine ⟨hlimit, ?_⟩
    have hwhole := countdown_eq hlimit
    have heq := h ((whole a).toNat + u.toNat)
    rw [hwhole] at heq
    have hnonneg : 0 ≤ whole a := by
      rw [← max_toInt64 hlimit]
      exact le_max_left _ _
    push_cast at heq
    omega
  · rintro ⟨hlimit, rfl⟩ m
    exact countdown_eq hlimit m

end F64

example : (F64.ofRat (1 / 10) + F64.ofRat (2 / 10) : F64) ≠ F64.ofRat (3 / 10) ∧
    (1 : F64) / 0 = .inf false ∧ ¬ (F64.nan ≤ F64.nan) := by decide +kernel

end GoLib
