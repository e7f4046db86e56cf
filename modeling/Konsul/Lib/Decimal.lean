import Mathlib.Data.Nat.Digits.Defs
import Mathlib.Data.Nat.Digits.Lemmas
import Mathlib.Data.Int.Order.Basic
import Mathlib.Tactic.IntervalCases
import Konsul.Lib.Utf8

/-!
# Integers of 64 bits and their decimal text

`decimal` is `strconv.FormatUint(n, 10)`; `parseUint64` is
`strconv.ParseUint(s, 10, 64)` with its range check. An `int` is an integer of 64 bits that
wraps around; `atoi` reads one.
-/

namespace GoLib

def isDigit (b : UInt8) : Bool := 0x30 ≤ b && b ≤ 0x39

def digitByte (d : ℕ) : UInt8 := UInt8.ofNat (0x30 + d)

def decimal (n : ℕ) : Bytes :=
  if n = 0 then [0x30] else ((Nat.digits 10 n).reverse).map digitByte

/-- Value of a digit string, most significant digit first. -/
def decimalValue (s : Bytes) : ℕ := s.foldl (fun acc b => 10 * acc + (b.toNat - 0x30)) 0

def parseUint64 (s : Bytes) : Option UInt64 :=
  if s ≠ [] ∧ s.all isDigit ∧ decimalValue s < 2 ^ 64 then some (UInt64.ofNat (decimalValue s))
  else none

theorem digitByte_spec {d : ℕ} (h : d < 10) :
    isDigit (digitByte d) ∧ (digitByte d).toNat - 0x30 = d := by
  interval_cases d <;> decide

theorem isDigit_lt {b : UInt8} (h : isDigit b) : b < 0x80 := by
  simp only [isDigit, Bool.and_eq_true, decide_eq_true_eq, UInt8.le_iff_toNat_le] at h
  rw [UInt8.lt_iff_toNat_lt]
  simp only [UInt8.reduceToNat] at h ⊢
  omega

theorem decimal_ne_nil (n : ℕ) : decimal n ≠ [] := by
  unfold decimal
  split
  · exact List.cons_ne_nil _ _
  · rename_i h
    simpa using Nat.digits_ne_nil_iff_ne_zero.mpr h

theorem isDigit_of_mem_decimal {n : ℕ} : ∀ b ∈ decimal n, isDigit b := by
  intro b hb
  unfold decimal at hb
  split at hb
  · rw [List.mem_singleton.mp hb]
    decide
  · obtain ⟨d, hd, rfl⟩ := List.mem_map.mp hb
    exact (digitByte_spec (Nat.digits_lt_base (by decide) (List.mem_reverse.mp hd))).1

theorem decimalValue_map_digitByte (l : List ℕ) (h : ∀ d ∈ l, d < 10) :
    decimalValue ((l.reverse).map digitByte) = Nat.ofDigits 10 l := by
  induction l with
  | nil => rfl
  | cons d l ih =>
    have hd := (digitByte_spec (h d (List.mem_cons_self ..))).2
    have hl := ih fun e he => h e (List.mem_cons_of_mem _ he)
    simp only [decimalValue, List.reverse_cons, List.map_append, List.foldl_append, List.map_cons,
      List.map_nil, List.foldl_cons, List.foldl_nil] at hl ⊢
    rw [hl, hd, Nat.ofDigits_cons]
    ring

theorem decimalValue_decimal (n : ℕ) : decimalValue (decimal n) = n := by
  unfold decimal
  split
  · rename_i h
    rw [h]
    rfl
  · rw [decimalValue_map_digitByte _ fun d hd => Nat.digits_lt_base (by decide) hd,
      Nat.ofDigits_digits]

theorem parseUint64_decimal (n : UInt64) : parseUint64 (decimal n.toNat) = some n := by
  have hlt : n.toNat < 2 ^ 64 := n.toNat_lt
  unfold parseUint64
  rw [decimalValue_decimal, if_pos ⟨decimal_ne_nil _, List.all_eq_true.mpr isDigit_of_mem_decimal, hlt⟩,
    UInt64.ofNat_toNat]

theorem head_decimal {n : ℕ} (h : n ≠ 0) : ∃ b rest, decimal n = b :: rest ∧ b ≠ 0x30 := by
  have hne := Nat.digits_ne_nil_iff_ne_zero (b := 10) |>.mpr h
  obtain ⟨l, d, hl⟩ := List.eq_nil_or_concat (Nat.digits 10 n) |>.resolve_left hne
  have hd : d ≠ 0 := by
    have := Nat.getLast_digit_ne_zero 10 h
    simpa [hl] using this
  have hd10 : d < 10 := Nat.digits_lt_base (by decide : 1 < 10) (m := n) (by rw [hl]; simp)
  refine ⟨digitByte d, (l.reverse).map digitByte, ?_, ?_⟩
  · simp [decimal, h, hl]
  · intro he
    have := (digitByte_spec hd10).2
    rw [he] at this
    exact hd (by simpa using this.symm)

theorem digitByte_sub {b : UInt8} (h : isDigit b) :
    b.toNat - 0x30 < 10 ∧ digitByte (b.toNat - 0x30) = b := by
  simp only [isDigit, Bool.and_eq_true, decide_eq_true_eq, UInt8.le_iff_toNat_le] at h
  simp only [UInt8.reduceToNat] at h
  refine ⟨by omega, ?_⟩
  rw [digitByte, show 0x30 + (b.toNat - 0x30) = b.toNat by omega, UInt8.ofNat_toNat]

/-- A text of digits is that of its value, unless it begins with a zero that it does not need. -/
theorem decimal_decimalValue {t : Bytes} (hne : t ≠ []) (hdigits : ∀ b ∈ t, isDigit b)
    (hlead : t.length = 1 ∨ t.head? ≠ some 0x30) : decimal (decimalValue t) = t := by
  by_cases hzero : t = [0x30]
  · rw [hzero]
    rfl
  · have hhead : t.head? ≠ some 0x30 := by
      rcases hlead with hlength | hhead
      · obtain ⟨b, rfl⟩ := List.length_eq_one_iff.mp hlength
        intro hb
        rw [List.head?_cons, Option.some.injEq] at hb
        exact hzero (congrArg (fun x => [x]) hb)
      · exact hhead
    obtain ⟨l, hl⟩ : ∃ l, l = (t.map fun b => b.toNat - 0x30).reverse := ⟨_, rfl⟩
    have hback : l.reverse.map digitByte = t := by
      rw [hl, List.reverse_reverse, List.map_map]
      refine (List.map_congr_left fun b hb => ?_).trans (List.map_id t)
      exact (digitByte_sub (hdigits b hb)).2
    have hlt : ∀ d ∈ l, d < 10 := by
      intro d hd
      rw [hl, List.mem_reverse] at hd
      obtain ⟨b, hb, rfl⟩ := List.mem_map.mp hd
      exact (digitByte_sub (hdigits b hb)).1
    have hvalue : decimalValue t = Nat.ofDigits 10 l := by
      rw [← hback, decimalValue_map_digitByte l hlt]
    have hlast (h : l ≠ []) : l.getLast h ≠ 0 := by
      obtain ⟨b, rest, rfl⟩ := List.exists_cons_of_ne_nil hne
      intro hb
      simp only [hl, List.map_cons, List.reverse_cons, List.getLast_append_singleton] at hb
      have hsame := (digitByte_sub (hdigits b (List.mem_cons_self ..))).2
      rw [hb] at hsame
      exact hhead (congrArg some hsame.symm)
    have hdig : Nat.digits 10 (decimalValue t) = l := by
      rw [hvalue, Nat.digits_ofDigits 10 (by decide) l hlt hlast]
    have hpos : decimalValue t ≠ 0 := by
      intro h
      rw [h, Nat.digits_zero] at hdig
      rw [← hdig] at hback
      exact hne hback.symm
    rw [decimal, if_neg hpos, hdig, hback]

/-! ### Signed integers -/

/-- An `int` after an operation. -/
def wrapInt (n : ℤ) : ℤ := Int.bmod n (2 ^ 64)

theorem wrapInt_of_range {n : ℤ} (hlow : -2 ^ 63 ≤ n) (hhigh : n < 2 ^ 63) : wrapInt n = n :=
  Int.bmod_eq_of_le (by omega) (by omega)

theorem wrapInt_range (n : ℤ) : -2 ^ 63 ≤ wrapInt n ∧ wrapInt n < 2 ^ 63 := by
  have hlow := Int.le_bmod (x := n) (m := 2 ^ 64) (by decide)
  have hhigh := Int.bmod_lt (x := n) (m := 2 ^ 64) (by decide)
  unfold wrapInt
  omega

theorem wrapInt_sub_two_pow (n : ℤ) : wrapInt (n - 2 ^ 64) = wrapInt n := by
  have h := Int.sub_bmod_right n (2 ^ 64)
  rwa [Nat.cast_pow, Nat.cast_ofNat] at h

theorem wrapInt_eq_iff (n : ℤ) : wrapInt n = n ↔ -2 ^ 63 ≤ n ∧ n < 2 ^ 63 := by
  constructor
  · intro h
    rw [← h]
    exact wrapInt_range n
  · rintro ⟨hlow, hhigh⟩
    exact wrapInt_of_range hlow hhigh

/-- `strconv.Atoi`. -/
def atoi (s : Bytes) : Option ℤ :=
  let unsigned (digits : Bytes) (limit : ℕ) : Option ℤ :=
    if digits ≠ [] ∧ digits.all isDigit ∧ decimalValue digits ≤ limit then
      some (decimalValue digits)
    else none
  match s with
  | 0x2B :: digits => unsigned digits (2 ^ 63 - 1)
  | 0x2D :: digits => (unsigned digits (2 ^ 63)).map fun n => -n
  | digits => unsigned digits (2 ^ 63 - 1)

end GoLib
