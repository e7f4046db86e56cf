import Konsul.Lib.Decimal
import Mathlib.Tactic.Linarith

/-!
# Base64

`base64.StdEncoding`: three bytes as four letters, the last group padded. The
decoder skips line ends, and does not look at the bits a padded group leaves over.
-/

namespace GoLib

namespace Base64

def pad : UInt8 := 0x3D

/-- The letter of six bits. -/
def letter (n : ℕ) : UInt8 :=
  if n < 26 then UInt8.ofNat (0x41 + n)
  else if n < 52 then UInt8.ofNat (0x61 + (n - 26))
  else if n < 62 then UInt8.ofNat (0x30 + (n - 52))
  else if n = 62 then 0x2B
  else 0x2F

def value (b : UInt8) : Option ℕ :=
  if 0x41 ≤ b ∧ b ≤ 0x5A then some (b.toNat - 0x41)
  else if 0x61 ≤ b ∧ b ≤ 0x7A then some (b.toNat - 0x61 + 26)
  else if 0x30 ≤ b ∧ b ≤ 0x39 then some (b.toNat - 0x30 + 52)
  else if b = 0x2B then some 62
  else if b = 0x2F then some 63
  else none

/-- The four letters of 24 bits. -/
def group (n : ℕ) : UInt8 × UInt8 × UInt8 × UInt8 :=
  (letter (n / 262144), letter (n / 4096 % 64), letter (n / 64 % 64), letter (n % 64))

def encode : Bytes → Bytes
  | a :: b :: c :: s =>
    let g := group (a.toNat * 65536 + b.toNat * 256 + c.toNat)
    g.1 :: g.2.1 :: g.2.2.1 :: g.2.2.2 :: encode s
  | [a, b] =>
    let g := group (a.toNat * 65536 + b.toNat * 256)
    [g.1, g.2.1, g.2.2.1, pad]
  | [a] =>
    let g := group (a.toNat * 65536)
    [g.1, g.2.1, pad, pad]
  | [] => []

/-- The groups of four letters, line ends taken out. -/
def decodeGroups : Bytes → Option Bytes
  | [] => some []
  | a :: b :: c :: d :: s => do
    let x ← value a
    let y ← value b
    if c = pad then
      if d = pad ∧ s = [] then some [UInt8.ofNat ((x * 64 + y) / 16)] else none
    else
      let z ← value c
      if d = pad then
        let n := (x * 4096 + y * 64 + z) / 4
        if s = [] then some [UInt8.ofNat (n / 256), UInt8.ofNat (n % 256)] else none
      else
        let w ← value d
        let n := x * 262144 + y * 4096 + z * 64 + w
        let rest ← decodeGroups s
        some (UInt8.ofNat (n / 65536) :: UInt8.ofNat (n / 256 % 256) :: UInt8.ofNat (n % 256) :: rest)
  | _ => none

def isLineEnd (b : UInt8) : Bool := b = 0x0A || b = 0x0D

def decode (s : Bytes) : Option Bytes := decodeGroups (s.filter fun b => ¬ isLineEnd b)

/-! ### Letters -/

theorem letter_spec {n : ℕ} (h : n < 64) : value (letter n) = some n ∧ letter n ≠ pad ∧
    isLineEnd (letter n) = false ∧ letter n < 0x80 := by
  have hall : ∀ n : Fin 64, value (letter n) = some n.val ∧ letter n ≠ pad ∧
      isLineEnd (letter n) = false ∧ letter n < 0x80 := by decide
  exact hall ⟨n, h⟩

/-- A letter, or the padding. -/
def IsLetter (b : UInt8) : Prop := b = pad ∨ ∃ n < 64, b = letter n

theorem IsLetter.spec {b : UInt8} (h : IsLetter b) : isLineEnd b = false ∧ b < 0x80 := by
  rcases h with rfl | ⟨n, hn, rfl⟩
  · exact ⟨by decide, by decide⟩
  · exact ⟨(letter_spec hn).2.2.1, (letter_spec hn).2.2.2⟩

theorem isLetter_group {n : ℕ} (h : n < 16777216) :
    IsLetter (group n).1 ∧ IsLetter (group n).2.1 ∧ IsLetter (group n).2.2.1 ∧
      IsLetter (group n).2.2.2 := by
  have hfirst : n / 262144 < 64 := by omega
  have hsecond : n / 4096 % 64 < 64 := by omega
  have hthird : n / 64 % 64 < 64 := by omega
  have hfourth : n % 64 < 64 := by omega
  exact ⟨Or.inr ⟨_, hfirst, rfl⟩, Or.inr ⟨_, hsecond, rfl⟩, Or.inr ⟨_, hthird, rfl⟩,
    Or.inr ⟨_, hfourth, rfl⟩⟩

theorem isLetter_of_mem_encode (s : Bytes) : ∀ b ∈ encode s, IsLetter b := by
  induction s using encode.induct with
  | case1 a b c s ih =>
    have ha := a.toNat_lt
    have hb := b.toNat_lt
    have hc := c.toNat_lt
    have hn : a.toNat * 65536 + b.toNat * 256 + c.toNat < 16777216 := by omega
    obtain ⟨h1, h2, h3, h4⟩ := isLetter_group hn
    intro x hx
    simp only [encode, List.mem_cons] at hx
    rcases hx with rfl | rfl | rfl | rfl | hx
    · exact h1
    · exact h2
    · exact h3
    · exact h4
    · exact ih x hx
  | case2 a b =>
    have ha := a.toNat_lt
    have hb := b.toNat_lt
    have hn : a.toNat * 65536 + b.toNat * 256 < 16777216 := by omega
    obtain ⟨h1, h2, h3, -⟩ := isLetter_group hn
    intro x hx
    simp only [encode, List.mem_cons, List.not_mem_nil, or_false] at hx
    rcases hx with rfl | rfl | rfl | rfl
    · exact h1
    · exact h2
    · exact h3
    · exact Or.inl rfl
  | case3 a =>
    have ha := a.toNat_lt
    have hn : a.toNat * 65536 < 16777216 := by omega
    obtain ⟨h1, h2, -, -⟩ := isLetter_group hn
    intro x hx
    simp only [encode, List.mem_cons, List.not_mem_nil, or_false] at hx
    rcases hx with rfl | rfl | rfl | rfl
    · exact h1
    · exact h2
    · exact Or.inl rfl
    · exact Or.inl rfl
  | case4 => exact fun x hx => absurd hx List.not_mem_nil

theorem ofNat_eq {b : UInt8} {n : ℕ} (h : n = b.toNat) : UInt8.ofNat n = b := by
  rw [h, UInt8.ofNat_toNat]

theorem digits_sum (n : ℕ) :
    n / 262144 * 262144 + n / 4096 % 64 * 4096 + n / 64 % 64 * 64 + n % 64 = n := by
  have h1 : n / 262144 * 64 + n / 4096 % 64 = n / 4096 := by omega
  have h2 : n / 4096 * 64 + n / 64 % 64 = n / 64 := by omega
  have h3 : n / 64 * 64 + n % 64 = n := by omega
  linarith only [h1, h2, h3]

theorem decodeGroups_encode (s : Bytes) : decodeGroups (encode s) = some s := by
  induction s using encode.induct with
  | case1 a b c s ih =>
    have ha := a.toNat_lt
    have hb := b.toNat_lt
    have hc := c.toNat_lt
    generalize hn : a.toNat * 65536 + b.toNat * 256 + c.toNat = n
    have h1 : n / 262144 < 64 := by omega
    have h2 : n / 4096 % 64 < 64 := by omega
    have h3 : n / 64 % 64 < 64 := by omega
    have h4 : n % 64 < 64 := by omega
    have hwhole := digits_sum n
    have hba : UInt8.ofNat (n / 65536) = a := ofNat_eq (by omega)
    have hbb : UInt8.ofNat (n / 256 % 256) = b := ofNat_eq (by omega)
    have hbc : UInt8.ofNat (n % 256) = c := ofNat_eq (by omega)
    rw [encode, hn]
    simp only [group, decodeGroups, (letter_spec h1).1, (letter_spec h2).1, (letter_spec h3).1,
      (letter_spec h4).1, (letter_spec h3).2.1, (letter_spec h4).2.1, ih, hwhole, hba, hbb, hbc,
      ite_false, Option.bind_eq_bind, Option.bind_some]
  | case2 a b =>
    have ha := a.toNat_lt
    have hb := b.toNat_lt
    generalize hn : a.toNat * 65536 + b.toNat * 256 = n
    have h1 : n / 262144 < 64 := by omega
    have h2 : n / 4096 % 64 < 64 := by omega
    have h3 : n / 64 % 64 < 64 := by omega
    have hwhole : (n / 262144 * 4096 + n / 4096 % 64 * 64 + n / 64 % 64) / 4 = n / 256 := by omega
    have hba : UInt8.ofNat (n / 256 / 256) = a := ofNat_eq (by omega)
    have hbb : UInt8.ofNat (n / 256 % 256) = b := ofNat_eq (by omega)
    rw [encode, hn]
    simp only [group, decodeGroups, (letter_spec h1).1, (letter_spec h2).1, (letter_spec h3).1,
      (letter_spec h3).2.1, hwhole, hba, hbb, ite_false, ite_true, Option.bind_eq_bind,
      Option.bind_some]
  | case3 a =>
    have ha := a.toNat_lt
    generalize hn : a.toNat * 65536 = n
    have h1 : n / 262144 < 64 := by omega
    have h2 : n / 4096 % 64 < 64 := by omega
    have hba : UInt8.ofNat ((n / 262144 * 64 + n / 4096 % 64) / 16) = a := ofNat_eq (by omega)
    rw [encode, hn]
    simp only [group, decodeGroups, (letter_spec h1).1, (letter_spec h2).1, hba, and_self, ite_true,
      Option.bind_eq_bind, Option.bind_some]
  | case4 => rfl

theorem decode_encode (s : Bytes) : decode (encode s) = some s := by
  have hkeep : (encode s).filter (fun b => ¬ isLineEnd b) = encode s := by
    refine List.filter_eq_self.mpr fun b hb => ?_
    rw [(isLetter_of_mem_encode s b hb).spec.1]
    rfl
  rw [decode, hkeep, decodeGroups_encode]

end Base64

end GoLib
