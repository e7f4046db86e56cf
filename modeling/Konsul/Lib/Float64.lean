import Mathlib.Data.List.DropRight
import Konsul.Lib.Decimal

/-!
# Numbers of JSON as float64

An untyped value holds a number as a `float64`: the nearest one to the literal, ties to
the even mantissa. It is written as the shortest decimal that is read as the same
`float64`, in plain digits from 1e-6 up to 1e21 and with an exponent elsewhere.
-/

namespace GoLib

/-- `mantissa * 2 ^ exponent`. -/
structure Float64 where
  mantissa : ℕ
  exponent : ℤ
  deriving DecidableEq

namespace Float64

/-- `num / den * base ^ e`, as a fraction. -/
def scaled (base num den : ℕ) (e : ℤ) : ℕ × ℕ :=
  if 0 ≤ e then (num * base ^ e.toNat, den) else (num, den * base ^ (-e).toNat)

/-- The nearest number to `num / den`, ties to even. -/
def halfEven (num den : ℕ) : ℕ :=
  let q := num / den
  let r := num % den
  if den < 2 * r ∨ (2 * r = den ∧ q % 2 = 1) then q + 1 else q

/-- The exponent of the largest power of the base up to `num / den`, from those of `num`
and `den`, which differ by it or by one more. -/
def logFrom (base num den : ℕ) (difference : ℤ) : ℤ :=
  let (p, q) := scaled base num den (-difference)
  if p < q then difference - 1 else difference

/-- The least exponent is that of the subnormal numbers. -/
def ofRatio (num den : ℕ) : Float64 :=
  let e := max (-1074) (logFrom 2 num den ((Nat.log2 num : ℤ) - Nat.log2 den) - 52)
  let (p, q) := scaled 2 num den (-e)
  let m := halfEven p q
  if m = 2 ^ 53 then ⟨2 ^ 52, e + 1⟩ else ⟨m, e⟩

/-- `digits * 10 ^ e`. -/
def ofDecimal (digits : ℕ) (e : ℤ) : Float64 :=
  let (p, q) := scaled 10 digits 1 e
  ofRatio p q

def isInf (f : Float64) : Bool := 971 < f.exponent

/-- The nearest decimal of `k` digits that is read as the number. -/
def candidate (f : Float64) (k : ℕ) : Option (ℕ × ℤ) :=
  let (num, den) := scaled 2 f.mantissa 1 f.exponent
  let e := logFrom 10 num den (((decimal num).length : ℤ) - (decimal den).length) - k + 1
  let (p, q) := scaled 10 num den (-e)
  let near := halfEven p q
  let far := if near = p / q then p / q + 1 else p / q
  ([near, far].find? fun digits => ofDecimal digits e = f).map fun digits => (digits, e)

/-- The shortest decimal that is read as the number. -/
def shortest (f : Float64) : ℕ × ℤ :=
  (((List.range 17).map (· + 1)).findSome? f.candidate).getD (0, 0)

def zeros (n : ℕ) : Bytes := List.replicate n 0x30

/-- The text of `digits * 10 ^ e`, for digits without zeros at the end. -/
def decimalText (digits : Bytes) (e : ℤ) : Bytes :=
  -- the place of the point, counted from the first digit
  let point : ℤ := digits.length + e
  if -6 < point ∧ point ≤ 21 then
    if point ≤ 0 then [0x30, 0x2E] ++ zeros (-point).toNat ++ digits
    else if digits.length ≤ point then digits ++ zeros e.toNat
    else digits.take point.toNat ++ [0x2E] ++ digits.drop point.toNat
  else
    let fraction := if digits.length = 1 then [] else 0x2E :: digits.tail
    let sign : UInt8 := if 0 < point then 0x2B else 0x2D
    digits.take 1 ++ fraction ++ [0x65, sign] ++ decimal (point - 1).natAbs

/-- How `encoding/json` writes the number. -/
def text (f : Float64) : Bytes :=
  if f.mantissa = 0 then [0x30]
  else
    let (digits, e) := f.shortest
    let kept := (decimal digits).rdropWhile (· = 0x30)
    decimalText kept (e + ((decimal digits).length - kept.length : ℕ))

/-- A literal of JSON: whether it is negative, its digits and the power of ten. -/
def literal (lit : Bytes) : Bool × ℕ × ℤ :=
  let negative := lit.head? = some 0x2D
  let rest := if negative then lit.tail else lit
  let int := rest.takeWhile isDigit
  let afterInt := rest.dropWhile isDigit
  let fraction := if afterInt.head? = some 0x2E then afterInt.tail.takeWhile isDigit else []
  let exponent := if afterInt.head? = some 0x2E then afterInt.tail.dropWhile isDigit else afterInt
  let power : ℤ :=
    match exponent with
    | _ :: 0x2D :: ds => -decimalValue ds
    | _ :: 0x2B :: ds => decimalValue ds
    | _ :: ds => decimalValue ds
    | [] => 0
  (negative, decimalValue (int ++ fraction), power - fraction.length)

/-- A literal read and written again; one out of range is an error. -/
def reread (lit : Bytes) : Option Bytes :=
  let (negative, digits, e) := literal lit
  let f := ofDecimal digits e
  if f.isInf then none else some ((if negative then [0x2D] else []) ++ f.text)

/-- 2 ^ 53 + 1 is not a float64, and 2 ^ 64 - 1 is written with its first digits only. -/
example : reread (decimal 9007199254740993) = some (decimal 9007199254740992) ∧
    reread (decimal 18446744073709551615) = some (decimal 18446744073709552000) := by
  decide +kernel

end Float64

end GoLib
