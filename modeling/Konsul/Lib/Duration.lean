import Konsul.Lib.Float64
import Konsul.Lib.Strings

/-!
# Duration strings

`parseDuration` is `time.ParseDuration`: a sign, and numbers each with a unit, in
nanoseconds. A fraction is scaled as a float64, and the sum is kept in 64 bits.
-/

namespace GoLib

namespace Float64

def one : Float64 := ofRatio 1 1

def mul (f g : Float64) : Float64 :=
  let (p, q) := scaled 2 (f.mantissa * g.mantissa) 1 (f.exponent + g.exponent)
  ofRatio p q

/-- A quotient by infinity is zero. -/
def div (f g : Float64) : Float64 :=
  if g.isInf then ⟨0, 0⟩
  else
    let (p, q) := scaled 2 f.mantissa g.mantissa (f.exponent - g.exponent)
    ofRatio p q

/-- The integer part. -/
def floor (f : Float64) : ℕ :=
  let (p, q) := scaled 2 f.mantissa 1 f.exponent
  p / q

end Float64

namespace Duration

/-- `leadingInt`: the digits in front, and the rest; `none` is an overflow. -/
def leadingInt : ℕ → Bytes → Option (ℕ × Bytes)
  | x, [] => some (x, [])
  | x, b :: s =>
    if isDigit b then
      if 2 ^ 63 / 10 < x then none
      else
        let y := x * 10 + (b.toNat - 0x30)
        if 2 ^ 63 < y then none else leadingInt y s
    else some (x, b :: s)

/-- `leadingFraction`: the digits behind the point and their scale; digits that
overflow are passed over. -/
def leadingFraction : ℕ → Float64 → Bool → Bytes → ℕ × Float64 × Bytes
  | x, scale, _, [] => (x, scale, [])
  | x, scale, overflow, b :: s =>
    if isDigit b then
      let y := x * 10 + (b.toNat - 0x30)
      if overflow ∨ (2 ^ 63 - 1) / 10 < x ∨ 2 ^ 63 < y then leadingFraction x scale true s
      else leadingFraction y (scale.mul (Float64.ofRatio 10 1)) false s
    else (x, scale, b :: s)

/-- `unitMap`, in nanoseconds; the two signs for micro are U+00B5 and U+03BC. -/
def unitMap (u : Bytes) : Option ℕ :=
  if u = [0x6E, 0x73] then some 1
  else if u = [0x75, 0x73] ∨ u = [0xC2, 0xB5, 0x73] ∨ u = [0xCE, 0xBC, 0x73] then some 1000
  else if u = [0x6D, 0x73] then some 1000000
  else if u = [0x73] then some 1000000000
  else if u = [0x6D] then some 60000000000
  else if u = [0x68] then some 3600000000000
  else none

def isNumeral (b : UInt8) : Bool := b == 0x2E || isDigit b

/-- One number with its unit, in nanoseconds, and the rest. -/
def component (s : Bytes) : Option (ℕ × Bytes) := do
  let (v, afterInt) ← leadingInt 0 s
  let (f, scale, afterFraction) :=
    if afterInt.head? = some 0x2E then leadingFraction 0 Float64.one false afterInt.tail
    else (0, Float64.one, afterInt)
  -- a point alone is no number
  if (s.takeWhile isNumeral).all (· = 0x2E) then none
  else
    let unit ← unitMap (afterFraction.takeWhile fun b => !isNumeral b)
    if 2 ^ 63 / unit < v then none
    else
      let part := ((Float64.ofRatio f 1).mul ((Float64.ofRatio unit 1).div scale)).floor
      let v := v * unit + if 0 < f then part else 0
      if 2 ^ 63 < v then none else some (v, afterFraction.dropWhile fun b => !isNumeral b)

/-- The sum of the components, in 64 bits; every component shortens the text. -/
def sum : ℕ → ℕ → Bytes → Option ℕ
  | _, d, [] => some d
  | 0, _, _ :: _ => none
  | fuel + 1, d, s => do
    let (v, rest) ← component s
    let d := (d + v) % 2 ^ 64
    if 2 ^ 63 < d then none else sum fuel d rest

end Duration

/-- `time.ParseDuration`. -/
def parseDuration (s : Bytes) : Option ℤ :=
  let signed := s.head? = some 0x2D ∨ s.head? = some 0x2B
  let body := if signed then s.tail else s
  if body = [0x30] then some 0
  else if body = [] then none
  else
    match Duration.sum body.length 0 body with
    | none => none
    | some d =>
      if s.head? = some 0x2D then some (-d) else if 2 ^ 63 - 1 < d then none else some d

end GoLib
