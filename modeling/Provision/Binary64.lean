/-! Finite binary floating-point numbers of sixty-four bits, in exact arithmetic: rounding a quotient
to the nearest one, reading a decimal, and writing the shortest decimal that reads back. -/
namespace Provision

/-- The value `± mantissa · 2 ^ exponent`. A mantissa has at most 53 bits and the exponent is at
least -1074; the mantissa has all 53 bits unless the exponent is the least. -/
structure Binary64 where
  negative : Bool
  mantissa : Nat
  exponent : Int
  deriving DecidableEq

namespace Binary64

/-- A magnitude: mantissa and exponent without a sign. -/
structure Magnitude where
  mantissa : Nat
  exponent : Int
  deriving DecidableEq

/-- The quotient rounded to the nearest whole number, a half to the even neighbour. -/
def roundDiv (num den : Nat) : Nat :=
  let q := num / den
  let r := num % den
  if 2 * r < den then q
  else if 2 * r = den then q + q % 2
  else q + 1

/-- `num / den · 2 ^ -e` as a quotient of natural numbers. -/
def scaled (num den : Nat) (e : Int) : Nat × Nat :=
  if 0 ≤ e then (num, den * Nat.pow 2 e.toNat)
  else (num * Nat.pow 2 (-e).toNat, den)

/-- The magnitude nearest to `num / den`, of two the one with the even mantissa. Nothing is near
enough to a quotient beyond the range. -/
def nearest? (num den : Nat) : Option Magnitude :=
  if num = 0 then some ⟨0, -1074⟩
  else
    let guess : Int := (num.log2 : Int) - den.log2 - 53
    let (n, d) := scaled num den guess
    let exponent := max (if n / d < Nat.pow 2 53 then guess else guess + 1) (-1074)
    let (n, d) := scaled num den exponent
    let m := roundDiv n d
    let (m, exponent) := if m = Nat.pow 2 53 then (Nat.pow 2 52, exponent + 1) else (m, exponent)
    if 971 < exponent then none else some ⟨m, exponent⟩

namespace Magnitude

/-- The value as a quotient. -/
def quotient (x : Magnitude) : Nat × Nat :=
  if 0 ≤ x.exponent then (x.mantissa * Nat.pow 2 x.exponent.toNat, 1)
  else (x.mantissa, Nat.pow 2 (-x.exponent).toNat)

def mul? (x y : Magnitude) : Option Magnitude :=
  nearest? (x.quotient.1 * y.quotient.1) (x.quotient.2 * y.quotient.2)

def div? (x y : Magnitude) : Option Magnitude :=
  nearest? (x.quotient.1 * y.quotient.2) (x.quotient.2 * y.quotient.1)

end Magnitude

/-- The greatest power of ten in the range. -/
def topPower : Nat := 308

def powerOfTen? (k : Nat) : Option Magnitude := nearest? (Nat.pow 10 k) 1

/-- `x / 10 ^ k`, at most `topPower` powers at a time. Two full steps take any whole number of
sixty-four bits to zero, so three are enough. -/
def lower? (x : Magnitude) (k : Nat) : Nat → Option Magnitude
  | 0 => some x
  | steps + 1 =>
    if k ≤ topPower then powerOfTen? k >>= x.div?
    else if x.mantissa = 0 then some x
    else do
      let x ← powerOfTen? topPower >>= x.div?
      lower? x (k - topPower) steps

/-- `significand · 10 ^ power`, where the significand, the power of ten and their product or
quotient are each rounded. A number beyond the range is refused. -/
def ofDecimal? (negative : Bool) (significand : Nat) (power : Int) : Option Binary64 := do
  let x ← nearest? significand 1
  let x ←
    if 0 ≤ power then
      if power.toNat ≤ topPower then powerOfTen? power.toNat >>= x.mul?
      else if x.mantissa = 0 then some x
      else none
    else lower? x (-power).toNat 3
  return ⟨negative, x.mantissa, x.exponent⟩

/-- `digits · 10 ^ power`. -/
structure Decimal where
  digits : Nat
  power : Int
  deriving DecidableEq

/-- Compares `a · 10 ^ s` with `b · 2 ^ q`. -/
def compareDecimal (a : Nat) (s : Int) (b : Nat) (q : Int) : Ordering :=
  compare (a * Nat.pow 10 s.toNat * Nat.pow 2 (-q).toNat)
    (b * Nat.pow 2 q.toNat * Nat.pow 10 (-s).toNat)

/-- Whether `a · 10 ^ s` rounds to the magnitude: it lies half a step around it, the ends included
if the mantissa is even. Below a power of two the step is half as long. -/
def roundsTo (x : Magnitude) (a : Nat) (s : Int) : Bool :=
  let below := if x.mantissa = Nat.pow 2 52 ∧ -1074 < x.exponent then 1 else 2
  let low := compareDecimal a s (4 * x.mantissa - below) (x.exponent - 2)
  let high := compareDecimal a s (4 * x.mantissa + 2) (x.exponent - 2)
  if x.mantissa % 2 = 0 then low != .lt && high != .gt else low == .gt && high == .lt

/-- The largest multiple of `10 ^ s` that is not above the magnitude. -/
def floorOn (x : Magnitude) (s : Int) : Nat :=
  let (n, d) := x.quotient
  n * Nat.pow 10 (-s).toNat / (d * Nat.pow 10 s.toNat)

/-- The point of the grid of step `10 ^ s` that rounds to the magnitude, of two the nearer, and of
two equally near the even one. -/
def onGrid? (x : Magnitude) (s : Int) : Option Nat :=
  let a := floorOn x s
  match roundsTo x a s, roundsTo x (a + 1) s with
  | true, true =>
    match compareDecimal (2 * a + 1) s (2 * x.mantissa) x.exponent with
    | .gt => some a
    | .lt => some (a + 1)
    | .eq => some (a + a % 2)
  | true, false => some a
  | false, true => some (a + 1)
  | false, false => none

/-- The grids from step `10 ^ s` on, each ten times finer than the one before. -/
def shortestFrom (x : Magnitude) (s : Int) : Nat → Decimal
  | 0 => ⟨floorOn x s, s⟩
  | n + 1 =>
    match onGrid? x s with
    | some a => ⟨a, s⟩
    | none => shortestFrom x (s - 1) n

/-- The decimal with the fewest digits that reads back as the magnitude: the point on the coarsest
grid that has one. -/
def shortest (x : Magnitude) : Decimal := shortestFrom x 309 640

/-- Digits with the decimal point after the first `n`. -/
def pointed (digits : List Char) (n : Nat) : List Char :=
  digits.take n ++ '.' :: digits.drop n

/-- The text of a decimal: positional as long as the point stands at most five places before or
sixteen places after the first digit, with an exponent and its sign otherwise. -/
def Decimal.text (x : Decimal) : List Char :=
  let digits := Nat.toDigits 10 x.digits
  let point : Int := digits.length + x.power
  if 0 ≤ x.power ∧ point ≤ 16 then digits ++ List.replicate x.power.toNat '0' ++ ".0".toList
  else if 0 < point ∧ point ≤ 16 then pointed digits point.toNat
  else if -5 < point ∧ point ≤ 0 then
    "0.".toList ++ List.replicate (-point).toNat '0' ++ digits
  else
    let sign := if 0 < point then '+' else '-'
    let exponent := 'e' :: sign :: Nat.toDigits 10 (point - 1).natAbs
    if digits.length = 1 then digits ++ exponent else pointed digits 1 ++ exponent

def text (x : Binary64) : List Char :=
  let sign := if x.negative then ['-'] else []
  if x.mantissa = 0 then sign ++ "0.0".toList
  else sign ++ (shortest ⟨x.mantissa, x.exponent⟩).text

end Binary64
end Provision
