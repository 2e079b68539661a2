import Gazetteer.Decimal.Rounding

/-! The shortest decimal of a binary64 number: the fewest digits that read back as the number, and
of those the nearest to it. -/
namespace Gazetteer.Decimal

-- Powers of natural numbers are those of core.
attribute [local instance (high)] instPowNat

/-- The number `digits * 10 ^ exponent`. -/
structure Digits where
  digits : Nat
  exponent : Int
deriving DecidableEq, Repr

def Digits.leading (d : Digits) : Int := digitCount d.digits + d.exponent - 1

/-- A positive number with the ends of the interval that rounds to it, all over one denominator. -/
structure Interval where
  low : Nat
  value : Nat
  high : Nat
  den : Nat
  /-- The ends round to the number too. -/
  closed : Bool

/-- The reals that round to the magnitude of `x`: up to half the gap to the next number, and half as
far below a power of two. -/
def Interval.of (x : Binary64) : Interval :=
  let (m, e) := x.decompose
  let below := if m = Binary64.leadingBit ∧ -1074 < e then 1 else 2
  let up := 2 ^ (e - 2).toNat
  ⟨(4 * m - below) * up, 4 * m * up, (4 * m + 2) * up, 2 ^ (2 - e).toNat, m % 2 = 0⟩

namespace Interval

/-- The exponent of the first decimal digit of the value. -/
def leading (i : Interval) : Int :=
  if i.den ≤ i.value then digitCount (i.value / i.den) - 1
  else -(digitCount ((i.den - 1) / i.value) : Nat)

/-- `num / den` rounds to the value. -/
def admits (i : Interval) (num den : Nat) : Bool :=
  if i.closed then i.low * den ≤ num * i.den && num * i.den ≤ i.high * den
  else i.low * den < num * i.den && num * i.den < i.high * den

/-- The nearer to the value of its two neighbours among the multiples of `10 ^ exponent`, if it or
else the other rounds to the value. -/
def onGrid? (i : Interval) (exponent : Int) : Option Digits :=
  let up := 10 ^ exponent.toNat
  let down := 10 ^ (-exponent).toNat
  let floor := i.value * down / (i.den * up)
  let choice := if 2 * (i.value * down) < (2 * floor + 1) * (i.den * up) then
    [floor, floor + 1] else [floor + 1, floor]
  (choice.find? fun c => i.admits (c * up) down).map (⟨·, exponent⟩)

/-- The first grid with a neighbour that rounds to the value, from grids of one digit to those of
`n` digits. -/
def shortest (i : Interval) : Nat → Digits
  | 0 => ⟨0, 0⟩
  | n + 1 => (i.onGrid? (i.leading - (17 - (n + 1) : Nat))).getD (shortest i n)

end Interval

def Digits.trim : Nat → Digits → Digits
  | 0, d => d
  | fuel + 1, d =>
    if d.digits ≠ 0 ∧ d.digits % 10 = 0 then trim fuel ⟨d.digits / 10, d.exponent + 1⟩ else d

/-- The shortest decimal of the magnitude of a finite number. Seventeen digits always suffice. -/
def shortest (x : Binary64) : Digits :=
  if x.decompose.1 = 0 then ⟨0, 0⟩ else ((Interval.of x).shortest 17).trim 17

end Gazetteer.Decimal
