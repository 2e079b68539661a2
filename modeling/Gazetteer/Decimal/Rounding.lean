import Gazetteer.Binary64

/-! Rounding of fractions: to a whole number and to a binary64 number, ties to even. -/
namespace Gazetteer.Decimal

-- Powers of natural numbers are those of core.
attribute [local instance (high)] instPowNat

/-- The whole number nearest to `num / den`; a tie goes to the even one. -/
def roundDiv (num den : Nat) : Nat :=
  let q := num / den
  let r := num % den
  if 2 * r < den then q else if den < 2 * r then q + 1 else q + q % 2

/-- `n * 2 ^ k` for `k` at least zero, and `n` for a negative `k`. -/
def raise (n : Nat) (k : Int) : Nat := n * 2 ^ k.toNat

/-- The binary64 number nearest to `num / den`, infinity from half a unit above the largest. The
significand takes 53 bits, and fewer only at the smallest exponent. -/
def nearest (num den : Nat) : Binary64 :=
  if num = 0 ∨ den = 0 then ⟨0⟩
  else
    let e : Int := num.log2 - den.log2
    let top := if raise num (-e) < raise den e then e - 1 else e
    let q := max (top - 52) (-1074)
    let bits := (q + 1074).toNat * Binary64.leadingBit + roundDiv (raise num (-q)) (raise den q)
    if bits < 0x7ff0000000000000 then ⟨UInt64.ofNat bits⟩ else Binary64.infinity

def digitCount (n : Nat) : Nat := if n = 0 then 0 else (Nat.toDigits 10 n).length

def toBinary64 (digits : Nat) (exponent : Int) : Binary64 :=
  let size := digitCount digits + exponent
  if digits = 0 ∨ size < -400 then ⟨0⟩
  else if 400 < size then Binary64.infinity
  else nearest (digits * 10 ^ exponent.toNat) (10 ^ (-exponent).toNat)

end Gazetteer.Decimal
