/-! Binary64 numbers by their bits. Arithmetic and comparison are those of `Float`; equality is
equality of bits, so a stored number and a copy of it are the same value, not-a-number included. -/
namespace Gazetteer

/-- A 64-bit binary floating-point number, payload bits included. -/
structure Binary64 where
  bits : UInt64
deriving DecidableEq, Repr, Inhabited

namespace Binary64

@[inline] def toFloat (x : Binary64) : Float := Float.ofBits x.bits

@[inline] def ofFloat (x : Float) : Binary64 := ⟨x.toBits⟩

instance : Add Binary64 := ⟨fun x y => ofFloat (x.toFloat + y.toFloat)⟩
instance : Sub Binary64 := ⟨fun x y => ofFloat (x.toFloat - y.toFloat)⟩
instance : Mul Binary64 := ⟨fun x y => ofFloat (x.toFloat * y.toFloat)⟩
instance : Div Binary64 := ⟨fun x y => ofFloat (x.toFloat / y.toFloat)⟩

/-- Negation flips the sign bit alone. -/
instance : Neg Binary64 := ⟨fun x => ⟨x.bits ^^^ 0x8000000000000000⟩⟩

instance : LE Binary64 := ⟨fun x y => x.toFloat ≤ y.toFloat⟩
instance : LT Binary64 := ⟨fun x y => x.toFloat < y.toFloat⟩

instance : DecidableLE Binary64 := fun x y => inferInstanceAs (Decidable (x.toFloat ≤ y.toFloat))
instance : DecidableLT Binary64 := fun x y => inferInstanceAs (Decidable (x.toFloat < y.toFloat))

/-- The nearest number to a natural number below `2 ^ 64`. -/
instance : NatCast Binary64 := ⟨fun n => ofFloat (UInt64.ofNat n).toFloat⟩

instance (n : Nat) : OfNat Binary64 n := ⟨(n : Binary64)⟩

/-- The numbers compare equal: the zeros do, and not-a-number differs from itself. -/
def same (x y : Binary64) : Bool := x.toFloat == y.toFloat

def isFinite (x : Binary64) : Bool := x.toFloat.isFinite

def isNaN (x : Binary64) : Bool := x.toFloat.isNaN

def isNegative (x : Binary64) : Bool := x.bits ≥ 0x8000000000000000

/-- The integer part, kept within `[0, 2 ^ 32 - 1]`; not-a-number gives zero. -/
def truncate (x : Binary64) : Nat := x.toFloat.toUInt32.toNat

def infinity : Binary64 := ⟨0x7ff0000000000000⟩

def nan : Binary64 := ⟨0x7ff8000000000000⟩

def withSign (negative : Bool) (x : Binary64) : Binary64 := if negative then -x else x

/-- The weight of the leading bit of a normal significand: two to the power of 52. -/
def leadingBit : Nat := 0x10000000000000

/-- The significand and the exponent of a finite number: its magnitude is `m * 2 ^ e`. -/
def decompose (x : Binary64) : Nat × Int :=
  let exponent := (x.bits >>> 52).toNat % 2048
  let fraction := x.bits.toNat % leadingBit
  if exponent = 0 then (fraction, -1074) else (fraction + leadingBit, exponent - 1075)

end Binary64
end Gazetteer
