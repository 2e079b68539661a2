import Gazetteer.MessagePack.Reader
import Gazetteer.Decimal.Rounding

/-! What a value that was read can stand for. Numbers may come in any form that holds them, a record
as a map or as the array of its fields, and an array of small numbers as binary data. -/
namespace Gazetteer.MessagePack.Value

def below? (bound : Nat) : Value → Option Nat
  | unsigned n => if n < bound then some n else none
  | signed n => if 0 ≤ n ∧ n < bound then some n.toNat else none
  | _ => none

def uint8? (v : Value) : Option UInt8 := (v.below? UInt8.size).map UInt8.ofNat

def uint32? (v : Value) : Option UInt32 := (v.below? UInt32.size).map UInt32.ofNat

def uint64? (v : Value) : Option UInt64 := (v.below? UInt64.size).map UInt64.ofNat

/-- The binary64 number of the bits of a binary32 number. A payload is kept, and made quiet. -/
def widen (bits : UInt32) : Binary64 :=
  let exponent := bits.toNat / 0x800000 % 256
  let fraction := bits.toNat % 0x800000
  let magnitude : Binary64 :=
    if exponent = 255 then
      if fraction = 0 then Binary64.infinity
      else ⟨UInt64.ofNat (0x7ff8000000000000 + fraction % 0x400000 * 0x20000000)⟩
    else if exponent = 0 then Decimal.nearest fraction (Decimal.raise 1 149)
    else ⟨UInt64.ofNat ((exponent + 896) * Binary64.leadingBit + fraction * 0x20000000)⟩
  magnitude.withSign (0x80000000 ≤ bits.toNat)

/-- A number: any number will do, the nearest binary64 number standing for a large integer. -/
def real? : Value → Option Binary64
  | double x => some x
  | single bits => some (widen bits)
  | unsigned n => some (n : Binary64)
  | signed n => some ((n.natAbs : Binary64).withSign (n < 0))
  | _ => none

def string? : Value → Option String
  | text utf8 => String.fromUTF8? ⟨utf8.toArray⟩
  | binary utf8 => String.fromUTF8? ⟨utf8.toArray⟩
  | _ => none

def char? : Value → Option Char
  | text utf8 =>
    match (String.fromUTF8? ⟨utf8.toArray⟩).map String.toList with
    | some [c] => some c
    | _ => none
  | _ => none

def items? : Value → Option (List Value)
  | array vs => some vs
  | binary bytes => some (bytes.map fun b => unsigned b.toNat)
  | _ => none

def list? {α : Type} (view : Value → Option α) (v : Value) : Option (List α) :=
  v.items?.bind (·.mapM view)

def pair? {α β : Type} (first : Value → Option α) (second : Value → Option β) (v : Value) :
    Option (α × β) :=
  match v.items? with
  | some [a, b] => do some (← first a, ← second b)
  | _ => none

/-- The place among `names` of the field that a key of a record stands for; the number of names for
an unknown field. Fields go by name or by place. -/
def fieldIndex? (names : List String) : Value → Option Nat
  | text utf8 => some (names.findIdx (·.toUTF8.data.toList = utf8))
  | binary utf8 => some (names.findIdx (·.toUTF8.data.toList = utf8))
  | unsigned n => some (min n names.length)
  | _ => none

/-- The values of a record's fields in the order of their names. Each field comes exactly once, and
unknown fields are passed over. -/
def fields? (names : List String) : Value → Option (List Value)
  | array vs => if vs.length = names.length then some vs else none
  | map entries => do
    let placed ← entries.mapM fun e => (fieldIndex? names e.1).map (·, e.2)
    (List.range names.length).mapM fun i =>
      match placed.filter (·.1 = i) with
      | [(_, v)] => some v
      | _ => none
  | _ => none

end Gazetteer.MessagePack.Value
