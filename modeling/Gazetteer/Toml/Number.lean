import Gazetteer.Decimal.Text
import Gazetteer.Toml.Quoted

/-! Numbers. Single underscores may stand between digits. -/
namespace Gazetteer.Toml

/-- Digits without the underscores between them. -/
def ungrouped? (isDigit : Char → Bool) : List Char → Option (List Char)
  | [] => none
  | [c] => if isDigit c then some [c] else none
  | c :: '_' :: cs => if isDigit c then (ungrouped? isDigit cs).map (c :: ·) else none
  | c :: cs => if isDigit c then (ungrouped? isDigit cs).map (c :: ·) else none

def natural? (base : Nat) (cs : List Char) : Option Nat := do
  let isDigit (c : Char) : Bool := (hexDigit? c).any (· < base)
  let digits ← (← ungrouped? isDigit cs).mapM hexDigit?
  some (digits.foldl (fun n d => base * n + d) 0)

def splitSign : List Char → Option Char × List Char
  | '+' :: cs => (some '+', cs)
  | '-' :: cs => (some '-', cs)
  | cs => (none, cs)

/-- Decimal digits without needless zeros at the head. -/
def isWhole (cs : List Char) : Bool :=
  match ungrouped? isDigit cs with
  | some ds => ds = ['0'] || ds.head? ≠ some '0'
  | none => false

/-- An integer: decimal ones may have a sign, others say their base. No integer has more than 128
bits. -/
def integer? (cs : List Char) : Option Int := do
  let n : Int ← match cs with
    | '0' :: 'x' :: digits => (natural? 16 digits).map Int.ofNat
    | '0' :: 'o' :: digits => (natural? 8 digits).map Int.ofNat
    | '0' :: 'b' :: digits => (natural? 2 digits).map Int.ofNat
    | _ =>
      let (sign, digits) := splitSign cs
      if isWhole digits then
        (natural? 10 digits).map fun n => if sign = some '-' then -(n : Int) else n
      else none
  guard (-0x80000000000000000000000000000000 ≤ n ∧ n < 0x100000000000000000000000000000000)
  some n

/-- The text after a power of ten, or none if there is no power and the text is over. -/
def isPower : List Char → Bool
  | [] => true
  | c :: cs => (c = 'e' || c = 'E') && (ungrouped? isDigit (splitSign cs).2).isSome

/-- The digits of a number with a point or a power of ten, without its sign. -/
def isFractional (cs : List Char) : Bool :=
  let inWhole (c : Char) : Bool := isDigit c || c = '_'
  let rest := cs.dropWhile inWhole
  isWhole (cs.takeWhile inWhole) && !rest.isEmpty &&
    match rest with
    | '.' :: rest =>
      (ungrouped? isDigit (rest.takeWhile inWhole)).isSome && isPower (rest.dropWhile inWhole)
    | _ => isPower rest

/-- A number that need not be whole, an infinity, or not-a-number. What is written in digits is
finite. -/
def real? (cs : List Char) : Option Binary64 := do
  let (_, magnitude) := splitSign cs
  let named := magnitude = "inf".toList ∨ magnitude = "nan".toList
  guard (named ∨ isFractional magnitude)
  let x ← Decimal.read? (String.ofList (cs.filter (· ≠ '_')))
  guard (named ∨ x.isFinite)
  some x

end Gazetteer.Toml
