import Gazetteer.Decimal.Shortest

/-! Decimal text of binary64 numbers: the shortest form in a chosen style, a fixed number of places,
and the reading of numbers. -/
namespace Gazetteer.Decimal

-- Powers of natural numbers are those of core.
attribute [local instance (high)] instPowNat

/-- How a shortest decimal is laid out. -/
structure Style where
  /-- Whole numbers get a final `.0`. -/
  marksWhole : Bool
  /-- The exponents of the first digit, from the first up to before the second, that are written
  without a power of ten; all of them if there is no such range. -/
  positional : Option (Int × Int)

/-- Numbers in messages: never a power of ten. -/
def Style.plain : Style := ⟨false, none⟩

/-- Numbers in the details of a failure: whole numbers are marked, and a power of ten is written
below `1e-4` and from `1e16` on. -/
def Style.detailed : Style := ⟨true, some (-4, 16)⟩

/-- The text of `digits / 10 ^ places`, with all its places. -/
def withPlaces (digits places : Nat) : String :=
  let ds := (Nat.toDigits 10 digits)
  let ds := List.replicate (places + 1 - ds.length) '0' ++ ds
  let whole := ds.take (ds.length - places)
  if places = 0 then String.ofList whole
  else String.ofList (whole ++ '.' :: ds.drop (ds.length - places))

def Digits.positional (d : Digits) (marksWhole : Bool) : String :=
  if d.exponent < 0 then withPlaces d.digits (-d.exponent).toNat
  else withPlaces (d.digits * 10 ^ d.exponent.toNat) 0 ++ if marksWhole then ".0" else ""

def Digits.scientific (d : Digits) : String :=
  withPlaces d.digits (digitCount d.digits - 1) ++ "e" ++ toString d.leading

/-- The sign, then the text of a magnitude or of what is not a finite number. -/
def signed (x : Binary64) (magnitude : String) : String :=
  if x.isNaN then "NaN"
  else (if x.isNegative then "-" else "") ++ (if x.isFinite then magnitude else "inf")

/-- The shortest text of a number in a style. -/
def text (style : Style) (x : Binary64) : String :=
  let d := shortest x
  let plain := match style.positional with
    | none => true
    | some (lo, hi) => d.digits = 0 || lo ≤ d.leading && d.leading < hi
  signed x (if plain then d.positional style.marksWhole else d.scientific)

/-- The number with a fixed number of decimal places; a tie goes to the even last digit. -/
def fixed (places : Nat) (x : Binary64) : String :=
  let (m, e) := x.decompose
  signed x (withPlaces (roundDiv (m * 10 ^ places * 2 ^ e.toNat) (2 ^ (-e).toNat)) places)

/-- The digits at the head of a text, as a number with their count, and what follows them. -/
def readDigits : List Char → Nat × Nat × List Char :=
  go 0 0
where
  go (n count : Nat) : List Char → Nat × Nat × List Char
    | [] => (n, count, [])
    | c :: cs =>
      if c.isDigit then go (10 * n + (c.toNat - '0'.toNat)) (count + 1) cs else (n, count, c :: cs)

def readSign : List Char → Bool × List Char
  | '-' :: cs => (true, cs)
  | '+' :: cs => (false, cs)
  | cs => (false, cs)

/-- The magnitude of a number written in digits, with a point and a power of ten or without. -/
def readMagnitude? (cs : List Char) : Option Binary64 :=
  let (whole, wholeCount, rest) := readDigits cs
  let (digits, places, rest) := match rest with
    | '.' :: rest =>
      let (fraction, places, rest) := readDigits rest
      (whole * 10 ^ places + fraction, places, rest)
    | _ => (whole, 0, rest)
  if wholeCount + places = 0 then none
  else match rest with
    | [] => some (toBinary64 digits (-(places : Int)))
    | c :: rest =>
      if c = 'e' ∨ c = 'E' then
        let (negative, rest) := readSign rest
        let (power, count, rest) := readDigits rest
        if count = 0 ∨ rest ≠ [] then none
        else some (toBinary64 digits ((if negative then -(power : Int) else power) - places))
      else none

/-- Reads a number: an optional sign, then decimal digits with an optional point and power of ten,
or one of the words for infinity and not-a-number in any case. -/
def read? (s : String) : Option Binary64 :=
  let (negative, cs) := readSign s.toList
  let word := cs.map Char.toLower
  (if word = "inf".toList ∨ word = "infinity".toList then some Binary64.infinity
    else if word = "nan".toList then some Binary64.nan
    else readMagnitude? cs).map (Binary64.withSign negative)

end Gazetteer.Decimal
