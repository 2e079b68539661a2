import Gazetteer.Toml.Reader

/-! Dates and times. They are checked, and nothing of them is kept. -/
namespace Gazetteer.Toml

/-- Reads a number of `count` digits, no smaller than `lo` and no larger than `hi`. -/
def numberWithin (count lo hi : Nat) : Reader Nat := fun cs => do
  let digits := cs.take count
  guard (digits.length = count ∧ digits.all isDigit)
  let n := digits.foldl (fun n d => 10 * n + (d.toNat - '0'.toNat)) 0
  guard (lo ≤ n ∧ n ≤ hi)
  some (n, cs.drop count)

def isLeapYear (year : Nat) : Bool := year % 4 = 0 && (year % 100 ≠ 0 || year % 400 = 0)

def daysInMonth (year month : Nat) : Nat :=
  if month = 2 then if isLeapYear year then 29 else 28
  else if month ∈ [4, 6, 9, 11] then 30 else 31

def date : Reader Unit := do
  let year ← numberWithin 4 0 9999
  expect '-'
  let month ← numberWithin 2 1 12
  expect '-'
  discard (numberWithin 2 1 (daysInMonth year month))

/-- Reads a time of day; the seconds may be left out. -/
def time : Reader Unit := do
  discard (numberWithin 2 0 23)
  expect ':'
  discard (numberWithin 2 0 59)
  if ← takes ':' then
    discard (numberWithin 2 0 60)
    if ← takes '.' then
      let fraction ← modifyGet fun cs => (cs.takeWhile isDigit, cs.dropWhile isDigit)
      guard (!fraction.isEmpty)

def offset : Reader Unit := do
  if (← takes 'Z') || (← takes 'z') then return
  if (← takes '+') || (← takes '-') then
    discard (numberWithin 2 0 23)
    expect ':'
    discard (numberWithin 2 0 59)

def moment : Reader Unit := fun cs =>
  match date cs with
  | none => time cs
  | some ((), []) => some ((), [])
  | some ((), c :: rest) =>
    if c ∈ ['T', 't', ' '] then (do time; offset : Reader Unit) rest else none

def isMoment (cs : List Char) : Bool := moment cs matches some ((), [])

end Gazetteer.Toml
