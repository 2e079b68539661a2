import Gazetteer.Toml.Reader

/-! Quoted texts: basic ones with escapes and literal ones without, on one line or on many. -/
namespace Gazetteer.Toml

def hexDigit? (c : Char) : Option Nat :=
  if c.isDigit then some (c.toNat - '0'.toNat)
  else if 'a' ≤ c ∧ c ≤ 'f' then some (c.toNat - 'a'.toNat + 10)
  else if 'A' ≤ c ∧ c ≤ 'F' then some (c.toNat - 'A'.toNat + 10)
  else none

def codePoint (count : Nat) : Reader Char := fun cs => do
  let digits ← (cs.take count).mapM hexDigit?
  guard (digits.length = count)
  let n := digits.foldl (fun n d => 16 * n + d) 0
  if n.isValidChar then some (Char.ofNat n, cs.drop count) else none

def escape : Reader Char
  | [] => none
  | c :: cs =>
    match c with
    | 'b' => some ('\x08', cs)
    | 't' => some ('\t', cs)
    | 'n' => some ('\n', cs)
    | 'f' => some ('\x0c', cs)
    | 'r' => some ('\r', cs)
    | 'e' => some ('\x1b', cs)
    | '"' => some ('"', cs)
    | '\\' => some ('\\', cs)
    | 'x' => codePoint 2 cs
    | 'u' => codePoint 4 cs
    | 'U' => codePoint 8 cs
    | _ => none

/-- A line break after a backslash, with all the white space after it; `none` if the backslash does
not end its line. -/
def foldedLine? (cs : List Char) : Option (List Char) :=
  let isWhite (c : Char) : Bool := isBlank c || c = '\n'
  let rec dropWhite : List Char → List Char
    | [] => []
    | '\r' :: '\n' :: cs => dropWhite cs
    | c :: cs => if isWhite c then dropWhite cs else c :: cs
  match lineBreak (cs.dropWhile isBlank) with
  | some (true, rest) => some (dropWhite rest)
  | _ => none

def linePiece (quote : Char) : Reader (Option (List Char))
  | [] => none
  | c :: cs =>
    if c = quote then some (none, cs)
    else if c = '\\' ∧ quote = '"' then do
      let (d, rest) ← escape cs
      some (some [d], rest)
    else if isPlain c then some (some [c], cs)
    else none

/-- Reads a piece of a text on many lines, or its end. Of more than three quotes in a row the first
one or two belong to the text. -/
def blockPiece (quote : Char) : Reader (Option (List Char))
  | [] => none
  | c :: cs =>
    if c = quote then
      let quotes := (cs.takeWhile (· = quote)).length + 1
      if quotes < 3 then some (some [c], cs)
      else if quotes = 3 then some (none, cs.drop 2)
      else if quotes ≤ 5 then some (some (List.replicate (quotes - 3) c), cs.drop (quotes - 4))
      else none
    else if c = '\\' ∧ quote = '"' then
      match foldedLine? cs with
      | some rest => some (some [], rest)
      | none => do
        let (d, rest) ← escape cs
        some (some [d], rest)
    else match lineBreak (c :: cs) with
      | some (true, rest) =>
        some (some ((c :: cs).take ((c :: cs).length - rest.length)), rest)
      | _ => if isPlain c then some (some [c], cs) else none

/-- Reads a quoted text on one line; the opening quote is read already. -/
def lineText (quote : Char) : Reader String := do
  return String.ofList (← repeated (linePiece quote)).flatten

/-- Reads a quoted text on many lines; the opening quotes are read already. A line break right after
them does not count. -/
def blockText (quote : Char) : Reader String := do
  discard lineBreak
  return String.ofList (← repeated (blockPiece quote)).flatten

def quoted : Reader String
  | a :: b :: c :: cs =>
    if a = '"' ∨ a = '\'' then
      if a = b ∧ b = c then blockText a cs else lineText a (b :: c :: cs)
    else none
  | a :: cs => if a = '"' ∨ a = '\'' then lineText a cs else none
  | [] => none

end Gazetteer.Toml
