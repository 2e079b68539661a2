import Gazetteer.Toml.Moment
import Gazetteer.Toml.Number
import Gazetteer.Toml.Value

/-! TOML documents: lines of headers and of pairs of a key and a value. -/
namespace Gazetteer.Toml

def isKeyChar (c : Char) : Bool := c.isAlphanum || c = '_' || c = '-'

def key : Reader String := fun cs =>
  match cs with
  | '"' :: rest => lineText '"' rest
  | '\'' :: rest => lineText '\'' rest
  | _ =>
    let name := cs.takeWhile isKeyChar
    if name.isEmpty then none else some (String.ofList name, cs.dropWhile isKeyChar)

def keys : Reader (List String) := do
  let first ← key
  let others ← repeated do
    blanks
    if ← takes '.' then
      blanks
      return some (← key)
    else return none
  return first :: others

def isWordChar (c : Char) : Bool := !isBlank c && c ∉ ['\n', '\r', '=', ',', '[', ']', '{', '}', '#']

def wordValue? (word : List Char) : Option Value :=
  if word = "true".toList then some (.boolean true)
  else if word = "false".toList then some (.boolean false)
  else if isMoment word then some .moment
  else ((integer? word).map .integer).or ((real? word).map .real)

def word : Reader Value := fun cs =>
  let first := cs.takeWhile isWordChar
  let rest := cs.dropWhile isWordChar
  let second := (rest.drop 1).takeWhile isWordChar
  if rest.head? = some ' ' ∧ !second.isEmpty ∧ isMoment (first ++ ' ' :: second) then
    some (.moment, (rest.drop 1).dropWhile isWordChar)
  else (wordValue? first).map (·, rest)

def scalar : Reader Value := fun cs =>
  if cs.head? = some '"' ∨ cs.head? = some '\'' then
    (quoted cs).map fun (s, rest) => (.text s, rest)
  else word cs

/-- Reads a value. Arrays and tables in braces nest `depth` deep at most. -/
def valueWithin : (depth : Nat) → Reader Value
  | 0 => scalar
  | depth + 1 => fun cs =>
    match cs with
    | '[' :: rest =>
      (do return .array (← repeated (itemOrEnd ']' (valueWithin depth))) : Reader Value) rest
    | '{' :: rest =>
      let pair : Reader (List String × Value) := do
        let path ← keys
        gap
        expect '='
        gap
        return (path, ← valueWithin depth)
      (do bracesOf? (← repeated (itemOrEnd '}' pair)) : Reader Value) rest
    | _ => scalar cs

def nestingLimit : Nat := 80

inductive Statement where
  /-- The header of a table, or of one item in an array of tables. -/
  | header (isItem : Bool) (keys : List String)
  | pair (keys : List String) (v : Value)

def header : Reader Statement := do
  let isItem ← takes '['
  blanks
  let path ← keys
  blanks
  expect ']'
  if isItem then expect ']'
  return .header isItem path

def pair : Reader Statement := do
  let path ← keys
  blanks
  expect '='
  blanks
  return .pair path (← valueWithin nestingLimit)

/-- Reads the next statement with the rest of its line, or the end of the text. -/
def statementOrEnd : Reader (Option Statement) := do
  gap
  if (← get).isEmpty then return none
  let s ← if ← takes '[' then header else pair
  endOfLine
  return some s

/-- The table that statements make up: each pair belongs to the latest header. -/
def tableOf? (statements : List Statement) : Option Entries := do
  let (es, _) ← statements.foldlM (fun (es, path) s =>
    match s with
    | .header isItem path => do some (← addHeader isItem path es, path)
    | .pair keys v => do some (← changeAt false (addPair keys v) path .header es, path))
    (([], []) : Entries × List String)
  some es

/-- The table in a text, which may begin with a byte order mark. -/
def parse? (s : String) : Option Value := do
  let cs := match s.toList with
    | '\ufeff' :: cs => cs
    | cs => cs
  let (statements, _) ← repeated statementOrEnd cs
  some (.table .header (← tableOf? statements))

end Gazetteer.Toml
