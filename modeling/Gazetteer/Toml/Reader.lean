/-! Reading TOML: what every part of the grammar is read with. -/
namespace Gazetteer.Toml

/-- Reads something at the head of a text, and leaves the rest. -/
abbrev Reader := StateT (List Char) Option

/-- Repeats a step until it says that there is no more; `done` holds what is read so far, the last
first. -/
def repeatWithin {α : Type} (step : Reader (Option α)) (done : List α) : (fuel : Nat) →
    Reader (List α)
  | 0, _ => none
  | fuel + 1, cs =>
    match step cs with
    | none => none
    | some (none, rest) => some (done.reverse, rest)
    | some (some a, rest) => repeatWithin step (a :: done) fuel rest

/-- Repeats a step that reads at least one character, until it says that there is no more. -/
def repeated {α : Type} (step : Reader (Option α)) : Reader (List α) := fun cs =>
  repeatWithin step [] (cs.length + 1) cs

def takes (c : Char) : Reader Bool := fun cs =>
  match cs with
  | d :: rest => if d = c then some (true, rest) else some (false, cs)
  | [] => some (false, [])

def expect (c : Char) : Reader Unit := do guard (← takes c)

def sees (c : Char) : Reader Bool := fun cs => some (cs.head? = some c, cs)

def isBlank (c : Char) : Bool := c = ' ' || c = '\t'

/-- Characters other than control characters, of which only the tab is allowed in a line. -/
def isPlain (c : Char) : Bool := c = '\t' || ' ' ≤ c && c ≠ '\x7f'

def isDigit (c : Char) : Bool := c.isDigit

def blanks : Reader Unit := fun cs => some ((), cs.dropWhile isBlank)

/-- Reads a line break, a line feed or both a carriage return and a line feed, if there is one. -/
def lineBreak : Reader Bool
  | '\n' :: cs => some (true, cs)
  | '\r' :: '\n' :: cs => some (true, cs)
  | cs => some (false, cs)

def dropGap : (inComment : Bool) → List Char → List Char
  | _, [] => []
  | _, '\r' :: '\n' :: cs => dropGap false cs
  | inComment, c :: cs =>
    if c = '\n' then dropGap false cs
    else if inComment then if isPlain c then dropGap true cs else c :: cs
    else if isBlank c then dropGap false cs
    else if c = '#' then dropGap true cs
    else c :: cs

/-- Reads blanks, line breaks and comments. -/
def gap : Reader Unit := fun cs => some ((), dropGap false cs)

/-- Reads the rest of a line that may only be a comment. -/
def endOfLine : Reader Unit := fun cs =>
  let cs := cs.dropWhile isBlank
  let cs := if cs.head? = some '#' then cs.dropWhile isPlain else cs
  match lineBreak cs with
  | some (true, rest) => some ((), rest)
  | _ => if cs.isEmpty then some ((), []) else none

/-- Reads one item of a list with commas, or its end. The last item may have a comma after it. -/
def itemOrEnd {α : Type} (close : Char) (item : Reader α) : Reader (Option α) := do
  gap
  if ← takes close then return none
  let a ← item
  gap
  unless ← takes ',' do guard (← sees close)
  return some a

end Gazetteer.Toml
