import Gazetteer.Text.Case
import Gazetteer.Text.Delimiter

/-! Words of a text. Names and queries go through the same steps, so that they meet in the index:
outer white space is dropped, capitals become small, and the maximal runs of characters that are no
delimiters are the words. -/
namespace Gazetteer.Text

def isDelimiter (c : Char) : Bool := delimiters.holds c

def trim (cs : List Char) : List Char :=
  ((cs.dropWhile whiteSpace.holds).reverse.dropWhile whiteSpace.holds).reverse

/-- The first character that is not passed over has a case. -/
def leadsToCased (cs : List Char) : Bool :=
  match cs.dropWhile caseIgnorable.holds with
  | [] => false
  | c :: _ => cased.holds c

/-- The capital sigma between `before`, nearest first, and `after` ends its word. -/
def isFinalSigma (before after : List Char) : Bool :=
  leadsToCased before && !leadsToCased after

/-- The small form of a text that follows the characters `before`, nearest first. A capital sigma
gets its final form at the end of a word. -/
def lowerAfter (before : List Char) : List Char → List Char
  | [] => []
  | c :: cs =>
    (if c = 'Σ' then [if isFinalSigma before cs then 'ς' else 'σ'] else lowerChar c)
      ++ lowerAfter (c :: before) cs

def lower (cs : List Char) : List Char := lowerAfter [] cs

/-- The maximal runs of characters that are no delimiters, in order. -/
def runs : List Char → List (List Char)
  | [] => []
  | c :: cs =>
    if isDelimiter c then runs cs
    else match (cs.head?.map isDelimiter).getD true, runs cs with
      | false, w :: ws => (c :: w) :: ws
      | _, ws => [c] :: ws

/-- The text as it is split into words. -/
def normalize (s : String) : String := String.ofList (lower (trim s.toList))

def words (s : String) : List String := (runs (normalize s).toList).map String.ofList

/-- The last word of the text is complete, since a delimiter follows it. -/
def endsWithDelimiter (s : String) : Bool := (s.toList.getLast?.map isDelimiter).getD false

end Gazetteer.Text
