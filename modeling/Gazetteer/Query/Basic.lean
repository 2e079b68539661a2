import Gazetteer.Geometry.World
import Gazetteer.Language
import Gazetteer.Text.Word

/-! Queries: the words that are looked for, in which languages, and at which scale. -/
namespace Gazetteer

structure Query where
  /-- The complete words, each by its forms: one of them has to be a word of the feature. -/
  words : List (List String) := []
  /-- The forms of a last word that may go on. There is no such word if there are no forms. -/
  beginnings : List String := []
  /-- The languages of the names that count, in the order of their indices; if none is given, all
  count. -/
  languages : List Language := []
  /-- The scale of interest. Each partition brings it into its own range. -/
  scale : Scale := World.finestScale
deriving DecidableEq, Repr

namespace Query

def empty : Query := {}

def isEmpty (q : Query) : Bool := q.words.isEmpty && q.beginnings.isEmpty

def allows (q : Query) (l : Language) : Bool := q.languages.isEmpty || l ∈ q.languages

/-- The query that a text stands for. Its last word may go on, unless a delimiter ends the text. -/
def ofText (text : String) (languages : List Language) : Query :=
  let words := Text.words text
  let complete := if Text.endsWithDelimiter text then words else words.dropLast
  { words := complete.map ([·]), beginnings := words.drop complete.length,
    languages := Language.ordered languages }

end Query
end Gazetteer
