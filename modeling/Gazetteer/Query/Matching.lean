import Gazetteer.CellIndex.Basic
import Gazetteer.Geometry.Covering
import Gazetteer.Query.Basic
import Gazetteer.Trie.Basic

/-! Matching of a query: by text in a trie, and by place in a place index. -/
namespace Gazetteer.Query

/-- The features found at the nodes that the forms lead to in the languages that count. -/
def found (q : Query) (t : Trie) (featuresAt : Nat → List FeatureId) (forms : List String) :
    List FeatureId :=
  Ascending.ofList <| (t.languages.filter q.allows).flatMap fun l =>
    forms.flatMap fun form => ((t.find? l form).map featuresAt).getD []

/-- The features that match each word of the query taken alone. -/
def wordMatches (q : Query) (t : Trie) : List (List FeatureId) :=
  q.words.map (q.found t t.values)
    ++ if q.beginnings.isEmpty then [] else [q.found t t.valuesBelow q.beginnings]

/-- The features that match every word, in ascending order. The empty query matches none. -/
def textMatches (q : Query) (t : Trie) : List FeatureId :=
  match q.wordMatches t with
  | [] => []
  | first :: others => others.foldl Ascending.inter first

/-- The features in the cells that meet the viewport, as the index lists them. -/
@[specialize] def placeMatches {α : Type} [Scalar α] (q : Query) (index : CellIndex)
    (scales : ScaleRange) (viewport : Rect α) : List FeatureId :=
  let scale := scales.clamp q.scale
  (viewport.cover (World.levelOf scale)).flatMap fun keys => index.lookup keys scale

end Gazetteer.Query
