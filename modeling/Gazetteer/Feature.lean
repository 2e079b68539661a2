import Gazetteer.Geometry.World
import Gazetteer.Language

/-! Features: what a map shows at a point, with its names. -/
namespace Gazetteer

/-- A feature's number in its partition: they count from zero in the order of adding. -/
abbrev FeatureId := UInt32

/-- A name, and the index of its language. -/
structure FeatureName where
  language : UInt8
  text : String
deriving DecidableEq, Repr

/-- A feature as it is stored. -/
structure Feature where
  point : Point Binary64
  names : List FeatureName
  /-- The coarsest scale at which the feature shows. -/
  minScale : Scale
deriving DecidableEq, Repr

namespace Feature

/-- A point of interest with one name, shown at every scale. -/
def poi (point : Point Binary64) (name : String) (language : Language) : Feature :=
  ⟨point, [⟨language.index, name⟩], 0⟩

def name? (f : Feature) (language : Language) : Option String :=
  (f.names.find? (·.language = language.index)).map (·.text)

def anyName? (f : Feature) : Option String := f.names.head?.map (·.text)

end Feature

end Gazetteer
