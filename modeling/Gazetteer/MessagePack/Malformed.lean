/-! Why stored bytes are refused. -/
namespace Gazetteer

/-- The bytes do not hold the kind of value that is stored, or it has a fault. -/
inductive Malformed (Fault : Type) where
  | unreadable
  | faulty (fault : Fault)
deriving DecidableEq, Repr

/-- What is wrong. Nothing more is said of bytes that cannot be read. -/
def Malformed.reason {Fault : Type} (describe : Fault → String) : Malformed Fault → String
  | unreadable => ""
  | faulty fault => describe fault

end Gazetteer
