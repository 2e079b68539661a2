/-! Sets of characters by the code points at which membership changes. -/
namespace Gazetteer.Text

/-- A set of code points: the ascending list of those from which membership is other than just
below; zero is outside unless it is listed. -/
structure CharSet where
  boundaries : List Nat

namespace CharSet

/-- Membership of `c` when every boundary still to come is listed and `inside` holds so far. -/
def holdsFrom (c : Nat) (inside : Bool) : List Nat → Bool
  | [] => inside
  | b :: bs => if c < b then inside else holdsFrom c (!inside) bs

def holds (s : CharSet) (c : Char) : Bool := holdsFrom c.toNat false s.boundaries

end CharSet
end Gazetteer.Text
