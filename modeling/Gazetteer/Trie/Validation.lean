import Gazetteer.Trie.Basic

/-! Which graphs are tries: roots and edges lead to existing nodes, edges to later ones, and no node
is reached twice. -/
namespace Gazetteer.Trie

/-- Why a graph is no trie. -/
inductive Fault where
  | rootsOutOfOrder
  | unknownLanguage (index : UInt8)
  | rootOutOfRange (root count : Nat)
  | rootShared (root : Nat)
  | edgesOutOfOrder (node : Nat)
  | badEdge (label : Char) (node child : Nat)
  | manyParents (node : Nat)
deriving DecidableEq, Repr

def Fault.reason : Fault → String
  | rootsOutOfOrder => "language roots out of order"
  | unknownLanguage index => s!"unknown language index {index.toNat}"
  | rootOutOfRange root count => s!"root {root} out of range ({count} nodes)"
  | rootShared root => s!"root {root} is shared"
  | edgesOutOfOrder node => s!"edges of node {node} out of order"
  | badEdge label node child =>
    "edge '" ++ label.toString ++ s!"' of node {node} points to {child}"
  | manyParents node => s!"node {node} has more than one parent"

def claim (reached : Array Bool) (node : Nat) (fault : Fault) : Except Fault (Array Bool) :=
  if reached[node]?.getD false then .error fault else .ok (reached.setIfInBounds node true)

def claimRoot (count : Nat) (reached : Array Bool) (r : UInt8 × Nat) :
    Except Fault (Array Bool) :=
  if (Language.ofIndex? r.1).isNone then .error (.unknownLanguage r.1)
  else if count ≤ r.2 then .error (.rootOutOfRange r.2 count)
  else claim reached r.2 (.rootShared r.2)

def claimEdge (count i : Nat) (reached : Array Bool) (e : Char × Nat) :
    Except Fault (Array Bool) :=
  if e.2 ≤ i ∨ count ≤ e.2 then .error (.badEdge e.1 i e.2)
  else claim reached e.2 (.manyParents e.2)

def claimEdges (count : Nat) (reached : Array Bool) (node : Node × Nat) :
    Except Fault (Array Bool) :=
  if inOrder (fun a b => decide (a.1 < b.1)) node.1.edges then
    node.1.edges.foldlM (claimEdge count node.2) reached
  else .error (.edgesOutOfOrder node.2)

/-- The graph, if it is a trie, or the first fault in it: roots come before nodes, and a node's own
order before its edges. -/
def validate (t : Trie) : Except Fault Trie := do
  let count := t.nodes.size
  if !inOrder (fun a b => decide (a.1 < b.1)) t.roots then throw .rootsOutOfOrder
  let reached ← t.roots.foldlM (claimRoot count) (Array.replicate count false)
  discard <| t.nodes.toList.zipIdx.foldlM (claimEdges count) reached
  return t

end Gazetteer.Trie
