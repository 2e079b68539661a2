import Gazetteer.Ascending
import Gazetteer.Feature

/-! The text index: a letter trie per language. Nodes are numbered; an edge is labelled with a
character, and a node that ends a token holds the features with that token. -/
namespace Gazetteer

structure Trie.Node where
  /-- Labels with the nodes below, in ascending order of the labels. -/
  edges : List (Char × Nat) := []
  /-- The features whose token ends here, in ascending order. -/
  values : List FeatureId := []
deriving DecidableEq, Repr

structure Trie where
  /-- The root of each language's trie, by the index of the language, in ascending order. -/
  roots : List (UInt8 × Nat) := []
  nodes : Array Trie.Node := #[]
deriving DecidableEq, Repr

namespace Trie

def empty : Trie := {}

def languages (t : Trie) : List Language := t.roots.filterMap fun r => Language.ofIndex? r.1

def root? (t : Trie) (l : Language) : Option Nat := t.roots.lookup l.index

def child? (t : Trie) (i : Nat) (label : Char) : Option Nat :=
  t.nodes[i]?.bind fun node => node.edges.lookup label

def find? (t : Trie) (l : Language) (token : String) : Option Nat :=
  t.root? l >>= fun root => token.toList.foldlM t.child? root

def values (t : Trie) (i : Nat) : List FeatureId := (t.nodes[i]?.map (·.values)).getD []

/-- The values of node `i` and of the nodes up to `depth` edges below it. -/
def valuesWithin (t : Trie) : (depth i : Nat) → List FeatureId
  | 0, i => t.values i
  | depth + 1, i =>
    t.values i ++ ((t.nodes[i]?.map (·.edges)).getD []).flatMap fun e => valuesWithin t depth e.2

/-- The values of node `i` and of all nodes below it. No path is longer than there are nodes. Only
which values there are, and how often, is meant: siblings come in ascending order here, while a walk
with a stack comes to the last one first (`Trie.Walk`). -/
def valuesBelow (t : Trie) (i : Nat) : List FeatureId := t.valuesWithin t.nodes.size i

def addNode (t : Trie) : Nat × Trie := (t.nodes.size, { t with nodes := t.nodes.push {} })

/-- The root of a language, made if there is none. -/
def withRoot (t : Trie) (l : Language) : Nat × Trie :=
  match t.root? l with
  | some root => (root, t)
  | none =>
    let (root, t) := t.addNode
    (root, { t with roots := Ascending.insertPair l.index root t.roots })

/-- The node below node `i` along the label, made if there is none. -/
def withChild (t : Trie) (i : Nat) (label : Char) : Nat × Trie :=
  match t.child? i label with
  | some child => (child, t)
  | none =>
    let (child, t) := t.addNode
    (child, { t with nodes := t.nodes.modify i fun node =>
      { node with edges := Ascending.insertPair label child node.edges } })

def insert (t : Trie) (l : Language) (token : String) (feature : FeatureId) : Trie :=
  let (i, t) := token.toList.foldl (fun (i, t) label => withChild t i label) (t.withRoot l)
  { t with nodes := t.nodes.modify i fun node =>
    { node with values := Ascending.insert feature node.values } }

end Trie
end Gazetteer
