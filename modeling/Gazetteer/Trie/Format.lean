import Gazetteer.MessagePack.View
import Gazetteer.MessagePack.Malformed
import Gazetteer.Trie.Validation

/-! The stored form of a trie. -/
namespace Gazetteer.Trie

open MessagePack

def Node.encode (node : Node) : Bytes :=
  ofFields [
    ("edges", ofItems (node.edges.map fun e => ofItems [ofString e.1.toString, ofNat e.2])),
    ("values", ofItems (node.values.map fun v => ofNat v.toNat))]

def encode (t : Trie) : Bytes :=
  ofFields [
    ("roots", ofItems (t.roots.map fun r => ofItems [ofNat r.1.toNat, ofNat r.2])),
    ("nodes", ofItems (t.nodes.toList.map Node.encode))]

def Node.ofValue? (v : Value) : Option Node :=
  match v.fields? ["edges", "values"] with
  | some [edges, values] => do
    some ⟨← edges.list? (Value.pair? Value.char? (Value.below? UInt32.size)),
      ← values.list? Value.uint32?⟩
  | _ => none

/-- The graph that a value stands for, be it a trie or not. -/
def ofValue? (v : Value) : Option Trie :=
  match v.fields? ["roots", "nodes"] with
  | some [roots, nodes] => do
    some ⟨← roots.list? (Value.pair? Value.uint8? (Value.below? UInt32.size)),
      (← nodes.list? Node.ofValue?).toArray⟩
  | _ => none

def decode (bytes : Bytes) : Except (Malformed Fault) Trie :=
  match read? bytes >>= ofValue? with
  | none => .error .unreadable
  | some t => t.validate.mapError .faulty

end Gazetteer.Trie
