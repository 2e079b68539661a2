import Gazetteer.MessagePack.View
import Gazetteer.MessagePack.Malformed
import Gazetteer.CellIndex.Basic

/-! The stored form of a place index. -/
namespace Gazetteer.CellIndex

open MessagePack

def Layer.encode (l : Layer) : Bytes :=
  ofFields [
    ("scale", ofNat l.scale.toNat),
    ("entries", ofItems (l.entries.map fun e => ofItems [ofNat e.key.toNat, ofNat e.feature.toNat]))]

def encode (index : CellIndex) : Bytes :=
  ofFields [("buckets", ofItems (index.layers.map Layer.encode))]

def Layer.ofValue? (v : Value) : Option Layer :=
  match v.fields? ["scale", "entries"] with
  | some [scale, entries] => do
    let entries ← entries.list? (Value.pair? Value.uint64? Value.uint32?)
    some ⟨← scale.uint8?, entries.map fun e => ⟨e.1, e.2⟩⟩
  | _ => none

/-- The layers that a value stands for, be they an index or not. -/
def ofValue? (v : Value) : Option CellIndex :=
  match v.fields? ["buckets"] with
  | some [layers] => (layers.list? Layer.ofValue?).map (⟨·⟩)
  | _ => none

def decode (bytes : Bytes) : Except (Malformed Fault) CellIndex :=
  match read? bytes >>= ofValue? with
  | none => .error .unreadable
  | some index => index.validate.mapError .faulty

end Gazetteer.CellIndex
