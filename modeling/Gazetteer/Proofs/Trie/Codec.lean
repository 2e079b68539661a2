import Gazetteer.Proofs.MessagePack.Sizes
import Gazetteer.Proofs.Trie.Validation
import Gazetteer.Trie.Format

/-! The stored form of a trie: what is written for a graph is read as this graph, and for a forest
as this forest, as long as the format can tell its lengths, and nothing else is ever read. -/
namespace Gazetteer.Trie

open MessagePack

/-- The lists of the node are such as the format can tell the lengths of, and its edges lead to
numbers of 32 bits. -/
structure Node.Writable (node : Node) : Prop where
  edges : node.edges.length < 2 ^ 32
  targets : ∀ e ∈ node.edges, e.2 < 2 ^ 32
  values : node.values.length < 2 ^ 32

/-- The lists of the graph are such as the format can tell the lengths of, and its nodes have
numbers of 32 bits, whether they exist or not. -/
structure Writable (t : Trie) : Prop where
  roots : t.roots.length < 2 ^ 32
  targets : ∀ r ∈ t.roots, r.2 < 2 ^ 32
  size : t.nodes.size < 2 ^ 32
  nodes : ∀ node ∈ t.nodes.toList, node.Writable

private theorem Node.shows {node : Node} (h : node.Writable) :
    Shows Node.ofValue? node.encode 3 node := by
  have hedge : ∀ e ∈ node.edges, Shows (Value.pair? Value.char? (Value.below? UInt32.size))
      (ofItems [ofString e.1.toString, ofNat e.2]) 1 e := fun e he =>
    shows_pair (shows_char e.1) (shows_below (h.targets e he) (by decide))
  have hvalue : ∀ v ∈ node.values, Shows Value.uint32? (ofNat v.toNat) 1 v := fun v _ =>
    (shows_uint32 v).mono (Nat.zero_le _)
  obtain ⟨edges, hedges, hedges'⟩ := shows_list h.edges hedge
  obtain ⟨values, hvalues, hvalues'⟩ := shows_list h.values hvalue
  obtain ⟨v, hv, hfields⟩ := shows_fields (by decide : FieldNames ["edges", "values"]) rfl
    (.cons hedges (.cons hvalues .nil))
  refine ⟨v, hv, ?_⟩
  simp [Node.ofValue?, hfields, hedges', hvalues']

/-- A graph is seen in its stored form, be it a trie or not. -/
theorem shows {t : Trie} (h : t.Writable) : Shows ofValue? t.encode 5 t := by
  have hroot : ∀ r ∈ t.roots, Shows (Value.pair? Value.uint8? (Value.below? UInt32.size))
      (ofItems [ofNat r.1.toNat, ofNat r.2]) 3 r := fun r hr =>
    (shows_pair (shows_uint8 r.1) (shows_below (h.targets r hr) (by decide))).mono (by decide)
  have hnode : ∀ node ∈ t.nodes.toList, Shows Node.ofValue? node.encode 3 node := fun node hn =>
    Node.shows (h.nodes node hn)
  obtain ⟨roots, hroots, hroots'⟩ := shows_list h.roots hroot
  obtain ⟨nodes, hnodes, hnodes'⟩ := shows_list h.size hnode
  obtain ⟨v, hv, hfields⟩ := shows_fields (by decide : FieldNames ["roots", "nodes"]) rfl
    (.cons hroots (.cons hnodes .nil))
  refine ⟨v, hv, ?_⟩
  simp [ofValue?, hfields, hroots', hnodes']

/-- A stored graph is read and validated, be it a trie or not. -/
theorem decode_of_writable {t : Trie} (h : t.Writable) :
    decode t.encode = t.validate.mapError .faulty := by
  rw [decode, read?_of_shows (shows h) (by decide)]

/-- The lists of the trie are such as the format can tell the lengths of. -/
structure Storable (t : Trie) : Prop where
  nodes : t.nodes.size < 2 ^ 32
  values : ∀ node ∈ t.nodes.toList, node.values.length < 2 ^ 32

namespace Forest

variable {t : Trie} (h : t.Forest)
include h

private theorem length_roots_le : t.roots.length ≤ t.nodes.size := by
  rw [← List.length_map (·.2)]
  apply length_le_of_nodup h.root_targets_nodup
  intro n hn
  obtain ⟨r, hr, rfl⟩ := List.mem_map.mp hn
  exact h.root_lt hr

private theorem length_edges_le {node : Node} (hnode : node ∈ t.nodes.toList) :
    node.edges.length ≤ t.nodes.size := by
  rw [← List.length_map (·.2)]
  apply length_le_of_nodup (h.node_targets_nodup hnode)
  intro n hn
  obtain ⟨e, he, rfl⟩ := List.mem_map.mp hn
  exact h.edge_lt hnode he

private theorem writable (hstorable : t.Storable) : t.Writable where
  -- No node of a forest is reached twice, so there are no more roots and edges than nodes.
  roots := Nat.lt_of_le_of_lt h.length_roots_le hstorable.nodes
  targets _ hr := Nat.lt_trans (h.root_lt hr) hstorable.nodes
  size := hstorable.nodes
  nodes node hnode :=
    { edges := Nat.lt_of_le_of_lt (h.length_edges_le hnode) hstorable.nodes
      targets := fun _ he => Nat.lt_trans (h.edge_lt hnode he) hstorable.nodes
      values := hstorable.values node hnode }

/-- What is written for a forest of less than `2 ^ 32` nodes and values at each is read as this
forest. -/
theorem decode_encode (hsize : t.nodes.size < 2 ^ 32)
    (hvalues : ∀ node ∈ t.nodes.toList, node.values.length < 2 ^ 32) : decode t.encode = .ok t := by
  rw [decode_of_writable (h.writable ⟨hsize, hvalues⟩), validate_of_forest h]
  rfl

end Forest

private theorem length_values_of_seen {node : Node} (h : Seen Node.ofValue? node) :
    node.values.length < 2 ^ 32 := by
  obtain ⟨v, hv, hview⟩ := h
  unfold Node.ofValue? at hview
  split at hview
  · next edges values hfields =>
    obtain ⟨_, -, hview⟩ := Option.bind_eq_some_iff.mp hview
    obtain ⟨vs, hvs, hview⟩ := Option.bind_eq_some_iff.mp hview
    cases hview
    have hsized := hv.of_fields? hfields values (.tail _ (.head _))
    exact (Seen.list ⟨values, hsized, hvs⟩).1
  · cases hview

private theorem storable_of_seen {t : Trie} (h : Seen ofValue? t) : t.Storable := by
  obtain ⟨v, hv, hview⟩ := h
  unfold ofValue? at hview
  split at hview
  · next roots nodes hfields =>
    obtain ⟨_, -, hview⟩ := Option.bind_eq_some_iff.mp hview
    obtain ⟨ns, hns, hview⟩ := Option.bind_eq_some_iff.mp hview
    cases hview
    have hsized := hv.of_fields? hfields nodes (.tail _ (.head _))
    obtain ⟨hlength, hseen⟩ := Seen.list ⟨nodes, hsized, hns⟩
    exact ⟨hlength, fun node hnode => length_values_of_seen (hseen node hnode)⟩
  · cases hview

/-- Only forests are read, and lists as long as can be stored. -/
theorem forest_of_decode {bytes : Bytes} {t : Trie} (h : decode bytes = .ok t) :
    t.Forest ∧ t.Storable := by
  unfold decode at h
  split at h
  · cases h
  · next hread =>
    obtain ⟨rfl, hforest⟩ := validate_eq_ok_iff.mp (eq_ok_of_mapError h)
    exact ⟨hforest, storable_of_seen (seen_of_read? hread)⟩

/-- Exactly the forests that can be stored come back. -/
theorem decode_encode_iff {t : Trie} : decode t.encode = .ok t ↔ t.Forest ∧ t.Storable :=
  ⟨forest_of_decode, fun ⟨hforest, hstorable⟩ =>
    hforest.decode_encode hstorable.nodes hstorable.values⟩

end Gazetteer.Trie
