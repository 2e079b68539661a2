import Gazetteer.Proofs.Geometry.Bounding
import Gazetteer.Proofs.Partition.Codec
import Gazetteer.Proofs.Partition.PlaceIndex
import Gazetteer.Proofs.Partition.TextIndex

/-! Built partitions agree with their drafts: the header, the features and both indexes, which are
made one by one and read one by one, tell of the same features. -/
namespace Gazetteer

/-- The header and the sections of the partition tell of the features of the draft; the sections do
so as long as 32 bits can number the features and the nodes of the text index, and can tell
lengths. -/
structure Partition.Reflects (p : Partition) (d : Draft) : Prop where
  format : p.header.formatVersion = Header.currentFormat
  bounds : ∀ f ∈ d.features, p.header.bounds.holds f.point = true
  /-- No side of the bounds could be further in. -/
  sides : (∃ f ∈ d.features, f.point.x = p.header.bounds.lo.x) ∧
    (∃ f ∈ d.features, f.point.y = p.header.bounds.lo.y) ∧
    (∃ f ∈ d.features, f.point.x = p.header.bounds.hi.x) ∧
    ∃ f ∈ d.features, f.point.y = p.header.bounds.hi.y
  features : d.features.length < 2 ^ 32 → (∀ f ∈ d.features, f.Storable) →
    p.features = .ok d.features
  /-- One entry for each number of a feature, at the key of its point and its scale brought into the
  range. -/
  places : d.features.length < 2 ^ 32 → ∃ index, p.placeIndex = .ok index ∧
    (index.contents.map fun e => (e.1, e.2.key.toNat, e.2.feature.toNat)).Perm
      (d.features.zipIdx.map fun f => (d.scales.clamp f.1.minScale, Cell.keyOf f.1.point, f.2))
  /-- Under each word the numbers of the features that have it in a name, in order. -/
  words : d.features.length < 2 ^ 32 → (∀ t, d.textIndex = .ok t → t.nodes.size < 2 ^ 32) →
    ∃ t, p.textIndex = .ok t ∧
      (∀ i, (t.values i).Pairwise (· < ·) ∧ ∀ id ∈ t.values i, id.toNat < d.features.length) ∧
      ∀ l word id, (∃ i, t.find? l word = some i ∧ id ∈ t.values i) ↔
        ∃ f, d.features[id.toNat]? = some f ∧ f.HasWord l word

namespace Partition

/-- A partition that is built comes back from its stored form. -/
theorem decode_encode_of_finish {d : Draft} {p : Partition} (h : d.finish = .ok p)
    (hstorable : p.Storable) : decode p.encode = .ok p := by
  obtain ⟨-, bounds, trie, -, -, hp⟩ := Draft.finish_eq_ok_iff.mp h
  have hordered : p.Ordered := by
    rw [hp]
    exact (by decide : [featuresTag, placeTag, textTag].Pairwise (· < ·))
  have hread := decode_append hordered hstorable []
  rwa [List.append_nil, if_pos (by rw [hp])] at hread

end Partition

namespace Draft

/-- A draft can be built exactly if it has features, all of them in the world and with names in
known languages. -/
theorem exists_finish_iff {d : Draft} :
    (∃ p, d.finish = .ok p) ↔ d.features ≠ [] ∧ ∀ f ∈ d.features, f.point.InWorld ∧
      ∀ n ∈ f.names, ∃ l, Language.ofIndex? n.language = some l := by
  have hbounds : (∃ r, Rect.bounding (d.features.map (·.point)) = some r) ↔ d.features ≠ [] :=
    Rect.exists_bounding_iff.trans (not_congr List.map_eq_nil_iff)
  simp only [finish_eq_ok_iff, forall₂_and, Point.inWorld_iff, ← hbounds, ← exists_textIndex_iff]
  constructor
  · rintro ⟨-, hworld, bounds, text, hbounds, htext, -⟩
    exact ⟨⟨bounds, hbounds⟩, hworld, text, htext⟩
  · rintro ⟨⟨bounds, hbounds⟩, hworld, text, htext⟩
    exact ⟨_, hworld, bounds, text, hbounds, htext, rfl⟩

private theorem reflects_of_finish {d : Draft} {p : Partition} (h : d.finish = .ok p) :
    p.Reflects d := by
  obtain ⟨hworld, bounds, text, hbounds, -, hp⟩ := finish_eq_ok_iff.mp h
  obtain ⟨-, -, -, hholds⟩ := Rect.bounding_spec (List.forall_mem_map.mpr hworld) hbounds
  obtain ⟨hlox, hloy, hhix, hhiy⟩ := Rect.bounding_sides hbounds
  constructor
  case format => rw [hp]
  case bounds =>
    rw [hp]
    exact List.forall_mem_map.mp hholds
  case sides =>
    simp only [List.mem_map, exists_exists_and_eq_and] at hlox hloy hhix hhiy
    rw [hp]
    exact ⟨hlox, hloy, hhix, hhiy⟩
  case features =>
    intro hcount hstorable
    exact Partition.features_of_section (by rw [hp]; rfl) (Feature.read_encodeAll hcount hstorable)
  case places =>
    intro hcount
    exact ⟨d.placeIndex, placeIndex_built h hcount, perm_contents_placeIndex hcount⟩
  case words =>
    intro hcount hnodes
    obtain ⟨t, ht, hread⟩ := textIndex_of_finish h hcount hnodes
    obtain ⟨-, hfiled, hmem⟩ := textIndex_spec ht hcount
    refine ⟨t, hread, hfiled, fun l word id => (Trie.mem_valuesAt.symm.trans (hmem ..)).trans ?_⟩
    simp only [String.toList_inj, exists_eq_right']

/-- A draft is finished exactly if there are features, all in the world and with names in known
languages. The first feature outside the world is what it is refused for, whatever else is wrong,
and a partition that is finished tells of the features in each of its parts. -/
theorem finish_consistent (d : Draft) :
    ((∃ p, d.finish = .ok p) ↔ d.features ≠ [] ∧ ∀ f ∈ d.features, f.point.InWorld ∧
      ∀ n ∈ f.names, ∃ l, Language.ofIndex? n.language = some l) ∧
    (∀ i f, d.features[i]? = some f → ¬ f.point.InWorld →
      (∀ j < i, ∀ g, d.features[j]? = some g → g.point.InWorld) →
      d.finish = .error (.outOfWorld d.name i f.point)) ∧
    ∀ p, d.finish = .ok p → p.Reflects d := by
  refine ⟨exists_finish_iff, ?_, fun p => reflects_of_finish⟩
  simp only [Point.inWorld_iff]
  exact fun i f => finish_of_outside

/-- The inn can be read back from every part. Next to a feature that is nowhere, and has a name in
no known language, it is not accepted. -/
theorem finish_consistent_inn :
    let nowhere : Feature := ⟨⟨.nan, 0⟩, [⟨99, "Nowhere"⟩], 0⟩
    { inn with features := inn.features ++ [nowhere] }.finish =
        .error (.outOfWorld "Town" 1 ⟨.nan, 0⟩) ∧
      ∃ p, inn.finish = .ok p ∧ p.features = .ok inn.features ∧
        (∃ index, p.placeIndex = .ok index ∧
          (index.contents.map fun e => (e.1, e.2.key.toNat, e.2.feature.toNat)).Perm
            [(0, Cell.keyOf ⟨1, 2⟩, 0)]) ∧
        ∃ t, p.textIndex = .ok t ∧ ∃ i, t.find? .en "inn" = some i ∧ 0 ∈ t.values i := by
  intro nowhere
  have hpoint : (⟨1, 2⟩ : Point Binary64).InWorld := Point.inWorld_iff.mpr (by decide +kernel)
  have hnowhere : ¬ nowhere.point.InWorld := fun h =>
    absurd (Point.inWorld_iff.mp h) (by decide +kernel)
  refine ⟨(finish_consistent _).2.1 1 nowhere rfl hnowhere ?_, ?_⟩
  · rintro j hj g hg
    cases Nat.lt_one_iff.mp hj
    cases hg
    exact hpoint
  · have hcount : inn.features.length < 2 ^ 32 := by decide
    have hstorable : ∀ f ∈ inn.features, f.Storable :=
      List.forall_mem_singleton.mpr ⟨by decide, List.forall_mem_singleton.mpr (by decide +kernel)⟩
    have hnodes := nodes_lt_of_all (d := inn) (by decide +kernel)
    obtain ⟨hfinish, -, hreflects⟩ := finish_consistent inn
    obtain ⟨p, hp⟩ := hfinish.mpr ⟨List.cons_ne_nil _ _, List.forall_mem_singleton.mpr
      ⟨hpoint, List.forall_mem_singleton.mpr ⟨.en, rfl⟩⟩⟩
    have hall := hreflects p hp
    obtain ⟨t, ht, -, hwords⟩ := hall.words hcount hnodes
    have hinn : "inn" ∈ Text.words "Old Inn" := by decide +kernel
    exact ⟨p, hp, hall.features hcount hstorable, hall.places hcount, t, ht,
      (hwords .en "inn" 0).mpr ⟨_, rfl, _, .head _, rfl, hinn⟩⟩

end Draft
end Gazetteer
