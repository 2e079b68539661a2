import Gazetteer.Proofs.Geometry.Cells
import Gazetteer.Proofs.Partition.Built

/-! The place index of a built partition: one entry for each feature, at the key of its point and in
the layer of its scale. -/
namespace Gazetteer.Draft

private def indexed (d : Draft) (fs : List (Feature × FeatureId)) (index : CellIndex) : CellIndex :=
  fs.foldl (fun index f =>
    index.insert (UInt64.ofNat (Cell.keyOf f.1.point)) (d.layerOf f.1) f.2) index

private theorem indexed_spec (d : Draft) (fs : List (Feature × FeatureId)) {index : CellIndex}
    {n : Nat} (hordered : index.Ordered) (hwithin : index.Within n) :
    (d.indexed fs index).Ordered ∧ (d.indexed fs index).Within (n + fs.length) ∧
      ∀ s e, (d.indexed fs index).Has s e ↔ index.Has s e ∨
        ∃ f ∈ fs, s = d.layerOf f.1 ∧ e = ⟨UInt64.ofNat (Cell.keyOf f.1.point), f.2⟩ := by
  induction fs generalizing index n with
  | nil => exact ⟨hordered, hwithin, fun s e => by simp [indexed]⟩
  | cons f fs ih =>
    obtain ⟨horder, hsize, hhas⟩ := ih
      (hordered.insert (UInt64.ofNat (Cell.keyOf f.1.point)) (d.layerOf f.1) f.2)
      (hwithin.insert (UInt64.ofNat (Cell.keyOf f.1.point)) (d.layerOf f.1) f.2)
    refine ⟨horder, ?_, fun s e => (hhas s e).trans ?_⟩
    · rw [List.length_cons, ← Nat.add_assoc, Nat.add_right_comm]
      exact hsize
    · rw [CellIndex.has_insert, List.exists_mem_cons_iff, or_comm (b := index.Has s e), or_assoc]

theorem ordered_placeIndex (d : Draft) : d.placeIndex.Ordered :=
  (indexed_spec d d.numbered CellIndex.ordered_empty CellIndex.within_empty).1

private theorem within_placeIndex (d : Draft) : d.placeIndex.Within d.features.length := by
  have hwithin := (indexed_spec d d.numbered CellIndex.ordered_empty CellIndex.within_empty).2.1
  have hlength : 0 + d.numbered.length = d.features.length := by simp [numbered]
  rwa [hlength] at hwithin

private def entryOf (d : Draft) (f : Feature × FeatureId) : Scale × CellIndex.Entry :=
  (d.layerOf f.1, ⟨UInt64.ofNat (Cell.keyOf f.1.point), f.2⟩)

private theorem has_placeIndex_iff {d : Draft} {s : Scale} {e : CellIndex.Entry} :
    d.placeIndex.Has s e ↔ (s, e) ∈ d.numbered.map d.entryOf := by
  have hspec := indexed_spec d d.numbered CellIndex.ordered_empty CellIndex.within_empty
  refine (hspec.2.2 s e).trans ((or_iff_right (CellIndex.not_has_empty s e)).trans ?_)
  simp only [List.mem_map, entryOf, Prod.mk.injEq, @eq_comm _ s, @eq_comm _ e]

/-- The place index has one entry for each feature: its number, the key of its point and its
scale. -/
theorem has_placeIndex {d : Draft} (hcount : d.features.length < 2 ^ 32) {s : Scale}
    {e : CellIndex.Entry} :
    d.placeIndex.Has s e ↔ ∃ f, d.features[e.feature.toNat]? = some f ∧ s = d.layerOf f ∧
      e.key = UInt64.ofNat (Cell.keyOf f.point) := by
  rw [has_placeIndex_iff, List.mem_map]
  constructor
  · rintro ⟨f, hf, ⟨⟩⟩
    exact ⟨f.1, (mem_numbered hcount).mp hf, rfl, rfl⟩
  · rintro ⟨f, hf, rfl, hkey⟩
    exact ⟨(f, e.feature), (mem_numbered hcount).mpr hf, by rw [entryOf, ← hkey]⟩

/-- No feature is in the place index twice. -/
theorem single_placeIndex {d : Draft} (hcount : d.features.length < 2 ^ 32) : d.placeIndex.Single := by
  intro s s' e e' he he' hfeature
  obtain ⟨f, hf, rfl, hkey⟩ := (has_placeIndex hcount).mp he
  obtain ⟨g, hg, rfl, hkey'⟩ := (has_placeIndex hcount).mp he'
  rw [hfeature] at hf
  cases hf.symm.trans hg
  refine ⟨rfl, ?_⟩
  cases e
  cases e'
  simp_all only

/-- The place index in the section of a built partition is the index of the features. -/
theorem placeIndex_built {d : Draft} {p : Partition} (hp : d.finish = .ok p)
    (hcount : d.features.length < 2 ^ 32) : p.placeIndex = .ok d.placeIndex := by
  rw [Partition.placeIndex_of_section (finish_spec hp).2.1,
    CellIndex.decode_encode (CellIndex.validate_of_ordered d.ordered_placeIndex)
      (d.within_placeIndex.storable hcount)]
  rfl

/-- The keys of points are those of finest cells. -/
theorem toNat_key (p : Point Binary64) :
    (UInt64.ofNat (Cell.keyOf p)).toNat = Cell.keyOf p := by
  have hlt : Cell.keyOf p < 4 ^ World.finestLevel := Cell.code_lt (Cell.ofPoint p World.finestLevel)
  exact UInt64.toNat_ofNat_of_lt' (Nat.lt_trans hlt (by decide))

/-- The entries of the place index are one for each feature: its number, at the key of its point and
the scale of its layer. -/
theorem perm_contents_placeIndex {d : Draft} (hcount : d.features.length < 2 ^ 32) :
    (d.placeIndex.contents.map fun e => (e.1, e.2.key.toNat, e.2.feature.toNat)).Perm
      (d.features.zipIdx.map fun f => (d.layerOf f.1, Cell.keyOf f.1.point, f.2)) := by
  have hid : ∀ f ∈ d.features.zipIdx, (UInt32.ofNat f.2).toNat = f.2 := fun f hf =>
    UInt32.toNat_ofNat_of_lt' (Nat.lt_trans (List.snd_lt_of_mem_zipIdx hf) hcount)
  have hvalues :
      (d.numbered.map d.entryOf).map (fun e => (e.1, e.2.key.toNat, e.2.feature.toNat)) =
        d.features.zipIdx.map fun f => (d.layerOf f.1, Cell.keyOf f.1.point, f.2) := by
    rw [numbered, List.map_map, List.map_map]
    refine List.map_congr_left fun f hf => ?_
    simp only [Function.comp_apply, entryOf, toNat_key, hid f hf]
  have hnodup : (d.numbered.map d.entryOf).Nodup := by
    apply List.Nodup.of_map fun e => (e.1, e.2.key.toNat, e.2.feature.toNat)
    rw [hvalues]
    apply List.Nodup.of_map (·.2.2)
    rw [List.map_map]
    exact (List.zipIdx_map_snd 0 d.features).symm ▸ List.nodup_range'
  have hperm : d.placeIndex.contents.Perm (d.numbered.map d.entryOf) :=
    (List.perm_ext_iff_of_nodup (CellIndex.nodup_contents d.ordered_placeIndex) hnodup).mpr
      fun _ => CellIndex.mem_contents.trans has_placeIndex_iff
  exact hvalues ▸ hperm.map _

end Gazetteer.Draft
