import Gazetteer.Partition.Draft
import Gazetteer.Proofs.CellIndex.Codec
import Gazetteer.Proofs.Except

/-! Built partitions: their sections are those that were made for them, and the place index in its
section is the one of the features. -/
namespace Gazetteer

namespace Partition
variable {p : Partition} {bytes : Bytes}

private theorem need_of_section {tag : String} (h : p.section? tag = some bytes) :
    (p.section? tag).elim (.error (PartitionError.missingSection tag)) .ok = Except.ok bytes := by
  rw [h]
  rfl

theorem placeIndex_of_section (h : p.section? placeTag = some bytes) :
    p.placeIndex = (CellIndex.decode bytes).mapError PartitionError.placeIndex :=
  congrArg (· >>= fun bytes => (CellIndex.decode bytes).mapError PartitionError.placeIndex)
    (need_of_section h)

/-- Whatever place index can be read is in order. -/
theorem arranged_of_placeIndex {index : CellIndex} (h : p.placeIndex = .ok index) :
    index.Arranged := by
  unfold placeIndex at h
  obtain ⟨bytes, -, h⟩ := exists_of_bind h
  obtain ⟨hvalid, -⟩ := CellIndex.validate_of_decode (eq_ok_of_mapError h)
  exact (CellIndex.arranged_of_validate hvalid).2

theorem textIndex_of_section (h : p.section? textTag = some bytes) :
    p.textIndex = (Trie.decode bytes).mapError PartitionError.textIndex :=
  congrArg (· >>= fun bytes => (Trie.decode bytes).mapError PartitionError.textIndex)
    (need_of_section h)

theorem features_of_section (h : p.section? featuresTag = some bytes) {fs : List Feature}
    (hread : MessagePack.read? bytes >>= MessagePack.Value.list? Feature.ofValue? = some fs) :
    p.features = .ok fs := by
  refine (congrArg (· >>= _) (need_of_section h)).trans ?_
  simp only [bind, Except.bind] at hread ⊢
  rw [hread]

end Partition

namespace Draft

/-- A feature is numbered by its place among the features, as long as numbers do. -/
theorem mem_numbered {d : Draft} (hcount : d.features.length < 2 ^ 32) {f : Feature × FeatureId} :
    f ∈ d.numbered ↔ d.features[f.2.toNat]? = some f.1 := by
  obtain ⟨f, id⟩ := f
  simp only [numbered, List.mem_map, Prod.exists, Prod.mk.injEq, List.mem_zipIdx_iff_getElem?]
  constructor
  · rintro ⟨g, i, hi, rfl, rfl⟩
    have hlt : i < 2 ^ 32 := Nat.lt_trans (List.getElem?_eq_some_iff.mp hi).1 hcount
    rwa [UInt32.toNat_ofNat_of_lt' hlt]
  · exact fun hi => ⟨f, id.toNat, hi, rfl, UInt32.ofNat_toNat⟩

private theorem find?_outside_eq_none_iff {d : Draft} :
    d.features.zipIdx.find? (fun f => !World.extent.holds f.1.point) = none ↔
      ∀ f ∈ d.features, World.extent.holds f.point = true := by
  rw [List.find?_eq_none, Prod.forall]
  simp only [List.mem_zipIdx_iff_getElem?, Bool.not_eq_true', Bool.not_eq_false]
  constructor
  · intro h f hf
    obtain ⟨i, hi⟩ := List.getElem?_of_mem hf
    exact h f i hi
  · exact fun h f i hi => h f (List.mem_of_getElem? hi)

/-- When a draft is finished, and into what. -/
theorem finish_eq_ok_iff {d : Draft} {p : Partition} :
    d.finish = .ok p ↔ (∀ f ∈ d.features, World.extent.holds f.point = true) ∧
      ∃ bounds text, Rect.bounding (d.features.map (·.point)) = some bounds ∧
        d.textIndex = .ok text ∧
        p = ⟨d.name, ⟨Header.currentFormat, d.version, bounds, d.scales⟩,
          [(Partition.featuresTag, Feature.encodeAll d.features),
            (Partition.placeTag, d.placeIndex.encode), (Partition.textTag, text.encode)]⟩ := by
  rw [← find?_outside_eq_none_iff]
  unfold finish
  cases d.features.zipIdx.find? fun f => !World.extent.holds f.1.point with
  | some f => simp
  | none =>
    cases Rect.bounding (d.features.map (·.point)) with
    | none => simp
    | some bounds =>
      cases d.textIndex with
      | error why => exact iff_of_false nofun (by simp)
      | ok text =>
        constructor
        · intro h
          cases h
          exact ⟨rfl, bounds, text, rfl, rfl, rfl⟩
        · rintro ⟨-, _, _, ⟨⟩, ⟨⟩, rfl⟩
          rfl

/-- What a built partition holds of its draft. -/
theorem finish_spec {d : Draft} {p : Partition} (h : d.finish = .ok p) :
    p.header.scales = d.scales ∧ p.section? Partition.placeTag = some d.placeIndex.encode ∧
      ∃ text, d.textIndex = .ok text ∧ p.section? Partition.textTag = some text.encode := by
  obtain ⟨-, bounds, text, -, htext, rfl⟩ := finish_eq_ok_iff.mp h
  exact ⟨rfl, rfl, text, htext, rfl⟩

/-- Of the features outside the world the first is the one that a draft is refused for. -/
theorem finish_of_outside {d : Draft} {i : Nat} {f : Feature} (hi : d.features[i]? = some f)
    (hout : ¬ World.extent.holds f.point = true)
    (hfirst : ∀ j < i, ∀ g, d.features[j]? = some g → World.extent.holds g.point = true) :
    d.finish = .error (.outOfWorld d.name i f.point) := by
  have hfind : d.features.zipIdx.find? (fun f => !World.extent.holds f.1.point) = some (f, i) := by
    obtain ⟨hlt, hf⟩ := List.getElem?_eq_some_iff.mp hi
    refine List.find?_eq_some_iff_getElem.mpr ⟨by simpa using hout, i, by simpa using hlt, ?_, ?_⟩
    · simp [hf]
    · intro j hj
      have hlt' := Nat.lt_trans hj hlt
      simpa using hfirst j hj _ (List.getElem?_eq_getElem hlt')
  unfold finish
  rw [hfind]

def inn : Draft := { name := "Town", features := [.poi ⟨1, 2⟩ "Old Inn" .en] }

theorem finish_inn : ∃ p, inn.finish = .ok p := exists_ok_of_toBool (by decide +kernel)

/-- A town with an old inn, a new inn that shows at finer scales only, and an old bar far away. -/
def inns : Draft :=
  { name := "Town", features := [.poi ⟨1, 2⟩ "Old Inn" .en,
      { Feature.poi ⟨2, 1⟩ "New Inn" .en with minScale := 4 }, .poi ⟨100, 50⟩ "Old Bar" .en] }

theorem finish_inns : ∃ p, inns.finish = .ok p := exists_ok_of_toBool (by decide +kernel)

end Draft
end Gazetteer
