import Gazetteer.Proofs.Geometry.Covering
import Gazetteer.Proofs.Partition.PlaceIndex
import Gazetteer.Query.Matching

/-! What the place of a query matches in a built partition, as a condition on one feature at a
time. -/
namespace Gazetteer.Query

/-- A search by place finds the features with an entry that shows at the scale of the query, as the
partition takes it, with a key in a cell at the level of this scale that meets the viewport. -/
theorem mem_placeMatches_iff {α : Type} [Scalar α] [Cell.Nested α] {index : CellIndex}
    (h : index.Arranged) {q : Query} {scales : ScaleRange} {viewport : Rect α} {id : FeatureId} :
    id ∈ q.placeMatches index scales viewport ↔
      ∃ s e, index.Has s e ∧ e.feature = id ∧ s ≤ scales.clamp q.scale ∧
        ∃ c : Cell, c.level = World.levelOf (scales.clamp q.scale) ∧ e.key.toNat ∈ c.keys ∧
          viewport.meets c.rect = true := by
  have hlevel : min (World.levelOf (scales.clamp q.scale)) World.finestLevel =
      World.levelOf (scales.clamp q.scale) := Nat.min_eq_left (Nat.min_le_right ..)
  have hcover := viewport.covered_cover (World.levelOf (scales.clamp q.scale))
  rw [hlevel] at hcover
  simp only [placeMatches, List.mem_flatMap, CellIndex.mem_lookup h]
  constructor
  · rintro ⟨keys, hkeys, s, e, he, hscale, hkey, rfl⟩
    exact ⟨s, e, he, rfl, hscale, (hcover _).mp ⟨keys, hkeys, hkey⟩⟩
  · rintro ⟨s, e, he, rfl, hscale, hcell⟩
    obtain ⟨keys, hkeys, hkey⟩ := (hcover _).mpr hcell
    exact ⟨keys, hkeys, s, e, he, hscale, hkey, rfl⟩

/-- A larger viewport matches what a smaller one matches. -/
theorem placeMatches_mono {α : Type} [Scalar α] [Cell.Nested α] {index : CellIndex}
    (h : index.Arranged) {q : Query} {scales : ScaleRange} {v w : Rect α}
    (hcontains : w.contains v = true) {id : FeatureId} (hid : id ∈ q.placeMatches index scales v) :
    id ∈ q.placeMatches index scales w := by
  rw [mem_placeMatches_iff h] at hid ⊢
  obtain ⟨s, e, he, hfeature, hscale, c, hlevel, hkey, hmeets⟩ := hid
  exact ⟨s, e, he, hfeature, hscale, c, hlevel, hkey, Cell.Nested.meets_of_larger hcontains hmeets⟩

/-- Viewports that meet the same cells match the same features. -/
theorem placeMatches_congr {α : Type} [Scalar α] [Cell.Nested α] {v w : Rect α}
    (h : ∀ c : Cell, v.meets c.rect = w.meets c.rect) (q : Query) (index : CellIndex)
    (scales : ScaleRange) : q.placeMatches index scales v = q.placeMatches index scales w := by
  simp only [placeMatches, Rect.cover_congr h]

/-- A search by place among the features of a draft finds those that show at the scale of the query,
as the partition takes it, and whose cell at the level of this scale meets the viewport. -/
theorem mem_placeMatches {d : Draft} (hcount : d.features.length < 2 ^ 32) {q : Query}
    {viewport : Rect Binary64} {id : FeatureId} :
    id ∈ q.placeMatches d.placeIndex d.scales viewport ↔
      ∃ f, d.features[id.toNat]? = some f ∧
        d.scales.clamp f.minScale ≤ d.scales.clamp q.scale ∧
        ∃ c : Cell, c.level = World.levelOf (d.scales.clamp q.scale) ∧
          Cell.keyOf f.point ∈ c.keys ∧ viewport.meets c.rect = true := by
  simp only [mem_placeMatches_iff d.ordered_placeIndex.arranged, Draft.has_placeIndex hcount]
  constructor
  · rintro ⟨_, e, ⟨f, hf, rfl, hkey⟩, rfl, hscale, hcell⟩
    rw [hkey, Draft.toNat_key] at hcell
    exact ⟨f, hf, hscale, hcell⟩
  · rintro ⟨f, hf, hscale, hcell⟩
    rw [← Draft.toNat_key] at hcell
    exact ⟨_, ⟨_, id⟩, ⟨f, hf, rfl, rfl⟩, rfl, hscale, hcell⟩

/-- A search by place in a built partition succeeds and finds each feature once at most, and exactly
those that show at the scale of the query, as the partition takes it, and whose cell at the level of
this scale meets the viewport. Numbers of features have 32 bits, so there are fewer than
`2 ^ 32`. -/
theorem placeMatches_built {d : Draft} {p : Partition} (hp : d.finish = .ok p)
    (hcount : d.features.length < 2 ^ 32) (q : Query) (viewport : Rect Binary64) :
    ∃ index, p.placeIndex = .ok index ∧
      (q.placeMatches index p.header.scales viewport).Nodup ∧
      ∀ id, id ∈ q.placeMatches index p.header.scales viewport ↔
        ∃ f, d.features[id.toNat]? = some f ∧
          d.scales.clamp f.minScale ≤ d.scales.clamp q.scale ∧
          ∃ c : Cell, c.level = World.levelOf (d.scales.clamp q.scale) ∧
            Cell.keyOf f.point ∈ c.keys ∧ viewport.meets c.rect = true := by
  obtain ⟨hscales, -⟩ := Draft.finish_spec hp
  refine ⟨d.placeIndex, Draft.placeIndex_built hp hcount, ?_, ?_⟩
  · have hapart := (viewport.canonical_cover (World.levelOf (p.header.scales.clamp q.scale))).apart
    exact CellIndex.nodup_lookups d.ordered_placeIndex (Draft.single_placeIndex hcount)
      (hapart.imp Nat.le_of_lt) _
  · intro id
    rw [hscales]
    exact mem_placeMatches hcount

/-- In a viewport beside the old inn this inn is found. The new inn does not show at the scale of
the query, and the old bar is in another cell. -/
theorem placeMatches_inn :
    let q : Query := { scale := 3 }
    let viewport : Rect Binary64 := ⟨⟨0, 0⟩, ⟨3, 3⟩⟩
    ∃ p index, Draft.inns.finish = .ok p ∧ p.placeIndex = .ok index ∧
      0 ∈ q.placeMatches index p.header.scales viewport ∧
      1 ∉ q.placeMatches index p.header.scales viewport ∧
      2 ∉ q.placeMatches index p.header.scales viewport := by
  intro q viewport
  obtain ⟨p, hp⟩ := Draft.finish_inns
  obtain ⟨index, hindex, -, hmem⟩ := placeMatches_built hp (by decide) q viewport
  refine ⟨p, index, hp, hindex, ?_, ?_, ?_⟩ <;> rw [hmem]
  · exact ⟨_, rfl, by decide, Cell.ofPoint ⟨1, 2⟩ 3, rfl, by decide +kernel, by decide +kernel⟩
  · rintro ⟨_, ⟨⟩, hshows, -⟩
    exact absurd hshows (by decide)
  · rintro ⟨_, ⟨⟩, -, c, hlevel, hkey, hmeets⟩
    have hcell : c = Cell.ofPoint ⟨100, 50⟩ 3 :=
      Cell.eq_of_mem_keys hlevel hkey (by decide +kernel)
    have hapart : viewport.meets (Cell.ofPoint ⟨100, 50⟩ 3).rect = false := by decide +kernel
    rw [hcell, hapart] at hmeets
    cases hmeets

end Gazetteer.Query
