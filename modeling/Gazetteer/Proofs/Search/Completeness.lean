import Gazetteer.Proofs.Query.NameMatches
import Gazetteer.Proofs.Query.PlaceMatches
import Gazetteer.Proofs.Search.Coverage

/-! Covered partitions. A viewport that contains a partition meets the cells of all its features,
however coarse they are, so none is missed of the features that show at the scale of the query. -/
namespace Gazetteer

private theorem ScaleRange.clamp_le_clamp {r : ScaleRange} {s : Scale} (h : r.finest ≤ s)
    (s' : Scale) : r.clamp s' ≤ r.clamp s := by
  unfold clamp
  simp only [UInt8.lt_iff_toNat_lt, UInt8.le_iff_toNat_le] at h ⊢
  split_ifs <;> omega

/-- The finest cell of each feature holds its point. Rounding puts points just below the border of a
cell into the cell beyond it. -/
def Draft.PointsInCells (d : Draft) : Prop :=
  ∀ f ∈ d.features, (Cell.ofPoint f.point World.finestLevel).rect.holds f.point = true

section
variable {d : Draft} {p : Partition} {q : Query}

/-- A viewport that contains a partition matches all its features that show at the scale. -/
theorem Query.mem_placeMatches_of_contains (hd : d.finish = .ok p)
    (hcount : d.features.length < 2 ^ 32) (hcells : d.PointsInCells) {viewport : Rect Binary64}
    (hv : viewport.contains p.header.bounds = true) {id : FeatureId} :
    id ∈ q.placeMatches d.placeIndex d.scales viewport ↔
      ∃ f, d.features[id.toNat]? = some f ∧ d.scales.clamp f.minScale ≤ d.scales.clamp q.scale := by
  obtain ⟨-, -, -, hbounds⟩ := Draft.bounds_spec hd
  have hmeets (f : Feature) (hf : f ∈ d.features) :
      ∃ c : Cell, c.level = World.levelOf (d.scales.clamp q.scale) ∧
        Cell.keyOf f.point ∈ c.keys ∧ viewport.meets c.rect = true := by
    obtain ⟨c, hlevel, hkey, hholds⟩ := Cell.exists_holds (Nat.min_le_right ..) (hcells f hf)
    exact ⟨c, hlevel, hkey,
      Cell.Nested.meets_of_holds (Cell.Nested.holds_of_contains hv (hbounds f hf)) hholds⟩
  rw [mem_placeMatches hcount]
  constructor
  · rintro ⟨f, hf, hscale, -⟩
    exact ⟨f, hf, hscale⟩
  · rintro ⟨f, hf, hscale⟩
    exact ⟨f, hf, hscale, hmeets f (List.mem_of_getElem? hf)⟩

/-- What visits find in a built partition by the time they cover it, and what they tell of it. -/
theorem Target.visits_of_built {t : Target} {vs : List (Rect Binary64)} (hp : t.progress = .pending)
    (hd : d.finish = .ok t.partition) (hcount : d.features.length < 2 ^ 32)
    (hnodes : ∀ trie, d.textIndex = .ok trie → trie.nodes.size < 2 ^ 32)
    (hcells : d.PointsInCells) (h : (t.visits q vs).2.isCovered = true) :
    let found := (t.visits q vs).2.found.both
    found.Pairwise (· < ·) ∧
      (∀ id, id ∈ found ↔ ∃ f, d.features[id.toNat]? = some f ∧ q.Matches f ∧
        d.scales.clamp f.minScale ≤ d.scales.clamp q.scale) ∧
      (t.visits q vs).1 = if found = [] then [] else [.reported t.id found] := by
  obtain ⟨v, text, index, -, hv, ho, hvisits⟩ := visits_of_isCovered hp h
  obtain ⟨trie, htrie, hindex, rfl⟩ := opened_eq_ok ho
  obtain ⟨trie', htrie', hforest, hvalues⟩ := Draft.textIndex_built hd hcount hnodes
  cases htrie.symm.trans htrie'
  cases hindex.symm.trans (Draft.placeIndex_built hd hcount)
  obtain ⟨hscales, -⟩ := Draft.finish_spec hd
  rw [hvisits, found_cover]
  have htext := q.pairwise_textMatches trie
  refine ⟨Ascending.pairwise_inter htext _, ?_, ?_⟩
  · intro id
    refine (Ascending.mem_inter htext (Ascending.pairwise_ofList _)).trans ?_
    rw [Ascending.mem_ofList, Query.mem_textMatches_of_values hforest hvalues, hscales,
      Query.mem_placeMatches_of_contains hd hcount hcells hv]
    constructor
    · rintro ⟨⟨f, hf, hmatch⟩, g, hg, hscale⟩
      cases hf.symm.trans hg
      exact ⟨f, hf, hmatch, hscale⟩
    · rintro ⟨f, hf, hmatch, hscale⟩
      exact ⟨⟨f, hf, hmatch⟩, f, hf, hscale⟩
  · simp only [report, List.isEmpty_iff]
    rfl

end

namespace Search
variable {c : Catalog} {viewport : Rect Binary64} {q : Query} {limits : Limits Binary64} {t : Target}

private theorem exists_visits_of_isCovered (hc : c.Reached)
    (ht : t ∈ (start c.source viewport q limits).run.2.targets) (hcovered : t.isCovered = true) :
    let s := start c.source viewport q limits
    ∃ u : Target, u.progress = .pending ∧ u.registration = t.registration ∧
      (u.visits q s.viewports).2 = t ∧ s.told t = (u.visits q s.viewports).1 := by
  intro s
  obtain ⟨u, hu, hend⟩ := mem_targets_run_iff.mp ht
  change (u.visits q s.viewports).2.conclude.2 = t at hend
  have hvisits : (u.visits q s.viewports).2.isCovered = true := by
    rw [← Target.isCovered_conclude, hend]
    exact hcovered
  have hconclude : (u.visits q s.viewports).2.conclude = ([], (u.visits q s.viewports).2) := by
    rw [Target.conclude, if_pos]
    simp only [Target.isFinished, Target.isCovered] at hvisits ⊢
    simp [hvisits]
  rw [hconclude] at hend
  have hregistration : u.registration = t.registration :=
    hend ▸ (u.visits_registration q s.viewports).symm
  refine ⟨u, pending_start hu, hregistration, hend, ?_⟩
  have htold := told_eq (isFinished_start hu) (ids_nodup_start hc viewport q limits) hu
  change s.told u = (u.visits q s.viewports).1 ++ (u.visits q s.viewports).2.conclude.1 at htold
  rw [hconclude, List.append_nil] at htold
  rw [← htold, told, told, Target.id, Target.id, hregistration]

/-- If a search covers a built partition, it finds in it and reports exactly the features that match
by text and show at the scale of the query; at a scale as fine as the partition gets, all features
that match by text. -/
theorem both_of_isCovered {d : Draft} {p : Partition} (hd : d.finish = .ok p)
    (hcount : d.features.length < 2 ^ 32)
    (hnodes : ∀ trie, d.textIndex = .ok trie → trie.nodes.size < 2 ^ 32) (hcells : d.PointsInCells)
    (hc : c.Reached) (ht : t ∈ (start c.source viewport q limits).run.2.targets)
    (hp : t.partition = p) (hcovered : t.isCovered = true) :
    t.found.both.Pairwise (· < ·) ∧
      (∀ id, id ∈ t.found.both ↔ ∃ f, d.features[id.toNat]? = some f ∧ q.Matches f ∧
        d.scales.clamp f.minScale ≤ d.scales.clamp q.scale) ∧
      (start c.source viewport q limits).told t =
        (if t.found.both = [] then [] else [.reported t.id t.found.both]) ∧
      (d.scales.finest ≤ q.scale → ∀ id, id ∈ t.found.both ↔
        ∃ f, d.features[id.toNat]? = some f ∧ q.Matches f) := by
  obtain ⟨u, hpending, hregistration, hvisits, htold⟩ := exists_visits_of_isCovered hc ht hcovered
  have hbuilt : d.finish = .ok u.partition := by
    rw [hd, ← hp, Target.partition, Target.partition, hregistration]
  have hend := hcovered
  rw [← hvisits] at hend
  obtain ⟨hascending, hmem, hevents⟩ :=
    Target.visits_of_built hpending hbuilt hcount hnodes hcells hend
  rw [hvisits] at hascending hmem hevents
  refine ⟨hascending, hmem, ?_, ?_⟩
  · rw [htold, hevents, Target.id, Target.id, hregistration]
  · intro hfinest id
    simp only [hmem, ScaleRange.clamp_le_clamp hfinest, and_true]

/-- When its town is covered the old inn is found and reported. The new inn does not show at the
scale of the query, and the old bar is none. -/
theorem both_inn :
    let viewport : Rect Binary64 := ⟨⟨0, 0⟩, ⟨120, 60⟩⟩
    let q : Query := { words := [["inn"]], scale := 3 }
    ∃ p, Draft.inns.finish = .ok p ∧
      let s := start (Catalog.empty.register p).2.2.source viewport q {}
      ∃ t ∈ s.run.2.targets, t.partition = p ∧ t.isCovered = true ∧
        0 ∈ t.found.both ∧ 1 ∉ t.found.both ∧ 2 ∉ t.found.both ∧
        s.told t = [.reported t.id t.found.both] := by
  intro viewport q
  obtain ⟨p, hp⟩ := Draft.finish_inns
  have hrun : Draft.inns.finish.toOption.all (fun p =>
      (start (Catalog.empty.register p).2.2.source viewport q {}).run.2.targets.any fun t =>
        decide (t.partition = p) && t.isCovered) = true := by decide +kernel
  rw [hp] at hrun
  obtain ⟨t, ht, hcovered⟩ := List.any_eq_true.mp hrun
  obtain ⟨hpartition, hcovered⟩ := Bool.and_eq_true_iff.mp hcovered
  have hpartition := of_decide_eq_true hpartition
  have hnodes : ∀ trie, Draft.inns.textIndex = .ok trie → trie.nodes.size < 2 ^ 32 :=
    Draft.nodes_lt_of_all (by decide +kernel)
  have hcells : Draft.inns.PointsInCells := List.all_eq_true.mp (by decide +kernel)
  obtain ⟨-, hmem, htold, -⟩ := both_of_isCovered hp (by decide) hnodes hcells (.register p .empty) ht
    hpartition hcovered
  have hfound : 0 ∈ t.found.both := by
    refine (hmem 0).mpr ⟨_, rfl, ⟨rfl, List.forall_mem_singleton.mpr ?_, nofun⟩, by decide⟩
    exact ⟨"inn", .head _, (Query.knows_iff_of_names rfl rfl).mpr (by decide +kernel)⟩
  rw [if_neg (List.ne_nil_of_mem hfound)] at htold
  refine ⟨p, hp, t, ht, hpartition, hcovered, hfound, ?_, ?_, htold⟩ <;> rw [hmem]
  · rintro ⟨_, ⟨⟩, -, hshows⟩
    exact absurd hshows (by decide)
  · rintro ⟨_, ⟨⟩, ⟨-, hwords, -⟩, -⟩
    obtain ⟨form, hform, hword⟩ := hwords _ (.head _)
    cases List.mem_singleton.mp hform
    exact absurd ((Query.knows_iff_of_names rfl rfl).mp hword) (by decide +kernel)

end Search
end Gazetteer
