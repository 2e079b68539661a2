import Gazetteer.Proofs.Partition.PlaceIndex
import Gazetteer.Proofs.Partition.TextIndex
import Gazetteer.Proofs.Search.Decision
import Gazetteer.Proofs.Search.Growth
import Gazetteer.Proofs.Search.Tour

/-! Searches without limits. They go on as long as their viewports grow or until all is covered, so
one that starts with a roomy viewport covers all partitions that are built from features. -/
namespace Gazetteer

private theorem contains_of_decisive {bounds w : Rect Binary64} {vs : List (Rect Binary64)}
    (hw : w ∈ vs) (hm : w.meets bounds = true) (hc : w.contains bounds = true) :
    ∃ v, decisive bounds vs = some v ∧ v.meets bounds = true ∧ v.contains bounds = true := by
  obtain ⟨v, hv⟩ : ∃ v, vs.find? (fun v => v.meets bounds && v.contains bounds) = some v :=
    Option.isSome_iff_exists.mp (List.find?_isSome.mpr ⟨w, hw, by simp [hm, hc]⟩)
  have hv' := List.find?_some hv
  simp only [Bool.and_eq_true] at hv'
  exact ⟨v, by simp [decisive, hv], hv'⟩

private theorem mem_of_decisive {bounds v : Rect Binary64} {vs : List (Rect Binary64)}
    (h : decisive bounds vs = some v) : v ∈ vs := by
  rcases Option.or_eq_some_iff.mp h with h | ⟨_, h⟩
  · exact List.mem_of_find?_eq_some h
  · exact List.mem_of_mem_filter (List.mem_of_getLast? h)

namespace Target
variable {t : Target} {q : Query} {vs : List (Rect Binary64)}

/-- A target is covered by its decisive viewport, if that one contains it. -/
theorem visits_of_isCovered (hp : t.progress = .pending)
    (h : (t.visits q vs).2.isCovered = true) :
    ∃ v text index, decisive t.bounds vs = some v ∧ v.contains t.bounds = true ∧
      t.opened q = .ok (text, index) ∧
      t.visits q vs = ((t.located q v text index).report, (t.located q v text index).cover) := by
  rw [visits_eq_visit_decisive hp] at h ⊢
  cases hd : decisive t.bounds vs with
  | none => simp [hd, isCovered, hp] at h
  | some v =>
    have hm := meets_of_decisive hd
    rw [hd, Option.map_some, Option.getD_some] at h
    cases ho : t.opened q with
    | error why =>
      rw [visit_of_error hp hm ho] at h
      cases h
    | ok found =>
      have hvisit := visit_of_open (q := q) (.inl ⟨hp, ho⟩) hm
      rw [hvisit] at h
      split at h
      · next hc => exact ⟨v, found.1, found.2, rfl, hc, rfl, hvisit.trans (if_pos hc)⟩
      · cases h

/-- A target that can be opened is covered once a viewport meets and contains it, and only then. -/
theorem isCovered_visits_iff (hp : t.progress = .pending) {found : List FeatureId × CellIndex}
    (ho : t.opened q = .ok found) :
    (t.visits q vs).2.isCovered = true ↔
      ∃ w ∈ vs, w.meets t.bounds = true ∧ w.contains t.bounds = true := by
  constructor
  · intro hcovered
    obtain ⟨v, -, -, hd, hc, -⟩ := visits_of_isCovered hp hcovered
    exact ⟨v, mem_of_decisive hd, meets_of_decisive hd, hc⟩
  · rintro ⟨w, hw, hm, hc⟩
    obtain ⟨v, hv, hm', hc'⟩ := contains_of_decisive hw hm hc
    rw [visits_eq_visit_decisive hp, hv, Option.map_some, Option.getD_some,
      visit_of_open (.inl ⟨hp, ho⟩) hm', if_pos hc']
    rfl

/-- It is never given up. -/
theorem not_isFailed_visits (hp : t.progress = .pending) {found : List FeatureId × CellIndex}
    (ho : t.opened q = .ok found) : (t.visits q vs).2.isFailed = false := by
  rw [visits_eq_visit_decisive hp]
  cases hd : decisive t.bounds vs with
  | none => simp [isFailed, hp]
  | some v =>
    rw [Option.map_some, Option.getD_some, visit_of_open (.inl ⟨hp, ho⟩) (meets_of_decisive hd)]
    split <;> rfl

/-- The end of a search covers nothing. -/
theorem isCovered_conclude (t : Target) : t.conclude.2.isCovered = t.isCovered := by
  obtain ⟨r, progress⟩ := t
  cases progress <;> rfl

end Target

/-- The partition is built from features, no more of them than numbers can tell apart. -/
def Partition.Built (p : Partition) : Prop :=
  ∃ d : Draft, d.finish = .ok p ∧ d.features.length < 2 ^ 32 ∧
    ∀ t, d.textIndex = .ok t → t.nodes.size < 2 ^ 32

/-- A built partition lies in the world, and its features in it. -/
theorem Draft.bounds_spec {d : Draft} {p : Partition} (h : d.finish = .ok p) :
    World.extent.contains p.header.bounds = true ∧
      p.header.bounds.lo.x ≤ p.header.bounds.hi.x ∧ p.header.bounds.lo.y ≤ p.header.bounds.hi.y ∧
      ∀ f ∈ d.features, p.header.bounds.holds f.point = true := by
  obtain ⟨hworld, bounds, text, hbounds, -, rfl⟩ := finish_eq_ok_iff.mp h
  obtain ⟨hin, hx, hy, hholds⟩ := Rect.bounding_spec (List.forall_mem_map.mpr hworld) hbounds
  exact ⟨hin, hx, hy, List.forall_mem_map.mp hholds⟩

/-- The indexes of a built partition can be read. -/
theorem Target.opened_of_built {t : Target} (h : t.partition.Built) (q : Query) :
    ∃ found, t.opened q = .ok found := by
  obtain ⟨d, hd, hcount, hnodes⟩ := h
  obtain ⟨trie, htrie, -⟩ := Draft.textIndex_built hd hcount hnodes
  have hindex := Draft.placeIndex_built hd hcount
  refine ⟨(q.textMatches trie, d.placeIndex), ?_⟩
  simp [opened, htrie, hindex, Except.mapError]
  rfl

namespace Search
variable {c : Catalog} {viewport : Rect Binary64}

private theorem viewports_of_idle (s : Search) (hlimits : s.limits = {}) :
    ∃ more, (expand idle {} s.viewport ()).1.map (·.viewport) = s.viewports ++ more ∧
      (more = [] ∨ coversAll (stateAfter s.targets s.expansion.1) = true) := by
  obtain ⟨more, hmore, hlast⟩ := viewports_of_related (A := idle) (B := survey s.query) {}
    (fun _ _ => True) (fun _ => trivial) (fun _ h => nomatch h) (fun _ _ => rfl) s.viewport
    (roundLimit + 1) ((1 : Nat) : Binary64) none (s := ()) (t := s.targets) trivial
  rw [viewports, expansion, hlimits]
  exact ⟨more, hmore, hlast⟩

private theorem built_of_mem {q : Query} (hc : c.Reached)
    (hbuilt : ∀ r ∈ c.registrations, r.partition.Built) {t : Target}
    (ht : t ∈ (start c.source viewport q {}).targets) : t.partition.Built := by
  rw [targets_start hc] at ht
  obtain ⟨r, hr, rfl⟩ := List.mem_map.mp ht
  exact hbuilt r (List.mem_of_mem_filter hr)

/-- The end of a search leaves each target where its own visits and its conclusion leave it. -/
theorem mem_targets_run_iff {s : Search} {t : Target} :
    t ∈ s.run.2.targets ↔ ∃ u ∈ s.targets, (u.visits s.query s.viewports).2.conclude.2 = t := by
  rw [(run_eq_tour s).2, tour_targets]
  simp only [each, List.mem_map, exists_exists_and_eq_and]

/-- If growing viewports come to contain the world, a search without limits covers every
partition. -/
theorem isCovered_of_contains_world (hc : c.Reached)
    (hbuilt : ∀ r ∈ c.registrations, r.partition.Built) (q : Query)
    (hworld : ∃ w ∈ (expand idle {} viewport ()).1.map (·.viewport),
      w.contains World.extent = true) :
    ∀ t ∈ (start c.source viewport q {}).run.2.targets, t.isCovered = true := by
  let s := start c.source viewport q {}
  have hstate : stateAfter s.targets s.expansion.1 =
      s.targets.map fun t => (t.visits q s.viewports).2 := by
    rw [← tour_targets q s.targets s.viewports]
    exact (congrArg Prod.snd (tour_of_chain (Survey.chain_expandFrom ..))).symm
  obtain ⟨w, hw, hworld⟩ := hworld
  obtain ⟨more, hmore, hlast⟩ := viewports_of_idle s rfl
  have hcovered : ∀ t ∈ s.targets, (t.visits q s.viewports).2.isCovered = true := by
    intro t ht
    have hpending := pending_start ht
    have hpartition := built_of_mem hc hbuilt ht
    obtain ⟨found, ho⟩ := Target.opened_of_built hpartition q
    rcases hlast with rfl | hlast
    · obtain ⟨d, hd, -⟩ := hpartition
      obtain ⟨hin, hx, hy, -⟩ := Draft.bounds_spec hd
      have hcontains : w.contains t.bounds = true := Cell.Nested.contains_trans hworld hin
      rw [List.append_nil] at hmore
      exact (Target.isCovered_visits_iff hpending ho).mpr
        ⟨w, hmore ▸ hw, Cell.Nested.meets_of_contains hcontains hx hy, hcontains⟩
    · rw [hstate] at hlast
      have := List.all_eq_true.mp hlast _ (List.mem_map_of_mem ht)
      rwa [Target.not_isFailed_visits hpending ho, Bool.or_false] at this
  intro t ht
  obtain ⟨u, hu, rfl⟩ := mem_targets_run_iff.mp ht
  exact (Target.isCovered_conclude _).trans (hcovered u hu)

private theorem built_of_finish {d : Draft} {p : Partition} (hp : d.finish = .ok p)
    (hcount : d.features.length < 2 ^ 32)
    (hnodes : d.textIndex.toOption.all (·.nodes.size < 2 ^ 32) = true) : p.Built :=
  ⟨d, hp, hcount, Draft.nodes_lt_of_all hnodes⟩

private theorem mem_targets_of_built {p : Partition} (hp : p.Built) {q : Query} :
    (⟨⟨⟨p.name, 1⟩, p⟩, .pending⟩ : Target) ∈
      (start (Catalog.empty.register p).2.2.source viewport q {}).targets := by
  obtain ⟨d, hd, -⟩ := hp
  obtain ⟨-, hplace, text, -, htext⟩ := Draft.finish_spec hd
  rw [targets_start (.register p .empty)]
  refine List.mem_map_of_mem (List.mem_filter.mpr ⟨List.mem_singleton_self _, ?_⟩)
  simp [Partition.hasSection, hplace, htext]

/-- Two inns at opposite corners of the world. -/
def corners : Draft :=
  { name := "World", features := [.poi ⟨-180, -180⟩ "Old Inn" .en, .poi ⟨180, 180⟩ "New Inn" .en] }

private theorem finish_corners : ∃ p, corners.finish = .ok p ∧ p.header.bounds = World.extent := by
  have hbounds : corners.finish.toOption.map (·.header.bounds) = some World.extent := by
    decide +kernel
  cases h : corners.finish with
  | error why =>
    rw [h] at hbounds
    cases hbounds
  | ok p =>
    rw [h] at hbounds
    exact ⟨p, rfl, Option.some.inj hbounds⟩

/-- A viewport serves for every search without limits exactly if it grows until it contains the
world. -/
theorem isCovered_iff_contains_world (viewport : Rect Binary64) :
    (∀ c : Catalog, c.Reached → (∀ r ∈ c.registrations, r.partition.Built) → ∀ q,
      ∀ t ∈ (start c.source viewport q {}).run.2.targets, t.isCovered = true) ↔
    ∃ w ∈ (expand idle {} viewport ()).1.map (·.viewport), w.contains World.extent = true := by
  refine ⟨fun hall => ?_, fun hworld c hc hbuilt q => isCovered_of_contains_world hc hbuilt q hworld⟩
  obtain ⟨p, hfinish, hextent⟩ := finish_corners
  have hbuilt : p.Built := built_of_finish hfinish (by decide) (by decide +kernel)
  let c := (Catalog.empty.register p).2.2
  have hc : c.Reached := .register p .empty
  let s := start c.source viewport .empty {}
  let t : Target := ⟨⟨⟨p.name, 1⟩, p⟩, .pending⟩
  have ht : t ∈ s.targets := mem_targets_of_built hbuilt
  have hcovered : (t.visits s.query s.viewports).2.isCovered = true := by
    rw [← Target.isCovered_conclude]
    exact hall c hc (List.forall_mem_singleton.mpr hbuilt) .empty _
      (mem_targets_run_iff.mpr ⟨t, ht, rfl⟩)
  obtain ⟨found, ho⟩ := Target.opened_of_built (t := t) hbuilt s.query
  obtain ⟨w, hw, -, hcontains⟩ := (Target.isCovered_visits_iff rfl ho).mp hcovered
  obtain ⟨more, hmore, -⟩ := viewports_of_idle s rfl
  refine ⟨w, ?_, hextent ▸ hcontains⟩
  rw [show viewport = s.viewport from rfl, hmore]
  exact List.mem_append_left more hw

/-- A search without limits that starts with a roomy viewport covers every partition. -/
theorem isCovered_of_roomy (hc : c.Reached) (hbuilt : ∀ r ∈ c.registrations, r.partition.Built)
    (hroomy : viewport.Roomy) (q : Query) :
    ∀ t ∈ (start c.source viewport q {}).run.2.targets, t.isCovered = true :=
  isCovered_of_contains_world hc hbuilt q hroomy.exists_contains_world

/-- The viewport of a search that starts beside the inn. -/
theorem isCovered_inn :
    let viewport : Rect Binary64 := ⟨⟨3, 4⟩, ⟨5, 6⟩⟩
    ∃ p, Draft.inn.finish = .ok p ∧
      let c := (Catalog.empty.register p).2.2
      c.Reached ∧ (∀ r ∈ c.registrations, r.partition.Built) ∧ viewport.Roomy ∧
        (start c.source viewport .empty {}).targets ≠ [] ∧
        ∀ t ∈ (start c.source viewport .empty {}).run.2.targets, t.isCovered = true := by
  intro viewport
  obtain ⟨p, hp⟩ := Draft.finish_inn
  have hbuilt : p.Built := built_of_finish hp (by decide) (by decide +kernel)
  have hall : ∀ r ∈ (Catalog.empty.register p).2.2.registrations, r.partition.Built :=
    List.forall_mem_singleton.mpr hbuilt
  have hroomy : viewport.Roomy := by
    have hcast {n : Nat} (h : n < 2 ^ 53) : (n : Binary64).Is n := Binary64.Is.natCast h
    refine Rect.roomy_of_world (hcast (n := 3) (by decide)) (hcast (n := 5) (by decide))
      (hcast (n := 4) (by decide)) (hcast (n := 6) (by decide)) ?_ ?_ ?_ ?_ <;> norm_num
  exact ⟨p, hp, .register p .empty, hall, hroomy, List.ne_nil_of_mem (mem_targets_of_built hbuilt),
    isCovered_of_roomy (.register p .empty) hall hroomy .empty⟩

/-- A viewport as wide and as high as the space between two numbers is enlarged once, by the square
root of two. The next step rounds to the same viewport, so the search ends before it comes to the
inn. -/
theorem not_isCovered_inn :
    ¬ ∀ (viewport : Rect Binary64) (c : Catalog) (q : Query), viewport.isFinite = true →
      viewport.lo.x < viewport.hi.x → viewport.lo.y < viewport.hi.y → c.Reached →
      (∀ r ∈ c.registrations, r.partition.Built) →
      ∀ t ∈ (start c.source viewport q {}).run.2.targets, t.isCovered = true := by
  intro hall
  let viewport : Rect Binary64 :=
    ⟨⟨⟨0x3ff8000000000000⟩, ⟨0x3ff8000000000000⟩⟩, ⟨⟨0x3ff8000000000001⟩, ⟨0x3ff8000000000001⟩⟩⟩
  have hclosed : Draft.inn.finish.toOption.all (fun p =>
      (start (Catalog.empty.register p).2.2.source viewport .empty {}).run.2.targets.all
        (·.isCovered)) = false := by decide +kernel
  obtain ⟨p, hp⟩ := Draft.finish_inn
  have hbuilt : p.Built := built_of_finish hp (by decide) (by decide +kernel)
  have hcovered := hall viewport (Catalog.empty.register p).2.2 .empty (by decide +kernel)
    (by decide +kernel) (by decide +kernel) (.register p .empty)
    (List.forall_mem_singleton.mpr hbuilt)
  rw [hp] at hclosed
  exact Bool.false_ne_true (hclosed.symm.trans (List.all_eq_true.mpr hcovered))

end Search
end Gazetteer
