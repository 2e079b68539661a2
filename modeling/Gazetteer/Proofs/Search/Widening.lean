import Gazetteer.Proofs.Query.PlaceMatches
import Gazetteer.Proofs.Search.Lifecycle
import Gazetteer.Proofs.Search.Rounds
import Gazetteer.Proofs.Search.Scaling
import Mathlib.Data.List.Forall2

/-! A search never loses a feature. Each viewport contains the one before it, so a partition that it
meets is looked up in more cells than before; and a partition is given up only before anything was
found in it. -/
namespace Gazetteer
open Binary64

namespace Target
variable {t : Target} {q : Query} {v w : Rect Binary64}

/-- What is found in the target is in order, and the viewport finds it again. -/
structure Below (q : Query) (v : Rect Binary64) (t : Target) : Prop where
  sorted : t.Sorted
  found_again : ∀ m index, t.progress = .met m index → index.Arranged ∧
    ∀ id ∈ m.place, id ∈ q.placeMatches index t.partition.header.scales v

private theorem below_of_pending (hp : t.progress = .pending) : t.Below q v where
  sorted := by simp [Sorted, found, hp]
  found_again m index hm := by cases hp.symm.trans hm

namespace Below

private theorem mono (h : t.Below q v) (hcontains : w.contains v = true) : t.Below q w where
  sorted := h.sorted
  found_again m index hm := by
    obtain ⟨harranged, hplace⟩ := h.found_again m index hm
    exact ⟨harranged, fun id hid => Query.placeMatches_mono harranged hcontains (hplace id hid)⟩

private theorem nodup (h : t.Below q v) : t.found.both.Nodup :=
  Ascending.nodup_of_pairwise (Ascending.pairwise_inter h.sorted _)

/-- What is found in the target stays found when the viewport is looked up in it. -/
theorem located (h : t.Below q v) {text : List FeatureId} {index : CellIndex}
    (ht : t.Open q text index) :
    (t.located q v text index).Below q v ∧
      ∀ id ∈ t.found.both, id ∈ (t.located q v text index).found.both := by
  have hplace := Ascending.pairwise_ofList (q.placeMatches index t.partition.header.scales v)
  have hopen : index.Arranged ∧ text.Pairwise (· < ·) ∧ ∀ id ∈ t.found.both,
      id ∈ text ∧ id ∈ q.placeMatches index t.partition.header.scales v := by
    rcases ht with ⟨hp, ho⟩ | ⟨place, hp⟩
    · obtain ⟨trie, -, hindex, rfl⟩ := opened_eq_ok ho
      rw [both_of_pending hp]
      exact ⟨Partition.arranged_of_placeIndex hindex, q.pairwise_textMatches trie,
        fun id hid => absurd hid List.not_mem_nil⟩
    · have hfound : t.found = ⟨text, place⟩ := by rw [found, hp]
      obtain ⟨harranged, hagain⟩ := h.found_again _ _ hp
      refine ⟨harranged, by simpa [Sorted, hfound] using h.sorted, fun id hid => ?_⟩
      rw [hfound] at hid
      obtain ⟨htext, hid⟩ := Ascending.mem_of_mem_inter hid
      exact ⟨htext, hagain id hid⟩
  obtain ⟨harranged, htext, hfound⟩ := hopen
  refine ⟨⟨htext, fun m index' hm => ?_⟩, fun id hid => ?_⟩
  · cases hm
    exact ⟨harranged, fun id hid => Ascending.mem_ofList.mp hid⟩
  · obtain ⟨hid, hid'⟩ := hfound id hid
    exact (Ascending.mem_inter htext hplace).mpr ⟨hid, Ascending.mem_ofList.mpr hid'⟩

/-- A visit loses nothing that is found in the target: it is given up only before it was met. -/
theorem visit (h : t.Below q v) :
    (t.visit q v).2.Below q v ∧ ∀ id ∈ t.found.both, id ∈ (t.visit q v).2.found.both := by
  rcases t.visit_cases q v with hv | ⟨why, hp, hv⟩ | ⟨text, index, ht, hv | hv⟩ <;> rw [hv]
  · exact ⟨h, fun id hid => hid⟩
  · rw [both_of_pending hp]
    exact ⟨⟨.nil, fun m index hm => by cases hm⟩, fun id hid => absurd hid List.not_mem_nil⟩
  · exact h.located ht
  · obtain ⟨hbelow, hfound⟩ := h.located ht
    rw [found_cover]
    refine ⟨⟨?_, fun m index hm => by cases hm⟩, hfound⟩
    rw [Sorted, found_cover]
    exact hbelow.sorted

end Below

private theorem isTouched_visit (h : t.isTouched = true) : (t.visit q v).2.isTouched = true := by
  rcases t.visit_cases q v with hv | ⟨why, hp, hv⟩ | ⟨text, index, ht, hv | hv⟩ <;> rw [hv]
  · exact h
  all_goals rfl

end Target

section
variable {σ ε : Type} {survey : Survey Binary64 σ ε} {limits : Limits Binary64} {start : Rect Binary64}
  {x : Binary64} {f : ℚ}

/-- The next viewport contains the one of a round that goes on. -/
theorem Round.GoesOn.contains {r : Round Binary64 σ ε} (h : r.GoesOn survey limits)
    (hx : r.factor.isFinite = true → ∃ f, r.factor.Is f ∧ 1 ≤ f)
    (hfinite : (start.scaled (limits.capped r.factor)).isFinite = true)
    (hnext : (start.scaled (limits.capped (r.factor * growth))).isFinite = true) :
    (start.scaled (limits.capped (r.factor * growth))).contains
      (start.scaled (limits.capped r.factor)) = true := by
  rw [h.capped_eq] at hfinite ⊢
  obtain ⟨f, hf, hone⟩ := hx (Rect.isFinite_of_isFinite_scaled hfinite)
  have hlarger : ∃ g, (limits.capped (r.factor * growth)).Is g ∧ f ≤ g := by
    have hnumber := Rect.isFinite_of_isFinite_scaled hnext
    by_cases hceiling : ∃ c, limits.ceiling = some c ∧ c < r.factor * growth
    · obtain ⟨c, hc, hlt⟩ := hceiling
      rw [Limits.capped_of_lt hc hlt] at hnumber ⊢
      obtain ⟨g, hg⟩ := isFinite_iff.mp hnumber
      have hbelow : ¬ g ≤ f := fun hle => h.below_ceiling c hc ((hg.le_iff hf).mpr hle)
      exact ⟨g, hg, (not_le.mp hbelow).le⟩
    · rw [Limits.capped_of_not_lt fun c hc hlt => hceiling ⟨c, hc, hlt⟩] at hnumber ⊢
      obtain ⟨g, hg, hround⟩ := exists_next_of_isFinite hf hnumber
      exact ⟨g, hg, hround.ge hf.representable (by linarith)⟩
  obtain ⟨g, hg, hle⟩ := hlarger
  exact Rect.contains_scaled_of_le hf hg (by linarith) hle hfinite hnext

end

namespace Search

/-- From one round to the next nothing is lost: the viewport contains the one before it, and meets
what this met; in each partition what was found stays found; and no fewer features are counted. -/
structure Widens (r next : Round Binary64 (List Target) Event) : Prop where
  viewport : next.viewport.contains r.viewport = true
  targets : List.Forall₂ (fun t u : Target =>
    u.registration = t.registration ∧ (∀ id ∈ t.found.both, id ∈ u.found.both) ∧
      (r.viewport.meets t.bounds = true → next.viewport.meets u.bounds = true) ∧
      (t.isTouched = true → u.isTouched = true)) r.after next.after
  count : count r.after ≤ count next.after

private theorem count_le {ts us : List Target} (h : List.Forall₂ (fun t u : Target =>
    t.found.both.Nodup ∧ ∀ id ∈ t.found.both, id ∈ u.found.both) ts us) : count ts ≤ count us := by
  induction h with
  | nil => exact le_rfl
  | cons hfirst _ ih =>
    obtain ⟨hnodup, hsub⟩ := hfirst
    simp only [count, List.flatMap_cons, List.length_append] at ih ⊢
    exact Nat.add_le_add (hnodup.subperm hsub).length_le ih

/-- A round after one with a smaller viewport finds again all that was found, and meets what was
met. -/
theorem widens_visit {q : Query} {r next : Round Binary64 (List Target) Event}
    (hbelow : ∀ t ∈ r.after, t.Below q next.viewport)
    (hcontains : next.viewport.contains r.viewport = true)
    (hnext : next.after = r.after.map fun t => (t.visit q next.viewport).2) : Widens r next where
  viewport := hcontains
  targets := by
    rw [hnext, List.forall₂_map_right_iff, List.forall₂_same]
    intro t ht
    have hbounds : (t.visit q next.viewport).2.bounds = t.bounds :=
      congrArg (·.partition.header.bounds) (t.visit_registration q next.viewport)
    exact ⟨t.visit_registration q _, (hbelow t ht).visit.2,
      fun hmeets => hbounds ▸ Cell.Nested.meets_of_larger hcontains hmeets, Target.isTouched_visit⟩
  count := by
    apply count_le
    rw [hnext, List.forall₂_map_right_iff, List.forall₂_same]
    exact fun t ht => ⟨(hbelow t ht).nodup, (hbelow t ht).visit.2⟩

private theorem isChain_of_unfolds {q : Query} {limits : Limits Binary64} {v : Rect Binary64}
    {x : Binary64} {targets : List Target} {rounds : List (Round Binary64 (List Target) Event)}
    (h : (survey q).Unfolds limits v x targets rounds)
    (hx : x.isFinite = true → ∃ f, x.Is f ∧ 1 ≤ f)
    (hbelow : ∀ t ∈ targets, t.Below q (v.scaled (limits.capped x))) : rounds.IsChain Widens := by
  induction rounds generalizing x targets with
  | nil => exact .nil
  | cons r rounds ih =>
    cases rounds with
    | nil => exact .singleton r
    | cons next rounds =>
      obtain ⟨rfl, hfinite, hgoesOn, hrest⟩ := h
      obtain ⟨rfl, hfinite', -⟩ := id hrest
      have hcontains := (hgoesOn.resolve_left (List.cons_ne_nil _ _)).contains hx hfinite hfinite'
      have hbelow' : ∀ t ∈ targets.map fun t => (t.visit q (v.scaled (limits.capped x))).2,
          t.Below q (v.scaled (limits.capped (x * growth))) := by
        refine List.forall_mem_map.mpr fun t ht => ?_
        exact (hbelow t ht).visit.1.mono hcontains
      refine List.isChain_cons_cons.mpr ⟨widens_visit hbelow' hcontains rfl, ih hrest ?_ hbelow'⟩
      exact one_le_next hx

/-- Expanding never loses a feature: in every search over partitions from any source, be they fit to
be searched or not, each two consecutive rounds widen. -/
theorem isChain_widens (source : Source) (viewport : Rect Binary64) (q : Query)
    (limits : Limits Binary64) : (start source viewport q limits).expansion.1.IsChain Widens := by
  exact isChain_of_unfolds (unfolds_expandFrom ..) (fun _ => ⟨1, is_one, le_rfl⟩)
    fun t ht => Target.below_of_pending (pending_start ht)

end Search
end Gazetteer
