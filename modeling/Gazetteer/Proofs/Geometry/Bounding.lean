import Gazetteer.Proofs.Geometry.Squares

/-! Bounding rectangles. The rectangle around points of the world holds them and lies in the world,
with its corners the right way round, and each of its sides goes through a point. -/
namespace Gazetteer
open Binary64

def InWorld (bounds : Binary64 × Binary64) : Prop :=
  ∃ p q, bounds.1.Is p ∧ bounds.2.Is q ∧ -180 ≤ p ∧ p ≤ q ∧ q ≤ 180

def Spans (bounds : Binary64 × Binary64) (v : Binary64) : Prop := bounds.1 ≤ v ∧ v ≤ bounds.2

theorem is_upper : (World.upper : Binary64).Is 180 := Is.natCast (n := 180) (by decide)

/-- A coordinate of the world. -/
theorem exists_coordinate {v : Binary64} (hlow : World.lower ≤ v) (hhigh : v ≤ World.upper) :
    ∃ q, v.Is q ∧ -180 ≤ q ∧ q ≤ 180 :=
  exists_is_between Cell.is_lower is_upper hlow hhigh

/-- The point lies in the world, border included: its coordinates are numbers from -180 to 180. -/
def Point.InWorld (p : Point Binary64) : Prop :=
  (∃ x, p.x.Is x ∧ -180 ≤ x ∧ x ≤ 180) ∧ ∃ y, p.y.Is y ∧ -180 ≤ y ∧ y ≤ 180

private theorem coordinate_iff {v : Binary64} :
    World.lower ≤ v ∧ v ≤ World.upper ↔ ∃ q, v.Is q ∧ -180 ≤ q ∧ q ≤ 180 := by
  refine ⟨fun h => exists_coordinate h.1 h.2, ?_⟩
  rintro ⟨q, hq, hlow, hhigh⟩
  exact ⟨(Cell.is_lower.le_iff hq).mpr hlow, (hq.le_iff is_upper).mpr hhigh⟩

/-- Comparing with the corners of the world tells whether a point lies in it, not-a-number
included. -/
theorem Point.inWorld_iff {p : Point Binary64} : p.InWorld ↔ World.extent.holds p = true := by
  rw [Rect.holds_iff, InWorld, ← coordinate_iff, ← coordinate_iff, and_assoc]
  rfl

namespace Rect

private theorem widen_spec {bounds : Binary64 × Binary64} (h : InWorld bounds) {v : Binary64}
    (hlow : World.lower ≤ v) (hhigh : v ≤ World.upper) :
    InWorld (widen bounds v) ∧ Spans (widen bounds v) v ∧
      ∀ w, Spans bounds w → Spans (widen bounds v) w := by
  obtain ⟨p, q, hp, hq, hle, hpq, hge⟩ := h
  obtain ⟨r, hr, hr', hr''⟩ := exists_coordinate hlow hhigh
  have hself : v ≤ v := (hr.le_iff hr).mpr le_rfl
  unfold widen
  split
  · next hlt =>
    have hqr := ((hq.lt_iff hr).mp hlt).le
    exact ⟨⟨p, r, hp, hr, hle, hpq.trans hqr, hr''⟩, ⟨(hp.le_iff hr).mpr (hpq.trans hqr), hself⟩,
      fun w hw => ⟨hw.1, Binary64.le_trans hw.2 ((hq.le_iff hr).mpr hqr)⟩⟩
  · next hle' =>
    split
    · next hlt =>
      have hrp := ((hr.lt_iff hp).mp hlt).le
      exact ⟨⟨r, q, hr, hq, hr', hrp.trans hpq, hge⟩, ⟨hself, (hr.le_iff hq).mpr (hrp.trans hpq)⟩,
        fun w hw => ⟨Binary64.le_trans ((hr.le_iff hp).mpr hrp) hw.1, hw.2⟩⟩
    · next hge' =>
      rw [hq.lt_iff hr, not_lt] at hle'
      rw [hr.lt_iff hp, not_lt] at hge'
      exact ⟨⟨p, q, hp, hq, hle, hpq, hge⟩, ⟨(hp.le_iff hr).mpr hge', (hr.le_iff hq).mpr hle'⟩,
        fun w hw => hw⟩

private theorem foldl_widen_spec {vs : List Binary64}
    (hvs : ∀ v ∈ vs, World.lower ≤ v ∧ v ≤ World.upper) {bounds : Binary64 × Binary64}
    (h : InWorld bounds) :
    InWorld (vs.foldl widen bounds) ∧ (∀ v ∈ vs, Spans (vs.foldl widen bounds) v) ∧
      ∀ w, Spans bounds w → Spans (vs.foldl widen bounds) w := by
  induction vs generalizing bounds with
  | nil => exact ⟨h, nofun, fun _ hw => hw⟩
  | cons v vs ih =>
    obtain ⟨hv, hvs⟩ := List.forall_mem_cons.mp hvs
    obtain ⟨hworld, hspans, hkept⟩ := widen_spec h hv.1 hv.2
    obtain ⟨hworld', hspans', hkept'⟩ := ih hvs hworld
    exact ⟨hworld', List.forall_mem_cons.mpr ⟨hkept' v hspans, hspans'⟩,
      fun w hw => hkept' w (hkept w hw)⟩

private theorem order_spec {a b : Binary64} (h : InWorld (a, b)) :
    InWorld (if a < b then (a, b) else (b, a)) ∧
      ∀ w, Spans (a, b) w → Spans (if a < b then (a, b) else (b, a)) w := by
  split
  · exact ⟨h, fun _ hw => hw⟩
  · next hnot =>
    obtain ⟨p, q, hp, hq, hle, hpq, hge⟩ := h
    rw [hp.lt_iff hq, not_lt] at hnot
    have hback : b ≤ a := (hq.le_iff hp).mpr hnot
    exact ⟨⟨q, p, hq, hp, hle.trans hpq, hnot, hpq.trans hge⟩,
      fun w hw => ⟨Binary64.le_trans hback hw.1, Binary64.le_trans hw.2 hback⟩⟩

private theorem axis_spec (coordinate : Point Binary64 → Binary64) {p : Point Binary64}
    {ps : List (Point Binary64)}
    (hin : ∀ q ∈ p :: ps, World.lower ≤ coordinate q ∧ coordinate q ≤ World.upper) :
    let bounds := ps.foldl (fun b q => widen b (coordinate q)) (coordinate p, coordinate p)
    InWorld bounds ∧ ∀ q ∈ p :: ps, Spans bounds (coordinate q) := by
  obtain ⟨hp, hps⟩ := List.forall_mem_cons.mp hin
  obtain ⟨v, hv, hlow, hhigh⟩ := exists_coordinate hp.1 hp.2
  have hpoint : InWorld (coordinate p, coordinate p) := ⟨v, v, hv, hv, hlow, le_rfl, hhigh⟩
  have hself : Spans (coordinate p, coordinate p) (coordinate p) :=
    ⟨(hv.le_iff hv).mpr le_rfl, (hv.le_iff hv).mpr le_rfl⟩
  rw [← List.foldl_map]
  obtain ⟨hworld, hspans, hkept⟩ := foldl_widen_spec (List.forall_mem_map.mpr hps) hpoint
  exact ⟨hworld, List.forall_mem_cons.mpr ⟨hkept _ hself, List.forall_mem_map.mp hspans⟩⟩

/-- The bounds of points of the world lie in it, have their corners in order and hold all the
points. -/
theorem bounding_spec {ps : List (Point Binary64)} {r : Rect Binary64}
    (hps : ∀ p ∈ ps, World.extent.holds p = true) (h : bounding ps = some r) :
    World.extent.contains r = true ∧ r.lo.x ≤ r.hi.x ∧ r.lo.y ≤ r.hi.y ∧
      ∀ p ∈ ps, r.holds p = true := by
  cases ps with
  | nil => cases h
  | cons p ps =>
    obtain ⟨hx, hxs⟩ := axis_spec (·.x) fun q hq =>
      ⟨(holds_iff.mp (hps q hq)).1, (holds_iff.mp (hps q hq)).2.1⟩
    obtain ⟨hy, hys⟩ := axis_spec (·.y) fun q hq =>
      ⟨(holds_iff.mp (hps q hq)).2.2.1, (holds_iff.mp (hps q hq)).2.2.2⟩
    obtain ⟨hx, hkeptx⟩ := order_spec hx
    obtain ⟨hy, hkepty⟩ := order_spec hy
    cases h
    obtain ⟨a, b, ha, hb, hle, hab, hge⟩ := hx
    obtain ⟨a', b', ha', hb', hle', hab', hge'⟩ := hy
    refine ⟨contains_iff.mpr ⟨(Cell.is_lower.le_iff ha).mpr hle, (hb.le_iff is_upper).mpr hge,
      (Cell.is_lower.le_iff ha').mpr hle', (hb'.le_iff is_upper).mpr hge'⟩,
      (ha.le_iff hb).mpr hab, (ha'.le_iff hb').mpr hab', ?_⟩
    intro q hq
    obtain ⟨hlowx, hhighx⟩ := hkeptx _ (hxs q hq)
    obtain ⟨hlowy, hhighy⟩ := hkepty _ (hys q hq)
    exact holds_iff.mpr ⟨hlowx, hhighx, hlowy, hhighy⟩

section
variable {α : Type} [Scalar α]

/-- Only no points have no bounds. -/
theorem exists_bounding_iff {ps : List (Point α)} : (∃ r, bounding ps = some r) ↔ ps ≠ [] := by
  cases ps with
  | nil => exact iff_of_false nofun (· rfl)
  | cons p ps => exact iff_of_true ⟨_, rfl⟩ (List.cons_ne_nil p ps)

private theorem foldl_widen_ends {P : α → Prop} {vs : List α} (hvs : ∀ v ∈ vs, P v) {bounds : α × α}
    (h : P bounds.1 ∧ P bounds.2) : P (vs.foldl widen bounds).1 ∧ P (vs.foldl widen bounds).2 := by
  induction vs generalizing bounds with
  | nil => exact h
  | cons v vs ih =>
    obtain ⟨hv, hvs⟩ := List.forall_mem_cons.mp hvs
    apply ih hvs
    unfold widen
    split
    · exact ⟨h.1, hv⟩
    split
    · exact ⟨hv, h.2⟩
    · exact h

private theorem axis_ends (coordinate : Point α → α) (p : Point α) (ps : List (Point α)) :
    let bounds := ps.foldl (fun b q => widen b (coordinate q)) (coordinate p, coordinate p)
    let ends := if bounds.1 < bounds.2 then (bounds.1, bounds.2) else (bounds.2, bounds.1)
    (∃ q ∈ p :: ps, coordinate q = ends.1) ∧ ∃ q ∈ p :: ps, coordinate q = ends.2 := by
  have hp : ∃ q ∈ p :: ps, coordinate q = coordinate p := ⟨p, .head _, rfl⟩
  have hps : ∀ v ∈ ps.map coordinate, ∃ q ∈ p :: ps, coordinate q = v :=
    List.forall_mem_map.mpr fun q hq => ⟨q, .tail _ hq, rfl⟩
  intro bounds ends
  have hbounds : (∃ q ∈ p :: ps, coordinate q = bounds.1) ∧
      ∃ q ∈ p :: ps, coordinate q = bounds.2 := by
    simp only [bounds, ← List.foldl_map]
    exact foldl_widen_ends hps ⟨hp, hp⟩
  simp only [ends]
  split
  · exact hbounds
  · exact hbounds.symm

/-- Each side of the rectangle around points goes through one of them. -/
theorem bounding_sides {ps : List (Point α)} {r : Rect α} (h : bounding ps = some r) :
    (∃ p ∈ ps, p.x = r.lo.x) ∧ (∃ p ∈ ps, p.y = r.lo.y) ∧ (∃ p ∈ ps, p.x = r.hi.x) ∧
      ∃ p ∈ ps, p.y = r.hi.y := by
  cases ps with
  | nil => cases h
  | cons p ps =>
    obtain ⟨hlox, hhix⟩ := axis_ends (·.x) p ps
    obtain ⟨hloy, hhiy⟩ := axis_ends (·.y) p ps
    cases h
    exact ⟨hlox, hloy, hhix, hhiy⟩

end

end Rect
end Gazetteer
