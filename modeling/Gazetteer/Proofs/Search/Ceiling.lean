import Gazetteer.Proofs.Search.Decision
import Gazetteer.Proofs.Search.Rounds

/-! What a ceiling makes of the viewports that are searched, in exact numbers. The factors of the
rounds start with one and grow, and are brought down to the ceiling; a negative ceiling turns the
viewport over, which leaves a rectangle as large as the positive one. -/
namespace Gazetteer

variable {K : Type} [Field K] [LinearOrder K]

attribute [local instance (low)] Scalar.toAdd Scalar.toSub Scalar.toMul Scalar.toDiv Scalar.toNeg
  Scalar.toLE Scalar.toLT Scalar.toNatCast
attribute [local instance] exactScalar

variable [IsStrictOrderedRing K] {σ ε : Type}

/-- The viewports of any number of rounds under a ceiling, whatever is searched in them. Under a
ceiling beyond one they lie in the viewport at the ceiling; from minus one to one, in the first
viewport. Below minus one, all of them are the first viewport enlarged by the opposite of the
ceiling. -/
theorem viewports_under_ceiling (survey : Survey K σ ε) (a b : Point K) (enough : Option UInt64)
    (m : K) (fuel : Nat) (state : σ) :
    let start := Rect.ofCorners a b
    let rounds := (expandFrom survey ⟨enough, some m⟩ start fuel ((1 : Nat) : K) none state).1
    (1 < m → ∀ r ∈ rounds, (start.scaled m).contains r.viewport = true) ∧
      (-1 ≤ m → m ≤ 1 → ∀ r ∈ rounds, start.contains r.viewport = true) ∧
      (m < -1 → ∀ r ∈ rounds, r.viewport = start.scaled (-m)) := by
  intro start rounds
  have hround : ∀ r ∈ rounds, ∃ x : K, 1 ≤ x ∧ r.viewport = start.scaled (min m x) := by
    intro r hr
    obtain ⟨i, hi⟩ := List.mem_iff_getElem?.mp hr
    obtain ⟨hfactor, hviewport, -⟩ := (unfolds_expandFrom ..).of_getElem? hi
    refine ⟨r.factor, ?_, by rw [hviewport, Limits.capped_exact]⟩
    rw [hfactor]
    exact one_le_factor_exact i
  refine ⟨fun hm r hr => ?_, fun hlow hhigh r hr => ?_, fun hm r hr => ?_⟩ <;>
    obtain ⟨x, hx, hviewport⟩ := hround r hr <;> rw [hviewport]
  · have hpos : 0 ≤ m := zero_le_one.trans hm.le
    have hmin : 0 ≤ min m x := le_min hpos (zero_le_one.trans hx)
    apply Rect.contains_scaled_of_abs_le
    rw [abs_of_nonneg hmin, abs_of_nonneg hpos]
    exact min_le_left m x
  · have hcontains := start.contains_scaled_of_abs_le (x := min m x) (y := 1) ?_
    · rwa [show start.scaled 1 = start from Rect.scaled_one a b] at hcontains
    · rw [abs_one, abs_le, min_eq_left (by linarith)]
      exact ⟨hlow, hhigh⟩
  · rw [min_eq_left (by linarith), Rect.scaled_neg]

/-- Looks into every viewport, finds nothing and is never done. -/
def Survey.vain : Survey ℚ Unit Unit :=
  ⟨fun _ _ => ([], ()), fun _ => false, fun _ => 0⟩

/-- Under the ceilings -5 and 3, on a square with sides of one. -/
theorem viewports_under_ceiling_square :
    let start : Rect ℚ := .ofCorners ⟨0, 0⟩ ⟨1, 1⟩
    let rounds := fun m : ℚ =>
      (expandFrom Survey.vain ⟨none, some m⟩ start 9 ((1 : Nat) : ℚ) none ()).1
    ((rounds (-5)).length = 1 ∧ ∀ r ∈ rounds (-5), r.viewport = start.scaled 5) ∧
      (rounds 3).length = 5 ∧ ∀ r ∈ rounds 3, (start.scaled 3).contains r.viewport = true := by
  intro start rounds
  refine ⟨⟨by decide +kernel, ?_⟩, by decide +kernel, ?_⟩
  · have h := (viewports_under_ceiling Survey.vain ⟨0, 0⟩ ⟨1, 1⟩ none (-5) 9 ()).2.2 (by norm_num)
    rwa [neg_neg] at h
  · exact (viewports_under_ceiling Survey.vain ⟨0, 0⟩ ⟨1, 1⟩ none 3 9 ()).1 (by norm_num)

namespace Search

/-- The ceiling is -5, and the viewport is searched at five times its size: outside the first
viewport, where the inn is. -/
theorem beyond_ceiling :
    let start : Rect ℚ := .ofCorners ⟨0, 0⟩ ⟨1, 1⟩
    let s := Search.start (Catalog.empty.register inn).2.2.source (.ofCorners ⟨0, 0⟩ ⟨1, 1⟩)
      { words := [["i"]], scale := 1 } { ceiling := some (-5) }
    (∃ r ∈ (expand Survey.vain { ceiling := some (-5) } start ()).1,
        start.contains r.viewport = false) ∧
      s.run.1 = [.reported ⟨"Town", 1⟩ [0]] ∧ s.viewport.holds ⟨1, 2⟩ = false := by
  intro start s
  exact ⟨by decide +kernel, by decide +kernel, by decide +kernel⟩

end Search
end Gazetteer
