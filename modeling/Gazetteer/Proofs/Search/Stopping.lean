import Gazetteer.Proofs.Search.Decision
import Gazetteer.Proofs.Search.Rounds
import Gazetteer.Proofs.Search.Scaling

/-! Limits stop a search neither early nor late. The ceiling is applied to the viewport of a round,
but compared with the factor itself; so the round that reaches it is searched at the ceiling, and it
is the last one. -/
namespace Gazetteer
open Binary64

section
variable {σ ε : Type} {limits : Limits Binary64} {start : Rect Binary64} {x c : Binary64}

private theorem Round.GoesOn.lt_ceiling {survey : Survey Binary64 σ ε} {r : Round Binary64 σ ε}
    (h : r.GoesOn survey limits) (hv : r.viewport = start.scaled (limits.capped r.factor))
    (hfinite : r.viewport.isFinite = true) (hc : limits.ceiling = some c) (hnumber : c.isNaN = false) :
    r.factor < c := by
  rw [hv, h.capped_eq] at hfinite
  have hfactor := Rect.isFinite_of_isFinite_scaled hfinite
  exact lt_of_not_le (isNaN_eq_false_of_isFinite hfactor) hnumber (h.below_ceiling c hc)

private theorem scaled_capped_of_le (hc : limits.ceiling = some c) (hle : c ≤ x)
    (hfinite : (start.scaled (limits.capped x)).isFinite = true)
    (hx : x.isFinite = true → ∃ f, x.Is f ∧ 1 ≤ f) :
    start.scaled (limits.capped x) = start.scaled c := by
  by_cases hlt : c < x
  · rw [Limits.capped_of_lt hc hlt]
  · have hcapped : limits.capped x = x := by
      refine Limits.capped_of_not_lt fun d hd => ?_
      cases hc.symm.trans hd
      exact hlt
    rw [hcapped] at hfinite ⊢
    obtain ⟨f, hf, hone⟩ := hx (Rect.isFinite_of_isFinite_scaled hfinite)
    have hsame : c.unpacked = x.unpacked := unpacked_eq_of_le hle hlt hf (by linarith)
    exact start.scaled_congr (toFloat_congr hsame.symm)

end

namespace Search

private theorem coversAll_iff {targets : List Target} :
    coversAll targets = true ↔ ∀ t ∈ targets, t.isCovered = true ∨ t.isFailed = true := by
  simp only [coversAll, List.all_eq_true, Bool.or_eq_true]

/-- What ends a search other than that enough is found. -/
theorem ending_cases {s : Search} {before : List (Round Binary64 (List Target) Event)}
    {last : Round Binary64 (List Target) Event} (h : s.expansion.1 = before ++ [last]) :
    (∃ floor, s.limits.enough = some floor ∧ floor.toNat ≤ count last.after) ∨
      coversAll last.after = true ∨
      (∃ c, s.limits.ceiling = some c ∧ c ≤ last.factor) ∨
      (∃ r, before.getLast? = some r ∧ r.viewport.grows last.viewport = false) ∨
      (s.viewport.scaled (s.limits.capped (last.factor * growth))).isFinite = false := by
  obtain ⟨n, -, hexpands⟩ := s.exists_expands_expansion
  rw [h] at hexpands
  generalize s.expansion.2 = ending at hexpands
  rcases hexpands.last_ends with hends | hinfinite
  · cases hends with
    | covered hcovered => exact .inr (.inl hcovered)
    | ceiling hc hle => exact .inr (.inr (.inl ⟨_, hc, hle⟩))
    | enough hfloor hle => exact .inl ⟨_, hfloor, hle⟩
    | still _ hv hstill =>
      rw [Option.or_none] at hv
      obtain ⟨r, hr, rfl⟩ := Option.map_eq_some_iff.mp hv
      exact .inr (.inr (.inr (.inl ⟨r, hr, hstill⟩)))
  · exact .inr (.inr (.inr (.inr hinfinite)))

/-- The rounds of a search go through the factors from one on. Each but the last leaves a partition
that is neither covered nor given up, has found fewer features than are enough, and is below the
ceiling. If fewer are found than are enough in the last one too, then it covers everything, is
searched at the ceiling, does not grow past the one before it, or the next viewport is not
finite. -/
theorem stops_in_time {s : Search} {before : List (Round Binary64 (List Target) Event)}
    {last : Round Binary64 (List Target) Event} (h : s.expansion.1 = before ++ [last]) :
    (∀ i r, (before ++ [last])[i]? = some r →
      r.factor = (· * growth)^[i] ((1 : Nat) : Binary64) ∧
        r.viewport = s.viewport.scaled (s.limits.capped r.factor)) ∧
      (∀ r ∈ before,
        (∃ t ∈ r.after, t.isCovered = false ∧ t.isFailed = false) ∧
          (∀ floor, s.limits.enough = some floor → count r.after < floor.toNat) ∧
          ∀ c, s.limits.ceiling = some c → c.isNaN = false → r.factor < c) ∧
      ((∀ floor, s.limits.enough = some floor → count last.after < floor.toNat) →
        (∀ t ∈ last.after, t.isCovered = true ∨ t.isFailed = true) ∨
          (∃ c, s.limits.ceiling = some c ∧ last.viewport = s.viewport.scaled c) ∨
          (∃ r, before.getLast? = some r ∧ r.viewport.grows last.viewport = false) ∨
          (s.viewport.scaled (s.limits.capped (last.factor * growth))).isFinite = false) := by
  have hunfolds : (survey s.query).Unfolds s.limits s.viewport ((1 : Nat) : Binary64) s.targets
      (before ++ [last]) := by
    rw [← h]
    exact unfolds_expandFrom ..
  have hround {i : Nat} {r : Round Binary64 (List Target) Event}
      (hr : (before ++ [last])[i]? = some r) := hunfolds.of_getElem? hr
  refine ⟨fun i r hr => ⟨(hround hr).1, (hround hr).2.1⟩, fun r hr => ?_, fun hfew => ?_⟩
  · have hgoesOn : r.GoesOn (survey s.query) s.limits := hunfolds.of_append.2 (by simp) r hr
    obtain ⟨i, hi⟩ := List.mem_iff_getElem?.mp (List.mem_append_left [last] hr)
    obtain ⟨-, hviewport, hfinite⟩ := hround hi
    refine ⟨?_, hgoesOn.not_enough, fun c hc => hgoesOn.lt_ceiling hviewport hfinite hc⟩
    have huncovered : coversAll r.after = false := hgoesOn.uncovered
    simpa [coversAll] using huncovered
  · obtain ⟨hfactor, hviewport, hfinite⟩ := hround (i := before.length) (r := last) (by simp)
    rcases ending_cases h with ⟨floor, hfloor, hle⟩ | hcovered | ⟨c, hc, hle⟩ | hstill | hinfinite
    · exact absurd (hfew floor hfloor) (not_lt.mpr hle)
    · exact .inl (coversAll_iff.mp hcovered)
    · rw [hviewport] at hfinite
      refine .inr (.inl ⟨c, hc, hviewport.trans ?_⟩)
      refine scaled_capped_of_le hc hle hfinite fun hnumber => ?_
      rw [hfactor] at hnumber ⊢
      exact one_le_factor before.length hnumber
    · exact .inr (.inr (.inl hstill))
    · exact .inr (.inr (.inr hinfinite))

/-- Far from the inn, nothing is found up to the ceiling. -/
theorem stops_at_ceiling :
    let c := (Catalog.empty.register inn).2.2
    let limits : Limits Binary64 := { enough := some 1, ceiling := some 2 }
    let s := start c.source (.ofCorners ⟨100, 100⟩ ⟨101, 101⟩) { words := [["i"]], scale := 1 } limits
    ∃ before last, s.expansion.1 = before ++ [last] ∧ before.length = 2 ∧
      (∀ r ∈ before, count r.after < 1 ∧ r.factor < 2) ∧ last.viewport = s.viewport.scaled 2 := by
  intro c limits s
  have hlength : s.expansion.1.length = 3 := by decide +kernel
  have hlast : ∀ last ∈ s.expansion.1.getLast?, count last.after < 1 ∧ coversAll last.after = false ∧
      (∀ r ∈ s.expansion.1.dropLast, r.viewport.grows last.viewport = true) ∧
      (s.viewport.scaled (s.limits.capped (last.factor * growth))).isFinite = true := by
    decide +kernel
  obtain hnil | ⟨before, last, h⟩ := s.expansion.1.eq_nil_or_concat'
  · rw [hnil] at hlength
    cases hlength
  · obtain ⟨-, hbefore, hends⟩ := stops_in_time h
    rw [h] at hlength hlast
    rw [List.dropLast_concat] at hlast
    obtain ⟨hfew, hcovered, hgrows, hfinite⟩ := hlast last (by simp)
    refine ⟨before, last, h, by simpa using hlength, fun r hr => ?_, ?_⟩
    · obtain ⟨-, hcount, hbelow⟩ := hbefore r hr
      exact ⟨hcount 1 rfl, hbelow 2 rfl (by decide +kernel)⟩
    · rcases hends (fun floor hfloor => by cases hfloor; exact hfew) with
        hall | ⟨c, hc, hviewport⟩ | ⟨r, hr, hstill⟩ | hinfinite
      · exact absurd ((coversAll_iff.mpr hall).symm.trans hcovered) (by decide)
      · cases hc
        exact hviewport
      · exact absurd ((hgrows r (List.mem_of_getLast? hr)).symm.trans hstill) (by decide)
      · exact absurd (hfinite.symm.trans hinfinite) (by decide)

end Search
end Gazetteer
