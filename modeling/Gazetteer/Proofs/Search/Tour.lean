import Gazetteer.Proofs.Search.Trajectory

/-! The two sides of a search. Its rounds decide which viewports it goes through; what is told on
the way comes of a tour, which visits one viewport after another in every target. Two searches of
which one sees what the other sees, and perhaps more, go through the same viewports until the
smaller one is covered. -/
namespace Gazetteer

section
variable {α σ τ ε δ : Type} [Scalar α]

private theorem Round.ending?_congr {A : Survey α σ ε} {B : Survey α τ δ} {limits : Limits α}
    {previous : Option (Rect α)} {r : Round α σ ε} {s : Round α τ δ} (hf : r.factor = s.factor)
    (hv : r.viewport = s.viewport) (ha : A.covered r.after = false) (hb : B.covered s.after = false)
    (hfound : limits.enough.any (·.toNat ≤ A.found r.after) =
      limits.enough.any (·.toNat ≤ B.found s.after)) :
    r.ending? A limits previous = s.ending? B limits previous := by
  simp only [ending?, hf, hv, ha, hb, hfound]

/-- Two surveys in step: as long as the second is not covered, the first is not, and both have found
enough or neither has. Then the first goes through the viewports of the second, and goes on at most
if the second is covered. -/
theorem viewports_of_related {A : Survey α σ ε} {B : Survey α τ δ} (limits : Limits α)
    (Related : σ → τ → Prop)
    (hvisit : ∀ {v s t}, Related s t → Related (A.visit v s).2 (B.visit v t).2)
    (hcovered : ∀ {s t}, Related s t → A.covered s = true → B.covered t = true)
    (hfound : ∀ {s t}, Related s t → B.covered t = false →
      limits.enough.any (·.toNat ≤ A.found s) = limits.enough.any (·.toNat ≤ B.found t))
    (start : Rect α) (fuel : Nat) (factor : α) (previous : Option (Rect α)) {s : σ} {t : τ}
    (h : Related s t) :
    ∃ more,
      (expandFrom A limits start fuel factor previous s).1.map (·.viewport) =
        (expandFrom B limits start fuel factor previous t).1.map (·.viewport) ++ more ∧
      (more = [] ∨
        B.covered (stateAfter t (expandFrom B limits start fuel factor previous t).1) = true) := by
  induction fuel generalizing factor previous s t with
  | zero => exact ⟨[], rfl, .inl rfl⟩
  | succ fuel ih =>
    simp only [expandFrom]
    generalize start.scaled (limits.capped factor) = v
    split
    · exact ⟨[], rfl, .inl rfl⟩
    · have hafter := hvisit (v := v) h
      cases hb : B.covered (B.visit v t).2 with
      | true =>
        -- The second survey ends here; the first has this viewport and whatever comes after it.
        have hend : Round.ending? B limits previous
            ⟨factor, v, (B.visit v t).1, (B.visit v t).2⟩ = some .covered := if_pos hb
        rw [hend]
        split
        · exact ⟨[], rfl, .inl rfl⟩
        · exact ⟨_, rfl, .inr hb⟩
      | false =>
        have ha : A.covered (A.visit v s).2 = false := by
          rw [← Bool.not_eq_true]
          intro ha
          rw [hcovered hafter ha] at hb
          cases hb
        have hend : Round.ending? A limits previous ⟨factor, v, (A.visit v s).1, (A.visit v s).2⟩ =
            Round.ending? B limits previous ⟨factor, v, (B.visit v t).1, (B.visit v t).2⟩ :=
          Round.ending?_congr rfl rfl ha hb (hfound hafter hb)
        rw [hend]
        cases Round.ending? B limits previous ⟨factor, v, (B.visit v t).1, (B.visit v t).2⟩ with
        | some ending => exact ⟨[], rfl, .inl rfl⟩
        | none =>
          obtain ⟨more, hmore, hlast⟩ := ih (factor * growth) (some v) hafter
          refine ⟨more, by rw [List.map_cons, List.map_cons, hmore, List.cons_append], ?_⟩
          rwa [stateAfter_cons]

end

namespace Search

/-- What comes of visiting viewports in all targets, one viewport after another. -/
def tour (q : Query) (targets : List Target) : List (Rect Binary64) → List Event × List Target
  | [] => ([], targets)
  | v :: vs =>
    ((each (·.visit q v) targets).1 ++ (tour q (each (·.visit q v) targets).2 vs).1,
      (tour q (each (·.visit q v) targets).2 vs).2)

/-- A tour goes on from the targets that the viewports before left. -/
theorem tour_append (q : Query) (targets : List Target) (vs ws : List (Rect Binary64)) :
    tour q targets (vs ++ ws) =
      ((tour q targets vs).1 ++ (tour q (tour q targets vs).2 ws).1,
        (tour q (tour q targets vs).2 ws).2) := by
  induction vs generalizing targets with
  | nil => rfl
  | cons v vs ih => simp [tour, ih]

/-- Each target goes through its own visits. -/
theorem tour_targets (q : Query) (targets : List Target) (vs : List (Rect Binary64)) :
    (tour q targets vs).2 = targets.map fun t => (t.visits q vs).2 := by
  induction vs generalizing targets with
  | nil => simp [tour, Target.visits]
  | cons v vs ih =>
    rw [tour, ih]
    simp only [each, List.map_map]
    rfl

theorem each_of_idle {f : Target → List Event × Target} {targets : List Target}
    (h : ∀ t ∈ targets, f t = ([], t)) : each f targets = ([], targets) := by
  have htold : targets.flatMap (fun t => (f t).1) = [] :=
    List.flatMap_eq_nil_iff.mpr fun t ht => congrArg Prod.fst (h t ht)
  have hkept : targets.map (fun t => (f t).2) = targets :=
    (List.map_congr_left fun t ht => congrArg Prod.snd (h t ht)).trans targets.map_id
  exact Prod.ext htold hkept

/-- Finished targets tell nothing more. -/
theorem tour_of_isFinished {q : Query} {targets : List Target}
    (h : ∀ t ∈ targets, t.isFinished = true) (vs : List (Rect Binary64)) :
    tour q targets vs = ([], targets) := by
  have heach (v : Rect Binary64) : each (·.visit q v) targets = ([], targets) :=
    each_of_idle fun t ht => by simp [Target.visit, h t ht]
  induction vs with
  | nil => rfl
  | cons v vs ih => simp [tour, heach, ih]

/-- A chain of rounds makes a tour of its viewports. -/
theorem tour_of_chain {q : Query} {targets : List Target}
    {rounds : List (Round Binary64 (List Target) Event)} (h : (survey q).Chain targets rounds) :
    tour q targets (rounds.map (·.viewport)) =
      (rounds.flatMap (·.events), stateAfter targets rounds) := by
  induction rounds generalizing targets with
  | nil => rfl
  | cons r rounds ih =>
    obtain ⟨hr, hrest⟩ := h
    have hr : each (·.visit q r.viewport) targets = (r.events, r.after) := hr
    rw [List.map_cons, tour, hr, ih hrest, stateAfter_cons, List.flatMap_cons]

/-- A search tells what the tour of its viewports tells, and then what is left to tell. -/
theorem run_eq_tour (s : Search) :
    s.run.1 = (tour s.query s.targets s.viewports).1 ++
        (each (·.conclude) (tour s.query s.targets s.viewports).2).1 ∧
      s.run.2.targets = (each (·.conclude) (tour s.query s.targets s.viewports).2).2 := by
  have htour : tour s.query s.targets s.viewports =
      (s.expansion.1.flatMap (·.events), stateAfter s.targets s.expansion.1) :=
    tour_of_chain (Survey.chain_expandFrom ..)
  cases hs : s.isFinished with
  | true =>
    have hall : ∀ t ∈ s.targets, t.isFinished = true := List.all_eq_true.mp hs
    have heach : each (·.conclude) s.targets = ([], s.targets) :=
      each_of_idle fun t ht => by simp [Target.conclude, hall t ht]
    rw [tour_of_isFinished hall, heach]
    simp [run, hs]
  | false =>
    rw [htour]
    simp [run, hs]

end Search
end Gazetteer
