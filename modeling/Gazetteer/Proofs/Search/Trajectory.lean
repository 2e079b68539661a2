import Gazetteer.Search.Basic
import Mathlib.Data.List.Nodup

/-! A search target by target. The rounds of a search visit the same viewports in every target, and
no target sees another, so what is told about a partition comes of the visits to it alone. -/
namespace Gazetteer

section
variable {α σ ε : Type}

/-- Each round visits its viewport in the state that the one before it left. -/
def Survey.Chain (survey : Survey α σ ε) : σ → List (Round α σ ε) → Prop
  | _, [] => True
  | state, r :: rounds =>
    survey.visit r.viewport state = (r.events, r.after) ∧ survey.Chain r.after rounds

/-- Expanding a viewport gives a chain of rounds, whatever ends it. -/
theorem Survey.chain_expandFrom [Scalar α] (survey : Survey α σ ε) (limits : Limits α)
    (start : Rect α) (fuel : Nat) (factor : α) (previous : Option (Rect α)) (state : σ) :
    survey.Chain state (expandFrom survey limits start fuel factor previous state).1 := by
  induction fuel generalizing factor previous state with
  | zero => trivial
  | succ fuel ih =>
    simp only [expandFrom]
    split
    · trivial
    · split
      · exact ⟨rfl, trivial⟩
      · exact ⟨rfl, ih ..⟩

theorem stateAfter_cons (state : σ) (r : Round α σ ε) (rounds : List (Round α σ ε)) :
    stateAfter state (r :: rounds) = stateAfter r.after rounds := by
  cases rounds with
  | nil => rfl
  | cons s rounds => simp [stateAfter, List.getLast?_cons]

end

namespace Target

/-- What comes of visiting viewports in one target, one after another. -/
def visits (q : Query) (t : Target) : List (Rect Binary64) → List Event × Target
  | [] => ([], t)
  | v :: vs => ((t.visit q v).1 ++ ((t.visit q v).2.visits q vs).1, ((t.visit q v).2.visits q vs).2)

/-- Visits go on from the target that the visits before them left. -/
theorem visits_append (q : Query) (t : Target) (vs ws : List (Rect Binary64)) :
    t.visits q (vs ++ ws) =
      ((t.visits q vs).1 ++ ((t.visits q vs).2.visits q ws).1, ((t.visits q vs).2.visits q ws).2) := by
  induction vs generalizing t with
  | nil => rfl
  | cons v vs ih => simp [visits, ih]

private theorem retrieve_registration {t s : Target} {q : Query} {v : Rect Binary64}
    (h : t.retrieve q v = .ok s) : s.registration = t.registration := by
  unfold retrieve at h
  split at h
  · cases ho : t.opened q with
    | error e => simp [ho, Except.map] at h
    | ok found => simp only [ho, Except.map, Except.ok.injEq] at h; subst h; rfl
  · cases h; rfl
  · cases h; rfl

theorem cover_registration (t : Target) : t.cover.registration = t.registration := by
  unfold cover
  split <;> rfl

/-- A visit changes how far the search of a partition has come, not the partition. -/
theorem visit_registration (t : Target) (q : Query) (v : Rect Binary64) :
    (t.visit q v).2.registration = t.registration := by
  unfold visit
  split
  · rfl
  · split
    · rfl
    · rename_i s hs
      split
      · rw [cover_registration, retrieve_registration hs]
      · exact retrieve_registration hs

theorem visits_registration (t : Target) (q : Query) (vs : List (Rect Binary64)) :
    (t.visits q vs).2.registration = t.registration := by
  induction vs generalizing t with
  | nil => rfl
  | cons v vs ih => exact (ih _).trans (t.visit_registration q v)

private theorem report_id {t : Target} {e : Event} (h : e ∈ t.report) : e.id = t.id := by
  unfold report at h
  split at h
  · cases h
  · cases List.mem_singleton.mp h; rfl

/-- A visit tells of no other target. -/
theorem visit_id {t : Target} {q : Query} {v : Rect Binary64} {e : Event}
    (h : e ∈ (t.visit q v).1) : e.id = t.id := by
  unfold visit at h
  split at h
  · cases h
  · split at h
    · cases List.mem_singleton.mp h; rfl
    · rename_i s hs
      split at h
      · rw [report_id h, id, retrieve_registration hs, id]
      · cases h

theorem conclude_id {t : Target} {e : Event} (h : e ∈ t.conclude.1) : e.id = t.id := by
  unfold conclude at h
  split at h
  · cases h
  · exact report_id h

end Target

namespace Search

private theorem filter_told {targets : List Target} (hn : (targets.map Target.id).Nodup)
    {tell : Target → List Event} (hown : ∀ t, ∀ e ∈ tell t, e.id = t.id) {t : Target}
    (ht : t ∈ targets) : (targets.flatMap tell).filter (·.id = t.id) = tell t := by
  induction targets with
  | nil => cases ht
  | cons s targets ih =>
    obtain ⟨hs, hn⟩ := List.nodup_cons.mp hn
    have hall (u : Target) : (tell u).filter (·.id = u.id) = tell u :=
      List.filter_eq_self.mpr fun e he => by simpa using hown u e he
    have hnone (u w : Target) (hne : u.id ≠ w.id) : (tell u).filter (·.id = w.id) = [] :=
      List.filter_eq_nil_iff.mpr fun e he => by simpa [hown u e he] using hne
    rw [List.flatMap_cons, List.filter_append]
    rcases List.mem_cons.mp ht with rfl | ht
    · rw [hall, List.filter_flatMap]
      have : targets.flatMap (fun u => (tell u).filter (·.id = t.id)) = [] :=
        List.flatMap_eq_nil_iff.mpr fun u hu =>
          hnone u t fun he => hs (he ▸ List.mem_map_of_mem hu)
      rw [this, List.append_nil]
    · rw [ih hn ht, hnone s t fun he => hs (he ▸ List.mem_map_of_mem ht), List.nil_append]

/-- After a chain of rounds every target has been through the same viewports, and what was told of
it on the way is what its own visits tell. -/
theorem chain_survey (q : Query) {targets : List Target}
    {rounds : List (Round Binary64 (List Target) Event)} (h : (survey q).Chain targets rounds) :
    stateAfter targets rounds =
        targets.map (fun t => (t.visits q (rounds.map (·.viewport))).2) ∧
      ((targets.map Target.id).Nodup → ∀ t ∈ targets,
        (rounds.flatMap (·.events)).filter (·.id = t.id) =
          (t.visits q (rounds.map (·.viewport))).1) := by
  induction rounds generalizing targets with
  | nil => simp [stateAfter, Target.visits]
  | cons r rounds ih =>
    obtain ⟨hr, hrest⟩ := h
    have he : targets.flatMap (fun t => (t.visit q r.viewport).1) = r.events :=
      congrArg Prod.fst hr
    have ha : targets.map (fun t => (t.visit q r.viewport).2) = r.after := congrArg Prod.snd hr
    obtain ⟨hstate, htold⟩ := ih hrest
    constructor
    · rw [stateAfter_cons, hstate, ← ha, List.map_map]
      rfl
    · intro hn t ht
      have hids : (r.after.map Target.id) = targets.map Target.id := by
        rw [← ha, List.map_map]
        exact List.map_congr_left fun u _ => by simp [Target.id, Target.visit_registration]
      have ht' : (t.visit q r.viewport).2 ∈ r.after := ha ▸ List.mem_map_of_mem ht
      have hid : (t.visit q r.viewport).2.id = t.id := by
        simp [Target.id, Target.visit_registration]
      rw [List.flatMap_cons, List.filter_append, ← he,
        filter_told hn (fun u e hu => Target.visit_id hu) ht, ← hid,
        htold (hids ▸ hn) _ ht']
      rfl

def viewports (s : Search) : List (Rect Binary64) := s.expansion.1.map (·.viewport)

/-- What a search tells about one of its targets. -/
def told (s : Search) (t : Target) : List Event := s.run.1.filter (·.id = t.id)

/-- A search that is not over yet tells of a target what the visits to it and its end tell. -/
theorem told_eq {s : Search} (hs : s.isFinished = false) (hn : (s.targets.map Target.id).Nodup)
    {t : Target} (ht : t ∈ s.targets) :
    s.told t = (t.visits s.query s.viewports).1 ++ (t.visits s.query s.viewports).2.conclude.1 := by
  let after (u : Target) : Target := (u.visits s.query s.viewports).2
  have hchain : (survey s.query).Chain s.targets s.expansion.1 := Survey.chain_expandFrom ..
  obtain ⟨hstate, htold⟩ := chain_survey s.query hchain
  have hrun : s.run.1 = s.expansion.1.flatMap (·.events) ++
      (s.targets.map after).flatMap (·.conclude.1) := by
    change stateAfter s.targets s.expansion.1 = s.targets.map after at hstate
    rw [← hstate]
    simp only [run, hs, Bool.false_eq_true, if_false]
    rfl
  have hid (u : Target) : (after u).id = u.id := by
    simp [after, Target.id, Target.visits_registration]
  have hids : (s.targets.map after).map Target.id = s.targets.map Target.id := by
    rw [List.map_map]
    exact List.map_congr_left fun u _ => hid u
  have hmem : after t ∈ s.targets.map after := List.mem_map_of_mem ht
  rw [told, hrun, List.filter_append, htold hn t ht, ← hid t,
    filter_told (hids ▸ hn) (fun _ _ => Target.conclude_id) hmem]
  rfl

end Search
end Gazetteer
