import Gazetteer.Proofs.Search.Independence
import Mathlib.Data.List.Perm.Basic
import Mathlib.Logic.Relation

/-! The life of a target, from the first viewport that meets it to the end of the search. What has
been told of a target can be read off how far its search has come, so over a whole run all that is
told adds up to what the targets end with. -/
namespace Gazetteer

/-- One thing that happens to a target: a viewport meets it for the first time or again, or contains
it, the search leaves it behind, or it turns out to be unusable. Nothing happens to a target that is
finished. -/
inductive Progress.Moves : Progress → Progress → Prop where
  | meet (found : Matches) (index : CellIndex) : Moves .pending (.met found index)
  | meetAgain (found : Matches) (index : CellIndex) (place : List FeatureId) :
    Moves (.met found index) (.met { found with place } index)
  | cover (found : Matches) (index : CellIndex) : Moves (.met found index) (.covered found)
  | close (found : Matches) (index : CellIndex) : Moves (.met found index) (.closed found)
  | leave : Moves .pending (.closed {})
  | fail : Moves .pending .failed

/-- The event without the reason of a failure. -/
def Event.gist : Event → PartitionId × Option (List FeatureId)
  | .reported id features => (id, some features)
  | .failed id _ => (id, none)

namespace Target

/-- The first target becomes the second by moves alone. -/
def Follows (t u : Target) : Prop :=
  u.registration = t.registration ∧ Relation.ReflTransGen Progress.Moves t.progress u.progress

/-- What has been told of a target that has come this far. -/
def verdict (t : Target) : List (PartitionId × Option (List FeatureId)) :=
  if t.isFailed then [(t.id, none)]
  else if t.isFinished && !t.found.both.isEmpty then [(t.id, some t.found.both)]
  else []

def Sorted (t : Target) : Prop := t.found.text.Pairwise (· < ·)

private theorem Follows.refl (t : Target) : t.Follows t := ⟨rfl, .refl⟩

private theorem Follows.trans {t u v : Target} (h : t.Follows u) (h' : u.Follows v) : t.Follows v :=
  ⟨h'.1.trans h.1, h.2.trans h'.2⟩

/-- A finished target stays as it is. -/
theorem Follows.eq_of_isFinished {t u : Target} (h : t.Follows u) (ht : t.isFinished = true) :
    u = t := by
  obtain ⟨r, p⟩ := t
  obtain ⟨r', p'⟩ := u
  obtain ⟨hr, hp⟩ := h
  have hstuck (p'' : Progress) : ¬ Progress.Moves p p'' := by
    intro hmove
    cases hmove <;> cases ht
  rcases hp.cases_head with hp | ⟨p'', hmove, -⟩
  · cases hr
    cases hp
    rfl
  · exact absurd hmove (hstuck p'')

/-- All that a visit can do: nothing, give up a target that is met for the first time, or look the
viewport up in it, and then perhaps cover it. -/
theorem visit_cases (t : Target) (q : Query) (v : Rect Binary64) :
    t.visit q v = ([], t) ∨
      (∃ why, t.progress = .pending ∧
        t.visit q v = ([.failed t.id why], { t with progress := .failed })) ∨
      ∃ text index, t.Open q text index ∧
        (t.visit q v = ([], t.located q v text index) ∨
          t.visit q v = ((t.located q v text index).report, (t.located q v text index).cover)) := by
  have hlook {text : List FeatureId} {index : CellIndex} (hm : v.meets t.bounds)
      (ht : t.Open q text index) : t.visit q v = ([], t.located q v text index) ∨
        t.visit q v = ((t.located q v text index).report, (t.located q v text index).cover) := by
    rw [visit_of_open ht hm]
    split
    · exact .inr rfl
    · exact .inl rfl
  by_cases hm : v.meets t.bounds
  · cases hp : t.progress with
    | pending =>
      cases ho : t.opened q with
      | error why => exact .inr (.inl ⟨why, rfl, visit_of_error hp hm ho⟩)
      | ok found =>
        have hopen : t.Open q found.1 found.2 := .inl ⟨hp, ho⟩
        exact .inr (.inr ⟨_, _, hopen, hlook hm hopen⟩)
    | met found index =>
      have hopen : t.Open q found.text index := .inr ⟨found.place, hp⟩
      exact .inr (.inr ⟨_, _, hopen, hlook hm hopen⟩)
    | covered | closed | failed => exact .inl (visit_of_isFinished (by simp [isFinished, hp]))
  · exact .inl (visit_of_not_meets hm)

section
variable {t : Target} {q : Query} {text : List FeatureId} {index : CellIndex}

private theorem follows_located (ht : t.Open q text index) (v : Rect Binary64) :
    t.Follows (t.located q v text index) := by
  refine ⟨rfl, ?_⟩
  rcases ht with ⟨hp, -⟩ | ⟨place, hp⟩ <;> rw [hp]
  · exact .single (.meet _ index)
  · exact .single (.meetAgain ⟨text, place⟩ index _)

private theorem follows_cover (t : Target) : t.Follows t.cover := by
  refine ⟨t.cover_registration, ?_⟩
  unfold cover
  split
  · next found index hp =>
    rw [hp]
    exact .single (.cover found index)
  · exact .refl

private theorem follows_close (t : Target) : t.Follows t.close := by
  obtain ⟨r, progress⟩ := t
  refine ⟨by unfold close; split <;> rfl, ?_⟩
  cases progress with
  | pending => exact .single .leave
  | met found index => exact .single (.close found index)
  | covered | closed | failed => exact .refl

private theorem follows_visit (t : Target) (q : Query) (v : Rect Binary64) :
    t.Follows (t.visit q v).2 := by
  rcases t.visit_cases q v with hv | ⟨why, hp, hv⟩ | ⟨text, index, ht, hv | hv⟩ <;> rw [hv]
  · exact .refl t
  · refine ⟨rfl, ?_⟩
    rw [hp]
    exact .single .fail
  · exact follows_located ht v
  · exact (follows_located ht v).trans (follows_cover _)

private theorem follows_conclude (t : Target) : t.Follows t.conclude.2 := by
  unfold conclude
  split
  · exact .refl t
  · exact t.follows_close

/-- Nothing has been told of a target before it is finished. -/
theorem verdict_of_unfinished (h : t.isFinished = false) : t.verdict = [] := by
  have hfailed : t.isFailed = false := by
    revert h
    simp only [isFinished, isFailed]
    cases t.progress <;> simp
  simp [verdict, h, hfailed]

private theorem gist_report {u : Target} (hr : u.registration = t.registration)
    (hfound : u.found = t.found) (hfailed : u.isFailed = false) (hfinished : u.isFinished = true) :
    t.report.map Event.gist = u.verdict := by
  rw [verdict, hfailed, if_neg Bool.false_ne_true, hfinished, Bool.true_and, hfound, id, hr, report]
  cases t.found.both <;> rfl

private theorem verdict_visit (t : Target) (q : Query) (v : Rect Binary64) :
    t.verdict ++ (t.visit q v).1.map Event.gist = (t.visit q v).2.verdict := by
  have hunfinished {text : List FeatureId} {index : CellIndex} (ht : t.Open q text index) :
      t.verdict = [] := verdict_of_unfinished (isFinished_of_open ht)
  rcases t.visit_cases q v with hv | ⟨why, hp, hv⟩ | ⟨text, index, ht, hv | hv⟩ <;> rw [hv]
  · exact List.append_nil _
  · rw [verdict_of_unfinished (by simp [isFinished, hp])]
    rfl
  · rw [hunfinished ht]
    rfl
  · rw [hunfinished ht, List.nil_append]
    exact gist_report (t.located q v text index).cover_registration
      (t.located q v text index).found_cover rfl rfl

private theorem verdict_conclude (t : Target) :
    t.verdict ++ t.conclude.1.map Event.gist = t.conclude.2.verdict := by
  cases hfinished : t.isFinished with
  | true => simp [conclude, hfinished]
  | false =>
    rw [verdict_of_unfinished hfinished, List.nil_append]
    simp only [conclude, close, hfinished, Bool.false_eq_true, if_false]
    exact gist_report rfl rfl rfl rfl

private theorem Sorted.visit (h : t.Sorted) (q : Query) (v : Rect Binary64) :
    (t.visit q v).2.Sorted := by
  rcases t.visit_cases q v with hv | ⟨why, hp, hv⟩ | ⟨text, index, ht, hv | hv⟩ <;> rw [hv]
  · exact h
  · exact .nil
  · exact pairwise_of_open ht h
  · rw [Sorted, found_cover]
    exact pairwise_of_open ht h

private theorem Sorted.conclude (h : t.Sorted) : t.conclude.2.Sorted := by
  unfold Target.conclude close
  split
  · exact h
  · exact h

end

private theorem isFinished_conclude (t : Target) : t.conclude.2.isFinished = true := by
  unfold conclude close
  split
  · assumption
  · rfl

end Target

namespace Search

/-- The first targets become the second by their moves, and the events are what is told of them on
the way. -/
structure Advances (ts : List Target) (events : List Event) (us : List Target) : Prop where
  follows : List.Forall₂ Target.Follows ts us
  told : (ts.flatMap Target.verdict ++ events.map Event.gist).Perm (us.flatMap Target.verdict)
  sorted : (∀ t ∈ ts, t.Sorted) → ∀ u ∈ us, u.Sorted

theorem forall₂_follows_trans {ts us vs : List Target} (h : List.Forall₂ Target.Follows ts us)
    (h' : List.Forall₂ Target.Follows us vs) : List.Forall₂ Target.Follows ts vs := by
  induction h generalizing vs with
  | nil => exact h'
  | cons ht _ ih =>
    obtain ⟨w, ws, hw, hws, rfl⟩ := List.forall₂_cons_left_iff.mp h'
    exact .cons (ht.trans hw) (ih hws)

private theorem Advances.refl (ts : List Target) : Advances ts [] ts where
  follows := List.forall₂_same.mpr fun t _ => Target.Follows.refl t
  told := by rw [List.map_nil, List.append_nil]
  sorted := id

private theorem Advances.trans {ts us vs : List Target} {events more : List Event}
    (h : Advances ts events us) (h' : Advances us more vs) : Advances ts (events ++ more) vs where
  follows := forall₂_follows_trans h.follows h'.follows
  told := by
    rw [List.map_append, ← List.append_assoc]
    exact (h.told.append_right _).trans h'.told
  sorted hs := h'.sorted (h.sorted hs)

private theorem advances_each {f : Target → List Event × Target}
    (hfollows : ∀ t : Target, t.Follows (f t).2)
    (hverdict : ∀ t : Target, t.verdict ++ (f t).1.map Event.gist = (f t).2.verdict)
    (hsorted : ∀ t : Target, t.Sorted → (f t).2.Sorted) (ts : List Target) :
    Advances ts (each f ts).1 (each f ts).2 where
  follows := List.forall₂_map_right_iff.mpr (List.forall₂_same.mpr fun t _ => hfollows t)
  told := by
    simp only [each, List.map_flatMap, List.flatMap_map, ← hverdict]
    exact List.flatMap_append_perm ts _ _
  sorted hs u hu := by
    obtain ⟨t, ht, rfl⟩ := List.mem_map.mp hu
    exact hsorted t (hs t ht)

/-- A viewport that is searched in all targets moves each of them on, and tells what these moves
add. -/
theorem advances_visit (q : Query) (v : Rect Binary64) (ts : List Target) :
    Advances ts (each (·.visit q v) ts).1 (each (·.visit q v) ts).2 :=
  advances_each (fun t => t.follows_visit q v) (fun t => t.verdict_visit q v)
    (fun _ ht => ht.visit q v) ts

/-- The end of a search moves all targets on, and tells what these moves add. -/
theorem advances_conclude (ts : List Target) :
    Advances ts (each (·.conclude) ts).1 (each (·.conclude) ts).2 :=
  advances_each Target.follows_conclude Target.verdict_conclude (fun _ ht => ht.conclude) ts

/-- Any number of viewports move all targets on, and tell what these moves add. -/
theorem advances_tour (q : Query) (ts : List Target) (vs : List (Rect Binary64)) :
    Advances ts (tour q ts vs).1 (tour q ts vs).2 := by
  induction vs generalizing ts with
  | nil => exact .refl ts
  | cons v vs ih => exact (advances_visit q v ts).trans (ih _)

/-- A run takes the targets on by their moves, and tells what it adds to their verdicts. -/
theorem advances_run (s : Search) : Advances s.targets s.run.1 s.run.2.targets := by
  rw [(run_eq_tour s).1, (run_eq_tour s).2]
  exact (advances_tour s.query s.targets s.viewports).trans (advances_conclude _)

/-- A run finishes all targets. -/
theorem isFinished_run (s : Search) : s.run.2.isFinished = true := by
  refine List.all_eq_true.mpr ?_
  rw [(run_eq_tour s).2]
  intro t ht
  obtain ⟨u, -, rfl⟩ := List.mem_map.mp ht
  exact u.isFinished_conclude

end Search
end Gazetteer
