import Gazetteer.Proofs.Query.Narrowing
import Gazetteer.Proofs.Search.Decision

/-! What a target keeps from one viewport to the next, its text matches and its place index, shows
in nothing but time: after any viewports it holds what lookups in the stored indexes would find for
the last one alone. -/
namespace Gazetteer

namespace Partition

/-- The features that match by text, looked up in the index as it is stored. -/
def textFeatures (p : Partition) (q : Query) : Except PartitionError (List FeatureId) :=
  p.textIndex.map fun t => q.handOut t fun _ => true

/-- The features in a viewport, looked up in the index as it is stored. -/
def placeFeatures (p : Partition) (q : Query) (viewport : Rect Binary64) :
    Except PartitionError (List FeatureId) :=
  p.placeIndex.map fun index => q.placeMatches index p.header.scales viewport

end Partition

namespace Target

def retrieveAll (t : Target) (q : Query) (vs : List (Rect Binary64)) : Except Failure Target :=
  vs.foldlM (fun t v => t.retrieve q v) t

variable {t : Target} {q : Query} {text : List FeatureId} {index : CellIndex}

private theorem retrieveAll_of_open (h : t.Open q text index) (v : Rect Binary64)
    (vs : List (Rect Binary64)) : t.retrieveAll q (v :: vs) =
      .ok (t.located q ((v :: vs).getLast (List.cons_ne_nil v vs)) text index) := by
  induction vs generalizing t v with
  | nil =>
    rw [retrieveAll, List.foldlM_cons, retrieve_of_open h]
    rfl
  | cons w vs ih =>
    rw [retrieveAll, List.foldlM_cons, retrieve_of_open h, List.getLast_cons (List.cons_ne_nil w vs)]
    exact ih (t.open_located q v text index) w

private theorem textFeatures_of_opened (h : t.opened q = .ok (text, index)) :
    t.partition.textFeatures q = .ok text := by
  obtain ⟨trie, htrie, -, rfl⟩ := opened_eq_ok h
  rw [Partition.textFeatures, htrie, Except.map, Query.handOut_all]

private theorem placeFeatures_of_opened (h : t.opened q = .ok (text, index)) (v : Rect Binary64) :
    t.partition.placeFeatures q v =
      .ok (q.placeMatches index t.partition.header.scales v) := by
  obtain ⟨trie, -, hindex, -⟩ := opened_eq_ok h
  rw [Partition.placeFeatures, hindex, Except.map]

private theorem lookup_error_of_opened {why : Failure} (h : t.opened q = .error why) :
    (∃ e, why = .text e ∧ t.partition.textFeatures q = .error e) ∨
      ∃ e text, why = .place e ∧ t.partition.textFeatures q = .ok text ∧
        ∀ v, t.partition.placeFeatures q v = .error e := by
  rcases t.opened_cases q with
    ⟨e, htrie, ho⟩ | ⟨trie, e, htrie, hindex, ho⟩ | ⟨trie, index, -, -, ho⟩ <;>
    cases h.symm.trans ho
  · refine .inl ⟨e, rfl, ?_⟩
    rw [Partition.textFeatures, htrie, Except.map]
  · refine .inr ⟨e, q.handOut trie fun _ => true, rfl, ?_, fun v => ?_⟩
    · rw [Partition.textFeatures, htrie, Except.map]
    · rw [Partition.placeFeatures, hindex, Except.map]

/-- A target finds the features that match by text, less those that are not in the viewport. -/
theorem both_located_eq_filter (htext : text.Pairwise (· < ·)) (v : Rect Binary64) :
    (t.located q v text index).found.both =
      text.filter (· ∈ q.placeMatches index t.partition.header.scales v) := by
  have hplace := Ascending.pairwise_ofList (q.placeMatches index t.partition.header.scales v)
  refine (Ascending.inter_eq_filter htext hplace).trans ?_
  simp only [Ascending.mem_ofList]

/-- What is kept between viewports cannot be seen. If a partition can be searched for a first
viewport, it can for all that follow, and then its target is as after the last viewport alone: it
has the features that a lookup by text finds, those that a lookup in the last viewport finds, and
those that are in both, each in ascending order. If it cannot be searched for a first viewport, it
fails for every other in the same way, namely as a lookup does. -/
theorem retrieveAll_eq_lookups (r : Registration) (q : Query) (v : Rect Binary64)
    (vs : List (Rect Binary64)) :
    let t : Target := ⟨r, .pending⟩
    let last := (v :: vs).getLast (List.cons_ne_nil v vs)
    (∀ s, t.retrieve q v = .ok s → ∃ u text place,
      t.retrieveAll q (v :: vs) = .ok u ∧ t.retrieve q last = .ok u ∧
        r.partition.textFeatures q = .ok text ∧ r.partition.placeFeatures q last = .ok place ∧
        u.found.text = Ascending.ofList text ∧ u.found.place = Ascending.ofList place ∧
        u.found.both = (Ascending.ofList text).filter (· ∈ place)) ∧
    ∀ why, t.retrieve q v = .error why →
      (∀ w, t.retrieve q w = .error why) ∧ t.retrieveAll q (v :: vs) = .error why ∧
        ((∃ e, why = .text e ∧ r.partition.textFeatures q = .error e) ∨
          ∃ e text, why = .place e ∧ r.partition.textFeatures q = .ok text ∧
            ∀ w, r.partition.placeFeatures q w = .error e) := by
  intro t last
  have hp : t.progress = .pending := rfl
  cases ho : t.opened q with
  | error why =>
    have hretrieve := retrieve_of_error hp ho
    constructor
    · intro s hs
      rw [hretrieve] at hs
      cases hs
    · intro why' hwhy
      rw [hretrieve] at hwhy
      cases hwhy
      refine ⟨hretrieve, ?_, lookup_error_of_opened ho⟩
      rw [retrieveAll, List.foldlM_cons, hretrieve]
      rfl
  | ok found =>
    obtain ⟨text, index⟩ := found
    have hopen : t.Open q text index := .inl ⟨hp, ho⟩
    constructor
    · intro s _
      have htext := pairwise_of_opened ho
      have hlist := Ascending.ofList_of_pairwise htext
      exact ⟨t.located q last text index, text, q.placeMatches index t.partition.header.scales last,
        retrieveAll_of_open hopen v vs, retrieve_of_open hopen last, textFeatures_of_opened ho,
        placeFeatures_of_opened ho last, hlist.symm, rfl,
        hlist.symm ▸ both_located_eq_filter htext last⟩
    · intro why hwhy
      rw [retrieve_of_open hopen] at hwhy
      cases hwhy

/-- The inn in two viewports one after the other, and the inn with a place index that cannot be
read. -/
theorem retrieveAll_inn :
    let q : Query := { words := [["i"]], scale := 1 }
    let wide : Rect Binary64 := .ofCorners ⟨0, -4⟩ ⟨2, 4⟩
    let close : Rect Binary64 := .ofCorners ⟨0, 1⟩ ⟨2, 3⟩
    let t : Target := ⟨⟨⟨"Town", 1⟩, Search.inn⟩, .pending⟩
    let broken : Target := ⟨⟨⟨"Town", 2⟩, Search.inn.setSection Partition.placeTag [193]⟩, .pending⟩
    (∃ u, t.retrieveAll q [wide, close] = .ok u ∧ t.retrieve q close = .ok u ∧ u.found.both = [0]) ∧
      ∀ w, broken.retrieve q w = .error (.place (.placeIndex .unreadable)) := by
  intro q wide close t broken
  obtain ⟨s, hfirst⟩ : ∃ s, t.retrieve q wide = .ok s := exists_ok_of_toBool (by decide +kernel)
  have hfailed : broken.retrieve q wide = .error (.place (.placeIndex .unreadable)) := by
    decide +kernel
  constructor
  · obtain ⟨u, text, place, hall, hlast, htext, hplace, -, -, hboth⟩ :=
      (retrieveAll_eq_lookups t.registration q wide [close]).1 s hfirst
    have htext' : t.registration.partition.textFeatures q = .ok [0] := by decide +kernel
    have hplace' : t.registration.partition.placeFeatures q close = .ok [0] := by decide +kernel
    cases htext.symm.trans htext'
    cases hplace.symm.trans hplace'
    exact ⟨u, hall, hlast, hboth.trans (by decide +kernel)⟩
  · exact ((retrieveAll_eq_lookups broken.registration q wide []).2 _ hfailed).1

end Target
end Gazetteer
