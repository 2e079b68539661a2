import Gazetteer.Proofs.Catalog.Identity
import Gazetteer.Proofs.Query.TextMatches
import Gazetteer.Proofs.Search.Trajectory
import Mathlib.Data.List.Induction

/-! What a whole search tells about one partition. Of all viewports one decides: the first that
covers the partition, or else the last that meets it. The search tells of the partition what a
single look at that viewport would. -/
namespace Gazetteer

/-- The first viewport that meets and contains the bounds, or, if none does, the last that meets
them. -/
def decisive (bounds : Rect Binary64) (vs : List (Rect Binary64)) : Option (Rect Binary64) :=
  (vs.find? fun v => v.meets bounds && v.contains bounds).or
    (vs.filter (·.meets bounds)).getLast?

private theorem decisive_of_forall_not_meets {bounds : Rect Binary64} {vs : List (Rect Binary64)}
    (h : ¬ ∃ v ∈ vs, v.meets bounds) : decisive bounds vs = none := by
  have hn (v : Rect Binary64) (hv : v ∈ vs) : v.meets bounds = false := by
    by_contra hm
    exact h ⟨v, hv, by simpa using hm⟩
  have hf : vs.filter (·.meets bounds) = [] := List.filter_eq_nil_iff.mpr fun v hv => by simp [hn v hv]
  have hc : vs.find? (fun v => v.meets bounds && v.contains bounds) = none :=
    List.find?_eq_none.mpr fun v hv => by simp [hn v hv]
  simp [decisive, hf, hc]

private theorem exists_decisive {bounds : Rect Binary64} {vs : List (Rect Binary64)}
    (h : ∃ v ∈ vs, v.meets bounds) : ∃ v, decisive bounds vs = some v := by
  obtain ⟨v, hv, hm⟩ := h
  have hne : vs.filter (·.meets bounds) ≠ [] :=
    List.ne_nil_of_mem (List.mem_filter.mpr ⟨hv, hm⟩)
  rw [← Option.isSome_iff_exists, decisive, Option.isSome_or, List.getLast?_eq_some_getLast hne]
  exact Bool.or_true _

/-- Only a viewport that meets the bounds is decisive. -/
theorem meets_of_decisive {bounds v : Rect Binary64} {vs : List (Rect Binary64)}
    (h : decisive bounds vs = some v) : v.meets bounds := by
  rcases Option.or_eq_some_iff.mp h with h | ⟨_, h⟩
  · have := List.find?_some h
    simp only [Bool.and_eq_true] at this
    exact this.1
  · exact (List.mem_filter.mp (List.mem_of_getLast? h)).2

private theorem decisive_append (bounds : Rect Binary64) (vs : List (Rect Binary64))
    (v : Rect Binary64) : decisive bounds (vs ++ [v]) =
      if v.meets bounds ∧ ∀ w, decisive bounds vs = some w → w.contains bounds = false then some v
      else decisive bounds vs := by
  cases hc : vs.find? fun w => w.meets bounds && w.contains bounds with
  | some w =>
    have hw : w.contains bounds := by
      have := List.find?_some hc
      simp only [Bool.and_eq_true] at this
      exact this.2
    have hd : decisive bounds vs = some w := by simp [decisive, hc]
    rw [if_neg fun h => by simp [h.2 w hd] at hw, hd, decisive, List.find?_append, hc]
    rfl
  | none =>
    have hlast : decisive bounds vs = (vs.filter (·.meets bounds)).getLast? := by
      simp [decisive, hc]
    have hn (w : Rect Binary64) (hw : decisive bounds vs = some w) : w.contains bounds = false := by
      have hmem := List.mem_filter.mp (List.mem_of_getLast? (hlast ▸ hw))
      have := List.find?_eq_none.mp hc w hmem.1
      simpa [hmem.2] using this
    rw [decisive, List.find?_append, hc, Option.none_or, List.filter_append]
    by_cases hm : v.meets bounds
    · rw [if_pos ⟨hm, hn⟩]
      cases hv : v.contains bounds <;> simp [hm, hv]
    · rw [if_neg fun h => hm h.1, hlast]
      simp [hm]

namespace Target

variable {t : Target} {q : Query} {v : Rect Binary64}

/-- All that opening a partition can come to. The text index is read first. -/
theorem opened_cases (t : Target) (q : Query) :
    (∃ e, t.partition.textIndex = .error e ∧ t.opened q = .error (.text e)) ∨
      (∃ trie e, t.partition.textIndex = .ok trie ∧ t.partition.placeIndex = .error e ∧
        t.opened q = .error (.place e)) ∨
      ∃ trie index, t.partition.textIndex = .ok trie ∧ t.partition.placeIndex = .ok index ∧
        t.opened q = .ok (q.textMatches trie, index) := by
  unfold opened
  cases t.partition.textIndex with
  | error e => exact .inl ⟨e, rfl, rfl⟩
  | ok trie =>
    cases t.partition.placeIndex with
    | error e => exact .inr (.inl ⟨trie, e, rfl, rfl, rfl⟩)
    | ok index => exact .inr (.inr ⟨trie, index, rfl, rfl, rfl⟩)

/-- Text matches are at hand once both indexes could be read. -/
theorem opened_eq_ok {t : Target} {q : Query} {text : List FeatureId} {index : CellIndex}
    (h : t.opened q = .ok (text, index)) :
    ∃ trie, t.partition.textIndex = .ok trie ∧ t.partition.placeIndex = .ok index ∧
      text = q.textMatches trie := by
  rcases t.opened_cases q with ⟨e, -, ho⟩ | ⟨trie, e, -, -, ho⟩ | ⟨trie, index', htrie, hindex, ho⟩ <;>
    cases h.symm.trans ho
  exact ⟨trie, htrie, hindex, rfl⟩

theorem pairwise_of_opened {text : List FeatureId} {index : CellIndex}
    (h : t.opened q = .ok (text, index)) : text.Pairwise (· < ·) := by
  obtain ⟨trie, -, -, rfl⟩ := opened_eq_ok h
  exact q.pairwise_textMatches trie

/-- Nothing is found in a target that was not searched. -/
theorem both_of_pending {t : Target} (hp : t.progress = .pending) : t.found.both = [] := by
  simp [found, hp, Matches.both, Ascending.inter]

theorem found_cover (t : Target) : t.cover.found = t.found := by
  unfold cover
  split <;> simp_all [found]

/-- The text matches and the place index of the target are at hand, be it for the first time. -/
def Open (t : Target) (q : Query) (text : List FeatureId) (index : CellIndex) : Prop :=
  t.progress = .pending ∧ t.opened q = .ok (text, index) ∨
    ∃ place, t.progress = .met ⟨text, place⟩ index

theorem pairwise_of_open {text : List FeatureId} {index : CellIndex} (h : t.Open q text index)
    (hs : t.found.text.Pairwise (· < ·)) : text.Pairwise (· < ·) := by
  rcases h with ⟨-, ho⟩ | ⟨place, hp⟩
  · exact pairwise_of_opened ho
  · simpa [found, hp] using hs

theorem open_located (t : Target) (q : Query) (v : Rect Binary64) (text : List FeatureId)
    (index : CellIndex) : (t.located q v text index).Open q text index := .inr ⟨_, rfl⟩

theorem isFinished_of_open {text : List FeatureId} {index : CellIndex} (h : t.Open q text index) :
    t.isFinished = false := by
  rcases h with ⟨hp, -⟩ | ⟨place, hp⟩ <;> simp [isFinished, hp]

/-- A target whose indexes are at hand is only located anew. -/
theorem retrieve_of_open {text : List FeatureId} {index : CellIndex} (h : t.Open q text index)
    (v : Rect Binary64) : t.retrieve q v = .ok (t.located q v text index) := by
  rcases h with ⟨hp, ho⟩ | ⟨place, hp⟩
  · simp [retrieve, hp, ho, Except.map]
  · simp [retrieve, hp]

/-- A target whose indexes cannot be read is as it was. -/
theorem retrieve_of_error (hp : t.progress = .pending) {why : Failure}
    (ho : t.opened q = .error why) (v : Rect Binary64) : t.retrieve q v = .error why := by
  simp [retrieve, hp, ho, Except.map]

theorem retrieve_of_isFinished (h : t.isFinished = true) (q : Query) (v : Rect Binary64) :
    t.retrieve q v = .ok t := by
  obtain ⟨r, progress⟩ := t
  cases progress with
  | pending | met => cases h
  | covered | closed | failed => rfl

/-- A viewport apart from the target leaves it alone. -/
theorem visit_of_not_meets (h : ¬ v.meets t.bounds) : t.visit q v = ([], t) := by
  simp [visit, h]

theorem visit_of_isFinished (h : t.isFinished = true) : t.visit q v = ([], t) := by
  simp [visit, h]

/-- A partition that cannot be opened is given up when a viewport first meets it. -/
theorem visit_of_error (hp : t.progress = .pending) (hm : v.meets t.bounds) {why : Failure}
    (ho : t.opened q = .error why) :
    t.visit q v = ([.failed t.id why], { t with progress := .failed }) := by
  simp [visit, isFinished, hp, hm, retrieve_of_error hp ho]

/-- A partition that can be opened is looked up in the viewport that meets it, be it the first or
not, and reported if the viewport covers it. -/
theorem visit_of_open {s : Target} {text : List FeatureId} {index : CellIndex}
    (hs : s.Open q text index) (hm : v.meets s.bounds) :
    s.visit q v =
      if v.contains s.bounds then
        ((s.located q v text index).report, (s.located q v text index).cover)
      else ([], s.located q v text index) := by
  simp [visit, isFinished_of_open hs, hm, retrieve_of_open hs]

/-- Two visits to a pending target come to one: to the second viewport if it meets the partition
and the first did not cover it, and else to the first. -/
theorem visit_visit {w : Rect Binary64} (hp : t.progress = .pending) (hw : w.meets t.bounds) :
    ((t.visit q w).1 ++ ((t.visit q w).2.visit q v).1, ((t.visit q w).2.visit q v).2) =
      if v.meets t.bounds ∧ w.contains t.bounds = false then t.visit q v else t.visit q w := by
  cases ho : t.opened q with
  | error why =>
    rw [visit_of_error hp hw ho, visit_of_isFinished (by simp [isFinished])]
    split_ifs with h
    · simp [visit_of_error hp h.1 ho]
    · simp
  | ok found =>
    obtain ⟨text, index⟩ := found
    rw [visit_of_open (.inl ⟨hp, ho⟩) hw]
    cases hc : w.contains t.bounds with
    | true =>
      have hv : (t.located q w text index).cover.visit q v =
          ([], (t.located q w text index).cover) :=
        visit_of_isFinished (by simp [isFinished, cover, located])
      simp [hv]
    | false =>
      by_cases hm : v.meets t.bounds
      · have hv := visit_of_open (t.open_located q w text index) hm
        rw [if_neg (by decide), if_pos ⟨hm, rfl⟩, visit_of_open (.inl ⟨hp, ho⟩) hm]
        exact hv
      · have hv : (t.located q w text index).visit q v = ([], t.located q w text index) :=
          visit_of_not_meets hm
        simp [hv, hm]

/-- Of all viewports a pending target is as its decisive one leaves it, and tells what this one
tells. -/
theorem visits_eq_visit_decisive (hp : t.progress = .pending) (vs : List (Rect Binary64)) :
    t.visits q vs = ((decisive t.bounds vs).map (t.visit q)).getD ([], t) := by
  -- The induction is on the viewports from the first one on; what the visits so far came to is the
  -- state in which the next one is made.
  induction vs using List.reverseRecOn with
  | nil => rfl
  | append_singleton vs v ih =>
    rw [visits_append, ih, decisive_append]
    simp only [visits, List.append_nil]
    cases hd : decisive t.bounds vs with
    | none =>
      by_cases hm : v.meets t.bounds
      · simp [hm]
      · simp [hm, visit_of_not_meets hm]
    | some w =>
      simp only [Option.map_some, Option.getD_some, visit_visit hp (meets_of_decisive hd)]
      simp only [Option.some.injEq, forall_eq']
      split_ifs <;> rfl

/-- What a visit to a pending target tells, together with the end of the search. -/
theorem visit_conclude (hp : t.progress = .pending) (hm : v.meets t.bounds) :
    (t.visit q v).1 ++ (t.visit q v).2.conclude.1 =
      match t.opened q with
      | .error why => [.failed t.id why]
      | .ok (text, index) => (t.located q v text index).report := by
  cases ho : t.opened q with
  | error why => simp [visit_of_error hp hm ho, conclude, isFinished]
  | ok found =>
    obtain ⟨text, index⟩ := found
    rw [visit_of_open (.inl ⟨hp, ho⟩) hm]
    cases hc : v.contains t.bounds with
    | true => simp [conclude, isFinished, cover, located]
    | false => simp [conclude, isFinished, located]

end Target

namespace Search

variable {c : Catalog} {viewport : Rect Binary64} {q : Query} {limits : Limits Binary64} {t : Target}

theorem isFinished_start {source : Source}
    (ht : t ∈ (start source viewport q limits).targets) :
    (start source viewport q limits).isFinished = false := by
  refine List.all_eq_false.mpr ⟨t, ht, ?_⟩
  simp [Target.isFinished, pending_start ht]

/-- A search tells of a registered partition what one look at its decisive viewport finds: nothing
if no viewport meets it, the fault of the index that cannot be read, the text index first, and else
the features that match by text and, in that viewport, by place, if there are any. -/
theorem told_of_decisive (hc : c.Reached) (ht : t ∈ (start c.source viewport q limits).targets) :
    let s := start c.source viewport q limits
    ((¬ ∃ v ∈ s.viewports, v.meets t.bounds) → s.told t = []) ∧
    ((∃ v ∈ s.viewports, v.meets t.bounds) →
      (∀ e, t.partition.textIndex = .error e → s.told t = [.failed t.id (.text e)]) ∧
      (∀ trie e, t.partition.textIndex = .ok trie → t.partition.placeIndex = .error e →
        s.told t = [.failed t.id (.place e)]) ∧
      (∀ trie index, t.partition.textIndex = .ok trie → t.partition.placeIndex = .ok index →
        ∃ v, decisive t.bounds s.viewports = some v ∧
        ∃ ids : List FeatureId, ids.Pairwise (· < ·) ∧
          (∀ id, id ∈ ids ↔ id ∈ q.textMatches trie ∧
            id ∈ q.placeMatches index t.partition.header.scales v) ∧
          s.told t = if ids = [] then [] else [.reported t.id ids])) := by
  intro s
  have hp := pending_start ht
  have htold : s.told t = (((decisive t.bounds s.viewports).map (t.visit q)).getD ([], t)).1 ++
      (((decisive t.bounds s.viewports).map (t.visit q)).getD ([], t)).2.conclude.1 := by
    rw [told_eq (isFinished_start ht) (ids_nodup_start hc viewport q limits) ht,
      Target.visits_eq_visit_decisive hp]
    rfl
  constructor
  · intro hn
    rw [htold, decisive_of_forall_not_meets hn]
    simp [Target.conclude, Target.isFinished, Target.report, Target.found, Matches.both,
      Ascending.inter, hp]
  · intro hm
    obtain ⟨v, hv⟩ := exists_decisive hm
    rw [hv, Option.map_some, Option.getD_some,
      Target.visit_conclude hp (meets_of_decisive hv)] at htold
    refine ⟨?_, ?_, ?_⟩
    · intro e he
      have ho : t.opened q = .error (.text e) := by simp [Target.opened, he, Except.mapError]; rfl
      rw [htold, ho]
    · intro trie e htrie he
      have ho : t.opened q = .error (.place e) := by
        simp [Target.opened, htrie, he, Except.mapError]; rfl
      rw [htold, ho]
    · intro trie index htrie hindex
      have ho : t.opened q = .ok (q.textMatches trie, index) := by
        simp [Target.opened, htrie, hindex, Except.mapError]; rfl
      rw [ho] at htold
      have hord := q.pairwise_textMatches trie
      have hplace := Ascending.pairwise_ofList (q.placeMatches index t.partition.header.scales v)
      refine ⟨v, hv, (t.located q v (q.textMatches trie) index).found.both,
        Ascending.pairwise_inter hord _, ?_, ?_⟩
      · intro id
        exact (Ascending.mem_inter hord hplace).trans (and_congr_right fun _ => Ascending.mem_ofList)
      · rw [htold]
        simp only [Target.report, List.isEmpty_iff]
        rfl

/-- The partition of an inn at (1, 2), as it is built. -/
def inn : Partition :=
  ⟨"Town", ⟨1, 1, ⟨⟨1, 2⟩, ⟨1, 2⟩⟩, ⟨0, 6⟩⟩, [
    ("idx", [
      129, 167, 98, 117, 99, 107, 101, 116, 115, 145, 130, 165, 115, 99, 97, 108, 101, 0, 167, 101,
      110, 116, 114, 105, 101, 115, 145, 146, 207, 0, 0, 192, 2, 109, 180, 2, 109, 0]),
    ("search", [
      130, 165, 114, 111, 111, 116, 115, 145, 146, 1, 0, 165, 110, 111, 100, 101, 115, 146, 130, 165,
      101, 100, 103, 101, 115, 145, 146, 161, 105, 1, 166, 118, 97, 108, 117, 101, 115, 144, 130,
      165, 101, 100, 103, 101, 115, 144, 166, 118, 97, 108, 117, 101, 115, 145, 0])]⟩

/-- The first viewport does not meet the inn, and the second covers it. -/
theorem told_inn :
    let c := (Catalog.empty.register inn).2.2
    let q : Query := { words := [["i"]], scale := 1 }
    let s := start c.source (.ofCorners ⟨0, -4⟩ ⟨2, 1⟩) q {}
    let t : Target := ⟨⟨⟨"Town", 1⟩, inn⟩, .pending⟩
    let index : CellIndex := ⟨[⟨0, [⟨211116662981229, 0⟩]⟩]⟩
    c.Reached ∧ t ∈ s.targets ∧ s.told t = [.reported t.id [0]] ∧
      ∃ v, decisive t.bounds s.viewports = some v ∧ 0 ∈ q.placeMatches index ⟨0, 6⟩ v := by
  intro c q s t index
  have hc : c.Reached := .register inn .empty
  have ht : t ∈ s.targets := by decide +kernel
  have hm : ∃ v ∈ s.viewports, v.meets t.bounds := by decide +kernel
  have htold : s.told t = [.reported t.id [0]] := by decide +kernel
  obtain ⟨v, hv, ids, _, hids, htold'⟩ := ((told_of_decisive hc ht).2 hm).2.2
    ⟨[(1, 0)], #[⟨[('i', 1)], []⟩, ⟨[], [0]⟩]⟩ index (by decide +kernel) (by decide +kernel)
  refine ⟨hc, ht, htold, v, hv, ((hids 0).mp ?_).2⟩
  rw [htold] at htold'
  split_ifs at htold'
  cases htold'
  exact List.mem_singleton_self 0

end Search
end Gazetteer
