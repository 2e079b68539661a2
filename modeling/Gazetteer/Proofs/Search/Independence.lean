import Gazetteer.Proofs.Search.Decision
import Gazetteer.Proofs.Search.Tour

/-! Searches of some of the partitions. What a search tells of some of its partitions is what a
search of these alone tells, as long as no number of features is enough to end it, or nothing is
ever found in the others. The others may make it go through more viewports, but only when all is
told of the partitions in question. -/
namespace Gazetteer

/-- The identifier by its name alone. -/
def PartitionId.nominal (id : PartitionId) : PartitionId := { id with generation := 0 }

def Registration.nominal (r : Registration) : Registration := { r with id := r.id.nominal }

def Event.nominal : Event → Event
  | .reported id features => .reported id.nominal features
  | .failed id why => .failed id.nominal why

/-- The partition adds nothing to what a query finds: one of its indexes cannot be read, or none of
its features matches the text. -/
def Partition.Barren (p : Partition) (q : Query) : Prop :=
  ∀ trie index, p.textIndex = .ok trie → p.placeIndex = .ok index → q.textMatches trie = []

namespace Target

def nominal (t : Target) : Target := { t with registration := t.registration.nominal }

private theorem retrieve_nominal (t : Target) (q : Query) (v : Rect Binary64) :
    t.nominal.retrieve q v = (t.retrieve q v).map nominal := by
  obtain ⟨r, progress⟩ := t
  cases progress with
  | pending =>
    change (Target.opened ⟨r, .pending⟩ q).map _ = ((Target.opened ⟨r, .pending⟩ q).map _).map nominal
    cases Target.opened ⟨r, .pending⟩ q <;> rfl
  | met => rfl
  | covered => rfl
  | closed => rfl
  | failed => rfl

private theorem cover_nominal (t : Target) : t.nominal.cover = t.cover.nominal := by
  obtain ⟨r, progress⟩ := t
  cases progress <;> rfl

private theorem report_nominal (t : Target) : t.nominal.report = t.report.map Event.nominal := by
  unfold report
  change (if t.found.both.isEmpty then _ else _) = _
  split <;> rfl

private theorem visit_nominal (t : Target) (q : Query) (v : Rect Binary64) :
    t.nominal.visit q v = ((t.visit q v).1.map Event.nominal, (t.visit q v).2.nominal) := by
  unfold visit
  rw [retrieve_nominal]
  change (if t.isFinished || !v.meets t.bounds then _ else _) = _
  split
  · rfl
  · cases t.retrieve q v with
    | error why => rfl
    | ok s =>
      change (if v.contains t.bounds then (s.nominal.report, s.nominal.cover) else _) = _
      rw [report_nominal, cover_nominal]
      dsimp only
      split <;> rfl

private theorem conclude_nominal (t : Target) :
    t.nominal.conclude = (t.conclude.1.map Event.nominal, t.conclude.2.nominal) := by
  unfold conclude close
  rw [report_nominal]
  change (if t.isFinished then _ else (_, if t.isFinished then _ else _)) = _
  split <;> rfl

/-- Nothing is found in the target, whichever viewports are visited in it. -/
def Barren (q : Query) (t : Target) : Prop := ∀ vs, (t.visits q vs).2.found.both = []

/-- A barren target stays so. -/
theorem Barren.visit {q : Query} {t : Target} (h : t.Barren q) (v : Rect Binary64) :
    (t.visit q v).2.Barren q := fun vs => h (v :: vs)

private theorem both_located (t : Target) (q : Query) (v : Rect Binary64) (index : CellIndex) :
    (t.located q v [] index).found.both = [] := by
  simp [found, located, Matches.both, Ascending.inter]

private theorem barren_of_partition {q : Query} {t : Target} (hp : t.progress = .pending)
    (h : t.partition.Barren q) : t.Barren q := by
  intro vs
  rw [visits_eq_visit_decisive hp]
  cases hd : decisive t.bounds vs with
  | none => exact both_of_pending hp
  | some v =>
    simp only [Option.map_some, Option.getD_some]
    have hm := meets_of_decisive hd
    cases ho : t.opened q with
    | error why => simp [visit_of_error hp hm ho, found, Matches.both, Ascending.inter]
    | ok opened =>
      obtain ⟨text, index⟩ := opened
      obtain ⟨trie, htrie, hindex, rfl⟩ := opened_eq_ok ho
      rw [visit_of_open (.inl ⟨hp, ho⟩) hm, h trie index htrie hindex]
      split
      · rw [found_cover]
        exact both_located ..
      · exact both_located ..

/-- All that is ever told of a partition that adds nothing is that it cannot be searched. -/
theorem told_of_barren {q : Query} {t : Target} (hp : t.progress = .pending)
    (h : t.partition.Barren q) (vs : List (Rect Binary64)) :
    (t.visits q vs).1 ++ (t.visits q vs).2.conclude.1 = [] ∨
      ∃ why, (t.visits q vs).1 ++ (t.visits q vs).2.conclude.1 = [.failed t.id why] := by
  rw [visits_eq_visit_decisive hp]
  cases hd : decisive t.bounds vs with
  | none =>
    left
    simp [conclude, report, isFinished, found, hp, Matches.both, Ascending.inter]
  | some v =>
    rw [Option.map_some, Option.getD_some, visit_conclude hp (meets_of_decisive hd)]
    cases ho : t.opened q with
    | error why => exact .inr ⟨why, rfl⟩
    | ok opened =>
      obtain ⟨text, index⟩ := opened
      obtain ⟨trie, htrie, hindex, rfl⟩ := opened_eq_ok ho
      left
      simp [h trie index htrie hindex, report, both_located]

end Target

namespace Search

/-- Something done with a target that concerns this target alone, and not its generation. -/
structure Local (f : Target → List Event × Target) : Prop where
  told {t : Target} {e : Event} : e ∈ (f t).1 → e.id = t.id
  id (t : Target) : (f t).2.id = t.id
  nominal (t : Target) : f t.nominal = ((f t).1.map Event.nominal, (f t).2.nominal)

/-- A visit depends on its own target alone, and on no generation. -/
theorem local_visit (q : Query) (v : Rect Binary64) : Local (·.visit q v) where
  told := Target.visit_id
  id t := by simp [Target.id, Target.visit_registration]
  nominal t := t.visit_nominal q v

theorem local_conclude : Local (·.conclude) where
  told := Target.conclude_id
  id t := by
    unfold Target.conclude Target.close
    split <;> rfl
  nominal := Target.conclude_nominal

/-- The second targets are those of the first that are kept, generations apart. -/
def Kept (keep : PartitionId → Bool) (ts us : List Target) : Prop :=
  (ts.filter (keep ·.id)).map Target.nominal = us.map Target.nominal

section
variable {keep : PartitionId → Bool} {ts us : List Target}

private theorem filter_each (keep : PartitionId → Bool) {f : Target → List Event × Target}
    (hf : Local f) (ts : List Target) :
    (each f ts).1.filter (keep ·.id) = (each f (ts.filter (keep ·.id))).1 ∧
      (each f ts).2.filter (keep ·.id) = (each f (ts.filter (keep ·.id))).2 := by
  induction ts with
  | nil => exact ⟨rfl, rfl⟩
  | cons t ts ih =>
    simp only [each, List.flatMap_cons, List.map_cons, List.filter_append, List.filter_cons,
      hf.id] at ih ⊢
    rw [ih.1, ih.2]
    cases hk : keep t.id with
    | true =>
      have hall : (f t).1.filter (keep ·.id) = (f t).1 :=
        List.filter_eq_self.mpr fun e he => by rw [hf.told he, hk]
      simp [hall]
    | false =>
      have hnone : (f t).1.filter (keep ·.id) = [] :=
        List.filter_eq_nil_iff.mpr fun e he => by simp [hf.told he, hk]
      simp [hnone]

/-- What is done with every target alike does not depend on generations. -/
theorem each_nominal {f : Target → List Event × Target} (hf : Local f) (ts : List Target) :
    each f (ts.map Target.nominal) =
      ((each f ts).1.map Event.nominal, (each f ts).2.map Target.nominal) := by
  simp [each, List.flatMap_map, List.map_flatMap, hf.nominal]

/-- What is done with every target alike tells of those that are kept what it tells without the
others. -/
theorem Kept.each {f : Target → List Event × Target} (hf : Local f) (h : Kept keep ts us) :
    ((Search.each f ts).1.filter (keep ·.id)).map Event.nominal =
        (Search.each f us).1.map Event.nominal ∧
      Kept keep (Search.each f ts).2 (Search.each f us).2 := by
  have hnominal := each_nominal hf (ts.filter (keep ·.id))
  rw [show _ = us.map Target.nominal from h, each_nominal hf us] at hnominal
  obtain ⟨htold, hafter⟩ := filter_each keep hf ts
  rw [Kept, htold, hafter]
  exact ⟨(congrArg Prod.fst hnominal).symm, (congrArg Prod.snd hnominal).symm⟩

private theorem filter_tour (keep : PartitionId → Bool) (q : Query) (vs : List (Rect Binary64))
    (ts : List Target) :
    (tour q ts vs).1.filter (keep ·.id) = (tour q (ts.filter (keep ·.id)) vs).1 ∧
      (tour q ts vs).2.filter (keep ·.id) = (tour q (ts.filter (keep ·.id)) vs).2 := by
  induction vs generalizing ts with
  | nil => exact ⟨rfl, rfl⟩
  | cons v vs ih =>
    obtain ⟨htold, hafter⟩ := filter_each keep (local_visit q v) ts
    simp only [tour, List.filter_append, htold, ih, hafter, and_self]

/-- A tour tells of the targets that are kept what it tells without the others. -/
theorem Kept.tour (q : Query) (vs : List (Rect Binary64)) (h : Kept keep ts us) :
    ((Search.tour q ts vs).1.filter (keep ·.id)).map Event.nominal =
        (Search.tour q us vs).1.map Event.nominal ∧
      Kept keep (Search.tour q ts vs).2 (Search.tour q us vs).2 := by
  induction vs generalizing ts us with
  | nil => exact ⟨rfl, h⟩
  | cons v vs ih =>
    obtain ⟨htold, hafter⟩ := h.each (local_visit q v)
    obtain ⟨hrest, hlast⟩ := ih hafter
    refine ⟨?_, hlast⟩
    simp only [Search.tour, List.filter_append, List.map_append, htold, hrest]

/-- What a search tells of the targets that are kept is what their own visits and ends tell. -/
theorem filter_run (keep : PartitionId → Bool) (s : Search) :
    s.run.1.filter (keep ·.id) =
      (tour s.query (s.targets.filter (keep ·.id)) s.viewports).1 ++
        (each (·.conclude) (tour s.query (s.targets.filter (keep ·.id)) s.viewports).2).1 := by
  obtain ⟨htold, hafter⟩ := filter_tour keep s.query s.viewports s.targets
  rw [(run_eq_tour s).1, List.filter_append, htold, (filter_each keep local_conclude _).1, hafter]

private theorem coversAll_nominal (ts : List Target) :
    coversAll (ts.map Target.nominal) = coversAll ts := by
  rw [coversAll, List.all_map]
  rfl

theorem count_nominal (ts : List Target) : count (ts.map Target.nominal) = count ts := by
  rw [count, List.flatMap_map]
  rfl

private theorem Kept.coversAll (h : Kept keep ts us) (hts : Search.coversAll ts = true) :
    Search.coversAll us = true := by
  rw [← coversAll_nominal us, ← show _ = us.map Target.nominal from h, coversAll_nominal]
  exact List.all_eq_true.mpr fun t ht => List.all_eq_true.mp hts t (List.mem_of_mem_filter ht)

/-- Targets in which nothing is found do not count. -/
theorem Kept.count (h : Kept keep ts us)
    (hothers : ∀ t ∈ ts, keep t.id = false → t.found.both = []) :
    Search.count ts = Search.count us := by
  rw [← count_nominal us, ← show _ = us.map Target.nominal from h, count_nominal]
  have hkept (ts : List Target) (hothers : ∀ t ∈ ts, keep t.id = false → t.found.both = []) :
      (ts.filter (keep ·.id)).flatMap (·.found.both) = ts.flatMap (·.found.both) := by
    induction ts with
    | nil => rfl
    | cons t ts ih =>
      obtain ⟨ht, hts⟩ := List.forall_mem_cons.mp hothers
      rw [List.filter_cons, List.flatMap_cons]
      split
      · rw [List.flatMap_cons, ih hts]
      · next hk => rw [ih hts, ht (by simpa using hk), List.nil_append]
  rw [Search.count, Search.count, hkept ts hothers]

private theorem isFinished_of_coversAll (h : Search.coversAll ts = true) :
    ∀ t ∈ ts, t.isFinished = true := by
  intro t ht
  have := List.all_eq_true.mp h t ht
  revert this
  simp only [Target.isCovered, Target.isFailed, Target.isFinished]
  cases t.progress <;> simp

/-- What a search tells of the partitions that are kept is what the search of these alone tells, if
no number of features is enough or the others are barren. -/
theorem told_kept (keep : PartitionId → Bool) {s : Search} (h : Kept keep s.targets us)
    (hothers : s.limits.enough = none ∨
      ∀ t ∈ s.targets, keep t.id = false → t.Barren s.query) :
    (s.run.1.filter (keep ·.id)).map Event.nominal =
      { s with targets := us }.run.1.map Event.nominal := by
  let Related (ts us : List Target) : Prop :=
    Kept keep ts us ∧ (s.limits.enough = none ∨ ∀ t ∈ ts, keep t.id = false → t.Barren s.query)
  have hvisit {v : Rect Binary64} {ts us : List Target} (hr : Related ts us) :
      Related ((survey s.query).visit v ts).2 ((survey s.query).visit v us).2 := by
    refine ⟨(hr.1.each (local_visit s.query v)).2, hr.2.imp_right fun hb t ht hk => ?_⟩
    obtain ⟨u, hu, rfl⟩ := List.mem_map.mp ht
    rw [(local_visit s.query v).id u] at hk
    exact (hb u hu hk).visit v
  have hfound {ts us : List Target} (hr : Related ts us) :
      s.limits.enough.any (·.toNat ≤ count ts) = s.limits.enough.any (·.toNat ≤ count us) := by
    rcases hr.2 with hnone | hb
    · simp [hnone]
    · rw [hr.1.count fun t ht hk => hb t ht hk []]
  obtain ⟨more, hmore, hlast⟩ := viewports_of_related s.limits Related hvisit
    (fun hr => hr.1.coversAll) (fun hr _ => hfound hr) s.viewport (roundLimit + 1)
    ((1 : Nat) : Binary64) none ⟨h, hothers⟩
  let u : Search := { s with targets := us }
  have hviewports : s.viewports = u.viewports ++ more := hmore
  -- The viewports that only the larger search goes through add nothing to the smaller one.
  have htour : tour s.query us (u.viewports ++ more) = tour s.query us u.viewports := by
    rcases hlast with rfl | hlast
    · rw [List.append_nil]
    · have hstate : (tour s.query us u.viewports).2 = stateAfter us u.expansion.1 :=
        congrArg Prod.snd (tour_of_chain (Survey.chain_expandFrom ..))
      have hdone : ∀ t ∈ (tour s.query us u.viewports).2, t.isFinished = true :=
        hstate ▸ isFinished_of_coversAll hlast
      rw [tour_append, tour_of_isFinished hdone, List.append_nil]
  obtain ⟨htold, hafter⟩ := h.tour s.query s.viewports
  obtain ⟨hend, -⟩ := hafter.each local_conclude
  rw [(run_eq_tour s).1, (run_eq_tour u).1, List.filter_append, List.map_append, List.map_append,
    htold, hend, hviewports, htour]

end

variable {c c' : Catalog} {viewport : Rect Binary64} {q : Query} {limits : Limits Binary64}

/-- Whether a registration is searched does not depend on its generation. -/
theorem map_nominal_pending (rs : List Registration) :
    ((rs.filter fun r => r.partition.hasSection Partition.textTag &&
        r.partition.hasSection Partition.placeTag).map (⟨·, .pending⟩)).map Target.nominal =
      ((rs.map Registration.nominal).filter fun r => r.partition.hasSection Partition.textTag &&
        r.partition.hasSection Partition.placeTag).map (⟨·, .pending⟩) := by
  rw [List.filter_map, List.map_map, List.map_map]
  rfl

private theorem kept_start (hc : c.Reached) (hc' : c'.Reached) {keep : PartitionId → Bool}
    (h : (c.registrations.filter (keep ·.id)).map Registration.nominal =
      c'.registrations.map Registration.nominal) :
    Kept keep (start c.source viewport q limits).targets
      (start c'.source viewport q limits).targets := by
  let hasIndexes (r : Registration) : Bool :=
    r.partition.hasSection Partition.textTag && r.partition.hasSection Partition.placeTag
  let pending (r : Registration) : Target := ⟨r, .pending⟩
  have hkeep : (((c.registrations.filter hasIndexes).map pending).filter (keep ·.id)) =
      ((c.registrations.filter (keep ·.id)).filter hasIndexes).map pending := by
    rw [List.filter_map, List.filter_filter, List.filter_filter]
    exact congrArg (List.map pending) (List.filter_congr fun _ _ => Bool.and_comm ..)
  rw [Kept, targets_start hc, targets_start hc', hkeep, map_nominal_pending, map_nominal_pending, h]

/-- If no number of features is enough, then what a search tells of a partition is what the search
of this partition alone tells, whatever else there is to search. -/
theorem told_eq_alone (hc : c.Reached) {r : Registration} (hr : r ∈ c.registrations)
    (viewport : Rect Binary64) (q : Query) {limits : Limits Binary64}
    (hlimits : limits.enough = none) :
    let alone := (Catalog.empty.register r.partition).2.2
    ((start c.source viewport q limits).run.1.filter (·.id = r.id)).map Event.nominal =
      (start alone.source viewport q limits).run.1.map Event.nominal := by
  intro alone
  have hkept : (c.registrations.filter (·.id = r.id)).map Registration.nominal =
      alone.registrations.map Registration.nominal := by
    rw [Catalog.filter_id (Catalog.ids_nodup hc.names_nodup) hr]
    change [(⟨⟨r.id.name, 0⟩, r.partition⟩ : Registration)] = [⟨⟨r.partition.name, 0⟩, r.partition⟩]
    rw [hc.name_eq r hr]
  exact told_kept (fun i => i = r.id) (kept_start hc (.register _ .empty) hkept) (.inl hlimits)

/-- A harbour on the other side of the world. -/
def harbour : Partition :=
  { inn with name := "Port", header := { inn.header with bounds := ⟨⟨100, 100⟩, ⟨100, 100⟩⟩ } }

/-- The harbour keeps the search going after the inn is covered. -/
theorem told_inn_alone :
    let both := Catalog.empty.registerAll [harbour, inn]
    let alone := (Catalog.empty.register inn).2.2
    let viewport : Rect Binary64 := .ofCorners ⟨0, -4⟩ ⟨2, 1⟩
    let q : Query := { words := [["i"]], scale := 1 }
    both.Reached ∧ ⟨⟨"Town", 2⟩, inn⟩ ∈ both.registrations ∧
      (start alone.source viewport q {}).viewports.length <
        (start both.source viewport q {}).viewports.length ∧
      ((start both.source viewport q {}).run.1.filter (·.id = ⟨"Town", 2⟩)).map Event.nominal =
        [.reported ⟨"Town", 0⟩ [0]] := by
  intro both alone viewport q
  have hboth : both.Reached := .register inn (.register harbour .empty)
  have hinn : ⟨⟨"Town", 2⟩, inn⟩ ∈ both.registrations := by decide +kernel
  have hrun : (start alone.source viewport q {}).run.1 = [.reported ⟨"Town", 1⟩ [0]] := by
    decide +kernel
  refine ⟨hboth, hinn, by decide +kernel, ?_⟩
  rw [told_eq_alone hboth hinn viewport q rfl, hrun]
  rfl

/-- A partition that adds nothing to what the query finds, put anywhere among others, leaves all
that is told of these as it is, in the same order, whatever the limits are. Of this partition itself
it is told at most that it cannot be searched. -/
theorem told_others_of_barren {before after before' after' : List Registration} {r : Registration}
    (hc : c.Reached) (hc' : c'.Reached) (hregistrations : c.registrations = before ++ after)
    (hmore : c'.registrations = before' ++ r :: after')
    (hbefore : before'.map Registration.nominal = before.map Registration.nominal)
    (hafter : after'.map Registration.nominal = after.map Registration.nominal)
    (viewport : Rect Binary64) {q : Query} (hr : r.partition.Barren q) (limits : Limits Binary64) :
    let events := (start c'.source viewport q limits).run.1
    (events.filter (·.id ≠ r.id)).map Event.nominal =
        (start c.source viewport q limits).run.1.map Event.nominal ∧
      (events.filter (·.id = r.id) = [] ∨
        ∃ why, events.filter (·.id = r.id) = [.failed r.id why]) := by
  intro events
  have hids := Catalog.ids_nodup hc'.names_nodup
  have hr' : r ∈ c'.registrations := hmore ▸ List.mem_append_right before' List.mem_cons_self
  let s := start c'.source viewport q limits
  have htarget {t : Target} (ht : t ∈ s.targets) (hid : t.id = r.id) : t = ⟨r, .pending⟩ := by
    rw [targets_start hc'] at ht
    obtain ⟨r', hr'', rfl⟩ := List.mem_map.mp ht
    rw [List.inj_on_of_nodup_map hids (List.mem_of_mem_filter hr'') hr' hid]
  have hbarren {t : Target} (ht : t ∈ s.targets) (hid : t.id = r.id) : t.Barren q := by
    rw [htarget ht hid]
    exact Target.barren_of_partition rfl hr
  constructor
  · refine told_kept (fun i => i ≠ r.id) (kept_start hc' hc ?_) (.inr ?_)
    · obtain ⟨hb, ha⟩ := List.forall_mem_append.mp (Catalog.ids_ne hids hmore)
      rw [hmore, hregistrations, List.filter_append, List.filter_cons_of_neg (by simp),
        List.filter_eq_self.mpr (by simpa using hb), List.filter_eq_self.mpr (by simpa using ha),
        List.map_append, hbefore, hafter, List.map_append]
    · exact fun t ht hkeep => hbarren ht (by simpa using hkeep)
  · by_cases ht : ∃ t ∈ s.targets, t.id = r.id
    · obtain ⟨t, ht, hid⟩ := ht
      have htold : s.told t = (t.visits q s.viewports).1 ++ (t.visits q s.viewports).2.conclude.1 :=
        told_eq (isFinished_start ht) (ids_nodup_start hc' viewport q limits) ht
      rw [told, hid] at htold
      change events.filter (·.id = r.id) = _ at htold
      rw [htold, ← hid]
      exact Target.told_of_barren (pending_start ht) (htarget ht hid ▸ hr) s.viewports
    · left
      have hnone : s.targets.filter (·.id = r.id) = [] :=
        List.filter_eq_nil_iff.mpr fun t htm hid => ht ⟨t, htm, of_decide_eq_true hid⟩
      rw [filter_run (fun i => i = r.id) s, hnone, tour_of_isFinished (by simp)]
      rfl

/-- The inn in ruins: its text index cannot be read. -/
def ruin : Partition :=
  { inn with name := "Ruin", sections := inn.sections.map fun (tag, bytes) =>
      (tag, if tag = Partition.textTag then [193] else bytes) }

/-- The ruin stands between the inn and the harbour, and one feature is enough. -/
theorem told_beside_ruin :
    let two := Catalog.empty.registerAll [inn, harbour]
    let three := Catalog.empty.registerAll [inn, ruin, harbour]
    let viewport : Rect Binary64 := .ofCorners ⟨0, -4⟩ ⟨2, 1⟩
    let q : Query := { words := [["i"]], scale := 1 }
    let limits : Limits Binary64 := { enough := some 1 }
    let events := (start three.source viewport q limits).run.1
    ruin.Barren q ∧
      (events.filter (·.id ≠ ⟨"Ruin", 2⟩)).map Event.nominal =
        (start two.source viewport q limits).run.1.map Event.nominal ∧
      (events.filter (·.id = ⟨"Ruin", 2⟩) = [] ∨
        ∃ why, events.filter (·.id = ⟨"Ruin", 2⟩) = [.failed ⟨"Ruin", 2⟩ why]) ∧
      events = [.reported ⟨"Town", 1⟩ [0],
        .failed ⟨"Ruin", 2⟩ (.text (.textIndex .unreadable))] := by
  intro two three viewport q limits events
  have htext : ruin.textIndex = .error (.textIndex .unreadable) := by decide +kernel
  have hruin : ruin.Barren q := fun trie _ htrie _ => nomatch htext.symm.trans htrie
  have htwo : two.Reached := .register harbour (.register inn .empty)
  have hthree : three.Reached := .register harbour (.register ruin (.register inn .empty))
  have hregistrations : two.registrations =
      [⟨⟨"Town", 1⟩, inn⟩] ++ [⟨⟨"Port", 2⟩, harbour⟩] := by decide +kernel
  have hmore : three.registrations =
      [⟨⟨"Town", 1⟩, inn⟩] ++ ⟨⟨"Ruin", 2⟩, ruin⟩ :: [⟨⟨"Port", 3⟩, harbour⟩] := by decide +kernel
  obtain ⟨hothers, hown⟩ :=
    told_others_of_barren htwo hthree hregistrations hmore rfl rfl viewport hruin limits
  exact ⟨hruin, hothers, hown, by decide +kernel⟩

end Search
end Gazetteer
