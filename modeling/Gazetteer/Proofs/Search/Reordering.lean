import Gazetteer.Proofs.Search.Independence

/-! Searches of the same partitions in another order. Every decision of a search is about all of its
targets together, so their order is only seen in the order of what is told. -/
namespace Gazetteer

namespace Catalog

private theorem place_of_new {r : Registration} {rs : List Registration}
    (h : r.id.name ∉ rs.map (·.id.name)) : place r rs = rs ++ [r] := by
  induction rs with
  | nil => rfl
  | cons s rs ih =>
    rw [List.map_cons, List.mem_cons, not_or] at h
    rw [place, if_neg (Ne.symm h.1), ih h.2, List.cons_append]

/-- A partition with a new name comes last. -/
theorem registrations_register_of_new {c : Catalog} {p : Partition} (h : p.name ∉ c.names) :
    (c.register p).2.2.registrations = c.registrations ++ [⟨⟨p.name, c.issued + 1⟩, p⟩] := by
  have hnone : c.named? p.name = none := by
    refine List.find?_eq_none.mpr fun r hr hname => h ?_
    exact of_decide_eq_true hname ▸ List.mem_map_of_mem hr
  simp only [register, hnone]
  exact place_of_new h

/-- Partitions with names of their own are registered in their order. -/
theorem registrations_registerAll {c : Catalog} {ps : List Partition}
    (hn : (c.names ++ ps.map (·.name)).Nodup) :
    (c.registerAll ps).registrations.map Registration.nominal =
      c.registrations.map Registration.nominal ++ ps.map fun p => ⟨⟨p.name, 0⟩, p⟩ := by
  induction ps generalizing c with
  | nil => simp [registerAll]
  | cons p ps ih =>
    have hnew : p.name ∉ c.names := fun hp =>
      (List.nodup_append.mp hn).2.2 _ hp _ (List.mem_cons_self ..) rfl
    have hregister := registrations_register_of_new hnew
    have hnames : (c.register p).2.2.names = c.names ++ [p.name] := by
      simp [names, hregister]
    have hrest := ih (c := (c.register p).2.2) (by
      rw [hnames, List.append_assoc]
      exact hn)
    rw [registerAll, List.foldl_cons]
    refine hrest.trans ?_
    simp [hregister, Registration.nominal, PartitionId.nominal]

end Catalog

namespace Search

/-- The same targets in some order, generations apart. -/
def Reordered (ts us : List Target) : Prop := (ts.map Target.nominal).Perm (us.map Target.nominal)

namespace Reordered
variable {ts us : List Target}

private theorem symm (h : Reordered ts us) : Reordered us ts := List.Perm.symm h

/-- What is done with every target alike tells the same of reordered targets, and leaves them
reordered. -/
theorem each {f : Target → List Event × Target} (hf : Local f) (h : Reordered ts us) :
    ((Search.each f ts).1.map Event.nominal).Perm ((Search.each f us).1.map Event.nominal) ∧
      Reordered (Search.each f ts).2 (Search.each f us).2 := by
  have hts := each_nominal hf ts
  have hus := each_nominal hf us
  obtain ⟨hts, hts'⟩ := Prod.mk.inj hts
  obtain ⟨hus, hus'⟩ := Prod.mk.inj hus
  rw [Reordered, ← hts, ← hts', ← hus, ← hus']
  exact ⟨List.Perm.flatMap_right _ h, List.Perm.map _ h⟩

/-- A tour tells the same of reordered targets, and leaves them reordered. -/
theorem tour (q : Query) (vs : List (Rect Binary64)) (h : Reordered ts us) :
    ((Search.tour q ts vs).1.map Event.nominal).Perm
        ((Search.tour q us vs).1.map Event.nominal) ∧
      Reordered (Search.tour q ts vs).2 (Search.tour q us vs).2 := by
  induction vs generalizing ts us with
  | nil => exact ⟨.refl _, h⟩
  | cons v vs ih =>
    obtain ⟨htold, hafter⟩ := h.each (local_visit q v)
    obtain ⟨hrest, hlast⟩ := ih hafter
    refine ⟨?_, hlast⟩
    simp only [Search.tour, List.map_append]
    exact htold.append hrest

/-- What is asked of each target, whatever its generation, holds of all of them in any order. -/
theorem all (h : Reordered ts us) {p : Target → Bool} (hp : ∀ t, p t.nominal = p t) :
    ts.all p = us.all p := by
  have hall (vs : List Target) : (vs.map Target.nominal).all p = vs.all p := by
    rw [List.all_map]
    exact congrArg (vs.all ·) (funext hp)
  rw [← hall ts, ← hall us]
  exact List.Perm.all_eq h

private theorem count (h : Reordered ts us) : Search.count ts = Search.count us := by
  rw [← count_nominal ts, ← count_nominal us]
  exact (List.Perm.flatMap_right _ h).length_eq

end Reordered

private theorem viewports_of_reordered {s : Search} {us : List Target}
    (h : Reordered s.targets us) : s.viewports = { s with targets := us }.viewports := by
  have hrelated {ts us : List Target} (h : Reordered ts us) :=
    viewports_of_related (A := survey s.query) (B := survey s.query) s.limits Reordered
      (fun hr => (hr.each (local_visit s.query _)).2)
      (fun hr hcovered => (hr.all fun _ => rfl).symm.trans hcovered)
      (fun hr _ => congrArg (fun n => s.limits.enough.any (·.toNat ≤ n)) hr.count)
      s.viewport (roundLimit + 1) ((1 : Nat) : Binary64) none h
  obtain ⟨more, hmore, -⟩ := hrelated h
  obtain ⟨more', hmore', -⟩ := hrelated h.symm
  -- Each goes through the viewports of the other and perhaps more, so neither through more.
  have hlength := congrArg List.length hmore
  have hlength' := congrArg List.length hmore'
  rw [List.length_append] at hlength hlength'
  have hnil : more = [] := List.eq_nil_of_length_eq_zero (by omega)
  rw [hnil, List.append_nil] at hmore
  exact hmore

private theorem run_of_reordered {s : Search} {us : List Target} (h : Reordered s.targets us) :
    (s.run.1.map Event.nominal).Perm ({ s with targets := us }.run.1.map Event.nominal) := by
  rw [(run_eq_tour s).1, (run_eq_tour { s with targets := us }).1, ← viewports_of_reordered h,
    List.map_append, List.map_append]
  obtain ⟨htold, hafter⟩ := h.tour s.query s.viewports
  exact htold.append (hafter.each local_conclude).1

private theorem reordered_start {c c' : Catalog} (hc : c.Reached) (hc' : c'.Reached)
    (h : (c.registrations.map Registration.nominal).Perm
      (c'.registrations.map Registration.nominal)) (viewport : Rect Binary64) (q : Query)
    (limits : Limits Binary64) :
    Reordered (start c.source viewport q limits).targets
      (start c'.source viewport q limits).targets := by
  rw [Reordered, targets_start hc, targets_start hc', map_nominal_pending, map_nominal_pending]
  exact (h.filter _).map _

/-- In whichever order partitions with names of their own are registered, a search goes through the
same viewports, and tells the same of each of them, be it in another order. -/
theorem run_perm_of_perm {ps ps' : List Partition} (hn : (ps.map (·.name)).Nodup)
    (h : ps.Perm ps') (viewport : Rect Binary64) (q : Query) (limits : Limits Binary64) :
    let s := start (Catalog.empty.registerAll ps).source viewport q limits
    let s' := start (Catalog.empty.registerAll ps').source viewport q limits
    s.isFinished = s'.isFinished ∧ s.viewports = s'.viewports ∧
      (s.run.1.map Event.nominal).Perm (s'.run.1.map Event.nominal) := by
  intro s s'
  have hregistrations : ((Catalog.empty.registerAll ps).registrations.map Registration.nominal).Perm
      ((Catalog.empty.registerAll ps').registrations.map Registration.nominal) := by
    have hn' : (ps'.map (·.name)).Nodup := (h.map _).nodup_iff.mp hn
    rw [Catalog.registrations_registerAll (c := .empty) hn,
      Catalog.registrations_registerAll (c := .empty) hn']
    exact (h.map _).append_left _
  have hreordered : Reordered s.targets s'.targets :=
    reordered_start (Catalog.Reached.empty.registerAll ps) (Catalog.Reached.empty.registerAll ps')
      hregistrations viewport q limits
  exact ⟨hreordered.all fun _ => rfl, viewports_of_reordered hreordered, run_of_reordered hreordered⟩

/-- The inn and the ruin in both orders, where one feature is enough. -/
theorem run_perm_inn_ruin :
    let viewport : Rect Binary64 := .ofCorners ⟨0, -4⟩ ⟨2, 1⟩
    let q : Query := { words := [["i"]], scale := 1 }
    let limits : Limits Binary64 := { enough := some 1 }
    let s := start (Catalog.empty.registerAll [inn, ruin]).source viewport q limits
    let s' := start (Catalog.empty.registerAll [ruin, inn]).source viewport q limits
    s.viewports = s'.viewports ∧ (s.run.1.map Event.nominal).Perm (s'.run.1.map Event.nominal) ∧
      s.run.1 = [.reported ⟨"Town", 1⟩ [0], .failed ⟨"Ruin", 2⟩ (.text (.textIndex .unreadable))] ∧
      s'.run.1 =
        [.failed ⟨"Ruin", 1⟩ (.text (.textIndex .unreadable)), .reported ⟨"Town", 2⟩ [0]] := by
  intro viewport q limits s s'
  have hn : ([inn, ruin].map (·.name)).Nodup := by decide
  obtain ⟨-, hviewports, hperm⟩ := run_perm_of_perm hn (.swap ruin inn []) viewport q limits
  exact ⟨hviewports, hperm, by decide +kernel, by decide +kernel⟩

end Search
end Gazetteer
