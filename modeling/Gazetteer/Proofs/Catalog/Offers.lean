import Gazetteer.Proofs.Catalog.Versions

/-! Partitions offered to a catalog, one after another. What comes of an offer depends on the
versions offered under its name before: the catalog has the first of the greatest version, and an
offer that is not greater leaves the catalog as it is. -/
namespace Gazetteer

namespace Partition
variable {p q : Partition} {ps : List Partition} {name : String}

/-- The partition is there, those of its name before it are older, and those after it no newer. -/
def IsNewest (p : Partition) (ps : List Partition) : Prop :=
  ∃ before after, ps = before ++ p :: after ∧
    (∀ q ∈ before, q.name = p.name → q.header.version < p.header.version) ∧
    ∀ q ∈ after, q.name = p.name → q.header.version ≤ p.header.version

private theorem IsNewest.mem (h : p.IsNewest ps) : p ∈ ps := by
  obtain ⟨before, after, rfl, -, -⟩ := h
  exact List.mem_append_right _ (.head _)

private theorem IsNewest.le (h : p.IsNewest ps) (hq : q ∈ ps) (hname : q.name = p.name) :
    q.header.version ≤ p.header.version := by
  obtain ⟨before, after, rfl, hbefore, hafter⟩ := h
  rcases List.mem_append.mp hq with hq | hq
  · exact UInt64.le_of_lt (hbefore q hq hname)
  rcases List.mem_cons.mp hq with rfl | hq
  · exact UInt64.le_refl _
  · exact hafter q hq hname

/-- A newest partition stays so unless a newer one of its name comes. -/
theorem IsNewest.append_singleton (h : p.IsNewest ps)
    (hq : q.name = p.name → q.header.version ≤ p.header.version) : p.IsNewest (ps ++ [q]) := by
  obtain ⟨before, after, rfl, hbefore, hafter⟩ := h
  refine ⟨before, after ++ [q], by simp, hbefore, fun r hr hname => ?_⟩
  rcases List.mem_append.mp hr with hr | hr
  · exact hafter r hr hname
  · obtain rfl := List.mem_singleton.mp hr
    exact hq hname

private theorem newest_eq_none_iff : newest name ps = none ↔ ∀ q ∈ ps, q.name ≠ name := by
  simp [newest, named]

private theorem isNewest_of_newest (h : newest name ps = some p) :
    p.name = name ∧ p.IsNewest ps := by
  induction ps using List.reverseRecOn generalizing p with
  | nil => cases h
  | append_singleton ps last ih =>
    rw [newest_append_singleton] at h
    split at h
    · next hnewer =>
      obtain ⟨hname, hnewer⟩ := hnewer
      cases h
      refine ⟨hname, ps, [], rfl, fun q hq hqname => ?_, nofun⟩
      cases hbest : newest name ps with
      | none => exact absurd (hqname.trans hname) (newest_eq_none_iff.mp hbest q hq)
      | some best =>
        obtain ⟨hbestname, hbest'⟩ := ih hbest
        have hle := hbest'.le hq ((hqname.trans hname).trans hbestname.symm)
        exact UInt64.lt_of_le_of_lt hle (hnewer best hbest)
    · next hnot =>
      obtain ⟨hname, hp⟩ := ih h
      refine ⟨hname, hp.append_singleton fun hsame => ?_⟩
      by_contra hlt
      refine hnot ⟨hsame.trans hname, fun q hq => ?_⟩
      cases h.symm.trans hq
      exact UInt64.not_le.mp hlt

end Partition

namespace Catalog
open Gazetteer.Partition

variable {ps : List Partition} {p : Partition}

/-- When an offer comes to an outcome, by the versions offered under its name before. -/
def Outcome.Due (ps : List Partition) (p : Partition) : Outcome → Prop
  | .added => ∀ q ∈ ps, q.name = p.name → q.header.version < p.header.version
  | .present =>
    (∃ q ∈ ps, q.name = p.name ∧ q.header.version = p.header.version) ∧
      ∀ q ∈ ps, q.name = p.name → q.header.version ≤ p.header.version
  | .outdated => ∃ q ∈ ps, q.name = p.name ∧ p.header.version < q.header.version

/-- No two outcomes are due at once. -/
theorem Outcome.Due.unique {o o' : Outcome} (h : o.Due ps p) (h' : o'.Due ps p) : o = o' := by
  have hadded {q : Partition} (hall : Outcome.added.Due ps p) (hq : q ∈ ps) (hname : q.name = p.name)
      (hle : p.header.version ≤ q.header.version) : False :=
    UInt64.not_lt.mpr hle (hall q hq hname)
  have hpresent {q : Partition} (hsome : Outcome.present.Due ps p) (hq : q ∈ ps)
      (hname : q.name = p.name) (hlt : p.header.version < q.header.version) : False :=
    UInt64.not_lt.mpr (hsome.2 q hq hname) hlt
  cases o with
  | added =>
    cases o' with
    | added => rfl
    | present =>
      obtain ⟨⟨q, hq, hname, heq⟩, -⟩ := h'
      exact (hadded h hq hname (heq ▸ UInt64.le_refl _)).elim
    | outdated =>
      obtain ⟨q, hq, hname, hlt⟩ := h'
      exact (hadded h hq hname (UInt64.le_of_lt hlt)).elim
  | present =>
    cases o' with
    | added =>
      obtain ⟨⟨q, hq, hname, heq⟩, -⟩ := h
      exact (hadded h' hq hname (heq ▸ UInt64.le_refl _)).elim
    | present => rfl
    | outdated =>
      obtain ⟨q, hq, hname, hlt⟩ := h'
      exact (hpresent h hq hname hlt).elim
  | outdated =>
    obtain ⟨q, hq, hname, hlt⟩ := h
    cases o' with
    | added => exact (hadded h' hq hname (UInt64.le_of_lt hlt)).elim
    | present => exact (hpresent h' hq hname hlt).elim
    | outdated => rfl

/-- The registration under a name is of the newest partition offered under it. -/
theorem isNewest_of_named? {name : String} {r : Registration}
    (h : (empty.registerAll ps).named? name = some r) :
    r.partition.name = name ∧ r.partition.IsNewest ps := by
  apply isNewest_of_newest
  rw [← partition?_registerAll, partition?, h]
  rfl

/-- An offer comes to what is due. -/
theorem due_register (ps : List Partition) (p : Partition) :
    ((empty.registerAll ps).register p).1.Due ps p := by
  rcases (empty.registerAll ps).register_spec p with ⟨hnamed, h⟩ | ⟨r, hnamed, hr⟩
  · have hnone : newest p.name ps = none := by
      rw [← partition?_registerAll, partition?, hnamed]
      rfl
    rw [h]
    exact fun q hq hname => absurd hname (newest_eq_none_iff.mp hnone q hq)
  · obtain ⟨hname, hnewest⟩ := isNewest_of_named? hnamed
    have hle {q : Partition} (hq : q ∈ ps) (hqname : q.name = p.name) :
        q.header.version ≤ r.partition.header.version :=
      hnewest.le hq (hqname.trans hname.symm)
    rcases hr with ⟨hnewer, h⟩ | ⟨hsame, h⟩ | ⟨holder, h⟩ <;> rw [h]
    · exact fun q hq hqname => UInt64.lt_of_le_of_lt (hle hq hqname) hnewer
    · exact ⟨⟨r.partition, hnewest.mem, hname, hsame.symm⟩, fun q hq hqname => hsame ▸ hle hq hqname⟩
    · exact ⟨r.partition, hnewest.mem, hname, holder⟩

private theorem fst_register_eq_iff (ps : List Partition) (p : Partition) (o : Outcome) :
    ((empty.registerAll ps).register p).1 = o ↔ o.Due ps p :=
  ⟨fun h => h ▸ due_register ps p, fun h => (due_register ps p).unique h⟩

private theorem mem_place_self (r : Registration) (rs : List Registration) : r ∈ place r rs :=
  List.mem_of_find?_eq_some ((find?_place r rs r.id.name).trans (if_pos rfl))

section
variable {c : Catalog}

private theorem live_of_added (h : (c.register p).1 = .added) :
    ∃ r ∈ (c.register p).2.2.registrations, r.partition = p ∧ (c.register p).2.1 = .live r := by
  rcases c.register_cases p with ⟨hnot, -⟩ | he
  · exact absurd h hnot
  · rw [he]
    exact ⟨(c.add p).1, mem_place_self _ _, rfl, rfl⟩

private theorem live_of_present (h : (c.register p).1 = .present) :
    ∃ r ∈ c.registrations, r.id.name = p.name ∧ (c.register p).2.1 = .live r := by
  rcases c.register_spec p with ⟨-, he⟩ | ⟨r, hnamed, ⟨-, he⟩ | ⟨-, he⟩ | ⟨-, he⟩⟩ <;> rw [he] at h ⊢
  · cases h
  · cases h
  · obtain ⟨hmem, hname⟩ := mem_of_named? hnamed
    exact ⟨r, hmem, hname, rfl⟩
  · cases h

private theorem isLive_of_outdated (h : (c.register p).1 = .outdated) :
    (c.register p).2.1.isLive = false := by
  rcases c.register_spec p with ⟨-, he⟩ | ⟨r, -, ⟨-, he⟩ | ⟨-, he⟩ | ⟨-, he⟩⟩ <;> rw [he] at h ⊢
  · cases h
  · cases h
  · cases h
  · rfl

private theorem register_of_ne_added (h : (c.register p).1 ≠ .added) : (c.register p).2.2 = c := by
  rcases c.register_cases p with ⟨-, hkept⟩ | he
  · exact hkept
  · exact absurd (by rw [he]) h

end

/-- The rules of versions, after any offers to the empty catalog and for one more. The names are in
the order of their first offers, and each has the first partition of the greatest version offered
under it. An offer is added exactly if its version exceeds all those offered under its name before;
it is present exactly if it equals the greatest of them, and then the handle is the registered one;
it is outdated exactly if a greater one was offered, and then the handle is dead. Unless it is added
the catalog stays as it is, with the latest generation. -/
theorem versions_of_offers (ps : List Partition) :
    let c := empty.registerAll ps
    c.ids.map (·.name) = (ps.map (·.name)).eraseDups ∧
      (∀ r ∈ c.registrations, r.partition.name = r.id.name ∧
        ∃ before after, ps = before ++ r.partition :: after ∧
          (∀ q ∈ before, q.name = r.id.name →
            q.header.version < r.partition.header.version) ∧
          ∀ q ∈ after, q.name = r.id.name → q.header.version ≤ r.partition.header.version) ∧
      ∀ p : Partition,
        ((c.register p).1 = .added ↔
          ∀ q ∈ ps, q.name = p.name → q.header.version < p.header.version) ∧
        ((c.register p).1 = .present ↔
          (∃ q ∈ ps, q.name = p.name ∧ q.header.version = p.header.version) ∧
            ∀ q ∈ ps, q.name = p.name → q.header.version ≤ p.header.version) ∧
        ((c.register p).1 = .outdated ↔
          ∃ q ∈ ps, q.name = p.name ∧ p.header.version < q.header.version) ∧
        ((c.register p).1 = .added →
          ∃ r ∈ (c.register p).2.2.registrations, r.partition = p ∧ (c.register p).2.1 = .live r) ∧
        ((c.register p).1 = .present →
          ∃ r ∈ c.registrations, r.id.name = p.name ∧ (c.register p).2.1 = .live r) ∧
        ((c.register p).1 = .outdated → (c.register p).2.1.isLive = false) ∧
        ((c.register p).1 ≠ .added → (c.register p).2.2 = c) := by
  intro c
  have hreached : c.Reached := Reached.empty.registerAll ps
  refine ⟨?_, fun r hr => ?_, fun p => ?_⟩
  · rw [ids, List.map_map]
    exact names_registerAll ps
  · obtain ⟨hname, before, after, hsplit, hbefore, hafter⟩ :=
      isNewest_of_named? (named?_of_mem hreached.names_nodup hr)
    rw [hname] at hbefore hafter
    exact ⟨hname, before, after, hsplit, hbefore, hafter⟩
  · exact ⟨fst_register_eq_iff ps p .added, fst_register_eq_iff ps p .present,
      fst_register_eq_iff ps p .outdated, live_of_added, live_of_present, isLive_of_outdated,
      register_of_ne_added⟩

end Catalog
end Gazetteer
