import Gazetteer.Proofs.Catalog.Identity
import Mathlib.Data.List.MinMax

/-! Which partition a name comes to have. Of all that are registered under it, one after another, it
is the first among those of the greatest version; and the names are in the order of their first
partitions. -/
namespace Gazetteer

namespace Partition
variable {p : Partition} {ps : List Partition} {name : String}

def named (name : String) (ps : List Partition) : List Partition := ps.filter (·.name = name)

/-- The first of the greatest version among the partitions with a name. -/
def newest (name : String) (ps : List Partition) : Option Partition :=
  (named name ps).argmax (·.header.version.toNat)

def latest (name : String) (ps : List Partition) : Option Partition := (named name ps).getLast?

/-- The names of partitions in the order of their first occurrence. -/
def namesOf (ps : List Partition) : List String := (ps.map (·.name)).eraseDups

private theorem mem_named : p ∈ named name ps ↔ p ∈ ps ∧ p.name = name := by simp [named]

theorem named_append_of_eq (h : p.name = name) : named name (ps ++ [p]) = named name ps ++ [p] := by
  simp [named, h]

theorem named_append_of_ne (h : p.name ≠ name) : named name (ps ++ [p]) = named name ps := by
  simp [named, h]

/-- One more partition is the newest of its name if it is the first, or newer than the one so
far. -/
theorem newest_append_singleton (name : String) (ps : List Partition) (p : Partition) :
    newest name (ps ++ [p]) =
      if p.name = name ∧ ∀ q ∈ newest name ps, q.header.version < p.header.version then some p
      else newest name ps := by
  by_cases hname : p.name = name
  · rw [newest, newest, named_append_of_eq hname, List.argmax_concat]
    cases (named name ps).argmax (·.header.version.toNat) with
    | none => simp [hname]
    | some q => simp [hname, UInt64.lt_iff_toNat_lt]
  · rw [if_neg fun h => hname h.1, newest, newest, named_append_of_ne hname]

theorem mem_of_mem_latest (h : p ∈ latest name ps) : p ∈ ps ∧ p.name = name :=
  mem_named.mp (List.mem_of_getLast? h)

private theorem mem_namesOf : name ∈ namesOf ps ↔ ∃ p ∈ ps, p.name = name := by simp [namesOf]

private theorem named_ne_nil_of_mem (h : name ∈ namesOf ps) : named name ps ≠ [] := by
  obtain ⟨p, hp, hname⟩ := mem_namesOf.mp h
  exact List.ne_nil_of_mem (mem_named.mpr ⟨hp, hname⟩)

/-- Every name of a partition has a last partition. -/
theorem exists_latest (hp : p ∈ ps) : ∃ q, latest p.name ps = some q ∧ q ∈ ps := by
  have hne : named p.name ps ≠ [] := List.ne_nil_of_mem (mem_named.mpr ⟨hp, rfl⟩)
  exact ⟨_, List.getLast?_eq_some_getLast hne, (mem_named.mp (List.getLast_mem hne)).1⟩

/-- The partitions, each replaced by the last one of its name. -/
def overwritten (ps : List Partition) : List Partition :=
  ps.map fun p => (latest p.name ps).getD p

private theorem name_getD_latest (p : Partition) (ps : List Partition) :
    ((latest p.name ps).getD p).name = p.name := by
  cases h : latest p.name ps with
  | none => rfl
  | some q => exact (mem_of_mem_latest h).2

private theorem namesOf_overwritten (ps : List Partition) :
    namesOf (overwritten ps) = namesOf ps := by
  simp [namesOf, overwritten, List.map_map, Function.comp_def, name_getD_latest]

private theorem named_overwritten (name : String) (ps : List Partition) :
    named name (overwritten ps) = (named name ps).map fun p => (latest p.name ps).getD p := by
  simp [named, overwritten, List.filter_map, Function.comp_def, name_getD_latest]

private theorem newest_overwritten (name : String) (ps : List Partition) :
    newest name (overwritten ps) = latest name ps := by
  rw [newest, named_overwritten]
  cases hlatest : latest name ps with
  | none =>
    rw [latest, List.getLast?_eq_none_iff] at hlatest
    rw [hlatest]
    rfl
  | some last =>
    -- All partitions of the name are now the same one, which is then the newest.
    have hall : ∀ q ∈ (named name ps).map (fun p => (latest p.name ps).getD p), q = last := by
      intro q hq
      obtain ⟨p, hp, rfl⟩ := List.mem_map.mp hq
      rw [(mem_named.mp hp).2, hlatest, Option.getD_some]
    cases hnewest : ((named name ps).map fun p => (latest p.name ps).getD p).argmax
        (·.header.version.toNat) with
    | some q => rw [hall q (List.argmax_mem hnewest)]
    | none =>
      rw [List.argmax_eq_none, List.map_eq_nil_iff] at hnewest
      rw [latest, hnewest] at hlatest
      cases hlatest

/-- If every name is there once, the last of a name is the newest. -/
theorem latest_eq_newest_of_nodup (h : (ps.map (·.name)).Nodup) (name : String) :
    latest name ps = newest name ps := by
  have hnodup : ((named name ps).map (·.name)).Nodup := h.sublist (List.filter_sublist.map _)
  have hname : ∀ p ∈ named name ps, p.name = name := fun p hp => (mem_named.mp hp).2
  rw [latest, newest]
  generalize named name ps = qs at hnodup hname
  rcases qs with _ | ⟨p, _ | ⟨q, qs⟩⟩
  · rfl
  · rfl
  · have heq : p.name = q.name := (hname p (by simp)).trans (hname q (by simp)).symm
    simp [heq] at hnodup

private theorem filterMap_eq_iff {α β : Type} {f g : α → Option β} {as : List α}
    (hf : ∀ a ∈ as, (f a).isSome = true) (hg : ∀ a ∈ as, (g a).isSome = true) :
    as.filterMap f = as.filterMap g ↔ ∀ a ∈ as, f a = g a := by
  induction as with
  | nil => simp
  | cons a as ih =>
    rw [List.forall_mem_cons] at hf hg
    obtain ⟨b, hb⟩ := Option.isSome_iff_exists.mp hf.1
    obtain ⟨c, hc⟩ := Option.isSome_iff_exists.mp hg.1
    rw [List.filterMap_cons_some hb, List.filterMap_cons_some hc, List.cons.injEq,
      ih hf.2 hg.2, List.forall_mem_cons, hb, hc, Option.some.injEq]

private theorem filterMap_latest_eq_iff (ps : List Partition) :
    (namesOf ps).filterMap (latest · ps) = (namesOf ps).filterMap (newest · ps) ↔
      ∀ name ∈ namesOf ps, latest name ps = newest name ps := by
  refine filterMap_eq_iff (fun name hname => ?_) (fun name hname => ?_)
  · rw [latest, List.getLast?_isSome]
    exact named_ne_nil_of_mem hname
  · rw [← Option.ne_none_iff_isSome, newest, ne_eq, List.argmax_eq_none]
    exact named_ne_nil_of_mem hname

end Partition

namespace Catalog
open Gazetteer.Partition

variable {c : Catalog} {p : Partition} {name : String}

def partition? (c : Catalog) (name : String) : Option Partition := (c.named? name).map (·.partition)

private theorem registerAll_append_singleton (c : Catalog) (ps : List Partition) (p : Partition) :
    c.registerAll (ps ++ [p]) = ((c.registerAll ps).register p).2.2 := List.foldl_append

/-- After a registration its name has it, and every other name has what it had. -/
theorem find?_place (r : Registration) (rs : List Registration) (name : String) :
    (place r rs).find? (·.id.name = name) =
      if r.id.name = name then some r else rs.find? (·.id.name = name) := by
  induction rs with
  | nil => by_cases hr : r.id.name = name <;> simp [place, hr]
  | cons s rs ih =>
    rw [place]
    by_cases hs : s.id.name = r.id.name
    · by_cases hr : r.id.name = name <;> simp [hs, hr]
    · rw [if_neg hs, List.find?_cons, List.find?_cons, ih]
      by_cases hname : s.id.name = name
      · simp [hname, show r.id.name ≠ name from fun hr => hs (hname.trans hr.symm)]
      · simp [hname]

private theorem partition?_add (c : Catalog) (p : Partition) (name : String) :
    (c.add p).2.partition? name = if p.name = name then some p else c.partition? name := by
  rw [partition?, named?, add, find?_place]
  split <;> rfl

/-- A partition comes to be the one of its name if it is the first, or newer than the one so far. -/
theorem partition?_register (c : Catalog) (p : Partition) (name : String) :
    (c.register p).2.2.partition? name =
      if p.name = name ∧ ∀ q ∈ c.partition? name, q.header.version < p.header.version then some p
      else c.partition? name := by
  have hadded := c.partition?_add p name
  by_cases hname : p.name = name
  · subst hname
    rw [if_pos rfl] at hadded
    rcases c.register_spec p with ⟨hnamed, h⟩ | ⟨r, hnamed, hr⟩
    · have hnone : c.partition? p.name = none := by rw [partition?, hnamed]; rfl
      rw [h, hadded, hnone]
      simp
    · have hthere : c.partition? p.name = some r.partition := by rw [partition?, hnamed]; rfl
      rw [hthere]
      rcases hr with ⟨hnewer, h⟩ | ⟨hsame, h⟩ | ⟨holder, h⟩
      · simp [h, hadded, hnewer]
      · simp [h, hthere, hsame]
      · simp [h, hthere, UInt64.lt_asymm holder]
  · rw [if_neg fun h => hname h.1]
    rw [if_neg hname] at hadded
    rcases c.register_cases p with ⟨-, he⟩ | he <;> rw [he]
    exact hadded

private theorem names_add (c : Catalog) (p : Partition) :
    (c.add p).2.names = if p.name ∈ c.names then c.names else c.names ++ [p.name] :=
  names_place ⟨⟨p.name, c.issued + 1⟩, p⟩ c.registrations

private theorem named?_eq_none_iff : c.named? name = none ↔ name ∉ c.names := by
  simp [named?, names]

private theorem names_register (c : Catalog) (p : Partition) :
    (c.register p).2.2.names = if p.name ∈ c.names then c.names else c.names ++ [p.name] := by
  rcases c.register_cases p with ⟨hnot, he⟩ | he
  · rw [he, if_pos]
    by_contra hnew
    rcases c.register_spec p with ⟨-, h⟩ | ⟨r, hnamed, -⟩
    · exact hnot (by rw [h])
    · rw [named?_eq_none_iff.mpr hnew] at hnamed
      cases hnamed
  · rw [he]
    exact c.names_add p

/-- The names are in the order of their first partitions. -/
theorem names_registerAll (ps : List Partition) : (empty.registerAll ps).names = namesOf ps := by
  induction ps using List.reverseRecOn with
  | nil => rfl
  | append_singleton ps p ih =>
    rw [registerAll_append_singleton, names_register, ih, namesOf, namesOf, List.map_append,
      List.eraseDups_append, List.map_singleton]
    generalize ps.map (·.name) = names
    by_cases hname : p.name ∈ names <;> simp [List.removeAll, hname, List.eraseDups_cons]

/-- Each name has the first of its partitions of the greatest version. -/
theorem partition?_registerAll (ps : List Partition) (name : String) :
    (empty.registerAll ps).partition? name = newest name ps := by
  induction ps using List.reverseRecOn with
  | nil => rfl
  | append_singleton ps p ih =>
    rw [registerAll_append_singleton, partition?_register, ih, newest_append_singleton]

theorem mem_of_named? {r : Registration} (h : c.named? name = some r) :
    r ∈ c.registrations ∧ r.id.name = name :=
  ⟨List.mem_of_find?_eq_some h, by simpa using List.find?_some h⟩

/-- A registration is the one that is found under its name. -/
theorem named?_of_mem (h : c.names.Nodup) {r : Registration} (hr : r ∈ c.registrations) :
    c.named? r.id.name = some r := by
  obtain ⟨s, hs⟩ : ∃ s, c.named? r.id.name = some s :=
    Option.ne_none_iff_exists'.mp fun hnone =>
      named?_eq_none_iff.mp hnone (List.mem_map_of_mem hr)
  obtain ⟨hmem, hname⟩ := mem_of_named? hs
  rw [hs, List.inj_on_of_nodup_map h hmem hr hname]

/-- The partitions of a catalog are those of its names. -/
theorem partitions_eq (h : c.names.Nodup) :
    c.registrations.map (·.partition) = c.names.filterMap c.partition? := by
  rw [names, List.filterMap_map, ← List.filterMap_eq_map]
  refine List.filterMap_congr fun r hr => ?_
  simp only [Function.comp_apply, partition?, named?_of_mem h hr, Option.map_some]

/-- What is registered: for each name, in the order of their first partitions, the first of its
partitions of the greatest version. -/
theorem partitions_registerAll (ps : List Partition) :
    (empty.registerAll ps).registrations.map (·.partition) =
      (namesOf ps).filterMap (newest · ps) := by
  rw [partitions_eq (Reached.empty.registerAll ps).names_nodup, names_registerAll]
  simp only [partition?_registerAll]

/-- Registering overwritten partitions leaves the last one of each name, in the order of the
names. -/
theorem partitions_registerAll_overwritten (ps : List Partition) :
    (empty.registerAll (overwritten ps)).registrations.map (·.partition) =
      (namesOf ps).filterMap (latest · ps) := by
  rw [partitions_registerAll, namesOf_overwritten]
  simp only [newest_overwritten]

/-- Overwriting makes no difference exactly if the last partition of each name is the newest. -/
theorem partitions_overwritten_eq_iff (ps : List Partition) :
    (empty.registerAll (overwritten ps)).registrations.map (·.partition) =
        (empty.registerAll ps).registrations.map (·.partition) ↔
      ∀ name ∈ namesOf ps, latest name ps = newest name ps := by
  rw [partitions_registerAll_overwritten, partitions_registerAll]
  exact filterMap_latest_eq_iff ps

end Catalog
end Gazetteer
