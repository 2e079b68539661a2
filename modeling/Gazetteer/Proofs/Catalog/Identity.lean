import Gazetteer.Search.Basic
import Mathlib.Data.List.Nodup

/-! Catalogs as they come about. Registering and removing keep one partition for each name, so an
identifier that is listed stands for one registration, and a search has one target for each. -/
namespace Gazetteer

namespace Catalog

/-- The catalogs that come of registering and removing partitions, from the empty one on. -/
inductive Reached : Catalog → Prop
  | empty : Reached .empty
  | register {c : Catalog} (p : Partition) : Reached c → Reached (c.register p).2.2
  | registerFile {c : Catalog} {file : Option Bytes} {done : Outcome × Handle × Catalog} :
    Reached c → c.registerFile file = .ok done → Reached done.2.2
  | deregister {c : Catalog} (name : String) : Reached c → Reached (c.deregister name)

def names (c : Catalog) : List String := c.registrations.map (·.id.name)

/-- A registration takes over the place of its name, or comes last if the name is new. -/
theorem names_place (r : Registration) (rs : List Registration) :
    (place r rs).map (·.id.name) =
      if r.id.name ∈ rs.map (·.id.name) then rs.map (·.id.name)
      else rs.map (·.id.name) ++ [r.id.name] := by
  induction rs with
  | nil => simp [place]
  | cons s rs ih =>
    by_cases hs : s.id.name = r.id.name
    · simp [place, hs]
    · simp only [place, hs, if_false, List.map_cons, ih, List.mem_cons, Ne.symm hs, false_or]
      split <;> rfl

private theorem names_nodup_add {c : Catalog} (h : c.names.Nodup) (p : Partition) :
    (c.add p).2.names.Nodup := by
  change ((place ⟨⟨p.name, c.issued + 1⟩, p⟩ c.registrations).map (·.id.name)).Nodup
  rw [names_place]
  split
  · exact h
  · rename_i hp
    simpa using h.concat hp

/-- What registering does when the name is new, or there with some version. -/
theorem register_spec (c : Catalog) (p : Partition) :
    (c.named? p.name = none ∧ c.register p = (.added, .live (c.add p).1, (c.add p).2)) ∨
      ∃ r, c.named? p.name = some r ∧
        (r.partition.header.version < p.header.version ∧
            c.register p = (.added, .live (c.add p).1, (c.add p).2) ∨
          p.header.version = r.partition.header.version ∧ c.register p = (.present, .live r, c) ∨
          p.header.version < r.partition.header.version ∧
            c.register p = (.outdated, absent p.name, c)) := by
  cases h : c.named? p.name with
  | none => exact .inl ⟨rfl, by simp only [register, h]⟩
  | some r =>
    refine .inr ⟨r, rfl, ?_⟩
    simp only [register, h]
    split_ifs with hsame hold
    · exact .inr (.inl ⟨hsame, rfl⟩)
    · exact .inr (.inr ⟨hold, rfl⟩)
    · exact .inl ⟨UInt64.lt_of_le_of_ne (UInt64.not_lt.mp hold) (Ne.symm hsame), rfl⟩

/-- Registering changes the catalog in one way at most: it adds the partition. -/
theorem register_cases (c : Catalog) (p : Partition) :
    (c.register p).1 ≠ .added ∧ (c.register p).2.2 = c ∨
      c.register p = (.added, .live (c.add p).1, (c.add p).2) := by
  rcases c.register_spec p with ⟨-, h⟩ | ⟨r, -, ⟨-, h⟩ | ⟨-, h⟩ | ⟨-, h⟩⟩
  · exact .inr h
  · exact .inr h
  · exact .inl (by rw [h]; exact ⟨nofun, rfl⟩)
  · exact .inl (by rw [h]; exact ⟨nofun, rfl⟩)

private theorem names_nodup_register {c : Catalog} (h : c.names.Nodup) (p : Partition) :
    (c.register p).2.2.names.Nodup := by
  rcases c.register_cases p with ⟨-, he⟩ | he <;> rw [he]
  · exact h
  · exact names_nodup_add h p

/-- A file that can be read registers as the partition in it. -/
theorem registerFile_cases {c : Catalog} {file : Option Bytes}
    {done : Outcome × Handle × Catalog} (h : c.registerFile file = .ok done) :
    ∃ p, done = c.register p := by
  cases hp : Partition.ofFile file with
  | error e => simp [registerFile, hp, Functor.map, Except.map] at h
  | ok p => exact ⟨p, by simpa [registerFile, hp, Functor.map, Except.map] using h.symm⟩

theorem Reached.registerAll {c : Catalog} (h : c.Reached) (ps : List Partition) :
    (c.registerAll ps).Reached := by
  induction ps generalizing c with
  | nil => exact h
  | cons p ps ih => exact ih (.register p h)

/-- A name is registered once at most. -/
theorem Reached.names_nodup {c : Catalog} (h : c.Reached) : c.names.Nodup := by
  induction h with
  | empty => exact List.nodup_nil
  | register p _ ih => exact names_nodup_register ih p
  | registerFile _ hf ih =>
    obtain ⟨p, rfl⟩ := registerFile_cases hf
    exact names_nodup_register ih p
  | @deregister c name _ ih => exact ih.sublist ((List.filter_sublist).map _)

/-- Where names are apart, so are identifiers. -/
theorem ids_nodup {c : Catalog} (h : c.names.Nodup) : c.ids.Nodup := by
  apply List.Nodup.of_map PartitionId.name
  simpa [ids, names, List.map_map, Function.comp_def] using h

/-- A registration brings none but itself into the catalog. -/
theorem mem_place {r s : Registration} {rs : List Registration} (h : s ∈ place r rs) :
    s = r ∨ s ∈ rs := by
  induction rs with
  | nil => exact .inl (List.mem_singleton.mp h)
  | cons t rs ih =>
    simp only [place] at h
    split at h
    · exact (List.mem_cons.mp h).imp_right (List.mem_cons_of_mem _)
    · rcases List.mem_cons.mp h with rfl | h
      · exact .inr List.mem_cons_self
      · exact (ih h).imp_right (List.mem_cons_of_mem _)

private theorem name_register {c : Catalog}
    (h : ∀ r ∈ c.registrations, r.id.name = r.partition.name) (p : Partition) :
    ∀ r ∈ (c.register p).2.2.registrations, r.id.name = r.partition.name := by
  rcases c.register_cases p with ⟨-, he⟩ | he <;> rw [he]
  · exact h
  · intro r hr
    rcases mem_place hr with rfl | hr
    · rfl
    · exact h r hr

/-- A partition is registered under its own name. -/
theorem Reached.name_eq {c : Catalog} (h : c.Reached) :
    ∀ r ∈ c.registrations, r.id.name = r.partition.name := by
  induction h with
  | empty => exact fun _ hr => absurd hr List.not_mem_nil
  | register p _ ih => exact name_register ih p
  | registerFile _ hf ih =>
    obtain ⟨p, rfl⟩ := registerFile_cases hf
    exact name_register ih p
  | deregister _ _ ih => exact fun r hr => ih r (List.mem_of_mem_filter hr)

theorem ids_ne {c : Catalog} (h : c.ids.Nodup) {before after : List Registration}
    {r : Registration} (hc : c.registrations = before ++ r :: after) :
    ∀ s ∈ before ++ after, s.id ≠ r.id := by
  intro s hs hid
  have hids : c.ids = before.map (·.id) ++ r.id :: after.map (·.id) := by simp [ids, hc]
  rw [hids] at h
  apply (List.nodup_cons.mp (List.perm_middle.nodup_iff.mp h)).1
  rw [← List.map_append, ← hid]
  exact List.mem_map_of_mem hs

/-- An identifier that is listed picks one registration. -/
theorem filter_id {c : Catalog} (h : c.ids.Nodup) {r : Registration} (hr : r ∈ c.registrations) :
    c.registrations.filter (·.id = r.id) = [r] := by
  obtain ⟨before, after, hc⟩ := List.append_of_mem hr
  obtain ⟨hbefore, hafter⟩ := List.forall_mem_append.mp (ids_ne h hc)
  rw [hc, List.filter_append, List.filter_cons_of_pos (by simp),
    List.filter_eq_nil_iff.mpr (by simpa using hbefore),
    List.filter_eq_nil_iff.mpr (by simpa using hafter), List.nil_append]

/-- A registered identifier gives the handle of its own registration. -/
theorem byId_id {c : Catalog} (h : c.ids.Nodup) {r : Registration} (hr : r ∈ c.registrations) :
    c.byId r.id = .live r := by
  have hf : c.registrations.find? (fun s => decide (s.id = r.id)) = some r := by
    obtain ⟨s, hs⟩ : ∃ s, c.registrations.find? (fun s => decide (s.id = r.id)) = some s :=
      Option.isSome_iff_exists.mp (List.find?_isSome.mpr ⟨r, hr, by simp⟩)
    have hid : s.id = r.id := by simpa using List.find?_some hs
    rw [hs, List.inj_on_of_nodup_map h (List.mem_of_find?_eq_some hs) hr hid]
  simp [byId, hf]

end Catalog

namespace Search

/-- A search has a pending target for each registration with both indexes. -/
theorem targets_start {c : Catalog} (h : c.Reached) (viewport : Rect Binary64) (q : Query)
    (limits : Limits Binary64) :
    (start c.source viewport q limits).targets =
      (c.registrations.filter fun r =>
        r.partition.hasSection Partition.textTag && r.partition.hasSection Partition.placeTag).map
        (⟨·, .pending⟩) := by
  have hn := Catalog.ids_nodup h.names_nodup
  change (c.registrations.map (·.id)).filterMap (fun id => Target.ofHandle? (c.byId id)) = _
  rw [List.filterMap_map, ← List.filterMap_eq_map, List.filterMap_filter]
  apply List.filterMap_congr
  intro r hr
  simp only [Function.comp_apply, Catalog.byId_id hn hr, Target.ofHandle?]

/-- A search starts with nothing done. -/
theorem pending_start {source : Source} {viewport : Rect Binary64} {q : Query}
    {limits : Limits Binary64} {t : Target} (ht : t ∈ (start source viewport q limits).targets) :
    t.progress = .pending := by
  obtain ⟨id, -, ht⟩ := List.mem_filterMap.mp ht
  unfold Target.ofHandle? at ht
  split at ht
  · cases ht
  · split at ht
    · cases ht
      rfl
    · cases ht

/-- The targets of a search are told apart by their identifiers. -/
theorem ids_nodup_start {c : Catalog} (h : c.Reached) (viewport : Rect Binary64) (q : Query)
    (limits : Limits Binary64) :
    ((start c.source viewport q limits).targets.map Target.id).Nodup := by
  rw [targets_start h, List.map_map]
  exact (Catalog.ids_nodup h.names_nodup).sublist (List.filter_sublist.map _)

end Search
end Gazetteer
