import Gazetteer.Proofs.Catalog.Identity

/-! Catalogs and the identifiers that they have issued. Generations are counted up and never given
back, so an identifier that has left the catalog never comes back, whatever is registered later. -/
namespace Gazetteer.Catalog

/-- A call that may change a catalog. -/
inductive Change where
  | register (p : Partition)
  /-- The file stands for its bytes, if it can be read. -/
  | registerFile (file : Option Bytes)
  | deregister (name : String)

/-- The identifier that a registration issues, if it adds a partition, and the catalog after it. -/
def issuing (done : Outcome × Handle × Catalog) : Option PartitionId × Catalog :=
  (if done.1 = .added then some done.2.1.id else none, done.2.2)

/-- Makes a change: the identifier that it issues, if any, and the catalog after it. A file that
cannot be read or decoded leaves the catalog as it is. -/
def change (c : Catalog) : Change → Option PartitionId × Catalog
  | .register p => issuing (c.register p)
  | .registerFile file =>
    match c.registerFile file with
    | .ok done => issuing done
    | .error _ => (none, c)
  | .deregister name => (none, c.deregister name)

/-- A catalog with all identifiers issued so far, the first one first. -/
structure History where
  catalog : Catalog := .empty
  issued : List PartitionId := []

def History.next (h : History) (x : Change) : History :=
  ⟨(h.catalog.change x).2, h.issued ++ (h.catalog.change x).1.toList⟩

def history (xs : List Change) : History := xs.foldl History.next {}

private theorem history_append (xs ys : List Change) :
    history (xs ++ ys) = ys.foldl History.next (history xs) := List.foldl_append

private theorem issuing_register (c : Catalog) (p : Partition) :
    issuing (c.register p) = (none, c) ∨
      issuing (c.register p) = (some ⟨p.name, c.issued + 1⟩, (c.add p).2) := by
  rcases c.register_cases p with ⟨hnot, hkept⟩ | hadded
  · left
    rw [issuing, if_neg hnot, hkept]
  · right
    rw [hadded]
    rfl

/-- All that a change can do: nothing, add a partition under the next generation, or remove one. -/
theorem change_cases (c : Catalog) (x : Change) :
    c.change x = (none, c) ∨
      (∃ p, c.change x = (some ⟨p.name, c.issued + 1⟩, (c.add p).2)) ∨
      ∃ name, c.change x = (none, c.deregister name) := by
  cases x with
  | register p => exact (c.issuing_register p).imp_right fun h => .inl ⟨p, h⟩
  | registerFile file =>
    cases hfile : c.registerFile file with
    | error why => exact .inl (by simp only [change, hfile])
    | ok done =>
      obtain ⟨p, rfl⟩ := registerFile_cases hfile
      have hchange : c.change (.registerFile file) = issuing (c.register p) := by
        simp only [change, hfile]
      rw [hchange]
      exact (c.issuing_register p).imp_right fun h => .inl ⟨p, h⟩
  | deregister name => exact .inr (.inr ⟨name, rfl⟩)

/-- Changes lead from reached catalogs to reached ones. -/
theorem Reached.change {c : Catalog} (h : c.Reached) (x : Change) : (c.change x).2.Reached := by
  cases x with
  | register p => exact .register p h
  | registerFile file =>
    cases hfile : c.registerFile file with
    | error why => simpa only [Catalog.change, hfile] using h
    | ok done => simpa only [Catalog.change, hfile, issuing] using Reached.registerFile h hfile
  | deregister name => exact .deregister name h

private theorem mem_ids {c : Catalog} {id : PartitionId} :
    id ∈ c.ids ↔ ∃ r ∈ c.registrations, r.id = id :=
  List.mem_map

private theorem mem_ids_add {c : Catalog} {p : Partition} {id : PartitionId}
    (h : id ∈ (c.add p).2.ids) : id = ⟨p.name, c.issued + 1⟩ ∨ id ∈ c.ids := by
  obtain ⟨r, hr, rfl⟩ := mem_ids.mp h
  rcases mem_place hr with rfl | hr
  · exact .inl rfl
  · exact .inr (mem_ids.mpr ⟨r, hr, rfl⟩)

private theorem mem_ids_deregister {c : Catalog} {name : String} {id : PartitionId} :
    id ∈ (c.deregister name).ids ↔ id ∈ c.ids ∧ id.name ≠ name := by
  simp only [mem_ids, deregister, remove, List.mem_filter, decide_eq_true_eq]
  constructor
  · rintro ⟨r, ⟨hr, hne⟩, rfl⟩
    exact ⟨⟨r, hr, rfl⟩, hne⟩
  · rintro ⟨⟨r, hr, rfl⟩, hne⟩
    exact ⟨r, ⟨hr, hne⟩, rfl⟩

/-- Removing tells whether there is a partition with the name. -/
theorem fst_remove_iff {c : Catalog} {name : String} :
    (c.remove name).1 = true ↔ ∃ id ∈ c.ids, id.name = name := by
  rw [remove, decide_eq_true_iff, ne_eq, List.length_filter_eq_length_iff]
  simp [mem_ids]

private theorem mem_place_of_name_eq {r s : Registration} {rs : List Registration}
    (hn : (rs.map (·.id.name)).Nodup) (h : s ∈ place r rs) (hname : s.id.name = r.id.name) :
    s = r := by
  induction rs with
  | nil => exact List.mem_singleton.mp h
  | cons t rs ih =>
    obtain ⟨ht, hn⟩ := List.nodup_cons.mp hn
    simp only [place] at h
    split at h
    · next hsame =>
      rcases List.mem_cons.mp h with rfl | h
      · rfl
      · exact absurd (List.mem_map.mpr ⟨s, h, hname.trans hsame.symm⟩) ht
    · next hother =>
      rcases List.mem_cons.mp h with rfl | h
      · exact absurd hname hother
      · exact ih hn h

/-- What holds of a catalog and its history: identifiers are issued with the generations 1, 2, 3 and
so on, and no other identifier is ever registered. -/
structure History.Sound (h : History) : Prop where
  reached : h.catalog.Reached
  issued_eq : h.catalog.issued = h.issued.length
  generations : h.issued.map (·.generation) = List.range' 1 h.issued.length
  mem_issued : ∀ id ∈ h.catalog.ids, id ∈ h.issued

namespace History
variable {h : History}

/-- One change keeps all that holds of a history. -/
theorem Sound.next (hs : h.Sound) (x : Change) : (h.next x).Sound := by
  have hreached := hs.reached.change x
  rcases h.catalog.change_cases x with hx | ⟨p, hx⟩ | ⟨name, hx⟩ <;> rw [hx] at hreached
  · simp only [History.next, hx, Option.toList_none, List.append_nil]
    exact hs
  · simp only [History.next, hx, Option.toList_some]
    refine ⟨hreached, ?_, ?_, ?_⟩
    · simp [add, hs.issued_eq]
    · simp [hs.generations, List.range'_concat, hs.issued_eq, Nat.add_comm]
    · intro id hid
      rcases mem_ids_add hid with rfl | hid
      · exact List.mem_append_right _ (List.mem_singleton_self _)
      · exact List.mem_append_left _ (hs.mem_issued id hid)
  · simp only [History.next, hx, Option.toList_none, List.append_nil]
    exact ⟨hreached, hs.issued_eq, hs.generations,
      fun id hid => hs.mem_issued id (mem_ids_deregister.mp hid).1⟩

private theorem sound_foldl (hs : h.Sound) (xs : List Change) :
    (xs.foldl History.next h).Sound := by
  induction xs generalizing h with
  | nil => exact hs
  | cons x xs ih => exact ih (hs.next x)

private theorem Sound.generations_nodup (hs : h.Sound) : (h.issued.map (·.generation)).Nodup :=
  hs.generations ▸ List.nodup_range'

private theorem Sound.generation_mem (hs : h.Sound) {id : PartitionId} (hid : id ∈ h.issued) :
    1 ≤ id.generation ∧ id.generation ≤ h.issued.length := by
  have hmem : id.generation ∈ List.range' 1 h.issued.length :=
    hs.generations ▸ List.mem_map_of_mem hid
  have := List.mem_range'_1.mp hmem
  omega

/-- A change registers no identifier that was issued before it. -/
theorem Sound.retired_next (hs : h.Sound) {id : PartitionId} (hid : id ∈ h.issued)
    (hgone : id ∉ h.catalog.ids) (x : Change) :
    id ∈ (h.next x).issued ∧ id ∉ (h.next x).catalog.ids := by
  refine ⟨List.mem_append_left _ hid, ?_⟩
  simp only [History.next]
  rcases h.catalog.change_cases x with hx | ⟨p, hx⟩ | ⟨name, hx⟩ <;> rw [hx]
  · exact hgone
  · intro hmem
    rcases mem_ids_add hmem with rfl | hmem
    · have := (hs.generation_mem hid).2
      rw [hs.issued_eq] at this
      exact absurd this (Nat.not_succ_le_self _)
    · exact hgone hmem
  · exact fun hmem => hgone (mem_ids_deregister.mp hmem).1

/-- An identifier that has left the catalog stays away, whatever changes follow. -/
theorem Sound.retired_foldl (hs : h.Sound) {id : PartitionId} (hid : id ∈ h.issued)
    (hgone : id ∉ h.catalog.ids) (xs : List Change) :
    id ∉ (xs.foldl History.next h).catalog.ids := by
  induction xs generalizing h with
  | nil => exact hgone
  | cons x xs ih =>
    obtain ⟨hid', hgone'⟩ := hs.retired_next hid hgone x
    exact ih (hs.next x) hid' hgone'

private theorem Sound.gone_of_ended (hs : h.Sound) {id : PartitionId} (hid : id ∈ h.catalog.ids)
    {x : Change} (hx : x = .deregister id.name ∨
      ∃ new, (h.catalog.change x).1 = some new ∧ new.name = id.name) :
    id ∉ (h.next x).catalog.ids := by
  rcases hx with rfl | ⟨new, hnew, hname⟩
  · exact fun hmem => (mem_ids_deregister.mp hmem).2 rfl
  · rcases h.catalog.change_cases x with hx | ⟨p, hx⟩ | ⟨name, hx⟩ <;>
      simp only [hx, Option.some.injEq, reduceCtorEq] at hnew
    subst hnew
    simp only [History.next, hx]
    intro hmem
    obtain ⟨r, hr, rfl⟩ := mem_ids.mp hmem
    have hr' := mem_place_of_name_eq hs.reached.names_nodup hr hname.symm
    have := (hs.generation_mem (hs.mem_issued _ hid)).2
    rw [hr', ← hs.issued_eq] at this
    exact absurd this (Nat.not_succ_le_self _)

private theorem length_issued_foldl_le (h : History) (xs : List Change) :
    (xs.foldl History.next h).issued.length ≤ h.issued.length + xs.length := by
  induction xs generalizing h with
  | nil => exact Nat.le_refl _
  | cons x xs ih =>
    have hone : (h.catalog.change x).1.toList.length ≤ 1 := by
      cases (h.catalog.change x).1 <;> simp
    have hnext : (h.next x).issued.length ≤ h.issued.length + 1 := by
      rw [next, List.length_append]
      omega
    have := ih (h.next x)
    rw [List.foldl_cons, List.length_cons]
    omega

end History

/-- What holds of a history that goes on holds of every history. -/
theorem sound_history (xs : List Change) : (history xs).Sound := by
  have hempty : History.Sound {} := ⟨.empty, rfl, rfl, fun _ hid => absurd hid List.not_mem_nil⟩
  exact History.sound_foldl hempty xs

private theorem byId_of_not_mem {c : Catalog} {id : PartitionId} (h : id ∉ c.ids) :
    c.byId id = .dead id := by
  have hnone : c.registrations.find? (fun r => decide (r.id = id)) = none :=
    List.find?_eq_none.mpr fun r hr hid => h (mem_ids.mpr ⟨r, hr, of_decide_eq_true hid⟩)
  simp [byId, hnone]

/-- Handles are live for exactly the identifiers that are registered. -/
theorem isLive_byId_iff {c : Catalog} (h : c.ids.Nodup) {id : PartitionId} :
    (c.byId id).isLive = true ↔ id ∈ c.ids := by
  constructor
  · intro hlive
    by_contra hid
    rw [byId_of_not_mem hid] at hlive
    cases hlive
  · intro hid
    obtain ⟨r, hr, rfl⟩ := mem_ids.mp hid
    rw [byId_id h hr]
    rfl

private theorem id_of_byId {c : Catalog} {id : PartitionId} {r : Registration}
    (h : (c.byId id).registration? = some r) : r.id = id := by
  unfold byId at h
  cases hfind : c.registrations.find? (fun r => decide (r.id = id)) with
  | none =>
    rw [hfind] at h
    cases h
  | some s =>
    rw [hfind] at h
    cases h
    simpa using List.find?_some hfind

/-- By name, handles are live for exactly the names that are registered. -/
theorem isLive_byName_iff {c : Catalog} {name : String} :
    (c.byName name).isLive = true ↔ ∃ id ∈ c.ids, id.name = name := by
  have hlive : (c.byName name).isLive = (c.named? name).isSome := by
    unfold byName
    cases c.named? name <;> rfl
  rw [hlive, named?, List.find?_isSome]
  simp [mem_ids]

/-- Identifiers over any run of changes to the empty catalog, files that cannot be read among them.
Registered names are apart, and so are generations, which lie between 1 and the number of partitions
added; no identifier is issued twice. The catalog has a live handle for exactly the identifiers and
names that are registered. An identifier that is removed, or replaced by another one for its name,
is dead from then on. There are no more generations than changes. -/
theorem identity_of_history (xs : List Change) :
    let c := (history xs).catalog
    let issued := (history xs).issued
    (c.ids.map (·.name)).Nodup ∧
      (∀ id ∈ c.ids, 1 ≤ id.generation ∧ id.generation ≤ issued.length) ∧
      (c.ids.map (·.generation)).Nodup ∧
      issued.Nodup ∧ issued.length ≤ xs.length ∧
      (∀ id, ((c.byId id).isLive = true ↔ id ∈ c.ids) ∧
        ∀ r, (c.byId id).registration? = some r → r.id = id) ∧
      (∀ name, (c.byName name).isLive = true ↔ ∃ id ∈ c.ids, id.name = name) ∧
      (∀ id ∈ c.ids, ∀ x, (x = .deregister id.name ∨
          ∃ new, (c.change x).1 = some new ∧ new.name = id.name) →
        ∀ ys, (history (xs ++ x :: ys)).catalog.byId id = .dead id) ∧
      ∀ id ∈ issued, id ∉ c.ids → ∀ ys, (history (xs ++ ys)).catalog.byId id = .dead id := by
  intro c issued
  have hs := sound_history xs
  have hids := ids_nodup hs.reached.names_nodup
  refine ⟨?_, ?_, ?_, ?_, ?_, ?_, ?_, ?_, ?_⟩
  · simpa [names, ids, c, Function.comp_def] using hs.reached.names_nodup
  · exact fun id hid => hs.generation_mem (hs.mem_issued id hid)
  · refine hids.map_on fun a ha b hb hgeneration => ?_
    exact List.inj_on_of_nodup_map hs.generations_nodup (hs.mem_issued a ha) (hs.mem_issued b hb)
      hgeneration
  · exact .of_map _ hs.generations_nodup
  · simpa [issued, history] using History.length_issued_foldl_le {} xs
  · exact fun id => ⟨isLive_byId_iff hids, fun r hr => id_of_byId hr⟩
  · exact fun name => isLive_byName_iff
  · intro id hid x hx ys
    rw [history_append, List.foldl_cons]
    have hissued : id ∈ ((history xs).next x).issued :=
      List.mem_append_left _ (hs.mem_issued id hid)
    exact byId_of_not_mem ((hs.next x).retired_foldl hissued (hs.gone_of_ended hid hx) ys)
  · intro id hid hgone ys
    rw [history_append]
    exact byId_of_not_mem (hs.retired_foldl hid hgone ys)

/-- Two versions of a town are registered and removed; then the first one comes again. -/
theorem identity_of_towns :
    let town (version : UInt64) : Partition := ⟨"Town", ⟨1, version, ⟨⟨0, 0⟩, ⟨0, 0⟩⟩, ⟨0, 6⟩⟩, []⟩
    let xs : List Change := [.register (town 1), .registerFile none, .registerFile (town 2).encode]
    let ys : List Change := [.deregister "Town", .registerFile (some [193]), .register (town 1)]
    (history xs).issued = [⟨"Town", 1⟩, ⟨"Town", 2⟩] ∧ (history xs).catalog.ids = [⟨"Town", 2⟩] ∧
      (history (xs ++ ys)).catalog.ids = [⟨"Town", 3⟩] ∧
      (history (xs ++ ys)).catalog.byId ⟨"Town", 1⟩ = .dead ⟨"Town", 1⟩ ∧
      (history (xs ++ ys)).catalog.byId ⟨"Town", 2⟩ = .dead ⟨"Town", 2⟩ := by
  intro town xs ys
  have hissued : (history xs).issued = [⟨"Town", 1⟩, ⟨"Town", 2⟩] := by decide +kernel
  have hids : (history xs).catalog.ids = [⟨"Town", 2⟩] := by decide +kernel
  obtain ⟨-, -, -, -, -, -, -, hended, hgone⟩ := identity_of_history xs
  rw [hissued, hids] at hgone
  rw [hids] at hended
  exact ⟨hissued, hids, by decide +kernel, hgone ⟨"Town", 1⟩ (by decide) (by decide) ys,
    hended ⟨"Town", 2⟩ (by decide) (.deregister "Town") (.inl rfl) _⟩

end Gazetteer.Catalog
