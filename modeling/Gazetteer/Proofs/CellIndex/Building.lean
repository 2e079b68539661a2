import Gazetteer.Proofs.CellIndex.Contents
import Mathlib.Data.Finset.Card

/-! Indexes built of entries. An index without empty layers is told by what it holds, so entries may
come in any order and more than once; and layers sorted as entries come are those sorted at the
end. -/
namespace Gazetteer.CellIndex

def Full (index : CellIndex) : Prop := ∀ l ∈ index.layers, l.entries ≠ []

private theorem has_layer {index : CellIndex} (h : index.Ordered) {l : Layer}
    (hl : l ∈ index.layers) {e : Entry} : index.Has l.scale e ↔ e ∈ l.entries := by
  constructor
  · rintro ⟨m, hm, hscale, he⟩
    rwa [← List.inj_on_of_nodup_map (Ascending.nodup_of_pairwise h.layers) hm hl hscale]
  · exact fun he => ⟨l, hl, rfl, he⟩

private theorem mem_layers_of_has {a b : CellIndex} (ha : a.Ordered) (hb : b.Ordered)
    (hfull : a.Full) (h : ∀ s e, a.Has s e ↔ b.Has s e) {l : Layer} (hl : l ∈ a.layers) :
    l ∈ b.layers := by
  obtain ⟨e, he⟩ := List.exists_mem_of_ne_nil _ (hfull l hl)
  obtain ⟨m, hm, hscale, -⟩ := (h l.scale e).mp ((has_layer ha hl).mpr he)
  have hentries : m.entries = l.entries := by
    refine Ascending.eq_of_pairwise (hb.entries m hm) (ha.entries l hl) fun e => ?_
    rw [← has_layer hb hm, hscale, ← h, has_layer ha hl]
  have hml : m = l := by
    cases m
    cases l
    simp_all only
  exact hml ▸ hm

/-- Two indexes without empty layers that hold the same are the same. -/
theorem eq_of_has {a b : CellIndex} (ha : a.Ordered) (hb : b.Ordered) (hfa : a.Full) (hfb : b.Full)
    (h : ∀ s e, a.Has s e ↔ b.Has s e) : a = b := by
  have hnodup {c : CellIndex} (hc : c.Ordered) : c.layers.Nodup :=
    .of_map _ (Ascending.nodup_of_pairwise hc.layers)
  have hperm : a.layers.Perm b.layers :=
    (List.perm_ext_iff_of_nodup (hnodup ha) (hnodup hb)).mpr fun l =>
      ⟨mem_layers_of_has ha hb hfa h, mem_layers_of_has hb ha hfb fun s e => (h s e).symm⟩
  have hlayers : a.layers = b.layers :=
    hperm.eq_of_pairwise (fun l m _ _ hlm hml => absurd hml (Ascending.lt_asymm hlm))
      (List.pairwise_map.mp ha.layers) (List.pairwise_map.mp hb.layers)
  cases a
  cases b
  exact congrArg mk hlayers

section
variable {es es' : List (UInt64 × Scale × FeatureId)}

private theorem ofEntries_append_singleton (es : List (UInt64 × Scale × FeatureId))
    (e : UInt64 × Scale × FeatureId) :
    ofEntries (es ++ [e]) = (ofEntries es).insert e.1 e.2.1 e.2.2 := List.foldl_append

private theorem full_ofEntries (es : List (UInt64 × Scale × FeatureId)) : (ofEntries es).Full := by
  induction es using List.reverseRecOn with
  | nil => exact nofun
  | append_singleton es e ih =>
    rw [ofEntries_append_singleton]
    refine forall_insertEntry (P := (· ≠ [])) (List.cons_ne_nil _ _) (fun l _ _ => ?_) ih
    exact List.ne_nil_of_mem (Ascending.mem_insert.mpr (.inl rfl))

/-- The index holds the entries that it was built of. -/
theorem has_ofEntries {s : Scale} {e : Entry} :
    (ofEntries es).Has s e ↔ (e.key, s, e.feature) ∈ es := by
  induction es using List.reverseRecOn with
  | nil => exact iff_of_false (not_has_empty s e) List.not_mem_nil
  | append_singleton es x ih =>
    obtain ⟨key, scale, feature⟩ := x
    obtain ⟨key', feature'⟩ := e
    rw [ofEntries_append_singleton, has_insert, ih, or_comm, List.mem_append, List.mem_singleton]
    simp only [Entry.mk.injEq, Prod.mk.injEq]
    tauto

/-- The order and the repetitions of the entries make no difference. -/
theorem ofEntries_congr (h : ∀ e, e ∈ es ↔ e ∈ es') : ofEntries es = ofEntries es' :=
  eq_of_has (ordered_ofEntries es) (ordered_ofEntries es') (full_ofEntries es) (full_ofEntries es')
    fun s e => by rw [has_ofEntries, has_ofEntries, h]

private theorem size_eq_length_contents (index : CellIndex) :
    index.size = index.contents.length := by
  simp [size, contents, List.length_flatMap]

def insertion (e : Scale × Entry) : UInt64 × Scale × FeatureId := (e.2.key, e.1, e.2.feature)

private theorem insertion_injective : Function.Injective insertion := by
  rintro ⟨s, key, feature⟩ ⟨s', key', feature'⟩ h
  simp only [insertion, Prod.mk.injEq] at h
  obtain ⟨rfl, rfl, rfl⟩ := h
  rfl

/-- No entry is there twice, however often it was inserted. -/
theorem nodup_insertions (es : List (UInt64 × Scale × FeatureId)) :
    ((ofEntries es).contents.map insertion).Nodup :=
  (nodup_contents (ordered_ofEntries es)).map insertion_injective

/-- An index that was built has exactly the entries that were inserted. -/
theorem mem_insertions {e : UInt64 × Scale × FeatureId} :
    e ∈ (ofEntries es).contents.map insertion ↔ e ∈ es := by
  obtain ⟨key, s, feature⟩ := e
  calc
    _ ↔ (s, ⟨key, feature⟩) ∈ (ofEntries es).contents :=
      List.mem_map_of_injective insertion_injective (a := (s, ⟨key, feature⟩))
    _ ↔ _ := by rw [mem_contents, has_ofEntries]

/-- As many entries as were inserted, each counted once. -/
theorem size_ofEntries (es : List (UInt64 × Scale × FeatureId)) :
    (ofEntries es).size = es.toFinset.card := by
  have hset : es.toFinset = ((ofEntries es).contents.map insertion).toFinset := by
    ext e
    rw [List.mem_toFinset, List.mem_toFinset, mem_insertions]
  rw [size_eq_length_contents, hset, List.toFinset_card_of_nodup (nodup_insertions es),
    List.length_map]

end

/-- The entries of each scale as they come, the scales in ascending order. -/
def gather (es : List (UInt64 × Scale × FeatureId)) : List (Scale × List Entry) :=
  es.foldl (fun ls e =>
    Ascending.insertPair e.2.1 ((ls.lookup e.2.1).getD [] ++ [⟨e.1, e.2.2⟩]) ls) []

/-- The index of gathered entries: each layer is sorted at the end, and repetitions go. -/
def ofGathered (ls : List (Scale × List Entry)) : CellIndex :=
  ⟨ls.map fun l => ⟨l.1, Ascending.ofList l.2⟩⟩

private theorem gather_append_singleton (es : List (UInt64 × Scale × FeatureId))
    (e : UInt64 × Scale × FeatureId) :
    gather (es ++ [e]) =
      Ascending.insertPair e.2.1 (((gather es).lookup e.2.1).getD [] ++ [⟨e.1, e.2.2⟩])
        (gather es) := List.foldl_append

private theorem pairwise_gather (es : List (UInt64 × Scale × FeatureId)) :
    ((gather es).map (·.1)).Pairwise (· < ·) := by
  induction es using List.reverseRecOn with
  | nil => exact .nil
  | append_singleton es e ih =>
    rw [gather_append_singleton]
    exact Ascending.pairwise_insertPair ih

private theorem gather_ne_nil (es : List (UInt64 × Scale × FeatureId)) :
    ∀ l ∈ gather es, l.2 ≠ [] := by
  induction es using List.reverseRecOn with
  | nil => exact nofun
  | append_singleton es e ih =>
    rw [gather_append_singleton]
    exact Ascending.forall_insertPair (P := fun l => l.2 ≠ []) (by simp) ih

private theorem mem_gather {es : List (UInt64 × Scale × FeatureId)} {s : Scale} {e : Entry} :
    e ∈ ((gather es).lookup s).getD [] ↔ (e.key, s, e.feature) ∈ es := by
  induction es using List.reverseRecOn with
  | nil => simp [gather]
  | append_singleton es x ih =>
    obtain ⟨key, scale, feature⟩ := x
    obtain ⟨key', feature'⟩ := e
    rw [gather_append_singleton, Ascending.lookup_insertPair (pairwise_gather es), List.mem_append]
    by_cases hs : s = scale
    · subst hs
      simp [← ih]
    · simp [hs, ih]

private theorem has_ofGathered {ls : List (Scale × List Entry)}
    (h : (ls.map (·.1)).Pairwise (· < ·)) {s : Scale} {e : Entry} :
    (ofGathered ls).Has s e ↔ e ∈ (ls.lookup s).getD [] := by
  have hlookup : e ∈ (ls.lookup s).getD [] ↔ ∃ es, ls.lookup s = some es ∧ e ∈ es := by
    cases ls.lookup s <;> simp
  simp only [hlookup, Ascending.lookup_eq_some_iff h]
  constructor
  · rintro ⟨_, hl, rfl, he⟩
    obtain ⟨⟨s, es⟩, hmem, rfl⟩ := List.mem_map.mp hl
    exact ⟨es, hmem, Ascending.mem_ofList.mp he⟩
  · rintro ⟨es, hmem, he⟩
    exact ⟨_, List.mem_map_of_mem hmem, rfl, Ascending.mem_ofList.mpr he⟩

/-- Sorting the layers at the end, as all entries of a scale are there, gives the same index. -/
theorem ofGathered_gather (es : List (UInt64 × Scale × FeatureId)) :
    ofGathered (gather es) = ofEntries es := by
  have hordered : (ofGathered (gather es)).Ordered := by
    refine ⟨by simpa [ofGathered, Function.comp_def] using pairwise_gather es, ?_⟩
    intro l hl
    obtain ⟨g, -, rfl⟩ := List.mem_map.mp hl
    exact Ascending.pairwise_ofList g.2
  have hfull : (ofGathered (gather es)).Full := by
    intro l hl
    obtain ⟨g, hg, rfl⟩ := List.mem_map.mp hl
    obtain ⟨e, he⟩ := List.exists_mem_of_ne_nil _ (gather_ne_nil es g hg)
    exact List.ne_nil_of_mem (Ascending.mem_ofList.mpr he)
  exact eq_of_has hordered (ordered_ofEntries es) hfull (full_ofEntries es) fun s e => by
    rw [has_ofGathered (pairwise_gather es), mem_gather, has_ofEntries]

end Gazetteer.CellIndex
