import Gazetteer.Proofs.Partition.Built
import Gazetteer.Proofs.Trie.Codec
import Gazetteer.Proofs.Trie.Insertion

/-! The text index of a built partition: under each word of each name the features that have it, in
the language of the name. -/
namespace Gazetteer

/-- A word of a name of the feature in a language. -/
def Feature.HasWord (f : Feature) (l : Language) (word : String) : Prop :=
  ∃ n ∈ f.names, Language.ofIndex? n.language = some l ∧ word ∈ Text.words n.text

private theorem mem_flatten_of_mapM {α β ε : Type} {view : α → Except ε (List β)} {as : List α}
    {bss : List (List β)} (h : as.mapM view = .ok bss) {b : β} :
    b ∈ bss.flatten ↔ ∃ a ∈ as, ∃ bs, view a = .ok bs ∧ b ∈ bs := by
  induction as generalizing bss with
  | nil =>
    cases h
    simp
  | cons a as ih =>
    rw [List.mapM_cons] at h
    obtain ⟨bs, ha, h⟩ := exists_of_bind h
    obtain ⟨rest, has, h⟩ := exists_of_bind h
    cases h
    simp [ih has, ha]

/-- The words of a feature are those of its names. -/
theorem Feature.mem_words {f : Feature} {ws : List (Language × String)} (h : f.words = .ok ws)
    {l : Language} {word : String} : (l, word) ∈ ws ↔ f.HasWord l word := by
  obtain ⟨named, hnamed, h⟩ := exists_of_bind h
  cases h
  refine (mem_flatten_of_mapM hnamed).trans (exists_congr fun n => and_congr_right fun _ => ?_)
  cases Language.ofIndex? n.language with
  | none => simp
  | some m => simp [eq_comm, and_comm]

/-- A feature has words to file exactly if its names are in known languages. -/
theorem Feature.exists_words_iff {f : Feature} :
    (∃ ws, f.words = .ok ws) ↔ ∀ n ∈ f.names, ∃ l, Language.ofIndex? n.language = some l := by
  refine exists_bind_pure_iff.trans (exists_mapM_iff.trans (forall₂_congr fun n _ => ?_))
  cases Language.ofIndex? n.language with
  | none => simp
  | some l => simp

namespace Draft

def Filed (count : Nat) (vs : List FeatureId) : Prop :=
  vs.Pairwise (· < ·) ∧ ∀ v ∈ vs, v.toNat < count

private theorem Filed.length_le {count : Nat} {vs : List FeatureId} (h : Filed count vs) :
    vs.length ≤ count := by
  have hnodup : (vs.map UInt32.toNat).Nodup :=
    (Ascending.nodup_of_pairwise h.1).map fun _ _ => UInt32.toNat_inj.mp
  rw [← List.length_map UInt32.toNat]
  apply length_le_of_nodup hnodup
  intro n hn
  obtain ⟨v, hv, rfl⟩ := List.mem_map.mp hn
  exact h.2 v hv

private theorem Filed.insert {count : Nat} {vs : List FeatureId} (h : Filed count vs)
    {id : FeatureId} (hid : id.toNat < count) : Filed count (Ascending.insert id vs) := by
  refine ⟨Ascending.pairwise_insert h.1, ?_⟩
  intro v hv
  rcases Ascending.mem_insert.mp hv with rfl | hv
  · exact hid
  · exact h.2 v hv

private theorem insertWords_spec {t : Trie} (ht : t.Forest) (ws : List (Language × String))
    (id : FeatureId) {count : Nat} (hid : id.toNat < count) (hfiled : ∀ j, Filed count (t.values j)) :
    let t' := ws.foldl (fun t w => t.insert w.1 w.2 id) t
    t'.Forest ∧ (∀ j, Filed count (t'.values j)) ∧ ∀ l labels id',
      id' ∈ t'.valuesAt l labels ↔
        id' ∈ t.valuesAt l labels ∨ id' = id ∧ ∃ word, (l, word) ∈ ws ∧ labels = word.toList := by
  induction ws generalizing t with
  | nil => exact ⟨ht, hfiled, fun l labels id' => by simp⟩
  | cons w ws ih =>
    obtain ⟨hforest, hfiled', hmem⟩ := ih (ht.insert w.1 w.2 id).1
      (Trie.forall_values_insert ht (fun _ hvs => hvs.insert hid) hfiled)
    refine ⟨hforest, hfiled', fun l labels id' => (hmem l labels id').trans ?_⟩
    rw [Trie.mem_valuesAt_insert ht]
    constructor
    · rintro ((⟨rfl, rfl, rfl⟩ | hold) | ⟨rfl, word, hword, rfl⟩)
      · exact .inr ⟨rfl, w.2, .head _, rfl⟩
      · exact .inl hold
      · exact .inr ⟨rfl, word, .tail _ hword, rfl⟩
    · rintro (hold | ⟨rfl, word, hword, rfl⟩)
      · exact .inl (.inr hold)
      · rcases List.mem_cons.mp hword with rfl | hword
        · exact .inl (.inl ⟨rfl, rfl, rfl⟩)
        · exact .inr ⟨rfl, word, hword, rfl⟩

private def file (t : Trie) (f : Feature × FeatureId) : Except PartitionError Trie := do
  return (← f.1.words).foldl (fun t w => t.insert w.1 w.2 f.2) t

private theorem insertAll_spec {t t' : Trie} (ht : t.Forest) {fs : List (Feature × FeatureId)}
    {count : Nat} (hids : ∀ f ∈ fs, f.2.toNat < count) (hfiled : ∀ j, Filed count (t.values j))
    (h : fs.foldlM file t = .ok t') :
    t'.Forest ∧ (∀ j, Filed count (t'.values j)) ∧ ∀ l labels id,
      id ∈ t'.valuesAt l labels ↔ id ∈ t.valuesAt l labels ∨
        ∃ f, (f, id) ∈ fs ∧ ∃ word, f.HasWord l word ∧ labels = word.toList := by
  induction fs generalizing t with
  | nil =>
    cases h
    exact ⟨ht, hfiled, fun l labels id => by simp⟩
  | cons f fs ih =>
    obtain ⟨hid, hids⟩ := List.forall_mem_cons.mp hids
    rw [List.foldlM_cons] at h
    obtain ⟨t₁, hstep, h⟩ := exists_of_bind h
    obtain ⟨ws, hws, hstep⟩ := exists_of_bind hstep
    cases hstep
    obtain ⟨ht₁, hfiled₁, hmem₁⟩ := insertWords_spec ht ws f.2 hid hfiled
    obtain ⟨ht', hfiled', hmem'⟩ := ih ht₁ hids hfiled₁ h
    refine ⟨ht', hfiled', fun l labels id => (hmem' l labels id).trans ?_⟩
    simp only [hmem₁, Feature.mem_words hws, List.mem_cons]
    constructor
    · rintro ((hold | ⟨rfl, hword⟩) | ⟨g, hg, hword⟩)
      · exact .inl hold
      · exact .inr ⟨f.1, .inl rfl, hword⟩
      · exact .inr ⟨g, .inr hg, hword⟩
    · rintro (hold | ⟨g, rfl | hg, hword⟩)
      · exact .inl (.inl hold)
      · exact .inl (.inr ⟨rfl, hword⟩)
      · exact .inr ⟨g, hg, hword⟩

/-- Whether a trie has few enough nodes can be told by building it. -/
theorem nodes_lt_of_all {d : Draft}
    (h : d.textIndex.toOption.all (·.nodes.size < 2 ^ 32) = true) :
    ∀ t, d.textIndex = .ok t → t.nodes.size < 2 ^ 32 := by
  intro t ht
  rw [ht] at h
  exact of_decide_eq_true h

/-- There is a text index exactly if each name is in a known language. -/
theorem exists_textIndex_iff {d : Draft} :
    (∃ t, d.textIndex = .ok t) ↔
      ∀ f ∈ d.features, ∀ n ∈ f.names, ∃ l, Language.ofIndex? n.language = some l := by
  have hstep (t : Trie) (f : Feature × FeatureId) : (∃ t', file t f = .ok t') ↔
      ∀ n ∈ f.1.names, ∃ l, Language.ofIndex? n.language = some l :=
    exists_bind_pure_iff.trans Feature.exists_words_iff
  have hfeatures : d.numbered.map (·.1) = d.features := by
    simp [numbered, Function.comp_def]
  refine (exists_foldlM_iff hstep).trans ?_
  rw [← hfeatures, List.forall_mem_map]

/-- The text index is a forest with the features in it filed, and a path in it has the features with
the word that the path spells. -/
theorem textIndex_spec {d : Draft} {t : Trie} (ht : d.textIndex = .ok t)
    (hcount : d.features.length < 2 ^ 32) :
    t.Forest ∧ (∀ j, Filed d.features.length (t.values j)) ∧ ∀ l labels id,
      id ∈ t.valuesAt l labels ↔
        ∃ f, d.features[id.toNat]? = some f ∧ ∃ word, f.HasWord l word ∧ labels = word.toList := by
  have hids : ∀ f ∈ d.numbered, f.2.toNat < d.features.length := by
    intro f hf
    exact (List.getElem?_eq_some_iff.mp ((mem_numbered hcount).mp hf)).1
  have hempty : ∀ j, Filed d.features.length (Trie.empty.values j) := fun j => ⟨.nil, nofun⟩
  obtain ⟨hforest, hfiled, hmem⟩ := insertAll_spec Trie.forest_empty hids hempty ht
  refine ⟨hforest, hfiled, fun l labels id => (hmem l labels id).trans ?_⟩
  simp [Trie.valuesAt_empty, mem_numbered hcount]

/-- The text index in the section of a built partition is the index of the features. -/
theorem textIndex_of_finish {d : Draft} {p : Partition} (hp : d.finish = .ok p)
    (hcount : d.features.length < 2 ^ 32)
    (hnodes : ∀ t, d.textIndex = .ok t → t.nodes.size < 2 ^ 32) :
    ∃ t, d.textIndex = .ok t ∧ p.textIndex = .ok t := by
  obtain ⟨-, -, t, ht, hsection⟩ := finish_spec hp
  obtain ⟨hforest, hfiled, -⟩ := textIndex_spec ht hcount
  have hvalues : ∀ node ∈ t.nodes.toList, node.values.length < 2 ^ 32 := by
    intro node hnode
    obtain ⟨j, hj⟩ := List.getElem?_of_mem hnode
    have hnode : node.values = t.values j := by
      rw [Array.getElem?_toList] at hj
      simp [Trie.values, hj]
    exact Nat.lt_of_le_of_lt (hnode ▸ (hfiled j).length_le) hcount
  refine ⟨t, ht, ?_⟩
  rw [Partition.textIndex_of_section hsection, hforest.decode_encode (hnodes t ht) hvalues]
  rfl

/-- It is a forest, and a path in it has the features with the word that the path spells. -/
theorem textIndex_built {d : Draft} {p : Partition} (hp : d.finish = .ok p)
    (hcount : d.features.length < 2 ^ 32)
    (hnodes : ∀ t, d.textIndex = .ok t → t.nodes.size < 2 ^ 32) :
    ∃ t, p.textIndex = .ok t ∧ t.Forest ∧ ∀ l labels id,
      id ∈ t.valuesAt l labels ↔
        ∃ f, d.features[id.toNat]? = some f ∧ ∃ word, f.HasWord l word ∧ labels = word.toList := by
  obtain ⟨t, ht, hread⟩ := textIndex_of_finish hp hcount hnodes
  obtain ⟨hforest, -, hvalues⟩ := textIndex_spec ht hcount
  exact ⟨t, hread, hforest, hvalues⟩

end Draft
end Gazetteer
