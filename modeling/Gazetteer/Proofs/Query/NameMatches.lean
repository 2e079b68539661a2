import Gazetteer.Proofs.Partition.TextIndex
import Gazetteer.Proofs.Query.TextMatches

/-! What the text of a query matches in a built partition, as a condition on the names of one
feature at a time. -/
namespace Gazetteer.Query

/-- A word of a name of the feature in a language that counts. -/
def Knows (q : Query) (f : Feature) (word : String) : Prop := ∃ l, q.allows l ∧ f.HasWord l word

/-- The query has words, one form of each complete word is a word of the feature, and if there is a
word that may go on, a form of it begins one. Different words may be found in different names. -/
def Matches (q : Query) (f : Feature) : Prop :=
  q.isEmpty = false ∧ (∀ forms ∈ q.words, ∃ form ∈ forms, q.Knows f form) ∧
    (q.beginnings ≠ [] → ∃ form ∈ q.beginnings, ∃ word, q.Knows f word ∧ form.toList <+: word.toList)

/-- A search by text in a trie that leads from the words of each feature to its number finds exactly
the features that match. -/
theorem mem_textMatches_of_values {d : Draft} {t : Trie} (hforest : t.Forest)
    (hvalues : ∀ l labels id, id ∈ t.valuesAt l labels ↔
      ∃ f, d.features[id.toNat]? = some f ∧ ∃ word, f.HasWord l word ∧ labels = word.toList)
    {q : Query} {id : FeatureId} :
    id ∈ q.textMatches t ↔ ∃ f, d.features[id.toNat]? = some f ∧ q.Matches f := by
  have hword (forms : List String) : id ∈ q.found t t.values forms ↔
      ∃ f, d.features[id.toNat]? = some f ∧ ∃ form ∈ forms, q.Knows f form := by
    rw [mem_found_values hforest]
    simp only [hvalues]
    constructor
    · rintro ⟨l, hl, form, hform, f, hf, word, hword, he⟩
      cases String.toList_inj.mp he
      exact ⟨f, hf, form, hform, l, hl, hword⟩
    · rintro ⟨f, hf, form, hform, l, hl, hword⟩
      exact ⟨l, hl, form, hform, f, hf, form, hword, rfl⟩
  have hbeginning (forms : List String) : id ∈ q.found t t.valuesBelow forms ↔
      ∃ f, d.features[id.toNat]? = some f ∧
        ∃ form ∈ forms, ∃ word, q.Knows f word ∧ form.toList <+: word.toList := by
    rw [mem_found_valuesBelow hforest]
    simp only [hvalues]
    constructor
    · rintro ⟨l, hl, form, hform, more, f, hf, word, hword, he⟩
      exact ⟨f, hf, form, hform, word, ⟨l, hl, hword⟩, more, he⟩
    · rintro ⟨f, hf, form, hform, word, ⟨l, hl, hword⟩, more, he⟩
      exact ⟨l, hl, form, hform, more, f, hf, word, hword, he⟩
  simp only [mem_textMatches, hword, hbeginning]
  cases hf : d.features[id.toNat]? with
  | some f => simp [Matches]
  | none =>
    -- A number without a feature is found under no word, and there is one.
    apply iff_of_false _ (by simp)
    rintro ⟨hempty, hwords, hbegin⟩
    cases hw : q.words with
    | cons forms _ =>
      obtain ⟨_, hnone, _⟩ := hwords forms (by simp [hw])
      cases hnone
    | nil =>
      have hb : q.beginnings ≠ [] := fun hb => by simp [isEmpty, hw, hb] at hempty
      obtain ⟨_, hnone, _⟩ := hbegin hb
      cases hnone

/-- A search by text in a built partition succeeds and finds exactly the features that match, in
ascending order. -/
theorem textMatches_built {d : Draft} {p : Partition} (hp : d.finish = .ok p)
    (hcount : d.features.length < 2 ^ 32)
    (hnodes : ∀ t, d.textIndex = .ok t → t.nodes.size < 2 ^ 32) (q : Query) :
    ∃ t, p.textIndex = .ok t ∧ (q.textMatches t).Pairwise (· < ·) ∧
      ∀ id, id ∈ q.textMatches t ↔ ∃ f, d.features[id.toNat]? = some f ∧ q.Matches f := by
  obtain ⟨t, ht, hforest, hvalues⟩ := Draft.textIndex_built hp hcount hnodes
  exact ⟨t, ht, q.pairwise_textMatches t, fun _ => mem_textMatches_of_values hforest hvalues⟩

/-- A feature with one name has the words of this name, if its language counts. -/
theorem knows_iff_of_names {q : Query} {f : Feature} {l : Language} {name word : String}
    (hl : q.allows l = true) (h : f.names = [⟨l.index, name⟩]) :
    q.Knows f word ↔ word ∈ Text.words name := by
  simp only [Knows, Feature.HasWord, h, List.mem_singleton, exists_eq_left, Language.ofIndex?_index,
    Option.some.injEq]
  constructor
  · rintro ⟨_, -, rfl, hword⟩
    exact hword
  · exact fun hword => ⟨l, hl, rfl, hword⟩

/-- The old inn is found by a word of its name and the beginning of another. The new inn has only
the word, and the old bar only the beginning. -/
theorem textMatches_inn :
    let q : Query := { words := [["hotel", "inn"]], beginnings := ["ol"] }
    ∃ p t, Draft.inns.finish = .ok p ∧ p.textIndex = .ok t ∧
      0 ∈ q.textMatches t ∧ 1 ∉ q.textMatches t ∧ 2 ∉ q.textMatches t := by
  intro q
  obtain ⟨p, hp⟩ := Draft.finish_inns
  obtain ⟨t, ht, -, hmem⟩ :=
    textMatches_built hp (by decide) (Draft.nodes_lt_of_all (by decide +kernel)) q
  refine ⟨p, t, hp, ht, ?_, ?_, ?_⟩ <;> rw [hmem]
  · refine ⟨_, rfl, rfl, List.forall_mem_singleton.mpr ?_, fun _ => ?_⟩
    · exact ⟨"inn", by decide, (knows_iff_of_names rfl rfl).mpr (by decide +kernel)⟩
    · exact ⟨"ol", .head _, "old", (knows_iff_of_names rfl rfl).mpr (by decide +kernel), by decide⟩
  · rintro ⟨_, ⟨⟩, -, -, hbegin⟩
    have hnone : ∀ word ∈ Text.words "New Inn", ¬ "ol".toList <+: word.toList := by decide +kernel
    obtain ⟨form, hform, word, hword, hbegins⟩ := hbegin nofun
    cases List.mem_singleton.mp hform
    exact hnone word ((knows_iff_of_names rfl rfl).mp hword) hbegins
  · rintro ⟨_, ⟨⟩, -, hwords, -⟩
    have hnone : ∀ form ∈ ["hotel", "inn"], form ∉ Text.words "Old Bar" := by decide +kernel
    obtain ⟨form, hform, hword⟩ := hwords _ (.head _)
    exact hnone form hform ((knows_iff_of_names rfl rfl).mp hword)

end Gazetteer.Query
