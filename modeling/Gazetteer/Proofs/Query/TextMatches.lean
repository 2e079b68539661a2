import Gazetteer.Proofs.Trie.Paths
import Gazetteer.Query.Matching

/-! What the text of a query matches in a trie, as a condition on one feature at a time. -/
namespace Gazetteer.Query

/-- Forms find the features at the nodes that they lead to, in the languages that count. -/
theorem mem_found {q : Query} {t : Trie} {featuresAt : Nat → List FeatureId} {forms : List String}
    {id : FeatureId} :
    id ∈ q.found t featuresAt forms ↔
      ∃ l ∈ t.languages, q.allows l ∧ ∃ form ∈ forms, ∃ i, t.find? l form = some i ∧
        id ∈ featuresAt i := by
  simp only [found, Ascending.mem_ofList, List.mem_flatMap, List.mem_filter]
  constructor
  · rintro ⟨l, ⟨hl, ha⟩, form, hf, hid⟩
    cases hi : t.find? l form with
    | none => simp [hi] at hid
    | some i => exact ⟨l, hl, ha, form, hf, i, hi, by simpa [hi] using hid⟩
  · rintro ⟨l, hl, ha, form, hf, i, hi, hid⟩
    exact ⟨l, ⟨hl, ha⟩, form, hf, by simpa [hi] using hid⟩

/-- In a forest a form need only have a node in a language that counts. -/
theorem mem_found_of_forest {q : Query} {t : Trie} (h : t.Forest)
    {featuresAt : Nat → List FeatureId} {forms : List String} {id : FeatureId} :
    id ∈ q.found t featuresAt forms ↔ ∃ form ∈ forms, ∃ l, q.allows l ∧
      ∃ i, t.find? l form = some i ∧ id ∈ featuresAt i := by
  rw [mem_found]
  constructor
  · rintro ⟨l, -, ha, form, hf, i, hi, hid⟩
    exact ⟨form, hf, l, ha, i, hi, hid⟩
  · rintro ⟨form, hf, l, ha, i, hi, hid⟩
    exact ⟨l, h.mem_languages hi, ha, form, hf, i, hi, hid⟩

/-- The features found under complete words are the values of the paths that spell them. -/
theorem mem_found_values {q : Query} {t : Trie} (h : t.Forest) {forms : List String}
    {id : FeatureId} :
    id ∈ q.found t t.values forms ↔
      ∃ l, q.allows l ∧ ∃ form ∈ forms, id ∈ t.valuesAt l form.toList := by
  rw [mem_found_of_forest h]
  constructor
  · rintro ⟨form, hf, l, ha, hid⟩
    exact ⟨l, ha, form, hf, Trie.mem_valuesAt.mpr hid⟩
  · rintro ⟨l, ha, form, hf, hid⟩
    exact ⟨form, hf, l, ha, Trie.mem_valuesAt.mp hid⟩

/-- The features found under words that may go on are the values of the paths that extend those that
spell them. -/
theorem mem_found_valuesBelow {q : Query} {t : Trie} (h : t.Forest) {forms : List String}
    {id : FeatureId} :
    id ∈ q.found t t.valuesBelow forms ↔
      ∃ l, q.allows l ∧ ∃ form ∈ forms, ∃ more, id ∈ t.valuesAt l (form.toList ++ more) := by
  rw [mem_found_of_forest h]
  constructor
  · rintro ⟨form, hf, l, ha, i, hi, hid⟩
    exact ⟨l, ha, form, hf, (h.mem_valuesBelow hi).mp hid⟩
  · rintro ⟨l, ha, form, hf, more, hid⟩
    obtain ⟨j, hj, _⟩ := Trie.mem_valuesAt.mp hid
    rw [Trie.path?_append] at hj
    obtain ⟨i, hi, _⟩ := Option.bind_eq_some_iff.mp hj
    exact ⟨form, hf, l, ha, i, hi, (h.mem_valuesBelow hi).mpr ⟨more, hid⟩⟩

private theorem pairwise_wordMatches {q : Query} {t : Trie} {ids : List FeatureId}
    (h : ids ∈ q.wordMatches t) : ids.Pairwise (· < ·) := by
  rcases List.mem_append.mp h with h | h
  · obtain ⟨forms, _, rfl⟩ := List.mem_map.mp h
    exact Ascending.pairwise_ofList _
  · split at h
    · cases h
    · cases List.mem_singleton.mp h
      exact Ascending.pairwise_ofList _

private theorem foldl_inter {first : List FeatureId} {others : List (List FeatureId)}
    (hf : first.Pairwise (· < ·)) (ho : ∀ ids ∈ others, ids.Pairwise (· < ·)) :
    (others.foldl Ascending.inter first).Pairwise (· < ·) ∧
      ∀ id, id ∈ others.foldl Ascending.inter first ↔ id ∈ first ∧ ∀ ids ∈ others, id ∈ ids := by
  induction others generalizing first with
  | nil => simpa using hf
  | cons ids others ih =>
    obtain ⟨hids, ho⟩ := List.forall_mem_cons.mp ho
    obtain ⟨hs, hm⟩ := ih (Ascending.pairwise_inter hf ids) ho
    refine ⟨hs, ?_⟩
    intro id
    rw [List.foldl_cons, hm, Ascending.mem_inter hf hids, List.forall_mem_cons, and_assoc]

theorem pairwise_textMatches (q : Query) (t : Trie) : (q.textMatches t).Pairwise (· < ·) := by
  have hall := @pairwise_wordMatches q t
  unfold textMatches
  cases hw : q.wordMatches t with
  | nil => exact List.Pairwise.nil
  | cons first others =>
    rw [hw] at hall
    exact (foldl_inter (hall List.mem_cons_self) fun ids h => hall (List.mem_cons_of_mem _ h)).1

/-- A feature matches if it matches each word of a query that has words. Neither the order of the
words nor giving up early matters. -/
theorem mem_textMatches {q : Query} {t : Trie} {id : FeatureId} :
    id ∈ q.textMatches t ↔ q.isEmpty = false ∧ (∀ forms ∈ q.words, id ∈ q.found t t.values forms) ∧
      (q.beginnings ≠ [] → id ∈ q.found t t.valuesBelow q.beginnings) := by
  have hmem : id ∈ q.textMatches t ↔
      q.wordMatches t ≠ [] ∧ ∀ ids ∈ q.wordMatches t, id ∈ ids := by
    have hall := @pairwise_wordMatches q t
    unfold textMatches
    cases hw : q.wordMatches t with
    | nil => simp
    | cons first others =>
      rw [hw] at hall
      simpa using (foldl_inter (hall List.mem_cons_self) fun ids h =>
        hall (List.mem_cons_of_mem _ h)).2 id
  rw [hmem]
  by_cases hb : q.beginnings = []
  · simp [wordMatches, isEmpty, hb]
  · simp [wordMatches, isEmpty, hb, or_imp, forall_and]

end Gazetteer.Query
