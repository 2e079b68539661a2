import Gazetteer.Proofs.Query.TextMatches
import Gazetteer.Proofs.Trie.Codec

/-! The text matches of a query as a search works them out: word after word, with the features that
are left so far, and no further once none is left. What is handed out in the end is what the words
ask for, whatever trie was read. -/
namespace Gazetteer.Query

/-- What is left after one more word. Before the first word nothing is ruled out. -/
def narrow (left : Option (List FeatureId)) (word : List FeatureId) : List FeatureId :=
  left.elim word (Ascending.inter · word)

/-- What is left after all the words, the rest of which are not looked at once nothing is left. -/
def narrowAll (left : Option (List FeatureId)) : (words : List (List FeatureId)) → List FeatureId
  | [] => left.getD []
  | word :: words =>
    match narrow left word with
    | [] => []
    | id :: ids => narrowAll (some (id :: ids)) words

/-- The features that match the query in the trie and are to be kept, in the order in which they are
handed out. -/
def handOut (q : Query) (t : Trie) (keep : FeatureId → Bool) : List FeatureId :=
  if q.isEmpty then [] else (narrowAll none (q.wordMatches t)).filter keep

private theorem foldl_inter_nil (words : List (List FeatureId)) :
    words.foldl Ascending.inter [] = [] := by
  induction words with
  | nil => rfl
  | cons word words ih => rwa [List.foldl_cons, Ascending.inter]

private theorem narrowAll_cons (left : Option (List FeatureId)) (word : List FeatureId)
    (words : List (List FeatureId)) :
    narrowAll left (word :: words) = words.foldl Ascending.inter (narrow left word) := by
  -- A word that leaves nothing makes all others leave nothing too.
  induction words generalizing left word with
  | nil =>
    rw [narrowAll]
    cases narrow left word <;> rfl
  | cons next words ih =>
    rw [narrowAll]
    cases narrow left word with
    | nil => exact (foldl_inter_nil _).symm
    | cons id ids => exact ih (some (id :: ids)) next

private theorem narrowAll_wordMatches (q : Query) (t : Trie) :
    narrowAll none (q.wordMatches t) = q.textMatches t := by
  unfold textMatches
  cases q.wordMatches t with
  | nil => rfl
  | cons first others => exact narrowAll_cons none first others

/-- Features that are handed out one by one are those of the plain search, filtered. -/
theorem handOut_eq (q : Query) (t : Trie) (keep : FeatureId → Bool) :
    q.handOut t keep = (q.textMatches t).filter keep := by
  unfold handOut
  split
  · next hempty =>
    have hnone : q.textMatches t = [] := by
      refine List.eq_nil_iff_forall_not_mem.mpr fun id hid => ?_
      exact Bool.false_ne_true ((mem_textMatches.mp hid).1.symm.trans hempty)
    rw [hnone, List.filter_nil]
  · rw [narrowAll_wordMatches]

/-- Without a filter, all features that match are handed out. -/
theorem handOut_all (q : Query) (t : Trie) : (q.handOut t fun _ => true) = q.textMatches t := by
  rw [handOut_eq, List.filter_eq_self.mpr fun _ _ => rfl]

/-- The order of the words makes no difference. -/
theorem textMatches_of_perm {q : Query} {words : List (List String)} (h : words.Perm q.words)
    (t : Trie) : { q with words }.textMatches t = q.textMatches t := by
  refine Ascending.eq_of_pairwise (pairwise_textMatches _ t) (pairwise_textMatches q t) fun id => ?_
  simp only [mem_textMatches, isEmpty, h.mem_iff, h.isEmpty_eq]
  rfl

/-- The trie lists the feature as the words of the query ask for it. -/
structure Fits (q : Query) (t : Trie) (id : FeatureId) : Prop where
  asks : q.words ≠ [] ∨ q.beginnings ≠ []
  /-- Each word has a form whose node lists the feature, in a language that counts. -/
  words : ∀ forms ∈ q.words, ∃ form ∈ forms, ∃ l, q.allows l ∧
    ∃ i, t.find? l form = some i ∧ id ∈ t.values i
  /-- The last word, if it may go on, has a form with a node from which edges lead to one that lists
  the feature. -/
  beginnings : q.beginnings ≠ [] → ∃ form ∈ q.beginnings, ∃ l, q.allows l ∧
    ∃ i, t.find? l form = some i ∧ ∃ more j, t.Leads i more j ∧ id ∈ t.values j

/-- What is handed out can be told by looking at each feature alone. -/
theorem mem_handOut {q : Query} {t : Trie} (h : t.Forest) {keep : FeatureId → Bool}
    {id : FeatureId} : id ∈ q.handOut t keep ↔ keep id = true ∧ q.Fits t id := by
  have hasks : q.isEmpty = false ↔ q.words ≠ [] ∨ q.beginnings ≠ [] := by
    simp [isEmpty, Decidable.or_iff_not_imp_left]
  have hbelow : id ∈ q.found t t.valuesBelow q.beginnings ↔ ∃ form ∈ q.beginnings, ∃ l, q.allows l ∧
      ∃ i, t.find? l form = some i ∧ ∃ more j, t.Leads i more j ∧ id ∈ t.values j := by
    rw [mem_found_of_forest h]
    refine exists_congr fun form => and_congr_right fun _ => exists_congr fun l => ?_
    refine and_congr_right fun _ => exists_congr fun i => and_congr_right fun hi => ?_
    exact h.mem_valuesBelow_iff_leads (h.lt_of_path? hi)
  rw [handOut_eq, List.mem_filter, and_comm, mem_textMatches, hasks, hbelow]
  refine and_congr_right fun _ => ⟨?_, ?_⟩
  · rintro ⟨hasks, hwords, hbeginnings⟩
    exact ⟨hasks, fun forms hf => (mem_found_of_forest h).mp (hwords forms hf), hbeginnings⟩
  · rintro ⟨hasks, hwords, hbeginnings⟩
    exact ⟨hasks, fun forms hf => (mem_found_of_forest h).mpr (hwords forms hf), hbeginnings⟩

/-- Whatever trie was read, be its values in no order and repeated, the features of a query are
handed out in ascending order: those that are to be kept and fit the query. Giving up early, the
order of the words, and leaving features out while the others are handed out, instead of after that,
change nothing. -/
theorem handOut_of_decode {bytes : Bytes} {t : Trie} (h : Trie.decode bytes = .ok t) (q : Query)
    (keep : FeatureId → Bool) :
    (q.handOut t keep).Pairwise (· < ·) ∧
      (∀ id, id ∈ q.handOut t keep ↔ keep id = true ∧ q.Fits t id) ∧
      q.handOut t keep = (q.textMatches t).filter keep ∧
      q.handOut t keep = (q.handOut t fun _ => true).filter keep ∧
      ∀ words : List (List String), words.Perm q.words →
        { q with words }.handOut t keep = q.handOut t keep := by
  have hforest := (Trie.forest_of_decode h).1
  refine ⟨?_, fun id => mem_handOut hforest, handOut_eq q t keep, ?_, ?_⟩
  · rw [handOut_eq]
    exact (pairwise_textMatches q t).filter keep
  · rw [handOut_eq, handOut_all]
  · intro words hperm
    rw [handOut_eq, handOut_eq, textMatches_of_perm hperm]

/-- A stored trie with values in no order and repeated, and a query with a word that one feature
lacks, where another feature is not to be kept. -/
theorem handOut_inn :
    let t : Trie := ⟨[(1, 0)], #[⟨[('i', 1)], []⟩, ⟨[('n', 2)], []⟩, ⟨[('n', 3)], [4]⟩,
      ⟨[], [7, 2, 7]⟩]⟩
    let q : Query := { words := [["in", "inn"], ["inn"]], beginnings := ["i"], languages := [.en] }
    let out := { q with words := [["inn"], ["in", "inn"]] }.handOut t fun id => id != 2
    Trie.decode t.encode = .ok t ∧ q.Fits t 7 ∧
      out.Pairwise (· < ·) ∧ 7 ∈ out ∧ 2 ∉ out ∧ 4 ∉ out := by
  intro t q out
  have hread : Trie.decode t.encode = .ok t := by decide +kernel
  have hinn : t.find? .en "inn" = some 3 := by decide +kernel
  obtain ⟨hord, hmem, -, -, hperm⟩ := handOut_of_decode hread q fun id => id != 2
  rw [show out = q.handOut t fun id => id != 2 from hperm _ (List.Perm.swap _ _ _)]
  have hfits : q.Fits t 7 := by
    refine ⟨.inl (by decide), fun forms hforms => ?_, fun _ => ?_⟩
    · have hform : "inn" ∈ forms := by
        revert hforms forms
        decide
      exact ⟨"inn", hform, .en, by decide, 3, hinn, by decide +kernel⟩
    · exact ⟨"i", by decide, .en, by decide, 1, by decide +kernel, ['n', 'n'], 3,
        .step (k := 2) (by decide) (.step (by decide) (.here 3)), by decide +kernel⟩
  refine ⟨hread, hfits, hord, (hmem 7).mpr ⟨by decide, hfits⟩, ?_, ?_⟩
  · exact fun h => absurd ((hmem 2).mp h).1 (by decide)
  · intro h
    obtain ⟨form, hform, l, hl, i, hi, hid⟩ := ((hmem 4).mp h).2.words ["inn"] (by decide)
    cases List.mem_singleton.mp hform
    cases (by simpa [allows, q] using hl : l = .en)
    cases hinn.symm.trans hi
    exact absurd hid (by decide +kernel)

end Gazetteer.Query
