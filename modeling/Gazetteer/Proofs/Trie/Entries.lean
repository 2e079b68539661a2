import Gazetteer.Proofs.Trie.Insertion
import Gazetteer.Proofs.Trie.Walks

/-! Tries that are built by insertions, one after another. Such a trie has the languages that were
inserted, a node for each beginning of an inserted token, and at each node the features that were
inserted under its token; so what is below a node is what was inserted with its token's
beginning. -/
namespace Gazetteer

namespace Language

private theorem index_of_ofIndex? {i : UInt8} {l : Language} (h : ofIndex? i = some l) :
    l.index = i := by
  have hall : ∀ n : Fin all.length, all[n].index = UInt8.ofNat n := by decide
  obtain ⟨hlt, rfl⟩ := List.getElem?_eq_some_iff.mp h
  exact (hall ⟨i.toNat, hlt⟩).trans UInt8.ofNat_toNat

private theorem pairwise_all : all.Pairwise fun l l' => l.index < l'.index := by decide

/-- The order of the indices and the members make a list of languages. -/
theorem eq_of_pairwise {ls ls' : List Language} (h : ls.Pairwise fun l l' => l.index < l'.index)
    (h' : ls'.Pairwise fun l l' => l.index < l'.index) (hmem : ∀ l, l ∈ ls ↔ l ∈ ls') : ls = ls' := by
  refine List.map_injective_iff.mpr (fun _ _ => index_injective) ?_
  refine Ascending.eq_of_pairwise (List.pairwise_map.mpr h) (List.pairwise_map.mpr h') fun i => ?_
  simp only [List.mem_map, hmem]

end Language

namespace Trie

namespace Forest
variable {t : Trie} (h : t.Forest)
include h

private theorem mem_languages_iff {l : Language} : l ∈ t.languages ↔ (t.path? l []).isSome := by
  constructor
  · intro hl
    obtain ⟨⟨i, root⟩, hroot, hindex⟩ := List.mem_filterMap.mp hl
    cases Language.index_of_ofIndex? hindex
    rw [path?_nil]
    exact Option.isSome_of_eq_some (h.root?_eq_some_iff.mpr hroot)
  · intro hl
    obtain ⟨root, hroot⟩ := Option.isSome_iff_exists.mp hl
    exact h.mem_languages hroot

private theorem pairwise_languages : t.languages.Pairwise fun l l' => l.index < l'.index := by
  refine List.pairwise_filterMap.mpr ((List.pairwise_map.mp h.roots).imp ?_)
  intro r r' hlt l hl l' hl'
  rwa [Language.index_of_ofIndex? hl, Language.index_of_ofIndex? hl']

end Forest

private theorem ofEntries_append_singleton (es : List (Language × String × FeatureId))
    (e : Language × String × FeatureId) :
    ofEntries (es ++ [e]) = (ofEntries es).insert e.1 e.2.1 e.2.2 :=
  List.foldl_concat ..

variable {es : List (Language × String × FeatureId)} {l : Language} {labels : List Char}

/-- The paths are the beginnings of inserted tokens. -/
theorem isSome_path?_ofEntries :
    ((ofEntries es).path? l labels).isSome ↔
      ∃ token id, (l, token, id) ∈ es ∧ labels <+: token.toList := by
  induction es using List.reverseRecOn with
  | nil => simp [ofEntries, path?, root?, empty]
  | append_singleton es e ih =>
    obtain ⟨m, token, id⟩ := e
    rw [ofEntries_append_singleton, isSome_path?_insert (forest_ofEntries es), ih]
    constructor
    · rintro (⟨token', id', he, hbegins⟩ | ⟨rfl, hbegins⟩)
      · exact ⟨token', id', List.mem_append_left _ he, hbegins⟩
      · exact ⟨token, id, List.mem_concat_self, hbegins⟩
    · rintro ⟨token', id', he, hbegins⟩
      rcases List.mem_append.mp he with he | he
      · exact .inl ⟨token', id', he, hbegins⟩
      · cases List.mem_singleton.mp he
        exact .inr ⟨rfl, hbegins⟩

/-- A token has the features that were inserted under it. -/
theorem mem_valuesAt_ofEntries {token : String} {id : FeatureId} :
    id ∈ (ofEntries es).valuesAt l token.toList ↔ (l, token, id) ∈ es := by
  induction es using List.reverseRecOn with
  | nil => simp [ofEntries, valuesAt_empty]
  | append_singleton es e ih =>
    obtain ⟨m, token', id'⟩ := e
    rw [ofEntries_append_singleton, mem_valuesAt_insert (forest_ofEntries es), ih, List.mem_append,
      List.mem_singleton, or_comm, String.toList_inj, Prod.mk.injEq, Prod.mk.injEq]

private theorem pairwise_values_ofEntries (es : List (Language × String × FeatureId)) (i : Nat) :
    ((ofEntries es).values i).Pairwise (· < ·) := by
  induction es using List.reverseRecOn generalizing i with
  | nil => exact .nil
  | append_singleton es e ih =>
    rw [ofEntries_append_singleton]
    exact forall_values_insert (P := List.Pairwise (· < ·)) (forest_ofEntries es)
      (fun _ => Ascending.pairwise_insert) ih i

private theorem pairwise_valuesAt_ofEntries :
    ((ofEntries es).valuesAt l labels).Pairwise (· < ·) := by
  unfold valuesAt
  cases (ofEntries es).path? l labels with
  | none => exact .nil
  | some i => exact pairwise_values_ofEntries es i

/-- The languages of a trie are those that something was inserted in. -/
theorem languages_ofEntries (es : List (Language × String × FeatureId)) :
    (ofEntries es).languages = Language.ordered (es.map (·.1)) := by
  have hforest := forest_ofEntries es
  refine Language.eq_of_pairwise hforest.pairwise_languages (Language.pairwise_all.filter _) ?_
  intro l
  rw [hforest.mem_languages_iff, isSome_path?_ofEntries]
  simp [Language.ordered, Language.mem_all]

private theorem exists_pairs_of_find? {start : String} {i : Nat}
    (hi : (ofEntries es).find? l start = some i) :
    ∃ pairs : List (String × FeatureId), pairs.Nodup ∧
      (∀ token id, (token, id) ∈ pairs ↔ start.toList <+: token.toList ∧ (l, token, id) ∈ es) ∧
      ((ofEntries es).valuesBelow i).Perm (pairs.map (·.2)) := by
  obtain ⟨tokens, hnodup, hmem, hperm⟩ := (forest_ofEntries es).exists_tokens hi
  refine ⟨tokens.flatMap fun token =>
    ((ofEntries es).valuesAt l token.toList).map (token, ·), ?_, ?_, ?_⟩
  · refine List.nodup_flatMap.mpr ⟨fun token _ => ?_, hnodup.imp fun hne => ?_⟩
    · exact (Ascending.nodup_of_pairwise pairwise_valuesAt_ofEntries).map
        fun _ _ he => congrArg Prod.snd he
    · intro pair hpair hpair'
      obtain ⟨_, _, rfl⟩ := List.mem_map.mp hpair
      obtain ⟨_, _, he⟩ := List.mem_map.mp hpair'
      exact hne (congrArg Prod.fst he).symm
  · intro token id
    have hfound (he : (l, token, id) ∈ es) : ((ofEntries es).find? l token).isSome := by
      rw [find?_eq_path?, isSome_path?_ofEntries]
      exact ⟨token, id, he, List.prefix_rfl⟩
    simp only [List.mem_flatMap, List.mem_map, Prod.mk.injEq, hmem]
    constructor
    · rintro ⟨_, ⟨hbegins, -⟩, _, hid, rfl, rfl⟩
      exact ⟨hbegins, mem_valuesAt_ofEntries.mp hid⟩
    · rintro ⟨hbegins, he⟩
      exact ⟨token, ⟨hbegins, hfound he⟩, id, mem_valuesAt_ofEntries.mpr he, rfl, rfl⟩
  · simpa [List.map_flatMap, Function.comp_def] using hperm

/-- The trie stores these entries and nothing else. -/
structure Stores (t : Trie) (es : List (Language × String × FeatureId)) : Prop where
  /-- Its languages are those of the entries, in the order of their indices. -/
  languages : t.languages = Language.ordered (es.map (·.1))
  /-- What begins a token of an entry is found in the language of the entry, and nothing else is. -/
  found : ∀ l start, (t.find? l start).isSome ↔
    ∃ token id, (l, token, id) ∈ es ∧ start.toList <+: token.toList
  /-- At the node of a token are the features entered under it, in ascending order. -/
  values : ∀ l token i, t.find? l token = some i →
    (t.values i).Pairwise (· < ·) ∧ ∀ id, id ∈ t.values i ↔ (l, token, id) ∈ es
  /-- A walk from a node hands out, for each different pair of a token that begins with the node's
  and a feature entered under this token, the feature once. -/
  below : ∀ l start i, t.find? l start = some i →
    ∃ pairs : List (String × FeatureId), pairs.Nodup ∧
      (∀ token id, (token, id) ∈ pairs ↔ start.toList <+: token.toList ∧ (l, token, id) ∈ es) ∧
      (t.valuesBelow i).Perm (pairs.map (·.2)) ∧
      ∃ visited, t.Walk [i] visited ∧ (visited.flatMap t.values).Perm (pairs.map (·.2))

/-- A trie stores exactly what was inserted into it, in whatever order, under whatever tokens, and
however often. -/
theorem stores_ofEntries (es : List (Language × String × FeatureId)) : (ofEntries es).Stores es where
  languages := languages_ofEntries es
  found _ _ := isSome_path?_ofEntries
  values l token i hi := by
    refine ⟨pairwise_values_ofEntries es i, fun id => ?_⟩
    rw [← mem_valuesAt_ofEntries, mem_valuesAt]
    constructor
    · exact fun hid => ⟨i, hi, hid⟩
    · rintro ⟨j, hj, hid⟩
      cases hi.symm.trans hj
      exact hid
  below l start i hi := by
    have hforest := forest_ofEntries es
    obtain ⟨pairs, hnodup, hmem, hperm⟩ := exists_pairs_of_find? hi
    obtain ⟨visited, hwalk, -, -, hvisited⟩ := hforest.walk_spec (hforest.lt_of_path? hi)
    exact ⟨pairs, hnodup, hmem, hperm, visited, hwalk, hvisited.trans hperm⟩

/-- Bars and barns are below the beginning that they share, and the whiskey is not. -/
example :
    let t := ofEntries [(.en, "whiskey", 0), (.en, "barn", 2), (.en, "bar", 1), (.ru, "bar", 3),
      (.en, "bar", 0), (.en, "bar", 1)]
    t.languages = [.en, .ru] ∧ (t.find? .en "ba").map t.valuesBelow = some [0, 1, 2] := by
  decide +kernel

end Trie
end Gazetteer
