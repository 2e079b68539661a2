import Gazetteer.Proofs.Trie.Codec

/-! Walks over a trie with a stack of nodes still to visit. In a forest a walk from a node ends, and
it comes to the node and to each node below it once. -/
namespace Gazetteer.Trie

/-- A walk with a stack of nodes to visit, the next one first, ends and visits these nodes in turn.
A visit puts the nodes below the visited one on the stack, the last one first. -/
inductive Walk (t : Trie) : (stack visited : List Nat) → Prop
  | done : Walk t [] []
  | visit {i : Nat} {stack visited : List Nat}
    (hrest : Walk t (((t.edges i).map (·.2)).reverse ++ stack) visited) :
    Walk t (i :: stack) (i :: visited)

/-- There is one walk for a stack. -/
theorem Walk.unique {t : Trie} {stack visited visited' : List Nat} (h : t.Walk stack visited)
    (h' : t.Walk stack visited') : visited = visited' := by
  induction h generalizing visited' with
  | done =>
    cases h'
    rfl
  | visit _ ih =>
    obtain _ | h' := h'
    rw [ih h']

/-- From node `i` a walk over any stack visits nodes that are those of the list, and goes on with
the rest of the stack. -/
private def Tours (t : Trie) (i : Nat) (nodes : List Nat) : Prop :=
  ∀ stack visited, t.Walk stack visited →
    ∃ first : List Nat, first.Perm nodes ∧ t.Walk (i :: stack) (first ++ visited)

private theorem tours_edges {t : Trie} {below : Char × Nat → List Nat} {es : List (Char × Nat)}
    (h : ∀ e ∈ es, t.Tours e.2 (below e)) (stack visited : List Nat) (hrest : t.Walk stack visited) :
    ∃ first : List Nat, first.Perm (es.flatMap below) ∧
      t.Walk ((es.map (·.2)).reverse ++ stack) (first ++ visited) := by
  -- The stack has the last edge on top.
  induction es generalizing stack visited with
  | nil => exact ⟨[], .refl _, hrest⟩
  | cons e es ih =>
    obtain ⟨he, hes⟩ := List.forall_mem_cons.mp h
    obtain ⟨first, hfirst, hwalk⟩ := he stack visited hrest
    obtain ⟨before, hbefore, hwalk⟩ := ih hes _ _ hwalk
    refine ⟨before ++ first, ?_, by simpa using hwalk⟩
    rw [List.flatMap_cons]
    exact (hbefore.append hfirst).trans List.perm_append_comm

namespace Forest

variable {t : Trie} (h : t.Forest)
include h

private theorem tours_waysWithin {depth i : Nat} (hdepth : t.nodes.size ≤ i + depth) :
    t.Tours i ((t.waysWithin depth i).map (·.2)) := by
  -- Edges lead forward, so no more of them are followed than there are nodes after `i`.
  induction depth generalizing i with
  | zero =>
    intro stack visited hrest
    have hnone : t.edges i = [] := by simp [edges, show t.nodes.size ≤ i from hdepth]
    exact ⟨[i], .refl _, .visit (by simpa [hnone] using hrest)⟩
  | succ depth ih =>
    intro stack visited hrest
    have hbelow : ∀ e ∈ t.edges i, t.Tours e.2 ((t.waysWithin depth e.2).map (·.2)) := by
      intro e he
      have hlt := h.forward i e he
      exact ih (by omega)
    obtain ⟨first, hfirst, hwalk⟩ := tours_edges hbelow stack visited hrest
    refine ⟨i :: first, ?_, .visit hwalk⟩
    simpa [waysWithin, List.map_flatMap, Function.comp_def] using hfirst.cons i

/-- A walk from a node ends, and visits the node at the end of each way from it. -/
theorem exists_walk (i : Nat) :
    ∃ visited : List Nat, visited.Perm ((t.ways i).map (·.2)) ∧ t.Walk [i] visited := by
  obtain ⟨visited, hperm, hwalk⟩ := h.tours_waysWithin (Nat.le_add_left _ i) [] [] .done
  exact ⟨visited, hperm, by simpa using hwalk⟩

/-- No two ways from a node lead to one node. -/
theorem nodup_ways {i : Nat} (hi : i < t.nodes.size) : ((t.ways i).map (·.2)).Nodup := by
  refine (h.nodup_waysWithin t.nodes.size i).map_on ?_
  rintro ⟨labels, j⟩ hw ⟨labels', _⟩ hw' rfl
  rw [h.leads_injective ((h.mem_ways hi).mp hw) ((h.mem_ways hi).mp hw')]

/-- A walk from a node ends, and it visits nodes of the trie, each once, whose values are those
below the node. -/
theorem walk_spec {i : Nat} (hi : i < t.nodes.size) :
    ∃ visited, t.Walk [i] visited ∧ visited.Nodup ∧ (∀ j ∈ visited, j < t.nodes.size) ∧
      (visited.flatMap t.values).Perm (t.valuesBelow i) := by
  obtain ⟨visited, hperm, hwalk⟩ := h.exists_walk i
  refine ⟨visited, hwalk, hperm.nodup_iff.mpr (h.nodup_ways hi), ?_, ?_⟩
  · intro j hj
    obtain ⟨w, hw, rfl⟩ := List.mem_map.mp (hperm.mem_iff.mp hj)
    exact h.lt_of_leads hi ((h.mem_ways hi).mp hw)
  · rw [valuesBelow_eq, ← List.flatMap_map (fun w : List Char × Nat => w.2) t.values]
    exact hperm.flatMap_right _

/-- The tokens with a node that begin with the labels of a path, each once. -/
theorem exists_tokens {l : Language} {start : String} {i : Nat}
    (hi : t.find? l start = some i) :
    ∃ tokens : List String, tokens.Nodup ∧
      (∀ token, token ∈ tokens ↔ start.toList <+: token.toList ∧ (t.find? l token).isSome) ∧
      (t.valuesBelow i).Perm (tokens.flatMap fun token => t.valuesAt l token.toList) := by
  have hlt := h.lt_of_path? hi
  have hmore (more : List Char) (j : Nat) :
      (more, j) ∈ t.ways i ↔ t.path? l (start.toList ++ more) = some j := by
    rw [h.mem_ways hlt, path?_append, ← find?_eq_path?, hi]
    exact h.foldlM_child?_eq_some_iff.symm
  refine ⟨(t.ways i).map fun w => String.ofList (start.toList ++ w.1), ?_, ?_, ?_⟩
  · refine (h.nodup_waysWithin _ i).map_on ?_
    rintro ⟨more, j⟩ hw ⟨more', j'⟩ hw' heq
    obtain rfl := List.append_cancel_left (String.ofList_injective heq)
    cases ((hmore more j).mp hw).symm.trans ((hmore more j').mp hw')
    rfl
  · intro token
    simp only [List.mem_map, Prod.exists, find?_eq_path?, Option.isSome_iff_exists]
    constructor
    · rintro ⟨more, j, hw, rfl⟩
      rw [String.toList_ofList]
      exact ⟨⟨more, rfl⟩, j, (hmore more j).mp hw⟩
    · rintro ⟨⟨more, htoken⟩, j, hj⟩
      rw [← htoken] at hj
      exact ⟨more, j, (hmore more j).mpr hj, by rw [htoken, String.ofList_toList]⟩
  · rw [valuesBelow_eq, List.flatMap_map]
    refine .of_eq (List.flatMap_congr fun w hw => ?_)
    rw [String.toList_ofList, valuesAt, (hmore w.1 w.2).mp hw]
    rfl

end Forest

/-- A trie that was read can be walked safely, whatever the bytes. Roots and edges lead to nodes
that there are. A token is found exactly if edges from the root of its language spell it, and no
other token of any language is found at the same node. A walk from a node ends, comes to nodes that
there are, to each once at most, and hands out the values below the node; and these are, with their
repetitions, the values of all the tokens that begin with the token of the node. -/
theorem walkable_of_decode {bytes : Bytes} {t : Trie} (h : decode bytes = .ok t) :
    (∀ l i, t.root? l = some i → i < t.nodes.size) ∧
      (∀ i label j, t.child? i label = some j → j < t.nodes.size) ∧
      (∀ l token i, t.find? l token = some i → i < t.nodes.size) ∧
      (∀ l token i, t.find? l token = some i ↔
        ∃ root, (l.index, root) ∈ t.roots ∧ t.Leads root token.toList i) ∧
      (∀ l l' token token' i, t.find? l token = some i → t.find? l' token' = some i →
        l = l' ∧ token = token') ∧
      (∀ i < t.nodes.size, (∃ visited, t.Walk [i] visited) ∧ ∀ visited, t.Walk [i] visited →
        visited.Nodup ∧ (∀ j ∈ visited, j < t.nodes.size) ∧
          (visited.flatMap t.values).Perm (t.valuesBelow i)) ∧
      ∀ l start i, t.find? l start = some i → ∃ tokens : List String, tokens.Nodup ∧
        (∀ token, token ∈ tokens ↔ start.toList <+: token.toList ∧ (t.find? l token).isSome) ∧
        (t.valuesBelow i).Perm (tokens.flatMap fun token => t.valuesAt l token.toList) := by
  have hforest := (forest_of_decode h).1
  refine ⟨?_, ?_, ?_, ?_, ?_, ?_, ?_⟩
  · exact fun l i hi => hforest.root_lt (hforest.root?_eq_some_iff.mp hi)
  · intro i label j hj
    exact hforest.targets_lt j
      (List.mem_append_right _ (target_of_edge (hforest.child?_eq_some_iff.mp hj)))
  · exact fun l token i hi => hforest.lt_of_path? hi
  · exact fun l token i => hforest.path?_eq_some_iff
  · intro l l' token token' i hi hi'
    obtain ⟨hl, hlabels⟩ := hforest.path?_injective hi hi'
    exact ⟨hl, String.toList_inj.mp hlabels⟩
  · intro i hi
    obtain ⟨visited, hwalk, hspec⟩ := hforest.walk_spec hi
    exact ⟨⟨visited, hwalk⟩, fun visited' hwalk' => hwalk.unique hwalk' ▸ hspec⟩
  · exact fun l start i hi => hforest.exists_tokens hi

/-- A stored trie whose values are neither in order nor each there once. -/
theorem walkable_bar :
    let t : Trie := ⟨[(1, 0)], #[⟨[('b', 1)], []⟩, ⟨[('a', 2)], []⟩, ⟨[('r', 3), ('t', 5)], []⟩,
      ⟨[('n', 4)], [7, 2, 7]⟩, ⟨[], [1]⟩, ⟨[], [2]⟩]⟩
    decode t.encode = .ok t ∧ t.find? .en "ba" = some 2 ∧
      (∃ visited, t.Walk [2] visited ∧ visited.Nodup ∧
        (visited.flatMap t.values).Perm [7, 2, 7, 1, 2]) ∧
      ∃ tokens : List String, tokens.Nodup ∧ "bar" ∈ tokens ∧ "bad" ∉ tokens ∧
        [7, 2, 7, 1, 2].Perm (tokens.flatMap fun token => t.valuesAt .en token.toList) := by
  intro t
  have hread : decode t.encode = .ok t := by decide +kernel
  have hfound : t.find? .en "ba" = some 2 := by decide +kernel
  have hbelow : t.valuesBelow 2 = [7, 2, 7, 1, 2] := by decide +kernel
  obtain ⟨-, -, -, -, -, hwalks, htokens⟩ := walkable_of_decode hread
  obtain ⟨⟨visited, hwalk⟩, hall⟩ := hwalks 2 (by decide)
  obtain ⟨hnodup, -, hvalues⟩ := hall visited hwalk
  obtain ⟨tokens, hdistinct, hmem, hperm⟩ := htokens .en "ba" 2 hfound
  refine ⟨hread, hfound, ⟨visited, hwalk, hnodup, hbelow ▸ hvalues⟩, tokens, hdistinct, ?_, ?_,
    hbelow ▸ hperm⟩
  · exact (hmem "bar").mpr (by decide +kernel)
  · exact fun hbad => absurd ((hmem "bad").mp hbad) (by decide +kernel)

end Gazetteer.Trie
