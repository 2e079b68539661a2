import Gazetteer.Proofs.Trie.Validation

/-! The faults of graphs. Validation refuses exactly the graphs that have one, and the fault that it
tells is there. -/
namespace Gazetteer.Trie

def Fault.In : Fault → Trie → Prop
  | .rootsOutOfOrder, t => ¬ (t.roots.map (·.1)).Pairwise (· < ·)
  | .unknownLanguage index, t =>
    Language.ofIndex? index = none ∧ ∃ root, (index, root) ∈ t.roots
  | .rootOutOfRange root count, t =>
    count = t.nodes.size ∧ count ≤ root ∧ ∃ index, (index, root) ∈ t.roots
  | .rootShared root, t => 1 < (t.roots.map (·.2)).count root
  | .edgesOutOfOrder i, t => ¬ ((t.edges i).map (·.1)).Pairwise (· < ·)
  | .badEdge label i child, t =>
    (label, child) ∈ t.edges i ∧ ¬ (i < child ∧ child < t.nodes.size)
  | .manyParents n, t => 1 < t.targets.count n

/-- A forest has no fault. -/
theorem Forest.not_in {t : Trie} (h : t.Forest) (why : Fault) : ¬ why.In t := by
  cases why with
  | rootsOutOfOrder => exact not_not_intro h.roots
  | unknownLanguage index =>
    rintro ⟨hunknown, root, hr⟩
    have hknown := h.known (index, root) hr
    rw [hunknown] at hknown
    cases hknown
  | rootOutOfRange root count =>
    rintro ⟨rfl, hle, index, hr⟩
    exact absurd (h.root_lt hr) (Nat.not_lt.mpr hle)
  | rootShared root =>
    exact Nat.not_lt.mpr (List.nodup_iff_count_le_one.mp h.root_targets_nodup root)
  | edgesOutOfOrder i => exact not_not_intro (h.labels i)
  | badEdge label i child =>
    rintro ⟨he, hbad⟩
    obtain ⟨node, hnode, he'⟩ := mem_edges.mp he
    exact hbad ⟨h.forward i _ he,
      h.edge_lt (Array.mem_toList_iff.mpr (Array.mem_of_getElem? hnode)) he'⟩
  | manyParents n => exact Nat.not_lt.mpr (List.nodup_iff_count_le_one.mp h.targets_nodup n)

private theorem mem_of_claim_eq_error {count n : Nat} {reached : Array Bool} {done : List Nat}
    (hmarks : Marks count reached done) (hn : n < count) {fault why : Fault}
    (h : claim reached n fault = .error why) : n ∈ done ∧ why = fault := by
  unfold claim at h
  split at h
  · next htaken =>
    cases h
    rw [hmarks n hn] at htaken
    exact ⟨of_decide_eq_true htaken, rfl⟩
  · cases h

private theorem one_lt_count {n : Nat} {done : List Nat} (hn : n ∈ done) (rest : List Nat) :
    1 < (done ++ n :: rest).count n := by
  have := List.count_pos_iff.mpr hn
  rw [List.count_append, List.count_cons_self]
  omega

private theorem in_of_claimRoot {t : Trie} {reached : Array Bool}
    {before after : List (UInt8 × Nat)} {r : UInt8 × Nat} {why : Fault}
    (hroots : t.roots = before ++ r :: after)
    (hmarks : Marks t.nodes.size reached (before.flatMap fun r => [r.2]))
    (h : claimRoot t.nodes.size reached r = .error why) : why.In t := by
  have hr : r ∈ t.roots := by simp [hroots]
  unfold claimRoot at h
  split at h
  · next hunknown =>
    cases h
    exact ⟨Option.isNone_iff_eq_none.mp hunknown, r.2, hr⟩
  split at h
  · next hle =>
    cases h
    exact ⟨rfl, hle, r.1, hr⟩
  · next hlt =>
    obtain ⟨hmem, rfl⟩ := mem_of_claim_eq_error hmarks (Nat.lt_of_not_le hlt) h
    rw [← List.map_eq_flatMap] at hmem
    change 1 < (t.roots.map (·.2)).count r.2
    rw [hroots, List.map_append, List.map_cons]
    exact one_lt_count hmem _

private theorem in_of_claimEdge {t : Trie} {i : Nat} {node : Node} {reached : Array Bool}
    {done rest : List Nat} {before after : List (Char × Nat)} {e : Char × Nat} {why : Fault}
    (hnode : t.nodes[i]? = some node) (hedges : node.edges = before ++ e :: after)
    (htargets : t.targets = done ++ (node.targets ++ rest))
    (hmarks : Marks t.nodes.size reached (done ++ before.flatMap fun e => [e.2]))
    (h : claimEdge t.nodes.size i reached e = .error why) : why.In t := by
  unfold claimEdge at h
  split at h
  · next hbad =>
    cases h
    have he : e ∈ t.edges i := mem_edges.mpr ⟨node, hnode, by simp [hedges]⟩
    exact ⟨he, by omega⟩
  · next hgood =>
    obtain ⟨hmem, rfl⟩ := mem_of_claim_eq_error hmarks (by omega) h
    rw [← List.map_eq_flatMap] at hmem
    have hsplit : t.targets = (done ++ before.map (·.2)) ++ e.2 :: (after.map (·.2) ++ rest) := by
      rw [htargets, Node.targets, hedges]
      simp
    change 1 < t.targets.count e.2
    rw [hsplit]
    exact one_lt_count hmem _

private theorem in_of_claimEdges {t : Trie} {reached : Array Bool}
    {before after : List (Node × Nat)} {n : Node × Nat} {why : Fault}
    (hnodes : t.nodes.toList.zipIdx = before ++ n :: after)
    (hmarks : Marks t.nodes.size reached
      (t.roots.flatMap (fun r => [r.2]) ++ before.flatMap fun n => n.1.targets))
    (hdone : (t.roots.flatMap (fun r => [r.2]) ++ before.flatMap fun n => n.1.targets).Nodup)
    (h : claimEdges t.nodes.size reached n = .error why) : why.In t := by
  have hnode : t.nodes[n.2]? = some n.1 := by
    have hmem : n ∈ t.nodes.toList.zipIdx := by simp [hnodes]
    rwa [List.mem_zipIdx_iff_getElem?, Array.getElem?_toList] at hmem
  unfold claimEdges at h
  split at h
  · obtain ⟨es, e, es', reached', hedges, hes, hfails⟩ := exists_of_foldlM_eq_error h
    obtain ⟨-, hmarks', -⟩ :=
      (claims_claimEdge t.nodes.size n.2).foldlM.next hmarks hdone hes
    have htargets : t.targets =
        (t.roots.flatMap (fun r => [r.2]) ++ before.flatMap fun n => n.1.targets) ++
          (n.1.targets ++ after.flatMap fun n => n.1.targets) := by
      rw [targets_eq, hnodes, List.flatMap_append, List.flatMap_cons, List.append_assoc]
    exact in_of_claimEdge hnode hedges htargets hmarks' hfails
  · next horder =>
    cases h
    have hedges : t.edges n.2 = n.1.edges := by simp [edges, hnode]
    change ¬ ((t.edges n.2).map (·.1)).Pairwise (· < ·)
    rwa [hedges, ← Ascending.inOrder_iff_pairwise (fun e : Char × Nat => e.1)]

/-- The fault that is told is there: each root and each edge before it was accepted, so the marked
nodes are those that these lead to. -/
theorem in_of_validate {t : Trie} {why : Fault} (h : t.validate = .error why) : why.In t := by
  have hroots := (claims_claimRoot t.nodes.size).foldlM
  have hnodes := (claims_claimEdges t.nodes.size).foldlM
  have hnone := marks_nil t.nodes.size
  cases horder : inOrder (fun a b : UInt8 × Nat => decide (a.1 < b.1)) t.roots with
  | false =>
    unfold validate at h
    rw [horder] at h
    cases h
    change ¬ (t.roots.map (·.1)).Pairwise (· < ·)
    rw [← Ascending.inOrder_iff_pairwise (fun r : UInt8 × Nat => r.1), horder]
    exact Bool.false_ne_true
  | true =>
    rw [validate_of_inOrder horder] at h
    rcases error_of_bind h with hreached | ⟨reached, hreached, h⟩
    · obtain ⟨before, r, after, reached, hsplit, hbefore, hfails⟩ :=
        exists_of_foldlM_eq_error hreached
      obtain ⟨-, hmarks, -⟩ := hroots.next hnone .nil hbefore
      exact in_of_claimRoot hsplit hmarks hfails
    · obtain ⟨-, hmarks, hnodup⟩ := hroots.next hnone .nil hreached
      rcases error_of_bind h with hend | ⟨_, -, ⟨⟩⟩
      obtain ⟨before, n, after, reached', hsplit, hbefore, hfails⟩ := exists_of_foldlM_eq_error hend
      obtain ⟨-, hmarks', hnodup'⟩ := hnodes.next hmarks hnodup hbefore
      exact in_of_claimEdges hsplit hmarks' hnodup' hfails

/-- Validation accepts exactly the graphs whose roots are those of known languages in ascending
order, whose roots and edges lead to nodes that there are, the edges forward and with ascending
labels, and where no node is led to twice, be it from a root or from any node. It leaves them as
they are. A graph is refused exactly if it has a fault, and then a fault is told that it has. -/
theorem validate_accepts_iff (t : Trie) :
    ((∃ t', t.validate = .ok t') ↔
      (∀ r ∈ t.roots, ∃ l, Language.ofIndex? r.1 = some l) ∧
        (t.roots.map (·.1)).Pairwise (· < ·) ∧
        (∀ r ∈ t.roots, r.2 < t.nodes.size) ∧
        (∀ (i : Nat) node, t.nodes[i]? = some node → ∀ e ∈ node.edges, i < e.2 ∧ e.2 < t.nodes.size) ∧
        (∀ (i : Nat) node, t.nodes[i]? = some node → (node.edges.map (·.1)).Pairwise (· < ·)) ∧
        (t.roots.map (·.2) ++ t.nodes.toList.flatMap fun node => node.edges.map (·.2)).Nodup) ∧
      (∀ t', t.validate = .ok t' → t' = t) ∧
      ((∃ why, t.validate = .error why) ↔ ∃ why : Fault, why.In t) ∧
      ∀ why, t.validate = .error why → why.In t := by
  have haccepts : (∃ t', t.validate = .ok t') ↔ t.Forest :=
    ⟨fun ⟨_, h⟩ => (validate_eq_ok_iff.mp h).2, fun h => ⟨t, validate_of_forest h⟩⟩
  refine ⟨?_, ?_, ?_, fun why => in_of_validate⟩
  · rw [haccepts, forest_iff, forall_zipIdx_iff]
    constructor
    · rintro ⟨horder, hroots, hnodes, hnodup⟩
      exact ⟨fun r hr => Option.isSome_iff_exists.mp (hroots r hr).1, horder,
        fun r hr => (hroots r hr).2, fun i node hnode => (hnodes i node hnode).2,
        fun i node hnode => (hnodes i node hnode).1, hnodup⟩
    · rintro ⟨hknown, horder, hlt, hedges, hlabels, hnodup⟩
      exact ⟨horder, fun r hr => ⟨Option.isSome_iff_exists.mpr (hknown r hr), hlt r hr⟩,
        fun i node hnode => ⟨hlabels i node hnode, hedges i node hnode⟩, hnodup⟩
  · intro t' h
    exact (validate_eq_ok_iff.mp h).1.symm
  · constructor
    · rintro ⟨why, h⟩
      exact ⟨why, in_of_validate h⟩
    · rintro ⟨why, hin⟩
      cases hval : t.validate with
      | error why' => exact ⟨why', rfl⟩
      | ok t' => exact absurd hin ((validate_eq_ok_iff.mp hval).2.not_in why)

/-- Two nodes that no path comes to share a third one. -/
example : validate ⟨[(1, 0)], #[{}, ⟨[('a', 3)], []⟩, ⟨[('b', 3)], []⟩, {}]⟩ =
    .error (.manyParents 3) := by decide

end Gazetteer.Trie
