import Gazetteer.Proofs.Except
import Gazetteer.Proofs.Trie.Paths
import Gazetteer.Trie.Validation

/-! Validation accepts exactly the forests: each root and each edge is to find its node not yet
reached. -/
namespace Gazetteer.Trie

/-- The nodes marked as reached are the given ones. -/
def Marks (count : Nat) (reached : Array Bool) (done : List Nat) : Prop :=
  ∀ n < count, reached[n]? = some (decide (n ∈ done))

theorem marks_nil (count : Nat) : Marks count (Array.replicate count false) [] := fun n hn => by
  simp [hn]

private theorem marks_claim {count n : Nat} {reached : Array Bool} {done : List Nat}
    (h : Marks count reached done) (hn : n < count) (hnew : n ∉ done) (fault : Fault) :
    ∃ reached', claim reached n fault = .ok reached' ∧ Marks count reached' (done ++ [n]) := by
  have hfree : reached[n]?.getD false = false := by simp [h n hn, hnew]
  refine ⟨reached.setIfInBounds n true, by simp [claim, hfree], ?_⟩
  intro m hm
  have hin : n < reached.size := (Array.getElem?_eq_some_iff.mp (h n hn)).1
  by_cases hmn : n = m
  · subst hmn
    simp [hin]
  · rw [Array.getElem?_setIfInBounds_ne hmn, h m hm]
    simp [Ne.symm hmn]

private theorem not_mem_of_claim {count n : Nat} {reached reached' : Array Bool} {done : List Nat}
    (h : Marks count reached done) (hn : n < count) {fault : Fault}
    (hclaim : claim reached n fault = .ok reached') : n ∉ done := by
  intro hmem
  have htaken : reached[n]?.getD false = true := by simp [h n hn, hmem]
  simp [claim, htaken] at hclaim

/-- A step over things accepts those that are right and lead to nodes not yet reached, and marks
these nodes. -/
structure Claims {α : Type} (count : Nat) (step : Array Bool → α → Except Fault (Array Bool))
    (targets : α → List Nat) (Right : α → Prop) : Prop where
  accepts : ∀ {a reached done}, Marks count reached done → Right a → (done ++ targets a).Nodup →
    ∃ reached', step reached a = .ok reached' ∧ Marks count reached' (done ++ targets a)
  refuses : ∀ {a reached done reached'}, Marks count reached done → done.Nodup →
    step reached a = .ok reached' → Right a ∧ (done ++ targets a).Nodup

section
variable {α : Type} {count : Nat} {step : Array Bool → α → Except Fault (Array Bool)}
  {Right : α → Prop}

private theorem claims_of_claim {target : α → Nat} (fault : α → Fault)
    (hright : ∀ a, Right a → target a < count ∧
      ∀ reached, step reached a = claim reached (target a) (fault a))
    (hwrong : ∀ a, ¬ Right a → ∀ reached, ∃ why, step reached a = .error why) :
    Claims count step (fun a => [target a]) Right where
  accepts {a reached done} hmarks ha hnodup := by
    obtain ⟨hlt, hstep⟩ := hright a ha
    have hnew : target a ∉ done := fun hmem =>
      (List.nodup_append.mp hnodup).2.2 (target a) hmem (target a) (.head _) rfl
    rw [hstep]
    exact marks_claim hmarks hlt hnew (fault a)
  refuses {a reached done reached'} hmarks hdone hok := by
    by_cases ha : Right a
    · obtain ⟨hlt, hstep⟩ := hright a ha
      rw [hstep] at hok
      have hnew := not_mem_of_claim hmarks hlt hok
      exact ⟨ha, List.nodup_append.mpr ⟨hdone, List.nodup_singleton _, fun n hn m hm he =>
        hnew (List.mem_singleton.mp hm ▸ he ▸ hn)⟩⟩
    · obtain ⟨why, hstep⟩ := hwrong a ha reached
      rw [hstep] at hok
      cases hok

/-- After a step that succeeds what it leads to is marked too. -/
theorem Claims.next {targets : α → List Nat} (h : Claims count step targets Right) {a : α}
    {reached reached' : Array Bool} {done : List Nat} (hmarks : Marks count reached done)
    (hdone : done.Nodup) (hok : step reached a = .ok reached') :
    Right a ∧ Marks count reached' (done ++ targets a) ∧ (done ++ targets a).Nodup := by
  obtain ⟨hright, hnodup⟩ := h.refuses hmarks hdone hok
  obtain ⟨_, hok', hmarks'⟩ := h.accepts hmarks hright hnodup
  cases hok.symm.trans hok'
  exact ⟨hright, hmarks', hnodup⟩

/-- A run of steps over a list accepts it if each step accepts its thing. -/
theorem Claims.foldlM {targets : α → List Nat} (h : Claims count step targets Right) :
    Claims count (fun reached (as : List α) => as.foldlM step reached) (fun as => as.flatMap targets)
      (fun as => ∀ a ∈ as, Right a) where
  accepts {as reached done} hmarks has hnodup := by
    induction as generalizing reached done with
    | nil => exact ⟨reached, rfl, by simpa using hmarks⟩
    | cons a as ih =>
      obtain ⟨ha, has⟩ := List.forall_mem_cons.mp has
      rw [List.flatMap_cons, ← List.append_assoc] at hnodup ⊢
      obtain ⟨reached', hstep, hmarks'⟩ := h.accepts hmarks ha (List.nodup_append.mp hnodup).1
      obtain ⟨reached'', hrest, hmarks''⟩ := ih hmarks' has hnodup
      refine ⟨reached'', ?_, hmarks''⟩
      rw [List.foldlM_cons, hstep]
      exact hrest
  refuses {as reached done reached'} hmarks hdone hok := by
    induction as generalizing reached done with
    | nil => exact ⟨nofun, by simpa using hdone⟩
    | cons a as ih =>
      rw [List.foldlM_cons] at hok
      cases hstep : step reached a with
      | error why =>
        rw [hstep] at hok
        cases hok
      | ok next =>
        rw [hstep] at hok
        obtain ⟨ha, hmarks', hnodup⟩ := h.next hmarks hdone hstep
        obtain ⟨has, hnodup'⟩ := ih hmarks' hnodup hok
        rw [List.flatMap_cons, ← List.append_assoc]
        exact ⟨List.forall_mem_cons.mpr ⟨ha, has⟩, hnodup'⟩

end

def RightRoot (count : Nat) (r : UInt8 × Nat) : Prop :=
  (Language.ofIndex? r.1).isSome = true ∧ r.2 < count

def RightEdge (count i : Nat) (e : Char × Nat) : Prop := i < e.2 ∧ e.2 < count

def RightNode (count : Nat) (n : Node × Nat) : Prop :=
  (n.1.edges.map (·.1)).Pairwise (· < ·) ∧ ∀ e ∈ n.1.edges, RightEdge count n.2 e

/-- The step over roots accepts roots of known languages that lead to nodes there are. -/
theorem claims_claimRoot (count : Nat) :
    Claims count (claimRoot count) (fun r => [r.2]) (RightRoot count) := by
  apply claims_of_claim fun r => .rootShared r.2
  · rintro r ⟨hknown, hlt⟩
    refine ⟨hlt, fun reached => ?_⟩
    have hknown' : ¬ (Language.ofIndex? r.1).isNone = true := by
      rw [← Option.not_isSome, hknown]
      exact Bool.false_ne_true
    rw [claimRoot, if_neg hknown', if_neg (Nat.not_le.mpr hlt)]
  · intro r hwrong reached
    unfold claimRoot
    split_ifs with hnone hle
    · exact ⟨_, rfl⟩
    · exact ⟨_, rfl⟩
    · refine absurd ⟨?_, Nat.lt_of_not_le hle⟩ hwrong
      rwa [← Option.not_isSome, Bool.not_eq_true', Bool.not_eq_false] at hnone

/-- The step over edges accepts edges that lead forward to nodes there are. -/
theorem claims_claimEdge (count i : Nat) :
    Claims count (claimEdge count i) (fun e => [e.2]) (RightEdge count i) := by
  apply claims_of_claim fun e => .manyParents e.2
  · rintro e ⟨hforward, hlt⟩
    exact ⟨hlt, fun reached => by rw [claimEdge, if_neg (by omega)]⟩
  · intro e hwrong reached
    unfold claimEdge
    split_ifs with hbad
    · exact ⟨_, rfl⟩
    · exact absurd ⟨by omega, by omega⟩ hwrong

/-- The step over nodes accepts nodes with such edges, in ascending order of their labels. -/
theorem claims_claimEdges (count : Nat) :
    Claims count (claimEdges count) (fun n => n.1.targets) (RightNode count) where
  accepts {n reached done} hmarks hn hnodup := by
    rw [Node.targets, List.map_eq_flatMap] at hnodup ⊢
    rw [claimEdges, if_pos ((Ascending.inOrder_iff_pairwise (fun e : Char × Nat => e.1)).mpr hn.1)]
    exact (claims_claimEdge count n.2).foldlM.accepts hmarks hn.2 hnodup
  refuses {n reached done reached'} hmarks hdone hok := by
    rw [Node.targets, List.map_eq_flatMap]
    unfold claimEdges at hok
    split at hok
    · next horder =>
      obtain ⟨hedges, hnodup⟩ := (claims_claimEdge count n.2).foldlM.refuses hmarks hdone hok
      exact ⟨⟨(Ascending.inOrder_iff_pairwise (fun e : Char × Nat => e.1)).mp horder, hedges⟩, hnodup⟩
    · cases hok

theorem forall_zipIdx_iff {t : Trie} {P : Node × Nat → Prop} :
    (∀ n ∈ t.nodes.toList.zipIdx, P n) ↔ ∀ i node, t.nodes[i]? = some node → P (node, i) := by
  simp only [Prod.forall, List.mem_zipIdx_iff_getElem?, Array.getElem?_toList]
  exact forall_comm

theorem targets_eq (t : Trie) : t.targets = t.roots.flatMap (fun r => [r.2]) ++
    t.nodes.toList.zipIdx.flatMap fun n => n.1.targets := by
  rw [targets, List.map_eq_flatMap]
  congr 1
  conv_lhs => rw [← List.zipIdx_map_fst 0 t.nodes.toList, List.flatMap_map]

/-- A graph is a forest if its roots and its nodes are right and no node is reached twice. -/
theorem forest_iff {t : Trie} :
    t.Forest ↔ (t.roots.map (·.1)).Pairwise (· < ·) ∧ (∀ r ∈ t.roots, RightRoot t.nodes.size r) ∧
      (∀ n ∈ t.nodes.toList.zipIdx, RightNode t.nodes.size n) ∧ t.targets.Nodup := by
  rw [forall_zipIdx_iff]
  constructor
  · intro h
    refine ⟨h.roots, fun r hr => ⟨h.known r hr, h.root_lt hr⟩, ?_, h.targets_nodup⟩
    intro i node hnode
    have hedges : t.edges i = node.edges := by simp [edges, hnode]
    refine ⟨hedges ▸ h.labels i, fun e he => ⟨h.forward i e (hedges ▸ he), ?_⟩⟩
    exact h.edge_lt (Array.mem_toList_iff.mpr (Array.mem_of_getElem? hnode)) he
  · rintro ⟨hroots, hright, hnodes, hnodup⟩
    refine ⟨hroots, fun r hr => (hright r hr).1, ?_, ?_, ?_, hnodup⟩
    · intro i
      unfold edges
      cases hnode : t.nodes[i]? with
      | none => exact .nil
      | some node => exact (hnodes i node hnode).1
    · intro i e he
      obtain ⟨node, hnode, he⟩ := mem_edges.mp he
      exact ((hnodes i node hnode).2 e he).1
    · intro j hj
      rcases List.mem_append.mp hj with hj | hj
      · obtain ⟨r, hr, rfl⟩ := List.mem_map.mp hj
        exact (hright r hr).2
      · obtain ⟨node, hnode, hj⟩ := List.mem_flatMap.mp hj
        obtain ⟨e, he, rfl⟩ := List.mem_map.mp hj
        obtain ⟨i, hi⟩ := List.getElem?_of_mem hnode
        exact ((hnodes i node (by rwa [Array.getElem?_toList] at hi)).2 e he).2

/-- With the roots in order, the roots claim their nodes and then the edges of all nodes do. -/
theorem validate_of_inOrder {t : Trie}
    (h : inOrder (fun a b : UInt8 × Nat => decide (a.1 < b.1)) t.roots = true) :
    t.validate =
      t.roots.foldlM (claimRoot t.nodes.size) (Array.replicate t.nodes.size false) >>= fun reached =>
        t.nodes.toList.zipIdx.foldlM (claimEdges t.nodes.size) reached >>= fun _ => pure t := by
  have hdiscard (x : Except Fault (Array Bool)) :
      (discard x >>= fun _ => pure t : Except Fault Trie) = x >>= fun _ => pure t := by
    cases x <;> rfl
  simp only [← hdiscard]
  unfold validate
  rw [h]
  rfl

/-- Validation accepts the forests, as they are. -/
theorem validate_eq_ok_iff {t t' : Trie} : t.validate = .ok t' ↔ t = t' ∧ t.Forest := by
  have hroots := (claims_claimRoot t.nodes.size).foldlM
  have hnodes := (claims_claimEdges t.nodes.size).foldlM
  have hnone := marks_nil t.nodes.size
  rw [forest_iff, targets_eq, ← Ascending.inOrder_iff_pairwise (fun r : UInt8 × Nat => r.1)]
  cases horder : inOrder (fun a b : UInt8 × Nat => decide (a.1 < b.1)) t.roots with
  | false =>
    unfold validate
    rw [horder]
    apply iff_of_false
    · nofun
    · rintro ⟨-, h, -⟩
      cases h
  | true =>
    rw [validate_of_inOrder horder]
    constructor
    · intro hok
      obtain ⟨reached, hreached, hok⟩ := exists_of_bind hok
      obtain ⟨reached', hreached', hok⟩ := exists_of_bind hok
      cases hok
      obtain ⟨hright, hmarks, hnodup⟩ := hroots.next hnone .nil hreached
      obtain ⟨hright', hnodup'⟩ := hnodes.refuses hmarks hnodup hreached'
      exact ⟨rfl, rfl, hright, hright', hnodup'⟩
    · rintro ⟨rfl, -, hright, hright', hnodup⟩
      obtain ⟨reached, hreached, hmarks⟩ := hroots.accepts hnone hright (List.nodup_append.mp hnodup).1
      obtain ⟨reached', hreached', -⟩ := hnodes.accepts hmarks hright' hnodup
      rw [hreached]
      change (t.nodes.toList.zipIdx.foldlM (claimEdges t.nodes.size) reached >>= fun _ => pure t) = _
      rw [hreached']
      rfl

/-- Validation accepts every forest. -/
theorem validate_of_forest {t : Trie} (h : t.Forest) : t.validate = .ok t :=
  validate_eq_ok_iff.mpr ⟨rfl, h⟩

end Gazetteer.Trie
