import Gazetteer.Proofs.Ascending
import Gazetteer.Trie.Basic
import Mathlib.Data.List.Induction
import Mathlib.Data.List.Nodup

/-! Paths in a trie: a language and the labels from its root on. In a forest a path leads to one
node, and a node is reached by one path, so the values of a trie are those of its paths. -/
namespace Gazetteer

instance strictTotalOrder_char : IsStrictTotalOrder Char (· < ·) :=
  isStrictTotalOrder_of_toNat Char.toNat (fun _ _ h => Char.ext (UInt32.toNat_inj.mp h))
    fun _ _ => UInt32.lt_iff_toNat_lt

theorem Language.index_injective {l l' : Language} (h : l.index = l'.index) : l = l' := by
  have hl := l.ofIndex?_index
  rw [h, l'.ofIndex?_index] at hl
  exact (Option.some.inj hl).symm

namespace Trie

def edges (t : Trie) (i : Nat) : List (Char × Nat) := (t.nodes[i]?.map (·.edges)).getD []

def Node.targets (node : Node) : List Nat := node.edges.map (·.2)

def targets (t : Trie) : List Nat := t.roots.map (·.2) ++ t.nodes.toList.flatMap Node.targets

/-- The node that labels lead to from the root of a language. -/
def path? (t : Trie) (l : Language) (labels : List Char) : Option Nat :=
  t.root? l >>= fun root => labels.foldlM t.child? root

/-- The features at the end of a path; none if there is no such path. -/
def valuesAt (t : Trie) (l : Language) (labels : List Char) : List FeatureId :=
  ((t.path? l labels).map t.values).getD []

/-- Edges from node `i` on spell the labels, and the last one leads to node `j`. -/
inductive Leads (t : Trie) : (i : Nat) → (labels : List Char) → (j : Nat) → Prop
  | here (i : Nat) : Leads t i [] i
  | step {i k j : Nat} {label : Char} {labels : List Char} (he : (label, k) ∈ t.edges i)
    (hleads : Leads t k labels j) : Leads t i (label :: labels) j

/-- The ways from node `i` on of up to `depth` edges: their labels, and the nodes they lead to. -/
def waysWithin (t : Trie) : (depth i : Nat) → List (List Char × Nat)
  | 0, i => [([], i)]
  | depth + 1, i =>
    ([], i) :: (t.edges i).flatMap fun e => (t.waysWithin depth e.2).map fun w => (e.1 :: w.1, w.2)

def ways (t : Trie) (i : Nat) : List (List Char × Nat) := t.waysWithin t.nodes.size i

/-- What makes a graph a trie: labels and languages are in order, edges lead forward to nodes that
there are, and no node is reached twice. -/
structure Forest (t : Trie) : Prop where
  roots : (t.roots.map (·.1)).Pairwise (· < ·)
  known : ∀ r ∈ t.roots, (Language.ofIndex? r.1).isSome = true
  labels : ∀ i, ((t.edges i).map (·.1)).Pairwise (· < ·)
  forward : ∀ i, ∀ e ∈ t.edges i, i < e.2
  targets_lt : ∀ i ∈ t.targets, i < t.nodes.size
  targets_nodup : t.targets.Nodup

theorem find?_eq_path? (t : Trie) (l : Language) (token : String) :
    t.find? l token = t.path? l token.toList := rfl

theorem path?_nil (t : Trie) (l : Language) : t.path? l [] = t.root? l := by
  simp [path?]

/-- A path goes on where its beginning leads. -/
theorem path?_append (t : Trie) (l : Language) (labels more : List Char) :
    t.path? l (labels ++ more) = t.path? l labels >>= fun i => more.foldlM t.child? i := by
  simp only [path?, List.foldlM_append, bind_assoc]

theorem path?_concat (t : Trie) (l : Language) (labels : List Char) (label : Char) :
    t.path? l (labels ++ [label]) = t.path? l labels >>= fun i => t.child? i label := by
  simp [path?_append]

/-- Each beginning of a path is a path. -/
theorem isSome_path?_of_isPrefix {t : Trie} {l : Language} {labels labels' : List Char}
    (hbegins : labels' <+: labels) (h : (t.path? l labels).isSome) : (t.path? l labels').isSome := by
  obtain ⟨more, rfl⟩ := hbegins
  rw [path?_append] at h
  exact Option.isSome_of_isSome_bind h

theorem child?_eq_lookup (t : Trie) (i : Nat) (label : Char) :
    t.child? i label = (t.edges i).lookup label := by
  unfold child? edges
  cases t.nodes[i]? <;> rfl

theorem mem_edges {t : Trie} {i : Nat} {e : Char × Nat} :
    e ∈ t.edges i ↔ ∃ node, t.nodes[i]? = some node ∧ e ∈ node.edges := by
  unfold edges
  cases t.nodes[i]? <;> simp

theorem mem_valuesAt {t : Trie} {l : Language} {labels : List Char} {id : FeatureId} :
    id ∈ t.valuesAt l labels ↔ ∃ i, t.path? l labels = some i ∧ id ∈ t.values i := by
  unfold valuesAt
  cases t.path? l labels <;> simp

theorem target_of_edge {t : Trie} {i : Nat} {e : Char × Nat} (he : e ∈ t.edges i) :
    e.2 ∈ t.nodes.toList.flatMap Node.targets := by
  obtain ⟨node, hnode, he⟩ := mem_edges.mp he
  exact List.mem_flatMap.mpr ⟨node, Array.mem_toList_iff.mpr (Array.mem_of_getElem? hnode),
    List.mem_map_of_mem he⟩

private theorem leads_concat {t : Trie} {i j : Nat} {labels : List Char} {label : Char} :
    t.Leads i (labels ++ [label]) j ↔ ∃ k, t.Leads i labels k ∧ (label, j) ∈ t.edges k := by
  induction labels generalizing i with
  | nil =>
    constructor
    · rintro (_ | ⟨he, ⟨⟩⟩)
      exact ⟨i, .here i, he⟩
    · rintro ⟨k, ⟨⟩, he⟩
      exact .step he (.here j)
  | cons first labels ih =>
    constructor
    · rintro (_ | ⟨he, hleads⟩)
      obtain ⟨k, hleads, hlast⟩ := ih.mp hleads
      exact ⟨k, .step he hleads, hlast⟩
    · rintro ⟨k, _ | ⟨he, hleads⟩, hlast⟩
      exact .step he (ih.mpr ⟨k, hleads, hlast⟩)

private theorem mem_waysWithin {t : Trie} {depth i j : Nat} {labels : List Char} :
    (labels, j) ∈ t.waysWithin depth i ↔ labels.length ≤ depth ∧ t.Leads i labels j := by
  induction depth generalizing i labels with
  | zero =>
    constructor
    · intro hmem
      cases List.mem_singleton.mp hmem
      exact ⟨Nat.le_refl _, .here _⟩
    · rintro ⟨hlength, hleads⟩
      cases List.eq_nil_of_length_eq_zero (Nat.le_zero.mp hlength)
      cases hleads
      exact .head _
  | succ depth ih =>
    simp only [waysWithin, List.mem_cons, List.mem_flatMap, List.mem_map, Prod.exists, Prod.mk.injEq]
    constructor
    · rintro (⟨rfl, rfl⟩ | ⟨label, k, he, labels, _, hmem, rfl, rfl⟩)
      · exact ⟨Nat.zero_le _, .here j⟩
      · obtain ⟨hlength, hleads⟩ := ih.mp hmem
        exact ⟨Nat.succ_le_succ hlength, .step he hleads⟩
    · rintro ⟨hlength, _ | ⟨he, hleads⟩⟩
      · exact .inl ⟨rfl, rfl⟩
      · exact .inr ⟨_, _, he, _, _, ih.mpr ⟨Nat.le_of_succ_le_succ hlength, hleads⟩, rfl, rfl⟩

private theorem valuesWithin_eq (t : Trie) (depth i : Nat) :
    t.valuesWithin depth i = (t.waysWithin depth i).flatMap fun w => t.values w.2 := by
  induction depth generalizing i with
  | zero => simp [valuesWithin, waysWithin]
  | succ depth ih =>
    simp only [valuesWithin, waysWithin, ih, List.flatMap_cons, List.flatMap_assoc, List.flatMap_map]
    rfl

/-- What is below a node is at the ends of the ways from it. -/
theorem valuesBelow_eq (t : Trie) (i : Nat) :
    t.valuesBelow i = (t.ways i).flatMap fun w => t.values w.2 :=
  t.valuesWithin_eq t.nodes.size i

namespace Forest

variable {t : Trie} (h : t.Forest)
include h

theorem child?_eq_some_iff {i j : Nat} {label : Char} :
    t.child? i label = some j ↔ (label, j) ∈ t.edges i := by
  rw [child?_eq_lookup, Ascending.lookup_eq_some_iff (h.labels i)]

theorem root?_eq_some_iff {l : Language} {i : Nat} : t.root? l = some i ↔ (l.index, i) ∈ t.roots :=
  Ascending.lookup_eq_some_iff h.roots

theorem root_targets_nodup : (t.roots.map (·.2)).Nodup := (List.nodup_append.mp h.targets_nodup).1

theorem node_targets_nodup {node : Node} (hnode : node ∈ t.nodes.toList) : node.targets.Nodup :=
  (List.nodup_flatMap.mp (List.nodup_append.mp h.targets_nodup).2.1).1 node hnode

theorem root_lt {r : UInt8 × Nat} (hr : r ∈ t.roots) : r.2 < t.nodes.size :=
  h.targets_lt r.2 (List.mem_append_left _ (List.mem_map_of_mem hr))

theorem edge_lt {node : Node} (hnode : node ∈ t.nodes.toList) {e : Char × Nat} (he : e ∈ node.edges) :
    e.2 < t.nodes.size :=
  h.targets_lt e.2 (List.mem_append_right _
    (List.mem_flatMap.mpr ⟨node, hnode, List.mem_map_of_mem he⟩))

private theorem not_shared {i i' j : Nat} {label label' : Char} (hlt : i < i')
    (he : (label, j) ∈ t.edges i) (he' : (label', j) ∈ t.edges i') : False := by
  obtain ⟨node, hnode, he⟩ := mem_edges.mp he
  obtain ⟨node', hnode', he'⟩ := mem_edges.mp he'
  rw [← Array.getElem?_toList, List.getElem?_eq_some_iff] at hnode hnode'
  obtain ⟨hi, rfl⟩ := hnode
  obtain ⟨hi', rfl⟩ := hnode'
  have hdisjoint := (List.nodup_flatMap.mp (List.nodup_append.mp h.targets_nodup).2.1).2
  exact List.pairwise_iff_getElem.mp hdisjoint i i' hi hi' hlt
    (List.mem_map_of_mem (f := (·.2)) he) (List.mem_map_of_mem (f := (·.2)) he')

private theorem edge_unique {i i' j : Nat} {label label' : Char} (he : (label, j) ∈ t.edges i)
    (he' : (label', j) ∈ t.edges i') : i = i' ∧ label = label' := by
  rcases Nat.lt_trichotomy i i' with hlt | rfl | hlt
  · exact (h.not_shared hlt he he').elim
  · obtain ⟨node, hnode, hin⟩ := mem_edges.mp he
    obtain ⟨node', hnode', hin'⟩ := mem_edges.mp he'
    cases hnode.symm.trans hnode'
    have hnodup := h.node_targets_nodup (Array.mem_toList_iff.mpr (Array.mem_of_getElem? hnode))
    have heq := List.inj_on_of_nodup_map hnodup hin hin' rfl
    exact ⟨rfl, congrArg Prod.fst heq⟩
  · exact (h.not_shared hlt he' he).elim

private theorem not_root {l : Language} {i j : Nat} {label : Char} (hroot : t.root? l = some j)
    (he : (label, j) ∈ t.edges i) : False :=
  (List.nodup_append.mp h.targets_nodup).2.2 j
    (List.mem_map_of_mem (f := (·.2)) (h.root?_eq_some_iff.mp hroot)) j (target_of_edge he) rfl

private theorem edge_of_path? {l : Language} {labels : List Char} {label : Char} {j : Nat}
    (hj : t.path? l (labels ++ [label]) = some j) :
    ∃ i, t.path? l labels = some i ∧ (label, j) ∈ t.edges i := by
  rw [path?_concat] at hj
  obtain ⟨i, hi, hchild⟩ := Option.bind_eq_some_iff.mp hj
  exact ⟨i, hi, h.child?_eq_some_iff.mp hchild⟩

/-- Paths lead to nodes that there are. -/
theorem lt_of_path? {l : Language} {labels : List Char} {i : Nat} (hi : t.path? l labels = some i) :
    i < t.nodes.size := by
  rcases labels.eq_nil_or_concat' with rfl | ⟨before, label, rfl⟩
  · rw [path?_nil] at hi
    exact h.root_lt (h.root?_eq_some_iff.mp hi)
  · obtain ⟨j, _, he⟩ := h.edge_of_path? hi
    exact h.targets_lt i (List.mem_append_right _ (target_of_edge he))

/-- A node is reached by one path at most. -/
theorem path?_injective {l l' : Language} {labels labels' : List Char} {j : Nat}
    (hj : t.path? l labels = some j) (hj' : t.path? l' labels' = some j) :
    l = l' ∧ labels = labels' := by
  induction labels using List.reverseRecOn generalizing labels' j with
  | nil =>
    rw [path?_nil] at hj
    rcases labels'.eq_nil_or_concat' with rfl | ⟨before', label', rfl⟩
    · rw [path?_nil] at hj'
      have heq := List.inj_on_of_nodup_map h.root_targets_nodup (h.root?_eq_some_iff.mp hj)
        (h.root?_eq_some_iff.mp hj') rfl
      exact ⟨Language.index_injective (congrArg Prod.fst heq), rfl⟩
    · obtain ⟨i', _, he'⟩ := h.edge_of_path? hj'
      exact (h.not_root hj he').elim
  | append_singleton before label ih =>
    obtain ⟨i, hi, he⟩ := h.edge_of_path? hj
    rcases labels'.eq_nil_or_concat' with rfl | ⟨before', label', rfl⟩
    · rw [path?_nil] at hj'
      exact (h.not_root hj' he).elim
    · obtain ⟨i', hi', he'⟩ := h.edge_of_path? hj'
      obtain ⟨rfl, rfl⟩ := h.edge_unique he he'
      obtain ⟨rfl, rfl⟩ := ih hi hi'
      exact ⟨rfl, rfl⟩

/-- Going from node to node by labels is following the edges with these labels. -/
theorem foldlM_child?_eq_some_iff {i j : Nat} {labels : List Char} :
    labels.foldlM t.child? i = some j ↔ t.Leads i labels j := by
  induction labels generalizing i with
  | nil =>
    constructor
    · rintro ⟨⟩
      exact .here _
    · rintro ⟨⟩
      rfl
  | cons label labels ih =>
    rw [List.foldlM_cons]
    constructor
    · intro hwalk
      obtain ⟨k, hk, hwalk⟩ := Option.bind_eq_some_iff.mp hwalk
      exact .step (h.child?_eq_some_iff.mp hk) (ih.mp hwalk)
    · rintro (_ | ⟨he, hleads⟩)
      rw [h.child?_eq_some_iff.mpr he]
      exact ih.mpr hleads

/-- A path goes from the root of its language along the edges with its labels. -/
theorem path?_eq_some_iff {l : Language} {labels : List Char} {i : Nat} :
    t.path? l labels = some i ↔ ∃ root, (l.index, root) ∈ t.roots ∧ t.Leads root labels i := by
  simp only [path?, Option.bind_eq_bind, Option.bind_eq_some_iff, h.root?_eq_some_iff,
    h.foldlM_child?_eq_some_iff]

private theorem le_of_leads {i j : Nat} {labels : List Char} (hleads : t.Leads i labels j) :
    i + labels.length ≤ j := by
  induction hleads with
  | here => exact Nat.le_refl _
  | @step i k _ _ _ he _ ih =>
    have hlt : i < k := h.forward i _ he
    rw [List.length_cons]
    omega

theorem lt_of_leads {i j : Nat} {labels : List Char} (hi : i < t.nodes.size)
    (hleads : t.Leads i labels j) : j < t.nodes.size := by
  induction hleads with
  | here => exact hi
  | step he _ ih => exact ih (h.targets_lt _ (List.mem_append_right _ (target_of_edge he)))

/-- A node is reached from another by one way at most. -/
theorem leads_injective {i j : Nat} {labels labels' : List Char} (hleads : t.Leads i labels j)
    (hleads' : t.Leads i labels' j) : labels = labels' := by
  induction labels using List.reverseRecOn generalizing labels' j with
  | nil =>
    cases hleads
    have := h.le_of_leads hleads'
    exact (List.eq_nil_of_length_eq_zero (by omega)).symm
  | append_singleton before label ih =>
    obtain ⟨k, hbefore, he⟩ := leads_concat.mp hleads
    rcases labels'.eq_nil_or_concat' with rfl | ⟨before', label', rfl⟩
    · cases hleads'
      have hle := h.le_of_leads hbefore
      have hlt : k < i := h.forward k _ he
      omega
    · obtain ⟨k', hbefore', he'⟩ := leads_concat.mp hleads'
      obtain ⟨rfl, rfl⟩ := h.edge_unique he he'
      rw [ih hbefore hbefore']

theorem nodup_waysWithin (depth i : Nat) : (t.waysWithin depth i).Nodup := by
  induction depth generalizing i with
  | zero => exact List.nodup_singleton _
  | succ depth ih =>
    have hdistinct : (t.edges i).Pairwise fun e e' => e.1 ≠ e'.1 :=
      List.pairwise_map.mp (Ascending.nodup_of_pairwise (h.labels i))
    refine List.nodup_cons.mpr ⟨by simp, List.nodup_flatMap.mpr ⟨?_, hdistinct.imp ?_⟩⟩
    · intro e _
      refine (ih e.2).map fun w w' heq => ?_
      simpa [Prod.ext_iff] using heq
    · intro e e' hne w hw hw'
      obtain ⟨u, _, rfl⟩ := List.mem_map.mp hw
      obtain ⟨u', _, heq⟩ := List.mem_map.mp hw'
      exact hne (by simp_all)

/-- From a node there are the ways to the nodes below it, each once. -/
theorem mem_ways {i j : Nat} (hi : i < t.nodes.size) {labels : List Char} :
    (labels, j) ∈ t.ways i ↔ t.Leads i labels j := by
  rw [ways, mem_waysWithin, and_iff_right_of_imp]
  intro hleads
  have := h.le_of_leads hleads
  have := h.lt_of_leads hi hleads
  omega

/-- What is below a node is at the nodes that edges lead to from it. -/
theorem mem_valuesBelow_iff_leads {i : Nat} (hi : i < t.nodes.size) {id : FeatureId} :
    id ∈ t.valuesBelow i ↔ ∃ more j, t.Leads i more j ∧ id ∈ t.values j := by
  simp only [valuesBelow_eq, List.mem_flatMap, Prod.exists, h.mem_ways hi]

/-- The values below the end of a path are those of the paths that extend it. -/
theorem mem_valuesBelow {l : Language} {labels : List Char} {i : Nat} (hi : t.path? l labels = some i)
    {id : FeatureId} : id ∈ t.valuesBelow i ↔ ∃ more, id ∈ t.valuesAt l (labels ++ more) := by
  have hvalues (more : List Char) : id ∈ t.valuesAt l (labels ++ more) ↔
      ∃ j, t.Leads i more j ∧ id ∈ t.values j := by
    rw [valuesAt, path?_append, hi]
    simp only [← h.foldlM_child?_eq_some_iff]
    change id ∈ ((more.foldlM t.child? i).map t.values).getD [] ↔ _
    cases more.foldlM t.child? i <;> simp
  simp only [h.mem_valuesBelow_iff_leads (h.lt_of_path? hi), hvalues]

/-- The languages of paths that lead somewhere are among the languages of the trie. -/
theorem mem_languages {l : Language} {labels : List Char} {i : Nat} (hi : t.path? l labels = some i) :
    l ∈ t.languages := by
  obtain ⟨root, hroot, _⟩ := Option.bind_eq_some_iff.mp hi
  exact List.mem_filterMap.mpr ⟨_, h.root?_eq_some_iff.mp hroot, l.ofIndex?_index⟩

end Forest
end Trie
end Gazetteer
