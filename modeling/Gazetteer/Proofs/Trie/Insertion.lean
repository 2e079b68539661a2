import Gazetteer.Proofs.Trie.Paths

/-! Insertion into a trie. Each step adds one path at most and keeps a forest a forest, and the
values change at the end of the one path that was asked for. -/
namespace Gazetteer

namespace Ascending

variable {α β : Type} [LT α] [DecidableLT α] [IsStrictTotalOrder α (· < ·)]

private theorem perm_insertPair {a : α} {v : β} {ps : List (α × β)} (h : ∀ p ∈ ps, p.1 ≠ a) :
    (insertPair a v ps).Perm ((a, v) :: ps) := by
  induction ps with
  | nil => exact .refl _
  | cons q qs ih =>
    obtain ⟨b, w⟩ := q
    obtain ⟨hb, hqs⟩ := List.forall_mem_cons.mp h
    rw [insertPair]
    split
    · exact .refl _
    split
    · exact ((ih hqs).cons _).trans (.swap ..)
    · next hlt hlt' => exact absurd (eq_of_not_lt hlt hlt').symm hb

end Ascending

namespace Trie

private theorem perm_flatMap_modify {α β : Type} {f : α → α} {g : α → List β} {as : List α}
    {i : Nat} {a : α} {b : β} (ha : as[i]? = some a) (hg : (g (f a)).Perm (b :: g a)) :
    ((as.modify i f).flatMap g).Perm (b :: as.flatMap g) := by
  induction as generalizing i with
  | nil => cases ha
  | cons c cs ih =>
    cases i with
    | zero =>
      cases ha
      rw [List.modify_zero_cons, List.flatMap_cons, List.flatMap_cons]
      exact hg.append_right _
    | succ i =>
      rw [List.modify_succ_cons, List.flatMap_cons, List.flatMap_cons]
      exact ((ih ha).append_left _).trans List.perm_middle

private theorem flatMap_modify {α β : Type} {f : α → α} {g : α → List β} (hg : ∀ a, g (f a) = g a)
    (as : List α) (i : Nat) : (as.modify i f).flatMap g = as.flatMap g := by
  induction as generalizing i with
  | nil => rw [List.modify_nil]
  | cons c cs ih =>
    cases i with
    | zero => rw [List.modify_zero_cons, List.flatMap_cons, List.flatMap_cons, hg]
    | succ i => rw [List.modify_succ_cons, List.flatMap_cons, List.flatMap_cons, ih]

private def rooted (t : Trie) (l : Language) : Trie :=
  ⟨Ascending.insertPair l.index t.nodes.size t.roots, t.nodes.push {}⟩

private def branched (t : Trie) (i : Nat) (label : Char) : Trie :=
  { t with nodes := (t.nodes.push {}).modify i fun node =>
      { node with edges := Ascending.insertPair label t.nodes.size node.edges } }

private def marked (t : Trie) (i : Nat) (feature : FeatureId) : Trie :=
  { t with nodes := t.nodes.modify i fun node =>
      { node with values := Ascending.insert feature node.values } }

private theorem withRoot_of_none {t : Trie} {l : Language} (h : t.root? l = none) :
    t.withRoot l = (t.nodes.size, t.rooted l) := by
  simp only [withRoot, h]
  rfl

private theorem withRoot_of_some {t : Trie} {l : Language} {root : Nat}
    (h : t.root? l = some root) : t.withRoot l = (root, t) := by
  simp only [withRoot, h]

private theorem withChild_of_none {t : Trie} {i : Nat} {label : Char}
    (h : t.child? i label = none) : t.withChild i label = (t.nodes.size, t.branched i label) := by
  simp only [withChild, h]
  rfl

private theorem withChild_of_some {t : Trie} {i child : Nat} {label : Char}
    (h : t.child? i label = some child) : t.withChild i label = (child, t) := by
  simp only [withChild, h]

section fields
variable {β : Type} {nodes : Array Node} {get : Node → List β}

private theorem field_push (hget : get {} = []) (j : Nat) :
    ((nodes.push {})[j]?.map get).getD [] = (nodes[j]?.map get).getD [] := by
  rw [Array.getElem?_push]
  split
  · next hj => simp [hj, hget]
  · rfl

private theorem field_modify {change : Node → Node} {update : List β → List β}
    (hget : ∀ node, get (change node) = update (get node)) {i : Nat} (hi : i < nodes.size) (j : Nat) :
    ((nodes.modify i change)[j]?.map get).getD [] =
      if j = i then update ((nodes[i]?.map get).getD []) else (nodes[j]?.map get).getD [] := by
  rw [Array.getElem?_modify]
  by_cases hji : j = i
  · subst hji
    simp [hi, hget]
  · rw [if_neg (Ne.symm hji), if_neg hji]

private theorem field_modify_same {change : Node → Node}
    (hget : ∀ node, get (change node) = get node) (i j : Nat) :
    ((nodes.modify i change)[j]?.map get).getD [] = (nodes[j]?.map get).getD [] := by
  rw [Array.getElem?_modify]
  split
  · cases nodes[j]? <;> simp [hget]
  · rfl

end fields

section steps
variable (t : Trie)

private theorem edges_rooted (l : Language) (j : Nat) : (t.rooted l).edges j = t.edges j :=
  field_push rfl j

private theorem values_rooted (l : Language) (j : Nat) : (t.rooted l).values j = t.values j :=
  field_push rfl j

private theorem edges_branched {i : Nat} (hi : i < t.nodes.size) (label : Char) (j : Nat) :
    (t.branched i label).edges j =
      if j = i then Ascending.insertPair label t.nodes.size (t.edges i) else t.edges j := by
  have hi' : i < (t.nodes.push {}).size := by
    rw [Array.size_push]
    exact Nat.lt_succ_of_lt hi
  refine (field_modify (fun _ => rfl) hi' j).trans ?_
  rw [field_push rfl, field_push rfl]
  rfl

private theorem values_branched (i : Nat) (label : Char) (j : Nat) :
    (t.branched i label).values j = t.values j := by
  simp only [values, branched]
  rw [field_modify_same, field_push rfl]
  exact fun _ => rfl

private theorem edges_marked (i : Nat) (feature : FeatureId) (j : Nat) :
    (t.marked i feature).edges j = t.edges j := by
  simp only [edges, marked]
  rw [field_modify_same]
  exact fun _ => rfl

private theorem values_marked {i : Nat} (hi : i < t.nodes.size) (feature : FeatureId) (j : Nat) :
    (t.marked i feature).values j =
      if j = i then Ascending.insert feature (t.values i) else t.values j :=
  field_modify (fun _ => rfl) hi j

end steps

private theorem child?_rooted (t : Trie) (l : Language) : (t.rooted l).child? = t.child? := by
  funext j label
  rw [child?_eq_lookup, child?_eq_lookup, edges_rooted]

private theorem child?_marked (t : Trie) (i : Nat) (feature : FeatureId) :
    (t.marked i feature).child? = t.child? := by
  funext j label
  rw [child?_eq_lookup, child?_eq_lookup, edges_marked]

private theorem child?_size (t : Trie) (label : Char) : t.child? t.nodes.size label = none := by
  simp [child?]

private theorem values_size (t : Trie) : t.values t.nodes.size = [] := by
  simp [values]

private theorem valuesAt_of_path? {t t' : Trie} {l : Language} {labels : List Char}
    (hnone : t.path? l labels = none) (hvalues : ∀ j, t'.values j = t.values j)
    (hpath : ∀ l' labels', t'.path? l' labels' =
      if l' = l ∧ labels' = labels then some t.nodes.size else t.path? l' labels')
    (l' : Language) (labels' : List Char) : t'.valuesAt l' labels' = t.valuesAt l' labels' := by
  rw [valuesAt, valuesAt, hpath, show t'.values = t.values from funext hvalues]
  split
  · next hnew =>
    obtain ⟨rfl, rfl⟩ := hnew
    rw [hnone]
    exact t.values_size
  · rfl

private theorem isSome_path?_of_path? {t t' : Trie} {l : Language} {labels : List Char}
    (hbefore : ∀ labels', labels' <+: labels → labels' = labels ∨ (t.path? l labels').isSome)
    (hpath : ∀ l' labels', t'.path? l' labels' =
      if l' = l ∧ labels' = labels then some t.nodes.size else t.path? l' labels')
    (l' : Language) (labels' : List Char) :
    (t'.path? l' labels').isSome ↔
      (t.path? l' labels').isSome ∨ l' = l ∧ labels' <+: labels := by
  rw [hpath]
  split
  · next hnew =>
    obtain ⟨rfl, rfl⟩ := hnew
    exact iff_of_true rfl (.inr ⟨rfl, List.prefix_rfl⟩)
  · next hnew =>
    refine (or_iff_left_of_imp ?_).symm
    rintro ⟨rfl, hbegins⟩
    exact (hbefore labels' hbegins).resolve_left fun he => hnew ⟨rfl, he⟩

/-- What a step of the way to a token leaves: a forest with the same values, in which the path so
far leads to a node, and no paths are new but its beginnings. -/
private structure Led (t : Trie) (l : Language) (labels : List Char) (r : Nat × Trie) : Prop where
  forest : r.2.Forest
  path : r.2.path? l labels = some r.1
  paths : ∀ l' labels', (r.2.path? l' labels').isSome ↔
    (t.path? l' labels').isSome ∨ l' = l ∧ labels' <+: labels
  valuesAt : ∀ l' labels', r.2.valuesAt l' labels' = t.valuesAt l' labels'
  values : ∀ j, r.2.values j = t.values j

namespace Forest

variable {t : Trie} (h : t.Forest)
include h

private theorem path?_rooted {l : Language} (hnone : t.root? l = none) (l' : Language)
    (labels : List Char) :
    (t.rooted l).path? l' labels =
      if l' = l ∧ labels = [] then some t.nodes.size else t.path? l' labels := by
  have hroot : (t.rooted l).root? l' = if l' = l then some t.nodes.size else t.root? l' := by
    have hlookup := Ascending.lookup_insertPair (a := l.index) (v := t.nodes.size) h.roots l'.index
    by_cases hl : l' = l
    · subst hl
      simpa [rooted, root?] using hlookup
    · have hindex : l'.index ≠ l.index := fun he => hl (Language.index_injective he)
      simpa [rooted, root?, hl, hindex] using hlookup
  unfold path?
  rw [hroot, child?_rooted]
  by_cases hl : l' = l
  · subst hl
    rw [if_pos rfl, hnone]
    cases labels with
    | nil => simp
    | cons label labels => simp [child?_size]
  · rw [if_neg hl, if_neg fun he => hl he.1]

private theorem child?_branched {i : Nat} (hi : i < t.nodes.size) (label : Char) (j : Nat)
    (label' : Char) :
    (t.branched i label).child? j label' =
      if j = i ∧ label' = label then some t.nodes.size else t.child? j label' := by
  rw [child?_eq_lookup, edges_branched t hi, child?_eq_lookup]
  by_cases hj : j = i
  · subst hj
    simp [Ascending.lookup_insertPair (h.labels j)]
  · simp [hj]

private theorem path?_branched {l : Language} {labels : List Char} {i : Nat} {label : Char}
    (hi : t.path? l labels = some i) (hnone : t.child? i label = none) (l' : Language)
    (labels' : List Char) :
    (t.branched i label).path? l' labels' =
      if l' = l ∧ labels' = labels ++ [label] then some t.nodes.size else t.path? l' labels' := by
  have hchild := h.child?_branched (h.lt_of_path? hi) label
  induction labels' using List.reverseRecOn with
  | nil =>
    rw [if_neg (by simp), path?_nil, path?_nil]
    rfl
  | append_singleton before last ih =>
    rw [path?_concat, path?_concat, ih]
    by_cases hnew : l' = l ∧ before = labels ++ [label]
    · -- The new node has no edges, and the old trie has no path through it.
      obtain ⟨rfl, rfl⟩ := hnew
      have hsize : t.nodes.size ≠ i := Nat.ne_of_gt (h.lt_of_path? hi)
      have hold : t.path? l' (labels ++ [label]) = none := by
        rw [path?_concat, hi]
        exact hnone
      simp [hold, hchild, hsize, child?_size]
    · rw [if_neg hnew]
      cases hj : t.path? l' before with
      | none =>
        have hother : ¬ (l' = l ∧ before ++ [last] = labels ++ [label]) := by
          rintro ⟨rfl, he⟩
          cases (List.append_inj' he rfl).1
          cases hj.symm.trans hi
        rw [if_neg hother]
        rfl
      | some j =>
        change (t.branched i label).child? j last = _
        rw [hchild]
        by_cases hlast : l' = l ∧ before ++ [last] = labels ++ [label]
        · obtain ⟨rfl, he⟩ := hlast
          obtain ⟨rfl, hlabel⟩ := List.append_inj' he rfl
          cases hj.symm.trans hi
          cases hlabel
          simp
        · rw [if_neg hlast, if_neg]
          · rfl
          · rintro ⟨rfl, rfl⟩
            obtain ⟨rfl, rfl⟩ := h.path?_injective hj hi
            exact hlast ⟨rfl, rfl⟩

omit h in
private theorem path?_marked (i : Nat) (feature : FeatureId) (l : Language) (labels : List Char) :
    (t.marked i feature).path? l labels = t.path? l labels := by
  unfold path?
  rw [child?_marked]
  rfl

private theorem targets_of_perm {t' : Trie} (hsize : t'.nodes.size = t.nodes.size + 1)
    (hperm : t'.targets.Perm (t.nodes.size :: t.targets)) :
    (∀ i ∈ t'.targets, i < t'.nodes.size) ∧ t'.targets.Nodup := by
  constructor
  · intro i hi
    rcases List.mem_cons.mp (hperm.mem_iff.mp hi) with rfl | hi
    · omega
    · have := h.targets_lt i hi
      omega
  · rw [hperm.nodup_iff, List.nodup_cons]
    refine ⟨?_, h.targets_nodup⟩
    intro hmem
    exact Nat.lt_irrefl _ (h.targets_lt _ hmem)

omit h in
private theorem targets_rooted {l : Language} (hnew : ∀ r ∈ t.roots, r.1 ≠ l.index) :
    (t.rooted l).targets.Perm (t.nodes.size :: t.targets) := by
  have hroots := Ascending.perm_insertPair (v := t.nodes.size) hnew
  have hnodes : (t.nodes.push {}).toList.flatMap Node.targets =
      t.nodes.toList.flatMap Node.targets := by simp [Node.targets]
  exact (hroots.map (·.2)).append (.of_eq hnodes)

omit h in
private theorem targets_branched {i : Nat} {label : Char} (hi : i < t.nodes.size)
    (hnew : ∀ e ∈ t.edges i, e.1 ≠ label) :
    (t.branched i label).targets.Perm (t.nodes.size :: t.targets) := by
  have hedges := Ascending.perm_insertPair (v := t.nodes.size) hnew
  have hnode : (t.nodes.toList ++ [({} : Node)])[i]? = some t.nodes[i] := by
    rw [List.getElem?_append_left hi, Array.getElem?_toList, Array.getElem?_eq_getElem hi]
  have hflat := perm_flatMap_modify (g := Node.targets) (b := t.nodes.size)
    (f := fun node => { node with edges := Ascending.insertPair label t.nodes.size node.edges }) hnode
    (by simpa [Node.targets, edges, hi] using hedges.map (·.2))
  have hsame : (t.nodes.toList ++ [({} : Node)]).flatMap Node.targets =
      t.nodes.toList.flatMap Node.targets := by simp [Node.targets]
  rw [hsame] at hflat
  simp only [targets, branched, Array.toList_modify, Array.toList_push]
  exact (hflat.append_left _).trans List.perm_middle

private theorem forest_rooted {l : Language} (hnone : t.root? l = none) : (t.rooted l).Forest := by
  have hnew : ∀ r ∈ t.roots, r.1 ≠ l.index := by
    intro r hr he
    have := List.lookup_eq_none_iff.mp hnone r hr
    simp [he] at this
  obtain ⟨hlt, hnodup⟩ := h.targets_of_perm (Array.size_push _) (targets_rooted hnew)
  exact {
    roots := Ascending.pairwise_insertPair h.roots
    known := fun r hr => by
      rcases List.mem_cons.mp ((Ascending.perm_insertPair hnew).mem_iff.mp hr) with rfl | hr
      · simp [Language.ofIndex?_index]
      · exact h.known r hr
    labels := fun j => by
      rw [edges_rooted]
      exact h.labels j
    forward := fun j => by
      rw [edges_rooted]
      exact h.forward j
    targets_lt := hlt
    targets_nodup := hnodup }

private theorem forest_branched {i : Nat} {label : Char} (hi : i < t.nodes.size)
    (hnone : t.child? i label = none) : (t.branched i label).Forest := by
  have hnew : ∀ e ∈ t.edges i, e.1 ≠ label := by
    intro e he heq
    rw [child?_eq_lookup] at hnone
    have := List.lookup_eq_none_iff.mp hnone e he
    simp [heq] at this
  obtain ⟨hlt, hnodup⟩ := h.targets_of_perm (by simp [branched]) (targets_branched hi hnew)
  exact {
    roots := h.roots
    known := h.known
    labels := fun j => by
      rw [edges_branched t hi]
      split
      · exact Ascending.pairwise_insertPair (h.labels i)
      · exact h.labels j
    forward := fun j e he => by
      rw [edges_branched t hi] at he
      split at he
      · next hj =>
        subst hj
        rcases List.mem_cons.mp ((Ascending.perm_insertPair hnew).mem_iff.mp he) with rfl | he
        · exact hi
        · exact h.forward j e he
      · exact h.forward j e he
    targets_lt := hlt
    targets_nodup := hnodup }

private theorem forest_marked (i : Nat) (feature : FeatureId) : (t.marked i feature).Forest := by
  have htargets : (t.marked i feature).targets = t.targets := by
    simp only [targets, marked, Array.toList_modify]
    rw [flatMap_modify]
    exact fun _ => rfl
  exact {
    roots := h.roots
    known := h.known
    labels := fun j => by
      rw [edges_marked]
      exact h.labels j
    forward := fun j => by
      rw [edges_marked]
      exact h.forward j
    targets_lt := by
      rw [htargets]
      simpa [marked] using h.targets_lt
    targets_nodup := htargets ▸ h.targets_nodup }

private theorem led_of_path? {l : Language} {labels : List Char} {i : Nat}
    (hi : t.path? l labels = some i) : Led t l labels (i, t) where
  forest := h
  path := hi
  paths l' labels' := by
    refine (or_iff_left_of_imp ?_).symm
    rintro ⟨rfl, hbegins⟩
    exact isSome_path?_of_isPrefix hbegins (Option.isSome_of_eq_some hi)
  valuesAt _ _ := rfl
  values _ := rfl

private theorem led_withRoot (l : Language) : Led t l [] (t.withRoot l) := by
  cases hroot : t.root? l with
  | some root =>
    rw [withRoot_of_some hroot]
    exact h.led_of_path? ((t.path?_nil l).trans hroot)
  | none =>
    rw [withRoot_of_none hroot]
    refine ⟨h.forest_rooted hroot, ?_, ?_, ?_, t.values_rooted l⟩
    · rw [h.path?_rooted hroot, if_pos ⟨rfl, rfl⟩]
    · exact isSome_path?_of_path? (fun _ hbegins => .inl (List.prefix_nil.mp hbegins))
        (h.path?_rooted hroot)
    · exact valuesAt_of_path? ((t.path?_nil l).trans hroot) (t.values_rooted l) (h.path?_rooted hroot)

private theorem led_withChild {l : Language} {labels : List Char} {i : Nat}
    (hi : t.path? l labels = some i) (label : Char) :
    Led t l (labels ++ [label]) (t.withChild i label) := by
  have hpath : t.path? l (labels ++ [label]) = t.child? i label := by
    rw [path?_concat, hi]
    rfl
  cases hchild : t.child? i label with
  | some child =>
    rw [withChild_of_some hchild]
    exact h.led_of_path? (hpath.trans hchild)
  | none =>
    rw [withChild_of_none hchild]
    refine ⟨h.forest_branched (h.lt_of_path? hi) hchild, ?_, ?_, ?_, t.values_branched i label⟩
    · rw [h.path?_branched hi hchild, if_pos ⟨rfl, rfl⟩]
    · refine isSome_path?_of_path? (fun labels' hbegins => ?_) (h.path?_branched hi hchild)
      exact (List.prefix_concat_iff.mp hbegins).imp_right fun hbegins =>
        isSome_path?_of_isPrefix hbegins (Option.isSome_of_eq_some hi)
    · exact valuesAt_of_path? (hpath.trans hchild) (t.values_branched i label)
        (h.path?_branched hi hchild)

end Forest

private theorem Led.walk {t : Trie} {l : Language} {labels : List Char} {r : Nat × Trie}
    (h : Led t l labels r) (more : List Char) :
    Led t l (labels ++ more) (more.foldl (fun r label => r.2.withChild r.1 label) r) := by
  induction more generalizing labels r with
  | nil => rwa [List.append_nil]
  | cons label more ih =>
    have hstep := h.forest.led_withChild h.path label
    rw [List.foldl_cons, List.append_cons]
    refine ih ⟨hstep.forest, hstep.path, fun l' labels' => ?_,
      fun l' labels' => (hstep.valuesAt _ _).trans (h.valuesAt _ _),
      fun j => (hstep.values j).trans (h.values j)⟩
    have hlonger (hbegins : labels' <+: labels) : labels' <+: labels ++ [label] :=
      hbegins.trans (List.prefix_append labels [label])
    rw [hstep.paths, h.paths, or_assoc, ← and_or_left, or_iff_right_of_imp hlonger]

private theorem exists_led {t : Trie} (h : t.Forest) (l : Language) (token : String)
    (feature : FeatureId) :
    ∃ r, Led t l token.toList r ∧ t.insert l token feature = r.2.marked r.1 feature :=
  ⟨_, (h.led_withRoot l).walk token.toList, rfl⟩

/-- Inserting a feature under a token adds it to the values of the token's path and to no others. -/
theorem Forest.insert {t : Trie} (h : t.Forest) (l : Language) (token : String) (feature : FeatureId) :
    (t.insert l token feature).Forest ∧
      ∀ l' labels, (t.insert l token feature).valuesAt l' labels =
        if l' = l ∧ labels = token.toList then Ascending.insert feature (t.valuesAt l' labels)
        else t.valuesAt l' labels := by
  obtain ⟨r, hled, hinsert⟩ := exists_led h l token feature
  rw [hinsert]
  have hend : r.1 < r.2.nodes.size := hled.forest.lt_of_path? hled.path
  refine ⟨hled.forest.forest_marked _ _, ?_⟩
  intro l' labels
  rw [← hled.valuesAt l' labels, valuesAt, valuesAt, Forest.path?_marked]
  by_cases hhere : l' = l ∧ labels = token.toList
  · obtain ⟨rfl, rfl⟩ := hhere
    rw [if_pos ⟨rfl, rfl⟩, hled.path]
    simp [values_marked r.2 hend]
  · rw [if_neg hhere]
    cases hj : r.2.path? l' labels with
    | none => rfl
    | some j =>
      have hne : j ≠ r.1 := by
        rintro rfl
        exact hhere (hled.forest.path?_injective hj hled.path)
      simp [values_marked r.2 hend, hne]

/-- After an insertion each path has the values from before, and the path of the token has the new
one. -/
theorem mem_valuesAt_insert {t : Trie} (h : t.Forest) {l l' : Language} {token : String}
    {labels : List Char} {feature id : FeatureId} :
    id ∈ (t.insert l token feature).valuesAt l' labels ↔
      (l' = l ∧ labels = token.toList ∧ id = feature) ∨ id ∈ t.valuesAt l' labels := by
  rw [(h.insert l token feature).2]
  split
  · next hhere => simp [Ascending.mem_insert, hhere]
  · next hhere =>
    refine (or_iff_right ?_).symm
    rintro ⟨hl, hlabels, _⟩
    exact hhere ⟨hl, hlabels⟩

/-- An insertion leaves the paths that were there, and the beginnings of the token's path. -/
theorem isSome_path?_insert {t : Trie} (h : t.Forest) {l l' : Language} {token : String}
    {labels : List Char} {feature : FeatureId} :
    ((t.insert l token feature).path? l' labels).isSome ↔
      (t.path? l' labels).isSome ∨ l' = l ∧ labels <+: token.toList := by
  obtain ⟨r, hled, hinsert⟩ := exists_led h l token feature
  rw [hinsert, Forest.path?_marked]
  exact hled.paths l' labels

/-- What the values of every node have, and keep when a feature is added, they have after an
insertion too. -/
theorem forall_values_insert {t : Trie} (h : t.Forest) {P : List FeatureId → Prop} {l : Language}
    {token : String} {feature : FeatureId} (hadd : ∀ vs, P vs → P (Ascending.insert feature vs))
    (hall : ∀ j, P (t.values j)) (j : Nat) : P ((t.insert l token feature).values j) := by
  obtain ⟨r, hled, hinsert⟩ := exists_led h l token feature
  rw [hinsert]
  have hend : r.1 < r.2.nodes.size := hled.forest.lt_of_path? hled.path
  rw [values_marked r.2 hend, hled.values, hled.values]
  split
  · exact hadd _ (hall r.1)
  · exact hall j

theorem forest_empty : empty.Forest where
  roots := .nil
  known := nofun
  labels _ := .nil
  forward _ := nofun
  targets_lt := nofun
  targets_nodup := .nil

def ofEntries (es : List (Language × String × FeatureId)) : Trie :=
  es.foldl (fun t e => t.insert e.1 e.2.1 e.2.2) empty

/-- A trie that was built by insertions is a forest. -/
theorem forest_ofEntries (es : List (Language × String × FeatureId)) : (ofEntries es).Forest := by
  have hfold (t : Trie) (h : t.Forest) :
      (es.foldl (fun t e => t.insert e.1 e.2.1 e.2.2) t).Forest := by
    induction es generalizing t with
    | nil => exact h
    | cons e es ih => exact ih _ (h.insert e.1 e.2.1 e.2.2).1
  exact hfold empty forest_empty

theorem valuesAt_empty (l : Language) (labels : List Char) : empty.valuesAt l labels = [] := rfl

end Trie
end Gazetteer
