import Gazetteer.CellIndex.Basic
import Gazetteer.Proofs.Ascending
import Mathlib.Data.List.Nodup

/-! What a place index holds: entries, each at a scale. Inserting adds one entry, and a lookup finds
the entries of the coarser scales whose keys are in the range. -/
namespace Gazetteer.CellIndex

instance : IsStrictTotalOrder Entry (· < ·) := by
  apply isStrictTotalOrder_of_toNat (fun e => e.key.toNat * 2 ^ 32 + e.feature.toNat)
  · intro a b h
    obtain ⟨key, feature⟩ := a
    obtain ⟨key', feature'⟩ := b
    have := feature.toNat_lt
    have := feature'.toNat_lt
    simp only at h
    rw [Entry.mk.injEq, ← UInt64.toNat_inj, ← UInt32.toNat_inj]
    omega
  · intro a b
    have := a.feature.toNat_lt
    have := b.feature.toNat_lt
    change a.key < b.key ∨ a.key = b.key ∧ a.feature < b.feature ↔ _
    rw [UInt64.lt_iff_toNat_lt, ← UInt64.toNat_inj, UInt32.lt_iff_toNat_lt]
    omega

/-- The index has an entry at a scale. -/
def Has (index : CellIndex) (scale : Scale) (e : Entry) : Prop :=
  ∃ l ∈ index.layers, l.scale = scale ∧ e ∈ l.entries

/-- The layers are in order, and so are the entries of each. -/
structure Ordered (index : CellIndex) : Prop where
  layers : (index.layers.map (·.scale)).Pairwise (· < ·)
  entries : ∀ l ∈ index.layers, l.entries.Pairwise (· < ·)

/-- As in order as what is stored has to be: an entry may be there twice. -/
structure Arranged (index : CellIndex) : Prop where
  layers : (index.layers.map (·.scale)).Pairwise (· < ·)
  entries : ∀ l ∈ index.layers, l.entries.Pairwise fun a b => ¬ b < a

theorem Ordered.arranged {index : CellIndex} (h : index.Ordered) : index.Arranged :=
  ⟨h.layers, fun l hl => (h.entries l hl).imp Ascending.lt_asymm⟩

theorem ordered_empty : Ordered empty := ⟨.nil, nofun⟩

theorem not_has_empty (scale : Scale) (e : Entry) : ¬ empty.Has scale e := by simp [Has, empty]

private theorem scales_insertEntry (scale : Scale) (e : Entry) (ls : List Layer) :
    (insertEntry scale e ls).map (·.scale) = Ascending.insert scale (ls.map (·.scale)) := by
  induction ls with
  | nil => rfl
  | cons l ls ih =>
    rw [insertEntry, List.map_cons, Ascending.insert]
    split
    · rfl
    split
    · rw [List.map_cons, ih]
    · next h h' => rw [List.map_cons, Ascending.eq_of_not_lt h h']

/-- What every list of entries has, and keeps when an entry is added, the lists have after an
insertion too. -/
theorem forall_insertEntry {P : List Entry → Prop} {scale : Scale} {e : Entry}
    {ls : List Layer} (hnew : P [e]) (hadd : ∀ l ∈ ls, P l.entries → P (Ascending.insert e l.entries))
    (h : ∀ l ∈ ls, P l.entries) : ∀ l ∈ insertEntry scale e ls, P l.entries := by
  induction ls with
  | nil => exact List.forall_mem_singleton.mpr hnew
  | cons l ls ih =>
    obtain ⟨hl, hls⟩ := List.forall_mem_cons.mp h
    obtain ⟨hadd, hadds⟩ := List.forall_mem_cons.mp hadd
    rw [insertEntry]
    split
    · exact List.forall_mem_cons.mpr ⟨hnew, h⟩
    split
    · exact List.forall_mem_cons.mpr ⟨hl, ih hadds hls⟩
    · exact List.forall_mem_cons.mpr ⟨hadd hl, hls⟩

/-- An insertion keeps an index in order. -/
theorem Ordered.insert {index : CellIndex} (h : index.Ordered) (key : UInt64) (scale : Scale)
    (feature : FeatureId) : (index.insert key scale feature).Ordered := by
  refine ⟨?_, forall_insertEntry (List.pairwise_singleton ..) (fun _ _ => ?_) h.entries⟩
  · rw [CellIndex.insert, scales_insertEntry]
    exact Ascending.pairwise_insert h.layers
  · exact Ascending.pairwise_insert

def ofEntries (es : List (UInt64 × Scale × FeatureId)) : CellIndex :=
  es.foldl (fun index e => index.insert e.1 e.2.1 e.2.2) empty

/-- An index that was built by insertions is in order. -/
theorem ordered_ofEntries (es : List (UInt64 × Scale × FeatureId)) : (ofEntries es).Ordered := by
  have hfold (index : CellIndex) (h : index.Ordered) :
      (es.foldl (fun index e => index.insert e.1 e.2.1 e.2.2) index).Ordered := by
    induction es generalizing index with
    | nil => exact h
    | cons e es ih => exact ih _ (h.insert e.1 e.2.1 e.2.2)
  exact hfold empty ordered_empty

/-- After an insertion there are the entries from before, and the new one. -/
theorem has_insert {index : CellIndex} {key : UInt64} {scale scale' : Scale} {feature : FeatureId}
    {e : Entry} :
    (index.insert key scale feature).Has scale' e ↔
      (scale' = scale ∧ e = ⟨key, feature⟩) ∨ index.Has scale' e := by
  obtain ⟨ls⟩ := index
  simp only [Has, insert]
  induction ls with
  | nil => simp [insertEntry, eq_comm]
  | cons l ls ih =>
    rw [insertEntry]
    split
    · simp [eq_comm]
    split
    · rw [List.exists_mem_cons_iff, List.exists_mem_cons_iff, ih]
      exact or_left_comm
    · next h h' =>
      have hscale := Ascending.eq_of_not_lt h h'
      rw [List.exists_mem_cons_iff, List.exists_mem_cons_iff, Ascending.mem_insert, ← or_assoc,
        ← hscale, and_or_left, @eq_comm _ scale]

def contents (index : CellIndex) : List (Scale × Entry) :=
  index.layers.flatMap fun l => l.entries.map (l.scale, ·)

theorem mem_contents {index : CellIndex} {s : Scale} {e : Entry} :
    (s, e) ∈ index.contents ↔ index.Has s e := by
  simp [contents, Has, and_comm]

theorem nodup_contents {index : CellIndex} (h : index.Ordered) : index.contents.Nodup := by
  refine List.nodup_flatMap.mpr ⟨fun l hl => ?_, ?_⟩
  · exact (Ascending.nodup_of_pairwise (h.entries l hl)).map fun _ _ => And.right ∘ Prod.mk.inj
  · refine (List.pairwise_map.mp h.layers).imp fun {l m} hlm e hel hem => ?_
    obtain ⟨_, _, rfl⟩ := List.mem_map.mp hel
    obtain ⟨_, _, hscale⟩ := List.mem_map.mp hem
    exact Ascending.lt_irrefl l.scale ((Prod.mk.inj hscale).1 ▸ hlm)

/-- Keys below a bound come first. -/
theorem key_lt_of_not_lt (bound : Nat) (a b : Entry) (hab : ¬ b < a)
    (hb : decide (b.key.toNat < bound) = true) : decide (a.key.toNat < bound) = true := by
  have hkey : ¬ b.key < a.key := fun hlt => hab (.inl hlt)
  simp only [decide_eq_true_eq, UInt64.lt_iff_toNat_lt] at *
  omega

private theorem slice_eq_filter {es : List Entry} (h : es.Pairwise fun a b => ¬ b < a)
    (keys : KeyRange) :
    (es.dropWhile (·.key.toNat < keys.lo)).takeWhile (·.key.toNat < keys.hi) =
      es.filter (·.key.toNat ∈ keys) := by
  have hdrop := h.sublist (List.dropWhile_sublist (·.key.toNat < keys.lo))
  rw [takeWhile_eq_filter_of_pairwise hdrop (key_lt_of_not_lt _),
    dropWhile_eq_filter_of_pairwise h (key_lt_of_not_lt _), List.filter_filter]
  refine List.filter_congr fun e _ => ?_
  rw [← decide_not, ← Bool.decide_and, decide_eq_decide, Nat.not_lt, and_comm]
  rfl

private theorem coarser_eq_filter {index : CellIndex} (h : index.Arranged) (scale : Scale) :
    index.layers.takeWhile (·.scale ≤ scale) = index.layers.filter (·.scale ≤ scale) := by
  refine takeWhile_eq_filter_of_pairwise (List.pairwise_map.mp h.layers) fun l m hlm hm => ?_
  simp only [decide_eq_true_eq, UInt8.le_iff_toNat_le, UInt8.lt_iff_toNat_lt] at *
  omega

private theorem flatMap_filter {α β : Type} {p : α → Bool} {f g : α → List β} {as : List α}
    (h : ∀ a ∈ as, g a = if p a then f a else []) : (as.filter p).flatMap f = as.flatMap g := by
  induction as with
  | nil => rfl
  | cons a as ih =>
    obtain ⟨ha, has⟩ := List.forall_mem_cons.mp h
    rw [List.flatMap_cons, ha, ← ih has]
    by_cases hpa : p a = true <;> simp [hpa]

/-- A lookup in layers and entries that are in order, which stops at the first scale or key too
large, passes over nothing: it finds what a scan of all entries does. -/
theorem lookup_eq_filter {index : CellIndex} (h : index.Arranged) (keys : KeyRange) (scale : Scale) :
    index.lookup keys scale =
      (index.contents.filter fun e => e.1 ≤ scale ∧ e.2.key.toNat ∈ keys).map (·.2.feature) := by
  rw [lookup, coarser_eq_filter h, contents, List.filter_flatMap, List.map_flatMap]
  refine flatMap_filter fun l hl => ?_
  rw [slice_eq_filter (h.entries l hl), List.filter_map, List.map_map]
  by_cases hscale : l.scale ≤ scale <;> simp [hscale, Function.comp_def]

/-- A lookup finds the features of the entries in the range, at the scale and coarser ones. -/
theorem mem_lookup {index : CellIndex} (h : index.Arranged) {keys : KeyRange} {scale : Scale}
    {id : FeatureId} :
    id ∈ index.lookup keys scale ↔
      ∃ s e, index.Has s e ∧ s ≤ scale ∧ e.key.toNat ∈ keys ∧ e.feature = id := by
  simp only [lookup_eq_filter h, List.mem_map, List.mem_filter, Prod.exists, mem_contents,
    decide_eq_true_eq, and_assoc]

/-- Each feature has one entry at most. -/
def Single (index : CellIndex) : Prop :=
  ∀ s s' e e', index.Has s e → index.Has s' e' → e.feature = e'.feature → s = s' ∧ e = e'

/-- Lookups in ranges apart from each other find each feature once at most. -/
theorem nodup_lookups {index : CellIndex} (h : index.Ordered) (hsingle : index.Single)
    {ranges : List KeyRange} (hapart : ranges.Pairwise fun r s => r.hi ≤ s.lo) (scale : Scale) :
    (ranges.flatMap fun keys => index.lookup keys scale).Nodup := by
  refine List.nodup_flatMap.mpr ⟨fun keys _ => ?_, ?_⟩
  · rw [lookup_eq_filter h.arranged]
    refine ((nodup_contents h).filter _).map_on ?_
    intro a ha b hb hfeature
    obtain ⟨hscale, hentry⟩ := hsingle _ _ _ _ (mem_contents.mp (List.mem_filter.mp ha).1)
      (mem_contents.mp (List.mem_filter.mp hb).1) hfeature
    exact Prod.ext hscale hentry
  · apply hapart.imp
    intro r s hrs id hr hs
    obtain ⟨_, e, he, _, hkey, hid⟩ := (mem_lookup h.arranged).mp hr
    obtain ⟨_, e', he', _, hkey', hid'⟩ := (mem_lookup h.arranged).mp hs
    obtain ⟨_, rfl⟩ := hsingle _ _ _ _ he he' (hid.trans hid'.symm)
    have := hkey.2
    have := hkey'.1
    omega

end Gazetteer.CellIndex
