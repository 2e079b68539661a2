import Gazetteer.Proofs.CellIndex.Building
import Gazetteer.Proofs.CellIndex.Codec

/-! Lookups against scans. In an index in order a lookup, however it finds where the range starts,
comes to what a scan of all entries comes to; and in an index that was built, to each of the entries
that were inserted once. -/
namespace Gazetteer

section
variable {α : Type}

/-- Where from `lo` to `hi` the front with a property ends: what is in the middle tells in which
half. -/
def seek (p : α → Bool) (as : List α) (lo hi : Nat) : Nat :=
  if lo < hi then
    let middle := (lo + hi) / 2
    if as[middle]?.any p then seek p as (middle + 1) hi else seek p as lo middle
  else lo
termination_by hi - lo

variable {p : α → Bool} {as : List α}

private theorem lt_seek_iff
    (hdown : ∀ i j (hj : j < as.length) (hij : i < j), p as[j] = true → p as[i] = true)
    {lo hi : Nat} (hle : lo ≤ hi) (hbound : hi ≤ as.length)
    (hfront : ∀ i (_ : i < as.length), i < lo → p as[i] = true)
    (hback : ∀ i (_ : i < as.length), hi ≤ i → ¬ p as[i] = true) :
    ∀ i (_ : i < as.length), i < seek p as lo hi ↔ p as[i] = true := by
  induction lo, hi using seek.induct p as with
  | case1 lo hi hlt middle hmiddle ih =>
    rw [seek, if_pos hlt, if_pos hmiddle]
    have hin : middle < as.length := by omega
    rw [List.getElem?_eq_getElem hin, Option.any_some] at hmiddle
    apply ih (by omega) hbound _ hback
    intro i _ hi
    rcases Nat.lt_or_eq_of_le (Nat.le_of_lt_succ hi) with hi | rfl
    · exact hdown i middle hin hi hmiddle
    · exact hmiddle
  | case2 lo hi hlt middle hmiddle ih =>
    rw [seek, if_pos hlt, if_neg hmiddle]
    have hin : middle < as.length := by omega
    rw [List.getElem?_eq_getElem hin, Option.any_some] at hmiddle
    apply ih (by omega) (by omega) hfront
    intro i hin' hi hpi
    rcases Nat.lt_or_eq_of_le hi with hi | rfl
    · exact hmiddle (hdown middle i hin' hi hpi)
    · exact hmiddle hpi
  | case3 lo hi hge =>
    rw [seek, if_neg hge]
    intro i hin
    refine ⟨hfront i hin, fun hpi => ?_⟩
    by_contra hlo
    exact hback i hin (by omega) hpi

private theorem drop_seek {r : α → α → Prop} (h : as.Pairwise r)
    (hp : ∀ a b, r a b → p b = true → p a = true) :
    as.drop (seek p as 0 as.length) = as.dropWhile p := by
  have hdown : ∀ i j (hj : j < as.length) (hij : i < j), p as[j] = true → p as[i] = true :=
    fun i j hj hij => hp _ _ (List.pairwise_iff_getElem.mp h i j (hij.trans hj) hj hij)
  have hseek := lt_seek_iff hdown
    (Nat.zero_le _) (Nat.le_refl _) (fun i _ hi => absurd hi (Nat.not_lt_zero i))
    (fun i hin hi => absurd hin (Nat.not_lt.mpr hi))
  generalize seek p as 0 as.length = n at hseek
  have hfront : ∀ a ∈ as.take n, p a = true := by
    intro a ha
    obtain ⟨i, hi, rfl⟩ := List.mem_iff_getElem.mp ha
    rw [List.length_take] at hi
    rw [List.getElem_take]
    exact (hseek i (by omega)).mp (by omega)
  conv_rhs => rw [← List.take_append_drop n as, List.dropWhile_append_of_pos hfront]
  by_cases hn : n < as.length
  · rw [List.drop_eq_getElem_cons hn, List.dropWhile_cons_of_neg]
    rw [← hseek n hn]
    exact Nat.lt_irrefl n
  · rw [List.drop_eq_nil_of_le (Nat.le_of_not_lt hn)]
    rfl

end

namespace CellIndex

/-- A lookup that seeks the start of the range in each layer. -/
def lookupBySeeking (index : CellIndex) (keys : KeyRange) (scale : Scale) : List FeatureId :=
  (index.layers.takeWhile (·.scale ≤ scale)).flatMap fun l =>
    ((l.entries.drop (seek (·.key.toNat < keys.lo) l.entries 0 l.entries.length)).takeWhile
      (·.key.toNat < keys.hi)).map (·.feature)

/-- In an index in order, seeking finds where the keys of a range start. -/
theorem lookupBySeeking_eq {index : CellIndex} (h : index.Arranged) (keys : KeyRange)
    (scale : Scale) : index.lookupBySeeking keys scale = index.lookup keys scale := by
  unfold lookupBySeeking lookup
  refine List.flatMap_congr fun l hl => ?_
  have hl := (List.takeWhile_sublist (fun l : Layer => decide (l.scale ≤ scale))).mem hl
  rw [drop_seek (h.entries l hl) (key_lt_of_not_lt keys.lo)]

/-- The entries are in the order of their scales, then of their keys and features. -/
theorem pairwise_contents {index : CellIndex} (h : index.Arranged) :
    index.contents.Pairwise fun a b => a.1 < b.1 ∨ a.1 = b.1 ∧ ¬ b.2 < a.2 := by
  refine List.pairwise_flatMap.mpr ⟨fun l hl => ?_, ?_⟩
  · rw [List.pairwise_map]
    exact (h.entries l hl).imp fun hab => .inr ⟨rfl, hab⟩
  · refine (List.pairwise_map.mp h.layers).imp fun {l m} hlm a ha b hb => ?_
    obtain ⟨_, _, rfl⟩ := List.mem_map.mp ha
    obtain ⟨_, _, rfl⟩ := List.mem_map.mp hb
    exact .inl hlm

private theorem exists_visited (es : List (UInt64 × Scale × FeatureId)) (keys : KeyRange)
    (scale : Scale) :
    ∃ visited : List (UInt64 × Scale × FeatureId), visited.Nodup ∧
      (∀ e, e ∈ visited ↔ e ∈ es ∧ e.2.1 ≤ scale ∧ e.1.toNat ∈ keys) ∧
      (ofEntries es).lookup keys scale = visited.map (·.2.2) := by
  refine ⟨((ofEntries es).contents.map insertion).filter fun e => e.2.1 ≤ scale ∧ e.1.toNat ∈ keys,
    (nodup_insertions es).filter _, fun e => ?_, ?_⟩
  · rw [List.mem_filter, mem_insertions, decide_eq_true_eq]
  · rw [lookup_eq_filter (ordered_ofEntries es).arranged, List.filter_map, List.map_map]
    rfl

/-- A lookup in an index that was read comes to exactly the entries of the scale and coarser ones
with keys in the range, each as often as it is stored, in the order of scales, keys and features,
also where it seeks the start of the range and where the range is the wrong way round. An index that
was built depends on the set of inserted entries alone, be its layers sorted at once or at the end;
it has as many entries as this set, and a lookup comes to each of them that qualifies once. -/
theorem lookup_eq_scan :
    (∀ bytes (index : CellIndex), decode bytes = .ok index → ∀ keys scale,
      index.lookup keys scale =
          (index.contents.filter fun e => e.1 ≤ scale ∧ e.2.key.toNat ∈ keys).map (·.2.feature) ∧
        index.lookupBySeeking keys scale = index.lookup keys scale ∧
        index.contents.Pairwise fun a b => a.1 < b.1 ∨ a.1 = b.1 ∧
          (a.2.key < b.2.key ∨ a.2.key = b.2.key ∧ a.2.feature ≤ b.2.feature)) ∧
      ∀ es : List (UInt64 × Scale × FeatureId),
        (∀ es', (∀ e, e ∈ es ↔ e ∈ es') → ofEntries es = ofEntries es') ∧
          ofGathered (gather es) = ofEntries es ∧
          (ofEntries es).size = es.toFinset.card ∧
          ∀ keys scale, ∃ visited : List (UInt64 × Scale × FeatureId), visited.Nodup ∧
            (∀ e, e ∈ visited ↔ e ∈ es ∧ e.2.1 ≤ scale ∧ e.1.toNat ∈ keys) ∧
            (ofEntries es).lookup keys scale = visited.map (·.2.2) := by
  refine ⟨fun bytes index hread keys scale => ?_, fun es => ?_⟩
  · have harranged := (arranged_of_validate (validate_of_decode hread).1).2
    refine ⟨lookup_eq_filter harranged keys scale, lookupBySeeking_eq harranged keys scale, ?_⟩
    refine (pairwise_contents harranged).imp fun {a b} hab => hab.imp_right fun h => ⟨h.1, ?_⟩
    have hnot : ¬ (b.2.key < a.2.key ∨ b.2.key = a.2.key ∧ b.2.feature < a.2.feature) := h.2
    simp only [UInt64.lt_iff_toNat_lt, ← UInt64.toNat_inj, UInt32.lt_iff_toNat_lt,
      UInt32.le_iff_toNat_le] at hnot ⊢
    omega
  · exact ⟨fun es' => ofEntries_congr, ofGathered_gather es, size_ofEntries es, exists_visited es⟩

/-- A stored index with an entry twice, and a range that ends where it starts. -/
theorem lookup_inns :
    let index : CellIndex :=
      ⟨[⟨0, [⟨10, 0⟩, ⟨10, 0⟩, ⟨20, 1⟩]⟩, ⟨3, [⟨10, 2⟩, ⟨18446744073709551615, 3⟩]⟩]⟩
    decode index.encode = .ok index ∧ index.lookup ⟨10, 20⟩ 2 = [0, 0] ∧
      index.lookupBySeeking ⟨10, 18446744073709551615⟩ 3 = [0, 0, 1, 2] ∧
      index.lookup ⟨20, 20⟩ 3 = [] ∧
      (ofEntries [(15, 3, 2), (10, 0, 0), (10, 0, 0)]).size = 2 := by
  intro index
  have hread : decode index.encode = .ok index := by decide +kernel
  obtain ⟨hread_all, hbuilt⟩ := lookup_eq_scan
  have hall := hread_all index.encode index hread
  refine ⟨hread, (hall _ _).1.trans (by decide +kernel), ?_, (hall _ _).1.trans (by decide +kernel),
    (hbuilt _).2.2.1.trans (by decide +kernel)⟩
  exact (hall _ _).2.1.trans ((hall _ _).1.trans (by decide +kernel))

end CellIndex
end Gazetteer
