import Gazetteer.CellIndex.Format
import Gazetteer.Proofs.CellIndex.Contents
import Gazetteer.Proofs.Except
import Gazetteer.Proofs.MessagePack.Sizes

/-! The stored form of a place index: what is written for an index in order is read as this index,
as long as the format can tell its lengths, and nothing else is ever read. -/
namespace Gazetteer.CellIndex

open MessagePack

def Within (index : CellIndex) (n : Nat) : Prop := ∀ l ∈ index.layers, l.entries.length ≤ n

theorem within_empty : empty.Within 0 := nofun

/-- One insertion adds one entry to a layer at most. -/
theorem Within.insert {index : CellIndex} {n : Nat} (h : index.Within n) (key : UInt64) (scale : Scale)
    (feature : FeatureId) : (index.insert key scale feature).Within (n + 1) := by
  have hnew : [(⟨key, feature⟩ : Entry)].length ≤ n + 1 := Nat.succ_le_succ (Nat.zero_le n)
  apply forall_insertEntry (P := fun es => es.length ≤ n + 1) hnew
  · intro l hl _
    exact Nat.le_trans (Ascending.length_insert_le ..) (Nat.succ_le_succ (h l hl))
  · intro l hl
    exact Nat.le_succ_of_le (h l hl)

/-- The layers of the index have no more entries than the format can tell. -/
def Storable (index : CellIndex) : Prop := ∀ l ∈ index.layers, l.entries.length < 2 ^ 32

theorem Within.storable {index : CellIndex} {n : Nat} (h : index.Within n) (hn : n < 2 ^ 32) :
    index.Storable := fun l hl => Nat.lt_of_le_of_lt (h l hl) hn

/-- Validation accepts every index that is in order. -/
theorem validate_of_ordered {index : CellIndex} (h : index.Ordered) : index.validate = .ok index := by
  have hlayers : inOrder (fun a b : Layer => decide (a.scale < b.scale)) index.layers = true :=
    (Ascending.inOrder_iff_pairwise _).mpr h.layers
  have hentries :
      index.layers.find? (fun l => !inOrder (fun a b => !decide (b < a)) l.entries) = none := by
    apply List.find?_eq_none.mpr
    intro l hl
    have horder : inOrder (fun a b : Entry => !decide (b < a)) l.entries = true :=
      inOrder_of_pairwise ((h.entries l hl).imp fun hlt => by simpa using Ascending.lt_asymm hlt)
    simp [horder]
  simp [validate, hlayers, hentries]

private theorem shows_layer {l : Layer} (h : l.entries.length < 2 ^ 32) :
    Shows Layer.ofValue? l.encode 3 l := by
  have hentry (e : Entry) : Shows (Value.pair? Value.uint64? Value.uint32?)
      (ofItems [ofNat e.key.toNat, ofNat e.feature.toNat]) 1 (e.key, e.feature) :=
    shows_pair (shows_uint64 e.key) (shows_uint32 e.feature)
  obtain ⟨scale, hscale, hscale'⟩ := (shows_uint8 l.scale).mono (Nat.zero_le 2)
  obtain ⟨entries, hentries, hentries'⟩ := shows_items h fun e _ => hentry e
  obtain ⟨v, hv, hfields⟩ := shows_fields (by decide : FieldNames ["scale", "entries"]) rfl
    (.cons hscale (.cons hentries .nil))
  refine ⟨v, hv, ?_⟩
  simp [Layer.ofValue?, hfields, hscale', hentries', Function.comp_def]

/-- What is validated is left as it is, and it is in order. -/
theorem arranged_of_validate {index index' : CellIndex} (h : index.validate = .ok index') :
    index = index' ∧ index.Arranged := by
  unfold validate at h
  split at h
  · cases h
  · next hlayers =>
    rw [Bool.not_eq_true', Bool.not_eq_false] at hlayers
    split at h
    · cases h
    · next hentries =>
      cases h
      refine ⟨rfl, (Ascending.inOrder_iff_pairwise (fun l : Layer => l.scale)).mp hlayers,
        fun l hl => Ascending.pairwise_of_inOrder ?_⟩
      simpa using List.find?_eq_none.mp hentries l hl

private theorem length_layers_le {index : CellIndex}
    (h : (index.layers.map (·.scale)).Pairwise (· < ·)) : index.layers.length ≤ 256 := by
  have hnodup : (index.layers.map (·.scale.toNat)).Nodup := by
    have hnodup := (Ascending.nodup_of_pairwise h).map (f := UInt8.toNat) fun _ _ => UInt8.toNat_inj.mp
    rwa [List.map_map] at hnodup
  rw [← List.length_map (·.scale.toNat)]
  apply length_le_of_nodup hnodup
  intro n hn
  obtain ⟨l, _, rfl⟩ := List.mem_map.mp hn
  exact l.scale.toNat_lt

/-- Layers are seen in their stored form, be they an index or not. -/
theorem shows {index : CellIndex} (hlength : index.layers.length < 2 ^ 32) (h : index.Storable) :
    Shows ofValue? index.encode 5 index := by
  have hlayer : ∀ l ∈ index.layers, Shows Layer.ofValue? l.encode 3 l := fun l hl =>
    shows_layer (h l hl)
  obtain ⟨layers, hlayers, hlayers'⟩ := shows_list hlength hlayer
  obtain ⟨v, hv, hfields⟩ := shows_fields (by decide : FieldNames ["buckets"]) rfl
    (.cons hlayers .nil)
  refine ⟨v, hv, ?_⟩
  simp [ofValue?, hfields, hlayers']

/-- Stored layers are read and validated, be they an index or not. -/
theorem decode_of_storable {index : CellIndex} (hlength : index.layers.length < 2 ^ 32)
    (h : index.Storable) : decode index.encode = index.validate.mapError .faulty := by
  rw [decode, read?_of_shows (shows hlength h) (by decide)]

/-- What is written for an index in order that can be stored is read as this index. -/
theorem decode_encode {index : CellIndex} (hvalid : index.validate = .ok index)
    (hstorable : index.Storable) : decode index.encode = .ok index := by
  have hlength : index.layers.length < 2 ^ 32 :=
    Nat.lt_of_le_of_lt (length_layers_le (arranged_of_validate hvalid).2.layers) (by decide)
  rw [decode_of_storable hlength hstorable, hvalid]
  rfl

private theorem storable_of_seen {index : CellIndex} (h : Seen ofValue? index) :
    index.Storable := by
  obtain ⟨v, hv, hview⟩ := h
  unfold ofValue? at hview
  split at hview
  · next layers hfields =>
    obtain ⟨ls, hls, rfl⟩ := Option.map_eq_some_iff.mp hview
    have hsized := hv.of_fields? hfields layers (.head _)
    intro l hl
    obtain ⟨w, hw, hview⟩ := (Seen.list ⟨layers, hsized, hls⟩).2 l hl
    unfold Layer.ofValue? at hview
    split at hview
    · next scale entries hfields =>
      obtain ⟨es, hes, hview⟩ := Option.bind_eq_some_iff.mp hview
      obtain ⟨_, -, hview⟩ := Option.bind_eq_some_iff.mp hview
      cases hview
      have hsized := hw.of_fields? hfields entries (.tail _ (.head _))
      rw [List.length_map]
      exact (Seen.list ⟨entries, hsized, hes⟩).1
    · cases hview
  · cases hview

/-- Only indexes that are in order are read, and lists as long as can be stored. -/
theorem validate_of_decode {bytes : Bytes} {index : CellIndex} (h : decode bytes = .ok index) :
    index.validate = .ok index ∧ index.Storable := by
  unfold decode at h
  split at h
  · cases h
  · next hread =>
    have hvalid := eq_ok_of_mapError h
    obtain ⟨rfl, -⟩ := arranged_of_validate hvalid
    exact ⟨hvalid, storable_of_seen (seen_of_read? hread)⟩

/-- Exactly the indexes that are in order and can be stored come back. -/
theorem decode_encode_iff {index : CellIndex} :
    decode index.encode = .ok index ↔ index.validate = .ok index ∧ index.Storable :=
  ⟨validate_of_decode, fun ⟨hvalid, hstorable⟩ => decode_encode hvalid hstorable⟩

end Gazetteer.CellIndex
