import Gazetteer.Proofs.CellIndex.Codec
import Gazetteer.Proofs.Trie.Codec
import Gazetteer.Proofs.Trie.Insertion

/-! The two indexes of a partition in their sections: what is built or was read before is read as it
was written. -/
namespace Gazetteer

/-- Indexes come back from their stored form. Those that insertions build are valid, and they come
back exactly if the format can tell their lengths, for which it has 32 bits: the number of nodes, of
features at each node, and of entries in each layer. Those that were read come back, whatever form
they had. -/
theorem decode_encode_indexes :
    (∀ es, let t := Trie.ofEntries es
      t.validate = .ok t ∧ (Trie.decode t.encode = .ok t ↔ t.Storable)) ∧
    (∀ bytes t, Trie.decode bytes = .ok t → Trie.decode t.encode = .ok t) ∧
    (∀ es, let index := CellIndex.ofEntries es
      index.validate = .ok index ∧ (CellIndex.decode index.encode = .ok index ↔ index.Storable)) ∧
    ∀ bytes index, CellIndex.decode bytes = .ok index →
      CellIndex.decode index.encode = .ok index := by
  refine ⟨?_, ?_, ?_, ?_⟩
  · intro es t
    have hforest : t.Forest := Trie.forest_ofEntries es
    exact ⟨Trie.validate_of_forest hforest, Trie.decode_encode_iff.trans (and_iff_right hforest)⟩
  · exact fun bytes t ht => Trie.decode_encode_iff.mpr (Trie.forest_of_decode ht)
  · intro es index
    have hvalid := CellIndex.validate_of_ordered (CellIndex.ordered_ofEntries es)
    exact ⟨hvalid, CellIndex.decode_encode_iff.trans (and_iff_right hvalid)⟩
  · exact fun bytes index hindex =>
      CellIndex.decode_encode_iff.mpr (CellIndex.validate_of_decode hindex)

/-- Indexes that were built, and indexes with values and entries out of order and there twice,
stored as arrays in place of maps. -/
theorem decode_encode_bar :
    let t := Trie.ofEntries [(.en, "bar", 3), (.ru, "bar", 0), (.en, "ba", 3), (.en, "bar", 1)]
    let index := CellIndex.ofEntries [(700, 3, 1), (20, 0, 0), (20, 0, 0)]
    let t' : Trie := ⟨[(1, 0)], #[⟨[], [5, 5, 2]⟩]⟩
    let index' : CellIndex := ⟨[⟨3, [⟨7, 1⟩, ⟨7, 1⟩]⟩]⟩
    Trie.decode t.encode = .ok t ∧ CellIndex.decode index.encode = .ok index ∧
      Trie.decode [0x92, 0x91, 0x92, 1, 0, 0x91, 0x92, 0x90, 0x93, 5, 5, 2] = .ok t' ∧
      Trie.decode t'.encode = .ok t' ∧
      CellIndex.decode [0x91, 0x91, 0x92, 3, 0x92, 0x92, 7, 1, 0x92, 7, 1] = .ok index' ∧
      CellIndex.decode index'.encode = .ok index' := by
  intro t index t' index'
  obtain ⟨htries, htries', hindexes, hindexes'⟩ := decode_encode_indexes
  have ht : t.Storable := ⟨by decide +kernel, by decide +kernel⟩
  have hindex : index.Storable := by
    unfold CellIndex.Storable
    decide +kernel
  have hread : Trie.decode [0x92, 0x91, 0x92, 1, 0, 0x91, 0x92, 0x90, 0x93, 5, 5, 2] = .ok t' := by
    decide +kernel
  have hread' : CellIndex.decode [0x91, 0x91, 0x92, 3, 0x92, 0x92, 7, 1, 0x92, 7, 1] = .ok index' := by
    decide +kernel
  exact ⟨(htries _).2.mpr ht, (hindexes _).2.mpr hindex, hread, htries' _ _ hread, hread',
    hindexes' _ _ hread'⟩

end Gazetteer
