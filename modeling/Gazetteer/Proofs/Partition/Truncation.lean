import Gazetteer.Proofs.CellIndex.Codec
import Gazetteer.Proofs.MessagePack.Prefixes
import Gazetteer.Proofs.Partition.Codec
import Gazetteer.Proofs.Trie.Codec

/-! Stored data that was cut off. Each stored form is one written value, so no beginning of it is
read but the whole. -/
namespace Gazetteer

open MessagePack

/-- No proper beginning of a stored trie can be read. -/
theorem Trie.decode_cut {t : Trie} (h : t.Writable) {b : Bytes} (hb : b <+: t.encode)
    (hne : b ≠ t.encode) : Trie.decode b = .error .unreadable := by
  rw [Trie.decode, read?_cut_of_shows (Trie.shows h) (by decide) hb hne]
  rfl

/-- No proper beginning of stored layers can be read. -/
theorem CellIndex.decode_cut {index : CellIndex} (hlength : index.layers.length < 2 ^ 32)
    (h : index.Storable) {b : Bytes} (hb : b <+: index.encode) (hne : b ≠ index.encode) :
    CellIndex.decode b = .error .unreadable := by
  rw [CellIndex.decode, read?_cut_of_shows (CellIndex.shows hlength h) (by decide) hb hne]
  rfl

/-- No proper beginning of a stored partition can be read. -/
theorem Partition.decode_cut {p : Partition} (h : p.Storable) {b : Bytes} (hb : b <+: p.encode)
    (hne : b ≠ p.encode) : Partition.decode b = .error .unreadable := by
  rw [Partition.decode, read?_cut_of_shows (Partition.shows h) (by decide) hb hne]
  rfl

/-- Of the stored form of a graph, of layers or of a partition only the whole can be read: a
beginning of it is unreadable wherever it was cut off. It need be no trie, no index in order and no
partition of the current format, but its lists and texts have to be such as the format can tell the
lengths of. -/
theorem decode_truncated :
    (∀ t : Trie, t.Writable →
      (∀ b, b <+: t.encode → b ≠ t.encode → Trie.decode b = .error .unreadable) ∧
        Trie.decode t.encode = t.validate.mapError .faulty) ∧
    (∀ index : CellIndex, index.layers.length < 2 ^ 32 → index.Storable →
      (∀ b, b <+: index.encode → b ≠ index.encode → CellIndex.decode b = .error .unreadable) ∧
        CellIndex.decode index.encode = index.validate.mapError .faulty) ∧
    ∀ p : Partition, p.Storable →
      (∀ b, b <+: p.encode → b ≠ p.encode → Partition.decode b = .error .unreadable) ∧
        (p.Ordered → Partition.decode p.encode =
          if p.header.formatVersion = Header.currentFormat then .ok p
          else .error (.unsupportedFormat p.header.formatVersion)) := by
  refine ⟨fun t h => ?_, fun index hlength h => ?_, fun p h => ?_⟩
  · exact ⟨fun b => Trie.decode_cut h, Trie.decode_of_writable h⟩
  · exact ⟨fun b => CellIndex.decode_cut hlength h, CellIndex.decode_of_storable hlength h⟩
  · refine ⟨fun b => Partition.decode_cut h, fun hordered => ?_⟩
    have hread := Partition.decode_append hordered h []
    rwa [List.append_nil] at hread

/-- A graph that is no trie, cut off within a label; layers out of order, cut off after the entries
of the first of them; and a partition of a later format without its last byte. -/
theorem decode_truncated_bar :
    let t : Trie := ⟨[(9, 7)], #[⟨[('ж', 0)], [70000, 5]⟩]⟩
    let index : CellIndex := ⟨[⟨3, [⟨7, 1⟩, ⟨7, 0⟩]⟩, ⟨1, []⟩]⟩
    let p : Partition :=
      ⟨"Bar", ⟨2, 7, ⟨⟨.nan, 2⟩, ⟨.infinity, -1⟩⟩, ⟨9, 0⟩⟩, [("", []), ("idx", [0, 255])]⟩
    Trie.decode (t.encode.take 29) = .error .unreadable ∧
      Trie.decode t.encode = .error (.faulty (.rootOutOfRange 7 1)) ∧
      CellIndex.decode (index.encode.take 33) = .error .unreadable ∧
      CellIndex.decode index.encode = .error (.faulty .layersOutOfOrder) ∧
      Partition.decode (p.encode.take 139) = .error .unreadable ∧
      Partition.decode p.encode = .error (.unsupportedFormat 2) := by
  intro t index p
  obtain ⟨htries, hindexes, hpartitions⟩ := decode_truncated
  have hnode : (⟨[('ж', 0)], [70000, 5]⟩ : Trie.Node).Writable :=
    ⟨by decide, by decide, by decide⟩
  have ht : t.Writable := ⟨by decide, by decide, by decide, List.forall_mem_singleton.mpr hnode⟩
  have hlength : index.layers.length < 2 ^ 32 := by decide
  have hindex : index.Storable := by
    unfold CellIndex.Storable
    decide
  have hordered : p.Ordered := by
    unfold Partition.Ordered
    decide +kernel
  have hp : p.Storable := by decide +kernel
  obtain ⟨htrie, htrie'⟩ := htries t ht
  obtain ⟨hlayers, hlayers'⟩ := hindexes index hlength hindex
  obtain ⟨hpartition, hpartition'⟩ := hpartitions p hp
  exact ⟨htrie _ (List.take_prefix 29 _) (by decide +kernel), htrie',
    hlayers _ (List.take_prefix 33 _) (by decide +kernel), hlayers',
    hpartition _ (List.take_prefix 139 _) (by decide +kernel), hpartition' hordered⟩

end Gazetteer
