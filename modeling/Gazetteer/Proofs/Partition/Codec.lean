import Gazetteer.Partition.Format
import Gazetteer.Proofs.Ascending
import Gazetteer.Proofs.MessagePack.Sizes
import Mathlib.Data.String.Basic

/-! The stored form of partitions and features: what is written for them is read as they were, as
long as the format can tell its lengths. -/
namespace Gazetteer

open MessagePack

private theorem Point.shows (p : Point Binary64) : Shows Point.ofValue? p.encode 1 p := by
  obtain ⟨x, hx, hx'⟩ := shows_real p.x
  obtain ⟨y, hy, hy'⟩ := shows_real p.y
  obtain ⟨v, hv, hfields⟩ := shows_fields (by decide : FieldNames ["x", "y"]) rfl
    (.cons hx (.cons hy .nil))
  refine ⟨v, hv, ?_⟩
  simp [Point.ofValue?, hfields, hx', hy']

private theorem Rect.shows (r : Rect Binary64) : Shows Rect.ofValue? r.encode 2 r := by
  obtain ⟨lo, hlo, hlo'⟩ := r.lo.shows
  obtain ⟨hi, hhi, hhi'⟩ := r.hi.shows
  obtain ⟨v, hv, hfields⟩ := shows_fields (by decide : FieldNames ["min", "max"]) rfl
    (.cons hlo (.cons hhi .nil))
  refine ⟨v, hv, ?_⟩
  simp [Rect.ofValue?, hfields, hlo', hhi']

private theorem Header.shows (h : Header) : Shows Header.ofValue? h.encode 3 h := by
  obtain ⟨format, hformat, hformat'⟩ := (shows_uint32 h.formatVersion).mono (Nat.zero_le 2)
  obtain ⟨version, hversion, hversion'⟩ := (shows_uint64 h.version).mono (Nat.zero_le 2)
  obtain ⟨bounds, hbounds, hbounds'⟩ := h.bounds.shows
  obtain ⟨scales, hscales, hscales'⟩ :=
    (shows_pair (shows_uint8 h.scales.coarsest) (shows_uint8 h.scales.finest)).mono (Nat.le_succ 1)
  obtain ⟨v, hv, hfields⟩ := shows_fields
    (by decide : FieldNames ["format_version", "version", "bounds", "scale_range"]) rfl
    (.cons hformat (.cons hversion (.cons hbounds (.cons hscales .nil))))
  refine ⟨v, hv, ?_⟩
  simp [Header.ofValue?, hfields, hformat', hversion', hbounds', hscales']

/-- The lists and texts of the feature are such as the format can tell the lengths of. -/
structure Feature.Storable (f : Feature) : Prop where
  names : f.names.length < 2 ^ 32
  texts : ∀ n ∈ f.names, n.text.utf8ByteSize < 2 ^ 32

private theorem Feature.shows {f : Feature} (h : f.Storable) :
    Shows Feature.ofValue? f.encode 3 f := by
  have hname : ∀ n ∈ f.names, Shows (Value.pair? Value.uint8? Value.string?)
      (ofItems [ofNat n.language.toNat, ofString n.text]) 1 (n.language, n.text) :=
    fun n hn => shows_pair (shows_uint8 n.language) (shows_string (h.texts n hn))
  obtain ⟨point, hpoint, hpoint'⟩ := f.point.shows.mono (Nat.le_succ 1)
  obtain ⟨names, hnames, hnames'⟩ := shows_items h.names hname
  obtain ⟨scale, hscale, hscale'⟩ := (shows_uint8 f.minScale).mono (Nat.zero_le 2)
  obtain ⟨v, hv, hfields⟩ := shows_fields (by decide : FieldNames ["point", "names", "min_scale"]) rfl
    (.cons hpoint (.cons hnames (.cons hscale .nil)))
  refine ⟨v, hv, ?_⟩
  simp [Feature.ofValue?, hfields, hpoint', hnames', hscale', Function.comp_def]

/-- Features come back from their section, in their order. -/
theorem Feature.read_encodeAll {fs : List Feature} (hcount : fs.length < 2 ^ 32)
    (h : ∀ f ∈ fs, f.Storable) :
    read? (Feature.encodeAll fs) >>= Value.list? Feature.ofValue? = some fs :=
  read?_of_shows (shows_list hcount fun f hf => Feature.shows (h f hf)) (by decide)

namespace Partition

/-- The sections are in the order of their tags, of which no two are equal. -/
def Ordered (p : Partition) : Prop := (p.sections.map (·.1)).Pairwise (· < ·)

/-- Sections stay in order when one is set. -/
theorem Ordered.setSection {p : Partition} (h : p.Ordered) (tag : String) (bytes : Bytes) :
    (p.setSection tag bytes).Ordered := Ascending.pairwise_insertPair h

/-- And when one is removed. -/
theorem Ordered.removeSection {p : Partition} (h : p.Ordered) (tag : String) :
    (p.removeSection tag).Ordered := h.sublist (List.filter_sublist.map _)

/-- The lists and texts of the partition are such as the format can tell the lengths of. -/
structure Storable (p : Partition) : Prop where
  name : p.name.utf8ByteSize < 2 ^ 32
  count : p.sections.length < 2 ^ 32
  tags : ∀ s ∈ p.sections, s.1.utf8ByteSize < 2 ^ 32
  sections : ∀ s ∈ p.sections, s.2.length < 2 ^ 32

instance (p : Partition) : Decidable p.Storable :=
  decidable_of_iff
    (p.name.utf8ByteSize < 2 ^ 32 ∧ p.sections.length < 2 ^ 32 ∧
      ∀ s ∈ p.sections, s.1.utf8ByteSize < 2 ^ 32 ∧ s.2.length < 2 ^ 32)
    ⟨fun ⟨name, count, h⟩ => ⟨name, count, fun s hs => (h s hs).1, fun s hs => (h s hs).2⟩,
      fun h => ⟨h.name, h.count, fun s hs => ⟨h.tags s hs, h.sections s hs⟩⟩⟩

private theorem shows_sections {p : Partition} (h : p.Storable) :
    Shows sectionsOfValue? (ofEntries (p.sections.map fun s => (ofString s.1, ofBytes s.2))) 2
      (p.sections.foldl (fun done s => Ascending.insertPair s.1 s.2 done) []) := by
  have hsection : ∀ s ∈ p.sections, ∃ v : Value × Value,
      (Writes (ofString s.1) 1 v.1 ∧ Writes (ofBytes s.2) 1 v.2) ∧
        v.1.string? = some s.1 ∧ v.2.list? Value.uint8? = some s.2 := by
    intro s hs
    obtain ⟨tag, htag, htag'⟩ := (shows_string (h.tags s hs)).mono (Nat.zero_le 1)
    obtain ⟨bytes, hbytes, hbytes'⟩ := shows_bytes (h.sections s hs)
    exact ⟨(tag, bytes), ⟨htag, hbytes⟩, htag', hbytes'⟩
  obtain ⟨vs, hvs⟩ := exists_forall₂ hsection
  refine ⟨.map vs, writes_ofEntries (by rw [List.length_map]; exact h.count) ?_, ?_⟩
  · exact List.forall₂_map_left_iff.mpr (hvs.imp fun _ _ => And.left)
  · have hviews : vs.mapM (fun e => do some (← e.1.string?, ← e.2.list? Value.uint8?)) =
        some p.sections := by
      refine mapM_eq_some_iff.mpr (hvs.imp fun s v hv => ?_).flip
      simp [flip, hv.2.1, hv.2.2]
    simp only [sectionsOfValue?, hviews]
    rfl

/-- A partition is seen in its stored form, with its sections set one after another. -/
theorem shows {p : Partition} (h : p.Storable) :
    Shows ofValue? p.encode 4
      { p with sections := p.sections.foldl (fun done s => Ascending.insertPair s.1 s.2 done) [] } := by
  obtain ⟨name, hname, hname'⟩ := (shows_string h.name).mono (Nat.zero_le 3)
  obtain ⟨header, hheader, hheader'⟩ := p.header.shows
  obtain ⟨sections, hsections, hsections'⟩ := (shows_sections h).mono (Nat.le_succ 2)
  obtain ⟨v, hv, hfields⟩ := shows_fields (by decide : FieldNames ["name", "header", "sections"]) rfl
    (.cons hname (.cons hheader (.cons hsections .nil)))
  refine ⟨v, hv, ?_⟩
  simp [ofValue?, hfields, hname', hheader', hsections']

private theorem Ordered.shows {p : Partition} (hordered : p.Ordered) (h : p.Storable) :
    Shows ofValue? p.encode 4 p := by
  have hset : p.sections.foldl (fun done s => Ascending.insertPair s.1 s.2 done) [] =
      [] ++ p.sections := Ascending.foldl_insertPair hordered
  have hshows := Partition.shows h
  rwa [hset] at hshows

private theorem foldl_sections {P : String × Bytes → Prop} {ss done : List (String × Bytes)}
    (hss : ∀ s ∈ ss, P s) (hordered : (done.map (·.1)).Pairwise (· < ·)) (hdone : ∀ s ∈ done, P s) :
    let set := ss.foldl (fun done s => Ascending.insertPair s.1 s.2 done) done
    (set.map (·.1)).Pairwise (· < ·) ∧ set.length ≤ done.length + ss.length ∧ ∀ s ∈ set, P s := by
  induction ss generalizing done with
  | nil => exact ⟨hordered, Nat.le_refl _, hdone⟩
  | cons s ss ih =>
    obtain ⟨hs, hss⟩ := List.forall_mem_cons.mp hss
    obtain ⟨hordered', hlength, hall⟩ := ih hss (Ascending.pairwise_insertPair hordered)
      (Ascending.forall_insertPair hs hdone)
    refine ⟨hordered', Nat.le_trans hlength ?_, hall⟩
    have := Ascending.length_insertPair_le s.1 s.2 done
    rw [List.length_cons]
    omega

private theorem sections_of_seen {ss : List (String × Bytes)} (h : Seen sectionsOfValue? ss) :
    (ss.map (·.1)).Pairwise (· < ·) ∧ ss.length < 2 ^ 32 ∧
      ∀ s ∈ ss, s.1.utf8ByteSize < 2 ^ 32 ∧ s.2.length < 2 ^ 32 := by
  obtain ⟨v, hv, hview⟩ := h
  unfold sectionsOfValue? at hview
  split at hview
  · next entries =>
    obtain ⟨set, hset, heq⟩ := Option.bind_eq_some_iff.mp hview
    cases heq
    have hshort : ∀ s ∈ set, s.1.utf8ByteSize < 2 ^ 32 ∧ s.2.length < 2 ^ 32 := by
      intro s hs
      obtain ⟨e, he, hview⟩ := exists_of_mem_mapM hset hs
      obtain ⟨tag, htag, hview⟩ := Option.bind_eq_some_iff.mp hview
      obtain ⟨bytes, hbytes, hview⟩ := Option.bind_eq_some_iff.mp hview
      cases hview
      obtain ⟨hkey, hvalue⟩ := hv.of_mem_entries he
      exact ⟨Seen.string ⟨e.1, hkey, htag⟩, (Seen.list ⟨e.2, hvalue, hbytes⟩).1⟩
    obtain ⟨hordered, hlength, hall⟩ := foldl_sections hshort .nil (List.forall_mem_nil _)
    refine ⟨hordered, Nat.lt_of_le_of_lt hlength ?_, hall⟩
    rw [List.length_nil, Nat.zero_add, ← (mapM_eq_some_iff.mp hset).length_eq]
    exact hv.length_lt
  · cases hview

private theorem storable_of_seen {p : Partition} (h : Seen ofValue? p) :
    p.Ordered ∧ p.Storable := by
  obtain ⟨v, hv, hview⟩ := h
  unfold ofValue? at hview
  split at hview
  · next name header sections hfields =>
    have hsized := hv.of_fields? hfields
    obtain ⟨text, htext, hview⟩ := Option.bind_eq_some_iff.mp hview
    obtain ⟨_, -, hview⟩ := Option.bind_eq_some_iff.mp hview
    obtain ⟨ss, hss, hview⟩ := Option.bind_eq_some_iff.mp hview
    cases hview
    have hname := Seen.string ⟨name, hsized name (.head _), htext⟩
    obtain ⟨hordered, hcount, hshort⟩ :=
      sections_of_seen ⟨sections, hsized sections (.tail _ (.tail _ (.head _))), hss⟩
    exact ⟨hordered, hname, hcount, fun s hs => (hshort s hs).1, fun s hs => (hshort s hs).2⟩
  · cases hview

/-- Only partitions of the current format are read, with sections in order and lists and texts as
long as can be stored. -/
theorem storable_of_decode {bytes : Bytes} {p : Partition} (h : decode bytes = .ok p) :
    p.header.formatVersion = Header.currentFormat ∧ p.Ordered ∧ p.Storable := by
  unfold decode at h
  split at h
  · cases h
  · next hread =>
    split at h
    · next hformat =>
      cases h
      exact ⟨hformat, storable_of_seen (seen_of_read? hread)⟩
    · cases h

/-- A stored partition is read whatever follows it, if it is of the current format. -/
theorem decode_append {p : Partition} (hordered : p.Ordered) (h : p.Storable) (rest : Bytes) :
    decode (p.encode ++ rest) =
      if p.header.formatVersion = Header.currentFormat then .ok p
      else .error (.unsupportedFormat p.header.formatVersion) := by
  simp only [decode, read?_append_of_shows (hordered.shows h) (by decide) rest]

/-- A partition of the current format comes back from its stored form, bounds bit for bit, whatever
follows it, and one of another format is refused for this format. So what was read from some bytes
comes back from the form that it is stored in. -/
theorem decode_encode_partition :
    (∀ p : Partition, p.Ordered → p.Storable → ∀ rest,
      decode (p.encode ++ rest) =
        if p.header.formatVersion = Header.currentFormat then .ok p
        else .error (.unsupportedFormat p.header.formatVersion)) ∧
    ∀ bytes p, decode bytes = .ok p → decode p.encode = .ok p := by
  refine ⟨fun p => decode_append, ?_⟩
  intro bytes p h
  obtain ⟨hformat, hordered, hstorable⟩ := storable_of_decode h
  have hread := decode_append hordered hstorable []
  rwa [List.append_nil, if_pos hformat] at hread

/-- A partition with its bounds the wrong way round and partly not numbers, before other bytes; the
same of a later format; and one that was stored as arrays, with a tag there twice. -/
theorem decode_encode_zurich :
    let header (format : UInt32) : Header :=
      ⟨format, 0xffffffffffffffff, ⟨⟨.nan, 2⟩, ⟨.infinity, -1⟩⟩, ⟨9, 0⟩⟩
    let p (format : UInt32) : Partition := ⟨"Zürich", header format, [("", []), ("idx", [0, 255])]⟩
    let bytes : Bytes := [0x93, 0xa1, 0x61, 0x94, 1, 7, 0x92, 0x92, 0, 1, 0x92, 2, 3, 0x92, 0, 6, 0x82,
      0xa1, 0x78, 0xc4, 1, 5, 0xa1, 0x78, 0x91, 9]
    let q : Partition := ⟨"a", ⟨1, 7, ⟨⟨0, 1⟩, ⟨2, 3⟩⟩, ⟨0, 6⟩⟩, [("x", [9])]⟩
    decode ((p 1).encode ++ [0xc1]) = .ok (p 1) ∧
      decode ((p 2).encode ++ [0xc1]) = .error (.unsupportedFormat 2) ∧
      decode bytes = .ok q ∧ decode q.encode = .ok q := by
  intro header p bytes q
  obtain ⟨hwritten, hread⟩ := decode_encode_partition
  have hordered : ["", "idx"].Pairwise (· < ·) := by decide +kernel
  have hname : "Zürich".utf8ByteSize < 2 ^ 32 := by decide +kernel
  have hcount : [("", ([] : Bytes)), ("idx", [0, 255])].length < 2 ^ 32 := by decide
  have hsections : ∀ s ∈ [("", ([] : Bytes)), ("idx", [0, 255])],
      s.1.utf8ByteSize < 2 ^ 32 ∧ s.2.length < 2 ^ 32 := by decide +kernel
  have hstorable (format : UInt32) : (p format).Storable :=
    ⟨hname, hcount, fun s hs => (hsections s hs).1, fun s hs => (hsections s hs).2⟩
  have hq : decode bytes = .ok q := by decide +kernel
  exact ⟨hwritten (p 1) hordered (hstorable 1) [0xc1],
    hwritten (p 2) hordered (hstorable 2) [0xc1], hq, hread bytes q hq⟩

end Partition
end Gazetteer
