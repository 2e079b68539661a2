import Gazetteer.MessagePack.View
import Gazetteer.Proofs.MessagePack.Reading
import Mathlib.Data.List.Nodup

/-! What is seen in bytes that were written: each way of looking at a value sees in it what was
written for it. -/
namespace Gazetteer.MessagePack

-- Powers of natural numbers are those of core.
attribute [local instance (high)] instPowNat

variable {α β : Type}

/-- The bytes are a value in which `a` is seen. -/
def Shows (view : Value → Option α) (bs : Bytes) (depth : Nat) (a : α) : Prop :=
  ∃ v, Writes bs depth v ∧ view v = some a

theorem Shows.mono {view : Value → Option α} {bs : Bytes} {depth depth' : Nat} {a : α}
    (h : Shows view bs depth a) (hle : depth ≤ depth') : Shows view bs depth' a := by
  obtain ⟨v, hv, hview⟩ := h
  exact ⟨v, hv.mono hle, hview⟩

theorem read?_append_of_shows {view : Value → Option α} {bs : Bytes} {depth : Nat} {a : α}
    (h : Shows view bs depth a) (hdepth : depth ≤ nestingLimit) (rest : Bytes) :
    read? (bs ++ rest) >>= view = some a := by
  obtain ⟨v, hv, hview⟩ := h
  rw [read?_of_writes hv hdepth rest]
  exact hview

/-- What was written is read as what was meant. -/
theorem read?_of_shows {view : Value → Option α} {bs : Bytes} {depth : Nat} {a : α}
    (h : Shows view bs depth a) (hdepth : depth ≤ nestingLimit) : read? bs >>= view = some a := by
  have hread := read?_append_of_shows h hdepth []
  rwa [List.append_nil] at hread

theorem shows_below {n bound : Nat} (h : n < bound) (hbound : bound ≤ 2 ^ 64) :
    Shows (Value.below? bound) (ofNat n) 0 n :=
  ⟨_, writes_ofNat (Nat.lt_of_lt_of_le h hbound), if_pos h⟩

theorem shows_uint8 (x : UInt8) : Shows Value.uint8? (ofNat x.toNat) 0 x := by
  obtain ⟨v, hv, hview⟩ := shows_below x.toNat_lt_size (by decide)
  exact ⟨v, hv, by rw [Value.uint8?, hview, Option.map_some, UInt8.ofNat_toNat]⟩

theorem shows_uint32 (x : UInt32) : Shows Value.uint32? (ofNat x.toNat) 0 x := by
  obtain ⟨v, hv, hview⟩ := shows_below x.toNat_lt_size (by decide)
  exact ⟨v, hv, by rw [Value.uint32?, hview, Option.map_some, UInt32.ofNat_toNat]⟩

theorem shows_uint64 (x : UInt64) : Shows Value.uint64? (ofNat x.toNat) 0 x := by
  obtain ⟨v, hv, hview⟩ := shows_below x.toNat_lt_size (by decide)
  exact ⟨v, hv, by rw [Value.uint64?, hview, Option.map_some, UInt64.ofNat_toNat]⟩

theorem fromUTF8?_toUTF8 (s : String) :
    String.fromUTF8? ⟨s.toUTF8.data.toList.toArray⟩ = some s := dif_pos s.isValidUTF8

private theorem eq_of_toUTF8 {s t : String} (h : s.toUTF8.data.toList = t.toUTF8.data.toList) :
    s = t := by
  have hs := fromUTF8?_toUTF8 s
  rw [h, fromUTF8?_toUTF8] at hs
  exact (Option.some.inj hs).symm

theorem shows_char (c : Char) : Shows Value.char? (ofString c.toString) 0 c := by
  have hsize : c.toString.toUTF8.data.toList.length < 2 ^ 32 := by
    have hle := c.utf8Size_le_four
    have hsize : c.toString.toUTF8.size = c.utf8Size := String.utf8ByteSize_singleton
    change c.toString.toUTF8.size < 2 ^ 32
    omega
  refine ⟨_, writes_ofString hsize, ?_⟩
  rw [Value.char?, fromUTF8?_toUTF8]
  simp

theorem mapM_eq_some_iff {f : α → Option β} {as : List α} {bs : List β} :
    as.mapM f = some bs ↔ List.Forall₂ (fun a b => f a = some b) as bs := by
  induction as generalizing bs with
  | nil => simp [eq_comm]
  | cons a as ih => 
    rw [List.mapM_cons, List.forall₂_cons_left_iff]
    simp [Option.bind_eq_some_iff, ih, @eq_comm _ _ bs]

theorem exists_forall₂ {γ : Type} {R : γ → β → Prop} {cs : List γ} (h : ∀ c ∈ cs, ∃ b, R c b) :
    ∃ bs, List.Forall₂ R cs bs := by
  induction cs with
  | nil => exact ⟨[], .nil⟩
  | cons c cs ih =>
    obtain ⟨⟨b, hb⟩, hcs⟩ := List.forall_mem_cons.mp h
    obtain ⟨bs, hbs⟩ := ih hcs
    exact ⟨b :: bs, .cons hb hbs⟩

theorem shows_items {γ : Type} {view : Value → Option α} {write : γ → Bytes} {see : γ → α}
    {cs : List γ} {depth : Nat} (hlength : cs.length < 2 ^ 32)
    (h : ∀ c ∈ cs, Shows view (write c) depth (see c)) :
    Shows (Value.list? view) (ofItems (cs.map write)) (depth + 1) (cs.map see) := by
  obtain ⟨vs, hvs⟩ := exists_forall₂ h
  have hwrites : List.Forall₂ (fun bs v => Writes bs depth v) (cs.map write) vs :=
    List.forall₂_map_left_iff.mpr (hvs.imp fun _ _ => And.left)
  have hviews : List.Forall₂ (fun v a => view v = some a) vs (cs.map see) :=
    List.forall₂_map_right_iff.mpr (hvs.imp fun _ _ => And.right).flip
  refine ⟨.array vs, writes_ofItems (by rwa [List.length_map]) hwrites, ?_⟩
  exact mapM_eq_some_iff.mpr hviews

/-- A list is seen in its items, if the format can tell how many they are. -/
theorem shows_list {view : Value → Option α} {write : α → Bytes} {as : List α} {depth : Nat}
    (hlength : as.length < 2 ^ 32) (h : ∀ a ∈ as, Shows view (write a) depth a) :
    Shows (Value.list? view) (ofItems (as.map write)) (depth + 1) as := by
  have hid : ∀ a ∈ as, Shows view (write a) depth (id a) := h
  have hitems := shows_items hlength hid
  rwa [List.map_id] at hitems

theorem shows_string {s : String} (h : s.utf8ByteSize < 2 ^ 32) :
    Shows Value.string? (ofString s) 0 s := ⟨_, writes_ofString h, fromUTF8?_toUTF8 s⟩

/-- Every bit of a number is stored, those of not-a-number included. -/
theorem shows_real (x : Binary64) : Shows Value.real? (ofReal x) 0 x := ⟨_, writes_ofReal x, rfl⟩

theorem shows_bytes {bytes : Bytes} (h : bytes.length < 2 ^ 32) :
    Shows (Value.list? Value.uint8?) (ofBytes bytes) 1 bytes :=
  shows_list h fun b _ => shows_uint8 b

theorem shows_pair {first : Value → Option α} {second : Value → Option β} {bs bs' : Bytes} {a : α}
    {b : β} {depth : Nat} (ha : Shows first bs depth a) (hb : Shows second bs' depth b) :
    Shows (Value.pair? first second) (ofItems [bs, bs']) (depth + 1) (a, b) := by
  obtain ⟨v, hv, hfirst⟩ := ha
  obtain ⟨w, hw, hsecond⟩ := hb
  have hlength : [bs, bs'].length < 2 ^ 32 := Nat.lt_of_le_of_lt (Nat.le_refl 2) (by decide)
  refine ⟨.array [v, w], writes_ofItems hlength (.cons hv (.cons hw .nil)), ?_⟩
  simp [Value.pair?, Value.items?, hfirst, hsecond]

private def entriesOf (names : List String) (vs : List Value) : List (Value × Value) :=
  List.zipWith (fun name v => (.text name.toUTF8.data.toList, v)) names vs

private theorem filter_zipIdx (vs : List α) (k i : Nat) (h : i < vs.length) :
    (vs.zipIdx k).filter (fun p => p.2 = k + i) = [(vs[i], k + i)] := by
  induction vs generalizing k i with
  | nil => exact absurd h (Nat.not_lt_zero i)
  | cons v vs ih =>
    rw [List.zipIdx_cons]
    cases i with
    | zero =>
      rw [List.filter_cons_of_pos (by simp), List.filter_eq_nil_iff.mpr]
      · rfl
      · intro p hp
        have := List.le_snd_of_mem_zipIdx hp
        simp
        omega
    | succ i =>
      rw [List.filter_cons_of_neg (by simp)]
      have htail := ih (k + 1) i (Nat.lt_of_succ_lt_succ h)
      rwa [show k + 1 + i = k + (i + 1) by omega] at htail

private theorem fields?_entriesOf {names : List String} {vs : List Value} (hnames : names.Nodup)
    (hlength : names.length = vs.length) :
    (Value.map (entriesOf names vs)).fields? names = some vs := by
  have hplaced : (entriesOf names vs).mapM (fun e => (Value.fieldIndex? names e.1).map (·, e.2)) =
      some (vs.zipIdx.map fun p => (p.2, p.1)) := by
    apply mapM_eq_some_iff.mpr
    refine List.forall₂_iff_get.mpr ⟨by simp [entriesOf, hlength], ?_⟩
    intro i hi _
    have hi' : i < names.length := by simp [entriesOf] at hi; omega
    have hindex :
        names.findIdx (fun name => name.toUTF8.data.toList = names[i].toUTF8.data.toList) = i := by
      refine (List.findIdx_eq hi').mpr ⟨decide_eq_true rfl, ?_⟩
      intro j hj
      apply decide_eq_false
      intro h
      have := (List.Nodup.getElem_inj_iff hnames).mp (eq_of_toUTF8 h)
      omega
    simp only [List.get_eq_getElem, entriesOf, List.getElem_zipWith, Value.fieldIndex?, hindex,
      Option.map_some, List.getElem_map, List.getElem_zipIdx, Nat.zero_add]
  simp only [Value.fields?, hplaced]
  apply mapM_eq_some_iff.mpr
  refine List.forall₂_iff_get.mpr ⟨by simp [hlength], ?_⟩
  intro i hi hi'
  have hfilter := filter_zipIdx vs 0 i hi'
  simp only [Nat.zero_add] at hfilter
  simp only [List.get_eq_getElem, List.getElem_range, List.filter_map, Function.comp_def, hfilter,
    List.map_cons, List.map_nil]

/-- Names that the fields of a record can have: no two are equal, and they can be written. -/
def FieldNames (names : List String) : Prop :=
  names.Nodup ∧ names.length < 2 ^ 32 ∧ ∀ name ∈ names, name.toUTF8.data.toList.length < 2 ^ 32

instance (names : List String) : Decidable (FieldNames names) :=
  inferInstanceAs (Decidable (_ ∧ _ ∧ _))

/-- A record is seen as its fields, in the order of their names. -/
theorem shows_fields {names : List String} {parts : List Bytes} {vs : List Value} {depth : Nat}
    (hnames : FieldNames names) (hlength : names.length = parts.length)
    (h : List.Forall₂ (fun bs v => Writes bs depth v) parts vs) :
    Shows (Value.fields? names) (ofFields (names.zip parts)) (depth + 1) vs := by
  obtain ⟨hnodup, hcount, hshort⟩ := hnames
  have hentries : List.Forall₂ (fun e v => Writes e.1 depth v.1 ∧ Writes e.2 depth v.2)
      ((names.zip parts).map fun f => (ofString f.1, f.2)) (entriesOf names vs) := by
    clear hnodup hcount
    induction h generalizing names with
    | nil => cases names <;> simp [entriesOf]
    | cons hv _ ih =>
      cases names with
      | nil => cases hlength
      | cons name names =>
        obtain ⟨hname, hshort⟩ := List.forall_mem_cons.mp hshort
        exact .cons ⟨(writes_ofString hname).mono (Nat.zero_le _), hv⟩
          (ih (Nat.succ.inj hlength) hshort)
  refine ⟨.map (entriesOf names vs), writes_ofEntries ?_ hentries,
    fields?_entriesOf hnodup (hlength.trans h.length_eq)⟩
  rw [List.length_map, List.length_zip]
  omega

end Gazetteer.MessagePack
