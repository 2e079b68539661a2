import Gazetteer.MessagePack.Reader
import Mathlib.Algebra.Group.Nat.Defs
import Mathlib.Data.List.Forall2

/-! Reading what was written. Every form that is written is read as one value wherever it stands,
and what follows it is left. -/
namespace Gazetteer.MessagePack

-- Powers of natural numbers are those of core.
attribute [local instance (high)] instPowNat

/-- The bytes are the value, whose arrays and maps nest `depth` deep. -/
def Writes (bs : Bytes) (depth : Nat) (v : Value) : Prop :=
  ∀ d rest, depth ≤ d → readWithin d (bs ++ rest) = some (v, rest)

theorem Writes.mono {bs : Bytes} {depth depth' : Nat} {v : Value} (h : Writes bs depth v)
    (hle : depth ≤ depth') : Writes bs depth' v :=
  fun d rest hd => h d rest (Nat.le_trans hle hd)

/-- A written value is read as this value, whatever follows it. -/
theorem read?_of_writes {bs : Bytes} {depth : Nat} {v : Value} (h : Writes bs depth v)
    (hdepth : depth ≤ nestingLimit) (rest : Bytes) : read? (bs ++ rest) = some v := by
  rw [read?, h _ rest hdepth]
  rfl

private theorem length_bigEndian (count n : Nat) : (bigEndian count n).length = count := by
  induction count with
  | zero => rfl
  | succ count ih => rw [bigEndian, List.length_cons, ih]

private theorem foldl_bigEndian (count n done : Nat) :
    (bigEndian count n).foldl (fun n b => 256 * n + b.toNat) done =
      done * 256 ^ count + n % 256 ^ count := by
  induction count generalizing done with
  | zero => simp [bigEndian, Nat.mod_one]
  | succ count ih =>
    have hbyte : (UInt8.ofNat (n / 256 ^ count)).toNat = n / 256 ^ count % 256 := UInt8.toNat_ofNat'
    rw [bigEndian, List.foldl_cons, ih, hbyte, Nat.mod_pow_succ, Nat.add_mul, Nat.pow_succ,
      Nat.mul_comm 256 done, Nat.mul_assoc, Nat.mul_comm 256, Nat.mul_comm (n / 256 ^ count % 256)]
    omega

/-- A number comes back from its bytes. -/
theorem number_bigEndian {count n : Nat} (h : n < 256 ^ count) : number (bigEndian count n) = n := by
  rw [number, foldl_bigEndian, Nat.zero_mul, Nat.zero_add, Nat.mod_eq_of_lt h]

private theorem take?_append (bs rest : Bytes) :
    take? bs.length (bs ++ rest) = some (bs, rest) := by
  simp [take?]

private theorem number?_bigEndian {count n : Nat} (h : n < 256 ^ count) (rest : Bytes) :
    number? count (bigEndian count n ++ rest) = some (n, rest) := by
  have htake := take?_append (bigEndian count n) rest
  rw [length_bigEndian] at htake
  rw [number?, htake]
  simp only [Option.map_some, number_bigEndian h]

private theorem opening?_header (make : Nat → Bytes → Option (Opening × Bytes)) {base short : Nat}
    {markers : List (UInt8 × Nat)}
    (hshort : ∀ n < short, ∀ bs, opening? (UInt8.ofNat (base + n) :: bs) = make n bs)
    (hmarkers : ∀ m ∈ markers, ∀ bs, opening? (m.1 :: bs) =
      (number? m.2 bs).bind fun p => make p.1 p.2)
    {n : Nat} (hn : ∃ m ∈ markers, n < 256 ^ m.2) (rest : Bytes) :
    opening? (header base short markers n ++ rest) = make n rest := by
  -- The length is within the marker, or follows it.
  unfold header
  split
  · next hlt => exact hshort n hlt rest
  · split
    · next marker count hfind =>
      have hpred := List.find?_some hfind
      have hlt : n < 256 ^ count := of_decide_eq_true hpred
      have hopen := hmarkers _ (List.mem_of_find?_eq_some hfind) (bigEndian count n ++ rest)
      rw [number?_bigEndian hlt] at hopen
      exact hopen
    · next hfind =>
      obtain ⟨m, hmem, hlt⟩ := hn
      exact absurd (decide_eq_true hlt) (List.find?_eq_none.mp hfind m hmem)

private theorem toNat_marker {base n : Nat} (h : base + n < 256) :
    (UInt8.ofNat (base + n)).toNat = base + n := by
  rw [UInt8.toNat_ofNat']
  exact Nat.mod_eq_of_lt h

private theorem opening?_ofNat {n : Nat} (h : n < 2 ^ 64) (rest : Bytes) :
    opening? (ofNat n ++ rest) = some (.whole (.unsigned n), rest) := by
  have hmarker (count : Nat) (bs : Bytes) : fixed? count (fun b => .unsigned (number b)) bs =
      (number? count bs).bind fun p => some (.whole (.unsigned p.1), p.2) := by
    unfold fixed? number?
    cases take? count bs <;> rfl
  refine opening?_header (fun n rest => some (.whole (.unsigned n), rest)) (fun n hn bs => ?_) ?_
    ⟨(0xcf, 8), by decide, h⟩ rest
  · have hbyte : (UInt8.ofNat (0 + n)).toNat = n := by
      rw [toNat_marker (by omega), Nat.zero_add]
    simp only [opening?, hbyte, if_pos hn]
  · simp only [List.forall_mem_cons]
    exact ⟨hmarker 1, hmarker 2, hmarker 4, hmarker 8, nofun⟩

private theorem opening?_ofString {s : String} (h : s.toUTF8.data.toList.length < 2 ^ 32)
    (rest : Bytes) :
    opening? (ofString s ++ rest) = some (.whole (.text s.toUTF8.data.toList), rest) := by
  have hmarker (count : Nat) (bs : Bytes) : sized? count 0 .text bs =
      (number? count bs).bind fun p => fixed? p.1 .text p.2 := by
    unfold sized? fixed?
    cases number? count bs with
    | none => rfl
    | some p =>
      change (take? (p.1 + 0) p.2).bind _ = (take? p.1 p.2).map _
      cases take? p.1 p.2 <;> rfl
  unfold ofString
  rw [List.append_assoc]
  refine (opening?_header (fun n rest => fixed? n .text rest) (fun n hn bs => ?_) ?_
    ⟨(0xdb, 4), by decide, h⟩ _).trans ?_
  · simp only [opening?, toNat_marker (show 0xa0 + n < 256 by omega)]
    rw [if_neg (by omega), if_neg (by omega), if_neg (by omega), if_pos (by omega),
      Nat.add_sub_cancel_left]
  · simp only [List.forall_mem_cons]
    exact ⟨hmarker 1, hmarker 2, hmarker 4, nofun⟩
  · rw [fixed?, take?_append]
    rfl

private theorem opening?_ofReal (x : Binary64) (rest : Bytes) :
    opening? (ofReal x ++ rest) = some (.whole (.double x), rest) := by
  have hlt : x.bits.toNat < 256 ^ 8 := x.bits.toNat_lt
  have htake := take?_append (bigEndian 8 x.bits.toNat) rest
  rw [length_bigEndian] at htake
  have hmarker (bs : Bytes) : opening? (0xcb :: bs) =
      fixed? 8 (fun b => .double ⟨UInt64.ofNat (number b)⟩) bs := rfl
  refine (hmarker (bigEndian 8 x.bits.toNat ++ rest)).trans ?_
  rw [fixed?, htake]
  simp only [Option.map_some, number_bigEndian hlt, UInt64.ofNat_toNat]

private theorem opening?_ofItems {items : List Bytes} (h : items.length < 2 ^ 32) (rest : Bytes) :
    opening? (ofItems items ++ rest) = some (.array items.length, items.flatten ++ rest) := by
  have hmarker (count : Nat) (bs : Bytes) :
      (number? count bs).map (fun p => (Opening.array p.1, p.2)) =
        (number? count bs).bind fun p => some (.array p.1, p.2) := by
    cases number? count bs <;> rfl
  unfold ofItems
  rw [List.append_assoc]
  refine opening?_header (fun n rest => some (.array n, rest)) (fun n hn bs => ?_) ?_
    ⟨(0xdd, 4), by decide, h⟩ _
  · simp only [opening?, toNat_marker (show 0x90 + n < 256 by omega)]
    rw [if_neg (by omega), if_neg (by omega), if_pos (by omega), Nat.add_sub_cancel_left]
  · simp only [List.forall_mem_cons]
    exact ⟨hmarker 2, hmarker 4, nofun⟩

private theorem opening?_ofEntries {entries : List (Bytes × Bytes)} (h : entries.length < 2 ^ 32)
    (rest : Bytes) :
    opening? (ofEntries entries ++ rest) =
      some (.map entries.length, (entries.flatMap fun e => e.1 ++ e.2) ++ rest) := by
  have hmarker (count : Nat) (bs : Bytes) :
      (number? count bs).map (fun p => (Opening.map p.1, p.2)) =
        (number? count bs).bind fun p => some (.map p.1, p.2) := by
    cases number? count bs <;> rfl
  unfold ofEntries
  rw [List.append_assoc]
  refine opening?_header (fun n rest => some (.map n, rest)) (fun n hn bs => ?_) ?_
    ⟨(0xdf, 4), by decide, h⟩ _
  · simp only [opening?, toNat_marker (show 0x80 + n < 256 by omega)]
    rw [if_neg (by omega), if_pos (by omega), Nat.add_sub_cancel_left]
  · simp only [List.forall_mem_cons]
    exact ⟨hmarker 2, hmarker 4, nofun⟩

private theorem writes_of_opening {bs : Bytes} {v : Value}
    (h : ∀ rest, opening? (bs ++ rest) = some (.whole v, rest)) : Writes bs 0 v := by
  intro d rest _
  cases d with
  | zero => rw [readWithin, h]
  | succ d => rw [readWithin, h]

theorem writes_ofNat {n : Nat} (h : n < 2 ^ 64) : Writes (ofNat n) 0 (.unsigned n) :=
  writes_of_opening (opening?_ofNat h)

theorem writes_ofString {s : String} (h : s.toUTF8.data.toList.length < 2 ^ 32) :
    Writes (ofString s) 0 (.text s.toUTF8.data.toList) :=
  writes_of_opening (opening?_ofString h)

theorem writes_ofReal (x : Binary64) : Writes (ofReal x) 0 (.double x) :=
  writes_of_opening (opening?_ofReal x)

private theorem readMany_flatten {α : Type} {read : Bytes → Option (α × Bytes)} {items : List Bytes}
    {as : List α}
    (h : List.Forall₂ (fun bs a => ∀ rest, read (bs ++ rest) = some (a, rest)) items as)
    (done : List α) (rest : Bytes) :
    readMany read done items.length (items.flatten ++ rest) = some (done.reverse ++ as, rest) := by
  induction h generalizing done with
  | nil => simp [readMany]
  | @cons bs a items as hread _ ih =>
    rw [List.length_cons, readMany, List.flatten_cons, List.append_assoc, hread]
    simp only [ih, List.reverse_cons, List.append_assoc, List.singleton_append]

/-- Items written one after another, behind their number, are an array. -/
theorem writes_ofItems {items : List Bytes} {vs : List Value} {depth : Nat}
    (hlength : items.length < 2 ^ 32) (h : List.Forall₂ (fun bs v => Writes bs depth v) items vs) :
    Writes (ofItems items) (depth + 1) (.array vs) := by
  intro d rest hd
  obtain ⟨d, rfl⟩ : ∃ k, d = k + 1 := ⟨d - 1, by omega⟩
  have hitems := h.imp fun bs v hv rest => hv d rest (by omega)
  rw [readWithin, opening?_ofItems hlength]
  simp only [readMany_flatten hitems, List.reverse_nil, List.nil_append, Option.map_some]

theorem writes_ofEntries {entries : List (Bytes × Bytes)} {vs : List (Value × Value)} {depth : Nat}
    (hlength : entries.length < 2 ^ 32)
    (h : List.Forall₂ (fun e v => Writes e.1 depth v.1 ∧ Writes e.2 depth v.2) entries vs) :
    Writes (ofEntries entries) (depth + 1) (.map vs) := by
  intro d rest hd
  obtain ⟨d, rfl⟩ : ∃ k, d = k + 1 := ⟨d - 1, by omega⟩
  have hentries : List.Forall₂
      (fun bs v => ∀ rest, readPair (readWithin d) (bs ++ rest) = some (v, rest))
      (entries.map fun e => e.1 ++ e.2) vs := by
    rw [List.forall₂_map_left_iff]
    apply h.imp
    intro e v hv rest
    rw [readPair, List.append_assoc, hv.1 d _ (by omega)]
    simp [hv.2 d _ (by omega)]
  have hmany := readMany_flatten hentries [] rest
  rw [List.length_map, ← List.flatMap_def] at hmany
  rw [readWithin, opening?_ofEntries hlength]
  simp only [hmany, List.reverse_nil, List.nil_append, Option.map_some]

end Gazetteer.MessagePack
