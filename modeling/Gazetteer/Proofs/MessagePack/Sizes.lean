import Gazetteer.Proofs.MessagePack.Views

/-! What reading can yield. A header tells lengths of 32 bits at most, so each text and each list in
a value that was read is shorter than `2 ^ 32`, and so is what is seen in them. -/
namespace Gazetteer.MessagePack

-- Powers of natural numbers are those of core.
attribute [local instance (high)] instPowNat

namespace Value

def length : Value → Nat
  | text bytes | binary bytes => bytes.length
  | array items => items.length
  | map entries => entries.length
  | _ => 0

def parts : Value → List Value
  | array items => items
  | map entries => entries.flatMap fun e => [e.1, e.2]
  | _ => []

/-- The lengths in a value, at any depth, are such as a header can tell. -/
inductive Sized : Value → Prop
  | intro {v : Value} (hlength : v.length < 2 ^ 32) (hparts : ∀ w ∈ v.parts, w.Sized) : Sized v

theorem Sized.length_lt {v : Value} (h : v.Sized) : v.length < 2 ^ 32 := by
  obtain ⟨hlength, _⟩ := h
  exact hlength

theorem Sized.of_mem_entries {entries : List (Value × Value)} {e : Value × Value}
    (h : (map entries).Sized) (he : e ∈ entries) : e.1.Sized ∧ e.2.Sized := by
  obtain ⟨_, hparts⟩ := h
  exact ⟨hparts e.1 (List.mem_flatMap.mpr ⟨e, he, .head _⟩),
    hparts e.2 (List.mem_flatMap.mpr ⟨e, he, .tail _ (.head _)⟩)⟩

private theorem Sized.of_mem_parts {v w : Value} (h : v.Sized) (hw : w ∈ v.parts) : w.Sized := by
  obtain ⟨_, hparts⟩ := h
  exact hparts w hw

def IsLeaf (v : Value) : Prop := v.length < 2 ^ 32 ∧ v.parts = []

private theorem IsLeaf.sized {v : Value} (h : v.IsLeaf) : v.Sized := ⟨h.1, by simp [h.2]⟩

end Value

/-- The openings of the format. A marker says all, or it is followed by a payload of fixed length,
by the length of a payload and the payload, or by the number of parts. -/
private inductive Opens (bs : Bytes) : Option (Opening × Bytes) → Prop
  | unused : Opens bs none
  | whole {v : Value} (hv : v.IsLeaf) : Opens bs (some (.whole v, bs))
  | fixed {count : Nat} {make : Bytes → Value}
    (hmake : ∀ payload, payload.length = count → (make payload).IsLeaf) :
    Opens bs (fixed? count make bs)
  | sized {count extra : Nat} {make : Bytes → Value}
    (hmake : ∀ payload, payload.length < 256 ^ count + extra → (make payload).IsLeaf) :
    Opens bs (sized? count extra make bs)
  | array {count : Nat} (hcount : count < 2 ^ 32) : Opens bs (some (.array count, bs))
  | map {count : Nat} (hcount : count < 2 ^ 32) : Opens bs (some (.map count, bs))
  | arrayAfter {count : Nat} (hcount : 256 ^ count ≤ 2 ^ 32) :
    Opens bs ((number? count bs).map fun p => (.array p.1, p.2))
  | mapAfter {count : Nat} (hcount : 256 ^ count ≤ 2 ^ 32) :
    Opens bs ((number? count bs).map fun p => (.map p.1, p.2))

private theorem isLeaf_of_length_zero {v : Value} (hlength : v.length = 0) (hparts : v.parts = []) :
    v.IsLeaf := ⟨by rw [hlength]; decide, hparts⟩

private theorem opens_opening? (marker : UInt8) (bs : Bytes) :
    Opens bs (opening? (marker :: bs)) := by
  have hmarker := marker.toNat_lt
  unfold opening?
  dsimp only
  split_ifs
  · exact .whole (isLeaf_of_length_zero rfl rfl)
  · exact .map (by omega)
  · exact .array (by omega)
  · refine .fixed fun payload hlength => ⟨?_, rfl⟩
    change payload.length < _
    omega
  · exact .whole (isLeaf_of_length_zero rfl rfl)
  · -- Each of the other markers has a form of its own.
    split
    all_goals first
      | exact .whole (isLeaf_of_length_zero rfl rfl)
      | exact .fixed fun _ _ => isLeaf_of_length_zero rfl rfl
      | exact .sized fun _ _ => isLeaf_of_length_zero rfl rfl
      | exact .sized fun _ hlength => ⟨Nat.lt_of_lt_of_le hlength (by decide), rfl⟩
      | exact .arrayAfter (by decide)
      | exact .mapAfter (by decide)
      | exact .unused

private theorem length_of_take? {count : Nat} {bs head rest : Bytes}
    (h : take? count bs = some (head, rest)) : head.length = count := by
  unfold take? at h
  dsimp only at h
  split at h
  · next hlength =>
    cases h
    exact hlength
  · cases h

private theorem number_lt (bs : Bytes) : number bs < 256 ^ bs.length := by
  have hfold (done : Nat) : bs.foldl (fun n b => 256 * n + b.toNat) done <
      (done + 1) * 256 ^ bs.length := by
    induction bs generalizing done with
    | nil => simp
    | cons b bs ih =>
      have hb := b.toNat_lt
      calc bs.foldl (fun n b => 256 * n + b.toNat) (256 * done + b.toNat)
          < (256 * done + b.toNat + 1) * 256 ^ bs.length := ih _
        _ ≤ (done + 1) * 256 * 256 ^ bs.length := Nat.mul_le_mul_right _ (by omega)
        _ = (done + 1) * 256 ^ (bs.length + 1) := by rw [Nat.pow_succ', Nat.mul_assoc]
  exact Nat.lt_of_lt_of_eq (hfold 0) (Nat.one_mul _)

private theorem lt_of_number? {count n : Nat} {bs rest : Bytes}
    (h : number? count bs = some (n, rest)) : n < 256 ^ count := by
  obtain ⟨⟨head, rest'⟩, htake, heq⟩ := Option.map_eq_some_iff.mp h
  cases heq
  exact length_of_take? htake ▸ number_lt head

private def Opening.Sized : Opening → Prop
  | .whole v => v.Sized
  | .array count | .map count => count < 2 ^ 32

private theorem Opens.sized_of_eq {bs rest : Bytes} {r : Option (Opening × Bytes)} (h : Opens bs r)
    {o : Opening} (hr : r = some (o, rest)) : o.Sized := by
  cases h with
  | unused => cases hr
  | whole hv =>
    cases hr
    exact hv.sized
  | fixed hmake =>
    obtain ⟨⟨payload, _⟩, htake, heq⟩ := Option.map_eq_some_iff.mp hr
    cases heq
    exact (hmake payload (length_of_take? htake)).sized
  | sized hmake =>
    obtain ⟨⟨length, _⟩, hnumber, hr⟩ := Option.bind_eq_some_iff.mp hr
    obtain ⟨⟨payload, _⟩, htake, heq⟩ := Option.bind_eq_some_iff.mp hr
    cases heq
    have hlt := lt_of_number? hnumber
    exact (hmake payload (by rw [length_of_take? htake]; omega)).sized
  | array hcount =>
    cases hr
    exact hcount
  | map hcount =>
    cases hr
    exact hcount
  | arrayAfter hcount =>
    obtain ⟨⟨n, _⟩, hnumber, heq⟩ := Option.map_eq_some_iff.mp hr
    cases heq
    exact Nat.lt_of_lt_of_le (lt_of_number? hnumber) hcount
  | mapAfter hcount =>
    obtain ⟨⟨n, _⟩, hnumber, heq⟩ := Option.map_eq_some_iff.mp hr
    cases heq
    exact Nat.lt_of_lt_of_le (lt_of_number? hnumber) hcount

private theorem sized_of_opening? {bs rest : Bytes} {o : Opening}
    (h : opening? bs = some (o, rest)) : o.Sized := by
  cases bs with
  | nil => cases h
  | cons marker bs => exact (opens_opening? marker bs).sized_of_eq h

private theorem readMany_spec {α : Type} {read : Bytes → Option (α × Bytes)} {P : α → Prop}
    (hread : ∀ bs a rest, read bs = some (a, rest) → P a) {count : Nat} {bs rest : Bytes}
    {done as : List α} (hdone : ∀ a ∈ done, P a) (h : readMany read done count bs = some (as, rest)) :
    as.length = done.length + count ∧ ∀ a ∈ as, P a := by
  induction count generalizing done bs with
  | zero =>
    cases h
    exact ⟨List.length_reverse, fun a ha => hdone a (List.mem_reverse.mp ha)⟩
  | succ count ih =>
    rw [readMany] at h
    split at h
    · cases h
    · next a rest' ha =>
      obtain ⟨hlength, has⟩ := ih (List.forall_mem_cons.mpr ⟨hread _ _ _ ha, hdone⟩) h
      refine ⟨?_, has⟩
      rw [hlength, List.length_cons]
      omega

private theorem readPair_spec {α : Type} {read : Bytes → Option (α × Bytes)} {P : α → Prop}
    (hread : ∀ bs a rest, read bs = some (a, rest) → P a) {bs rest : Bytes} {p : α × α}
    (h : readPair read bs = some (p, rest)) : P p.1 ∧ P p.2 := by
  obtain ⟨⟨a, rest'⟩, ha, h⟩ := Option.bind_eq_some_iff.mp h
  obtain ⟨⟨b, rest''⟩, hb, h⟩ := Option.bind_eq_some_iff.mp h
  cases h
  exact ⟨hread _ _ _ ha, hread _ _ _ hb⟩

private theorem sized_of_readWithin {depth : Nat} {bs rest : Bytes} {v : Value}
    (h : readWithin depth bs = some (v, rest)) : v.Sized := by
  induction depth generalizing bs rest v with
  | zero =>
    rw [readWithin] at h
    split at h
    · next hopen =>
      cases h
      exact sized_of_opening? hopen
    · cases h
  | succ depth ih =>
    have hread : ∀ bs v rest, readWithin depth bs = some (v, rest) → v.Sized := fun _ _ _ => ih
    rw [readWithin] at h
    split at h
    · cases h
    · next hopen =>
      cases h
      exact sized_of_opening? hopen
    · next count rest' hopen =>
      have hcount : count < 2 ^ 32 := sized_of_opening? hopen
      obtain ⟨⟨vs, _⟩, hmany, heq⟩ := Option.map_eq_some_iff.mp h
      cases heq
      obtain ⟨hlength, hsized⟩ := readMany_spec hread (List.forall_mem_nil _) hmany
      exact ⟨by rwa [Value.length, hlength, List.length_nil, Nat.zero_add], hsized⟩
    · next count rest' hopen =>
      have hcount : count < 2 ^ 32 := sized_of_opening? hopen
      obtain ⟨⟨es, _⟩, hmany, heq⟩ := Option.map_eq_some_iff.mp h
      cases heq
      obtain ⟨hlength, hsized⟩ := readMany_spec (P := fun e => e.1.Sized ∧ e.2.Sized)
        (fun _ _ _ => readPair_spec hread) (List.forall_mem_nil _) hmany
      refine ⟨by rwa [Value.length, hlength, List.length_nil, Nat.zero_add], ?_⟩
      intro w hw
      obtain ⟨e, he, hw⟩ := List.mem_flatMap.mp hw
      obtain ⟨hkey, hvalue⟩ := hsized e he
      rcases List.mem_pair.mp hw with rfl | rfl
      · exact hkey
      · exact hvalue

variable {α β : Type}

/-- `a` is seen in a value such as can be read. -/
def Seen (view : Value → Option α) (a : α) : Prop := ∃ v : Value, v.Sized ∧ view v = some a

/-- What can be read is of a size that the format can tell. -/
theorem seen_of_read? {view : Value → Option α} {bs : Bytes} {a : α}
    (h : read? bs >>= view = some a) : Seen view a := by
  obtain ⟨v, hread, hview⟩ := Option.bind_eq_some_iff.mp h
  obtain ⟨⟨_, rest⟩, hwithin, rfl⟩ := Option.map_eq_some_iff.mp hread
  exact ⟨_, sized_of_readWithin hwithin, hview⟩

theorem exists_of_mem_mapM {f : α → Option β} {as : List α} {bs : List β}
    (h : as.mapM f = some bs) {b : β} (hb : b ∈ bs) : ∃ a ∈ as, f a = some b := by
  have hforall := mapM_eq_some_iff.mp h
  clear h
  induction hforall with
  | nil => cases hb
  | @cons a _ as _ ha _ ih =>
    rcases List.mem_cons.mp hb with rfl | hb
    · exact ⟨a, .head _, ha⟩
    · obtain ⟨a', ha', hab⟩ := ih hb
      exact ⟨a', .tail _ ha', hab⟩

namespace Value.Sized

variable {v : Value} (hv : v.Sized)
include hv

private theorem of_items? {vs : List Value} (h : v.items? = some vs) :
    vs.length < 2 ^ 32 ∧ ∀ w ∈ vs, w.Sized := by
  have hlength := hv.length_lt
  unfold items? at h
  split at h
  · cases h
    exact ⟨hlength, fun w hw => hv.of_mem_parts hw⟩
  · cases h
    refine ⟨by rwa [List.length_map], ?_⟩
    intro w hw
    obtain ⟨b, _, rfl⟩ := List.mem_map.mp hw
    exact (isLeaf_of_length_zero rfl rfl).sized
  · cases h

/-- The fields of a record are among its parts. -/
theorem of_fields? {names : List String} {vs : List Value} (h : v.fields? names = some vs) :
    ∀ w ∈ vs, w.Sized := by
  unfold fields? at h
  split at h
  · split at h
    · cases h
      exact fun w hw => hv.of_mem_parts hw
    · cases h
  · next entries =>
    obtain ⟨placed, hplaced, h⟩ := Option.bind_eq_some_iff.mp h
    intro w hw
    obtain ⟨i, _, hone⟩ := exists_of_mem_mapM h hw
    split at hone
    · next j w' hfilter =>
      cases hone
      have hmem := List.mem_of_mem_filter (hfilter ▸ List.mem_singleton_self (j, w))
      obtain ⟨e, he, heq⟩ := exists_of_mem_mapM hplaced hmem
      obtain ⟨_, _, heq⟩ := Option.map_eq_some_iff.mp heq
      cases heq
      exact (hv.of_mem_entries he).2
    · cases hone
  · cases h

end Value.Sized

/-- Lists that can be read have lengths of 32 bits, and elements that can be read. -/
theorem Seen.list {view : Value → Option α} {as : List α} (h : Seen (Value.list? view) as) :
    as.length < 2 ^ 32 ∧ ∀ a ∈ as, Seen view a := by
  obtain ⟨v, hv, hview⟩ := h
  obtain ⟨vs, hvs, hmap⟩ := Option.bind_eq_some_iff.mp hview
  obtain ⟨hlength, hsized⟩ := hv.of_items? hvs
  refine ⟨(mapM_eq_some_iff.mp hmap).length_eq ▸ hlength, ?_⟩
  intro a ha
  obtain ⟨w, hw, hwa⟩ := exists_of_mem_mapM hmap ha
  exact ⟨w, hsized w hw, hwa⟩

theorem Seen.string {s : String} (h : Seen Value.string? s) : s.utf8ByteSize < 2 ^ 32 := by
  obtain ⟨v, hv, hview⟩ := h
  have hlength := hv.length_lt
  have hutf8 {utf8 : Bytes} (hs : String.fromUTF8? ⟨utf8.toArray⟩ = some s) :
      s.toUTF8.data.toList = utf8 := by
    unfold String.fromUTF8? at hs
    split at hs
    · cases hs
      rfl
    · cases hs
  change s.toUTF8.data.toList.length < 2 ^ 32
  unfold Value.string? at hview
  split at hview
  · rwa [hutf8 hview]
  · rwa [hutf8 hview]
  · cases hview

end Gazetteer.MessagePack
