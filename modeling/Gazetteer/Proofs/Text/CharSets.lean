import Gazetteer.Text.Case
import Gazetteer.Text.Delimiter

/-! Facts about sets of characters, by the intervals between their boundaries. Membership does not
change within an interval that no boundary falls into, so the tables are compared interval by
interval. -/
namespace Gazetteer.Text
namespace CharSet

/-- Membership of all code points from `first` to `last`, if it is the same. -/
def holdsOn (first last : Nat) (inside : Bool) : List Nat → Option Bool
  | [] => some inside
  | b :: bs =>
    bif b.ble first then holdsOn first last (!inside) bs
    else bif b.ble last then none else some inside

private theorem holdsFrom_of_holdsOn {first last n : Nat} {inside v : Bool} {bs : List Nat}
    (h : holdsOn first last inside bs = some v) (hfirst : first ≤ n) (hlast : n ≤ last) :
    holdsFrom n inside bs = v := by
  induction bs generalizing inside with
  | nil => exact Option.some.inj h
  | cons b bs ih =>
    rw [holdsOn, cond_eq_ite, cond_eq_ite] at h
    rw [holdsFrom]
    split at h
    · next hle =>
      rw [if_neg (by have := Nat.le_of_ble_eq_true hle; omega)]
      exact ih h
    · split at h
      · cases h
      · next hnot =>
        rw [if_pos (by have := mt Nat.ble_eq_true_of_le hnot; omega)]
        exact Option.some.inj h

/-- The intervals that make up a set. -/
def intervals : List Nat → List (Nat × Nat)
  | a :: b :: bs => (a, b - 1) :: intervals bs
  | _ => []

private theorem exists_interval {n : Nat} {bs : List Nat} (heven : bs.length % 2 = 0)
    (h : holdsFrom n false bs = true) : ∃ i ∈ intervals bs, i.1 ≤ n ∧ n ≤ i.2 := by
  induction bs using intervals.induct with
  | case1 a b bs ih =>
    rw [List.length_cons, List.length_cons] at heven
    rw [holdsFrom, holdsFrom] at h
    split at h
    · cases h
    · split at h
      · exact ⟨(a, b - 1), List.mem_cons_self, by omega, by omega⟩
      · obtain ⟨i, hi, hn⟩ := ih (by omega) h
        exact ⟨i, List.mem_cons_of_mem _ hi, hn⟩
  | case2 bs hbs =>
    rcases bs with _ | ⟨a, _ | ⟨b, bs⟩⟩
    · cases h
    · simp at heven
    · exact absurd rfl (hbs a b bs)

private theorem holds_of_intervals {s t : CharSet} {v : Bool} (heven : s.boundaries.length % 2 = 0)
    (h : ∀ i ∈ intervals s.boundaries, holdsOn i.1 i.2 false t.boundaries = some v) {c : Char}
    (hc : s.holds c = true) : t.holds c = v := by
  obtain ⟨i, hi, hfirst, hlast⟩ := exists_interval heven hc
  exact holdsFrom_of_holdsOn (h i hi) hfirst hlast

end CharSet

section
variable {c : Char}

theorem delimiters_of_whiteSpace : whiteSpace.holds c = true → delimiters.holds c = true :=
  CharSet.holds_of_intervals (by decide) (by decide +kernel)

theorem caseIgnorable_of_whiteSpace : whiteSpace.holds c = true → caseIgnorable.holds c = false :=
  CharSet.holds_of_intervals (by decide) (by decide +kernel)

theorem cased_of_whiteSpace : whiteSpace.holds c = true → cased.holds c = false :=
  CharSet.holds_of_intervals (by decide) (by decide +kernel)

end

private theorem caseRuns_shifted : ∀ r ∈ caseRuns,
    0 ≤ r.first + r.shift ∧
    ((r.last + r.shift).toNat < 0xd800 ∨
      0xdfff < (r.first + r.shift).toNat ∧ (r.last + r.shift).toNat < 0x110000) ∧
    ∃ v, CharSet.holdsOn r.first r.last false delimiters.boundaries = some v ∧
      CharSet.holdsOn (r.first + r.shift).toNat (r.last + r.shift).toNat false
        delimiters.boundaries = some v := by
  decide +kernel

private theorem lowerIn_cases (n : Nat) (rs : List CaseRun) :
    lowerIn n rs = n ∨
      ∃ r ∈ rs, r.first ≤ n ∧ n ≤ r.last ∧ (n - r.first) % r.step = 0 ∧
        lowerIn n rs = (n + r.shift).toNat := by
  induction rs with
  | nil => exact .inl rfl
  | cons r rs ih =>
    rw [lowerIn]
    split
    · exact .inl rfl
    · split
      · next hfirst hlast =>
        exact .inr ⟨r, List.mem_cons_self, Nat.le_of_not_lt hfirst, hlast.1, hlast.2, rfl⟩
      · refine ih.imp_right fun ⟨s, hs, h⟩ => ⟨s, List.mem_cons_of_mem _ hs, h⟩

private theorem isValidChar_lowerIn (c : Char) : (lowerIn c.toNat caseRuns).isValidChar := by
  rcases lowerIn_cases c.toNat caseRuns with h | ⟨r, hr, hfirst, hlast, -, h⟩ <;> rw [h]
  · exact c.valid
  · obtain ⟨hlow, hvalid, -⟩ := caseRuns_shifted r hr
    rcases hvalid with hvalid | hvalid
    · exact .inl (by omega)
    · exact .inr ⟨by omega, by omega⟩

private theorem delimiters_lowerIn (c : Char) :
    CharSet.holdsFrom (lowerIn c.toNat caseRuns) false delimiters.boundaries = delimiters.holds c := by
  rcases lowerIn_cases c.toNat caseRuns with h | ⟨r, hr, hfirst, hlast, -, h⟩ <;> rw [h]
  · rfl
  · obtain ⟨hlow, -, v, hcapital, hsmall⟩ := caseRuns_shifted r hr
    rw [CharSet.holdsFrom_of_holdsOn hsmall (by omega) (by omega)]
    exact (CharSet.holdsFrom_of_holdsOn hcapital hfirst hlast).symm

/-- Small forms of delimiters are delimiters, and no others are. -/
theorem delimiters_of_mem_lowerChar {c d : Char} (h : d ∈ lowerChar c) :
    delimiters.holds d = delimiters.holds c := by
  unfold lowerChar at h
  split at h
  · next hc =>
    rw [hc]
    rcases List.mem_cons.mp h with rfl | h
    · decide +kernel
    · rw [List.mem_singleton.mp h]
      decide +kernel
  · rw [List.mem_singleton.mp h, CharSet.holds, Char.ofNat, dif_pos (isValidChar_lowerIn c)]
    exact delimiters_lowerIn c

/-- No code point from `first` to `last`, every `step`th, has another small form: the runs lie apart
from them, or both take every other code point and the runs take those between. -/
def smallOn (first last step : Nat) : List CaseRun → Bool
  | [] => true
  | r :: rs =>
    bif last.blt r.first then true
    else bif r.last.blt first then smallOn first last step rs
    else r.step.beq 2 && (step.beq 2 || first.beq last) && ((first + r.first) % 2).beq 1 &&
      smallOn first last step rs

private theorem lowerIn_of_smallOn {first last step n : Nat} {rs : List CaseRun}
    (h : smallOn first last step rs = true) (hfirst : first ≤ n) (hlast : n ≤ last)
    (hstep : (n - first) % step = 0) : lowerIn n rs = n := by
  induction rs with
  | nil => rfl
  | cons r rs ih =>
    rw [lowerIn]
    split
    · rfl
    · next hreached =>
      simp only [smallOn, cond_eq_ite, Nat.blt_eq] at h
      rw [if_neg (by omega)] at h
      split at h
      · rw [if_neg (by omega), ih h]
      · simp only [Bool.and_eq_true, Bool.or_eq_true, Nat.beq_eq] at h
        obtain ⟨⟨⟨htwo, hdistance⟩, hodd⟩, hrest⟩ := h
        rw [if_neg, ih hrest]
        rintro ⟨-, heven⟩
        rw [htwo] at heven
        rcases hdistance with htwo' | hone
        · rw [htwo'] at hstep
          omega
        · omega

private theorem caseRuns_small : ∀ r ∈ caseRuns,
    smallOn (r.first + r.shift).toNat (r.last + r.shift).toNat r.step caseRuns = true ∧
      ((r.last + r.shift).toNat < 'İ'.toNat ∨ 'İ'.toNat < (r.first + r.shift).toNat) := by
  decide +kernel

private theorem lowerIn_lowerIn (n : Nat) :
    lowerIn (lowerIn n caseRuns) caseRuns = lowerIn n caseRuns := by
  rcases lowerIn_cases n caseRuns with h | ⟨r, hr, hfirst, hlast, hstep, h⟩
  · rw [h, h]
  · obtain ⟨hlow, -⟩ := caseRuns_shifted r hr
    rw [h]
    refine lowerIn_of_smallOn (caseRuns_small r hr).1 (by omega) (by omega) ?_
    rwa [show (n + r.shift).toNat - (r.first + r.shift).toNat = n - r.first by omega]

/-- What comes of a character when it becomes small is small already. -/
theorem lowerChar_of_mem {c d : Char} (h : d ∈ lowerChar c) : lowerChar d = [d] := by
  unfold lowerChar at h
  split at h
  · rcases List.mem_cons.mp h with rfl | h
    · decide +kernel
    · rw [List.mem_singleton.mp h]
      decide +kernel
  · next hc =>
    have hd : d.toNat = lowerIn c.toNat caseRuns := by
      rw [List.mem_singleton.mp h, Char.ofNat, dif_pos (isValidChar_lowerIn c)]
      rfl
    have hne : d ≠ 'İ' := by
      rintro rfl
      rcases lowerIn_cases c.toNat caseRuns with hsame | ⟨r, hr, hfirst, hlast, -, hrun⟩
      · exact hc (Char.toNat_inj.mp (hd.trans hsame).symm)
      · obtain ⟨hlow, -⟩ := caseRuns_shifted r hr
        have := (caseRuns_small r hr).2
        omega
    rw [lowerChar, if_neg hne, hd, lowerIn_lowerIn, ← hd, Char.ofNat_toNat]

theorem lowerChar_ne_nil (c : Char) : lowerChar c ≠ [] := by
  unfold lowerChar
  split <;> simp

end Gazetteer.Text
