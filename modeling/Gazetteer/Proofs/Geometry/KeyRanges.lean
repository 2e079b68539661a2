import Gazetteer.Geometry.Covering

/-! Sets of keys as lists of ranges. Joining ascending ranges keeps their keys and gives the one
list of ranges with gaps between them that holds these keys. -/
namespace Gazetteer.KeyRange

def Covered (rs : List KeyRange) (key : Nat) : Prop := ∃ r ∈ rs, key ∈ r

/-- Ranges that hold something, each starting no earlier than those before it end. -/
structure Ascending (rs : List KeyRange) : Prop where
  nonempty : ∀ r ∈ rs, r.lo < r.hi
  ordered : rs.Pairwise fun r s => r.hi ≤ s.lo

/-- Ranges that hold something, with a gap before each but the first: the maximal ranges of a set of
keys. -/
structure Canonical (rs : List KeyRange) : Prop where
  nonempty : ∀ r ∈ rs, r.lo < r.hi
  apart : rs.Pairwise fun r s => r.hi < s.lo

private theorem mem_iff {r : KeyRange} {key : Nat} : key ∈ r ↔ r.lo ≤ key ∧ key < r.hi := Iff.rfl

theorem covered_nil (key : Nat) : ¬ Covered [] key := by simp [Covered]

private theorem covered_cons {r : KeyRange} {rs : List KeyRange} {key : Nat} :
    Covered (r :: rs) key ↔ key ∈ r ∨ Covered rs key := by simp [Covered]

private theorem Ascending.tail {r : KeyRange} {rs : List KeyRange} (h : Ascending (r :: rs)) :
    Ascending rs :=
  ⟨fun s hs => h.nonempty s (.tail _ hs), h.ordered.of_cons⟩

private theorem Canonical.tail {r : KeyRange} {rs : List KeyRange} (h : Canonical (r :: rs)) :
    Canonical rs :=
  ⟨fun s hs => h.nonempty s (.tail _ hs), h.apart.of_cons⟩

private theorem Ascending.merge {r s : KeyRange} {rs : List KeyRange} (h : Ascending (r :: s :: rs))
    (htouch : s.lo ≤ r.hi) :
    Ascending (⟨r.lo, max r.hi s.hi⟩ :: rs) ∧
      ∀ key, Covered (⟨r.lo, max r.hi s.hi⟩ :: rs) key ↔ Covered (r :: s :: rs) key := by
  -- The second range takes the place of both once it starts where the first does.
  have hr := h.nonempty r (.head _)
  have hs := h.nonempty s (.tail _ (.head _))
  have hrs : r.hi ≤ s.lo := List.rel_of_pairwise_cons h.ordered (.head _)
  have hmax : max r.hi s.hi = s.hi := by omega
  rw [hmax]
  refine ⟨⟨?_, ?_⟩, ?_⟩
  · intro t ht
    rcases List.mem_cons.mp ht with rfl | ht
    · change r.lo < s.hi
      omega
    · exact h.nonempty t (.tail _ (.tail _ ht))
  · exact List.pairwise_cons.mpr
      ⟨fun t ht => List.rel_of_pairwise_cons h.ordered.of_cons ht, h.ordered.of_cons.of_cons⟩
  · intro key
    rw [covered_cons, covered_cons, covered_cons, ← or_assoc]
    apply or_congr_left
    simp only [mem_iff]
    omega

private theorem joinFrom_spec (rs : List KeyRange) (r : KeyRange) (h : Ascending (r :: rs)) :
    Canonical (joinFrom r rs) ∧ (∀ s ∈ joinFrom r rs, r.lo ≤ s.lo) ∧
      ∀ key, Covered (joinFrom r rs) key ↔ Covered (r :: rs) key := by
  induction rs generalizing r with
  | nil =>
    refine ⟨⟨h.nonempty, List.pairwise_singleton ..⟩, ?_, fun key => Iff.rfl⟩
    intro s hs
    cases List.mem_singleton.mp hs
    exact Nat.le_refl _
  | cons s rs ih =>
    rw [joinFrom]
    split
    · next htouch =>
      obtain ⟨hmerge, hkeys⟩ := h.merge htouch
      obtain ⟨hcanonical, hlo, hcovered⟩ := ih _ hmerge
      exact ⟨hcanonical, hlo, fun key => (hcovered key).trans (hkeys key)⟩
    · next hgap =>
      obtain ⟨hcanonical, hlo, hcovered⟩ := ih s h.tail
      have hr := h.nonempty r (.head _)
      refine ⟨⟨?_, ?_⟩, ?_, ?_⟩
      · exact List.forall_mem_cons.mpr ⟨hr, hcanonical.nonempty⟩
      · apply List.Pairwise.cons _ hcanonical.apart
        intro t ht
        have := hlo t ht
        omega
      · refine List.forall_mem_cons.mpr ⟨Nat.le_refl _, ?_⟩
        intro t ht
        have := hlo t ht
        omega
      · intro key
        rw [covered_cons, covered_cons, hcovered]

/-- Joined ranges have gaps between them. -/
theorem canonical_join {rs : List KeyRange} (h : Ascending rs) : Canonical (join rs) := by
  cases rs with
  | nil => exact ⟨nofun, .nil⟩
  | cons r rs => exact (joinFrom_spec rs r h).1

/-- And they hold the same keys. -/
theorem covered_join {rs : List KeyRange} (h : Ascending rs) (key : Nat) :
    Covered (join rs) key ↔ Covered rs key := by
  cases rs with
  | nil => exact Iff.rfl
  | cons r rs => exact (joinFrom_spec rs r h).2.2 key

private theorem Canonical.lo_le {r : KeyRange} {rs : List KeyRange} (h : Canonical (r :: rs))
    {key : Nat} (hkey : Covered (r :: rs) key) : r.lo ≤ key := by
  have hr := h.nonempty r (.head _)
  rcases covered_cons.mp hkey with hmem | ⟨s, hs, hmem⟩
  · exact hmem.1
  · have : r.hi < s.lo := List.rel_of_pairwise_cons h.apart hs
    have := hmem.1
    omega

private theorem Canonical.covered_lo {r : KeyRange} {rs : List KeyRange} (h : Canonical (r :: rs)) :
    Covered (r :: rs) r.lo := ⟨r, .head _, Nat.le_refl _, h.nonempty r (.head _)⟩

private theorem Canonical.not_covered_hi {r : KeyRange} {rs : List KeyRange}
    (h : Canonical (r :: rs)) : ¬ Covered (r :: rs) r.hi := by
  intro hkey
  rcases covered_cons.mp hkey with hmem | ⟨s, hs, hmem⟩
  · exact Nat.lt_irrefl _ hmem.2
  · have : r.hi < s.lo := List.rel_of_pairwise_cons h.apart hs
    have := hmem.1
    omega

private theorem Canonical.covered_tail {r : KeyRange} {rs : List KeyRange} (h : Canonical (r :: rs))
    (key : Nat) : Covered rs key ↔ Covered (r :: rs) key ∧ r.hi ≤ key := by
  rw [covered_cons]
  constructor
  · rintro ⟨s, hs, hmem⟩
    have : r.hi < s.lo := List.rel_of_pairwise_cons h.apart hs
    have := hmem.1
    exact ⟨.inr ⟨s, hs, hmem⟩, by omega⟩
  · rintro ⟨hmem | hcovered, hle⟩
    · exact absurd hmem.2 (Nat.not_lt.mpr hle)
    · exact hcovered

private theorem Canonical.hi_le {r s : KeyRange} {rs ss : List KeyRange} (hr : Canonical (r :: rs))
    (hkeys : ∀ key, Covered (r :: rs) key ↔ Covered (s :: ss) key)
    (hlo : r.lo = s.lo) : s.hi ≤ r.hi := by
  have hnonempty := hr.nonempty r (.head _)
  apply Nat.le_of_not_lt
  intro hlt
  apply hr.not_covered_hi
  exact (hkeys _).mpr ⟨s, .head _, by omega, hlt⟩

/-- A set of keys has one canonical form. -/
theorem Canonical.unique {rs ss : List KeyRange} (hr : Canonical rs) (hs : Canonical ss)
    (hkeys : ∀ key, Covered rs key ↔ Covered ss key) : rs = ss := by
  induction rs generalizing ss with
  | nil =>
    cases ss with
    | nil => rfl
    | cons s ss => exact absurd ((hkeys _).mpr hs.covered_lo) (covered_nil _)
  | cons r rs ih =>
    cases ss with
    | nil => exact absurd ((hkeys _).mp hr.covered_lo) (covered_nil _)
    | cons s ss =>
      have hlo : r.lo = s.lo :=
        Nat.le_antisymm (hr.lo_le ((hkeys _).mpr hs.covered_lo))
          (hs.lo_le ((hkeys _).mp hr.covered_lo))
      have hhi : r.hi = s.hi :=
        Nat.le_antisymm (hs.hi_le (fun key => (hkeys key).symm) hlo.symm) (hr.hi_le hkeys hlo)
      have hhead : r = s := by
        cases r
        cases s
        simp_all only
      have htail : rs = ss := ih hr.tail hs.tail fun key => by
        rw [hr.covered_tail, hs.covered_tail, hkeys, hhi]
      rw [hhead, htail]

end Gazetteer.KeyRange
