import Gazetteer.Proofs.Binary64.Packing

/-! Binary64 numbers as points of the extended rational line. One number is at most another exactly
when both have a place on the line, in that order. -/
namespace Gazetteer.Binary64
open Float.Model (Format UnpackedFloat)
open Float.Model.UnpackedFloat

/-- The rational number that finite parts stand for. -/
def ofParts (s : Sign) (m : Nat) (e : Int) : ℚ := (s.apply m : Int) * (2 : ℚ) ^ e

theorem ofParts_positive (m : Nat) (e : Int) : ofParts .positive m e = m * 2 ^ e := by
  simp [ofParts, Sign.apply]

theorem ofParts_negative (m : Nat) (e : Int) : ofParts .negative m e = -(m * 2 ^ e) := by
  simp [ofParts, Sign.apply]

/-- The place on the extended line of a number with given parts; not-a-number has none. -/
def placeOf : UnpackedFloat → Option (WithBot (WithTop ℚ))
  | .notANumber => none
  | .infinity .negative => some ⊥
  | .infinity .positive => some ⊤
  | .zero _ => some ((0 : ℚ) : WithTop ℚ)
  | .finite s m e _ => some (ofParts s m e : WithTop ℚ)

/-- The place of a number on the extended line. -/
def place (x : Binary64) : Option (WithBot (WithTop ℚ)) := placeOf x.unpacked

private theorem lt_of_exponent_lt {m m' : Nat} {e e' : Int} (h : Normal m e) (h' : Normal m' e')
    (he : e < e') : (m : ℚ) * 2 ^ e < m' * 2 ^ e' := by
  have hm : (m : ℚ) < 2 ^ 53 := by exact_mod_cast h.lt
  have hfull : 2 ^ 52 ≤ m' := h'.full.resolve_right (by have := h.le_exponent; omega)
  have hm' : (2 : ℚ) ^ 52 ≤ m' := by exact_mod_cast hfull
  have hstep : (2 : ℚ) ^ (e + 1) ≤ 2 ^ e' := zpow_le_zpow_right₀ (by norm_num) he
  have hpos : (0 : ℚ) < 2 ^ e := by positivity
  calc (m : ℚ) * 2 ^ e < 2 ^ 53 * 2 ^ e := by exact mul_lt_mul_of_pos_right hm hpos
    _ = 2 ^ 52 * 2 ^ (e + 1) := by rw [zpow_add_one₀ (by norm_num)]; ring
    _ ≤ m' * 2 ^ e' := mul_le_mul hm' hstep (by positivity) (by positivity)

private theorem compare_parts {m m' : Nat} {e e' : Int} (h : Normal m e) (h' : Normal m' e') :
    (compare e e').then (compare m m') = compare ((m : ℚ) * 2 ^ e) (m' * 2 ^ e') := by
  rcases lt_trichotomy e e' with he | rfl | he
  · rw [compare_lt_iff_lt.mpr he, compare_lt_iff_lt.mpr (lt_of_exponent_lt h h' he)]
    rfl
  · have hpos : (0 : ℚ) < 2 ^ e := by positivity
    rw [compare_eq_iff_eq.mpr rfl]
    change compare m m' = _
    rcases lt_trichotomy m m' with hm | rfl | hm
    · have : (m : ℚ) < m' := by exact_mod_cast hm
      rw [compare_lt_iff_lt.mpr hm, compare_lt_iff_lt.mpr (mul_lt_mul_of_pos_right this hpos)]
    · rw [compare_eq_iff_eq.mpr rfl, compare_eq_iff_eq.mpr rfl]
    · have : (m' : ℚ) < m := by exact_mod_cast hm
      rw [compare_gt_iff_gt.mpr hm, compare_gt_iff_gt.mpr (mul_lt_mul_of_pos_right this hpos)]
  · rw [compare_gt_iff_gt.mpr he, compare_gt_iff_gt.mpr (lt_of_exponent_lt h' h he)]
    rfl

private theorem pos_of_pos {m : Nat} (hm : 0 < m) (e : Int) : (0 : ℚ) < m * 2 ^ e := by positivity

private theorem isLE_compare_iff {a b : ℚ} : (compare a b).isLE = true ↔ a ≤ b := by
  rw [Ordering.isLE_iff_ne_gt]
  exact (not_congr compare_gt_iff_gt).trans not_lt

private theorem le_finite_iff {s s' : Sign} {m m' : Nat} {e e' : Int} (hm : 0 < m) (hm' : 0 < m')
    (h : Normal m e) (h' : Normal m' e') :
    (UnpackedFloat.finite s m e hm).le (.finite s' m' e' hm') = true ↔
      ofParts s m e ≤ ofParts s' m' e' := by
  have hp := pos_of_pos hm e
  have hp' := pos_of_pos hm' e'
  cases s with
  | positive =>
    cases s' with
    | positive =>
      simp only [UnpackedFloat.le, UnpackedFloat.compare, Option.any_some, compare_parts h h',
        isLE_compare_iff, ofParts_positive]
    | negative =>
      rw [ofParts_positive, ofParts_negative]
      exact iff_of_false (by simp [UnpackedFloat.le, UnpackedFloat.compare]) (by linarith)
  | negative =>
    cases s' with
    | positive =>
      rw [ofParts_positive, ofParts_negative]
      exact iff_of_true (by simp [UnpackedFloat.le, UnpackedFloat.compare]) (by linarith)
    | negative =>
      simp only [UnpackedFloat.le, UnpackedFloat.compare, Option.any_some, compare_parts h h',
        ofParts_negative, neg_le_neg_iff]
      rw [← isLE_compare_iff, @Std.OrientedCmp.eq_swap _ compare _ ((m' : ℚ) * 2 ^ e')]

private theorem zero_le_finite_iff {s s' : Sign} {m : Nat} {e : Int} (hm : 0 < m) :
    (UnpackedFloat.zero s).le (.finite s' m e hm) = true ↔ 0 ≤ ofParts s' m e := by
  have hp := pos_of_pos hm e
  cases s' with
  | positive =>
    rw [ofParts_positive]
    exact iff_of_true rfl hp.le
  | negative =>
    rw [ofParts_negative]
    exact iff_of_false (by simp [UnpackedFloat.le, UnpackedFloat.compare]) (by linarith)

private theorem finite_le_zero_iff {s s' : Sign} {m : Nat} {e : Int} (hm : 0 < m) :
    (UnpackedFloat.finite s m e hm).le (.zero s') = true ↔ ofParts s m e ≤ 0 := by
  have hp := pos_of_pos hm e
  cases s with
  | positive =>
    rw [ofParts_positive]
    exact iff_of_false (by simp [UnpackedFloat.le, UnpackedFloat.compare]) (by linarith)
  | negative =>
    rw [ofParts_negative]
    exact iff_of_true rfl (by linarith)

private theorem le_iff_placeOf {f g : UnpackedFloat} (hf : Proper f) (hg : Proper g) :
    f.le g = true ↔ ∃ p ∈ placeOf f, ∃ q ∈ placeOf g, p ≤ q := by
  have hneg : (⊥ : WithBot (WithTop ℚ)) ≤ ⊤ := bot_le
  rcases f with (_ | _) | _ | s | ⟨s, m, e, hm⟩ <;>
    rcases g with (_ | _) | _ | s' | ⟨s', m', e', hm'⟩
  case finite.finite => simpa [placeOf] using le_finite_iff hm hm' hf hg
  case zero.finite => simpa [placeOf] using zero_le_finite_iff hm'
  case finite.zero => simpa [placeOf] using finite_le_zero_iff hm
  case infinity.negative.infinity.negative => exact iff_of_true rfl ⟨_, rfl, _, rfl, le_refl _⟩
  case infinity.positive.infinity.positive => exact iff_of_true rfl ⟨_, rfl, _, rfl, le_refl _⟩
  case infinity.negative.infinity.positive => exact iff_of_true rfl ⟨_, rfl, _, rfl, hneg⟩
  case infinity.positive.infinity.negative => exact iff_of_false (by decide) (by simp [placeOf])
  case infinity.positive.zero =>
    have hzero : ¬ (⊤ : WithBot (WithTop ℚ)) ≤ ((0 : ℚ) : WithTop ℚ) := fun h =>
      absurd (WithBot.coe_le_coe.mp h) (not_le.mpr (WithTop.coe_lt_top 0))
    exact iff_of_false (by simp [UnpackedFloat.le, UnpackedFloat.compare])
      (by simpa only [placeOf, Option.mem_some_iff, exists_eq_left'] using hzero)
  all_goals simp [UnpackedFloat.le, UnpackedFloat.compare, placeOf]

/-- Numbers are in the order of their places on the extended line; not-a-number is in no order. -/
theorem le_iff_place {x y : Binary64} : x ≤ y ↔ ∃ p ∈ x.place, ∃ q ∈ y.place, p ≤ q :=
  (le_iff_unpacked x y).trans (le_iff_placeOf x.proper_unpacked y.proper_unpacked)

theorem le_trans {x y z : Binary64} (h : x ≤ y) (h' : y ≤ z) : x ≤ z := by
  obtain ⟨p, hp, q, hq, hpq⟩ := le_iff_place.mp h
  obtain ⟨q', hq', r, hr, hqr⟩ := le_iff_place.mp h'
  cases Option.mem_unique hq hq'
  exact le_iff_place.mpr ⟨p, hp, r, hr, hpq.trans hqr⟩

/-- The number stands for a rational number. -/
def Is (x : Binary64) (q : ℚ) : Prop := x.place = some (q : WithTop ℚ)

/-- Numbers that stand for rational numbers compare as these. -/
theorem Is.le_iff {x y : Binary64} {p q : ℚ} (hx : x.Is p) (hy : y.Is q) : x ≤ y ↔ p ≤ q := by
  rw [le_iff_place, hx, hy]
  simp

/-- A number that stands for a rational number is a zero, or has finite parts that make this
number. -/
theorem Is.parts {x : Binary64} {p : ℚ} (h : x.Is p) :
    (∃ s, x.unpacked = .zero s ∧ p = 0) ∨
      ∃ s m e, ∃ hm : 0 < m, x.unpacked = .finite s m e hm ∧ Normal m e ∧ p = ofParts s m e := by
  have hproper := x.proper_unpacked
  unfold Is place at h
  generalize x.unpacked = f at h hproper
  rcases f with (_ | _) | _ | s | ⟨s, m, e, hm⟩
  · cases h
  · exact absurd (WithBot.coe_injective (Option.some.inj h)) WithTop.top_ne_coe
  · cases h
  · exact .inl ⟨s, rfl, by simpa [placeOf, eq_comm] using h⟩
  · exact .inr ⟨s, m, e, hm, rfl, hproper, by simpa [placeOf, eq_comm] using h⟩

private theorem compare_swap (f g : UnpackedFloat) :
    g.compare f = (f.compare g).map Ordering.swap := by
  rcases f with (_ | _) | _ | s | ⟨_ | _, m, e, hm⟩ <;>
    rcases g with (_ | _) | _ | s' | ⟨_ | _, m', e', hm'⟩
  case finite.positive.finite.positive =>
    simp [UnpackedFloat.compare, Ordering.swap_then, ← Std.OrientedCmp.eq_swap]
  case finite.negative.finite.negative =>
    simp [UnpackedFloat.compare, Ordering.swap_then, ← Std.OrientedCmp.eq_swap]
  all_goals rfl

/-- Comparisons are those of the rational numbers that are stood for. -/
theorem Is.lt_iff {x y : Binary64} {p q : ℚ} (hx : x.Is p) (hy : y.Is q) : x < y ↔ p < q := by
  have hle := hx.le_iff hy
  have hge := hy.le_iff hx
  rw [le_iff_unpacked, UnpackedFloat.le] at hle hge
  rw [compare_swap x.unpacked] at hge
  rw [lt_iff_unpacked, UnpackedFloat.lt, ← not_le, ← hge]
  cases hc : x.unpacked.compare y.unpacked with
  | none =>
    -- The numbers are comparable, since the rational numbers are.
    rw [hc] at hle hge
    exact absurd (le_total p q) (by simp [← hle, ← hge])
  | some o => cases o <;> simp

/-- The order is total on numbers; only not-a-number stands beside it. -/
theorem lt_of_not_le {x y : Binary64} (hx : x.isNaN = false) (hy : y.isNaN = false) (h : ¬ y ≤ x) :
    x < y := by
  rw [isNaN_eq_unpacked] at hx hy
  rw [le_iff_unpacked, UnpackedFloat.le, compare_swap x.unpacked] at h
  rw [lt_iff_unpacked, UnpackedFloat.lt]
  cases hc : x.unpacked.compare y.unpacked with
  | none =>
    rcases hf : x.unpacked with (_ | _) | _ | s | ⟨_ | _, m, e, hm⟩ <;>
      rcases hg : y.unpacked with (_ | _) | _ | s' | ⟨_ | _, m', e', hm'⟩ <;>
      simp [hf, hg, UnpackedFloat.compare, UnpackedFloat.isNaN] at hx hy hc
  | some o =>
    rw [hc] at h
    cases o <;> simp at h ⊢

private theorem eq_of_compare_eq {f g : UnpackedFloat} (h : f.compare g = some .eq) :
    f = g ∨ ∃ s s', f = .zero s ∧ g = .zero s' := by
  -- Comparing does not tell the signs of zeros apart.
  rcases f with (_ | _) | _ | s | ⟨_ | _, m, e, hm⟩ <;>
    rcases g with (_ | _) | _ | s' | ⟨_ | _, m', e', hm'⟩ <;>
    simp_all [UnpackedFloat.compare, Ordering.then_eq_eq, Ordering.swap_eq_eq]

theorem unpacked_eq_of_le {x y : Binary64} {p : ℚ} (h : x ≤ y) (h' : ¬ x < y) (hy : y.Is p)
    (hp : p ≠ 0) : x.unpacked = y.unpacked := by
  rw [le_iff_unpacked, UnpackedFloat.le] at h
  rw [lt_iff_unpacked, UnpackedFloat.lt] at h'
  have hc : x.unpacked.compare y.unpacked = some .eq := by
    cases hc : x.unpacked.compare y.unpacked with
    | none => simp [hc] at h
    | some o => cases o <;> simp [hc] at h h' ⊢
  rcases eq_of_compare_eq hc with heq | ⟨s, s', -, hzero⟩
  · exact heq
  · rcases hy.parts with ⟨-, -, rfl⟩ | ⟨_, _, _, _, hfinite, -⟩
    · exact absurd rfl hp
    · cases hzero.symm.trans hfinite

/-- Numbers that stand for one rational number have the same parts, unless it is zero. -/
theorem Is.unpacked_eq {x y : Binary64} {p : ℚ} (hx : x.Is p) (hy : y.Is p) (hp : p ≠ 0) :
    x.unpacked = y.unpacked :=
  unpacked_eq_of_le ((hx.le_iff hy).mpr le_rfl) (fun h => lt_irrefl p ((hx.lt_iff hy).mp h)) hy hp

/-- The finite numbers are those that stand for rational numbers. -/
theorem isFinite_iff {x : Binary64} : x.isFinite = true ↔ ∃ p, x.Is p := by
  rw [isFinite_eq_unpacked]
  unfold Is place
  rcases x.unpacked with (_ | _) | _ | s | ⟨s, m, e, hm⟩
  · exact iff_of_false Bool.false_ne_true fun ⟨p, hp⟩ => nomatch hp
  · exact iff_of_false Bool.false_ne_true fun ⟨p, hp⟩ =>
      WithTop.top_ne_coe (WithBot.coe_injective (Option.some.inj hp))
  · exact iff_of_false Bool.false_ne_true fun ⟨p, hp⟩ => nomatch hp
  · exact iff_of_true rfl ⟨0, rfl⟩
  · exact iff_of_true rfl ⟨_, rfl⟩

/-- Between numbers that stand for rational numbers there are only such numbers. -/
theorem exists_is_between {x y v : Binary64} {p q : ℚ} (hx : x.Is p) (hy : y.Is q) (hlow : x ≤ v)
    (hhigh : v ≤ y) : ∃ r, v.Is r ∧ p ≤ r ∧ r ≤ q := by
  obtain ⟨_, hp, z, hz, hpz⟩ := le_iff_place.mp hlow
  obtain ⟨z', hz', _, hq, hzq⟩ := le_iff_place.mp hhigh
  cases Option.mem_unique hz hz'
  cases Option.mem_unique hp hx
  cases Option.mem_unique hq hy
  induction z with
  | bot => exact absurd hpz (by simp)
  | coe z =>
    induction z with
    | top => exact absurd hzq (by simp)
    | coe r => exact ⟨r, hz, by simpa using hpz, by simpa using hzq⟩

/-- A number stands for one rational number. -/
theorem Is.unique {x : Binary64} {p q : ℚ} (hp : x.Is p) (hq : x.Is q) : p = q :=
  WithTop.coe_injective (WithBot.coe_injective (Option.some.inj (hp.symm.trans hq)))

end Gazetteer.Binary64
