import Gazetteer.Proofs.Binary64.Rounding

/-! Where finite results come from. No operation makes a finite number of one that is infinite or
not a number, but that a finite number over an infinite one is zero. -/
namespace Gazetteer.Binary64
open Float.Model (Format UnpackedFloat)

variable {x y : Binary64}

theorem le_of_lt (h : x < y) : x ≤ y := by
  rw [lt_iff_unpacked, UnpackedFloat.lt, beq_iff_eq] at h
  rw [le_iff_unpacked, UnpackedFloat.le, h]
  rfl

private theorem isFinite_of_settled {f : UnpackedFloat} (h : (settled f).isFinite = true) :
    f.isFinite = true := by
  cases f with
  | notANumber => cases h
  | infinity s => cases s <;> cases h
  | zero s => rfl
  | finite s m e hm => rfl

section
variable {format : Format} {f g : UnpackedFloat}

private theorem isFinite_of_add (h : (UnpackedFloat.add format f g).isFinite = true) :
    f.isFinite = true ∧ g.isFinite = true := by
  rcases f with (_ | _) | _ | _ | _ <;> rcases g with (_ | _) | _ | _ | _
  all_goals first | exact ⟨rfl, rfl⟩ | simp [UnpackedFloat.add, UnpackedFloat.isFinite] at h

private theorem isFinite_of_sub (h : (UnpackedFloat.sub format f g).isFinite = true) :
    f.isFinite = true ∧ g.isFinite = true := by
  rcases f with (_ | _) | _ | _ | _ <;> rcases g with (_ | _) | _ | _ | _
  all_goals first | exact ⟨rfl, rfl⟩ | cases h

private theorem isFinite_of_mul (h : (UnpackedFloat.mul format f g).isFinite = true) :
    f.isFinite = true ∧ g.isFinite = true := by
  cases f <;> cases g
  all_goals first | exact ⟨rfl, rfl⟩ | simp [UnpackedFloat.mul, UnpackedFloat.isFinite] at h

private theorem isFinite_of_div (h : (UnpackedFloat.div format f g).isFinite = true) :
    f.isFinite = true := by
  cases f <;> cases g
  all_goals first | rfl | simp [UnpackedFloat.div, UnpackedFloat.isFinite] at h

end

/-- A finite sum has finite operands. -/
theorem isFinite_of_isFinite_add (h : (x + y).isFinite = true) :
    x.isFinite = true ∧ y.isFinite = true := by
  simp only [isFinite_eq_unpacked, unpacked_add] at h ⊢
  exact isFinite_of_add (isFinite_of_settled h)

theorem isFinite_of_isFinite_sub (h : (x - y).isFinite = true) :
    x.isFinite = true ∧ y.isFinite = true := by
  simp only [isFinite_eq_unpacked, unpacked_sub] at h ⊢
  exact isFinite_of_sub (isFinite_of_settled h)

theorem isFinite_of_isFinite_mul (h : (x * y).isFinite = true) :
    x.isFinite = true ∧ y.isFinite = true := by
  simp only [isFinite_eq_unpacked, unpacked_mul] at h ⊢
  exact isFinite_of_mul (isFinite_of_settled h)

theorem isFinite_of_isFinite_div (h : (x / y).isFinite = true) : x.isFinite = true := by
  simp only [isFinite_eq_unpacked, unpacked_div] at h ⊢
  exact isFinite_of_div (isFinite_of_settled h)

end Gazetteer.Binary64
