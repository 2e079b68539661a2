import Gazetteer.Binary64
import Mathlib

/-! The parts of a binary64 number: its class, and for a finite one its sign, significand and
exponent. Packing the parts into bits and taking them out again loses nothing, so arithmetic on bits
is arithmetic on parts. -/
namespace Gazetteer.Binary64
open Float.Model (Format UnpackedFloat)
open Float.Model.UnpackedFloat

/-- The parts of a number. -/
def unpacked (x : Binary64) : UnpackedFloat := unpack Format.binary64 x.bits.toBitVec

/-- The significand and exponent that a finite number has of all that give its magnitude: the
significand fills its 53 bits unless the exponent is the smallest. -/
structure Normal (m : Nat) (e : Int) : Prop where
  lt : m < 2 ^ 53
  le_exponent : -1074 ≤ e
  exponent_le : e ≤ 971
  full : 2 ^ 52 ≤ m ∨ e = -1074

/-- Parts as a number has them. -/
def Proper : UnpackedFloat → Prop
  | .finite _ m e _ => Normal m e
  | _ => True

private theorem toNat_one_append (m : BitVec 52) : (1#1 ++ m).toNat = 2 ^ 52 + m.toNat := by
  rw [BitVec.toNat_append, ← Nat.shiftLeft_add_eq_or_of_lt m.isLt]
  rfl

private theorem proper_unpack (b : BitVec 64) : Proper (unpack Format.binary64 b) := by
  unfold UnpackedFloat.unpack
  simp only
  have hexp : (@unpackExponent Format.binary64 b).toNat < 2 ^ 11 := BitVec.isLt _
  have hman : (@unpackMantissa Format.binary64 b).toNat < 2 ^ 52 := BitVec.isLt _
  split_ifs with h h' h''
  · trivial
  · trivial
  · trivial
  · have he : (@unpackExponent Format.binary64 b).toNat = 0 := congrArg BitVec.toNat h''
    have hn : ((@unpackExponent Format.binary64 b).toNat : Int) - (1023 + 52) + 1 = -1074 := by
      omega
    exact ⟨by omega, hn.ge, hn.le.trans (by decide), .inr hn⟩
  · have h0 : (@unpackExponent Format.binary64 b).toNat ≠ 0 := fun h0 =>
      h'' (BitVec.eq_of_toNat_eq h0)
    have hm : (@unpackExponent Format.binary64 b).toNat ≠ 2047 := fun hm =>
      h (BitVec.eq_of_toNat_eq hm)
    have hs := toNat_one_append (@unpackMantissa Format.binary64 b)
    refine ⟨hs.trans_lt (by omega), ?_, ?_, .inl (hs.ge.trans' (by omega))⟩
    · change -1074 ≤ ((@unpackExponent Format.binary64 b).toNat : Int) - (1023 + 52)
      omega
    · change ((@unpackExponent Format.binary64 b).toNat : Int) - (1023 + 52) ≤ 971
      omega

theorem proper_unpacked (x : Binary64) : Proper x.unpacked := proper_unpack _

private theorem ofNat_ne_of_lt {w n k : Nat} (hn : n < 2 ^ w) (hk : k < 2 ^ w) (h : n ≠ k) :
    BitVec.ofNat w n ≠ BitVec.ofNat w k := by
  intro he
  have := congrArg BitVec.toNat he
  rw [BitVec.toNat_ofNat, BitVec.toNat_ofNat, Nat.mod_eq_of_lt hn, Nat.mod_eq_of_lt hk] at this
  exact h this

private theorem unpack_pack_full (s : Sign) {m : Nat} {e : Int} (hm : 0 < m) (h : Normal m e)
    (hfull : 2 ^ 52 ≤ m) :
    unpack Format.binary64 (pack Format.binary64 (.finite s m e hm)) = .finite s m e hm := by
  -- The leading one is not stored: the exponent tells of it.
  obtain ⟨hlt, hmin, hmax, -⟩ := h
  obtain ⟨n, hn⟩ : ∃ n : Nat, n = (e + 1023 + 52).toNat := ⟨_, rfl⟩
  have hexp : (BitVec.ofNat 11 n).toNat = n := by
    rw [BitVec.toNat_ofNat]
    omega
  have hlog : m.log2 + 1 = 53 := by
    rw [(Nat.log2_eq_iff (by omega)).mpr ⟨hfull, hlt⟩]
  have hpack : pack Format.binary64 (.finite s m e hm) =
      packComponents Format.binary64 s (BitVec.ofNat 11 n) (BitVec.ofNat 52 m) := by
    rw [hn]
    unfold pack
    exact (if_neg (show ¬ 2 ^ 11 ≤ (e + 1023 + 52).toNat + 1 by omega)).trans (if_pos hlog)
  have hones : BitVec.ofNat 11 n ≠ -1#11 :=
    ofNat_ne_of_lt (k := 2047) (by omega) (by decide) (by omega)
  have hzero : BitVec.ofNat 11 n ≠ 0#11 := ofNat_ne_of_lt (by omega) (by decide) (by omega)
  have hsig : (1#1 ++ BitVec.ofNat 52 m).toNat = m := by
    rw [toNat_one_append, BitVec.toNat_ofNat]
    omega
  rw [hpack]
  unfold UnpackedFloat.unpack
  simp only [unpackMantissa_packComponents, unpackExponent_packComponents,
    unpackSign_packComponents, Sign.ofBitVec_toBitVec, if_neg hones, if_neg hzero, finite.injEq, hexp]
  refine ⟨trivial, hsig, ?_⟩
  change (n : Int) - (1023 + 52) = e
  omega

private theorem unpack_pack_smallest (s : Sign) {m : Nat} (hm : 0 < m) (hlt : m < 2 ^ 52) :
    unpack Format.binary64 (pack Format.binary64 (.finite s m (-1074) hm)) =
      .finite s m (-1074) hm := by
  -- The significand is stored as it is, with the smallest exponent.
  have hlog : ¬ m.log2 + 1 = 53 := by
    have := (Nat.log2_lt hm.ne').mpr hlt
    omega
  have hpack : pack Format.binary64 (.finite s m (-1074) hm) =
      packComponents Format.binary64 s 0#11 (BitVec.ofNat 52 m) := by
    unfold pack
    exact (if_neg (by decide)).trans (if_neg hlog)
  have hman : BitVec.ofNat 52 m ≠ 0#52 := ofNat_ne_of_lt hlt (by decide) hm.ne'
  rw [hpack]
  unfold UnpackedFloat.unpack
  simp only [unpackMantissa_packComponents, unpackExponent_packComponents,
    unpackSign_packComponents, Sign.ofBitVec_toBitVec]
  rw [if_neg (by decide), if_true, dif_neg hman]
  simp only [finite.injEq, BitVec.toNat_ofNat]
  exact ⟨trivial, Nat.mod_eq_of_lt hlt, by decide⟩

/-- Parts as a number has them come back when they are packed and taken out. -/
theorem unpack_pack {f : UnpackedFloat} (h : Proper f) :
    unpack Format.binary64 (pack Format.binary64 f) = f := by
  cases f with
  | notANumber => rfl
  | infinity s => cases s <;> rfl
  | zero s => cases s <;> rfl
  | finite s m e hm =>
    by_cases hfull : 2 ^ 52 ≤ m
    · exact unpack_pack_full s hm h hfull
    · obtain rfl : e = -1074 := h.full.resolve_left hfull
      exact unpack_pack_smallest s hm (Nat.lt_of_not_le hfull)

/-- No part of a number is lost on the way to the float that stands for it. -/
theorem unpack_toFloat (x : Binary64) : x.toFloat.toModel.unpack = x.unpacked :=
  unpack_pack x.proper_unpacked

/-- Arithmetic and comparisons see no more of a number than its parts. -/
theorem toFloat_congr {x y : Binary64} (h : x.unpacked = y.unpacked) : x.toFloat = y.toFloat :=
  congrArg (fun f => Float.ofModel (Float.Model.pack f)) h

/-- What becomes of parts that arithmetic gives: too large a magnitude is infinite. -/
def settled (f : UnpackedFloat) : UnpackedFloat := unpack Format.binary64 (pack Format.binary64 f)

theorem settled_of_large (s : Sign) {m : Nat} {e : Int} (hm : 0 < m) (he : 972 ≤ e) :
    settled (.finite s m e hm) = .infinity s := by
  have hpack : pack Format.binary64 (.finite s m e hm) = packedInfinity Format.binary64 s :=
    if_pos (show 2 ^ 11 ≤ (e + 1023 + 52).toNat + 1 by omega)
  rw [settled, hpack]
  cases s <;> rfl

/-- Operations are carried out on the parts of numbers, and settle at parts. -/
theorem unpacked_add (x y : Binary64) :
    (x + y).unpacked = settled (add Format.binary64 x.unpacked y.unpacked) := by
  rw [← unpack_toFloat x, ← unpack_toFloat y]
  rfl

theorem unpacked_sub (x y : Binary64) :
    (x - y).unpacked = settled (sub Format.binary64 x.unpacked y.unpacked) := by
  rw [← unpack_toFloat x, ← unpack_toFloat y]
  rfl

theorem unpacked_mul (x y : Binary64) :
    (x * y).unpacked = settled (mul Format.binary64 x.unpacked y.unpacked) := by
  rw [← unpack_toFloat x, ← unpack_toFloat y]
  rfl

theorem unpacked_div (x y : Binary64) :
    (x / y).unpacked = settled (div Format.binary64 x.unpacked y.unpacked) := by
  rw [← unpack_toFloat x, ← unpack_toFloat y]
  rfl

theorem unpacked_natCast (n : Nat) :
    ((n : Binary64)).unpacked = settled (ofNat Format.binary64 (UInt64.ofNat n).toNat) := rfl

/-- Comparisons are made on the parts of numbers. -/
theorem le_iff_unpacked (x y : Binary64) : x ≤ y ↔ x.unpacked.le y.unpacked = true := by
  rw [← unpack_toFloat x, ← unpack_toFloat y]
  exact decide_eq_true_iff

theorem lt_iff_unpacked (x y : Binary64) : x < y ↔ x.unpacked.lt y.unpacked = true := by
  rw [← unpack_toFloat x, ← unpack_toFloat y]
  exact decide_eq_true_iff

/-- The parts tell which numbers are finite. -/
theorem isFinite_eq_unpacked (x : Binary64) : x.isFinite = x.unpacked.isFinite := by
  rw [← unpack_toFloat x]
  rfl

theorem isNaN_eq_unpacked (x : Binary64) : x.isNaN = x.unpacked.isNaN := by
  rw [← unpack_toFloat x]
  rfl

theorem isNaN_eq_false_of_isFinite {x : Binary64} (h : x.isFinite = true) : x.isNaN = false := by
  rw [isFinite_eq_unpacked] at h
  rw [isNaN_eq_unpacked]
  cases hx : x.unpacked with
  | notANumber => rw [hx] at h; cases h
  | infinity | zero | finite => rfl

theorem truncate_eq_unpacked (x : Binary64) : x.truncate = x.unpacked.toUInt32.toNat := by
  rw [← unpack_toFloat x]
  rfl

end Gazetteer.Binary64
