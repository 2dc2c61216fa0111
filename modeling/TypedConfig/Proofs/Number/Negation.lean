import Mathlib
import TypedConfig.Proofs.Number.Finite

/-! # Negated numbers

Negating a number turns its sign bit over and leaves its exponent and its mantissa, so a number
that is negated twice is the number again.
-/

namespace TypedConfig.Number

open Float.Model (Format UnpackedFloat)
open Float.Model.UnpackedFloat

theorem sign_neg_neg (s : Sign) : -(-s) = s := by cases s <;> rfl

theorem sign_of_toBitVec (s : Sign) : Sign.ofBitVec s.toBitVec = s := by cases s <;> rfl

theorem toBitVec_sign_of (b : BitVec 1) : (Sign.ofBitVec b).toBitVec = b := by
  revert b
  decide

theorem unpackSign_packComponents {format : Format} (s : Sign)
    (e : BitVec format.exponentBits) (m : BitVec format.mantissaBitsWithoutImplicit) :
    unpackSign (packComponents format s e m) = s.toBitVec := by
  refine BitVec.eq_of_getLsbD_eq fun i hi => ?_
  obtain rfl : i = 0 := by omega
  simp [unpackSign, packComponents, BitVec.getLsbD_append, BitVec.getElem_append]

/-- The bits of a number are those of its three parts. -/
theorem packComponents_parts (b : BitVec (Format.numBits .binary64)) :
    packComponents .binary64 (.ofBitVec (unpackSign b)) (unpackExponent b) (unpackMantissa b) =
      b := by
  rw [packComponents, toBitVec_sign_of]
  ext i hi
  simp only [unpackSign, unpackExponent, unpackMantissa, BitVec.extractLsb]
  grind

/-- Bits that do not stand for what is not a number. -/
def StandsForNumber (b : BitVec (Format.numBits .binary64)) : Prop :=
  unpackExponent b = -1#_ → unpackMantissa b = 0#_

theorem log2_of_subnormal {m : Nat} (h : m < 2 ^ 52) : m.log2 + 1 ≠ 53 := by
  intro hlog
  have hm : m ≠ 0 := by
    rintro rfl
    cases hlog
  have hlow := (Nat.log2_lt hm).2 h
  omega

theorem log2_of_normal {m : Nat} (h : m < 2 ^ 52) : (2 ^ 52 + m).log2 = 52 :=
  (Nat.log2_eq_iff (by omega)).2 ⟨by omega, by omega⟩

theorem pack_neg_unpack {b : BitVec (Format.numBits .binary64)} (h : StandsForNumber b) :
    pack .binary64 (unpack .binary64 b).neg =
      packComponents .binary64 (-.ofBitVec (unpackSign b)) (unpackExponent b)
        (unpackMantissa b) := by
  have hbias : (Format.binary64.exponentBias : Int) = 1023 := rfl
  have hfraction : (Format.binary64.mantissaBitsWithoutImplicit : Int) = 52 := rfl
  have hbits : Format.binary64.mantissaBits = 53 := rfl
  have hmantissa : (unpackMantissa b).toNat < 2 ^ 52 := (unpackMantissa b).isLt
  have hexponent : (unpackExponent b).toNat < 2 ^ 11 := (unpackExponent b).isLt
  unfold UnpackedFloat.unpack
  dsimp only
  split
  · rename_i he
    rw [if_pos (h he), he, h he]
    rfl
  · rename_i hne
    split
    · rename_i he
      split
      · rename_i hm
        rw [he, hm]
        rfl
      · -- The exponent of a number below the normal ones is stored as zero.
        have hzero : (unpackExponent b).toNat = 0 := by rw [he]; rfl
        simp only [UnpackedFloat.neg, pack, hbias, hfraction, hbits, hzero]
        rw [if_neg (by decide), if_neg (log2_of_subnormal hmantissa), he, BitVec.ofNat_toNat,
          BitVec.setWidth_eq]
    · have hmax : (unpackExponent b).toNat ≠ 2047 := fun he =>
        hne (BitVec.eq_of_toNat_eq he)
      have hwhole : (1#1 ++ unpackMantissa b).toNat = 2 ^ 52 + (unpackMantissa b).toNat := by
        rw [BitVec.toNat_append, ← Nat.shiftLeft_add_eq_or_of_lt (unpackMantissa b).isLt]
        rfl
      have hstored : (((unpackExponent b).toNat : Int) - (1023 + 52) + 1023 + 52).toNat =
          (unpackExponent b).toNat := by omega
      simp only [UnpackedFloat.neg, pack, hbias, hfraction, hbits, hwhole, hstored,
        log2_of_normal hmantissa]
      rw [if_neg (by change ¬ 2048 ≤ _; omega), if_pos trivial, BitVec.ofNat_toNat,
        BitVec.setWidth_eq]
      congr 1
      refine BitVec.eq_of_toNat_eq ?_
      rw [BitVec.toNat_ofNat]
      exact (Nat.add_mod_left ..).trans (Nat.mod_eq_of_lt hmantissa)

theorem pack_neg_neg {b : BitVec (Format.numBits .binary64)} (h : Format.binary64.Valid b) :
    pack .binary64 (unpack .binary64 (pack .binary64 (unpack .binary64 b).neg)).neg = b := by
  by_cases hb : StandsForNumber b
  · have hb' : StandsForNumber (packComponents .binary64 (-.ofBitVec (unpackSign b))
        (unpackExponent b) (unpackMantissa b)) := by
      rw [StandsForNumber, unpackExponent_packComponents, unpackMantissa_packComponents]
      exact hb
    rw [pack_neg_unpack hb, pack_neg_unpack hb', unpackExponent_packComponents,
      unpackMantissa_packComponents, unpackSign_packComponents, sign_of_toBitVec, sign_neg_neg,
      packComponents_parts]
  · -- Only one pattern of bits stands for what is not a number.
    obtain ⟨he, hm⟩ := Classical.not_imp.1 hb
    rw [h.eq_packedNaN he hm]
    rfl

/-- A number that is negated twice is the number again. -/
theorem neg_neg (x : Float) : -(-x) = x := by
  obtain ⟨⟨bits, hvalid⟩⟩ := x
  have hmodel : -(-Float.Model.mk bits hvalid) = .mk bits hvalid := by
    show Float.Model.mk (.ofBitVec _) _ = _
    congr 1
    exact congrArg UInt64.ofBitVec (pack_neg_neg hvalid)
  exact congrArg Float.ofModel hmodel

end TypedConfig.Number
