import TypedConfig.Number.Written

/-! # Finite numbers

A finite number has an exact form, and therefore a text.
-/

namespace TypedConfig.Number

open Float.Model (Format UnpackedFloat)
open Float.Model.UnpackedFloat (unpackExponent unpackMantissa)

variable {x : Float}

def bitsOf (x : Float) : BitVec (Format.numBits .binary64) := x.toBits.toBitVec

theorem toNat_unpackExponent (x : Float) :
    (unpackExponent (bitsOf x)).toNat = x.toBits.toNat / Nat.pow 2 52 % Nat.pow 2 11 := by
  simp [unpackExponent, bitsOf, Nat.shiftRight_eq_div_pow]

theorem toNat_unpackMantissa (x : Float) :
    (unpackMantissa (bitsOf x)).toNat = x.toBits.toNat % Nat.pow 2 52 := by
  simp [unpackMantissa, bitsOf]

/-- The form of a number by its exponent and its mantissa. -/
theorem unpack_eq (x : Float) : ∃ sign normal,
    ∃ subnormal : unpackMantissa (bitsOf x) ≠ 0#_ → UnpackedFloat,
      (UnpackedFloat.unpack .binary64 (bitsOf x) =
        if unpackExponent (bitsOf x) = -1#_ then
          if unpackMantissa (bitsOf x) = 0#_ then .infinity sign else .notANumber
        else if unpackExponent (bitsOf x) = 0#_ then
          if h : unpackMantissa (bitsOf x) = 0#_ then .zero sign else subnormal h
        else normal) ∧
      ((∀ s, normal ≠ .zero s) ∧ ∀ h s, subnormal h ≠ .zero s) ∧
      normal.isFinite = true ∧ ∀ h, (subnormal h).isFinite = true :=
  ⟨_, _, _, rfl, ⟨nofun, nofun⟩, rfl, fun _ => rfl⟩

theorem unpackExponent_ne_of_isFinite (h : x.isFinite = true) :
    unpackExponent (bitsOf x) ≠ -1#_ := by
  intro he
  obtain ⟨sign, normal, subnormal, hu, -⟩ := unpack_eq x
  have hx : x.isFinite = (UnpackedFloat.unpack .binary64 (bitsOf x)).isFinite := rfl
  rw [hx, hu, if_pos he] at h
  split at h <;> cases h

/-- A finite number has an exact form. -/
theorem binary?_isSome (h : x.isFinite = true) : (binary? x).isSome = true := by
  have hne : x.toBits.toNat / Nat.pow 2 52 % Nat.pow 2 11 ≠ 2047 := by
    intro he
    refine unpackExponent_ne_of_isFinite h (BitVec.eq_of_toNat_eq ?_)
    rw [toNat_unpackExponent, he]
    rfl
  unfold binary?
  rw [if_neg hne]
  split <;> rfl

/-- A finite number has a text. -/
theorem text?_isSome (h : x.isFinite = true) : (text? x).isSome = true := by
  obtain ⟨b, hb⟩ := Option.isSome_iff_exists.1 (binary?_isSome h)
  unfold text?
  rw [hb]
  dsimp only
  split <;> rfl

theorem isFinite_of_unpackExponent_ne (h : unpackExponent (bitsOf x) ≠ -1#_) :
    x.isFinite = true := by
  obtain ⟨sign, normal, subnormal, hu, -, hnormal, hsubnormal⟩ := unpack_eq x
  have hx : x.isFinite = (UnpackedFloat.unpack .binary64 (bitsOf x)).isFinite := rfl
  rw [hx, hu, if_neg h]
  split
  · split
    · rfl
    · exact hsubnormal _
  · exact hnormal

/-- A number has a text if and only if it is finite. -/
theorem isFinite_iff : x.isFinite = true ↔ (text? x).isSome = true := by
  refine ⟨text?_isSome, fun h => isFinite_of_unpackExponent_ne fun he => ?_⟩
  have hbits := congrArg BitVec.toNat he
  rw [toNat_unpackExponent] at hbits
  replace hbits : x.toBits.toNat / Nat.pow 2 52 % Nat.pow 2 11 = 2047 := hbits
  unfold text? binary? at h
  rw [if_pos hbits] at h
  cases h

theorem unpack_eq_zero (h : (x == 0) = true) :
    ∃ sign, UnpackedFloat.unpack .binary64 (bitsOf x) = .zero sign := by
  have hzero : UnpackedFloat.unpack .binary64 (bitsOf 0) = .zero .positive := rfl
  have hx : (x == 0) = (UnpackedFloat.unpack .binary64 (bitsOf x)).beq
      (UnpackedFloat.unpack .binary64 (bitsOf 0)) := rfl
  rw [hx, hzero] at h
  generalize UnpackedFloat.unpack .binary64 (bitsOf x) = u at h
  cases u with
  | zero sign => exact ⟨sign, rfl⟩
  | notANumber => cases h
  | infinity sign => cases sign <;> cases h
  | finite sign m e hm => cases sign <;> cases h

theorem binary?_zero (h : (x == 0) = true) : ∃ sign, binary? x = some ⟨sign, 0, -1074⟩ := by
  obtain ⟨sign, hzero⟩ := unpack_eq_zero h
  obtain ⟨sign', normal, subnormal, hu, ⟨hnormal, hsubnormal⟩, -⟩ := unpack_eq x
  rw [hzero] at hu
  split at hu
  · split at hu <;> cases hu
  · split at hu
    · rename_i hexponent
      split at hu
      · rename_i hmantissa
        have he := toNat_unpackExponent x
        have hm := toNat_unpackMantissa x
        rw [hexponent] at he
        rw [hmantissa] at hm
        unfold binary?
        dsimp only
        rw [← he, ← hm]
        exact ⟨_, rfl⟩
      · exact absurd hu.symm (hsubnormal _ _)
    · exact absurd hu.symm (hnormal _)

/-- Both zeros are written as `0`. -/
theorem text?_zero (h : (x == 0) = true) : text? x = some "0" := by
  obtain ⟨sign, hb⟩ := binary?_zero h
  have hwhole : Binary.isWhole ⟨sign, 0, -1074⟩ = true := by
    simp only [Binary.isWhole, Nat.zero_mod]
    rfl
  have hmagnitude : Binary.magnitude ⟨sign, 0, -1074⟩ = 0 := by
    simp only [Binary.magnitude, Nat.zero_mul, Nat.zero_div, ite_self]
  have hw : exactWhole? x = some 0 := by
    unfold exactWhole? whole?
    rw [hb]
    dsimp only
    rw [hwhole, hmagnitude]
    cases sign <;> rfl
  unfold text?
  rw [hb, hw]
  rfl

end TypedConfig.Number
