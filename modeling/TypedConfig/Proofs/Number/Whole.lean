import Mathlib
import TypedConfig.Number.Read
import TypedConfig.Proofs.Number.Finite

/-! # Whole numbers

A whole number below the bound of exact ones is a float whose exact form is that number, so its
text is the decimal of the number, and its digits are read back as the same float.
-/

namespace TypedConfig.Number

open Float.Model (Format UnpackedFloat totalExponent)
open Float.Model.UnpackedFloat

theorem shiftRight_exact (m k : Nat) :
    ExtendedMantissa.ofMantissaAndAccuracy (m * 2 ^ k) .exact >>> k =
      ExtendedMantissa.ofMantissaAndAccuracy m .exact := by
  induction k generalizing m with
  | zero => rw [Nat.pow_zero, Nat.mul_one]; rfl
  | succ k ih =>
    have hm : m * 2 ^ (k + 1) = m * 2 * 2 ^ k := by
      rw [Nat.pow_succ, Nat.mul_assoc, Nat.mul_comm 2]
    show ExtendedMantissa.shiftRightOne
      (ExtendedMantissa.ofMantissaAndAccuracy (m * 2 ^ (k + 1)) .exact >>> k) = _
    rw [hm, ih]
    simp [ExtendedMantissa.ofMantissaAndAccuracy, ExtendedMantissa.shiftRightOne]

/-- A mantissa of 53 bits at an exponent where numbers are normal. -/
structure IsNormal (m : Nat) (e : Int) : Prop where
  low : 2 ^ 52 ≤ m
  high : m < 2 ^ 53
  least : -1074 ≤ e
  greatest : e ≤ 970

variable {m n : Nat} {e : Int}

namespace IsNormal

theorem pos (h : IsNormal m e) : 0 < m := Nat.lt_of_lt_of_le (by decide) h.low

theorem log2 (h : IsNormal m e) : m.log2 = 52 :=
  (Nat.log2_eq_iff (Nat.ne_of_gt h.pos)).2 ⟨h.low, h.high⟩

theorem log2_scaled (h : IsNormal m e) (k : Nat) : (m * 2 ^ k).log2 = 52 + k := by
  refine (Nat.log2_eq_iff (Nat.ne_of_gt (Nat.mul_pos h.pos (Nat.two_pow_pos k)))).2 ⟨?_, ?_⟩
  · rw [Nat.pow_add]
    exact Nat.mul_le_mul_right _ h.low
  · rw [show 52 + k + 1 = 53 + k by omega, Nat.pow_add]
    exact Nat.mul_lt_mul_of_pos_right h.high (Nat.two_pow_pos k)

theorem targetExponent_scaled (h : IsNormal m e) (k : Nat) :
    Format.binary64.targetExponent (totalExponent (m * 2 ^ k) (e - k)) = e := by
  have hmin : Format.binary64.minExponent = -1074 := by decide
  have hbits : Format.binary64.mantissaBits = 53 := rfl
  have := h.least
  simp only [Format.targetExponent, totalExponent, h.log2_scaled, hmin, hbits]
  omega

theorem shift_scaled (h : IsNormal m e) (k : Nat) :
    shiftToTargetExponent Format.binary64 (m * 2 ^ k) (e - k) .exact =
      (ExtendedMantissa.ofMantissaAndAccuracy m .exact, e) := by
  simp only [shiftToTargetExponent, h.targetExponent_scaled, shiftToExponent]
  rw [show (e - (e - (k : Int))).toNat = k by omega, shiftRight_exact]
  simp only [Prod.mk.injEq, true_and]
  omega

/-- A normal number with zeros behind its mantissa is rounded to itself. -/
theorem round_scaled (h : IsNormal m e) (k : Nat) :
    roundWithAccuracy Format.binary64 .positive (m * 2 ^ k) (e - k) .exact =
      .finite .positive m e h.pos := by
  have hzero := h.shift_scaled 0
  simp only [Nat.pow_zero, Nat.mul_one, Int.natCast_zero, Int.sub_zero] at hzero
  have hround : (ExtendedMantissa.ofMantissaAndAccuracy m .exact).roundedMantissa = m := rfl
  rw [roundWithAccuracy, h.shift_scaled]
  simp only [hround, hzero]
  exact dif_neg (Nat.ne_of_gt h.pos)

/-- The bits of a normal number: its exponent, and its mantissa without the leading bit. -/
theorem toNat_pack (h : IsNormal m e) :
    (pack Format.binary64 (.finite .positive m e h.pos)).toNat =
      (e + 1075).toNat * 2 ^ 52 + (m - 2 ^ 52) := by
  have hl := h.low
  have hh := h.high
  have hleast := h.least
  have hgreatest := h.greatest
  have hexponent : ¬ 2 ^ Format.binary64.exponentBits ≤
      (e + Format.binary64.exponentBias +
        Format.binary64.mantissaBitsWithoutImplicit).toNat + 1 := by
    change ¬ 2048 ≤ (e + 1023 + 52).toNat + 1
    omega
  have hmantissa : m.log2 + 1 = Format.binary64.mantissaBits := by rw [h.log2]; rfl
  simp only [pack, if_neg hexponent, if_pos hmantissa]
  change (0#1 ++ BitVec.ofNat 11 (e + 1023 + 52).toNat ++ BitVec.ofNat 52 m).toNat = _
  rw [BitVec.toNat_append, BitVec.toNat_append, BitVec.toNat_ofNat, BitVec.toNat_ofNat,
    BitVec.toNat_ofNat, ← Nat.shiftLeft_add_eq_or_of_lt (Nat.mod_lt _ (Nat.two_pow_pos 11)),
    ← Nat.shiftLeft_add_eq_or_of_lt (Nat.mod_lt _ (Nat.two_pow_pos 52)), Nat.shiftLeft_eq,
    Nat.shiftLeft_eq]
  have hmod : m % 2 ^ 52 = m - 2 ^ 52 := by omega
  rw [hmod]
  omega

/-- A normal number is read back from its bits. -/
theorem unpack_pack (h : IsNormal m e) :
    unpack Format.binary64 (pack Format.binary64 (.finite .positive m e h.pos)) =
      .finite .positive m e h.pos := by
  have hl := h.low
  have hh := h.high
  have hleast := h.least
  have hgreatest := h.greatest
  have hbits := h.toNat_pack
  generalize pack Format.binary64 (.finite .positive m e h.pos) = b at hbits ⊢
  have hexponent : (unpackExponent b).toNat = (e + 1075).toNat := by
    simp [unpackExponent, Nat.shiftRight_eq_div_pow, hbits]
    omega
  have hmantissa : (unpackMantissa b).toNat = m - 2 ^ 52 := by
    simp [unpackMantissa, hbits]
    omega
  have hsign : unpackSign b = 0#1 := by
    refine BitVec.eq_of_toNat_eq ?_
    simp [unpackSign, Nat.shiftRight_eq_div_pow, hbits]
    omega
  have hne : unpackExponent b ≠ -1#_ := by
    intro he
    rw [he] at hexponent
    change 2047 = _ at hexponent
    omega
  have hne' : unpackExponent b ≠ 0#_ := by
    intro he
    rw [he] at hexponent
    change 0 = _ at hexponent
    omega
  have hm : (1#1 ++ unpackMantissa b).toNat = m := by
    rw [BitVec.toNat_append, ← Nat.shiftLeft_add_eq_or_of_lt (unpackMantissa b).isLt, hmantissa]
    change 1 <<< 52 + _ = _
    rw [Nat.shiftLeft_eq]
    omega
  have he : ((unpackExponent b).toNat : Int) -
      (Format.binary64.exponentBias + Format.binary64.mantissaBitsWithoutImplicit) = e := by
    change ((unpackExponent b).toNat : Int) - (1023 + 52) = e
    omega
  simp only [unpack, if_neg hne, if_neg hne', hsign, hm, he]
  rfl

end IsNormal

/-- The mantissa and the exponent of a whole number that is not zero. -/
theorem isNormal_of_lt (h0 : 0 < n) (hn : n < 2 ^ 53) :
    IsNormal (n * 2 ^ (52 - n.log2)) (n.log2 - 52) := by
  have hlow : 2 ^ n.log2 ≤ n := Nat.log2_self_le (Nat.ne_of_gt h0)
  have hhigh : n < 2 ^ (n.log2 + 1) := Nat.lt_log2_self
  have hle : n.log2 ≤ 52 := Nat.le_of_lt_succ ((Nat.log2_lt (Nat.ne_of_gt h0)).2 hn)
  have hpow : 2 ^ n.log2 * 2 ^ (52 - n.log2) = 2 ^ 52 := by
    rw [← Nat.pow_add, Nat.add_sub_cancel' hle]
  have hpow' : 2 ^ (n.log2 + 1) * 2 ^ (52 - n.log2) = 2 ^ 53 := by
    rw [Nat.pow_succ, Nat.mul_right_comm, hpow, ← Nat.pow_succ]
  refine ⟨?_, ?_, by omega, by omega⟩
  · rw [← hpow]
    exact Nat.mul_le_mul_right _ hlow
  · rw [← hpow']
    exact Nat.mul_lt_mul_of_pos_right hhigh (Nat.two_pow_pos _)

theorem unpacked_ofNat (h0 : 0 < n) (hn : n < 2 ^ 53) :
    UnpackedFloat.ofNat Format.binary64 n =
      .finite .positive (n * 2 ^ (52 - n.log2)) (n.log2 - 52) (isNormal_of_lt h0 hn).pos := by
  have hle : n.log2 ≤ 52 := Nat.le_of_lt_succ ((Nat.log2_lt (Nat.ne_of_gt h0)).2 hn)
  have hmin : Format.binary64.minExponent = -1074 := by decide
  have hbits : Format.binary64.mantissaBits = 53 := rfl
  have htarget : Format.binary64.targetExponent (totalExponent n 0) = n.log2 - 52 := by
    simp only [Format.targetExponent, totalExponent, hmin, hbits]
    omega
  have hshift : (0 - ((n.log2 : Int) - 52)).toNat = 52 - n.log2 := by omega
  have hcompare : compare (n : Int) 0 = .gt := by
    rw [Int.compare_eq_gt]
    omega
  have hround := (isNormal_of_lt h0 hn).round_scaled 0
  simp only [Nat.pow_zero, Nat.mul_one, Int.natCast_zero, Int.sub_zero] at hround
  have hexponent : (0 : Int) - ((52 - n.log2 : Nat) : Int) = n.log2 - 52 := by omega
  simp only [UnpackedFloat.ofNat, ofInt, UnpackedFloat.normalize, hcompare, UnpackedFloat.round,
    Int.toNat_natCast, htarget, decreaseExponent, hshift, Nat.shiftLeft_eq, hexponent]
  exact hround

theorem toBits_ofNat (h0 : 0 < n) (hn : n < 2 ^ 53) :
    (Float.ofNat n).toBits.toBitVec = pack Format.binary64
      (.finite .positive (n * 2 ^ (52 - n.log2)) (n.log2 - 52) (isNormal_of_lt h0 hn).pos) := by
  have hnormal := isNormal_of_lt h0 hn
  have hof : Float.ofNat n = n.toUInt64.toFloat * Float.ofBits 4607182418800017408 := by
    show Float.ofScientific n false 0 = _
    unfold Float.ofScientific
    rw [dif_pos ⟨hn, by decide⟩]
    rfl
  have hone : unpack Format.binary64 (Float.ofBits 4607182418800017408).toBits.toBitVec =
      .finite .positive (2 ^ 52) (-52) (by decide) := by rfl
  have hint : unpack Format.binary64 n.toUInt64.toFloat.toBits.toBitVec =
      .finite .positive (n * 2 ^ (52 - n.log2)) (n.log2 - 52) hnormal.pos := by
    have hsmall : n.toUInt64.toNat = n := by
      simp only [Nat.toUInt64_eq, UInt64.toNat_ofNat']
      omega
    show unpack Format.binary64 (pack Format.binary64
      (UnpackedFloat.ofNat Format.binary64 n.toUInt64.toNat)) = _
    rw [hsmall, unpacked_ofNat h0 hn, hnormal.unpack_pack]
  have hmul (x y : Float) : (x * y).toBits.toBitVec = pack Format.binary64
      (mul Format.binary64 (unpack Format.binary64 x.toBits.toBitVec)
        (unpack Format.binary64 y.toBits.toBitVec)) := rfl
  rw [hof, hmul, hone, hint]
  show pack Format.binary64 (roundWithAccuracy Format.binary64 .positive
    (n * 2 ^ (52 - n.log2) * 2 ^ 52) (n.log2 - 52 + -52) .exact) = _
  rw [show ((n.log2 : Int) - 52 + -52) = n.log2 - 52 - (52 : Nat) by omega, hnormal.round_scaled]

/-- The exact form of a whole number. -/
theorem binary?_ofNat (h0 : 0 < n) (hn : n < 2 ^ 53) :
    binary? (Float.ofNat n) = some ⟨false, n * 2 ^ (52 - n.log2), n.log2 - 52⟩ := by
  have h := isNormal_of_lt h0 hn
  have hl := h.low
  have hh := h.high
  have hleast := h.least
  have hgreatest := h.greatest
  have hbits : (Float.ofNat n).toBits.toNat = _ :=
    (congrArg BitVec.toNat (toBits_ofNat h0 hn)).trans h.toNat_pack
  generalize n * 2 ^ (52 - n.log2) = m at *
  generalize (n.log2 : Int) - 52 = e at *
  have hpow : Nat.pow 2 52 = 4503599627370496 := rfl
  have hpow' : Nat.pow 2 63 = 9223372036854775808 := rfl
  have hpow'' : Nat.pow 2 11 = 2048 := rfl
  unfold binary?
  simp only [hbits, hpow, hpow', hpow'']
  rw [if_neg (by omega), if_neg (by omega)]
  simp only [Option.some.injEq, Binary.mk.injEq, decide_eq_false_iff_not]
  omega

theorem whole?_zero : whole? (Float.ofNat 0) = some 0 := by
  have hz : (Float.ofNat 0 == 0) = true := rfl
  obtain ⟨sign, hb⟩ := binary?_zero hz
  have hwhole : Binary.isWhole ⟨sign, 0, -1074⟩ = true := by
    simp only [Binary.isWhole, Nat.zero_mod]
    rfl
  have hmagnitude : Binary.magnitude ⟨sign, 0, -1074⟩ = 0 := by
    simp only [Binary.magnitude, Nat.zero_mul, Nat.zero_div, ite_self]
  unfold whole?
  rw [hb]
  dsimp only
  rw [hwhole, hmagnitude]
  cases sign <;> rfl

theorem whole?_ofNat (hn : n < 2 ^ 53) : whole? (Float.ofNat n) = some (n : Int) := by
  rcases Nat.eq_zero_or_pos n with rfl | h0
  · exact whole?_zero
  · have hle : n.log2 ≤ 52 := Nat.le_of_lt_succ ((Nat.log2_lt (Nat.ne_of_gt h0)).2 hn)
    have hshift : ((n.log2 : Int) - 52).natAbs = 52 - n.log2 := by omega
    have hpow : 0 < Nat.pow 2 (52 - n.log2) := Nat.two_pow_pos _
    have hwhole : Binary.isWhole ⟨false, n * 2 ^ (52 - n.log2), n.log2 - 52⟩ = true := by
      simp only [Binary.isWhole, hshift, Bool.or_eq_true, decide_eq_true_eq, beq_iff_eq]
      exact .inr (Nat.mul_mod_left n _)
    have hmagnitude : Binary.magnitude ⟨false, n * 2 ^ (52 - n.log2), n.log2 - 52⟩ = n := by
      unfold Binary.magnitude
      split
      · rename_i h
        have hlog : n.log2 = 52 := by
          dsimp only at h
          omega
        simp [hlog]
      · dsimp only
        rw [hshift]
        exact Nat.mul_div_cancel n hpow
    unfold whole?
    rw [binary?_ofNat h0 hn]
    dsimp only
    rw [hwhole, hmagnitude]
    rfl

/-- A whole number below the bound is exact. -/
theorem exactWhole?_ofNat (hn : n < 2 ^ 53) : exactWhole? (Float.ofNat n) = some (n : Int) := by
  have hbound : decide ((n : Int).natAbs < exactBound) = true := decide_eq_true hn
  rw [exactWhole?, whole?_ofNat hn, Option.filter_some, if_pos hbound]

/-- The text of a number that is an exact whole number is the decimal of that number. -/
theorem text?_of_exactWhole? {x : Float} {z : Int} (h : exactWhole? x = some z) :
    text? x = some (toString z) := by
  have hbinary : ∃ b, binary? x = some b := by
    rw [exactWhole?, Option.filter_eq_some_iff] at h
    have hwhole := h.1
    unfold whole? at hwhole
    split at hwhole
    · exact ⟨_, ‹_›⟩
    · cases hwhole
  obtain ⟨b, hb⟩ := hbinary
  unfold text?
  rw [hb, h]

/-- The text of a whole number is its decimal. -/
theorem stringText_ofNat (hn : n < 2 ^ 53) : stringText (Float.ofNat n) = toString n := by
  rw [stringText, text?_of_exactWhole? (exactWhole?_ofNat hn)]
  rfl

/-- The digits of a whole number are read back as it. -/
theorem ofDecimal_toDigits (n : Nat) :
    ofDecimal (Nat.toDigits 10 n) [] 0 = Float.ofNat n := by
  have hdigits : ofDigits (Nat.toDigits 10 n) = n :=
    Nat.ofDigitChars_eq_foldl.symm.trans Nat.ofDigitChars_ten_toDigits
  show Float.ofScientific (ofDigits (Nat.toDigits 10 n ++ [])) false 0 = _
  rw [List.append_nil, hdigits]
  rfl

end TypedConfig.Number
