import TypedConfig.Proofs.Number.Negation
import TypedConfig.Proofs.Number.Whole

/-! # Exact whole numbers

A finite number is determined by its exact form, and negating it turns the sign of that form over.
So a number that is a whole number below the bound of exact ones is the float of that number or the
negated float of its magnitude, unless it is the negative zero.
-/

namespace TypedConfig.Number

open Float.Model (Format)
open Float.Model.UnpackedFloat

variable {x y : Float} {b : Binary}

def signBit (x : Float) : Bool := decide (unpackSign (bitsOf x) = 1#1)

theorem signBit_eq (x : Float) : signBit x = decide (Nat.pow 2 63 ≤ x.toBits.toNat) := by
  have hlt : x.toBits.toNat < 2 ^ 64 := x.toBits.toNat_lt
  have hsign : (unpackSign (bitsOf x)).toNat = x.toBits.toNat / 2 ^ 63 := by
    simp [unpackSign, bitsOf, Nat.shiftRight_eq_div_pow]
    omega
  have hpow : Nat.pow 2 63 = 2 ^ 63 := rfl
  rw [signBit, decide_eq_decide, ← BitVec.toNat_inj, hsign, hpow]
  change _ = 1 ↔ _
  omega

/-- The exact form, read off the three parts of a number. -/
theorem binary?_eq (x : Float) :
    binary? x =
      if (unpackExponent (bitsOf x)).toNat = 2047 then none
      else if (unpackExponent (bitsOf x)).toNat = 0 then
        some ⟨signBit x, (unpackMantissa (bitsOf x)).toNat, -1074⟩
      else
        some ⟨signBit x, Nat.pow 2 52 + (unpackMantissa (bitsOf x)).toNat,
          ((unpackExponent (bitsOf x)).toNat : Int) - 1075⟩ := by
  rw [binary?, toNat_unpackExponent, toNat_unpackMantissa, signBit_eq]

/-- Below the normal numbers the exponent is the least; a normal number has all its bits. -/
structure HasForm (x : Float) (b : Binary) : Prop where
  sign : b.negative = signBit x
  least : -1074 ≤ b.exponent
  mantissa : b.mantissa % 2 ^ 52 = (unpackMantissa (bitsOf x)).toNat
  exponent : b.exponent = -1074 ∧ b.mantissa < 2 ^ 52 ∧ (unpackExponent (bitsOf x)).toNat = 0 ∨
    2 ^ 52 ≤ b.mantissa ∧ b.mantissa < 2 ^ 53 ∧
      ((unpackExponent (bitsOf x)).toNat : Int) = b.exponent + 1075

theorem hasForm_of_binary? (h : binary? x = some b) : HasForm x b := by
  have hmantissa : (unpackMantissa (bitsOf x)).toNat < 2 ^ 52 := (unpackMantissa (bitsOf x)).isLt
  have hpow : Nat.pow 2 52 = 2 ^ 52 := rfl
  rw [binary?_eq] at h
  split at h
  · cases h
  · split at h
    · cases h
      exact ⟨rfl, Int.le_refl _, Nat.mod_eq_of_lt hmantissa, .inl ⟨rfl, hmantissa, ‹_›⟩⟩
    · cases h
      constructor <;> dsimp only <;> omega

theorem eq_of_bitsOf_eq (h : bitsOf x = bitsOf y) : x = y := by
  obtain ⟨⟨bits, hx⟩⟩ := x
  obtain ⟨⟨bits', hy⟩⟩ := y
  obtain rfl : bits = bits' := UInt64.toBitVec_inj.1 h
  rfl

/-- Only one number has a given exact form. -/
theorem eq_of_binary?_eq (hx : binary? x = some b) (hy : binary? y = some b) : x = y := by
  have fx := hasForm_of_binary? hx
  have fy := hasForm_of_binary? hy
  have hexponent : unpackExponent (bitsOf x) = unpackExponent (bitsOf y) := by
    apply BitVec.eq_of_toNat_eq
    rcases fx.exponent with ⟨-, hm, h⟩ | ⟨hm, -, h⟩ <;>
      rcases fy.exponent with ⟨-, hm', h'⟩ | ⟨hm', -, h'⟩ <;> omega
  have hmantissa : unpackMantissa (bitsOf x) = unpackMantissa (bitsOf y) :=
    BitVec.eq_of_toNat_eq (fx.mantissa.symm.trans fy.mantissa)
  have hsign : unpackSign (bitsOf x) = unpackSign (bitsOf y) := by
    have hbit := fx.sign.symm.trans fy.sign
    rw [signBit, signBit, decide_eq_decide] at hbit
    generalize unpackSign (bitsOf x) = s at hbit ⊢
    generalize unpackSign (bitsOf y) = s' at hbit ⊢
    revert s s'
    decide
  apply eq_of_bitsOf_eq
  rw [← packComponents_parts (bitsOf x), hsign, hexponent, hmantissa, packComponents_parts]

/-- Negating a finite number turns the sign of its exact form over. -/
theorem binary?_neg (h : binary? x = some b) :
    binary? (-x) = some { b with negative := !b.negative } := by
  have hfinite : unpackExponent (bitsOf x) ≠ -1#_ := by
    intro he
    rw [binary?_eq, he] at h
    cases h
  have hbits : bitsOf (-x) = packComponents .binary64 (-.ofBitVec (unpackSign (bitsOf x)))
      (unpackExponent (bitsOf x)) (unpackMantissa (bitsOf x)) :=
    pack_neg_unpack fun he => absurd he hfinite
  have hsign : signBit (-x) = !signBit x := by
    rw [signBit, signBit, hbits, unpackSign_packComponents]
    generalize unpackSign (bitsOf x) = s
    revert s
    decide
  rw [binary?_eq] at h ⊢
  rw [hbits, unpackExponent_packComponents, unpackMantissa_packComponents, hsign]
  split at h
  · cases h
  · rename_i hmax
    rw [if_neg hmax]
    split at h
    · rename_i hleast
      cases h
      rw [if_pos hleast]
    · rename_i hleast
      cases h
      rw [if_neg hleast]

variable {n : Nat}

theorem log2_eq_of_two_pow_mul {k n : Nat} (hlow : 2 ^ 52 ≤ 2 ^ k * n)
    (hhigh : 2 ^ k * n < 2 ^ 53) : n ≠ 0 ∧ k ≤ 52 ∧ n.log2 = 52 - k := by
  have hn : n ≠ 0 := by
    rintro rfl
    omega
  have hk : 2 ^ k < 2 ^ 53 :=
    (Nat.le_mul_of_pos_right _ (Nat.pos_of_ne_zero hn)).trans_lt hhigh
  have hle : k ≤ 52 := Nat.le_of_lt_succ ((Nat.pow_lt_pow_iff_right (by decide)).1 hk)
  refine ⟨hn, hle, (Nat.log2_eq_iff hn).2 ⟨?_, ?_⟩⟩
  · rw [← Nat.mul_le_mul_left_iff (Nat.two_pow_pos k), ← Nat.pow_add, Nat.add_sub_cancel' hle]
    exact hlow
  · rw [← Nat.mul_lt_mul_left (Nat.two_pow_pos k), ← Nat.pow_add, ← Nat.add_assoc,
      Nat.add_sub_cancel' hle]
    exact hhigh

/-- The exact form of a whole number below the bound. -/
theorem eq_of_magnitude (h : HasForm x b) (hwhole : b.isWhole = true) (hn : b.magnitude < 2 ^ 53) :
    b = ⟨b.negative, 0, -1074⟩ ∨ 0 < b.magnitude ∧
      b = ⟨b.negative, b.magnitude * 2 ^ (52 - b.magnitude.log2), b.magnitude.log2 - 52⟩ := by
  obtain ⟨negative, m, e⟩ := b
  obtain ⟨-, -, -, hform⟩ := h
  dsimp only at hform
  by_cases he : 0 ≤ e
  · -- Only a normal number has an exponent that is not negative, and then it is zero.
    right
    obtain ⟨hlow, hhigh, -⟩ := hform.resolve_left fun h => by omega
    obtain ⟨k, rfl⟩ := Int.eq_ofNat_of_zero_le he
    have hmagnitude : Binary.magnitude ⟨negative, m, k⟩ = 2 ^ k * m :=
      (if_pos he).trans (Nat.mul_comm ..)
    rw [hmagnitude] at hn ⊢
    have hk : k ≤ 0 := by
      by_contra hk
      have htwo : 2 ^ 1 ≤ 2 ^ k := Nat.pow_le_pow_right (by decide) (Nat.lt_of_not_le hk)
      have := Nat.mul_le_mul htwo hlow
      omega
    obtain rfl := Nat.le_zero.1 hk
    have hlog : m.log2 = 52 := (Nat.log2_eq_iff (by omega)).2 ⟨hlow, hhigh⟩
    have hm : 0 < m := by omega
    simpa [hlog] using hm
  · obtain ⟨k, rfl⟩ : ∃ k : Nat, e = -k := ⟨e.natAbs, by omega⟩
    have hmod : m % 2 ^ k = 0 := by
      have hnot : decide (0 ≤ -(k : Int)) = false := decide_eq_false he
      rw [Binary.isWhole, hnot, Bool.false_or, beq_iff_eq, Int.natAbs_neg] at hwhole
      exact hwhole
    obtain ⟨n, rfl⟩ := Nat.dvd_of_mod_eq_zero hmod
    have hmagnitude : Binary.magnitude ⟨negative, 2 ^ k * n, -k⟩ = n := by
      rw [Binary.magnitude, if_neg he, Int.natAbs_neg]
      exact Nat.mul_div_cancel_left n (Nat.two_pow_pos k)
    rw [hmagnitude]
    rcases hform with ⟨hk, hsmall, -⟩ | ⟨hlow, hhigh, -⟩
    · -- A number below the normal ones is whole only if it is zero.
      left
      have hpow : 2 ^ 52 ≤ 2 ^ k := Nat.pow_le_pow_right (by decide) (by omega)
      obtain rfl : n = 0 := by
        by_contra hn0
        have := Nat.le_mul_of_pos_right (2 ^ k) (Nat.pos_of_ne_zero hn0)
        omega
      rw [hk, Nat.mul_zero]
    · right
      obtain ⟨hn0, hk, hlog⟩ := log2_eq_of_two_pow_mul hlow hhigh
      refine ⟨Nat.pos_of_ne_zero hn0, ?_⟩
      rw [hlog, Nat.sub_sub_self hk, Nat.mul_comm]
      simp only [Binary.mk.injEq, true_and]
      omega

/-- A number has a whole value just if its exact form does, which has that value. -/
theorem whole?_eq_some_iff {z : Int} :
    whole? x = some z ↔ ∃ b, binary? x = some b ∧ b.isWhole = true ∧
      z = if b.negative then -(b.magnitude : Int) else b.magnitude := by
  unfold whole?
  constructor
  · intro h
    split at h
    · rename_i b hb
      split at h
      · exact ⟨b, hb, ‹_›, (Option.some.inj h).symm⟩
      · cases h
    · cases h
  · rintro ⟨b, hb, hwhole, rfl⟩
    rw [hb]
    exact if_pos hwhole

theorem binary?_ofNat_zero : binary? (Float.ofNat 0) = some ⟨false, 0, -1074⟩ := rfl

/-- Whole numbers below the bound have an exact form without a sign. -/
theorem exists_binary?_ofNat (hn : n < 2 ^ 53) :
    ∃ b, binary? (Float.ofNat n) = some b ∧ b.negative = false ∧ b.isWhole = true ∧
      b.magnitude = n := by
  have hform : ∃ b, binary? (Float.ofNat n) = some b ∧ b.negative = false := by
    rcases Nat.eq_zero_or_pos n with rfl | h0
    · exact ⟨_, binary?_ofNat_zero, rfl⟩
    · exact ⟨_, binary?_ofNat h0 hn, rfl⟩
  obtain ⟨b, hb, hsign⟩ := hform
  obtain ⟨b', hb', hwhole, hvalue⟩ := whole?_eq_some_iff.1 (whole?_ofNat hn)
  obtain rfl : b = b' := Option.some.inj (hb.symm.trans hb')
  rw [hsign] at hvalue
  exact ⟨b, hb, hsign, hwhole, (Int.ofNat_inj.1 hvalue).symm⟩

theorem signBit_ofNat (hn : n < 2 ^ 53) : signBit (Float.ofNat n) = false := by
  obtain ⟨b, hb, hsign, -⟩ := exists_binary?_ofNat hn
  exact (hasForm_of_binary? hb).sign.symm.trans hsign

theorem signBit_neg_ofNat (hn : n < 2 ^ 53) : signBit (-Float.ofNat n) = true := by
  obtain ⟨b, hb, hsign, -⟩ := exists_binary?_ofNat hn
  rw [← (hasForm_of_binary? (binary?_neg hb)).sign]
  simp [hsign]

/-- A negated whole number is exact as well. -/
theorem exactWhole?_neg_ofNat (hn : n < 2 ^ 53) :
    exactWhole? (-Float.ofNat n) = some (-(n : Int)) := by
  obtain ⟨b, hb, hsign, hwhole, hmagnitude⟩ := exists_binary?_ofNat hn
  have hneg : whole? (-Float.ofNat n) = some (-(n : Int)) := by
    refine whole?_eq_some_iff.2 ⟨_, binary?_neg hb, hwhole, ?_⟩
    have hmagnitude' : Binary.magnitude { b with negative := !b.negative } = n := hmagnitude
    rw [hmagnitude', hsign]
    rfl
  have hbound : decide ((-(n : Int)).natAbs < exactBound) = true := by
    rw [Int.natAbs_neg]
    exact decide_eq_true hn
  rw [exactWhole?, hneg, Option.filter_some, if_pos hbound]

/-- A number whose exact form is whole and below the bound is the float of its magnitude, or the
negated float if the form has a sign. -/
theorem eq_of_isWhole (hb : binary? x = some b) (hwhole : b.isWhole = true)
    (hn : b.magnitude < 2 ^ 53) :
    x = if b.negative then -Float.ofNat b.magnitude else Float.ofNat b.magnitude := by
  have hof : binary? (Float.ofNat b.magnitude) = some { b with negative := false } := by
    rcases eq_of_magnitude (hasForm_of_binary? hb) hwhole hn with hzero | ⟨hpos, hform⟩
    · have hmagnitude : b.magnitude = 0 := by
        rw [hzero, Binary.magnitude, Nat.zero_mul, Nat.zero_div, ite_self]
      rw [hmagnitude, hzero]
      exact binary?_ofNat_zero
    · rw [binary?_ofNat hpos hn]
      exact congrArg some (congrArg (fun b : Binary => { b with negative := false }) hform).symm
  split
  · rename_i hsign
    refine eq_of_binary?_eq hb ((binary?_neg hof).trans (congrArg some ?_))
    exact congrArg (fun sign => { b with negative := sign }) hsign.symm
  · rename_i hsign
    refine eq_of_binary?_eq hb (hof.trans (congrArg some ?_))
    exact congrArg (fun sign => { b with negative := sign }) (Bool.not_eq_true _ ▸ hsign).symm

/-- A number that is a whole number below the bound is the float of that number or, below zero, the
negated float of its magnitude. Only the negative zero is neither. -/
theorem eq_ofNat_or_eq_neg {z : Int} (h : exactWhole? x = some z) (hx : x ≠ -Float.ofNat 0) :
    ∃ n : Nat, n < 2 ^ 53 ∧
      (z = n ∧ x = Float.ofNat n ∨ 0 < n ∧ z = -n ∧ x = -Float.ofNat n) := by
  rw [exactWhole?, Option.filter_eq_some_iff, decide_eq_true_eq] at h
  obtain ⟨hvalue, hz⟩ := h
  obtain ⟨b, hb, hwhole, rfl⟩ := whole?_eq_some_iff.1 hvalue
  have hsmall : b.magnitude < 2 ^ 53 := by
    have hbound : exactBound = 2 ^ 53 := rfl
    split at hz <;> omega
  have hx' := eq_of_isWhole hb hwhole hsmall
  refine ⟨b.magnitude, hsmall, ?_⟩
  split at hx'
  · right
    rw [if_pos ‹_›]
    refine ⟨Nat.pos_of_ne_zero fun hzero => hx ?_, rfl, hx'⟩
    rwa [hzero] at hx'
  · left
    rw [if_neg ‹_›]
    exact ⟨rfl, hx'⟩

end TypedConfig.Number
