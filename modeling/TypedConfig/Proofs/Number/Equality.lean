import Mathlib
import TypedConfig.Scalar

/-! # Equality of numbers

Two numbers are equal if they have the same parts, where the two zeros are equal as well and what
is not a number differs from everything. So equality is transitive, although it is not reflexive.
-/

namespace TypedConfig

namespace Number

open Float.Model (UnpackedFloat)

/-- Numbers that compare as equal have the same parts, up to the sign of a zero. -/
theorem eq_of_compare_eq {a b : UnpackedFloat} (h : a.compare b = some .eq) :
    a = b ∨ (∃ s, a = .zero s) ∧ ∃ s, b = .zero s := by
  cases a with
  | notANumber => cases b <;> cases h
  | zero s =>
    cases b with
    | zero s' => exact .inr ⟨⟨s, rfl⟩, s', rfl⟩
    | notANumber => cases h
    | infinity s' => cases s' <;> cases h
    | finite s' => cases s' <;> cases h
  | infinity s =>
    cases b with
    | infinity s' => cases s <;> cases s' <;> first | exact .inl rfl | cases h
    | _ => cases s <;> cases h
  | finite s m e hm =>
    cases b with
    | finite s' m' e' hm' =>
      have hparts (h : (compare e e').then (compare m m') = .eq) : e = e' ∧ m = m' := by
        rw [Ordering.then_eq_eq] at h
        exact ⟨Std.LawfulEqOrd.eq_of_compare h.1, Std.LawfulEqOrd.eq_of_compare h.2⟩
      left
      cases s <;> cases s'
      · obtain ⟨rfl, rfl⟩ := hparts (by simpa [UnpackedFloat.compare] using h)
        rfl
      · cases h
      · cases h
      · obtain ⟨rfl, rfl⟩ := hparts (by simpa [UnpackedFloat.compare] using h)
        rfl
    | zero s' => cases s <;> cases h
    | notANumber => cases s <;> cases h
    | infinity s' => cases s <;> cases s' <;> cases h

theorem beq_trans {x y z : Float} (hxy : (x == y) = true) (hyz : (y == z) = true) :
    (x == z) = true := by
  have hbeq (a b : Float) :
      (a == b) = (a.toModel.unpack.compare b.toModel.unpack == some .eq) := rfl
  rw [hbeq, beq_iff_eq] at hxy hyz ⊢
  rcases eq_of_compare_eq hxy with h | ⟨⟨s, hx⟩, _, hy⟩
  · rwa [h]
  · rcases eq_of_compare_eq hyz with h | ⟨-, s', hz⟩
    · rwa [← h]
    · rw [hx, hz]
      rfl

end Number

theorem Scalar.equals_trans {a b c : Scalar} (hab : a.equals b = true) (hbc : b.equals c = true) :
    a.equals c = true := by
  cases a with
  | string x =>
    cases b with
    | string y => rwa [beq_iff_eq.1 hab]
    | _ => cases hab
  | number x =>
    cases b with
    | number y =>
      cases c with
      | number z => exact Number.beq_trans hab hbc
      | _ => cases hbc
    | _ => cases hab
  | boolean x =>
    cases b with
    | boolean y => rwa [beq_iff_eq.1 hab]
    | _ => cases hab

end TypedConfig
