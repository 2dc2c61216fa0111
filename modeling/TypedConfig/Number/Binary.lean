/-! # Finite numbers as binary fractions

A finite double-precision number is a sign, a whole number and a power of two. Whether it is
whole and which whole number it is are read off that form in exact arithmetic.
-/

namespace TypedConfig.Number

/-- The number `± mantissa · 2 ^ exponent`. -/
structure Binary where
  negative : Bool
  mantissa : Nat
  exponent : Int
deriving DecidableEq, Repr

/-- The exact form of a finite number. -/
def binary? (x : Float) : Option Binary :=
  let bits := x.toBits.toNat
  let sign := decide (Nat.pow 2 63 ≤ bits)
  let biased : Nat := bits / Nat.pow 2 52 % Nat.pow 2 11
  let fraction : Nat := bits % Nat.pow 2 52
  if biased = 2047 then none
  else if biased = 0 then some ⟨sign, fraction, -1074⟩
  else some ⟨sign, Nat.pow 2 52 + fraction, (biased : Int) - 1075⟩

namespace Binary

def isWhole (b : Binary) : Bool :=
  decide (0 ≤ b.exponent) || b.mantissa % Nat.pow 2 b.exponent.natAbs == 0

def magnitude (b : Binary) : Nat :=
  if 0 ≤ b.exponent then b.mantissa * Nat.pow 2 b.exponent.toNat
  else b.mantissa / Nat.pow 2 b.exponent.natAbs

end Binary

/-- The whole number that a number is, if it is one. -/
def whole? (x : Float) : Option Int :=
  match binary? x with
  | some b => if b.isWhole then some (if b.negative then -(b.magnitude : Int) else b.magnitude)
    else none
  | none => none

/-- Whole numbers are exact below this bound. -/
def exactBound : Nat := Nat.pow 2 53

/-- The whole number that a number is, if it is one of magnitude below `exactBound`. -/
def exactWhole? (x : Float) : Option Int :=
  (whole? x).filter fun n => decide (n.natAbs < exactBound)

/-- The last whole number that is not an index. -/
def indexBound : Nat := 4294967295

/-- The index that a number denotes: a whole number from zero below `indexBound`. -/
def index? (x : Float) : Option Nat :=
  match whole? x with
  | some n => if 0 ≤ n ∧ n < indexBound then some n.toNat else none
  | none => none

end TypedConfig.Number
