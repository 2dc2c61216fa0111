/-! # Reading numbers

The number nearest to a decimal: a whole part, a fraction and a power of ten.
-/

namespace TypedConfig.Number

def digitValue (c : Char) : Nat := c.toNat - '0'.toNat

def ofDigits (ds : List Char) : Nat := ds.foldl (fun n c => 10 * n + digitValue c) 0

/-- The number nearest to `whole.fraction · 10 ^ exponent`. -/
def ofDecimal (whole fraction : List Char) (exponent : Int) : Float :=
  let e := exponent - fraction.length
  Float.ofScientific (ofDigits (whole ++ fraction)) (decide (e < 0)) e.natAbs

/-- The value of a digit in base sixteen, in either case. -/
def hexValue? (c : Char) : Option Nat :=
  if c.isDigit then some (digitValue c)
  else if 'a' ≤ c ∧ c ≤ 'f' then some (c.toNat - 'a'.toNat + 10)
  else if 'A' ≤ c ∧ c ≤ 'F' then some (c.toNat - 'A'.toNat + 10)
  else none

/-- The natural number that digits in base sixteen denote, given the number before them. -/
def hexAfter (n : Nat) : List Char → Option Nat
  | [] => some n
  | c :: cs =>
    match hexValue? c with
    | some d => hexAfter (16 * n + d) cs
    | none => none

/-- The natural number that one or more digits in base sixteen denote; a plus sign may lead. -/
def ofHex? : List Char → Option Nat
  | [] => none
  | c :: cs => if c = '+' ∧ cs ≠ [] then hexAfter 0 cs else hexAfter 0 (c :: cs)

end TypedConfig.Number
