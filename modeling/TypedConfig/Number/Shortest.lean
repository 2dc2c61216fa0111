import TypedConfig.Number.Binary

/-! # Shortest decimals

The decimal with the fewest digits that reads back as a given number, and of those the one
nearest to it. The numbers that read back form an interval around the number; for each count
of digits the two neighbours of the number on that decimal grid are tested.
-/

namespace TypedConfig.Number

/-- The decimal `0.d₁d₂… · 10 ^ point`. -/
structure Decimal where
  digits : List Char
  point : Int
deriving DecidableEq, Repr

/-- A positive value and its rounding interval, as numerators over one denominator. -/
structure Interval where
  value : Nat
  low : Nat
  high : Nat
  scale : Nat
  closed : Bool

/-- The interval of the reals that round to `m · 2 ^ q`. -/
def interval (m : Nat) (q : Int) : Interval :=
  let narrow := m == Nat.pow 2 52 && decide (-1074 < q)
  let up := Nat.pow 2 q.toNat
  { value := 4 * m * up
    low := (4 * m - if narrow then 1 else 2) * up
    high := (4 * m + 2) * up
    scale := 4 * Nat.pow 2 (-q).toNat
    closed := m % 2 == 0 }

/-- Whether `n · 10 ^ e` lies in the interval. -/
def Interval.contains (i : Interval) (n : Nat) (e : Int) : Bool :=
  let x := n * Nat.pow 10 e.toNat * i.scale
  let d := Nat.pow 10 (-e).toNat
  if i.closed then decide (i.low * d ≤ x) && decide (x ≤ i.high * d)
  else decide (i.low * d < x) && decide (x < i.high * d)

/-- The nearer of the value's neighbours among the multiples of `10 ^ e` that lie in the
interval; the upper one on a tie. -/
def Interval.nearest? (i : Interval) (e : Int) : Option Nat :=
  let num := i.value * Nat.pow 10 (-e).toNat
  let den := i.scale * Nat.pow 10 e.toNat
  let n := num / den
  let below := i.contains n e && n != 0
  let above := i.contains (n + 1) e
  if below && above then some (if 2 * (num % den) < den then n else n + 1)
  else if below then some n
  else if above then some (n + 1)
  else none

/-- The power of ten that is the last place of the integer part written with one digit. -/
def leadingPlace (m : Nat) (q : Int) : Int :=
  let estimate := (((Nat.log2 m : Int) + q) * 30103) / 100000
  let reaches (e : Int) : Bool :=
    decide (Nat.pow 10 e.toNat * Nat.pow 2 (-q).toNat ≤
      m * Nat.pow 2 q.toNat * Nat.pow 10 (-e).toNat)
  if reaches (estimate + 1) then estimate + 1
  else if reaches estimate then estimate
  else estimate - 1

/-- The first grid, from the leading place downward, that has a multiple in the interval. -/
def firstGrid (i : Interval) (e : Int) : Nat → Option (Nat × Int)
  | 0 => none
  | k + 1 =>
    match i.nearest? e with
    | some n => some (n, e)
    | none => firstGrid i (e - 1) k

def dropZeros (ds : List Char) : List Char := (ds.reverse.dropWhile (· == '0')).reverse

/-- The shortest decimal of a finite number's magnitude; no digits for zero. -/
def shortest (b : Binary) : Decimal :=
  if b.mantissa = 0 then ⟨[], 0⟩
  else
    match firstGrid (interval b.mantissa b.exponent) (leadingPlace b.mantissa b.exponent) 18 with
    | some (n, e) =>
      let ds := Nat.toDigits 10 n
      ⟨dropZeros ds, e + ds.length⟩
    | none => ⟨[], 0⟩

end TypedConfig.Number
