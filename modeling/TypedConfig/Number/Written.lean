import TypedConfig.Number.Shortest

/-! # Written numbers

A finite number is written by its shortest decimal, positionally or with an exponent. A style
fixes where positional writing ends and how whole numbers and exponents look.
-/

namespace TypedConfig.Number

structure Style where
  /-- The positions of the decimal point that are written positionally. -/
  positional : Int → Bool
  /-- Whether a whole number written positionally ends in `.0`. -/
  keepsFraction : Bool
  /-- Whether a positive exponent has a plus sign. -/
  signsExponent : Bool

namespace Style

/-- Positional from `0.0001` to below `10 ^ 16`; exponents bare. -/
def scientific : Style := ⟨fun p => decide (-3 ≤ p) && decide (p ≤ 16), true, false⟩

/-- Positional from `0.00001` to below `10 ^ 16`; exponents signed. -/
def interchange : Style := ⟨fun p => decide (-4 ≤ p) && decide (p ≤ 16), true, true⟩

def plain : Style := ⟨fun _ => true, false, false⟩

/-- Digits with a point after the first `point` of them. -/
def writePositional (s : Style) (d : Decimal) : List Char :=
  if d.point ≤ 0 then
    if d.digits.isEmpty then '0' :: (if s.keepsFraction then ['.', '0'] else [])
    else ['0', '.'] ++ List.replicate d.point.natAbs '0' ++ d.digits
  else
    let p := d.point.toNat
    let whole := d.digits.take p ++ List.replicate (p - d.digits.length) '0'
    match d.digits.drop p with
    | [] => whole ++ (if s.keepsFraction then ['.', '0'] else [])
    | rest => whole ++ '.' :: rest

/-- One digit, a point if more follow, and the exponent. -/
def writeExponent (s : Style) (d : Decimal) : List Char :=
  let e := d.point - 1
  let lead :=
    match d.digits with
    | [] => ['0']
    | [c] => [c]
    | c :: cs => c :: '.' :: cs
  let sign := if e < 0 then ['-'] else if s.signsExponent then ['+'] else []
  lead ++ 'e' :: (sign ++ Nat.toDigits 10 e.natAbs)

def write (s : Style) (b : Binary) : String :=
  let d := shortest b
  let sign := if b.negative then ['-'] else []
  String.ofList (sign ++ if s.positional d.point then s.writePositional d else s.writeExponent d)

end Style

/-- The text of a finite number: whole numbers in full where they are exact, others by their
shortest decimal. -/
def text? (x : Float) : Option String :=
  match binary? x with
  | none => none
  | some b =>
    match exactWhole? x with
    | some n => some (toString n)
    | none => some (Style.scientific.write b)

/-- The number always positional, with words for infinities and for what is not a number. -/
def positionalText (x : Float) : String :=
  match binary? x with
  | some b => Style.plain.write b
  | none => if x.isNaN then "NaN" else if x < 0 then "-inf" else "inf"

def stringText (x : Float) : String :=
  match text? x with
  | some t => t
  | none => if x.isNaN then "NaN" else if x < 0 then "-Infinity" else "Infinity"

/-- The number in a data document; a number that is not finite has none and becomes `null`. -/
def dataText (x : Float) : String :=
  match binary? x with
  | none => "null"
  | some b =>
    match exactWhole? x with
    | some n => toString n
    | none => Style.interchange.write b

end TypedConfig.Number
