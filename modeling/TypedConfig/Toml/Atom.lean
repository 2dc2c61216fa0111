import TypedConfig.Number.Read
import TypedConfig.Toml.Table

/-! # Values of TOML without quotes or brackets

Truth values, integers in four bases, numbers with a fraction or an exponent, and dates and
times.
-/

namespace TypedConfig.Toml

/-- The digits of a number, between which single underscores may stand. -/
def digits (isDigit : Char → Bool) : List Char → Option (List Char)
  | [] => none
  | [c] => if isDigit c then some [c] else none
  | c :: '_' :: cs => if isDigit c then (digits isDigit cs).map (c :: ·) else none
  | c :: cs => if isDigit c then (digits isDigit cs).map (c :: ·) else none

/-- The digits of a whole number; a zero does not lead others. -/
def wholeDigits (cs : List Char) : Option (List Char) :=
  match digits Char.isDigit cs with
  | some ('0' :: _ :: _) => none
  | ds => ds

/-- The characters after a sign, and whether that is a minus. -/
def dropSign : List Char → Bool × List Char
  | '-' :: cs => (true, cs)
  | '+' :: cs => (false, cs)
  | cs => (false, cs)

def isDigitBelow (base : Nat) (c : Char) : Bool := decide (Number.digitValue c < base) && c.isDigit

def ofDigitsIn (base : Nat) (ds : List Char) : Nat :=
  ds.foldl (fun n c => base * n + (Number.hexValue? c).getD 0) 0

def integer? (cs : List Char) : Option Int :=
  match cs with
  | '0' :: 'x' :: ds => (digits (fun c => (Number.hexValue? c).isSome) ds).map (ofDigitsIn 16 ·)
  | '0' :: 'o' :: ds => (digits (isDigitBelow 8) ds).map (ofDigitsIn 8 ·)
  | '0' :: 'b' :: ds => (digits (isDigitBelow 2) ds).map (ofDigitsIn 2 ·)
  | _ =>
    let (isNegative, ds) := dropSign cs
    (wholeDigits ds).map fun ds =>
      let n : Int := Number.ofDigits ds
      if isNegative then -n else n

/-- The characters before and after the first of a kind, if there is one. -/
def cutAt (p : Char → Bool) (cs : List Char) : List Char × Option (List Char) :=
  match cs.dropWhile fun c => !p c with
  | [] => (cs, none)
  | _ :: rest => (cs.takeWhile fun c => !p c, some rest)

/-- Whether characters are a number with a fraction or an exponent, an infinity or no number. -/
def isDecimal (cs : List Char) : Bool :=
  let (_, cs) := dropSign cs
  let (mantissa, exponent) := cutAt (fun c => c == 'e' || c == 'E') cs
  let (whole, fraction) := cutAt (· == '.') mantissa
  cs == "inf".toList || cs == "nan".toList ||
    ((fraction.isSome || exponent.isSome) && (wholeDigits whole).isSome &&
      fraction.all (fun ds => (digits Char.isDigit ds).isSome) &&
      exponent.all (fun ds => (digits Char.isDigit (dropSign ds).2).isSome))

/-- The number that a given number of digits denote. -/
def fixed? (width : Nat) (cs : List Char) : Option Nat :=
  if cs.length = width ∧ cs.all Char.isDigit then some (Number.ofDigits cs) else none

def daysIn (year month : Nat) : Nat :=
  if month = 2 then
    if year % 4 = 0 ∧ (year % 100 ≠ 0 ∨ year % 400 = 0) then 29 else 28
  else if month = 4 ∨ month = 6 ∨ month = 9 ∨ month = 11 then 30
  else 31

def isDate (cs : List Char) : Bool :=
  match fixed? 4 (cs.take 4), fixed? 2 ((cs.drop 5).take 2), fixed? 2 (cs.drop 8) with
  | some year, some month, some day =>
    cs[4]? == some '-' && cs[7]? == some '-' && decide (1 ≤ month) && decide (month ≤ 12) &&
      decide (1 ≤ day) && decide (day ≤ daysIn year month)
  | _, _, _ => false

/-- Whether characters are the hours and minutes of a time. -/
def isClock (cs : List Char) : Bool :=
  match fixed? 2 (cs.take 2), fixed? 2 (cs.drop 3) with
  | some hour, some minute => cs[2]? == some ':' && decide (hour < 24) && decide (minute < 60)
  | _, _ => false

/-- Whether characters are the seconds of a time, after its minutes. -/
def areSeconds : List Char → Bool
  | [] => true
  | c :: cs =>
    let (seconds, fraction) := cutAt (· == '.') cs
    c == ':' && (fixed? 2 seconds).any (fun n => decide (n ≤ 60)) &&
      fraction.all fun ds => !ds.isEmpty && ds.all Char.isDigit

def isTime (cs : List Char) : Bool := isClock (cs.take 5) && areSeconds (cs.drop 5)

/-- Whether characters are the offset of a time from the universal one. -/
def isOffset : List Char → Bool
  | [] => true
  | [c] => c == 'Z' || c == 'z'
  | c :: cs => (c == '+' || c == '-') && isClock cs

def isTimeChar (c : Char) : Bool := c.isDigit || c == ':' || c == '.'

def isMoment (cs : List Char) : Bool :=
  isTime cs || isDate cs ||
    (isDate (cs.take 10) && (cs[10]?).any (fun c => c == 'T' || c == 't' || c == ' ') &&
      isTime ((cs.drop 11).takeWhile isTimeChar) && isOffset ((cs.drop 11).dropWhile isTimeChar))

/-- Whether a character ends a value that has no quotes or brackets. -/
def endsAtom (c : Char) : Bool :=
  c == ' ' || c == '\t' || c == '\n' || c == '\r' || c == ',' || c == ']' || c == '\x7d' ||
    c == '#'

/-- The characters of a value without quotes or brackets. A single space may stand between a date
and a time. -/
def atomText (cs : List Char) : List Char × List Char :=
  let front := cs.takeWhile fun c => !endsAtom c
  let rest := cs.dropWhile fun c => !endsAtom c
  match isDate front, rest with
  | true, ' ' :: d :: more =>
    if d.isDigit then
      (front ++ ' ' :: (d :: more).takeWhile (fun c => !endsAtom c),
        (d :: more).dropWhile fun c => !endsAtom c)
    else (front, rest)
  | _, _ => (front, rest)

def atomValue (cs : List Char) : Option Node :=
  if cs = "true".toList then some (.boolean true)
  else if cs = "false".toList then some (.boolean false)
  else
    match integer? cs with
    | some n => some (.integer n)
    | none =>
      if isDecimal cs then some (.decimal (String.ofList cs))
      else if isMoment cs then some (.moment (String.ofList cs))
      else none

def atom (cs : List Char) : Option (Node × List Char) :=
  let (text, rest) := atomText cs
  (atomValue text).map (·, rest)

end TypedConfig.Toml
