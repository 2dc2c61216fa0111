import TypedConfig.Number.Binary
import TypedConfig.Program
import TypedConfig.Text.Blank
import TypedConfig.Text.Case
import TypedConfig.Text.Split
import TypedConfig.Text.Units

/-! # Operations on scalars

What operators and methods compute from numbers and texts, whether they are only known or have
been evaluated.
-/

namespace TypedConfig

/-- The number that an arithmetic operator gives; other operators count as addition. -/
def BinaryOp.compute : BinaryOp → Float → Float → Float
  | subtract, a, b => a - b
  | multiply, a, b => a * b
  | divide, a, b => a / b
  | _, a, b => a + b

/-- The order that `<` tests, and `>` by any other operator. -/
def BinaryOp.compareNumbers (op : BinaryOp) (a b : Float) : Bool :=
  if op = less then decide (a < b) else decide (b < a)

/-- The order that `<` tests, and `>` by any other operator, code point by code point. -/
def BinaryOp.compareTexts (op : BinaryOp) (a b : String) : Bool :=
  if op = less then decide (a < b) else decide (b < a)

def BinaryOp.isOrder : BinaryOp → Bool
  | less | greater => true
  | _ => false

def lengthNumber (n : Nat) : Float := Float.ofNat n

/-- The length of a text as programs see it, in sixteen-bit units. -/
def textLength (s : String) : Float := lengthNumber (Text.units s)

/-- The character of a text at an index that a number denotes. -/
def charAt? (s : String) (x : Float) : Option String :=
  (Number.index? x).bind fun i => (s.toList[i]?).map Char.toString

def textMethod? : String → Option (String → String)
  | "toUpperCase" => some Text.upper
  | "toLowerCase" => some Text.lower
  | "trim" => some Text.trim
  | _ => none

/-- The methods that call a function on each element of an array. -/
inductive Iteration
  | map
  | filter
  | flatMap
deriving DecidableEq, Repr

def Iteration.ofName? : String → Option Iteration
  | "map" => some map
  | "filter" => some filter
  | "flatMap" => some flatMap
  | _ => none

end TypedConfig
