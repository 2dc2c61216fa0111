import TypedConfig.Number.Written
import TypedConfig.Text.Quoted

/-! # Scalars -/

namespace TypedConfig

inductive Scalar
  | string (text : String)
  | number (value : Float)
  | boolean (value : Bool)
deriving DecidableEq

inductive ScalarKind
  | string
  | number
  | boolean
deriving DecidableEq, Repr

def ScalarKind.name : ScalarKind → String
  | .string => "string"
  | .number => "number"
  | .boolean => "boolean"

namespace Scalar

instance : Inhabited Scalar := ⟨.boolean false⟩

def kind : Scalar → ScalarKind
  | string _ => .string
  | number _ => .number
  | boolean _ => .boolean

/-- Equality as programs see it: of one kind and equal, where a number that is not a number
differs from all. -/
def equals : Scalar → Scalar → Bool
  | string a, string b => a == b
  | number a, number b => a == b
  | boolean a, boolean b => a == b
  | _, _ => false

/-- The scalar as a literal: texts quoted. -/
def literalText : Scalar → String
  | string s => Text.quoted s
  | number x => (Number.text? x).getD (Number.positionalText x)
  | boolean b => if b then "true" else "false"

def stringText : Scalar → String
  | string s => s
  | number x => Number.stringText x
  | boolean b => if b then "true" else "false"

/-- Empty texts, zero, numbers that are not a number and `false` count as false. -/
def truthy : Scalar → Bool
  | string s => !s.isEmpty
  | number x => !(x == 0) && !x.isNaN
  | boolean b => b

end Scalar

/-- A constant of the schema: a name that stands for a literal. -/
structure Sentinel where
  name : String
  literal : Scalar
deriving DecidableEq, Inhabited

end TypedConfig
