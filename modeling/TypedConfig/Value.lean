import TypedConfig.Diagnostic
import TypedConfig.Entries
import TypedConfig.Scalar

/-! # Values

The trees that programs compute and documents hold.
-/

namespace TypedConfig

/-- A scalar, a constant of the schema, a record with its fields in order, or a sequence. -/
inductive Value
  | scalar (value : Scalar)
  | sentinel (value : Sentinel)
  | record (entries : List (String × Value))
  | sequence (items : List Value)

namespace Value

instance : Inhabited Value := ⟨.sequence []⟩

/-- The scalar that a value is, a constant counting as its literal. -/
def scalar? : Value → Option Scalar
  | scalar s => some s
  | sentinel c => some c.literal
  | _ => none

/-- The text that a value is, a constant counting as its literal. -/
def text? (v : Value) : Option String :=
  match v.scalar? with
  | some (.string s) => some s
  | _ => none

def get? : Value → String → Option Value
  | record es, key => Entries.get? es key
  | _, _ => none

def isSentinel : Value → Bool
  | sentinel _ => true
  | _ => false

end Value

/-- A value that no document can hold, and where it stands. -/
structure Unserializable where
  path : String
  reason : String
deriving DecidableEq, Repr

namespace Unserializable

def message (e : Unserializable) : String :=
  s!"value at `{e.path}` cannot be serialized: {e.reason}"

def diagnostic (e : Unserializable) : Diagnostic :=
  { code := "pipetype::value::unserializable"
    message := e.message
    help := some "Only strings, finite numbers, booleans, objects and arrays can be emitted" }

end Unserializable

end TypedConfig
