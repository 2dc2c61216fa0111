import TypedConfig.Value
import TypedConfig.ValuePath

/-! # Values that documents can hold

A document can hold a value if every number in it is finite. The check names the first number
that is not, in document order.
-/

namespace TypedConfig.Value

/-- Refuses a scalar that is a number without a text. -/
def checkScalar (path : String) : Scalar → Except Unserializable Unit
  | .number x =>
    if x.isFinite then .ok ()
    else .error ⟨path, "non-finite number " ++ Number.positionalText x⟩
  | _ => .ok ()

mutual

/-- Refuses the first number that is not finite, at the path from the value's own. -/
def checkFinite (path : String) : Value → Except Unserializable Unit
  | scalar s => checkScalar path s
  | sentinel c => checkScalar path c.literal
  | record es => checkEntries path es
  | sequence is => checkItems path 0 is

def checkEntries (path : String) : List (String × Value) → Except Unserializable Unit
  | [] => .ok ()
  | (k, v) :: es => do
    checkFinite (ValuePath.append path (.key k)) v
    checkEntries path es

def checkItems (path : String) (i : Nat) : List Value → Except Unserializable Unit
  | [] => .ok ()
  | v :: vs => do
    checkFinite (ValuePath.append path (.index i)) v
    checkItems path (i + 1) vs

end

end TypedConfig.Value
