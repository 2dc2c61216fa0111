import TypedConfig.Operation
import TypedConfig.Value
import TypedConfig.ValuePath

/-! # Data of programs

What expressions evaluate to: values, and beside them the null, the undefined and functions, which
no document can hold.
-/

namespace TypedConfig

inductive Datum
  | string (value : String)
  | number (value : Float)
  | boolean (value : Bool)
  | null
  | undefined
  | sentinel (value : Sentinel)
  | array (items : List Datum)
  | object (fields : List (String × Datum))
  | function (params : List Ident) (body : Expr) (captured : List (List (String × Datum)))

/-- The arguments of a function, by the names of its parameters. -/
abbrev Frame := Entries Datum

namespace Datum

instance : Inhabited Datum := ⟨undefined⟩

/-- The scalar that a datum is, a constant counting as its literal. -/
def scalar? : Datum → Option Scalar
  | string v => some (.string v)
  | number v => some (.number v)
  | boolean v => some (.boolean v)
  | sentinel c => some c.literal
  | _ => none

def text? (d : Datum) : Option String :=
  match d.scalar? with
  | some (.string v) => some v
  | _ => none

def number? (d : Datum) : Option Float :=
  match d.scalar? with
  | some (.number v) => some v
  | _ => none

def isText (d : Datum) : Bool := d.text?.isSome

/-- Whether a datum counts as true: by its scalar, or else unless it is null or undefined. -/
def truthy : Datum → Bool
  | null | undefined => false
  | d => (d.scalar?.map Scalar.truthy).getD true

/-- The kind of datum as error messages name it. -/
def kindName : Datum → String
  | string _ => "string"
  | number _ => "number"
  | boolean _ => "boolean"
  | null => "null"
  | undefined => "undefined"
  | sentinel _ => "constant"
  | array _ => "array"
  | object _ => "object"
  | function .. => "function"

/-- Equality of data: of scalars by value, of null and undefined each with itself. -/
def equals (a b : Datum) : Bool :=
  match a, b with
  | null, null | undefined, undefined => true
  | a, b =>
    match a.scalar?, b.scalar? with
    | some x, some y => x.equals y
    | _, _ => false

mutual

/-- The value that a datum at a path is, if every part of it can stand in a document. -/
def toValue (path : String) : Datum → Except Unserializable Value
  | string v => return .scalar (.string v)
  | number v => return .scalar (.number v)
  | boolean v => return .scalar (.boolean v)
  | sentinel c => return .sentinel c
  | array items => do return .sequence (← toItems path 0 items)
  | object fields => do return .record (← toEntries path fields)
  | null => throw ⟨path, "null"⟩
  | undefined => throw ⟨path, "undefined"⟩
  | function .. => throw ⟨path, "function"⟩

def toItems (path : String) (i : Nat) : List Datum → Except Unserializable (List Value)
  | [] => return []
  | d :: ds => do
    let v ← toValue (ValuePath.append path (.index i)) d
    return v :: (← toItems path (i + 1) ds)

def toEntries (path : String) : List (String × Datum) →
    Except Unserializable (List (String × Value))
  | [] => return []
  | (key, d) :: ds => do
    let v ← toValue (ValuePath.append path (.key key)) d
    return (key, v) :: (← toEntries path ds)

end

end Datum

end TypedConfig
