import TypedConfig.Scalar
import TypedConfig.Source.Span

/-! # Types

The types of configuration values. A union of literals is kept as one literal type, and a union
of one alternative is that alternative.
-/

namespace TypedConfig

/-- What a record type says about a field besides its type. -/
structure FieldInfo where
  name : String
  optional : Bool
  doc : Option String
  span : Span
deriving DecidableEq, Repr

inductive Ty
  | scalar (kind : ScalarKind)
  | literal (values : List Scalar)
  | record (name : Option String) (fields : List (FieldInfo × Ty))
  | union (alternatives : List Ty)
  | sequence (element : Ty) (acceptsSingle : Bool)
  | map (keyName : String) (value : Ty)
  | named (name : String)

abbrev TyFields := List (FieldInfo × Ty)

namespace TyFields

def field? (fs : TyFields) (name : String) : Option (FieldInfo × Ty) :=
  fs.find? fun f => f.1.name == name

def declares (fs : TyFields) (name : String) : Bool := (field? fs name).isSome

def required (fs : TyFields) : TyFields := fs.filter fun f => !f.1.optional

end TyFields

namespace Ty

instance : Inhabited Ty := ⟨.literal []⟩

def admitsLiteral (values : List Scalar) (s : Scalar) : Bool := values.any (·.equals s)

def literals? : Ty → Option (List Scalar)
  | literal values => some values
  | _ => none

/-- The values of types that are all made of literals. -/
def allLiterals? (ts : List Ty) : Option (List Scalar) :=
  (ts.mapM literals?).map List.flatten

/-- Values without repetitions, each at its first place. -/
def distinct (values : List Scalar) : List Scalar :=
  values.foldl (fun kept v => if admitsLiteral kept v then kept else kept ++ [v]) []

/-- The union of alternatives: one alternative is itself, literals become one literal type. -/
def unite : List Ty → Ty
  | [t] => t
  | [] => union []
  | ts =>
    match allLiterals? ts with
    | some values => literal (distinct values)
    | none => union ts

def hasAlternatives : Ty → Bool
  | union _ => true
  | literal values => decide (1 < values.length)
  | _ => false

/-- Field names, an optional one followed by a question mark. -/
def fieldNames (fs : TyFields) : String :=
  ", ".intercalate (fs.map fun f => if f.1.optional then f.1.name ++ "?" else f.1.name)

mutual

def text : Ty → String
  | scalar k => k.name
  | literal values => " | ".intercalate (values.map Scalar.literalText)
  | record (some name) _ => name
  | record none fields => "\x7b " ++ fieldNames fields ++ " \x7d"
  | union ts => " | ".intercalate (texts ts)
  | sequence t true => "OneOrMany<" ++ text t ++ ">"
  | sequence t false => if hasAlternatives t then "(" ++ text t ++ ")[]" else text t ++ "[]"
  | map key t => "\x7b [" ++ key ++ ": string]: " ++ text t ++ " \x7d"
  | named name => name

def texts : List Ty → List String
  | [] => []
  | t :: ts => text t :: texts ts

end

/-- The number of nodes of a type and the types inside it. -/
def size : Ty → Nat
  | scalar _ | literal _ | named _ => 1
  | record _ fields => 1 + sizeFields fields
  | union ts => 1 + sizeList ts
  | sequence t _ | map _ t => 1 + size t
where
  sizeList : List Ty → Nat
    | [] => 0
    | t :: ts => size t + sizeList ts
  sizeFields : List (FieldInfo × Ty) → Nat
    | [] => 0
    | (_, t) :: fs => size t + sizeFields fs

end Ty

end TypedConfig
