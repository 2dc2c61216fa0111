import TypedConfig.Schema.Type

/-! # Type expressions

Types as declarations write them, with the places of the names they refer to. The type that an
expression denotes has its unions put into their one form.
-/

namespace TypedConfig

/-- A name that a type expression refers to, and where. -/
structure Reference where
  name : String
  span : Span
deriving DecidableEq, Repr

inductive TyTerm
  | scalar (kind : ScalarKind)
  | literal (value : Scalar)
  | record (name : Option String) (fields : List (FieldInfo × TyTerm))
  | union (alternatives : List TyTerm)
  | sequence (element : TyTerm) (acceptsSingle : Bool)
  | map (keyName : String) (value : TyTerm)
  | reference (r : Reference)

namespace TyTerm

mutual

def type : TyTerm → Ty
  | scalar k => .scalar k
  | literal v => .literal [v]
  | record name fields => .record name (fieldTypes fields)
  | union ts => .unite (types ts)
  | sequence t single => .sequence t.type single
  | map key t => .map key t.type
  | reference r => .named r.name

def types : List TyTerm → List Ty
  | [] => []
  | t :: ts => t.type :: types ts

def fieldTypes : List (FieldInfo × TyTerm) → List (FieldInfo × Ty)
  | [] => []
  | (info, t) :: fs => (info, t.type) :: fieldTypes fs

end

mutual

/-- The references of an expression, from left to right. -/
def references : TyTerm → List Reference
  | scalar _ | literal _ => []
  | record _ fields => fieldReferences fields
  | union ts => listReferences ts
  | sequence t _ | map _ t => references t
  | reference r => [r]

def listReferences : List TyTerm → List Reference
  | [] => []
  | t :: ts => references t ++ listReferences ts

def fieldReferences : List (FieldInfo × TyTerm) → List Reference
  | [] => []
  | (_, t) :: fs => references t ++ fieldReferences fs

end

def ofAlternatives : List TyTerm → TyTerm
  | [t] => t
  | ts => union ts

end TyTerm

end TypedConfig
