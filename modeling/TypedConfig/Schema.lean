import TypedConfig.Schema.Type

/-! # Schemas

A schema holds the declared types and constants in the order of their declaration and the root
binding, the one name that a program gives its value.
-/

namespace TypedConfig

structure TypeDeclaration where
  name : String
  type : Ty
  doc : Option String
  source : String
  span : Span

structure ConstantDeclaration where
  name : String
  value : Scalar
  span : Span

structure RootBinding where
  name : String
  type : Ty
  source : String
  span : Span
deriving Inhabited

structure Schema where
  types : List TypeDeclaration
  constants : List ConstantDeclaration
  root : RootBinding
deriving Inhabited

namespace Schema

def type? (s : Schema) (name : String) : Option TypeDeclaration :=
  s.types.find? fun d => d.name == name

def constant? (s : Schema) (name : String) : Option ConstantDeclaration :=
  s.constants.find? fun d => d.name == name

/-- The type reached by following at most a number of names. -/
def follow (s : Schema) : Nat → Ty → Ty
  | 0, t => t
  | n + 1, t =>
    match t with
    | .named name =>
      match s.type? name with
      | some d => follow s n d.type
      | none => t
    | _ => t

/-- The type that a type stands for, its names followed. No chain of distinct names is longer
than the list of declarations. -/
def resolve (s : Schema) (t : Ty) : Ty := s.follow (s.types.length + 1) t

/-- The alternatives of a type, with unions opened to a number of levels. -/
def leaves (s : Schema) : Nat → Ty → List (String × Ty)
  | 0, t => [(t.text, s.resolve t)]
  | n + 1, t =>
    match s.resolve t with
    | .union ts => ts.flatMap fun t => leaves s n t
    | r => [(t.text, r)]

/-- The alternatives of a type in order, each with the text that it is declared by. -/
def flatten (s : Schema) (t : Ty) : List (String × Ty) := s.leaves (s.types.length + 1) t

end Schema

end TypedConfig
