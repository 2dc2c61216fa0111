import TypedConfig.Schema
import TypedConfig.Schema.Declaration

/-! # Loading schemas

A schema is assembled from the declarations of one or more sources. No name may be declared
twice, every reference must be declared, one source declares the root binding, and no type may
stand for itself through names alone.
-/

namespace TypedConfig

namespace Schema

/-- What the sources read so far declare, and the references in them that are to be checked. -/
structure Draft where
  types : List TypeDeclaration
  constants : List ConstantDeclaration
  root : Option RootBinding
  references : List (Reference × Source)

namespace Draft

def empty : Draft := ⟨[], [], none, []⟩

def typesOf (source : String) (ds : List Declaration) : List TypeDeclaration :=
  ds.filterMap fun
    | .type name body doc span => some ⟨name, body.type, doc, source, span⟩
    | _ => none

def constantsOf (ds : List Declaration) : List ConstantDeclaration :=
  ds.filterMap fun
    | .constant name value span => some ⟨name, value, span⟩
    | _ => none

/-- The root binding of a source; a later declaration replaces an earlier one. -/
def rootOf (source : String) (ds : List Declaration) : Option RootBinding :=
  (ds.filterMap fun
    | .root name body span => some ⟨name, body.type, source, span⟩
    | _ => none).getLast?

def addTypes (source : Source) (known : List TypeDeclaration) :
    List TypeDeclaration → Except SchemaError (List TypeDeclaration)
  | [] => .ok known
  | d :: ds =>
    if known.any (·.name == d.name) then .error (.of (.duplicateType d.name) source d.span)
    else addTypes source (known ++ [d]) ds

def addConstants (source : Source) (known : List ConstantDeclaration) :
    List ConstantDeclaration → Except SchemaError (List ConstantDeclaration)
  | [] => .ok known
  | d :: ds =>
    if known.any (·.name == d.name) then .error (.of (.duplicateConstant d.name) source d.span)
    else addConstants source (known ++ [d]) ds

def addRoot (source : Source) (known new : Option RootBinding) :
    Except SchemaError (Option RootBinding) :=
  match new, known with
  | none, known => .ok known
  | some r, none => .ok (some r)
  | some r, some first => .error (.of (.conflictingRoot r.name first.source) source r.span)

def add (d : Draft) (source : Source) (ds : List Declaration) : Except SchemaError Draft := do
  let types ← addTypes source d.types (typesOf source.name ds)
  let constants ← addConstants source d.constants (constantsOf ds)
  let root ← addRoot source d.root (rootOf source.name ds)
  let references := (ds.flatMap Declaration.references).map (·, source)
  return ⟨types, constants, root, d.references ++ references⟩

end Draft

def declarations (limits : Limits) (source : Source) : Except SchemaError (List Declaration) :=
  match limits.checkSource source.text with
  | .error e => .error (.of (.tooLarge e) source (.point 0))
  | .ok () =>
    match tokenizeWithin limits.maxDepth source.text with
    | .error e => .error (.of (.malformed e.message) source e.span)
    | .ok tokens =>
      match Declaration.ofTokens limits.maxDepth tokens with
      | .error e => .error (.of e.cause source e.span)
      | .ok ds => .ok ds

def draft (limits : Limits) (d : Draft) : List Source → Except SchemaError Draft
  | [] => .ok d
  | source :: rest => do
    let ds ← declarations limits source
    draft limits (← d.add source ds) rest

/-- Refuses the first reference to a name that is not declared. -/
def checkReferences (types : List TypeDeclaration) :
    List (Reference × Source) → Except SchemaError Unit
  | [] => .ok ()
  | (r, source) :: rest =>
    if types.any (·.name == r.name) then checkReferences types rest
    else .error (.of (.unknownType r.name) source r.span)

/-- Whether names lead from a type back to `name`, or to one of `seen`. The number of types not
yet seen bounds the walk. -/
def returnsTo (types : List TypeDeclaration) (name : String) :
    Nat → List String → Ty → Bool
  | 0, _, _ => true
  | n + 1, seen, t =>
    match t with
    | .named next =>
      if next == name || seen.contains next then true
      else
        match types.find? fun d => d.name == next with
        | some d => returnsTo types name n (next :: seen) d.type
        | none => false
    | _ => false

/-- Refuses a type that stands for itself through names alone, or leads to one that does. -/
def checkCycles (sources : List Source) (types : List TypeDeclaration) :
    List TypeDeclaration → Except SchemaError Unit
  | [] => .ok ()
  | d :: ds =>
    if returnsTo types d.name (types.length + 1) [] d.type then
      let source := (sources.find? fun s => s.name == d.source).getD (sources.headD default)
      .error (.of (.cyclicAlias d.name) source d.span)
    else checkCycles sources types ds

/-- The schema that sources declare together. -/
def load (limits : Limits) (sources : List Source) : Except SchemaError Schema := do
  let d ← draft limits .empty sources
  checkReferences d.types d.references
  match d.root with
  | none =>
    let source := sources.getLast?.getD default
    .error (.of .missingRoot source (.point source.text.utf8ByteSize))
  | some root =>
    checkCycles sources d.types d.types
    return ⟨d.types, d.constants, root⟩

def defaultSourceName : String := "schema.d.ts"

end Schema

end TypedConfig
