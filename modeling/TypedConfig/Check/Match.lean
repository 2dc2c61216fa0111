import TypedConfig.Check.Error
import TypedConfig.Schema
import TypedConfig.Shape
import TypedConfig.ValuePath

/-! # Matching shapes against types

A shape is matched against a type by structure. Where the type has alternatives, one of them is
chosen and the choice recorded. Matching unfolds names, so a type that contains itself as an
alternative may never come to an end; a matching is therefore given a number of levels, and it
is unfinished if they run out. Where no type comes back to itself in this way, levels for every
node of the types at every node of the shape are enough.
-/

namespace TypedConfig

/-- The alternative that the value at a path was matched against. -/
structure Resolution where
  path : String
  union : String
  alternative : String
deriving DecidableEq, Repr

def Resolution.message (r : Resolution) : String :=
  r.path ++ ": " ++ r.union ++ " as " ++ r.alternative

structure Outcome where
  errors : List CheckError
  resolutions : List Resolution
deriving DecidableEq, Repr

namespace Outcome

def empty : Outcome := ⟨[], []⟩

def ofError (e : CheckError) : Outcome := ⟨[e], []⟩

def ofResolution (r : Resolution) : Outcome := ⟨[], [r]⟩

def append (a b : Outcome) : Outcome :=
  ⟨a.errors ++ b.errors, a.resolutions ++ b.resolutions⟩

instance : Append Outcome := ⟨append⟩

def accepts (o : Outcome) : Bool := o.errors.isEmpty

end Outcome

namespace Match

/-- Record types by the texts that they are declared by. -/
abbrev Siblings := List (String × TyFields)

/-- A matching of a shape against a type under a label, at a path. -/
abbrev Matcher := String → Ty → Shape → String → Siblings → Option Outcome

def mismatch (label : String) (shape : Shape) (path : String) : Outcome :=
  .ofError ⟨path, label, shape.describe, shape.span, none⟩

def joinAll {α : Type} (f : α → Option Outcome) : List α → Option Outcome
  | [] => some .empty
  | a :: as => do
    let o ← f a
    let rest ← joinAll f as
    return o ++ rest

/-- Joins the outcomes of matchings of elements at their indices, if they all end. -/
def joinItems (f : Nat → Shape → Option Outcome) (i : Nat) : List Shape → Option Outcome
  | [] => some .empty
  | shape :: shapes => do
    let o ← f i shape
    let rest ← joinItems f (i + 1) shapes
    return o ++ rest

def matchScalar (label : String) (kind : ScalarKind) (shape : Shape) (path : String) : Outcome :=
  if shape.kind? = some kind then .empty else mismatch label shape path

def matchLiteral (label : String) (values : List Scalar) (shape : Shape) (path : String) :
    Outcome :=
  match shape.scalar? with
  | some s => if Ty.admitsLiteral values s then .empty else mismatch label shape path
  | none =>
    if shape.kind?.isSome then
      let found := shape.describe ++ " (value not known statically)"
      .ofError ⟨path, label, found, shape.span, none⟩
    else mismatch label shape path

/-- The error of a required field that a record does not have. -/
def missingField (span : Span) (path : String) (f : FieldInfo × Ty) : CheckError :=
  { path := ValuePath.append path (.key f.1.name)
    expected := f.2.text
    found := "nothing; required field `" ++ f.1.name ++ "` is missing"
    span
    note := none }

/-- What the note of an undeclared field says: the other alternative that declares it, or the
fields that are declared. -/
def undeclaredNote (label : String) (declared : TyFields) (siblings : Siblings)
    (key : String) : String :=
  match siblings.find? fun s => TyFields.declares s.2 key with
  | some (sibling, _) =>
    "`" ++ key ++ "` is declared by `" ++ sibling ++
      "`, another alternative; this object was matched against `" ++ label ++ "`"
  | none =>
    "`" ++ label ++ "` declares: " ++ ", ".intercalate (declared.map (·.1.name))

/-- The error of a field that a record type does not declare. -/
def undeclaredField (label : String) (declared : TyFields) (siblings : Siblings)
    (path key : String) (keySpan : Span) : CheckError :=
  { path := ValuePath.append path (.key key)
    expected := label
    found := "undeclared field `" ++ key ++ "`"
    span := keySpan
    note := some (undeclaredNote label declared siblings key) }

/-- Matches a record shape: the required fields first, then the fields it has. -/
def matchRecord (inner : Ty → Shape → String → Option Outcome) (label : String)
    (declared : TyFields) (shape : Shape) (path : String) (siblings : Siblings) :
    Option Outcome :=
  match shape with
  | .record span fields => do
    let missing := (TyFields.required declared).filter fun f => !Entries.contains fields f.1.name
    let rest ← joinAll (fun (key, keySpan, field) =>
      match TyFields.field? declared key with
      | some (_, t) => inner t field (ValuePath.append path (.key key))
      | none => some (.ofError (undeclaredField label declared siblings path key keySpan))) fields
    return ⟨missing.map (missingField span path), []⟩ ++ rest
  | _ => some (mismatch label shape path)

def recordsOf (alternatives : List (String × Ty)) : Siblings :=
  alternatives.filterMap fun
    | (label, .record _ declared) => some (label, declared)
    | _ => none

/-- Whether an alternative fits the keys of a record shape: any map, or a record type that
declares them all and requires no other. -/
def fitsKeys (fields : ShapeFields) : Ty → Bool
  | .map .. => true
  | .record _ declared =>
    (TyFields.required declared).all (fun f => Entries.contains fields f.1.name) &&
      fields.all fun f => TyFields.declares declared f.1
  | _ => false

def isSequence : Ty → Bool
  | .sequence .. => true
  | _ => false

/-- How many keys of a record shape a record type declares. -/
def score (fields : ShapeFields) (declared : TyFields) : Nat :=
  (fields.filter fun f => TyFields.declares declared f.1).length

/-- The first of the record types that declare the most keys of a record shape. -/
def closest (fields : ShapeFields) : Siblings → Option (String × TyFields)
  | [] => none
  | s :: rest =>
    some (rest.foldl
      (fun best s => if score fields best.2 < score fields s.2 then s else best) s)

def othersThan (label : String) (records : Siblings) : Siblings :=
  records.filter fun s => s.1 != label

/-- The first alternative that a shape matches without errors, with what its matching found. -/
def firstAccepting (inner : String × Ty → Option Outcome) :
    List (String × Ty) → Option (Option (String × Outcome))
  | [] => some none
  | a :: as => do
    let o ← inner a
    if o.accepts then return some (a.1, o) else firstAccepting inner as

/-- Matches a shape that is known not to be one of several against alternatives. `inner`
matches against an alternative, and `field` a field of a record against its type. -/
def matchUnion (inner : Matcher) (field : Ty → Shape → String → Option Outcome)
    (label : String) (alternatives : List (String × Ty)) (shape : Shape) (path : String) :
    Option Outcome :=
  let choice (alternative : String) : Outcome := .ofResolution ⟨path, label, alternative⟩
  match shape with
  | .record _ fields =>
    let records := recordsOf alternatives
    match alternatives.find? fun a => fitsKeys fields a.2 with
    | some (name, t) => do
      let o ← inner name t shape path (othersThan name records)
      return choice name ++ o
    | none =>
      match closest fields records with
      | some (name, declared) =>
        matchRecord field name declared shape path (othersThan name records)
      | none => some (mismatch label shape path)
  | .tuple .. | .array .. =>
    match alternatives.find? fun a => isSequence a.2 with
    | some (name, t) => do
      let o ← inner name t shape path []
      return choice name ++ o
    | none => some (mismatch label shape path)
  | .null _ | .undefined _ | .function .. => some (mismatch label shape path)
  | _ => do
    match ← firstAccepting (fun (name, t) => inner name t shape path []) alternatives with
    | some (name, o) => return choice name ++ o
    | none => return mismatch label shape path

/-- Matches a shape against a type whose names have been followed, within a number of levels;
nothing if they do not suffice. -/
def matchWithin (schema : Schema) : Nat → Matcher
  | 0, _, _, _, _, _ => none
  | n + 1, label, t, shape, path, siblings =>
    let inner : Matcher := fun label t shape path siblings =>
      matchWithin schema n label t shape path siblings
    let unfold (t : Ty) (shape : Shape) (path : String) : Option Outcome :=
      matchWithin schema n t.text (schema.resolve t) shape path []
    match shape with
    | .unknown _ => some .empty
    | .oneOf _ branches => joinAll (fun b => inner label t b path siblings) branches
    | _ =>
      match t with
      | .named _ => inner t.text (schema.resolve t) shape path siblings
      | .scalar kind => some (matchScalar label kind shape path)
      | .literal values => some (matchLiteral label values shape path)
      | .record _ declared => matchRecord unfold label declared shape path siblings
      | .map _ value =>
        match shape with
        | .record _ fields =>
          joinAll (fun (key, _, field) => unfold value field (ValuePath.append path (.key key)))
            fields
        | _ => some (mismatch label shape path)
      | .sequence element acceptsSingle =>
        match shape with
        | .tuple _ items =>
          joinItems (fun i item => unfold element item (ValuePath.append path (.index i))) 0 items
        | .array _ item => unfold element item (ValuePath.append path .anyIndex)
        | _ =>
          if acceptsSingle then unfold element shape path
          else some (mismatch label shape path)
      | .union _ => matchUnion inner unfold label (schema.flatten t) shape path

/-- Matches a shape against a type, within a number of levels. -/
def conformWithin (schema : Schema) (levels : Nat) (t : Ty) (shape : Shape) (path : String) :
    Option Outcome :=
  matchWithin schema levels t.text (schema.resolve t) shape path []

def Finishes (schema : Schema) (t : Ty) (shape : Shape) (path : String) : Prop :=
  ∃ levels, (conformWithin schema levels t shape path).isSome

mutual

/-- The number of shapes on the longest way into a shape. -/
def height : Shape → Nat
  | .record _ fields => 1 + heightFields fields
  | .tuple _ items => 1 + heightList items
  | .array _ element => 1 + height element
  | .oneOf _ branches => 1 + heightList branches
  | _ => 1

def heightList : List Shape → Nat
  | [] => 0
  | shape :: shapes => max (height shape) (heightList shapes)

def heightFields : List (String × Span × Shape) → Nat
  | [] => 0
  | (_, _, shape) :: fields => max (height shape) (heightFields fields)

end

/-- The number of nodes of the types that a matching may meet. -/
def nodes (schema : Schema) (t : Ty) : Nat :=
  t.size + (schema.types.map fun d => d.type.size).foldr (· + ·) 0

/-- Levels for every node of the types at every level of the shape. -/
def levelsFor (schema : Schema) (t : Ty) (shape : Shape) : Nat :=
  (height shape + 1) * (2 * nodes schema t + 2)

/-- Matches a shape against a type. A matching that would not end is refused as a whole. -/
def conform (schema : Schema) (t : Ty) (shape : Shape) (path : String) : Outcome :=
  (conformWithin schema (levelsFor schema t shape) t shape path).getD
    (mismatch t.text shape path)

end Match

end TypedConfig
