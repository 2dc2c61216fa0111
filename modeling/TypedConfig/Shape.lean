import TypedConfig.Entries
import TypedConfig.Program
import TypedConfig.Scalar

/-! # Shapes

A shape tells what is known of an expression without running the program: its kind, its value
where the program's text fixes that, and the place that it was written at.
-/

namespace TypedConfig

inductive Shape
  | string (span : Span) (value : Option String)
  | number (span : Span) (value : Option Float)
  | boolean (span : Span) (value : Option Bool)
  | sentinel (span : Span) (value : Sentinel)
  | record (span : Span) (fields : List (String × Span × Shape))
  | tuple (span : Span) (items : List Shape)
  | array (span : Span) (element : Shape)
  | function (span : Span) (params : List Ident) (body : Expr)
      (captured : List (List (String × Shape)))
  | null (span : Span)
  | undefined (span : Span)
  | oneOf (span : Span) (branches : List Shape)
  | unknown (span : Span)

/-- The fields of a record shape: under each key the place of the key and the shape. -/
abbrev ShapeFields := Entries (Span × Shape)

/-- The arguments of a function, by the names of its parameters. -/
abbrev ShapeFrame := Entries Shape

namespace Shape

instance : Inhabited Shape := ⟨unknown default⟩

def maxBranches : Nat := 64

def span : Shape → Span
  | string s _ | number s _ | boolean s _ | sentinel s _ | record s _ | tuple s _ | array s _
  | function s _ _ _ | null s | undefined s | oneOf s _ | unknown s => s

/-- A leaf at another place; other shapes keep their own. -/
def leafAt (s : Span) : Shape → Shape
  | string _ v => string s v
  | number _ v => number s v
  | boolean _ v => boolean s v
  | sentinel _ c => sentinel s c
  | function _ ps b fs => function s ps b fs
  | null _ => null s
  | undefined _ => undefined s
  | shape => shape

def isUnknown : Shape → Bool
  | unknown _ => true
  | _ => false

def ofScalar (s : Span) : Scalar → Shape
  | .string v => string s (some v)
  | .number v => number s (some v)
  | .boolean v => boolean s (some v)

/-- The branches of alternatives, those of a shape that is itself one of several in its
place. -/
def flatten : List Shape → List Shape
  | [] => []
  | oneOf _ bs :: shapes => bs ++ flatten shapes
  | shape :: shapes => shape :: flatten shapes

/-- One of several shapes, if they are not too many; a single one stands for itself. -/
def oneOf? (shapes : List Shape) (s : Span) : Option Shape :=
  match flatten shapes with
  | [shape] => some shape
  | flat => if maxBranches < flat.length then none else some (oneOf s flat)

def scalar? : Shape → Option Scalar
  | string _ (some v) => some (.string v)
  | number _ (some v) => some (.number v)
  | boolean _ (some v) => some (.boolean v)
  | sentinel _ c => some c.literal
  | _ => none

def kind? : Shape → Option ScalarKind
  | string .. => some .string
  | number .. => some .number
  | boolean .. => some .boolean
  | sentinel _ c => some c.literal.kind
  | _ => none

def isText (shape : Shape) : Bool := shape.kind? == some .string

/-- The text that is known to be the value. -/
def text? : Shape → Option String
  | string _ v => v
  | sentinel _ c =>
    match c.literal with
    | .string v => some v
    | _ => none
  | _ => none

/-- The value that all members of a list have. -/
def common : List (Option Bool) → Option Bool
  | some b :: bs => if bs.all (· == some b) then some b else none
  | _ => none

mutual

/-- Whether the value counts as true, if that is known. -/
def truthiness : Shape → Option Bool
  | record .. | tuple .. | array .. | function .. => some true
  | null _ | undefined _ => some false
  | oneOf _ bs => common (truthinesses bs)
  | unknown _ => none
  | shape => shape.scalar?.map Scalar.truthy

def truthinesses : List Shape → List (Option Bool)
  | [] => []
  | shape :: shapes => truthiness shape :: truthinesses shapes

end

mutual

def describe : Shape → String
  | string _ (some v) => "string " ++ Text.quoted v
  | string _ none => "string"
  | number _ (some v) => "number " ++ (Scalar.number v).literalText
  | number _ none => "number"
  | boolean _ (some v) => "boolean " ++ (if v then "true" else "false")
  | boolean _ none => "boolean"
  | sentinel _ c => "constant `" ++ c.name ++ "` (" ++ c.literal.literalText ++ ")"
  | record _ [] => "object \x7b\x7d"
  | record _ (f :: fs) =>
    "object \x7b " ++ ", ".intercalate ((f :: fs).map Prod.fst) ++ " \x7d"
  | tuple _ [_] => "array of 1 element"
  | tuple _ items => "array of " ++ toString items.length ++ " elements"
  | array .. => "array"
  | function .. => "function"
  | null _ => "null"
  | undefined _ => "undefined"
  | oneOf _ [] => "nothing"
  | oneOf _ (b :: bs) => "one of " ++ " | ".intercalate (describe b :: describes bs)
  | unknown _ => "unknown"

def describes : List Shape → List String
  | [] => []
  | shape :: shapes => describe shape :: describes shapes

end

/-- The elements of an array shape, and whether they are all its elements one by one. -/
def elements? : Shape → Option (List Shape × Bool)
  | tuple _ items => some (items, true)
  | array _ element => some ([element], false)
  | _ => none

/-- What is known of a shape turned into a text: nothing as it cannot be, that it can be, or the
text. -/
inductive Rendering
  | impossible
  | possible
  | known (text : String)

def Rendering.ofOption : Option String → Rendering
  | some t => known t
  | none => possible

def Rendering.isPossible : Rendering → Bool
  | impossible => false
  | _ => true

mutual

/-- The shape turned into a text, inside a template or beside `+`. -/
def rendering : Shape → Rendering
  | string _ v => .ofOption v
  | number _ v => .ofOption (v.map Number.stringText)
  | boolean _ v => .ofOption (v.map fun b => if b then "true" else "false")
  | sentinel _ c => .known c.literal.stringText
  | unknown _ => .possible
  | oneOf _ bs => if allRender bs then .possible else .impossible
  | _ => .impossible

def allRender : List Shape → Bool
  | [] => true
  | shape :: shapes => (rendering shape).isPossible && allRender shapes

end

mutual

/-- The elements that a shape spreads into an array, and whether they are all of them one by
one; none if it cannot be spread. -/
def spread? : Shape → Option (List Shape × Bool)
  | unknown _ => some ([], false)
  | oneOf _ bs => (spreadAll? bs).map (·, false)
  | shape => shape.elements?

def spreadAll? : List Shape → Option (List Shape)
  | [] => some []
  | shape :: shapes =>
    match spread? shape, spreadAll? shapes with
    | some (items, _), some rest => some (items ++ rest)
    | _, _ => none

end

/-- Whether two values are equal, if that is known. -/
def equal? (a b : Shape) : Option Bool :=
  match a, b with
  | null _, null _ | undefined _, undefined _ => some true
  | null _, _ | undefined _, _ | _, null _ | _, undefined _ => some false
  | a, b =>
    match a.scalar?, b.scalar? with
    | some x, some y => some (x.equals y)
    | _, _ =>
      match a.kind?, b.kind? with
      | some k, some l => if k = l then none else some false
      | _, _ => none

end Shape

end TypedConfig
