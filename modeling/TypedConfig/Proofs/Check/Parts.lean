import TypedConfig.Check.Match

/-! # The parts of a matching

Matching tells apart shapes that are not known, those that are one of several, and the others,
which are matched by the form of the type. A scalar is matched as a whole.
-/

namespace TypedConfig.Match

/-- Matches a field of a record shape, if it is declared. -/
def matchField (field : Ty → Shape → String → Option Outcome) (label : String)
    (declared : TyFields) (path : String) (siblings : Siblings) (f : String × Span × Shape) :
    Option Outcome :=
  match TyFields.field? declared f.1 with
  | some (_, t) => field t f.2.2 (ValuePath.append path (.key f.1))
  | none => some (.ofError (undeclaredField label declared siblings path f.1 f.2.1))

theorem matchRecord_record (field : Ty → Shape → String → Option Outcome) (label : String)
    (declared : TyFields) (span : Span) (fields : ShapeFields) (path : String)
    (siblings : Siblings) :
    matchRecord field label declared (.record span fields) path siblings = (do
      let missing := (TyFields.required declared).filter fun f =>
        !Entries.contains fields f.1.name
      let rest ← joinAll (matchField field label declared path siblings) fields
      return ⟨missing.map (missingField span path), []⟩ ++ rest) := rfl

def matchFirst (inner : Matcher) (label : String) (alternatives : List (String × Ty))
    (shape : Shape) (path : String) : Option Outcome := do
  match ← firstAccepting (fun (name, t) => inner name t shape path []) alternatives with
  | some (name, o) => return .ofResolution ⟨path, label, name⟩ ++ o
  | none => return mismatch label shape path

/-- Matches a shape that is neither unknown nor one of several. -/
def matchPlain (schema : Schema) (inner : Matcher) (field : Ty → Shape → String → Option Outcome)
    (label : String) (t : Ty) (shape : Shape) (path : String) (siblings : Siblings) :
    Option Outcome :=
  match t with
  | .named _ => inner t.text (schema.resolve t) shape path siblings
  | .scalar kind => some (matchScalar label kind shape path)
  | .literal values => some (matchLiteral label values shape path)
  | .record _ declared => matchRecord field label declared shape path siblings
  | .map _ value =>
    match shape with
    | .record _ fields =>
      joinAll (fun (key, _, f) => field value f (ValuePath.append path (.key key))) fields
    | _ => some (mismatch label shape path)
  | .sequence element acceptsSingle =>
    match shape with
    | .tuple _ items =>
      joinItems (fun i item => field element item (ValuePath.append path (.index i))) 0 items
    | .array _ item => field element item (ValuePath.append path .anyIndex)
    | _ =>
      if acceptsSingle then field element shape path else some (mismatch label shape path)
  | .union _ => matchUnion inner field label (schema.flatten t) shape path

def matchLeaf (schema : Schema) (inner : Matcher) (field : Ty → Shape → String → Option Outcome)
    (label : String) (t : Ty) (shape : Shape) (path : String) (siblings : Siblings) :
    Option Outcome :=
  match t with
  | .named _ => inner t.text (schema.resolve t) shape path siblings
  | .scalar kind => some (matchScalar label kind shape path)
  | .literal values => some (matchLiteral label values shape path)
  | .record .. | .map .. => some (mismatch label shape path)
  | .sequence element acceptsSingle =>
    if acceptsSingle then field element shape path else some (mismatch label shape path)
  | .union _ => matchFirst inner label (schema.flatten t) shape path

theorem matchWithin_of_kind? {shape : Shape} (h : shape.kind?.isSome = true) (schema : Schema)
    (n : Nat) (label : String) (t : Ty) (path : String) (siblings : Siblings) :
    matchWithin schema (n + 1) label t shape path siblings =
      matchLeaf schema (matchWithin schema n)
        (fun t shape path => matchWithin schema n t.text (schema.resolve t) shape path [])
        label t shape path siblings := by
  cases shape with
  | string | number | boolean | sentinel => cases t <;> rfl
  | _ => cases h

end TypedConfig.Match
