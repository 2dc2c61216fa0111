import TypedConfig.Check.Match
import TypedConfig.Proofs.Entries
import TypedConfig.Proofs.Layout.Bare
import TypedConfig.Proofs.Shape.Views

/-! # Shapes without places

No view of a shape asks for a span: it is the same of the shape with all its spans forgotten, or
is what forgetting them makes of it.
-/

namespace TypedConfig.Shape

mutual

/-- The shape with its spans forgotten, also those of the functions in it. -/
def bare : Shape → Shape
  | string _ v => string default v
  | number _ v => number default v
  | boolean _ v => boolean default v
  | sentinel _ c => sentinel default c
  | record _ fields => record default (bareFields fields)
  | tuple _ items => tuple default (bareAll items)
  | array _ element => array default element.bare
  | function _ params body captured =>
    function default (params.map .bare) body.bare (bareFrames captured)
  | null _ => null default
  | undefined _ => undefined default
  | oneOf _ branches => oneOf default (bareAll branches)
  | unknown _ => unknown default

def bareAll : List Shape → List Shape
  | [] => []
  | shape :: shapes => shape.bare :: bareAll shapes

def bareFields : List (String × Span × Shape) → List (String × Span × Shape)
  | [] => []
  | (key, _, shape) :: fields => (key, default, shape.bare) :: bareFields fields

def bareFrames : List (List (String × Shape)) → List (List (String × Shape))
  | [] => []
  | frame :: frames => bareFrame frame :: bareFrames frames

def bareFrame : List (String × Shape) → List (String × Shape)
  | [] => []
  | (name, shape) :: rest => (name, shape.bare) :: bareFrame rest

end

section

theorem bareAll_eq_map (shapes : List Shape) : bareAll shapes = shapes.map bare := by
  induction shapes with
  | nil => rfl
  | cons shape shapes ih => exact congrArg (List.cons _) ih

theorem bareFields_eq_mapValues (fields : ShapeFields) :
    bareFields fields = Entries.mapValues (fun v => (default, v.2.bare)) fields := by
  induction fields with
  | nil => rfl
  | cons f fields ih => exact congrArg (List.cons _) ih

theorem bareFrame_eq_mapValues (frame : ShapeFrame) :
    bareFrame frame = Entries.mapValues bare frame := by
  induction frame with
  | nil => rfl
  | cons e frame ih => exact congrArg (List.cons _) ih

@[simp] theorem length_bareAll (shapes : List Shape) :
    (bareAll shapes).length = shapes.length := by
  rw [bareAll_eq_map, List.length_map]

@[simp] theorem bareAll_append (as bs : List Shape) :
    bareAll (as ++ bs) = bareAll as ++ bareAll bs := by
  simp only [bareAll_eq_map, List.map_append]

theorem getElem?_bareAll (shapes : List Shape) (i : Nat) :
    (bareAll shapes)[i]? = shapes[i]?.map bare := by
  rw [bareAll_eq_map, List.getElem?_map]

theorem get?_bareFields (fields : ShapeFields) (key : String) :
    Entries.get? (bareFields fields) key =
      (Entries.get? fields key).map fun v => (default, v.2.bare) := by
  rw [bareFields_eq_mapValues, Entries.get?_mapValues]

theorem contains_bareFields (fields : ShapeFields) (key : String) :
    Entries.contains (bareFields fields) key = Entries.contains fields key := by
  rw [bareFields_eq_mapValues, Entries.contains_mapValues]

theorem put_bareFields (fields : ShapeFields) (key : String) (s : Span) (shape : Shape) :
    Entries.put (bareFields fields) key (default, shape.bare) =
      bareFields (Entries.put fields key (s, shape)) := by
  simp only [bareFields_eq_mapValues]
  exact Entries.put_mapValues _ fields key (s, shape)

theorem putAll_bareFields (fields more : ShapeFields) :
    Entries.putAll (bareFields fields) (bareFields more) =
      bareFields (Entries.putAll fields more) := by
  simp only [bareFields_eq_mapValues, Entries.putAll_mapValues]

theorem keys_bareFields (fields : ShapeFields) :
    (bareFields fields).map Prod.fst = fields.map Prod.fst := by
  rw [bareFields_eq_mapValues, Entries.mapValues, List.map_map]
  rfl

end

variable (shape : Shape)

@[simp] theorem span_bare : shape.bare.span = default := by cases shape <;> rfl

@[simp] theorem leafAt_bare (s : Span) : shape.bare.leafAt default = (shape.leafAt s).bare := by
  cases shape <;> rfl

@[simp] theorem isUnknown_bare : shape.bare.isUnknown = shape.isUnknown := by cases shape <;> rfl

@[simp] theorem scalar?_bare : shape.bare.scalar? = shape.scalar? := by
  cases shape with
  | string _ v | number _ v | boolean _ v => cases v <;> rfl
  | _ => rfl

@[simp] theorem kind?_bare : shape.bare.kind? = shape.kind? := by cases shape <;> rfl

@[simp] theorem isText_bare : shape.bare.isText = shape.isText := by rw [isText, kind?_bare, isText]

@[simp] theorem text?_bare : shape.bare.text? = shape.text? := by cases shape <;> rfl

mutual

@[simp] theorem truthiness_bare : ∀ shape : Shape, shape.bare.truthiness = shape.truthiness
  | record .. | tuple .. | array .. | function .. | null _ | undefined _ | unknown _ => rfl
  | oneOf _ bs => by rw [bare, truthiness, truthinesses_bareAll, truthiness]
  | string _ none | number _ none | boolean _ none | sentinel .. => rfl
  | string _ (some _) | number _ (some _) | boolean _ (some _) => rfl

theorem truthinesses_bareAll : ∀ shapes : List Shape,
    truthinesses (bareAll shapes) = truthinesses shapes
  | [] => rfl
  | shape :: shapes => by
    rw [bareAll, truthinesses, truthiness_bare, truthinesses_bareAll, truthinesses]

end

mutual

@[simp] theorem describe_bare : ∀ shape : Shape, shape.bare.describe = shape.describe
  | string _ none | number _ none | boolean _ none | string _ (some _) | number _ (some _)
  | boolean _ (some _) | sentinel .. | array .. | function .. | null _ | undefined _
  | unknown _ | record _ [] | tuple _ [] | tuple _ [_] | oneOf _ [] => rfl
  | record _ ((key, s, field) :: fields) => by
    have hkeys := keys_bareFields ((key, s, field) :: fields)
    rw [bareFields] at hkeys
    rw [bare, bareFields, describe, hkeys, describe]
  | tuple _ (_ :: _ :: items) => by
    simp [bare, bareAll, describe]
  | oneOf _ (b :: bs) => by
    rw [bare, bareAll, describe, describe_bare, describes_bareAll, describe]

theorem describes_bareAll : ∀ shapes : List Shape, describes (bareAll shapes) = describes shapes
  | [] => rfl
  | shape :: shapes => by rw [bareAll, describes, describe_bare, describes_bareAll, describes]

end

/-- Elements without spans, and whether they are all elements one by one. -/
def bareResults (r : List Shape × Bool) : List Shape × Bool := (bareAll r.1, r.2)

theorem elements?_bare : shape.bare.elements? = shape.elements?.map bareResults := by
  cases shape <;> rfl

mutual

@[simp] theorem rendering_bare : ∀ shape : Shape, shape.bare.rendering = shape.rendering
  | oneOf _ bs => by rw [bare, rendering, allRender_bareAll, rendering]
  | string .. | number .. | boolean .. | sentinel .. | record .. | tuple .. | array ..
  | function .. | null _ | undefined _ | unknown _ => rfl

theorem allRender_bareAll : ∀ shapes : List Shape, allRender (bareAll shapes) = allRender shapes
  | [] => rfl
  | shape :: shapes => by rw [bareAll, allRender, rendering_bare, allRender_bareAll, allRender]

end

mutual

theorem spread?_bare : ∀ shape : Shape, shape.bare.spread? = shape.spread?.map bareResults
  | oneOf _ bs => by
    rw [bare, spread?, spreadAll?_bareAll, spread?, Option.map_map, Option.map_map]
    rfl
  | string .. | number .. | boolean .. | sentinel .. | record .. | tuple .. | array ..
  | function .. | null _ | undefined _ | unknown _ => rfl

theorem spreadAll?_bareAll : ∀ shapes : List Shape,
    spreadAll? (bareAll shapes) = (spreadAll? shapes).map bareAll
  | [] => rfl
  | shape :: shapes => by
    rw [bareAll, spreadAll?, spread?_bare shape, spreadAll?_bareAll shapes, spreadAll?]
    cases shape.spread? <;> cases spreadAll? shapes <;> simp [bareResults]

end

@[simp] theorem isNothing_bare : shape.bare.isNothing = shape.isNothing := by
  cases shape <;> rfl

theorem equal?_bare (a b : Shape) : equal? a.bare b.bare = equal? a b := by
  by_cases h : a.isNothing = false ∧ b.isNothing = false
  · rw [equal?_eq (by simpa using h.1) (by simpa using h.2), equal?_eq h.1 h.2]
    simp only [scalar?_bare, kind?_bare]
  · cases a with
    | null s | undefined s => cases b <;> rfl
    | _ =>
      cases b with
      | null s | undefined s => rfl
      | _ => exact absurd ⟨rfl, rfl⟩ h

theorem flatten_bareAll (shapes : List Shape) :
    flatten (bareAll shapes) = bareAll (flatten shapes) := by
  induction shapes with
  | nil => rfl
  | cons shape shapes ih =>
    cases shape <;> simp [bareAll, bare, flatten, ih]

theorem oneOf?_bareAll (shapes : List Shape) (s : Span) :
    oneOf? (bareAll shapes) default = (oneOf? shapes s).map bare := by
  unfold oneOf?
  rw [flatten_bareAll]
  match flatten shapes with
  | [] => rfl
  | [_] => rfl
  | a :: b :: rest =>
    have hlength := length_bareAll (a :: b :: rest)
    simp only [bareAll] at hlength ⊢
    rw [hlength]
    split <;> rfl

mutual

theorem height_bare : ∀ shape : Shape, Match.height shape.bare = Match.height shape
  | record _ fields => congrArg (1 + ·) (heightFields_bareFields fields)
  | tuple _ items => congrArg (1 + ·) (heightList_bareAll items)
  | array _ element => congrArg (1 + ·) (height_bare element)
  | oneOf _ bs => congrArg (1 + ·) (heightList_bareAll bs)
  | string .. | number .. | boolean .. | sentinel .. | function .. | null _ | undefined _
  | unknown _ => rfl

theorem heightList_bareAll : ∀ shapes : List Shape,
    Match.heightList (bareAll shapes) = Match.heightList shapes
  | [] => rfl
  | shape :: shapes => by
    rw [bareAll, Match.heightList, height_bare shape, heightList_bareAll shapes, Match.heightList]

theorem heightFields_bareFields : ∀ fields : List (String × Span × Shape),
    Match.heightFields (bareFields fields) = Match.heightFields fields
  | [] => rfl
  | (_, _, shape) :: fields => by
    rw [bareFields, Match.heightFields, height_bare shape, heightFields_bareFields fields,
      Match.heightFields]

end

end TypedConfig.Shape
