import TypedConfig.Check.Match
import TypedConfig.Proofs.Constants.Literals
import TypedConfig.Proofs.Entries
import TypedConfig.Proofs.Shape.Views

/-! # Shapes with a constant written out

The shape of a constant and that of its literal look alike in every view of a shape but its text
in messages.
-/

namespace TypedConfig.Shape

variable (c : Sentinel)

mutual

/-- The shape with the literal of a constant in place of the constant, also in the bodies of
functions. -/
def inlined : Shape → Shape
  | sentinel s x => if x = c then ofScalar s x.literal else sentinel s x
  | record s fields => record s (inlinedFields fields)
  | tuple s items => tuple s (inlinedAll items)
  | array s element => array s element.inlined
  | function s params body captured =>
    function s params
      (body.inlined c (Entries.anyBinds captured c.name || Ident.anyNamed params c.name))
      (inlinedFrames captured)
  | oneOf s branches => oneOf s (inlinedAll branches)
  | string s v => string s v
  | number s v => number s v
  | boolean s v => boolean s v
  | null s => null s
  | undefined s => undefined s
  | unknown s => unknown s

def inlinedAll : List Shape → List Shape
  | [] => []
  | shape :: shapes => shape.inlined :: inlinedAll shapes

def inlinedFields : List (String × Span × Shape) → List (String × Span × Shape)
  | [] => []
  | (key, s, shape) :: fields => (key, s, shape.inlined) :: inlinedFields fields

def inlinedFrames : List (List (String × Shape)) → List (List (String × Shape))
  | [] => []
  | frame :: frames => inlinedFrame frame :: inlinedFrames frames

def inlinedFrame : List (String × Shape) → List (String × Shape)
  | [] => []
  | (name, shape) :: rest => (name, shape.inlined) :: inlinedFrame rest

end

section

theorem inlinedAll_eq_map (shapes : List Shape) :
    inlinedAll c shapes = shapes.map (inlined c) := by
  induction shapes with
  | nil => rfl
  | cons shape shapes ih => exact congrArg (List.cons _) ih

theorem inlinedFields_eq_mapValues (fields : ShapeFields) :
    inlinedFields c fields = Entries.mapValues (fun v => (v.1, v.2.inlined c)) fields := by
  induction fields with
  | nil => rfl
  | cons f fields ih => exact congrArg (List.cons _) ih

theorem inlinedFrame_eq_mapValues (frame : ShapeFrame) :
    inlinedFrame c frame = Entries.mapValues (inlined c) frame := by
  induction frame with
  | nil => rfl
  | cons e frame ih => exact congrArg (List.cons _) ih

@[simp] theorem length_inlinedAll (shapes : List Shape) :
    (inlinedAll c shapes).length = shapes.length := by
  rw [inlinedAll_eq_map, List.length_map]

@[simp] theorem inlinedAll_append (as bs : List Shape) :
    inlinedAll c (as ++ bs) = inlinedAll c as ++ inlinedAll c bs := by
  simp only [inlinedAll_eq_map, List.map_append]

theorem getElem?_inlinedAll (shapes : List Shape) (i : Nat) :
    (inlinedAll c shapes)[i]? = shapes[i]?.map (inlined c) := by
  rw [inlinedAll_eq_map, List.getElem?_map]

theorem get?_inlinedFields (fields : ShapeFields) (key : String) :
    Entries.get? (inlinedFields c fields) key =
      (Entries.get? fields key).map fun v => (v.1, v.2.inlined c) := by
  rw [inlinedFields_eq_mapValues, Entries.get?_mapValues]

theorem contains_inlinedFields (fields : ShapeFields) (key : String) :
    Entries.contains (inlinedFields c fields) key = Entries.contains fields key := by
  rw [inlinedFields_eq_mapValues, Entries.contains_mapValues]

theorem put_inlinedFields (fields : ShapeFields) (key : String) (s : Span) (shape : Shape) :
    Entries.put (inlinedFields c fields) key (s, shape.inlined c) =
      inlinedFields c (Entries.put fields key (s, shape)) := by
  simp only [inlinedFields_eq_mapValues]
  exact Entries.put_mapValues _ fields key (s, shape)

theorem putAll_inlinedFields (fields more : ShapeFields) :
    Entries.putAll (inlinedFields c fields) (inlinedFields c more) =
      inlinedFields c (Entries.putAll fields more) := by
  simp only [inlinedFields_eq_mapValues, Entries.putAll_mapValues]

end

section

variable {c} {s : Span} {x : Sentinel}

theorem inlined_sentinel (s : Span) (x : Sentinel) :
    x = c ∧ (sentinel s x).inlined c = ofScalar s x.literal ∨
      x ≠ c ∧ (sentinel s x).inlined c = sentinel s x := by
  by_cases h : x = c
  · exact .inl ⟨h, if_pos h⟩
  · exact .inr ⟨h, if_neg h⟩

/-- What does not tell a constant from its literal does not tell it from the constant written
out. -/
theorem view_inlined_sentinel {α : Sort _} (view : Shape → α)
    (h : view (ofScalar s x.literal) = view (sentinel s x)) :
    view ((sentinel s x).inlined c) = view (sentinel s x) := by
  obtain ⟨-, hx⟩ | ⟨-, hx⟩ := inlined_sentinel (c := c) s x <;> rw [hx]
  exact h

variable (s) (v : Scalar)

theorem span_ofScalar : (ofScalar s v).span = s := by cases v <;> rfl

theorem leafAt_ofScalar (t : Span) : (ofScalar s v).leafAt t = ofScalar t v := by cases v <;> rfl

theorem isUnknown_ofScalar : (ofScalar s v).isUnknown = false := by cases v <;> rfl

theorem scalar?_ofScalar : (ofScalar s v).scalar? = some v := by cases v <;> rfl

theorem kind?_ofScalar : (ofScalar s v).kind? = some v.kind := by cases v <;> rfl

theorem text?_ofScalar (n : String) : (ofScalar s v).text? = (sentinel s ⟨n, v⟩).text? := by
  cases v <;> rfl

theorem truthiness_ofScalar : (ofScalar s v).truthiness = some v.truthy := by cases v <;> rfl

theorem elements?_ofScalar : (ofScalar s v).elements? = none := by cases v <;> rfl

theorem rendering_ofScalar : (ofScalar s v).rendering = .known v.stringText := by
  cases v <;> rfl

theorem spread?_ofScalar : (ofScalar s v).spread? = none := by cases v <;> rfl

theorem isNothing_ofScalar : (ofScalar s v).isNothing = false := by cases v <;> rfl

theorem equal?_ofScalar {a : Shape} (ha : a.isNothing = true) :
    equal? a (ofScalar s v) = some false ∧ equal? (ofScalar s v) a = some false := by
  cases a with
  | null | undefined => cases v <;> exact ⟨rfl, rfl⟩
  | _ => cases ha

theorem flatten_ofScalar (shapes : List Shape) :
    flatten (ofScalar s v :: shapes) = ofScalar s v :: flatten shapes := by cases v <;> rfl

theorem height_ofScalar : Match.height (ofScalar s v) = 1 := by cases v <;> rfl

end

variable {c} (shape : Shape)

@[simp] theorem span_inlined : (shape.inlined c).span = shape.span := by
  cases shape with
  | sentinel s x => exact view_inlined_sentinel span (span_ofScalar ..)
  | _ => rfl

@[simp] theorem leafAt_inlined (s : Span) :
    (shape.inlined c).leafAt s = (shape.leafAt s).inlined c := by
  cases shape with
  | sentinel t x =>
    rw [inlined, leafAt, inlined]
    split
    · exact leafAt_ofScalar ..
    · rfl
  | _ => rfl

@[simp] theorem isUnknown_inlined : (shape.inlined c).isUnknown = shape.isUnknown := by
  cases shape with
  | sentinel s x => exact view_inlined_sentinel isUnknown (isUnknown_ofScalar ..)
  | _ => rfl

@[simp] theorem scalar?_inlined : (shape.inlined c).scalar? = shape.scalar? := by
  cases shape with
  | sentinel s x => exact view_inlined_sentinel scalar? (scalar?_ofScalar ..)
  | string _ v | number _ v | boolean _ v => cases v <;> rfl
  | _ => rfl

@[simp] theorem kind?_inlined : (shape.inlined c).kind? = shape.kind? := by
  cases shape with
  | sentinel s x => exact view_inlined_sentinel kind? (kind?_ofScalar ..)
  | _ => rfl

@[simp] theorem isText_inlined : (shape.inlined c).isText = shape.isText := by
  rw [isText, kind?_inlined, isText]

@[simp] theorem text?_inlined : (shape.inlined c).text? = shape.text? := by
  cases shape with
  | sentinel s x => exact view_inlined_sentinel text? (text?_ofScalar ..)
  | _ => rfl

mutual

@[simp] theorem truthiness_inlined : ∀ shape : Shape,
    (shape.inlined c).truthiness = shape.truthiness
  | sentinel s x => view_inlined_sentinel truthiness (truthiness_ofScalar ..)
  | oneOf _ bs => by rw [inlined, truthiness, truthinesses_inlinedAll, truthiness]
  | record .. | tuple .. | array .. | function .. | null _ | undefined _ | unknown _ => rfl
  | string _ none | number _ none | boolean _ none => rfl
  | string _ (some _) | number _ (some _) | boolean _ (some _) => rfl

theorem truthinesses_inlinedAll : ∀ shapes : List Shape,
    truthinesses (inlinedAll c shapes) = truthinesses shapes
  | [] => rfl
  | shape :: shapes => by
    rw [inlinedAll, truthinesses, truthiness_inlined, truthinesses_inlinedAll, truthinesses]

end

/-- Elements with a constant written out, and whether they are all elements one by one. -/
def inlinedResults (c : Sentinel) (r : List Shape × Bool) : List Shape × Bool :=
  (inlinedAll c r.1, r.2)

theorem elements?_inlined :
    (shape.inlined c).elements? = shape.elements?.map (inlinedResults c) := by
  cases shape with
  | sentinel s x => exact view_inlined_sentinel elements? (elements?_ofScalar ..)
  | _ => rfl

mutual

@[simp] theorem rendering_inlined : ∀ shape : Shape,
    (shape.inlined c).rendering = shape.rendering
  | sentinel s x => view_inlined_sentinel rendering (rendering_ofScalar ..)
  | oneOf _ bs => by rw [inlined, rendering, allRender_inlinedAll, rendering]
  | string .. | number .. | boolean .. | record .. | tuple .. | array .. | function .. | null _
  | undefined _ | unknown _ => rfl

theorem allRender_inlinedAll : ∀ shapes : List Shape,
    allRender (inlinedAll c shapes) = allRender shapes
  | [] => rfl
  | shape :: shapes => by
    rw [inlinedAll, allRender, rendering_inlined, allRender_inlinedAll, allRender]

end

mutual

theorem spread?_inlined : ∀ shape : Shape,
    (shape.inlined c).spread? = shape.spread?.map (inlinedResults c)
  | sentinel s x => view_inlined_sentinel spread? (spread?_ofScalar ..)
  | oneOf _ bs => by
    rw [inlined, spread?, spreadAll?_inlinedAll, spread?, Option.map_map, Option.map_map]
    rfl
  | string .. | number .. | boolean .. | record .. | tuple .. | array .. | function .. | null _
  | undefined _ | unknown _ => rfl

theorem spreadAll?_inlinedAll : ∀ shapes : List Shape,
    spreadAll? (inlinedAll c shapes) = (spreadAll? shapes).map (inlinedAll c)
  | [] => rfl
  | shape :: shapes => by
    rw [inlinedAll, spreadAll?, spread?_inlined shape, spreadAll?_inlinedAll shapes, spreadAll?]
    cases shape.spread? <;> cases spreadAll? shapes <;> simp [inlinedResults]

end

@[simp] theorem isNothing_inlined : (shape.inlined c).isNothing = shape.isNothing := by
  cases shape with
  | sentinel s x => exact view_inlined_sentinel isNothing (isNothing_ofScalar ..)
  | _ => rfl

theorem equal?_inlined (a b : Shape) : equal? (a.inlined c) (b.inlined c) = equal? a b := by
  by_cases h : a.isNothing = false ∧ b.isNothing = false
  · rw [equal?_eq (by simpa using h.1) (by simpa using h.2), equal?_eq h.1 h.2]
    simp only [scalar?_inlined, kind?_inlined]
  · cases a with
    | null s | undefined s =>
      cases b with
      | sentinel t x => exact view_inlined_sentinel (equal? _) (equal?_ofScalar t _ rfl).1
      | _ => rfl
    | sentinel s x =>
      cases b with
      | null t | undefined t => exact view_inlined_sentinel (equal? · _) (equal?_ofScalar s _ rfl).2
      | _ => exact absurd ⟨rfl, rfl⟩ h
    | _ =>
      cases b with
      | null s | undefined s => rfl
      | _ => exact absurd ⟨rfl, rfl⟩ h

theorem flatten_inlinedAll (shapes : List Shape) :
    flatten (inlinedAll c shapes) = inlinedAll c (flatten shapes) := by
  induction shapes with
  | nil => rfl
  | cons shape shapes ih =>
    cases shape with
    | sentinel s x =>
      simp only [inlinedAll, inlined, flatten, ← ih]
      split
      · exact flatten_ofScalar ..
      · rfl
    | oneOf s bs => simp [inlinedAll, inlined, flatten, ih]
    | _ => exact congrArg (List.cons _) ih

theorem oneOf?_inlinedAll (shapes : List Shape) (s : Span) :
    oneOf? (inlinedAll c shapes) s = (oneOf? shapes s).map (inlined c) := by
  unfold oneOf?
  rw [flatten_inlinedAll]
  match flatten shapes with
  | [] => rfl
  | [_] => rfl
  | a :: b :: rest =>
    have hlength := length_inlinedAll c (a :: b :: rest)
    simp only [inlinedAll] at hlength ⊢
    rw [hlength]
    split <;> rfl

mutual

theorem height_inlined : ∀ shape : Shape, Match.height (shape.inlined c) = Match.height shape
  | sentinel .. => view_inlined_sentinel Match.height (height_ofScalar ..)
  | record _ fields => congrArg (1 + ·) (heightFields_inlinedFields fields)
  | tuple _ items => congrArg (1 + ·) (heightList_inlinedAll items)
  | array _ element => congrArg (1 + ·) (height_inlined element)
  | oneOf _ bs => congrArg (1 + ·) (heightList_inlinedAll bs)
  | string .. | number .. | boolean .. | function .. | null _ | undefined _ | unknown _ => rfl

theorem heightList_inlinedAll : ∀ shapes : List Shape,
    Match.heightList (inlinedAll c shapes) = Match.heightList shapes
  | [] => rfl
  | shape :: shapes => by
    rw [inlinedAll, Match.heightList, height_inlined shape, heightList_inlinedAll shapes,
      Match.heightList]

theorem heightFields_inlinedFields : ∀ fields : List (String × Span × Shape),
    Match.heightFields (inlinedFields c fields) = Match.heightFields fields
  | [] => rfl
  | (_, _, shape) :: fields => by
    rw [inlinedFields, Match.heightFields, height_inlined shape,
      heightFields_inlinedFields fields, Match.heightFields]

end

end TypedConfig.Shape
