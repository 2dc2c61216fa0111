import TypedConfig.Check.Infer
import TypedConfig.Proofs.Entries
import TypedConfig.Proofs.Places.Trees

/-! # Places in shapes

A shape stands in a class of places if all places in it do: its own, those of the keys and shapes
inside it, and those in the body and the captured frames of a function. Whatever is taken out of
a shape that stands in a class stands there too.
-/

namespace TypedConfig

variable (S : Span → Prop)

namespace Shape

/-- A shape all of whose places belong to the class. -/
inductive StandsIn : Shape → Prop
  | string {s : Span} (v : Option String) (place : S s) : StandsIn (.string s v)
  | number {s : Span} (v : Option Float) (place : S s) : StandsIn (.number s v)
  | boolean {s : Span} (v : Option Bool) (place : S s) : StandsIn (.boolean s v)
  | sentinel {s : Span} (c : Sentinel) (place : S s) : StandsIn (.sentinel s c)
  | record {s : Span} {fields : ShapeFields} (place : S s)
    (keys : ∀ f ∈ fields, S f.2.1) (values : ∀ f ∈ fields, StandsIn f.2.2) :
    StandsIn (.record s fields)
  | tuple {s : Span} {items : List Shape} (place : S s) (elements : ∀ i ∈ items, StandsIn i) :
    StandsIn (.tuple s items)
  | array {s : Span} {element : Shape} (place : S s) (inner : StandsIn element) :
    StandsIn (.array s element)
  | function {s : Span} (params : List Ident) {body : Expr} {captured : List ShapeFrame}
    (place : S s) (inner : body.StandsIn S)
    (outer : ∀ frame ∈ captured, ∀ e ∈ frame, StandsIn e.2) :
    StandsIn (.function s params body captured)
  | null {s : Span} (place : S s) : StandsIn (.null s)
  | undefined {s : Span} (place : S s) : StandsIn (.undefined s)
  | oneOf {s : Span} {branches : List Shape} (place : S s)
    (alternatives : ∀ b ∈ branches, StandsIn b) : StandsIn (.oneOf s branches)
  | unknown {s : Span} (place : S s) : StandsIn (.unknown s)

def AllStandIn (shapes : List Shape) : Prop := ∀ shape ∈ shapes, shape.StandsIn S

def FieldsStandIn (fields : ShapeFields) : Prop := ∀ f ∈ fields, S f.2.1 ∧ f.2.2.StandsIn S

def FrameStandsIn (frame : ShapeFrame) : Prop := ∀ e ∈ frame, e.2.StandsIn S

def FramesStandIn (frames : List ShapeFrame) : Prop := ∀ frame ∈ frames, FrameStandsIn S frame

variable {S} {s : Span} {shape : Shape} {shapes : List Shape}

theorem StandsIn.span (h : shape.StandsIn S) : S shape.span := by cases h <;> assumption

theorem StandsIn.leafAt (h : shape.StandsIn S) (hs : S s) : (shape.leafAt s).StandsIn S := by
  cases h with
  | string v => exact .string v hs
  | number v => exact .number v hs
  | boolean v => exact .boolean v hs
  | sentinel c => exact .sentinel c hs
  | function ps place inner outer => exact .function ps hs inner outer
  | null => exact .null hs
  | undefined => exact .undefined hs
  | record place keys values => exact .record place keys values
  | tuple place elements => exact .tuple place elements
  | array place inner => exact .array place inner
  | oneOf place alternatives => exact .oneOf place alternatives
  | unknown place => exact .unknown place

theorem standsIn_record {fields : ShapeFields} :
    (record s fields).StandsIn S ↔ S s ∧ FieldsStandIn S fields := by
  constructor
  · rintro (_ | _ | _ | _ | ⟨place, keys, values⟩)
    exact ⟨place, fun f hf => ⟨keys f hf, values f hf⟩⟩
  · rintro ⟨place, h⟩
    exact .record place (fun f hf => (h f hf).1) fun f hf => (h f hf).2

theorem standsIn_tuple {items : List Shape} :
    (tuple s items).StandsIn S ↔ S s ∧ AllStandIn S items := by
  constructor
  · rintro (_ | _ | _ | _ | _ | ⟨place, items⟩)
    exact ⟨place, items⟩
  · exact fun h => .tuple h.1 h.2

theorem standsIn_array {element : Shape} :
    (array s element).StandsIn S ↔ S s ∧ element.StandsIn S := by
  constructor
  · rintro (_ | _ | _ | _ | _ | _ | ⟨place, element⟩)
    exact ⟨place, element⟩
  · exact fun h => .array h.1 h.2

theorem standsIn_function {params : List Ident} {body : Expr} {captured : List ShapeFrame} :
    (function s params body captured).StandsIn S ↔
      S s ∧ body.StandsIn S ∧ FramesStandIn S captured := by
  constructor
  · rintro (_ | _ | _ | _ | _ | _ | _ | ⟨_, place, body, captured⟩)
    exact ⟨place, body, captured⟩
  · exact fun h => .function _ h.1 h.2.1 h.2.2

theorem standsIn_oneOf {branches : List Shape} :
    (oneOf s branches).StandsIn S ↔ S s ∧ AllStandIn S branches := by
  constructor
  · rintro (_ | _ | _ | _ | _ | _ | _ | _ | _ | _ | ⟨place, branches⟩)
    exact ⟨place, branches⟩
  · exact fun h => .oneOf h.1 h.2

theorem allStandIn_nil : AllStandIn S [] := nofun

theorem allStandIn_cons : AllStandIn S (shape :: shapes) ↔ shape.StandsIn S ∧ AllStandIn S shapes :=
  List.forall_mem_cons

theorem allStandIn_append {others : List Shape} :
    AllStandIn S (shapes ++ others) ↔ AllStandIn S shapes ∧ AllStandIn S others :=
  List.forall_mem_append

theorem allStandIn_pair {a b : Shape} (ha : a.StandsIn S) (hb : b.StandsIn S) :
    AllStandIn S [a, b] :=
  allStandIn_cons.2 ⟨ha, allStandIn_cons.2 ⟨hb, allStandIn_nil⟩⟩

theorem AllStandIn.flatten (h : AllStandIn S shapes) : AllStandIn S (flatten shapes) := by
  induction shapes with
  | nil => exact allStandIn_nil
  | cons shape shapes ih =>
    obtain ⟨hshape, hshapes⟩ := allStandIn_cons.1 h
    cases shape with
    | oneOf s bs => exact allStandIn_append.2 ⟨(standsIn_oneOf.1 hshape).2, ih hshapes⟩
    | _ => exact allStandIn_cons.2 ⟨hshape, ih hshapes⟩

theorem AllStandIn.oneOf? (h : AllStandIn S shapes) (hs : S s) (hr : oneOf? shapes s = some shape) :
    shape.StandsIn S := by
  have hflat := h.flatten
  unfold Shape.oneOf? at hr
  split at hr
  · rename_i hf
    cases hr
    rw [hf] at hflat
    exact hflat shape (.head _)
  · split at hr
    · cases hr
    · cases hr
      exact .oneOf hs hflat

theorem StandsIn.elements (h : shape.StandsIn S) {r : List Shape × Bool}
    (hr : shape.elements? = some r) : AllStandIn S r.1 := by
  cases h with
  | tuple place elements =>
    cases hr
    exact elements
  | array place inner =>
    cases hr
    exact allStandIn_cons.2 ⟨inner, allStandIn_nil⟩
  | _ => cases hr

mutual

theorem StandsIn.spread : ∀ {shape : Shape}, shape.StandsIn S → ∀ {r : List Shape × Bool},
    shape.spread? = some r → AllStandIn S r.1
  | .unknown _, _, _, rfl => allStandIn_nil
  | .oneOf _ branches, h, _, hr => by
    obtain ⟨items, hitems, rfl⟩ := Option.map_eq_some_iff.1 hr
    exact AllStandIn.spreadAll (standsIn_oneOf.1 h).2 hitems
  | .string .., h, _, hr | .number .., h, _, hr | .boolean .., h, _, hr | .sentinel .., h, _, hr
  | .record .., h, _, hr | .tuple .., h, _, hr | .array .., h, _, hr | .function .., h, _, hr
  | .null _, h, _, hr | .undefined _, h, _, hr => h.elements hr

theorem AllStandIn.spreadAll : ∀ {shapes : List Shape}, AllStandIn S shapes →
    ∀ {items : List Shape}, spreadAll? shapes = some items → AllStandIn S items
  | [], _, _, rfl => allStandIn_nil
  | shape :: shapes, h, items, hr => by
    obtain ⟨hshape, hshapes⟩ := allStandIn_cons.1 h
    rw [spreadAll?] at hr
    split at hr
    · rename_i first known rest hfirst hrest
      cases hr
      exact allStandIn_append.2 ⟨hshape.spread hfirst, AllStandIn.spreadAll hshapes hrest⟩
    · cases hr

end

end Shape

open Shape (AllStandIn FieldsStandIn FrameStandsIn FramesStandIn)

variable {S} {s : Span} {shape : Shape} {shapes : List Shape}

namespace Shape.FieldsStandIn

variable {fields others : ShapeFields}

theorem get? (h : FieldsStandIn S fields) {key : String} {v : Span × Shape}
    (hv : Entries.get? fields key = some v) : v.2.StandsIn S :=
  (h _ (Entries.mem_of_get? hv)).2

theorem put (h : FieldsStandIn S fields) (key : String) (hs : S s) (hshape : shape.StandsIn S) :
    FieldsStandIn S (Entries.put fields key (s, shape)) :=
  Entries.forall_put (P := fun v : Span × Shape => S v.1 ∧ v.2.StandsIn S) h ⟨hs, hshape⟩

theorem putAll (h : FieldsStandIn S fields) (ho : FieldsStandIn S others) :
    FieldsStandIn S (Entries.putAll fields others) :=
  Entries.forall_putAll (P := fun v : Span × Shape => S v.1 ∧ v.2.StandsIn S) h ho

end Shape.FieldsStandIn

namespace Check

theorem allStandIn_branchesOf (h : shape.StandsIn S) : AllStandIn S (branchesOf shape) := by
  cases shape with
  | oneOf s bs => exact (Shape.standsIn_oneOf.1 h).2
  | _ => exact List.forall_mem_singleton.2 h

theorem standsIn_of_inFrames? {frames : List ShapeFrame} (h : FramesStandIn S frames)
    {text : String} (hf : inFrames? frames text = some shape) : shape.StandsIn S := by
  obtain ⟨frame, hframe, hget⟩ := List.exists_of_findSome?_eq_some hf
  exact h frame hframe _ (Entries.mem_of_get? hget)

theorem frameStandsIn_frameOf (hs : S s) (params : List Ident) {args : List Shape}
    (h : AllStandIn S args) : FrameStandsIn S (frameOf s params args) := by
  induction params generalizing args with
  | nil => exact nofun
  | cons p ps ih =>
    cases args with
    | nil => exact Entries.forall_put (P := Shape.StandsIn S) (ih h) (.undefined hs)
    | cons a as =>
      obtain ⟨ha, has⟩ := Shape.allStandIn_cons.1 h
      exact Entries.forall_put (P := Shape.StandsIn S) (ih has) ha

theorem allStandIn_contribution (kind : Iteration) {element result : Shape}
    (he : element.StandsIn S) (hr : result.StandsIn S) :
    AllStandIn S (contribution kind element result).1 := by
  have hone {shape : Shape} (h : shape.StandsIn S) : AllStandIn S [shape] :=
    List.forall_mem_singleton.2 h
  cases kind with
  | map => exact hone hr
  | filter =>
    rw [contribution]
    split
    · exact hone he
    · exact Shape.allStandIn_nil
    · exact hone he
  | flatMap =>
    rw [contribution]
    split
    · exact Shape.allStandIn_nil
    · cases helements : result.elements? with
      | none => exact hone hr
      | some r => exact hr.elements helements

theorem allStandIn_concatItems {args : List Shape} (h : AllStandIn S args) :
    AllStandIn S (concatItems args).1 := by
  induction args with
  | nil => exact Shape.allStandIn_nil
  | cons arg args ih =>
    obtain ⟨harg, hargs⟩ := Shape.allStandIn_cons.1 h
    refine Shape.allStandIn_append.2 ⟨?_, ih hargs⟩
    cases hspread : arg.spread? with
    | none => exact List.forall_mem_singleton.2 harg
    | some r => exact harg.spread hspread

end Check

end TypedConfig
