import TypedConfig.Proofs.Constants.Operations

/-! # Methods, objects and names with a constant written out

A method goes by the constant's literal as other operations do, a function in which a constant is
written out is called with the names of its parameters bound, and a name is looked up alike unless
it is the constant's own.
-/

namespace TypedConfig.Check

open Shape (inlinedAll inlinedFields inlinedFrame inlinedFrames inlinedResults)

variable {c : Sentinel} {frames : List ShapeFrame}

variable (c) in
def inlinedFunction (f : List Ident × Expr × List ShapeFrame) :
    List Ident × Expr × List ShapeFrame :=
  (f.1, f.2.1.inlined c (Entries.anyBinds f.2.2 c.name || Ident.anyNamed f.1 c.name),
    inlinedFrames c f.2.2)

variable (c) in
def InlinesCalls (call : Caller) : Prop :=
  ∀ frames params body captured args span,
    Inlines c frames (Shape.inlined c) (call params body captured args span)
      (call params
        (body.inlined c (Entries.anyBinds captured c.name || Ident.anyNamed params c.name))
        (inlinedFrames c captured) (inlinedAll c args) span)

variable {call : Caller}

theorem callback_of_kind? {arg : Shape} (h : arg.kind?.isSome = true) (method : String)
    (args : List Shape) (span : Span) :
    callback method (arg :: args) span = (do
      report ("a function argument to `." ++ method ++ "`") arg.describe span
      return none) := by
  cases arg with
  | string | number | boolean | sentinel => rfl
  | _ => cases h

theorem inlines_callback (method : String) (args : List Shape) (span : Span) :
    Inlines c frames (Option.map (inlinedFunction c)) (callback method args span)
      (callback method (inlinedAll c args) span) := by
  cases args with
  | nil => exact .after (.report ..) fun _ => .pure rfl
  | cons arg args =>
    cases arg with
    | function s ps b fs => exact .pure rfl
    | unknown s => exact .pure rfl
    | sentinel s x =>
      rw [inlinedAll, callback_of_kind? (isSome_kind?_inlined s x)]
      exact .after (.report ..) fun _ => .pure rfl
    | _ => exact .after (.report ..) fun _ => .pure rfl

theorem append_inlinedResults (a b : Results) :
    Results.append (inlinedResults c a) (inlinedResults c b) =
      inlinedResults c (Results.append a b) :=
  Prod.ext (Shape.inlinedAll_append ..).symm rfl

theorem contribution_inlined (kind : Iteration) (element result : Shape) :
    contribution kind (element.inlined c) (result.inlined c) =
      inlinedResults c (contribution kind element result) := by
  cases kind with
  | map => rfl
  | filter =>
    simp only [contribution, Shape.truthiness_inlined]
    rcases result.truthiness with _ | _ | _ <;> rfl
  | flatMap =>
    simp only [contribution, Shape.isUnknown_inlined, Shape.elements?_inlined]
    split
    · rfl
    · cases result.elements? <;> rfl

theorem inlines_iterate {apply apply' : Shape → Shape → CheckM Shape}
    (h : ∀ a b, Inlines c frames (Shape.inlined c) (apply a b)
      (apply' (a.inlined c) (b.inlined c)))
    (kind : Iteration) (isKnown : Bool) (span : Span) (i : Nat) (elements : List Shape) :
    Inlines c frames (inlinedResults c) (iterate apply kind isKnown span i elements)
      (iterate apply' kind isKnown span i (inlinedAll c elements)) := by
  induction elements generalizing i with
  | nil => exact .pure rfl
  | cons element rest ih =>
    refine (h element (.number span _)).bind fun result => (ih (i + 1)).bind fun more => .pure ?_
    rw [contribution_inlined, append_inlinedResults]

theorem concatItems_inlinedAll (args : List Shape) :
    concatItems (inlinedAll c args) = inlinedResults c (concatItems args) := by
  induction args with
  | nil => rfl
  | cons arg args ih =>
    rw [inlinedAll, concatItems, concatItems, ih, Shape.spread?_inlined, ← append_inlinedResults]
    cases arg.spread? <;> rfl

theorem inlines_separator (args : List Shape) :
    Inlines c frames id (separator args) (separator (inlinedAll c args)) := by
  cases args with
  | nil => exact .pure rfl
  | cons arg args =>
    simp only [inlinedAll, separator, Shape.isText_inlined, Shape.text?_inlined,
      Shape.isUnknown_inlined]
    exact .ite (.pure rfl) (.ite (.pure rfl) (.after (.report ..) fun _ => .pure rfl))

theorem inlines_joinParts (elements : List Shape) :
    Inlines c frames id (joinParts elements) (joinParts (inlinedAll c elements)) := by
  induction elements with
  | nil => exact .pure rfl
  | cons element rest ih =>
    have hpart : Inlines c frames id (joinPart element) (joinPart (element.inlined c)) := by
      unfold joinPart
      rw [element.rendering_inlined]
      cases element.rendering with
      | known text => exact .pure rfl
      | possible => exact .pure rfl
      | impossible => exact .after (.report ..) fun _ => .pure rfl
    rw [inlinedAll, joinParts_cons, joinParts_cons]
    exact .after hpart fun _ => .after ih fun _ => .pure rfl

theorem inlines_unknownMethod (receiver : Shape) (name : String) (span : Span) :
    Inlines c frames (Shape.inlined c) (unknownMethod receiver name span)
      (unknownMethod (receiver.inlined c) name span) := .refuse ..

theorem inlines_arrayMethod (h : InlinesCalls c call) (receiver : Shape) (elements : List Shape)
    (isKnown : Bool) (name : String) (args : List Shape) (span : Span) :
    Inlines c frames (Shape.inlined c) (arrayMethod call receiver elements isKnown name args span)
      (arrayMethod call (receiver.inlined c) (inlinedAll c elements) isKnown name
        (inlinedAll c args) span) := by
  unfold arrayMethod
  cases Iteration.ofName? name with
  | some kind =>
    refine (inlines_callback ..).bind fun f => ?_
    cases f with
    | none => exact .pure rfl
    | some f =>
      refine Inlines.bind (inlines_iterate (fun a b => ?_) ..) fun items => .arrayOf ..
      exact h _ _ _ _ [a, b] _
  | none =>
    dsimp only
    refine .ite ?_ (.ite ?_ (inlines_unknownMethod ..))
    · have hitems : Results.append (inlinedAll c elements, isKnown)
          (inlinedResults c (concatItems args)) =
          inlinedResults c (Results.append (elements, isKnown) (concatItems args)) :=
        append_inlinedResults (elements, isKnown) _
      rw [concatItems_inlinedAll, hitems]
      exact .arrayOf ..
    · exact .after (inlines_separator _) fun _ => .after (inlines_joinParts _) fun _ => .pure rfl

theorem inlines_splitText (text : Option String) (args : List Shape) (span : Span) :
    Inlines c frames (Shape.inlined c) (splitText text args span)
      (splitText text (inlinedAll c args) span) := by
  cases args with
  | nil => exact .pure rfl
  | cons arg args =>
    simp only [inlinedAll, splitText, Shape.isText_inlined, Shape.text?_inlined]
    refine .ite ?_ (.refuse ..)
    cases both Text.split text arg.text? with
    | none => exact .pure rfl
    | some parts =>
      exact .pure (by simp [Shape.inlined, Shape.inlinedAll_eq_map])

theorem inlines_textMethod (receiver : Shape) (name : String) (args : List Shape) (span : Span) :
    Inlines c frames (Shape.inlined c) (textMethod receiver name args span)
      (textMethod (receiver.inlined c) name (inlinedAll c args) span) := by
  unfold textMethod
  rw [receiver.text?_inlined]
  cases textMethod? name with
  | some f => exact .pure rfl
  | none => exact .ite (inlines_splitText ..) (inlines_unknownMethod ..)

theorem callValue_of_kind? {function : Shape} (h : function.kind?.isSome = true) (call : Caller)
    (args : List Shape) (errorSpan span : Span) :
    callValue call function args errorSpan span =
      refuse "a function" (function.describe ++ " called as a function") errorSpan span := by
  cases function with
  | string | number | boolean | sentinel => rfl
  | _ => cases h

theorem inlines_callValue (h : InlinesCalls c call) (function : Shape) (args : List Shape)
    (errorSpan errorSpan' span : Span) :
    Inlines c frames (Shape.inlined c) (callValue call function args errorSpan span)
      (callValue call (function.inlined c) (inlinedAll c args) errorSpan' span) := by
  cases function with
  | function s ps b fs => exact h ..
  | unknown s => exact .pure rfl
  | sentinel s x =>
    rw [callValue_of_kind? (isSome_kind?_inlined s x)]
    exact .refuse ..
  | _ => exact .refuse ..

theorem plainMethod_of_kind? {receiver : Shape} (h : receiver.kind?.isSome = true)
    (call : Caller) (name : String) (args : List Shape) (span : Span) :
    plainMethod call receiver name args span =
      if receiver.isText then textMethod receiver name args span
      else unknownMethod receiver name span := by
  cases receiver with
  | string | number | boolean | sentinel => rfl
  | _ => cases h

theorem inlines_plainMethod (h : InlinesCalls c call) (receiver : Shape) (name : String)
    (args : List Shape) (span : Span) :
    Inlines c frames (Shape.inlined c) (plainMethod call receiver name args span)
      (plainMethod call (receiver.inlined c) name (inlinedAll c args) span) := by
  by_cases hk : receiver.kind?.isSome = true
  · have hk' : (receiver.inlined c).kind?.isSome = true := by rwa [receiver.kind?_inlined]
    rw [plainMethod_of_kind? hk, plainMethod_of_kind? hk', receiver.isText_inlined]
    exact .ite (inlines_textMethod ..) (inlines_unknownMethod ..)
  · cases receiver with
    | string | number | boolean | sentinel => exact absurd rfl hk
    | unknown s => exact .pure rfl
    | record s fields =>
      refine (inlines_member name span (.record s fields)).bind fun property => ?_
      have hcall : Inlines c frames _ (callValue call property args span span) _ :=
        inlines_callValue h property args span span span
      cases property with
      | unknown t => exact .pure rfl
      | sentinel t x =>
        obtain ⟨-, hx⟩ | ⟨-, hx⟩ := Shape.inlined_sentinel (c := c) t x <;> rw [hx]
        · cases x.literal <;> exact .refuse ..
        · exact .refuse ..
      | _ => exact hcall
    | tuple s items => exact inlines_arrayMethod h (.tuple s items) items ..
    | array s element => exact inlines_arrayMethod h (.array s element) [element] ..
    | _ => exact .refuse ..

theorem method_of_kind? {receiver : Shape} (h : receiver.kind?.isSome = true) (call : Caller)
    (name : String) (args : List Shape) (span : Span) :
    method call name args span receiver = plainMethod call receiver name args span := by
  cases receiver with
  | string | number | boolean | sentinel => rfl
  | _ => cases h

mutual

theorem inlines_method (h : InlinesCalls c call) (name : String) (args : List Shape)
    (span : Span) : ∀ receiver : Shape,
    Inlines c frames (Shape.inlined c) (method call name args span receiver)
      (method call name (inlinedAll c args) span (receiver.inlined c))
  | .oneOf _ branches => (inlines_methods h name args span branches).bind fun _ => .oneOf ..
  | .sentinel s x => by
    rw [method_of_kind? rfl, method_of_kind? (isSome_kind?_inlined s x)]
    exact inlines_plainMethod h ..
  | .string .. | .number .. | .boolean .. | .record .. | .tuple .. | .array .. | .function ..
  | .null .. | .undefined .. | .unknown .. => by
    simp only [method, Shape.inlined]
    exact inlines_plainMethod h ..

theorem inlines_methods (h : InlinesCalls c call) (name : String) (args : List Shape)
    (span : Span) : ∀ shapes : List Shape,
    Inlines c frames (inlinedAll c) (methods call name args span shapes)
      (methods call name (inlinedAll c args) span (inlinedAll c shapes))
  | [] => .pure rfl
  | shape :: shapes =>
    (inlines_method h name args span shape).bind fun _ =>
      (inlines_methods h name args span shapes).bind fun _ => .pure rfl

end

variable (c) in
def Partials.inlined (p : Partials) : Partials := ⟨p.fields.map (inlinedFields c), p.isUnknown⟩

theorem spreadInto_of_kind? {branch : Shape} (h : branch.kind?.isSome = true)
    (partials : List ShapeFields) :
    spreadInto partials branch = (do
      report "an object to spread" branch.describe branch.span
      return none) := by
  cases branch with
  | string | number | boolean | sentinel => rfl
  | _ => cases h

theorem inlines_spreadInto (partials : List ShapeFields) (branch : Shape) :
    Inlines c frames (Option.map (List.map (inlinedFields c))) (spreadInto partials branch)
      (spreadInto (partials.map (inlinedFields c)) (branch.inlined c)) := by
  cases branch with
  | record s fields => exact .pure (by simp [Function.comp_def, Shape.putAll_inlinedFields])
  | null s | undefined s => exact .pure rfl
  | unknown s => exact .pure rfl
  | sentinel s x =>
    rw [spreadInto_of_kind? (isSome_kind?_inlined s x)]
    exact .after (.report ..) fun _ => .pure rfl
  | _ => exact .after (.report ..) fun _ => .pure rfl

theorem inlines_spreadBranches (partials : List ShapeFields) (branches : List Shape) :
    Inlines c frames (Partials.inlined c) (spreadBranches partials branches)
      (spreadBranches (partials.map (inlinedFields c)) (inlinedAll c branches)) := by
  induction branches with
  | nil => exact .pure rfl
  | cons branch rest ih =>
    refine (inlines_spreadInto ..).bind fun first => ih.bind fun more => .pure ?_
    cases first <;> simp [Partials.inlined]

theorem branchesOf_of_kind? {shape : Shape} (h : shape.kind?.isSome = true) :
    branchesOf shape = [shape] := by
  cases shape with
  | string | number | boolean | sentinel => rfl
  | _ => cases h

theorem branchesOf_inlined (shape : Shape) :
    branchesOf (shape.inlined c) = inlinedAll c (branchesOf shape) := by
  cases shape with
  | sentinel s x => exact branchesOf_of_kind? (isSome_kind?_inlined s x)
  | _ => rfl

theorem inlines_spread (p : Partials) (shape : Shape) :
    Inlines c frames (Partials.inlined c) (p.spread shape)
      ((p.inlined c).spread (shape.inlined c)) := by
  unfold Partials.spread
  rw [branchesOf_inlined, shape.span_inlined]
  refine (inlines_spreadBranches ..).bind fun next => ?_
  have hfields : (if (next.inlined c).fields.isEmpty then (p.inlined c).fields
        else (next.inlined c).fields) =
      (if next.fields.isEmpty then p.fields else next.fields).map (inlinedFields c) := by
    simp only [Partials.inlined, List.isEmpty_map]
    split <;> rfl
  simp only [hfields]
  simp only [Partials.inlined, List.length_map]
  exact .ite (.after (.reportBranches _) fun _ => .pure rfl) (.pure rfl)

theorem put_inlined (p : Partials) (key : String) (keySpan : Span) (shape : Shape) :
    (p.inlined c).put key keySpan (shape.inlined c) = (p.put key keySpan shape).inlined c := by
  simp only [Partials.put, Partials.inlined, List.map_map]
  congr 1
  exact List.map_congr_left fun fields _ => Shape.put_inlinedFields c fields key keySpan shape

theorem inlines_shape (p : Partials) (span : Span) :
    Inlines c frames (Shape.inlined c) (p.shape span) ((p.inlined c).shape span) := by
  have hrecords : (p.inlined c).fields.map (.record span) =
      inlinedAll c (p.fields.map (.record span)) := by
    simp [Partials.inlined, Shape.inlinedAll_eq_map, Function.comp_def, Shape.inlined]
  unfold Partials.shape
  rw [hrecords]
  exact .ite (.pure rfl) (.oneOf ..)

theorem inFrames?_inlined (frames : List ShapeFrame) (name : String) :
    inFrames? (inlinedFrames c frames) name = (inFrames? frames name).map (Shape.inlined c) := by
  induction frames with
  | nil => rfl
  | cons frame frames ih =>
    simp only [inlinedFrames, inFrames?, List.findSome?_cons] at ih ⊢
    rw [Shape.inlinedFrame_eq_mapValues, Entries.get?_mapValues]
    cases Entries.get? frame name with
    | some shape => rfl
    | none => exact ih

theorem isSome_inFrames? (frames : List ShapeFrame) (name : String) :
    (inFrames? frames name).isSome = Entries.anyBinds frames name := by
  induction frames with
  | nil => rfl
  | cons frame frames ih =>
    simp only [inFrames?, List.findSome?_cons, Entries.anyBinds, List.any_cons,
      Entries.contains] at ih ⊢
    cases Entries.get? frame name with
    | some shape => rfl
    | none => exact ih

namespace State.Inlines

variable {s s' : State}

/-- Every name but the free name of the constant is looked up alike. -/
theorem lookup? (h : s.Inlines c frames s') {name : String}
    (hname : name ≠ c.name ∨ Entries.anyBinds frames name = true) :
    s'.lookup? name = (s.lookup? name).map (Shape.inlined c) := by
  unfold State.lookup?
  rw [h.here, h.there, inFrames?_inlined]
  rcases hframes : inFrames? frames name with _ | shape
  · rcases hname with hname | hbound
    · dsimp only [Option.map_none]
      rw [h.globals name hname]
      cases Entries.get? s.globals name <;> rfl
    · rw [← isSome_inFrames?, hframes] at hbound
      cases hbound
  · rfl

/-- The free name of the constant is the constant's. -/
theorem lookup?_constant (h : s.Inlines c frames s')
    (hbound : Entries.anyBinds frames c.name = false) :
    s.lookup? c.name = some (.sentinel default c) := by
  rw [← isSome_inFrames?, Option.isSome_eq_false_iff, Option.isNone_iff_eq_none] at hbound
  unfold State.lookup?
  rw [h.here, hbound, h.constant]
  rfl

end State.Inlines

theorem inlines_name {text : String}
    (h : text ≠ c.name ∨ Entries.anyBinds frames text = true) (span : Span) :
    Inlines c frames (Shape.inlined c) (name text span) (name text span) := by
  rw [name_eq]
  refine .read (·.lookup? text) (·.lookup? text)
    (Option.map (Shape.inlined c)) (fun s s' hs => hs.lookup? h) fun found => ?_
  cases found with
  | some shape => exact .pure (shape.leafAt_inlined span)
  | none => exact .refuse ..

/-- What is written out for the constant has the shape of its literal. -/
theorem infer_expr (call : Caller) (span : Span) (v : Scalar) :
    infer call (v.expr span) = Pure.pure (Shape.ofScalar span v) := by
  cases v with
  | string v | boolean v => rfl
  | number x =>
    rw [Scalar.expr]
    split
    · have hneg : unary .negate (.number span (some (-x))) span =
          Pure.pure (.number span (some (-(-x)))) := rfl
      rw [infer, infer]
      exact hneg.trans (by rw [Number.neg_neg]; rfl)
    · rfl

theorem inlines_constant (call : Caller) (hbound : Entries.anyBinds frames c.name = false)
    (span : Span) :
    Inlines c frames (Shape.inlined c) (name c.name span) (infer call (c.literal.expr span)) := by
  rw [infer_expr]
  refine ⟨(steady_name c.name span).errors, fun s s' hs => .inr ?_⟩
  have hname : name c.name span s = (.sentinel span c, s) := by
    have hlookup := hs.lookup?_constant hbound
    rw [name_eq]
    show nameBound c.name span (s.lookup? c.name) s = _
    rw [hlookup]
    rfl
  rw [value, value, Check.after, Check.after, hname]
  exact ⟨(if_pos rfl).symm, hs⟩

theorem inlines_extend (text : Option String) (part : Shape) :
    Inlines c frames id (extend text part) (extend text (part.inlined c)) := by
  unfold extend
  rw [part.rendering_inlined]
  cases part.rendering with
  | known t => exact .pure rfl
  | possible => exact .pure rfl
  | impossible => exact .after (.report ..) fun _ => .pure rfl

theorem frameOf_inlined (span : Span) (params : List Ident) (args : List Shape) :
    frameOf span params (inlinedAll c args) = inlinedFrame c (frameOf span params args) := by
  induction params generalizing args with
  | nil => cases args <;> rfl
  | cons p ps ih =>
    cases args with
    | nil =>
      have hrest := ih []
      simp only [inlinedAll, frameOf] at hrest ⊢
      rw [Shape.inlinedFrame_eq_mapValues] at hrest ⊢
      rw [← Entries.put_mapValues, ← hrest]
      rfl
    | cons a as =>
      simp only [inlinedAll, frameOf, ih]
      rw [Shape.inlinedFrame_eq_mapValues, Shape.inlinedFrame_eq_mapValues, Entries.put_mapValues]

/-- A call binds the names of the parameters. -/
theorem contains_frameOf (span : Span) (params : List Ident) (args : List Shape) (name : String) :
    Entries.contains (frameOf span params args) name = Ident.anyNamed params name := by
  induction params generalizing args with
  | nil => cases args <;> rfl
  | cons p ps ih =>
    cases args with
    | nil | cons =>
      rw [frameOf, Entries.contains_put, ih]
      rfl

end TypedConfig.Check
