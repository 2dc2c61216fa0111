import TypedConfig.Check.Infer
import TypedConfig.Proofs.Check.Run
import TypedConfig.Proofs.Layout.Shapes

/-! # Operations on shapes do not depend on places

A check computation erases to another if, from the state with all spans forgotten, the other
gives what it gives and leaves what it leaves with the spans forgotten. Every operation of the
checker erases to itself at no place.
-/

namespace TypedConfig

def CheckError.bare (e : CheckError) : CheckError := { e with span := default }

namespace Check

open Shape (bareAll bareFields bareFrame bareFrames bareResults)

def Binding.bare (b : Binding) : Binding := ⟨b.role, b.shape.bare⟩

def State.bare (s : State) : State where
  globals := Entries.mapValues Binding.bare s.globals
  frames := bareFrames s.frames
  depth := s.depth
  calls := s.calls
  context := s.context
  errors := s.errors.map .bare

variable {α β γ δ : Type}

structure Erases (f : α → β) (m : CheckM α) (m' : CheckM β) : Prop where
  run : ∀ s, m' s.bare = (f (m s).1, (m s).2.bare)

namespace Erases

variable {f : α → β} {m n : CheckM α} {m' n' : CheckM β}

theorem pure {a : α} {b : β} (h : b = f a) : Erases f (Pure.pure a) (Pure.pure b) :=
  ⟨fun s => by subst h; rfl⟩

theorem bind {g : γ → δ} {k : α → CheckM γ} {k' : β → CheckM δ} (h : Erases f m m')
    (hk : ∀ a, Erases g (k a) (k' (f a))) : Erases g (m >>= k) (m' >>= k') := by
  refine ⟨fun s => ?_⟩
  show (fun r : β × State => k' r.1 r.2) (m' s.bare) = _
  rw [h.run s]
  exact (hk _).run _

/-- What follows a computation whose result has no span. -/
theorem after {g : γ → δ} {m m' : CheckM α} {k : α → CheckM γ} {k' : α → CheckM δ}
    (h : Erases id m m') (hk : ∀ a, Erases g (k a) (k' a)) : Erases g (m >>= k) (m' >>= k') :=
  h.bind hk

theorem map (g : α → γ) {m m' : CheckM α} (h : Erases id m m') :
    Erases id (g <$> m) (g <$> m') :=
  ⟨fun s => congrArg (fun r : α × State => (g r.1, r.2)) (h.run s)⟩

theorem ite {p : Prop} [Decidable p] (h : Erases f m m') (hn : Erases f n n') :
    Erases f (if p then m else n) (if p then m' else n') := by
  split
  · exact h
  · exact hn

theorem get : Erases State.bare (MonadState.get : CheckM State) MonadState.get := ⟨fun _ => rfl⟩

theorem modify {g g' : State → State} (h : ∀ s, g' s.bare = (g s).bare) :
    Erases id (modify g : CheckM Unit) (modify g') := ⟨fun s => congrArg (Prod.mk ()) (h s)⟩

theorem reportNoted (expected : String) {found found' : String} (h : found' = found) (s : Span)
    (note : Option String) :
    Erases id (reportNoted expected found s note) (reportNoted expected found' default note) :=
  .modify fun _ => by subst h; rfl

theorem report (expected : String) {found found' : String} (h : found' = found) (s : Span) :
    Erases id (report expected found s) (report expected found' default) :=
  .reportNoted _ h _ _

theorem refuse (expected : String) {found found' : String} (h : found' = found) (s t : Span) :
    Erases Shape.bare (refuse expected found s t) (refuse expected found' default default) :=
  .after (.report _ h _) fun _ => .pure rfl

theorem reportBranches (s : Span) : Erases id (reportBranches s) (reportBranches default) :=
  .reportNoted _ rfl _ _

theorem oneOf (shapes : List Shape) (s : Span) :
    Erases Shape.bare (oneOf shapes s) (oneOf (bareAll shapes) default) := by
  unfold Check.oneOf
  rw [Shape.oneOf?_bareAll shapes s]
  cases Shape.oneOf? shapes s with
  | some shape => exact .pure rfl
  | none => exact .after (.reportBranches _) fun _ => .pure rfl

theorem choose (condition : Option Bool) {yes yes' no no' : CheckM Shape}
    (hy : Erases Shape.bare yes yes') (hn : Erases Shape.bare no no') (s : Span) :
    Erases Shape.bare (choose condition yes no s) (choose condition yes' no' default) :=
  match condition with
  | some true => hy
  | some false => hn
  | none => hy.bind fun a => hn.bind fun b => .oneOf [a, b] s

theorem arrayOf (items : List Shape) (isKnown : Bool) (s : Span) :
    Erases Shape.bare (arrayOf items isKnown s) (arrayOf (bareAll items) isKnown default) :=
  .ite (.pure rfl) ((Erases.oneOf items s).bind fun _ => .pure rfl)

theorem inside (frames : List ShapeFrame) (h : Erases f m m') :
    Erases f (inside frames m) (inside (bareFrames frames) m') := by
  refine Erases.get.bind fun s => ?_
  refine .after (.modify fun _ => rfl) fun _ => h.bind fun _ => ?_
  exact .after (.modify fun _ => rfl) fun _ => .pure rfl

end Erases

theorem erases_plainMember (receiver : Shape) (property : String) (span : Span) :
    Erases Shape.bare (plainMember receiver property span)
      (plainMember receiver.bare property default) := by
  have hfound := receiver.describe_bare
  have htext := receiver.text?_bare
  have hreading : receiver.bare.describe ++ " when reading `" ++ property ++ "`" =
      receiver.describe ++ " when reading `" ++ property ++ "`" := by rw [hfound]
  cases receiver with
  | unknown s => exact .pure rfl
  | record s fields =>
    simp only [Shape.bare, plainMember] at hfound ⊢
    rw [Shape.get?_bareFields]
    cases Entries.get? fields property with
    | some v => exact .pure rfl
    | none => exact .refuse _ hfound _ _
  | tuple s items =>
    refine .ite (.pure ?_) (.ite (.refuse _ rfl _ _) (.refuse _ hfound _ _))
    rw [Shape.length_bareAll]
    rfl
  | array s element => exact .ite (.pure rfl) (.ite (.refuse _ rfl _ _) (.refuse _ hfound _ _))
  | null s | undefined s => exact .ite (.pure rfl) (.refuse _ hreading _ _)
  | string s v | number s v | boolean s v | sentinel s c | function s ps b fs | oneOf s bs =>
    refine .ite (.pure ?_) (.ite (.refuse _ rfl _ _) (.refuse _ hfound _ _))
    rw [htext]
    rfl

mutual

theorem erases_member (property : String) (span : Span) : ∀ receiver : Shape,
    Erases Shape.bare (member property span receiver) (member property default receiver.bare)
  | .oneOf _ branches => (erases_members property span branches).bind fun _ => .oneOf ..
  | .string .. | .number .. | .boolean .. | .sentinel .. | .record .. | .tuple .. | .array ..
  | .function .. | .null .. | .undefined .. | .unknown .. => by
    simp only [member, Shape.bare]
    exact erases_plainMember ..

theorem erases_members (property : String) (span : Span) : ∀ shapes : List Shape,
    Erases bareAll (members property span shapes) (members property default (bareAll shapes))
  | [] => .pure rfl
  | shape :: shapes =>
    (erases_member property span shape).bind fun _ =>
      (erases_members property span shapes).bind fun _ => .pure rfl

end

theorem erases_characterAt (receiver position : Shape) (span : Span) :
    Erases Shape.bare (characterAt receiver position span)
      (characterAt receiver.bare position.bare default) := by
  have hrefuse : Erases Shape.bare
      (refuse "an array indexed by a number or an object indexed by a string"
        (receiver.describe ++ " indexed by " ++ position.describe) span span)
      (refuse "an array indexed by a number or an object indexed by a string"
        (receiver.bare.describe ++ " indexed by " ++ position.bare.describe) default default) :=
    .refuse _ (by rw [receiver.describe_bare, position.describe_bare]) _ _
  unfold characterAt
  rw [receiver.isText_bare, receiver.text?_bare]
  cases receiver.isText with
  | false => exact hrefuse
  | true =>
    cases position with
    | number s x => exact .pure rfl
    | _ => exact hrefuse

theorem erases_index (receiver position : Shape) (span : Span) :
    Erases Shape.bare (index receiver position span)
      (index receiver.bare position.bare default) := by
  have hchar := erases_characterAt receiver position span
  cases receiver with
  | unknown s => exact .pure rfl
  | tuple s items =>
    cases position with
    | unknown s' => exact .pure rfl
    | number s' x =>
      cases x with
      | none => exact .oneOf ..
      | some x =>
        have hitem : (Number.index? x).bind (fun i => (bareAll items)[i]?) =
            ((Number.index? x).bind fun i => items[i]?).map Shape.bare := by
          cases Number.index? x with
          | none => rfl
          | some i => exact Shape.getElem?_bareAll items i
        simp only [Shape.bare, index, hitem, Shape.length_bareAll]
        cases (Number.index? x).bind fun i => items[i]? with
        | some item => exact .pure rfl
        | none => exact .refuse _ rfl _ _
    | _ => exact hchar
  | array s element =>
    cases position with
    | unknown s' => exact .pure rfl
    | number s' x => exact .pure rfl
    | _ => exact hchar
  | record s fields =>
    cases position with
    | unknown s' => exact .pure rfl
    | string s' v =>
      cases v with
      | none => exact .pure rfl
      | some key => exact erases_member key span (.record s fields)
    | sentinel s' c =>
      obtain ⟨name, literal⟩ := c
      cases literal with
      | string key => exact erases_member key span (.record s fields)
      | _ => exact hchar
    | _ => exact hchar
  | _ => cases position <;> first | exact .pure rfl | exact hchar

theorem erases_unary (op : UnaryOp) (operand : Shape) (span : Span) :
    Erases Shape.bare (unary op operand span) (unary op operand.bare default) := by
  have hfound : operand.bare.describe ++ " after `-`" = operand.describe ++ " after `-`" := by
    rw [operand.describe_bare]
  cases op with
  | not => exact .pure (by rw [operand.truthiness_bare]; rfl)
  | negate =>
    cases operand with
    | number s x => exact .pure rfl
    | unknown s => exact .pure rfl
    | _ => exact .refuse _ hfound _ _

theorem erases_operatorError (op : BinaryOp) (left right : Shape) (span : Span) :
    Erases Shape.bare (operatorError op left right span)
      (operatorError op left.bare right.bare default) :=
  .refuse _ (by rw [left.describe_bare, right.describe_bare]) _ _

theorem erases_concatenate (left right : Shape) (span : Span) :
    Erases Shape.bare (concatenate left right span)
      (concatenate left.bare right.bare default) := by
  unfold concatenate
  rw [left.rendering_bare, right.rendering_bare, left.kind?_bare, right.kind?_bare]
  cases left.kind? with
  | none => exact erases_operatorError ..
  | some k =>
    cases right.kind? with
    | none => exact erases_operatorError ..
    | some k' =>
      dsimp only
      cases left.rendering <;> cases right.rendering <;> exact .pure rfl

theorem erases_plainOperator (op : BinaryOp) (left right : Shape) (span : Span) :
    Erases Shape.bare (plainOperator op left right span)
      (plainOperator op left.bare right.bare default) := by
  have herror := erases_operatorError op left right span
  unfold plainOperator
  rw [Shape.equal?_bare, left.isText_bare, right.isText_bare, left.text?_bare, right.text?_bare]
  refine .ite (.pure rfl) (.ite (.pure rfl) (.ite (erases_concatenate ..) (.ite (.pure rfl) ?_)))
  cases left with
  | number s x =>
    cases right with
    | number s' y => exact .ite (.pure rfl) (.pure rfl)
    | _ => exact herror
  | _ => exact herror

mutual

theorem erases_operatorRight (op : BinaryOp) (left : Shape) (span : Span) : ∀ right : Shape,
    Erases Shape.bare (operatorRight op left span right)
      (operatorRight op left.bare default right.bare)
  | .unknown _ => .pure rfl
  | .oneOf _ branches => (erases_operatorRights op left span branches).bind fun _ => .oneOf ..
  | .string .. | .number .. | .boolean .. | .sentinel .. | .record .. | .tuple .. | .array ..
  | .function .. | .null .. | .undefined .. => by
    simp only [operatorRight, Shape.bare]
    exact erases_plainOperator ..

theorem erases_operatorRights (op : BinaryOp) (left : Shape) (span : Span) :
    ∀ shapes : List Shape, Erases bareAll (operatorRights op left span shapes)
      (operatorRights op left.bare default (bareAll shapes))
  | [] => .pure rfl
  | shape :: shapes =>
    (erases_operatorRight op left span shape).bind fun _ =>
      (erases_operatorRights op left span shapes).bind fun _ => .pure rfl

end

mutual

theorem erases_operator (op : BinaryOp) (right : Shape) (span : Span) : ∀ left : Shape,
    Erases Shape.bare (operator op right span left) (operator op right.bare default left.bare)
  | .unknown _ => .pure rfl
  | .oneOf _ branches => by
    simp only [operator, Shape.bare, right.isUnknown_bare]
    exact .ite (.pure rfl) ((erases_operators op right span branches).bind fun _ => .oneOf ..)
  | .string .. | .number .. | .boolean .. | .sentinel .. | .record .. | .tuple .. | .array ..
  | .function .. | .null .. | .undefined .. => by
    simp only [operator, Shape.bare]
    exact erases_operatorRight ..

theorem erases_operators (op : BinaryOp) (right : Shape) (span : Span) :
    ∀ shapes : List Shape, Erases bareAll (operators op right span shapes)
      (operators op right.bare default (bareAll shapes))
  | [] => .pure rfl
  | shape :: shapes =>
    (erases_operator op right span shape).bind fun _ =>
      (erases_operators op right span shapes).bind fun _ => .pure rfl

end

def LayoutFree (call : Caller) : Prop :=
  ∀ params body captured args span,
    Erases Shape.bare (call params body captured args span)
      (call (params.map .bare) body.bare (bareFrames captured) (bareAll args) default)

variable {call : Caller}

def bareFunction (f : List Ident × Expr × List ShapeFrame) : List Ident × Expr × List ShapeFrame :=
  (f.1.map .bare, f.2.1.bare, bareFrames f.2.2)

theorem erases_callback (method : String) (args : List Shape) (span : Span) :
    Erases (Option.map bareFunction) (callback method args span)
      (callback method (bareAll args) default) := by
  cases args with
  | nil => exact .after (.report _ rfl _) fun _ => .pure rfl
  | cons arg args =>
    have hfound := arg.describe_bare
    cases arg with
    | function s ps b fs => exact .pure rfl
    | unknown s => exact .pure rfl
    | _ => exact .after (.report _ hfound _) fun _ => .pure rfl

theorem append_bareResults (a b : Results) :
    Results.append (bareResults a) (bareResults b) = bareResults (Results.append a b) :=
  Prod.ext (Shape.bareAll_append ..).symm rfl

theorem contribution_bare (kind : Iteration) (element result : Shape) :
    contribution kind element.bare result.bare =
      bareResults (contribution kind element result) := by
  cases kind with
  | map => rfl
  | filter =>
    simp only [contribution, Shape.truthiness_bare]
    rcases result.truthiness with _ | _ | _ <;> rfl
  | flatMap =>
    simp only [contribution, Shape.isUnknown_bare, Shape.elements?_bare]
    split
    · rfl
    · cases result.elements? <;> rfl

theorem erases_iterate {apply apply' : Shape → Shape → CheckM Shape}
    (h : ∀ a b, Erases Shape.bare (apply a b) (apply' a.bare b.bare)) (kind : Iteration)
    (isKnown : Bool) (span : Span) (i : Nat) (elements : List Shape) :
    Erases bareResults (iterate apply kind isKnown span i elements)
      (iterate apply' kind isKnown default i (bareAll elements)) := by
  induction elements generalizing i with
  | nil => exact .pure rfl
  | cons element rest ih =>
    refine (h element (.number span _)).bind fun result => (ih (i + 1)).bind fun more => .pure ?_
    rw [contribution_bare, append_bareResults]

theorem concatItems_bareAll (args : List Shape) :
    concatItems (bareAll args) = bareResults (concatItems args) := by
  induction args with
  | nil => rfl
  | cons arg args ih =>
    rw [bareAll, concatItems, concatItems, ih, Shape.spread?_bare, ← append_bareResults]
    cases arg.spread? <;> rfl

theorem erases_separator (args : List Shape) :
    Erases id (separator args) (separator (bareAll args)) := by
  cases args with
  | nil => exact .pure rfl
  | cons arg args =>
    simp only [bareAll, separator, Shape.isText_bare, Shape.text?_bare, Shape.isUnknown_bare,
      Shape.span_bare]
    refine .ite (.pure rfl) (.ite (.pure rfl) ?_)
    exact .after (.report _ arg.describe_bare _) fun _ => .pure rfl

theorem erases_joinParts (elements : List Shape) :
    Erases id (joinParts elements) (joinParts (bareAll elements)) := by
  induction elements with
  | nil => exact .pure rfl
  | cons element rest ih =>
    have hpart : Erases id (joinPart element) (joinPart element.bare) := by
      unfold joinPart
      rw [element.rendering_bare, element.span_bare]
      cases element.rendering with
      | known text => exact .pure rfl
      | possible => exact .pure rfl
      | impossible =>
        exact .after (.report _ (by rw [element.describe_bare]) _) fun _ => .pure rfl
    rw [bareAll, joinParts_cons, joinParts_cons]
    exact .after hpart fun _ => .after ih fun _ => .pure rfl

theorem erases_unknownMethod (receiver : Shape) (name : String) (span : Span) :
    Erases Shape.bare (unknownMethod receiver name span)
      (unknownMethod receiver.bare name default) := by
  unfold unknownMethod
  rw [receiver.span_bare]
  exact .refuse _ receiver.describe_bare _ _

theorem erases_arrayMethod (h : LayoutFree call) (receiver : Shape) (elements : List Shape)
    (isKnown : Bool) (name : String) (args : List Shape) (span : Span) :
    Erases Shape.bare (arrayMethod call receiver elements isKnown name args span)
      (arrayMethod call receiver.bare (bareAll elements) isKnown name (bareAll args) default) := by
  unfold arrayMethod
  cases Iteration.ofName? name with
  | some kind =>
    refine (erases_callback ..).bind fun f => ?_
    cases f with
    | none => exact .pure rfl
    | some f =>
      refine Erases.bind (erases_iterate (fun a b => ?_) ..) fun items => .arrayOf ..
      exact h _ _ _ [a, b] _
  | none =>
    dsimp only
    refine .ite ?_ (.ite ?_ (erases_unknownMethod ..))
    · have hitems : Results.append (bareAll elements, isKnown) (bareResults (concatItems args)) =
          bareResults (Results.append (elements, isKnown) (concatItems args)) :=
        append_bareResults (elements, isKnown) _
      rw [concatItems_bareAll, hitems]
      exact .arrayOf ..
    · exact .after (erases_separator _) fun _ => .after (erases_joinParts _) fun _ => .pure rfl

theorem erases_splitText (text : Option String) (args : List Shape) (span : Span) :
    Erases Shape.bare (splitText text args span) (splitText text (bareAll args) default) := by
  cases args with
  | nil => exact .pure rfl
  | cons arg args =>
    simp only [bareAll, splitText, Shape.isText_bare, Shape.text?_bare, Shape.span_bare]
    refine .ite ?_ (.refuse _ arg.describe_bare _ _)
    cases both Text.split text arg.text? with
    | none => exact .pure rfl
    | some parts => exact .pure (by simp [Shape.bare, Shape.bareAll_eq_map])

theorem erases_textMethod (receiver : Shape) (name : String) (args : List Shape) (span : Span) :
    Erases Shape.bare (textMethod receiver name args span)
      (textMethod receiver.bare name (bareAll args) default) := by
  unfold textMethod
  rw [receiver.text?_bare]
  cases textMethod? name with
  | some f => exact .pure rfl
  | none => exact .ite (erases_splitText ..) (erases_unknownMethod ..)

theorem erases_callValue (h : LayoutFree call) (function : Shape) (args : List Shape)
    (errorSpan span : Span) :
    Erases Shape.bare (callValue call function args errorSpan span)
      (callValue call function.bare (bareAll args) default default) := by
  have hfound : function.bare.describe ++ " called as a function" =
      function.describe ++ " called as a function" := by rw [function.describe_bare]
  cases function with
  | function s ps b fs => exact h ..
  | unknown s => exact .pure rfl
  | _ => exact .refuse _ hfound _ _

theorem erases_plainMethod (h : LayoutFree call) (receiver : Shape) (name : String)
    (args : List Shape) (span : Span) :
    Erases Shape.bare (plainMethod call receiver name args span)
      (plainMethod call receiver.bare name (bareAll args) default) := by
  have hother : Erases Shape.bare
      (if receiver.isText then textMethod receiver name args span
        else unknownMethod receiver name span)
      (if receiver.bare.isText then textMethod receiver.bare name (bareAll args) default
        else unknownMethod receiver.bare name default) := by
    rw [receiver.isText_bare]
    exact .ite (erases_textMethod ..) (erases_unknownMethod ..)
  cases receiver with
  | unknown s => exact .pure rfl
  | record s fields =>
    refine (erases_member name span (.record s fields)).bind fun property => ?_
    have hcall := erases_callValue h property args span span
    cases property with
    | unknown s' => exact .pure rfl
    | _ => exact hcall
  | tuple s items => exact erases_arrayMethod h (.tuple s items) items ..
  | array s element => exact erases_arrayMethod h (.array s element) [element] ..
  | _ => exact hother

mutual

theorem erases_method (h : LayoutFree call) (name : String) (args : List Shape) (span : Span) :
    ∀ receiver : Shape, Erases Shape.bare (method call name args span receiver)
      (method call name (bareAll args) default receiver.bare)
  | .oneOf _ branches => (erases_methods h name args span branches).bind fun _ => .oneOf ..
  | .string .. | .number .. | .boolean .. | .sentinel .. | .record .. | .tuple .. | .array ..
  | .function .. | .null .. | .undefined .. | .unknown .. => by
    simp only [method, Shape.bare]
    exact erases_plainMethod h ..

theorem erases_methods (h : LayoutFree call) (name : String) (args : List Shape) (span : Span) :
    ∀ shapes : List Shape, Erases bareAll (methods call name args span shapes)
      (methods call name (bareAll args) default (bareAll shapes))
  | [] => .pure rfl
  | shape :: shapes =>
    (erases_method h name args span shape).bind fun _ =>
      (erases_methods h name args span shapes).bind fun _ => .pure rfl

end

def Partials.bare (p : Partials) : Partials := ⟨p.fields.map bareFields, p.isUnknown⟩

theorem erases_spreadInto (partials : List ShapeFields) (branch : Shape) :
    Erases (Option.map (List.map bareFields)) (spreadInto partials branch)
      (spreadInto (partials.map bareFields) branch.bare) := by
  have hfound := branch.describe_bare
  cases branch with
  | record s fields => exact .pure (by simp [Function.comp_def, Shape.putAll_bareFields])
  | null s | undefined s => exact .pure rfl
  | unknown s => exact .pure rfl
  | _ => exact .after (.report _ hfound _) fun _ => .pure rfl

theorem erases_spreadBranches (partials : List ShapeFields) (branches : List Shape) :
    Erases Partials.bare (spreadBranches partials branches)
      (spreadBranches (partials.map bareFields) (bareAll branches)) := by
  induction branches with
  | nil => exact .pure rfl
  | cons branch rest ih =>
    refine (erases_spreadInto ..).bind fun first => ih.bind fun more => .pure ?_
    cases first <;> simp [Partials.bare]

theorem branchesOf_bare (shape : Shape) : branchesOf shape.bare = bareAll (branchesOf shape) := by
  cases shape <;> rfl

theorem erases_spread (p : Partials) (shape : Shape) :
    Erases Partials.bare (p.spread shape) (p.bare.spread shape.bare) := by
  unfold Partials.spread
  rw [branchesOf_bare, shape.span_bare]
  refine (erases_spreadBranches ..).bind fun next => ?_
  have hfields : (if next.bare.fields.isEmpty then p.bare.fields else next.bare.fields) =
      (if next.fields.isEmpty then p.fields else next.fields).map bareFields := by
    simp only [Partials.bare, List.isEmpty_map]
    split <;> rfl
  simp only [hfields]
  simp only [Partials.bare, List.length_map]
  exact .ite (.after (.reportBranches _) fun _ => .pure rfl) (.pure rfl)

theorem put_bare (p : Partials) (key : String) (keySpan : Span) (shape : Shape) :
    p.bare.put key default shape.bare = (p.put key keySpan shape).bare := by
  simp only [Partials.put, Partials.bare, List.map_map]
  congr 1
  exact List.map_congr_left fun fields _ => Shape.put_bareFields fields key keySpan shape

theorem erases_shape (p : Partials) (span : Span) :
    Erases Shape.bare (p.shape span) (p.bare.shape default) := by
  have hrecords : p.bare.fields.map (.record default) = bareAll (p.fields.map (.record span)) := by
    simp [Partials.bare, Shape.bareAll_eq_map, Function.comp_def, Shape.bare]
  unfold Partials.shape
  rw [hrecords]
  exact .ite (.pure rfl) (.oneOf ..)

theorem inFrames?_bare (frames : List ShapeFrame) (name : String) :
    inFrames? (bareFrames frames) name = (inFrames? frames name).map Shape.bare := by
  induction frames with
  | nil => rfl
  | cons frame frames ih =>
    simp only [bareFrames, inFrames?, List.findSome?_cons] at ih ⊢
    rw [Shape.bareFrame_eq_mapValues, Entries.get?_mapValues]
    cases Entries.get? frame name with
    | some shape => rfl
    | none => exact ih

theorem lookup?_bare (s : State) (name : String) :
    s.bare.lookup? name = (s.lookup? name).map Shape.bare := by
  simp only [State.lookup?, State.bare, inFrames?_bare, Entries.get?_mapValues]
  cases inFrames? s.frames name with
  | some shape => rfl
  | none => cases Entries.get? s.globals name <;> rfl

theorem erases_name (text : String) (span : Span) :
    Erases Shape.bare (name text span) (name text default) := by
  refine Erases.get.bind fun s => ?_
  rw [lookup?_bare]
  cases s.lookup? text with
  | some shape => exact .pure (shape.leafAt_bare span)
  | none => exact .refuse _ rfl _ _

theorem erases_extend (text : Option String) (part : Shape) :
    Erases id (extend text part) (extend text part.bare) := by
  unfold extend
  rw [part.rendering_bare, part.span_bare]
  cases part.rendering with
  | known t => exact .pure rfl
  | possible => exact .pure rfl
  | impossible => exact .after (.report _ (by rw [part.describe_bare]) _) fun _ => .pure rfl

theorem frameOf_bare (span : Span) (params : List Ident) (args : List Shape) :
    frameOf default (params.map .bare) (bareAll args) = bareFrame (frameOf span params args) := by
  induction params generalizing args with
  | nil => cases args <;> rfl
  | cons p ps ih =>
    cases args with
    | nil =>
      have hrest := ih []
      simp only [List.map_cons, bareAll, frameOf, Ident.name_bare] at hrest ⊢
      rw [hrest, Shape.bareFrame_eq_mapValues, Shape.bareFrame_eq_mapValues]
      exact Entries.put_mapValues Shape.bare _ p.name (.undefined span)
    | cons a as =>
      simp only [List.map_cons, bareAll, frameOf, Ident.name_bare, ih]
      rw [Shape.bareFrame_eq_mapValues, Shape.bareFrame_eq_mapValues, Entries.put_mapValues]

end Check

end TypedConfig
