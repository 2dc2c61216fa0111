import TypedConfig.Proofs.Branching

/-! # Runs of check computations

What a check computation gives, and the state that it leaves. Finding a shape changes neither
the names that are bound nor the depth of calls; it only adds errors, and as long as it adds
none the calls it makes stay within their bound.
-/

namespace TypedConfig.Check

variable {α β : Type}

/-- What a computation gives if it starts in a state. -/
def value (m : CheckM α) (s : State) : α := (m s).1

def after (m : CheckM α) (s : State) : State := (m s).2

@[simp] theorem value_pure (a : α) (s : State) : value (pure a) s = a := rfl
@[simp] theorem after_pure (a : α) (s : State) : after (pure a) s = s := rfl

@[simp] theorem value_bind (m : CheckM α) (f : α → CheckM β) (s : State) :
    value (m >>= f) s = value (f (value m s)) (after m s) := rfl

@[simp] theorem after_bind (m : CheckM α) (f : α → CheckM β) (s : State) :
    after (m >>= f) s = after (f (value m s)) (after m s) := rfl

@[simp] theorem value_map (f : α → β) (m : CheckM α) (s : State) :
    value (f <$> m) s = f (value m s) := rfl

@[simp] theorem after_map (f : α → β) (m : CheckM α) (s : State) :
    after (f <$> m) s = after m s := rfl

@[simp] theorem value_get (s : State) : value get s = s := rfl
@[simp] theorem after_get (s : State) : after get s = s := rfl
@[simp] theorem after_modify (f : State → State) (s : State) : after (modify f) s = f s := rfl

theorem after_inside (frames : List ShapeFrame) (work : CheckM α) (s : State) :
    after (inside frames work) s =
      let t := after work { s with frames := frames, depth := s.depth + 1 }
      { t with frames := s.frames, depth := t.depth - 1 } := rfl

/-- A computation that keeps names and depth, only adds errors, and counts no call beyond the
bound without an error. -/
structure Steady (m : CheckM α) : Prop where
  globals : ∀ s, (after m s).globals = s.globals
  frames : ∀ s, (after m s).frames = s.frames
  depth : ∀ s, (after m s).depth = s.depth
  errors : ∀ s, s.errors <:+ (after m s).errors
  calls : ∀ s, (after m s).errors = [] → s.calls ≤ maxCalls → (after m s).calls ≤ maxCalls

namespace Steady

theorem errors_nil {m : CheckM α} (h : Steady m) {s : State} (he : (after m s).errors = []) :
    s.errors = [] := List.suffix_nil.1 (he ▸ h.errors s)

@[simp] theorem pure (a : α) : Steady (Pure.pure a) :=
  ⟨fun _ => rfl, fun _ => rfl, fun _ => rfl, fun _ => List.suffix_rfl, fun _ _ h => h⟩

theorem bind {m : CheckM α} {f : α → CheckM β} (hm : Steady m) (hf : ∀ a, Steady (f a)) :
    Steady (m >>= f) where
  globals s := ((hf _).globals _).trans (hm.globals s)
  frames s := ((hf _).frames _).trans (hm.frames s)
  depth s := ((hf _).depth _).trans (hm.depth s)
  errors s := (hm.errors s).trans ((hf _).errors _)
  calls s he hc := (hf _).calls _ he (hm.calls s ((hf _).errors_nil he) hc)

theorem mapM {f : β → CheckM α} (hf : ∀ b, Steady (f b)) (bs : List β) :
    Steady (bs.mapM f) := by
  induction bs with
  | nil => exact pure _
  | cons b bs ih =>
    rw [List.mapM_cons]
    exact (hf b).bind fun _ => ih.bind fun _ => pure _

@[simp] theorem get : Steady (MonadState.get : CheckM State) :=
  ⟨fun _ => rfl, fun _ => rfl, fun _ => rfl, fun _ => List.suffix_rfl, fun _ _ h => h⟩

@[simp] theorem reportNoted (expected found : String) (span : Span) (note : Option String) :
    Steady (reportNoted expected found span note) :=
  ⟨fun _ => rfl, fun _ => rfl, fun _ => rfl, fun _ => List.suffix_cons _ _, fun _ _ h => h⟩

@[simp] theorem report (expected found : String) (span : Span) :
    Steady (report expected found span) := reportNoted ..

@[simp] theorem reportBranches (span : Span) : Steady (reportBranches span) := reportNoted ..

@[simp] theorem refuse (expected found : String) (errorSpan span : Span) :
    Steady (refuse expected found errorSpan span) := (report ..).bind fun _ => pure _

@[simp] theorem oneOf (shapes : List Shape) (span : Span) : Steady (oneOf shapes span) := by
  unfold Check.oneOf
  split
  · exact pure _
  · exact (reportBranches _).bind fun _ => pure _

@[simp] theorem arrayOf (items : List Shape) (isKnown : Bool) (span : Span) :
    Steady (arrayOf items isKnown span) := by
  unfold Check.arrayOf
  split
  · exact pure _
  · exact (oneOf ..).bind fun _ => pure _

theorem choose (condition : Option Bool) {yes no : CheckM Shape} (hy : Steady yes)
    (hn : Steady no) (span : Span) : Steady (choose condition yes no span) :=
  match condition with
  | some true => hy
  | some false => hn
  | none => hy.bind fun _ => hn.bind fun _ => oneOf ..

/-- The frames and the depth of a call are undone after it. -/
theorem inside (frames : List ShapeFrame) {work : CheckM α} (h : Steady work) :
    Steady (inside frames work) where
  globals s := h.globals _
  frames _ := rfl
  depth s := by rw [after_inside]; simp [h.depth]
  errors s := h.errors { s with frames := frames, depth := s.depth + 1 }
  calls s := h.calls { s with frames := frames, depth := s.depth + 1 }

end Steady

@[simp] theorem steady_plainMember (receiver : Shape) (property : String) (span : Span) :
    Steady (plainMember receiver property span) := by
  unfold plainMember
  repeat' split
  all_goals simp

mutual

@[simp] theorem steady_member (property : String) (span : Span) :
    ∀ receiver, Steady (member property span receiver)
  | .oneOf _ branches => (steady_members property span branches).bind fun _ => .oneOf ..
  | .string .. | .number .. | .boolean .. | .sentinel .. | .record .. | .tuple .. | .array ..
  | .function .. | .null .. | .undefined .. | .unknown .. => by simp [member]

@[simp] theorem steady_members (property : String) (span : Span) :
    ∀ shapes, Steady (members property span shapes)
  | [] => .pure _
  | shape :: shapes =>
    (steady_member property span shape).bind fun _ =>
      (steady_members property span shapes).bind fun _ => .pure _

end

theorem members_eq (property : String) (span : Span) (shapes : List Shape) :
    members property span shapes = shapes.mapM (member property span) := by
  induction shapes with
  | nil => rfl
  | cons shape shapes ih => rw [members, ih, List.mapM_cons]

/-- The index of a text, or of what has no elements and no fields. -/
def characterAt (receiver position : Shape) (span : Span) : CheckM Shape :=
  match receiver.isText, position with
  | true, .number _ x =>
    let text := do charAt? (← receiver.text?) (← x)
    return .string span text
  | _, _ =>
    refuse "an array indexed by a number or an object indexed by a string"
      (receiver.describe ++ " indexed by " ++ position.describe) span span

@[simp] theorem steady_index (receiver position : Shape) (span : Span) :
    Steady (index receiver position span) := by
  unfold index
  repeat' split
  all_goals simp

@[simp] theorem steady_unary (op : UnaryOp) (operand : Shape) (span : Span) :
    Steady (unary op operand span) := by
  unfold unary
  split <;> simp

@[simp] theorem steady_operatorError (op : BinaryOp) (left right : Shape) (span : Span) :
    Steady (operatorError op left right span) := .refuse ..

@[simp] theorem steady_concatenate (left right : Shape) (span : Span) :
    Steady (concatenate left right span) := by
  unfold concatenate
  repeat' split
  all_goals simp

@[simp] theorem steady_plainOperator (op : BinaryOp) (left right : Shape) (span : Span) :
    Steady (plainOperator op left right span) := by
  unfold plainOperator
  repeat' split
  all_goals simp

mutual

@[simp] theorem steady_operatorRight (op : BinaryOp) (left : Shape) (span : Span) :
    ∀ right, Steady (operatorRight op left span right)
  | .unknown _ => .pure _
  | .oneOf _ branches => (steady_operatorRights op left span branches).bind fun _ => .oneOf ..
  | .string .. | .number .. | .boolean .. | .sentinel .. | .record .. | .tuple .. | .array ..
  | .function .. | .null .. | .undefined .. => by simp [operatorRight]

@[simp] theorem steady_operatorRights (op : BinaryOp) (left : Shape) (span : Span) :
    ∀ shapes, Steady (operatorRights op left span shapes)
  | [] => .pure _
  | shape :: shapes =>
    (steady_operatorRight op left span shape).bind fun _ =>
      (steady_operatorRights op left span shapes).bind fun _ => .pure _

end

mutual

@[simp] theorem steady_operator (op : BinaryOp) (right : Shape) (span : Span) :
    ∀ left, Steady (operator op right span left)
  | .unknown _ => .pure _
  | .oneOf _ branches => by
    unfold operator
    split
    · simp
    · exact (steady_operators op right span branches).bind fun _ => .oneOf ..
  | .string .. | .number .. | .boolean .. | .sentinel .. | .record .. | .tuple .. | .array ..
  | .function .. | .null .. | .undefined .. => by simp [operator]

@[simp] theorem steady_operators (op : BinaryOp) (right : Shape) (span : Span) :
    ∀ shapes, Steady (operators op right span shapes)
  | [] => .pure _
  | shape :: shapes =>
    (steady_operator op right span shape).bind fun _ =>
      (steady_operators op right span shapes).bind fun _ => .pure _

end

theorem operatorRights_eq (op : BinaryOp) (left : Shape) (span : Span)
    (shapes : List Shape) :
    operatorRights op left span shapes = shapes.mapM (operatorRight op left span) := by
  induction shapes with
  | nil => rfl
  | cons shape shapes ih => rw [operatorRights, ih, List.mapM_cons]

theorem operators_eq (op : BinaryOp) (right : Shape) (span : Span) (shapes : List Shape) :
    operators op right span shapes = shapes.mapM (operator op right span) := by
  induction shapes with
  | nil => rfl
  | cons shape shapes ih => rw [operators, ih, List.mapM_cons]

@[simp] theorem steady_callback (method : String) (args : List Shape) (span : Span) :
    Steady (callback method args span) := by
  unfold callback
  split
  · exact .pure _
  · exact .pure _
  · exact (Steady.report ..).bind fun _ => .pure _

@[simp] theorem steady_separator (args : List Shape) : Steady (separator args) := by
  unfold separator
  repeat' split
  · exact .pure _
  · exact .pure _
  · exact .pure _
  · exact (Steady.report ..).bind fun _ => .pure _

/-- The text of one element of `join`, if it is known. -/
def joinPart (element : Shape) : CheckM (Option String) :=
  match element.rendering with
  | .known text => return some text
  | .possible => return none
  | .impossible => do
    report "array elements that are strings, numbers or booleans"
      (element.describe ++ " in `.join`") element.span
    return none

theorem joinParts_cons (element : Shape) (rest : List Shape) :
    joinParts (element :: rest) = do
      let part ← joinPart element
      let parts ← joinParts rest
      return do return (← part) :: (← parts) := by
  rw [joinParts, joinPart]
  cases element.rendering <;> rfl

@[simp] theorem steady_joinPart (element : Shape) : Steady (joinPart element) := by
  unfold joinPart
  split
  · exact .pure _
  · exact .pure _
  · exact (Steady.report ..).bind fun _ => .pure _

@[simp] theorem steady_joinParts (elements : List Shape) : Steady (joinParts elements) := by
  induction elements with
  | nil => exact .pure _
  | cons element rest ih =>
    rw [joinParts_cons]
    exact (steady_joinPart _).bind fun _ => ih.bind fun _ => .pure _

@[simp] theorem steady_unknownMethod (receiver : Shape) (name : String) (span : Span) :
    Steady (unknownMethod receiver name span) := .refuse ..

@[simp] theorem steady_splitText (text : Option String) (args : List Shape) (span : Span) :
    Steady (splitText text args span) := by
  unfold splitText
  repeat' split
  all_goals simp

@[simp] theorem steady_textMethod (receiver : Shape) (name : String) (args : List Shape)
    (span : Span) : Steady (textMethod receiver name args span) := by
  unfold textMethod
  repeat' split
  all_goals simp

theorem methods_eq (call : Caller) (name : String) (args : List Shape)
    (span : Span) (shapes : List Shape) :
    methods call name args span shapes = shapes.mapM (method call name args span) := by
  induction shapes with
  | nil => rfl
  | cons shape shapes ih => rw [methods, ih, List.mapM_cons]

@[simp] theorem steady_spreadInto (partials : List ShapeFields) (branch : Shape) :
    Steady (spreadInto partials branch) := by
  unfold spreadInto
  split
  · exact .pure _
  · exact .pure _
  · exact .pure _
  · exact .pure _
  · exact (Steady.report ..).bind fun _ => .pure _

@[simp] theorem steady_spreadBranches (partials : List ShapeFields) (branches : List Shape) :
    Steady (spreadBranches partials branches) := by
  induction branches with
  | nil => exact .pure _
  | cons branch rest ih => exact (steady_spreadInto ..).bind fun _ => ih.bind fun _ => .pure _

@[simp] theorem steady_spread (p : Partials) (shape : Shape) : Steady (p.spread shape) := by
  refine (steady_spreadBranches ..).bind fun next => ?_
  dsimp only
  split
  · exact (Steady.reportBranches _).bind fun _ => .pure _
  · exact .pure _

@[simp] theorem steady_shape (p : Partials) (span : Span) : Steady (p.shape span) := by
  unfold Partials.shape
  split
  · exact .pure _
  · exact .oneOf ..

@[simp] theorem steady_name (text : String) (span : Span) : Steady (name text span) := by
  refine Steady.get.bind fun s => ?_
  split
  · exact .pure _
  · exact .refuse ..

/-- The shape of a name that is bound to a shape, if any. -/
def nameBound (text : String) (span : Span) (bound : Option Shape) : CheckM Shape :=
  bound.elim (refuse "a declared identifier" ("unknown identifier `" ++ text ++ "`") span span)
    fun shape => return shape.leafAt span

theorem name_eq (text : String) (span : Span) : name text span = (do
    let s ← get
    nameBound text span (s.lookup? text)) := by
  unfold name
  refine bind_congr fun s => ?_
  cases s.lookup? text <;> rfl

@[simp] theorem steady_extend (text : Option String) (part : Shape) :
    Steady (extend text part) := by
  unfold extend
  split
  · exact .pure _
  · exact .pure _
  · exact (Steady.report ..).bind fun _ => .pure _

/-- Relations that a steady computation has with itself and that sequencing keeps. -/
structure Congruence (R : ∀ {α : Type}, CheckM α → CheckM α → Prop) : Prop where
  refl : ∀ {α : Type} {m : CheckM α}, Steady m → R m m
  bind : ∀ {α β : Type} {m m' : CheckM α} {f f' : α → CheckM β},
    R m m' → (∀ a, R (f a) (f' a)) → R (m >>= f) (m' >>= f')

def Relates (R : ∀ {α : Type}, CheckM α → CheckM α → Prop) (call call' : Caller) : Prop :=
  ∀ params body captured args span,
    R (call params body captured args span) (call' params body captured args span)

theorem infer_call (call : Caller) {callee : Expr} {args : List Expr} {s : Span}
    (h : ¬ ∃ s object property, callee = .member s object property) :
    infer call (.call s callee args) = (do
      let function ← infer call callee
      let args ← inferAll call args
      callValue call function args callee.span s) := by
  rw [infer]
  rintro s object property rfl
  exact h ⟨s, object, property, rfl⟩

namespace Congruence

variable {R : ∀ {α : Type}, CheckM α → CheckM α → Prop} (hR : Congruence R) {call call' : Caller}

include hR

theorem pure (a : α) : R (Pure.pure a : CheckM α) (Pure.pure a) := hR.refl (.pure a)

/-- What follows the same computation. -/
theorem after {m : CheckM α} {f f' : α → CheckM β} (h : Steady m) (hf : ∀ a, R (f a) (f' a)) :
    R (m >>= f) (m >>= f') := hR.bind (hR.refl h) hf

theorem choose (condition : Option Bool) {yes yes' no no' : CheckM Shape} (hy : R yes yes')
    (hn : R no no') (span : Span) :
    R (choose condition yes no span) (choose condition yes' no' span) :=
  match condition with
  | some true => hy
  | some false => hn
  | none => hR.bind hy fun _ => hR.bind hn fun _ => hR.refl (.oneOf ..)

theorem iterate {apply apply' : Shape → Shape → CheckM Shape}
    (h : ∀ a b, R (apply a b) (apply' a b)) (kind : Iteration) (isKnown : Bool) (span : Span)
    (i : Nat) (elements : List Shape) :
    R (iterate apply kind isKnown span i elements)
      (iterate apply' kind isKnown span i elements) := by
  induction elements generalizing i with
  | nil => exact hR.pure _
  | cons element rest ih => exact hR.bind (h ..) fun _ => hR.bind (ih _) fun _ => hR.pure _

theorem callValue (h : Relates R call call') (function : Shape) (args : List Shape)
    (errorSpan span : Span) :
    R (callValue call function args errorSpan span)
      (callValue call' function args errorSpan span) := by
  unfold Check.callValue
  split
  · exact h ..
  · exact hR.pure _
  · exact hR.refl (.refuse ..)

theorem arrayMethod (h : Relates R call call') (receiver : Shape) (elements : List Shape)
    (isKnown : Bool) (name : String) (args : List Shape) (span : Span) :
    R (arrayMethod call receiver elements isKnown name args span)
      (arrayMethod call' receiver elements isKnown name args span) := by
  unfold Check.arrayMethod
  split
  · refine hR.after (steady_callback ..) fun f => ?_
    split
    · exact hR.pure _
    · exact hR.bind (hR.iterate (fun _ _ => h ..) ..) fun _ => hR.refl (.arrayOf ..)
  · split
    · exact hR.refl (.arrayOf ..)
    · split
      · exact hR.after (steady_separator _) fun _ => hR.after (steady_joinParts _) fun _ =>
          hR.pure _
      · exact hR.refl (steady_unknownMethod ..)

theorem plainMethod (h : Relates R call call') (receiver : Shape) (name : String)
    (args : List Shape) (span : Span) :
    R (plainMethod call receiver name args span) (plainMethod call' receiver name args span) := by
  unfold Check.plainMethod
  split
  · exact hR.pure _
  · refine hR.after (steady_member ..) fun property => ?_
    split
    · exact hR.pure _
    · exact hR.callValue h ..
  · split
    · exact hR.arrayMethod h ..
    · split
      · exact hR.refl (steady_textMethod ..)
      · exact hR.refl (steady_unknownMethod ..)

mutual

theorem method (h : Relates R call call') (name : String) (args : List Shape) (span : Span) :
    ∀ receiver, R (method call name args span receiver) (method call' name args span receiver)
  | .oneOf _ branches => hR.bind (methods h name args span branches) fun _ => hR.refl (.oneOf ..)
  | .string .. | .number .. | .boolean .. | .sentinel .. | .record .. | .tuple .. | .array ..
  | .function .. | .null .. | .undefined .. | .unknown .. => by
    simp only [Check.method]
    exact hR.plainMethod h ..

theorem methods (h : Relates R call call') (name : String) (args : List Shape) (span : Span) :
    ∀ shapes, R (methods call name args span shapes) (methods call' name args span shapes)
  | [] => hR.pure _
  | shape :: shapes =>
    hR.bind (method h name args span shape) fun _ =>
      hR.bind (methods h name args span shapes) fun _ => hR.pure _

end

mutual

/-- What holds of all calls holds of finding the shape of every expression. -/
theorem infer (h : Relates R call call') : ∀ e, R (infer call e) (infer call' e)
  | .string .. | .number .. | .boolean .. | .null _ | .undefined _ => hR.pure _
  | .name .. => hR.refl (steady_name ..)
  | .template _ segments => hR.bind (inferSegments h _ segments) fun _ => hR.pure _
  | .array _ items => hR.bind (inferItems h items) fun _ => hR.refl (.arrayOf ..)
  | .object _ ms => hR.bind (inferMembers h _ ms) fun _ => hR.refl (steady_shape ..)
  | .member _ object _ => hR.bind (infer h object) fun _ => hR.refl (steady_member ..)
  | .index _ object position =>
    hR.bind (infer h object) fun _ => hR.bind (infer h position) fun _ =>
      hR.refl (steady_index ..)
  | .call _ callee args => by
    have hargs := inferAll h args
    by_cases hm : ∃ s object property, callee = .member s object property
    · obtain ⟨_, object, _, rfl⟩ := hm
      rw [Check.infer, Check.infer]
      exact hR.bind (infer h object) fun _ => hR.bind hargs fun _ => hR.method h ..
    · rw [infer_call call hm, infer_call call' hm]
      exact hR.bind (infer h callee) fun _ => hR.bind hargs fun _ => hR.callValue h ..
  | .arrow .. => hR.after .get fun _ => hR.pure _
  | .unary _ _ operand => hR.bind (infer h operand) fun _ => hR.refl (steady_unary ..)
  | .binary s op left right => by
    have hl := infer h left
    have hr := infer h right
    cases hop : op.stopsAt? with
    | some stop =>
      rw [infer_shortened _ _ hop, infer_shortened _ _ hop]
      exact hR.bind hl fun l => hR.choose _ (hR.pure l) hr s
    | none =>
      rw [infer_operator _ _ hop, infer_operator _ _ hop]
      exact hR.bind hl fun _ => hR.bind hr fun _ => hR.refl (steady_operator ..)
  | .conditional s test consequent alternate => by
    rw [infer_conditional, infer_conditional]
    exact hR.bind (infer h test) fun _ => hR.choose _ (infer h consequent) (infer h alternate) s

theorem inferSegments (h : Relates R call call') : ∀ text segments,
    R (inferSegments call text segments) (inferSegments call' text segments)
  | _, [] => hR.pure _
  | _, .text _ :: rest => inferSegments h _ rest
  | _, .hole e :: rest =>
    hR.bind (infer h e) fun _ => hR.after (steady_extend ..) fun _ => inferSegments h _ rest

theorem inferItems (h : Relates R call call') : ∀ items,
    R (inferItems call items) (inferItems call' items)
  | [] => hR.pure _
  | .item e :: rest => hR.bind (infer h e) fun _ => hR.bind (inferItems h rest) fun _ => hR.pure _
  | .spread e :: rest => by
    rw [Check.inferItems, Check.inferItems]
    refine hR.bind (infer h e) fun shape => ?_
    split
    · exact hR.bind (inferItems h rest) fun _ => hR.pure _
    · exact hR.after (.report ..) fun _ => hR.bind (inferItems h rest) fun _ => hR.pure _

theorem inferMembers (h : Relates R call call') : ∀ p ms,
    R (inferMembers call p ms) (inferMembers call' p ms)
  | _, [] => hR.pure _
  | _, .field _ _ e :: rest => hR.bind (infer h e) fun _ => inferMembers h _ rest
  | _, .spread e :: rest =>
    hR.bind (infer h e) fun _ => hR.after (steady_spread ..) fun _ => inferMembers h _ rest

theorem inferAll (h : Relates R call call') : ∀ es, R (inferAll call es) (inferAll call' es)
  | [] => hR.pure _
  | e :: es => hR.bind (infer h e) fun _ => hR.bind (inferAll h es) fun _ => hR.pure _

end

end Congruence

def SteadyCaller (call : Caller) : Prop :=
  ∀ params body captured args span, Steady (call params body captured args span)

variable {call : Caller}

theorem Congruence.ofSteady : Congruence fun m _ => Steady m := ⟨id, .bind⟩

theorem SteadyCaller.relates (hc : SteadyCaller call) : Relates (fun m _ => Steady m) call call :=
  hc

theorem steady_iterate {apply : Shape → Shape → CheckM Shape} (h : ∀ a b, Steady (apply a b))
    (kind : Iteration) (isKnown : Bool) (span : Span) (i : Nat) (elements : List Shape) :
    Steady (iterate apply kind isKnown span i elements) := by
  induction elements generalizing i with
  | nil => exact .pure _
  | cons element rest ih => exact (h ..).bind fun _ => (ih _).bind fun _ => .pure _

theorem steady_callValue (hc : SteadyCaller call) (function : Shape) (args : List Shape)
    (errorSpan span : Span) : Steady (callValue call function args errorSpan span) :=
  Congruence.ofSteady.callValue hc.relates function args errorSpan span

theorem steady_method (hc : SteadyCaller call) (name : String) (args : List Shape)
    (span : Span) (receiver : Shape) : Steady (method call name args span receiver) :=
  Congruence.ofSteady.method hc.relates name args span receiver

theorem steady_methods (hc : SteadyCaller call) (name : String) (args : List Shape)
    (span : Span) (receivers : List Shape) : Steady (methods call name args span receivers) :=
  Congruence.ofSteady.methods hc.relates name args span receivers

/-- Whatever an expression is, finding its shape keeps the names and the depth. -/
theorem steady_infer (hc : SteadyCaller call) (e : Expr) : Steady (infer call e) :=
  Congruence.ofSteady.infer hc.relates e

theorem steady_inferSegments (hc : SteadyCaller call) (text : Option String)
    (segments : List TemplateSegment) : Steady (inferSegments call text segments) :=
  Congruence.ofSteady.inferSegments hc.relates text segments

theorem steady_inferItems (hc : SteadyCaller call) (items : List ArrayItem) :
    Steady (inferItems call items) :=
  Congruence.ofSteady.inferItems hc.relates items

theorem steady_inferMembers (hc : SteadyCaller call) (p : Partials) (ms : List ObjectMember) :
    Steady (inferMembers call p ms) :=
  Congruence.ofSteady.inferMembers hc.relates p ms

theorem steady_inferAll (hc : SteadyCaller call) (es : List Expr) : Steady (inferAll call es) :=
  Congruence.ofSteady.inferAll hc.relates es

theorem value_countCall (span : Span) (s : State) :
    value (countCall span) s = decide (s.calls < maxCalls) := by
  unfold countCall
  by_cases h : s.calls = maxCalls
  · simp only [value_bind, after_modify, value_get, after_get, h, if_true]
    rfl
  · simp only [value_bind, after_modify, value_get, after_get, Nat.add_right_cancel_iff, h,
      if_false]
    rfl

theorem after_countCall (span : Span) (s : State) :
    ∃ es, after (countCall span) s = { s with calls := s.calls + 1, errors := es } ∧
      s.errors <:+ es ∧ (es = [] → s.calls ≠ maxCalls) := by
  unfold countCall
  by_cases h : s.calls = maxCalls
  · simp only [after_bind, after_modify, value_get, after_get, h, if_true]
    exact ⟨_, rfl, List.suffix_cons _ _, nofun⟩
  · refine ⟨s.errors, ?_, List.suffix_rfl, fun _ => h⟩
    simp [h]

/-- A call beyond the bound is counted too, but the first of them is an error. -/
@[simp] theorem steady_countCall (span : Span) : Steady (countCall span) where
  globals s := by obtain ⟨es, h, -⟩ := after_countCall span s; rw [h]
  frames s := by obtain ⟨es, h, -⟩ := after_countCall span s; rw [h]
  depth s := by obtain ⟨es, h, -⟩ := after_countCall span s; rw [h]
  errors s := by obtain ⟨es, h, hs, -⟩ := after_countCall span s; rw [h]; exact hs
  calls s he hc := by
    obtain ⟨es, h, -, hne⟩ := after_countCall span s
    rw [h] at he ⊢
    exact Nat.lt_of_le_of_ne hc (hne he)

theorem steady_guarded (maxDepth : Nat) (span : Span) {work : CheckM Shape}
    (h : Steady work) : Steady (guarded maxDepth span work) := by
  refine (steady_countCall _).bind fun allowed => ?_
  split
  · refine Steady.get.bind fun s => ?_
    split
    · exact .refuse ..
    · exact h
  · exact .pure _

theorem countCall_of_lt (span : Span) {s : State} (h : s.calls < maxCalls) :
    countCall span s = (true, { s with calls := s.calls + 1 }) := by
  have hv := value_countCall span s
  rw [decide_eq_true h] at hv
  refine Prod.ext hv ?_
  show after (countCall span) s = _
  unfold countCall
  simp [Nat.ne_of_lt h]

/-- A call that is within the bounds and finds no error does its work in a state in which it has
been counted. -/
theorem guarded_eq {maxDepth : Nat} {span : Span} {work : CheckM Shape} {s : State}
    (sw : Steady work) (hc : s.calls ≤ maxCalls)
    (he : (after (guarded maxDepth span work) s).errors = []) :
    s.calls < maxCalls ∧ s.depth < maxDepth ∧
      guarded maxDepth span work s = work { s with calls := s.calls + 1 } := by
  let rest (allowed : Bool) : CheckM Shape := do
    if allowed then
      let s ← MonadState.get
      if maxDepth ≤ s.depth then refuseDepth maxDepth span else work
    else return .unknown span
  have srest (allowed : Bool) : Steady (rest allowed) := by
    cases allowed with
    | false => exact .pure _
    | true =>
      refine Steady.get.bind fun t => ?_
      split
      · exact .refuse ..
      · exact sw
  have hg : guarded maxDepth span work = countCall span >>= rest := rfl
  have hlt : s.calls < maxCalls := by
    obtain ⟨es, h, -, hne⟩ := after_countCall span s
    have hes : (after (countCall span) s).errors = [] := (srest _).errors_nil he
    rw [h] at hes
    exact Nat.lt_of_le_of_ne hc (hne hes)
  have hw : guarded maxDepth span work s =
      (if maxDepth ≤ s.depth then refuseDepth maxDepth span else work)
        { s with calls := s.calls + 1 } := by
    rw [hg]
    show (fun p => rest p.1 p.2) (countCall span s) = _
    rw [countCall_of_lt span hlt]
    rfl
  have hd : s.depth < maxDepth := by
    refine Nat.lt_of_not_le fun hd => ?_
    rw [after, hw, if_pos hd] at he
    exact List.cons_ne_nil _ _ he
  exact ⟨hlt, hd, by rw [hw, if_neg (Nat.not_le.2 hd)]⟩

/-- Where no levels are left there is an error. -/
theorem call_zero_errors (maxDepth : Nat) (params : List Ident) (body : Expr)
    (captured : List ShapeFrame) (args : List Shape) (span : Span) {s : State}
    (hc : s.calls ≤ maxCalls) :
    (after (Check.call maxDepth 0 params body captured args span) s).errors ≠ [] := by
  intro he
  have sw : Steady (refuseDepth maxDepth span) := .refuse ..
  obtain ⟨-, -, hg⟩ := guarded_eq sw hc he
  rw [Check.call, after, hg] at he
  exact List.cons_ne_nil _ _ he

theorem steady_call (maxDepth levels : Nat) : SteadyCaller (Check.call maxDepth levels) := by
  induction levels with
  | zero => intro _ _ _ _ span; exact steady_guarded _ _ (.refuse ..)
  | succ levels ih =>
    intro params body captured args span
    exact steady_guarded _ _ (.inside _ (steady_infer ih body))

end TypedConfig.Check
