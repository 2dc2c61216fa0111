import TypedConfig.Proofs.Eval.Run
import TypedConfig.Proofs.Layout.Bare
import TypedConfig.Proofs.Simulation.Programs

/-! # Evaluations do not depend on places

An evaluation erases to another if, from the scope with all spans forgotten, the other gives what
it gives, or fails for the same cause, and leaves what it leaves with the spans forgotten. Every
step of the evaluator erases to itself, so a program and the program without spans have the same
value or no value for the same cause.
-/

namespace TypedConfig

namespace Datum

mutual

/-- The datum with the spans of the functions in it forgotten. -/
def bare : Datum → Datum
  | string v => string v
  | number v => number v
  | boolean v => boolean v
  | null => null
  | undefined => undefined
  | sentinel c => sentinel c
  | array items => array (bareAll items)
  | object fields => object (bareEntries fields)
  | function params body captured =>
    function (params.map .bare) body.bare (bareFrames captured)

def bareAll : List Datum → List Datum
  | [] => []
  | d :: ds => d.bare :: bareAll ds

def bareEntries : List (String × Datum) → List (String × Datum)
  | [] => []
  | (key, d) :: ds => (key, d.bare) :: bareEntries ds

def bareFrames : List (List (String × Datum)) → List (List (String × Datum))
  | [] => []
  | frame :: frames => bareEntries frame :: bareFrames frames

end

theorem bareAll_eq_map (ds : List Datum) : bareAll ds = ds.map bare := by
  induction ds with
  | nil => rfl
  | cons d ds ih => exact congrArg (List.cons _) ih

theorem bareEntries_eq_mapValues (es : Entries Datum) :
    bareEntries es = Entries.mapValues bare es := by
  induction es with
  | nil => rfl
  | cons e es ih => exact congrArg (List.cons _) ih

@[simp] theorem bareAll_append (ds es : List Datum) :
    bareAll (ds ++ es) = bareAll ds ++ bareAll es := by
  simp only [bareAll_eq_map, List.map_append]

theorem get?_bareEntries (es : Entries Datum) (key : String) :
    Entries.get? (bareEntries es) key = (Entries.get? es key).map bare := by
  rw [bareEntries_eq_mapValues, Entries.get?_mapValues]

theorem put_bareEntries (es : Entries Datum) (key : String) (d : Datum) :
    Entries.put (bareEntries es) key d.bare = bareEntries (Entries.put es key d) := by
  simp only [bareEntries_eq_mapValues, Entries.put_mapValues]

variable (d : Datum)

@[simp] theorem scalar?_bare : d.bare.scalar? = d.scalar? := by cases d <;> rfl

@[simp] theorem text?_bare : d.bare.text? = d.text? := by rw [text?, scalar?_bare, text?]

@[simp] theorem number?_bare : d.bare.number? = d.number? := by
  rw [number?, scalar?_bare, number?]

@[simp] theorem isText_bare : d.bare.isText = d.isText := by rw [isText, text?_bare, isText]

@[simp] theorem truthy_bare : d.bare.truthy = d.truthy := by cases d <;> rfl

@[simp] theorem kindName_bare : d.bare.kindName = d.kindName := by cases d <;> rfl

@[simp] theorem equals_bare (d e : Datum) : d.bare.equals e.bare = d.equals e := by
  cases d <;> cases e <;> rfl

mutual

/-- No span is part of a value. -/
@[simp] theorem toValue_bare : ∀ (path : String) (d : Datum),
    d.bare.toValue path = d.toValue path
  | _, string _ | _, number _ | _, boolean _ | _, null | _, undefined | _, sentinel _
  | _, function .. => rfl
  | path, array items => by rw [bare, toValue, toValue, toItems_bareAll]
  | path, object fields => by rw [bare, toValue, toValue, toEntries_bareEntries]

theorem toItems_bareAll : ∀ (path : String) (i : Nat) (ds : List Datum),
    toItems path i (bareAll ds) = toItems path i ds
  | _, _, [] => rfl
  | path, i, d :: ds => by rw [bareAll, toItems, toItems, toValue_bare, toItems_bareAll]

theorem toEntries_bareEntries : ∀ (path : String) (es : List (String × Datum)),
    toEntries path (bareEntries es) = toEntries path es
  | _, [] => rfl
  | path, (key, d) :: es => by
    rw [bareEntries, toEntries, toEntries, toValue_bare, toEntries_bareEntries]

end

/-- No span is part of the value of what may be bound. -/
theorem toValue_getD_bare (path : String) (d : Option Datum) :
    ((d.map bare).getD .undefined).toValue path = (d.getD .undefined).toValue path := by
  cases d with
  | none => rfl
  | some d => exact toValue_bare path d

end Datum

namespace Eval

open Datum (bareAll bareEntries bareFrames)

def Scope.bare (s : Scope) : Scope :=
  ⟨Entries.mapValues Datum.bare s.globals, bareFrames s.frames, s.depth⟩

variable {α β γ δ : Type}

/-- A result put through a function, or a fault without its place. -/
def bareResult (f : α → β) : Except Fault α → Except Fault β
  | .ok a => .ok (f a)
  | .error e => .error ⟨e.cause, default⟩

structure Erases (f : α → β) (n : EvalM α) (n' : EvalM β) : Prop where
  run : ∀ s, n'.run s.bare = (bareResult f (n.run s).1, (n.run s).2.bare)

namespace Erases

variable {f : α → β} {m n : EvalM α} {m' n' : EvalM β}

theorem pure {a : α} {b : β} (h : b = f a) : Erases f (Pure.pure a) (Pure.pure b) :=
  ⟨fun s => by subst h; rfl⟩

theorem fail (cause : EvalCause) (s : Span) :
    Erases f (Eval.fail cause s) (Eval.fail cause default) := ⟨fun _ => rfl⟩

theorem get : Erases Scope.bare (MonadState.get : EvalM Scope) MonadState.get := ⟨fun _ => rfl⟩

theorem bind {g : γ → δ} {k : α → EvalM γ} {k' : β → EvalM δ} (h : Erases f n n')
    (hk : ∀ a, Erases g (k a) (k' (f a))) : Erases g (n >>= k) (n' >>= k') := by
  refine ⟨fun s => ?_⟩
  have hs := h.run s
  rcases hn : n.run s with ⟨e | a, t⟩
  · rw [hn] at hs
    rw [run_bind_error hn, run_bind_error hs]
    rfl
  · rw [hn] at hs
    rw [run_bind hn, run_bind hs]
    exact (hk a).run t

/-- What follows an evaluation whose result has no span. -/
theorem after {g : γ → δ} {n n' : EvalM α} {k : α → EvalM γ} {k' : α → EvalM δ}
    (h : Erases id n n') (hk : ∀ a, Erases g (k a) (k' a)) : Erases g (n >>= k) (n' >>= k') :=
  h.bind hk

theorem ite {p : Prop} [Decidable p] (h : Erases f m m') (hn : Erases f n n') :
    Erases f (if p then m else n) (if p then m' else n') := by
  split
  · exact h
  · exact hn

theorem inside (frames : List Frame) (h : Erases f n n') :
    Erases f (inside frames n) (inside (bareFrames frames) n') := by
  refine ⟨fun s => ?_⟩
  have hs := h.run { s with frames := frames, depth := s.depth + 1 }
  rw [run_inside, run_inside]
  exact congrArg (fun r : Except Fault β × Scope =>
    (r.1, { r.2 with frames := bareFrames s.frames, depth := r.2.depth - 1 })) hs

end Erases

theorem erases_stringify (d : Datum) (span : Span) :
    Erases id (stringify d span) (stringify d.bare default) := by
  unfold stringify
  rw [d.scalar?_bare, d.kindName_bare]
  cases d.scalar? with
  | some x => exact .pure rfl
  | none => exact .fail ..

theorem erases_stringifyAll (span : Span) (ds : List Datum) :
    Erases id (stringifyAll span ds) (stringifyAll default (bareAll ds)) := by
  induction ds with
  | nil => exact .pure rfl
  | cons d ds ih => exact .after (erases_stringify ..) fun _ => .after ih fun _ => .pure rfl

theorem erases_member (receiver : Datum) (property : String) (span : Span) :
    Erases Datum.bare (member receiver property span) (member receiver.bare property default) := by
  have htext := receiver.text?_bare
  cases receiver with
  | object fields =>
    simp only [Datum.bare, member, Datum.get?_bareEntries]
    cases Entries.get? fields property with
    | some d => exact .pure rfl
    | none => exact .fail ..
  | array items =>
    refine .ite (.pure ?_) (.fail ..)
    rw [Datum.bareAll_eq_map, List.length_map]
    rfl
  | sentinel c =>
    simp only [Datum.bare, member]
    refine .ite ?_ (.fail ..)
    cases (Datum.sentinel c).text? with
    | some text => exact .pure rfl
    | none => exact .fail ..
  | string v => exact .ite (.pure rfl) (.fail ..)
  | _ => exact .ite (.fail ..) (.fail ..)

theorem erases_index (receiver position : Datum) (span : Span) :
    Erases Datum.bare (index receiver position span)
      (index receiver.bare position.bare default) := by
  have hchar (text : String) : Erases Datum.bare (index (.string text) position span)
      (index (.string text) position default) := by
    simp only [index, Datum.text?, Datum.scalar?]
    cases position.number?.bind (charAt? text) with
    | some c => exact .pure rfl
    | none => exact .fail ..
  -- A constant that stands for a text is indexed as the text is.
  have htext := receiver.text?_bare
  have hkind := receiver.kindName_bare
  unfold index
  rw [position.text?_bare, position.number?_bare, position.kindName_bare, htext, hkind]
  cases receiver with
  | array items =>
    have hitem : (position.number?.bind Number.index?).bind (fun i => (bareAll items)[i]?) =
        ((position.number?.bind Number.index?).bind fun i => items[i]?).map Datum.bare := by
      cases position.number?.bind Number.index? with
      | none => rfl
      | some i => exact (Datum.bareAll_eq_map items) ▸ List.getElem?_map ..
    simp only [Datum.bare, hitem]
    cases (position.number?.bind Number.index?).bind fun i => items[i]? with
    | some d => exact .pure rfl
    | none => exact .fail ..
  | object fields =>
    cases position.text? with
    | some key => exact erases_member (.object fields) key span
    | none => exact .fail ..
  | sentinel c =>
    simp only [Datum.bare]
    cases (Datum.sentinel c).text? with
    | some text => exact hchar text
    | none => exact .fail ..
  | string v => exact hchar v
  | _ => exact .fail ..

theorem erases_unary (op : UnaryOp) (operand : Datum) (span : Span) :
    Erases Datum.bare (unary op operand span) (unary op operand.bare default) := by
  unfold unary
  rw [operand.truthy_bare, operand.number?_bare, operand.kindName_bare]
  cases op with
  | not => exact .pure rfl
  | negate =>
    cases operand.number? with
    | some x => exact .pure rfl
    | none => exact .fail ..

theorem erases_operator (op : BinaryOp) (left right : Datum) (span : Span) :
    Erases Datum.bare (operator op left right span)
      (operator op left.bare right.bare default) := by
  unfold operator
  simp only [Datum.equals_bare, Datum.isText_bare, Datum.text?_bare, Datum.number?_bare,
    Datum.kindName_bare]
  refine .ite (.pure rfl) (.ite (.pure rfl) (.ite ?_ ?_))
  · exact .after (erases_stringify ..) fun _ => .after (erases_stringify ..) fun _ => .pure rfl
  · split
    · exact .pure rfl
    · exact .pure rfl
    · exact .pure rfl
    · exact .fail ..

def LayoutFree (call : Caller) : Prop :=
  ∀ params body captured args span,
    Erases Datum.bare (call params body captured args span)
      (call (params.map .bare) body.bare (bareFrames captured) (bareAll args) default)

variable {call : Caller}

theorem contribution_bare (kind : Iteration) (element result : Datum) :
    contribution kind element.bare result.bare = bareAll (contribution kind element result) := by
  cases kind with
  | map => rfl
  | filter =>
    simp only [contribution, Datum.truthy_bare]
    split <;> rfl
  | flatMap => cases result <;> rfl

theorem erases_iterate {apply apply' : Datum → Datum → EvalM Datum}
    (h : ∀ a b, Erases Datum.bare (apply a b) (apply' a.bare b.bare)) (kind : Iteration)
    (i : Nat) (items : List Datum) :
    Erases bareAll (iterate apply kind i items) (iterate apply' kind i (bareAll items)) := by
  induction items generalizing i with
  | nil => exact .pure rfl
  | cons d rest ih =>
    refine (h d (.number _)).bind fun result => (ih (i + 1)).bind fun more => .pure ?_
    rw [contribution_bare, Datum.bareAll_append]

theorem erases_separator (name : String) (d : Datum) (span : Span) :
    Erases id (separator name d span) (separator name d.bare default) := by
  unfold separator
  rw [d.text?_bare]
  cases d.text? with
  | some text => exact .pure rfl
  | none => exact .fail ..

theorem flatMap_concatItems_bareAll (args : List Datum) :
    (bareAll args).flatMap concatItems = bareAll (args.flatMap concatItems) := by
  induction args with
  | nil => rfl
  | cons d args ih =>
    have hitems : concatItems d.bare = bareAll (concatItems d) := by cases d <;> rfl
    rw [bareAll, List.flatMap_cons, List.flatMap_cons, Datum.bareAll_append, ih, hitems]

theorem erases_arrayMethod (h : LayoutFree call) (items : List Datum) (name : String)
    (args : List Datum) (span : Span) :
    Erases Datum.bare (arrayMethod call items name args span)
      (arrayMethod call (bareAll items) name (bareAll args) default) := by
  unfold arrayMethod
  cases Iteration.ofName? name with
  | some kind =>
    match args with
    | .function params body captured :: args =>
      refine Erases.bind (erases_iterate (fun a b => ?_) ..) fun _ => .pure rfl
      exact h _ _ _ [a, b] _
    | [] | .string _ :: _ | .number _ :: _ | .boolean _ :: _ | .null :: _ | .undefined :: _
    | .sentinel _ :: _ | .array _ :: _ | .object _ :: _ => exact .fail ..
  | none =>
    refine .ite (.pure ?_) (.ite ?_ (.fail ..))
    · rw [flatMap_concatItems_bareAll, ← Datum.bareAll_append]
      rfl
    · have hjoin (sep : String) : Erases Datum.bare
          (do return .string (sep.intercalate (← stringifyAll span items)))
          (do return .string (sep.intercalate (← stringifyAll default (bareAll items)))) :=
        .after (erases_stringifyAll ..) fun _ => .pure rfl
      cases args with
      | nil => exact hjoin ","
      | cons arg args => exact .after (erases_separator ..) hjoin

theorem erases_textMethod (text name : String) (args : List Datum) (span : Span) :
    Erases Datum.bare (textMethod text name args span)
      (textMethod text name (bareAll args) default) := by
  unfold textMethod
  cases textMethod? name with
  | some f => exact .pure rfl
  | none =>
    refine .ite ?_ (.fail ..)
    cases args with
    | nil => exact .pure rfl
    | cons arg args =>
      refine .after (erases_separator ..) fun sep => .pure ?_
      simp [Datum.bare, Datum.bareAll_eq_map]

theorem erases_method (h : LayoutFree call) (receiver : Datum) (name : String)
    (args : List Datum) (span : Span) :
    Erases Datum.bare (method call receiver name args span)
      (method call receiver.bare name (bareAll args) default) := by
  cases receiver with
  | array items => exact erases_arrayMethod h ..
  | object fields =>
    simp only [Datum.bare, method, Datum.get?_bareEntries]
    cases Entries.get? fields name with
    | none => exact .fail ..
    | some d =>
      cases d with
      | function params body captured => exact h ..
      | _ => exact .fail ..
  | sentinel c =>
    simp only [Datum.bare, method]
    cases (Datum.sentinel c).text? with
    | some text => exact erases_textMethod ..
    | none => exact .fail ..
  | string v => exact erases_textMethod ..
  | _ => exact .fail ..

theorem lookup?_bare (s : Scope) (name : String) :
    s.bare.lookup? name = (s.lookup? name).map Datum.bare := by
  have hframes (frames : List Frame) :
      inFrames? (bareFrames frames) name = (inFrames? frames name).map Datum.bare := by
    induction frames with
    | nil => rfl
    | cons frame frames ih =>
      simp only [bareFrames, inFrames?, List.findSome?_cons, Datum.get?_bareEntries] at ih ⊢
      cases Entries.get? frame name with
      | some d => rfl
      | none => exact ih
  simp only [Scope.lookup?, Scope.bare, hframes, Entries.get?_mapValues]
  cases inFrames? s.frames name <;> rfl

theorem erases_name (text : String) (span : Span) :
    Erases Datum.bare (name text span) (name text default) := by
  refine Erases.get.bind fun s => ?_
  rw [lookup?_bare]
  cases s.lookup? text with
  | some d => exact .pure rfl
  | none => exact .fail ..

theorem erases_callDatum (h : LayoutFree call) (function : Datum) (args : List Datum)
    (errorSpan span : Span) :
    Erases Datum.bare (callDatum call function args errorSpan span)
      (callDatum call function.bare (bareAll args) default default) := by
  cases function with
  | function params body captured => exact h ..
  | _ => exact .fail ..

mutual

theorem erases_eval (h : LayoutFree call) : ∀ e : Expr,
    Erases Datum.bare (eval call e) (eval call e.bare)
  | .string .. | .number .. | .boolean .. | .null _ | .undefined _ => .pure rfl
  | .name .. => erases_name ..
  | .template _ segments => .after (erases_evalSegments h segments) fun _ => .pure rfl
  | .array _ items => (erases_evalItems h items).bind fun _ => .pure rfl
  | .object _ ms => (erases_evalMembers h [] ms).bind fun _ => .pure rfl
  | .member _ object _ => (erases_eval h object).bind fun _ => erases_member ..
  | .index _ object position =>
    (erases_eval h object).bind fun _ => (erases_eval h position).bind fun _ => erases_index ..
  | .call _ callee args => by
    have hargs := erases_evalAll h args
    by_cases hm : ∃ s object property, callee = .member s object property
    -- The callee of a method call is not read as a member of its own.
    · obtain ⟨_, object, property, rfl⟩ := hm
      rw [Expr.bare, Expr.bare, eval, eval]
      exact (erases_eval h object).bind fun _ => hargs.bind fun _ => erases_method h ..
    · rw [Expr.bare, eval_call call hm, eval_call call (Expr.not_member_bare hm),
        callee.span_bare]
      exact (erases_eval h callee).bind fun _ => hargs.bind fun _ => erases_callDatum h ..
  | .arrow .. => Erases.get.bind fun _ => .pure rfl
  | .unary _ _ operand => (erases_eval h operand).bind fun _ => erases_unary ..
  | .binary s op left right => by
    have hl := erases_eval h left
    have hr := erases_eval h right
    cases hop : op.stopsAt? with
    | some stop =>
      rw [Expr.bare, eval_shortened _ _ hop, eval_shortened _ _ hop]
      refine hl.bind fun l => ?_
      rw [l.truthy_bare]
      exact .ite (.pure rfl) hr
    | none =>
      rw [Expr.bare, eval_operator _ _ hop, eval_operator _ _ hop]
      exact hl.bind fun _ => hr.bind fun _ => erases_operator ..
  | .conditional s test consequent alternate => by
    have hc := erases_eval h consequent
    have ha := erases_eval h alternate
    rw [Expr.bare, eval, eval]
    refine (erases_eval h test).bind fun t => ?_
    rw [t.truthy_bare]
    exact .ite hc ha

theorem erases_evalSegments (h : LayoutFree call) : ∀ segments : List TemplateSegment,
    Erases id (evalSegments call segments) (evalSegments call (Expr.bareSegments segments))
  | [] => .pure rfl
  | .text _ :: rest => .after (erases_evalSegments h rest) fun _ => .pure rfl
  | .hole e :: rest => by
    rw [Expr.bareSegments, evalSegments, evalSegments, e.span_bare]
    exact (erases_eval h e).bind fun _ => .after (erases_stringify ..) fun _ =>
      .after (erases_evalSegments h rest) fun _ => .pure rfl

theorem erases_evalItems (h : LayoutFree call) : ∀ items : List ArrayItem,
    Erases bareAll (evalItems call items) (evalItems call (Expr.bareItems items))
  | [] => .pure rfl
  | .item e :: rest =>
    (erases_eval h e).bind fun _ => (erases_evalItems h rest).bind fun _ => .pure rfl
  | .spread e :: rest => by
    have hrest := erases_evalItems h rest
    rw [Expr.bareItems, evalItems, evalItems, e.span_bare]
    refine (erases_eval h e).bind fun d => ?_
    cases d with
    | array items => exact hrest.bind fun _ => .pure (Datum.bareAll_append ..).symm
    | _ => exact .fail ..

theorem erases_evalMembers (h : LayoutFree call) :
    ∀ (fields : List (String × Datum)) (ms : List ObjectMember),
      Erases bareEntries (evalMembers call fields ms)
        (evalMembers call (bareEntries fields) (Expr.bareMembers ms))
  | _, [] => .pure rfl
  | fields, .field key _ e :: rest => by
    rw [Expr.bareMembers, evalMembers, evalMembers]
    refine (erases_eval h e).bind fun d => ?_
    rw [Datum.put_bareEntries]
    exact erases_evalMembers h _ rest
  | fields, .spread e :: rest => by
    have hrest (fields : List (String × Datum)) := erases_evalMembers h fields rest
    rw [Expr.bareMembers, evalMembers, evalMembers, e.span_bare]
    refine (erases_eval h e).bind fun d => ?_
    cases d with
    | object more =>
      have hput := hrest (Entries.putAll fields more)
      rw [Datum.bareEntries_eq_mapValues, ← Entries.putAll_mapValues,
        ← Datum.bareEntries_eq_mapValues, ← Datum.bareEntries_eq_mapValues] at hput
      exact hput
    | null | undefined => exact hrest fields
    | _ => exact .fail ..

theorem erases_evalAll (h : LayoutFree call) : ∀ es : List Expr,
    Erases bareAll (evalAll call es) (evalAll call (Expr.bareAll es))
  | [] => .pure rfl
  | e :: es => (erases_eval h e).bind fun _ => (erases_evalAll h es).bind fun _ => .pure rfl

end

theorem frameOf_bare (params : List Ident) (args : List Datum) :
    frameOf (params.map .bare) (bareAll args) = bareEntries (frameOf params args) := by
  induction params generalizing args with
  | nil => cases args <;> rfl
  | cons p ps ih =>
    cases args with
    | nil =>
      have hrest := ih []
      simp only [List.map_cons, bareAll, frameOf, Ident.name_bare] at hrest ⊢
      rw [hrest]
      exact Datum.put_bareEntries _ p.name .undefined
    | cons a as =>
      simp only [List.map_cons, bareAll, frameOf, Ident.name_bare, ih]
      exact Datum.put_bareEntries _ p.name a

theorem layoutFree_call (maxDepth levels : Nat) : LayoutFree (Eval.call maxDepth levels) := by
  induction levels with
  | zero => exact fun _ _ _ _ _ => .fail ..
  | succ n ih =>
    intro params body captured args span
    have hbody := Erases.inside (frameOf params args :: captured) (erases_eval ih body)
    rw [bareFrames, ← frameOf_bare] at hbody
    exact Erases.get.bind fun s => .ite (.fail ..) hbody

variable {limits : Limits} {root : String}

theorem erases_datumOf (e : Expr) :
    Erases Datum.bare (datumOf limits e) (datumOf limits e.bare) :=
  erases_eval (layoutFree_call limits.maxDepth limits.maxDepth) e

theorem erases_bindName (name : String) (d : Datum) :
    Erases id (bindName name d) (bindName name d.bare) := by
  refine ⟨fun s => ?_⟩
  have hput := Entries.put_mapValues Datum.bare s.globals name d
  exact congrArg (fun globals => (Except.ok (), { s.bare with globals := globals })) hput

theorem erases_statement (s : Statement) :
    Erases id (statement limits root s) (statement limits root s.bare) := by
  cases s with
  | expression value => exact (erases_datumOf value).bind fun _ => .pure rfl
  | declare kind name init span =>
    cases init with
    | none => exact .ite (.pure rfl) (erases_bindName _ .undefined)
    | some value => exact (erases_datumOf value).bind fun d => .ite (.fail ..) (erases_bindName ..)
  | assign target value span =>
    refine (erases_datumOf value).bind fun d => Erases.get.bind fun s => ?_
    have hcontains := Entries.contains_mapValues Datum.bare s.globals target.name
    simp only [Scope.bare, hcontains]
    exact .ite (erases_bindName ..) (.fail ..)

theorem erases_statements (ss : List Statement) :
    Erases id (statements limits root ss) (statements limits root (ss.map .bare)) := by
  induction ss with
  | nil => exact .pure rfl
  | cons s rest ih => exact .after (erases_statement s) fun _ => ih

/-- Nothing that is bound before the first statement has a place. -/
theorem initial_bare (schema : Schema) : (initial schema).bare = initial schema := by
  have hconstants : Entries.mapValues Datum.bare
      (schema.constants.map fun c => (c.name, Datum.sentinel ⟨c.name, c.value⟩)) =
      schema.constants.map fun c => (c.name, Datum.sentinel ⟨c.name, c.value⟩) := List.map_map
  unfold Scope.bare initial
  dsimp only
  rw [← Entries.put_mapValues, Entries.ofList, ← Entries.putAll_mapValues, hconstants]
  rfl

end Eval

namespace Program

variable {limits : Limits} {schema : Schema} {p q : Program}

/-- How the program without spans runs. -/
theorem run_bare (limits : Limits) (schema : Schema) (ss : List Statement) :
    (Eval.statements limits schema.root.name (ss.map .bare)).run (Eval.initial schema) =
      (Eval.bareResult id
        ((Eval.statements limits schema.root.name ss).run (Eval.initial schema)).1,
      ((Eval.statements limits schema.root.name ss).run (Eval.initial schema)).2.bare) := by
  rw [← (Eval.erases_statements ss).run, Eval.initial_bare]

/-- Programs whose statements differ in their spans only have the same value or both none. -/
theorem evaluate_of_bare (h : p.statements.map Statement.bare = q.statements.map .bare)
    (rs rs' : List Resolution) :
    (CheckedProgram.evaluate limits ⟨schema, p, rs⟩).toOption =
      (CheckedProgram.evaluate limits ⟨schema, q, rs'⟩).toOption := by
  have hruns := run_bare limits schema p.statements
  rw [h, run_bare] at hruns
  rw [evaluate_of_run rfl, evaluate_of_run rfl]
  generalize (Eval.statements limits schema.root.name p.statements).run
    (Eval.initial schema) = r at hruns ⊢
  generalize (Eval.statements limits schema.root.name q.statements).run
    (Eval.initial schema) = r' at hruns ⊢
  obtain ⟨hresult, hscope⟩ := Prod.mk.inj hruns
  match r, r', hresult, hscope with
  | (.error _, _), (.error _, _), _, _ => rfl
  | (.ok (), s), (.ok (), s'), _, hscope =>
    have hroot := congrArg (fun t : Eval.Scope => Entries.get? t.globals schema.root.name) hscope
    simp only [Eval.Scope.bare, Entries.get?_mapValues] at hroot
    have hvalue := congrArg (fun d => (d.getD .undefined).toValue schema.root.name) hroot
    simp only [Datum.toValue_getD_bare] at hvalue
    dsimp only
    rw [hvalue]

end Program

end TypedConfig
