import TypedConfig.Proofs.Constants.Data
import TypedConfig.Proofs.Eval.Run
import TypedConfig.Proofs.Simulation.Programs

/-! # Evaluations with a constant written out

From scopes that differ in a constant written out, an evaluation and the evaluation with the
constant written out both fail, or give data that differ in the same way. Every operation goes by
the scalar that a datum is, so no operation tells a constant from its literal.
-/

namespace TypedConfig

namespace Eval

open Datum (inlinedAll inlinedEntries inlinedFrames)

variable (c : Sentinel) (frames : List Frame) {α β γ δ : Type}

/-- Scopes inside given frames that differ in the constant written out: all data are those with
the constant written out, except that the constant's name is still bound to the constant. -/
structure Scope.Inlines (s s' : Scope) : Prop where
  constant : Entries.get? s.globals c.name = some (.sentinel c)
  globals : ∀ name, name ≠ c.name →
    Entries.get? s'.globals name = (Entries.get? s.globals name).map (Datum.inlined c)
  here : s.frames = frames
  there : s'.frames = inlinedFrames c frames
  depth : s'.depth = s.depth

/-- From scopes that differ in the constant written out, the evaluations both fail or give
results that a function relates, and leave such scopes. -/
structure Inlines (f : α → β) (n : EvalM α) (n' : EvalM β) : Prop where
  run : ∀ s s', s.Inlines c frames s' →
    (∃ e e' t t', n.run s = (.error e, t) ∧ n'.run s' = (.error e', t')) ∨
    ∃ a t t', n.run s = (.ok a, t) ∧ n'.run s' = (.ok (f a), t') ∧ t.Inlines c frames t'

variable {c frames}

namespace Inlines

variable {f : α → β} {m n : EvalM α} {m' n' : EvalM β}

theorem pure {a : α} {b : β} (h : b = f a) : Inlines c frames f (Pure.pure a) (Pure.pure b) :=
  ⟨fun s s' hs => .inr ⟨a, s, s', rfl, by subst h; rfl, hs⟩⟩

theorem fail (cause cause' : EvalCause) (span span' : Span) :
    Inlines c frames f (Eval.fail cause span) (Eval.fail cause' span') :=
  ⟨fun _ _ _ => .inl ⟨_, _, _, _, rfl, rfl⟩⟩

theorem bind {g : γ → δ} {k : α → EvalM γ} {k' : β → EvalM δ} (h : Inlines c frames f n n')
    (hk : ∀ a, Inlines c frames g (k a) (k' (f a))) :
    Inlines c frames g (n >>= k) (n' >>= k') := by
  refine ⟨fun s s' hs => ?_⟩
  obtain ⟨e, e', t, t', hn, hn'⟩ | ⟨a, t, t', hn, hn', ht⟩ := h.run s s' hs
  · exact .inl ⟨e, e', t, t', run_bind_error hn k, run_bind_error hn' k'⟩
  · rw [run_bind hn, run_bind hn']
    exact (hk a).run t t' ht

/-- What follows an evaluation whose result holds no datum. -/
theorem after {g : γ → δ} {n n' : EvalM α} {k : α → EvalM γ} {k' : α → EvalM δ}
    (h : Inlines c frames id n n') (hk : ∀ a, Inlines c frames g (k a) (k' a)) :
    Inlines c frames g (n >>= k) (n' >>= k') := h.bind hk

theorem ite {p : Prop} [Decidable p] (h : Inlines c frames f m m')
    (hn : Inlines c frames f n n') :
    Inlines c frames f (if p then m else n) (if p then m' else n') := by
  split
  · exact h
  · exact hn

/-- Evaluations that go by something read off the scope. -/
theorem read (p : Scope → γ) (q : Scope → δ) (g : γ → δ) {k : γ → EvalM α} {l : δ → EvalM β}
    (hread : ∀ s s', s.Inlines c frames s' → q s' = g (p s))
    (hk : ∀ a, Inlines c frames f (k a) (l (g a))) :
    Inlines c frames f (MonadState.get >>= fun s => k (p s))
      (MonadState.get >>= fun s => l (q s)) := by
  refine ⟨fun s s' hs => ?_⟩
  have hrun := (hk (p s)).run s s' hs
  rw [← hread s s' hs] at hrun
  exact hrun

theorem inside {inner : List Frame} (h : Inlines c inner f n n') :
    Inlines c frames f (inside inner n) (inside (inlinedFrames c inner) n') := by
  refine ⟨fun s s' hs => ?_⟩
  have hinner : Scope.Inlines c inner { s with frames := inner, depth := s.depth + 1 }
      { s' with frames := inlinedFrames c inner, depth := s'.depth + 1 } :=
    ⟨hs.constant, hs.globals, rfl, rfl, congrArg (· + 1) hs.depth⟩
  rw [run_inside, run_inside]
  obtain ⟨e, e', t, t', hn, hn'⟩ | ⟨a, t, t', hn, hn', ht⟩ := h.run _ _ hinner
  · rw [hn, hn']
    exact .inl ⟨e, e', _, _, rfl, rfl⟩
  · rw [hn, hn']
    exact .inr ⟨a, _, _, rfl, rfl, ht.constant, ht.globals, hs.here, hs.there,
      congrArg (· - 1) ht.depth⟩

end Inlines

theorem inlines_stringify (d : Datum) (span span' : Span) :
    Inlines c frames id (stringify d span) (stringify (d.inlined c) span') := by
  unfold stringify
  rw [d.scalar?_inlined]
  cases d.scalar? with
  | some x => exact .pure rfl
  | none => exact .fail ..

theorem inlines_stringifyAll (span : Span) (ds : List Datum) :
    Inlines c frames id (stringifyAll span ds) (stringifyAll span (inlinedAll c ds)) := by
  induction ds with
  | nil => exact .pure rfl
  | cons d ds ih => exact .after (inlines_stringify ..) fun _ => .after ih fun _ => .pure rfl

/-- A property of a scalar goes by its text. -/
theorem member_of_scalar? {receiver : Datum} (h : receiver.scalar?.isSome = true)
    (property : String) (span : Span) :
    member receiver property span =
      if property = "length" then
        match receiver.text? with
        | some text => return .number (textLength text)
        | none => fail (.unreadable property receiver.kindName) span
      else fail (.unreadable property receiver.kindName) span := by
  cases receiver with
  | string | number | boolean => rfl
  | sentinel x =>
    obtain ⟨_, v⟩ := x
    cases v <;> rfl
  | _ => cases h

theorem inlines_member (receiver : Datum) (property : String) (span : Span) :
    Inlines c frames (Datum.inlined c) (member receiver property span)
      (member (receiver.inlined c) property span) := by
  by_cases hs : receiver.scalar?.isSome = true
  · have hs' : (receiver.inlined c).scalar?.isSome = true := by rwa [receiver.scalar?_inlined]
    rw [member_of_scalar? hs, member_of_scalar? hs', receiver.text?_inlined]
    refine .ite ?_ (.fail ..)
    cases receiver.text? with
    | some text => exact .pure rfl
    | none => exact .fail ..
  · cases receiver with
    | string | number | boolean | sentinel => exact absurd rfl hs
    | object fields =>
      simp only [Datum.inlined, member, Datum.get?_inlinedEntries]
      cases Entries.get? fields property with
      | some d => exact .pure rfl
      | none => exact .fail ..
    | array items =>
      refine .ite (.pure ?_) (.fail ..)
      rw [Datum.length_inlinedAll]
      rfl
    | _ => exact .ite (.fail ..) (.fail ..)

/-- A scalar is indexed by its text. -/
theorem index_of_scalar? {receiver : Datum} (h : receiver.scalar?.isSome = true)
    (position : Datum) (span : Span) :
    index receiver position span =
      match receiver.text? with
      | some text =>
        match position.number?.bind (charAt? text) with
        | some c => return .string c
        | none => fail .textBounds span
      | none => fail (.unindexable receiver.kindName position.kindName) span := by
  cases receiver with
  | string | number | boolean => rfl
  | sentinel x =>
    obtain ⟨_, v⟩ := x
    cases v <;> rfl
  | _ => cases h

theorem inlines_index (receiver position : Datum) (span : Span) :
    Inlines c frames (Datum.inlined c) (index receiver position span)
      (index (receiver.inlined c) (position.inlined c) span) := by
  by_cases hs : receiver.scalar?.isSome = true
  · have hs' : (receiver.inlined c).scalar?.isSome = true := by rwa [receiver.scalar?_inlined]
    rw [index_of_scalar? hs, index_of_scalar? hs', receiver.text?_inlined,
      position.number?_inlined]
    cases receiver.text? with
    | some text =>
      dsimp only
      cases position.number?.bind (charAt? text) with
      | some c => exact .pure rfl
      | none => exact .fail ..
    | none => exact .fail ..
  · cases receiver with
    | string | number | boolean | sentinel => exact absurd rfl hs
    | array items =>
      have hitem : (position.number?.bind Number.index?).bind (fun i => (inlinedAll c items)[i]?) =
          ((position.number?.bind Number.index?).bind fun i => items[i]?).map
            (Datum.inlined c) := by
        cases position.number?.bind Number.index? with
        | none => rfl
        | some i => exact Datum.getElem?_inlinedAll ..
      simp only [Datum.inlined, index, position.number?_inlined, hitem]
      cases (position.number?.bind Number.index?).bind fun i => items[i]? with
      | some d => exact .pure rfl
      | none => exact .fail ..
    | object fields =>
      simp only [Datum.inlined, index, position.text?_inlined]
      cases position.text? with
      | some key => exact inlines_member (.object fields) key span
      | none => exact .fail ..
    | _ => exact .fail ..

theorem inlines_unary (op : UnaryOp) (operand : Datum) (span : Span) :
    Inlines c frames (Datum.inlined c) (unary op operand span)
      (unary op (operand.inlined c) span) := by
  unfold unary
  rw [operand.truthy_inlined, operand.number?_inlined]
  cases op with
  | not => exact .pure rfl
  | negate =>
    cases operand.number? with
    | some x => exact .pure rfl
    | none => exact .fail ..

theorem inlines_operator (op : BinaryOp) (left right : Datum) (span : Span) :
    Inlines c frames (Datum.inlined c) (operator op left right span)
      (operator op (left.inlined c) (right.inlined c) span) := by
  unfold operator
  simp only [Datum.equals_inlined, Datum.isText_inlined, Datum.text?_inlined,
    Datum.number?_inlined]
  refine .ite (.pure rfl) (.ite (.pure rfl) (.ite ?_ ?_))
  · exact .after (inlines_stringify ..) fun _ => .after (inlines_stringify ..) fun _ => .pure rfl
  · split
    · exact .pure rfl
    · exact .pure rfl
    · exact .pure rfl
    · exact .fail ..

variable (c) in
def InlinesCalls (call : Caller) : Prop :=
  ∀ frames params body captured args span,
    Inlines c frames (Datum.inlined c) (call params body captured args span)
      (call params
        (body.inlined c (Entries.anyBinds captured c.name || Ident.anyNamed params c.name))
        (inlinedFrames c captured) (inlinedAll c args) span)

variable {call : Caller}

theorem contribution_inlined (kind : Iteration) (element result : Datum) :
    contribution kind (element.inlined c) (result.inlined c) =
      inlinedAll c (contribution kind element result) := by
  cases kind with
  | map => rfl
  | filter =>
    simp only [contribution, Datum.truthy_inlined]
    split <;> rfl
  | flatMap =>
    cases result with
    | sentinel x =>
      obtain ⟨-, hx⟩ | ⟨-, hx⟩ := Datum.inlined_sentinel (c := c) x
      · simp only [contribution, inlinedAll, hx]
        cases x.literal <;> rfl
      · simp only [contribution, inlinedAll, hx]
    | _ => rfl

theorem inlines_iterate {apply apply' : Datum → Datum → EvalM Datum}
    (h : ∀ a b, Inlines c frames (Datum.inlined c) (apply a b)
      (apply' (a.inlined c) (b.inlined c)))
    (kind : Iteration) (i : Nat) (items : List Datum) :
    Inlines c frames (inlinedAll c) (iterate apply kind i items)
      (iterate apply' kind i (inlinedAll c items)) := by
  induction items generalizing i with
  | nil => exact .pure rfl
  | cons d rest ih =>
    refine (h d (.number _)).bind fun result => (ih (i + 1)).bind fun more => .pure ?_
    rw [contribution_inlined, Datum.inlinedAll_append]

theorem inlines_separator (name : String) (d : Datum) (span : Span) :
    Inlines c frames id (separator name d span) (separator name (d.inlined c) span) := by
  unfold separator
  rw [d.text?_inlined]
  cases d.text? with
  | some text => exact .pure rfl
  | none => exact .fail ..

theorem concatItems_inlined (d : Datum) :
    concatItems (d.inlined c) = inlinedAll c (concatItems d) := by
  cases d with
  | sentinel x =>
    obtain ⟨-, hx⟩ | ⟨-, hx⟩ := Datum.inlined_sentinel (c := c) x
    · simp only [concatItems, inlinedAll, hx]
      cases x.literal <;> rfl
    · simp only [concatItems, inlinedAll, hx]
  | _ => rfl

theorem flatMap_concatItems_inlinedAll (args : List Datum) :
    (inlinedAll c args).flatMap concatItems = inlinedAll c (args.flatMap concatItems) := by
  induction args with
  | nil => rfl
  | cons d args ih =>
    rw [inlinedAll, List.flatMap_cons, List.flatMap_cons, Datum.inlinedAll_append, ih,
      concatItems_inlined]

theorem inlines_arrayMethod (h : InlinesCalls c call) (items : List Datum) (name : String)
    (args : List Datum) (span : Span) :
    Inlines c frames (Datum.inlined c) (arrayMethod call items name args span)
      (arrayMethod call (inlinedAll c items) name (inlinedAll c args) span) := by
  unfold arrayMethod
  cases Iteration.ofName? name with
  | some kind =>
    match args with
    | .function params body captured :: args =>
      refine Inlines.bind (inlines_iterate (fun a b => ?_) ..) fun _ => .pure rfl
      exact h _ _ _ _ [a, b] _
    | .sentinel x :: args =>
      obtain ⟨-, hx⟩ | ⟨-, hx⟩ := Datum.inlined_sentinel (c := c) x <;> rw [inlinedAll, hx]
      · cases x.literal <;> exact .fail ..
      · exact .fail ..
    | [] | .string _ :: _ | .number _ :: _ | .boolean _ :: _ | .null :: _ | .undefined :: _
    | .array _ :: _ | .object _ :: _ => exact .fail ..
  | none =>
    refine .ite (.pure ?_) (.ite ?_ (.fail ..))
    · rw [flatMap_concatItems_inlinedAll, ← Datum.inlinedAll_append]
      rfl
    · have hjoin (sep : String) : Inlines c frames (Datum.inlined c)
          (do return .string (sep.intercalate (← stringifyAll span items)))
          (do return .string (sep.intercalate (← stringifyAll span (inlinedAll c items)))) :=
        .after (inlines_stringifyAll ..) fun _ => .pure rfl
      cases args with
      | nil => exact hjoin ","
      | cons arg args => exact .after (inlines_separator ..) hjoin

theorem inlines_textMethod (text name : String) (args : List Datum) (span : Span) :
    Inlines c frames (Datum.inlined c) (textMethod text name args span)
      (textMethod text name (inlinedAll c args) span) := by
  unfold textMethod
  cases textMethod? name with
  | some f => exact .pure rfl
  | none =>
    refine .ite ?_ (.fail ..)
    cases args with
    | nil => exact .pure rfl
    | cons arg args =>
      refine .after (inlines_separator ..) fun sep => .pure ?_
      simp [Datum.inlined, Datum.inlinedAll_eq_map]

/-- A method of a scalar is one of its text. -/
theorem method_of_scalar? {receiver : Datum} (h : receiver.scalar?.isSome = true)
    (call : Caller) (name : String) (args : List Datum) (span : Span) :
    method call receiver name args span =
      match receiver.text? with
      | some text => textMethod text name args span
      | none => fail (.noMethodOf name receiver.kindName) span := by
  cases receiver with
  | string | number | boolean => rfl
  | sentinel x =>
    obtain ⟨_, v⟩ := x
    cases v <;> rfl
  | _ => cases h

theorem inlines_method (h : InlinesCalls c call) (receiver : Datum) (name : String)
    (args : List Datum) (span : Span) :
    Inlines c frames (Datum.inlined c) (method call receiver name args span)
      (method call (receiver.inlined c) name (inlinedAll c args) span) := by
  by_cases hs : receiver.scalar?.isSome = true
  · have hs' : (receiver.inlined c).scalar?.isSome = true := by rwa [receiver.scalar?_inlined]
    rw [method_of_scalar? hs, method_of_scalar? hs', receiver.text?_inlined]
    cases receiver.text? with
    | some text => exact inlines_textMethod ..
    | none => exact .fail ..
  · cases receiver with
    | string | number | boolean | sentinel => exact absurd rfl hs
    | array items => exact inlines_arrayMethod h ..
    | object fields =>
      simp only [Datum.inlined, method, Datum.get?_inlinedEntries]
      cases Entries.get? fields name with
      | none => exact .fail ..
      | some d =>
        cases d with
        | function params body captured => exact h ..
        | sentinel x =>
          obtain ⟨-, hx⟩ | ⟨-, hx⟩ := Datum.inlined_sentinel (c := c) x <;>
            rw [Option.map_some, hx]
          · cases x.literal <;> exact .fail ..
          · exact .fail ..
        | _ => exact .fail ..
    | _ => exact .fail ..

theorem inFrames?_inlined (frames : List Frame) (name : String) :
    inFrames? (inlinedFrames c frames) name = (inFrames? frames name).map (Datum.inlined c) := by
  induction frames with
  | nil => rfl
  | cons frame frames ih =>
    simp only [inlinedFrames, inFrames?, List.findSome?_cons, Datum.get?_inlinedEntries] at ih ⊢
    cases Entries.get? frame name with
    | some d => rfl
    | none => exact ih

theorem isSome_inFrames? (frames : List Frame) (name : String) :
    (inFrames? frames name).isSome = Entries.anyBinds frames name := by
  induction frames with
  | nil => rfl
  | cons frame frames ih =>
    simp only [inFrames?, List.findSome?_cons, Entries.anyBinds, List.any_cons,
      Entries.contains] at ih ⊢
    cases Entries.get? frame name with
    | some d => rfl
    | none => exact ih

namespace Scope.Inlines

variable {s s' : Scope}

/-- Every name but the free name of the constant is looked up alike. -/
theorem lookup? (h : s.Inlines c frames s') {name : String}
    (hname : name ≠ c.name ∨ Entries.anyBinds frames name = true) :
    s'.lookup? name = (s.lookup? name).map (Datum.inlined c) := by
  unfold Scope.lookup?
  rw [h.here, h.there, inFrames?_inlined]
  rcases hframes : inFrames? frames name with _ | d
  · rcases hname with hname | hbound
    · exact h.globals name hname
    · rw [← isSome_inFrames?, hframes] at hbound
      cases hbound
  · rfl

/-- The free name of the constant is the constant's. -/
theorem lookup?_constant (h : s.Inlines c frames s')
    (hbound : Entries.anyBinds frames c.name = false) :
    s.lookup? c.name = some (.sentinel c) := by
  rw [← isSome_inFrames?, Option.isSome_eq_false_iff, Option.isNone_iff_eq_none] at hbound
  unfold Scope.lookup?
  rw [h.here, hbound, h.constant]

end Scope.Inlines

def found (text : String) (span : Span) : Option Datum → EvalM Datum
  | some d => return d
  | none => fail (.undefinedName text) span

theorem inlines_name {text : String}
    (h : text ≠ c.name ∨ Entries.anyBinds frames text = true) (span : Span) :
    Inlines c frames (Datum.inlined c) (name text span) (name text span) := by
  refine .read (k := found text span) (l := found text span) (·.lookup? text) (·.lookup? text)
    (Option.map (Datum.inlined c)) (fun s s' hs => hs.lookup? h) fun d => ?_
  cases d with
  | some d => exact .pure rfl
  | none => exact .fail ..

/-- What is written out for the constant evaluates to its literal. -/
theorem eval_expr (call : Caller) (span : Span) (v : Scalar) :
    eval call (v.expr span) = Pure.pure (Datum.ofScalar v) := by
  cases v with
  | string v | boolean v => rfl
  | number x =>
    rw [Scalar.expr]
    split
    · have hneg : unary .negate (.number (-x)) span = Pure.pure (.number (-(-x))) := rfl
      rw [eval, eval]
      exact hneg.trans (by rw [Number.neg_neg]; rfl)
    · rfl

theorem inlines_constant (call : Caller) (hbound : Entries.anyBinds frames c.name = false)
    (span : Span) :
    Inlines c frames (Datum.inlined c) (name c.name span) (eval call (c.literal.expr span)) := by
  rw [eval_expr]
  refine ⟨fun s s' hs => .inr ⟨.sentinel c, s, s', ?_, ?_, hs⟩⟩
  · show (found c.name span (s.lookup? c.name)).run s = _
    rw [hs.lookup?_constant hbound]
    rfl
  · rw [show (Datum.sentinel c).inlined c = _ from if_pos rfl]
    rfl

theorem inlines_callDatum (h : InlinesCalls c call) (function : Datum) (args : List Datum)
    (errorSpan errorSpan' span : Span) :
    Inlines c frames (Datum.inlined c) (callDatum call function args errorSpan span)
      (callDatum call (function.inlined c) (inlinedAll c args) errorSpan' span) := by
  cases function with
  | function params body captured => exact h ..
  | sentinel x =>
    obtain ⟨-, hx⟩ | ⟨-, hx⟩ := Datum.inlined_sentinel (c := c) x <;> rw [hx]
    · cases x.literal <;> exact .fail ..
    · exact .fail ..
  | _ => exact .fail ..

mutual

theorem inlines_eval (h : InlinesCalls c call) : ∀ e : Expr,
    Inlines c frames (Datum.inlined c) (eval call e)
      (eval call (e.inlined c (Entries.anyBinds frames c.name)))
  | .string .. | .number .. | .boolean .. | .null _ | .undefined _ => .pure rfl
  | .name s n => by
    rw [Expr.inlined]
    split
    · rename_i hfree
      obtain ⟨hbound, rfl⟩ := hfree
      exact inlines_constant call hbound s
    · rename_i hbound
      refine inlines_name ?_ s
      by_cases hn : n = c.name
      · exact .inr (by simpa [hn] using hbound)
      · exact .inl hn
  | .template _ segments => .after (inlines_evalSegments h segments) fun _ => .pure rfl
  | .array _ items => (inlines_evalItems h items).bind fun _ => .pure rfl
  | .object _ ms => (inlines_evalMembers h [] ms).bind fun _ => .pure rfl
  | .member _ object _ => (inlines_eval h object).bind fun _ => inlines_member ..
  | .index _ object position =>
    (inlines_eval h object).bind fun _ => (inlines_eval h position).bind fun _ =>
      inlines_index ..
  | .call _ callee args => by
    have hargs := inlines_evalAll h args
    by_cases hm : ∃ s object property, callee = .member s object property
    -- The callee of a method call is not read as a member of its own.
    · obtain ⟨_, object, property, rfl⟩ := hm
      rw [Expr.inlined, Expr.inlined, eval, eval]
      exact (inlines_eval h object).bind fun _ => hargs.bind fun _ => inlines_method h ..
    · rw [Expr.inlined, eval_call call hm, eval_call call (Expr.not_member_inlined hm)]
      exact (inlines_eval h callee).bind fun _ => hargs.bind fun _ => inlines_callDatum h ..
  | .arrow _ params body => by
    refine ⟨fun s s' hs => .inr ⟨.function params body s.frames, s, s', rfl, ?_, hs⟩⟩
    show (Except.ok (Datum.function params _ s'.frames), s') = _
    rw [hs.there, Datum.inlined, hs.here]
  | .unary _ _ operand => (inlines_eval h operand).bind fun _ => inlines_unary ..
  | .binary s op left right => by
    have hl := inlines_eval h left
    have hr := inlines_eval h right
    cases hop : op.stopsAt? with
    | some stop =>
      rw [Expr.inlined, eval_shortened _ _ hop, eval_shortened _ _ hop]
      refine hl.bind fun l => ?_
      rw [l.truthy_inlined]
      exact .ite (.pure rfl) hr
    | none =>
      rw [Expr.inlined, eval_operator _ _ hop, eval_operator _ _ hop]
      exact hl.bind fun _ => hr.bind fun _ => inlines_operator ..
  | .conditional s test consequent alternate => by
    have hc := inlines_eval h consequent
    have ha := inlines_eval h alternate
    rw [Expr.inlined, eval, eval]
    refine (inlines_eval h test).bind fun t => ?_
    rw [t.truthy_inlined]
    exact .ite hc ha

theorem inlines_evalSegments (h : InlinesCalls c call) : ∀ segments : List TemplateSegment,
    Inlines c frames id (evalSegments call segments)
      (evalSegments call (Expr.inlinedSegments c (Entries.anyBinds frames c.name) segments))
  | [] => .pure rfl
  | .text _ :: rest => .after (inlines_evalSegments h rest) fun _ => .pure rfl
  | .hole e :: rest =>
    (inlines_eval h e).bind fun _ => .after (inlines_stringify ..) fun _ =>
      .after (inlines_evalSegments h rest) fun _ => .pure rfl

theorem inlines_evalItems (h : InlinesCalls c call) : ∀ items : List ArrayItem,
    Inlines c frames (inlinedAll c) (evalItems call items)
      (evalItems call (Expr.inlinedItems c (Entries.anyBinds frames c.name) items))
  | [] => .pure rfl
  | .item e :: rest =>
    (inlines_eval h e).bind fun _ => (inlines_evalItems h rest).bind fun _ => .pure rfl
  | .spread e :: rest => by
    have hrest := inlines_evalItems h rest
    rw [Expr.inlinedItems, evalItems, evalItems]
    refine (inlines_eval h e).bind fun d => ?_
    cases d with
    | array items => exact hrest.bind fun _ => .pure (Datum.inlinedAll_append ..).symm
    | sentinel x =>
      obtain ⟨-, hx⟩ | ⟨-, hx⟩ := Datum.inlined_sentinel (c := c) x <;> rw [hx]
      · cases x.literal <;> exact .fail ..
      · exact .fail ..
    | _ => exact .fail ..

theorem inlines_evalMembers (h : InlinesCalls c call) :
    ∀ (fields : List (String × Datum)) (ms : List ObjectMember),
      Inlines c frames (inlinedEntries c) (evalMembers call fields ms)
        (evalMembers call (inlinedEntries c fields)
          (Expr.inlinedMembers c (Entries.anyBinds frames c.name) ms))
  | _, [] => .pure rfl
  | fields, .field key _ e :: rest => by
    rw [Expr.inlinedMembers, evalMembers, evalMembers]
    refine (inlines_eval h e).bind fun d => ?_
    rw [Datum.put_inlinedEntries]
    exact inlines_evalMembers h _ rest
  | fields, .spread e :: rest => by
    have hrest (fields : List (String × Datum)) :
        Inlines c frames _ (evalMembers call fields rest) _ := inlines_evalMembers h fields rest
    rw [Expr.inlinedMembers, evalMembers, evalMembers]
    refine (inlines_eval h e).bind fun d => ?_
    cases d with
    | object more =>
      have hput := hrest (Entries.putAll fields more)
      rw [← Datum.putAll_inlinedEntries] at hput
      exact hput
    | null | undefined => exact hrest fields
    | sentinel x =>
      obtain ⟨-, hx⟩ | ⟨-, hx⟩ := Datum.inlined_sentinel (c := c) x <;> rw [hx]
      · cases x.literal <;> exact .fail ..
      · exact .fail ..
    | _ => exact .fail ..

theorem inlines_evalAll (h : InlinesCalls c call) : ∀ es : List Expr,
    Inlines c frames (inlinedAll c) (evalAll call es)
      (evalAll call (Expr.inlinedAll c (Entries.anyBinds frames c.name) es))
  | [] => .pure rfl
  | e :: es => (inlines_eval h e).bind fun _ => (inlines_evalAll h es).bind fun _ => .pure rfl

end

theorem frameOf_inlined (params : List Ident) (args : List Datum) :
    frameOf params (inlinedAll c args) = inlinedEntries c (frameOf params args) := by
  induction params generalizing args with
  | nil => cases args <;> rfl
  | cons p ps ih =>
    cases args with
    | nil =>
      have hrest := ih []
      simp only [inlinedAll, frameOf] at hrest ⊢
      rw [← Datum.put_inlinedEntries, ← hrest]
      rfl
    | cons a as => simp only [inlinedAll, frameOf, ih, Datum.put_inlinedEntries]

/-- A call binds the names of the parameters. -/
theorem contains_frameOf (params : List Ident) (args : List Datum) (name : String) :
    Entries.contains (frameOf params args) name = Ident.anyNamed params name := by
  induction params generalizing args with
  | nil => cases args <;> rfl
  | cons p ps ih =>
    cases args with
    | nil | cons =>
      rw [frameOf, Entries.contains_put, ih]
      rfl

theorem inlines_guarded (maxDepth : Nat) (span : Span) {work work' : EvalM Datum}
    (h : Inlines c frames (Datum.inlined c) work work') :
    Inlines c frames (Datum.inlined c) (guarded maxDepth span work)
      (guarded maxDepth span work') :=
  .read (k := fun depth => if maxDepth ≤ depth then fail (.tooDeep maxDepth) span else work)
    (l := fun depth => if maxDepth ≤ depth then fail (.tooDeep maxDepth) span else work')
    Scope.depth Scope.depth id (fun _ _ hs => hs.depth) fun _ => .ite (.fail ..) h

theorem inlinesCalls_call (maxDepth levels : Nat) :
    InlinesCalls c (Eval.call maxDepth levels) := by
  induction levels with
  | zero => exact fun _ _ _ _ _ _ => .fail ..
  | succ n ih =>
    intro frames params body captured args span
    have hbody : Inlines c frames _ (inside (frameOf params args :: captured) _) _ :=
      .inside (inlines_eval ih body)
    rw [inlinedFrames, ← frameOf_inlined, Entries.anyBinds, List.any_cons, contains_frameOf,
      Bool.or_comm] at hbody
    exact inlines_guarded maxDepth span hbody

variable {limits : Limits} {schema : Schema}

theorem inlines_datumOf (e : Expr) :
    Inlines c [] (Datum.inlined c) (datumOf limits e) (datumOf limits (e.inlined c false)) :=
  inlines_eval (inlinesCalls_call limits.maxDepth limits.maxDepth) e

theorem inlines_bindName {name : String} (hname : name ≠ c.name) (d : Datum) :
    Inlines c [] id (bindName name d) (bindName name (d.inlined c)) := by
  refine ⟨fun s s' hs => .inr ⟨(), _, _, rfl, rfl, { hs with
    constant := ?_, globals := fun other hother => ?_ }⟩⟩
  · rw [Entries.get?_put, if_neg hname, hs.constant]
  · rw [Entries.get?_put, Entries.get?_put, hs.globals other hother]
    split <;> rfl

/-- A statement that gives the name of the constant no other value. -/
theorem inlines_statement (root : String) {s : Statement}
    (hs : ∀ name, s.target? = some name → name.name ≠ c.name) :
    Inlines c [] id (statement limits root s) (statement limits root (s.inlined c)) := by
  cases s with
  | expression value => exact (inlines_datumOf value).bind fun _ => .pure rfl
  | declare kind name init span =>
    have hname := hs name rfl
    cases init with
    | none => exact .ite (.pure rfl) (inlines_bindName hname .undefined)
    | some value =>
      exact (inlines_datumOf value).bind fun d => .ite (.fail ..) (inlines_bindName hname d)
  | assign target value span =>
    have hname := hs target rfl
    let assign (d : Datum) (declared : Bool) : EvalM Unit :=
      if declared then bindName target.name d else fail (.undeclared target.name) target.span
    refine (inlines_datumOf value).bind fun d => ?_
    refine .read (k := assign d) (l := assign (d.inlined c))
      (fun s => Entries.contains s.globals target.name)
      (fun s => Entries.contains s.globals target.name) id (fun s s' hs => ?_)
      fun _ => .ite (inlines_bindName hname d) (.fail ..)
    rw [Entries.contains, hs.globals _ hname, Option.isSome_map]
    rfl

theorem inlines_statements (root : String) {ss : List Statement}
    (hs : ∀ s ∈ ss, ∀ name, s.target? = some name → name.name ≠ c.name) :
    Inlines c [] id (statements limits root ss) (statements limits root (ss.map (.inlined c))) := by
  induction ss with
  | nil => exact .pure rfl
  | cons s rest ih =>
    obtain ⟨hs, hrest⟩ := List.forall_mem_cons.1 hs
    exact .after (inlines_statement root hs) fun _ => ih hrest

/-- At first the constant is bound as it is, and no other name is bound to it. -/
theorem inlines_initial {d : ConstantDeclaration} (hd : (schema.constants.map (·.name)).Nodup)
    (hc : d ∈ schema.constants) (hroot : schema.root.name ≠ d.name) :
    Scope.Inlines d.sentinel [] (initial schema) (initial schema) := by
  refine ⟨Schema.get?_bindings_constant hd hc hroot, fun name hname => ?_, rfl, rfl, rfl⟩
  change Entries.get? (schema.bindings Datum.sentinel .undefined) name =
    (Entries.get? (schema.bindings Datum.sentinel .undefined) name).map _
  cases hb : Entries.get? (schema.bindings Datum.sentinel .undefined) name with
  | none => rfl
  | some b =>
    obtain rfl | ⟨x, hx, rfl⟩ := Schema.get?_bindings_ne hd hname hb
    · rfl
    · exact congrArg some (if_neg hx).symm

end Eval

namespace Program

variable {schema : Schema} {d : ConstantDeclaration} {p : Program}

/-- A program that gives the name of a constant no value either has no value, also with the
constant written out, or the same value with the constant written out. -/
theorem evaluate_inlined (limits : Limits) (hd : (schema.constants.map (·.name)).Nodup)
    (hc : d ∈ schema.constants) (hroot : schema.root.name ≠ d.name)
    (hp : ∀ s ∈ p.statements, ∀ name, s.target? = some name → name.name ≠ d.name)
    (rs rs' : List Resolution) :
    (CheckedProgram.evaluate limits ⟨schema, p.inlined d.sentinel, rs'⟩).toOption =
      (CheckedProgram.evaluate limits ⟨schema, p, rs⟩).toOption.map
        (Value.inlined d.sentinel) := by
  have hruns : Eval.Inlines d.sentinel [] id
      (Eval.statements limits schema.root.name p.statements) _ :=
    Eval.inlines_statements schema.root.name hp
  rw [evaluate_of_run rfl, evaluate_of_run rfl]
  obtain ⟨e, e', t, t', hrun, hrun'⟩ | ⟨_, t, t', hrun, hrun', ht⟩ :=
    (hruns.run _ _ (Eval.inlines_initial hd hc hroot))
  · rw [hrun, Program.inlined, hrun']
    rfl
  · rw [hrun, Program.inlined, hrun', ht.globals _ hroot]
    have hvalue (b : Option Datum) : ((b.map (Datum.inlined d.sentinel)).getD .undefined).toValue
        schema.root.name = ((b.getD .undefined).toValue schema.root.name).map
          (Value.inlined d.sentinel) := by
      rw [← Datum.toValue_inlined]
      cases b <;> rfl
    dsimp only
    rw [hvalue]
    cases Datum.toValue _ _ <;> rfl

end Program

end TypedConfig
