import TypedConfig.Proofs.Branching

/-! # Runs of evaluations

What an evaluation gives, and the scope that it leaves: an expression leaves the scope as it was,
also where it fails. What holds of a caller's calls, and is kept by sequencing, holds of the
evaluation of every expression.
-/

namespace TypedConfig.Eval

variable {α β : Type}

theorem run_bind {n : EvalM α} {s t : Scope} {a : α} (h : n.run s = (.ok a, t))
    (k : α → EvalM β) : (n >>= k).run s = (k a).run t := by
  show (ExceptT.bindCont k (n.run s).1) (n.run s).2 = _
  rw [h]
  rfl

theorem run_bind_error {n : EvalM α} {s t : Scope} {f : Fault} (h : n.run s = (.error f, t))
    (k : α → EvalM β) : (n >>= k).run s = (.error f, t) := by
  show (ExceptT.bindCont k (n.run s).1) (n.run s).2 = _
  rw [h]
  rfl

theorem run_inside (frames : List Frame) (n : EvalM α) (s : Scope) :
    (inside frames n).run s =
      (fun r : Except Fault α × Scope =>
        (r.1, { r.2 with frames := s.frames, depth := r.2.depth - 1 }))
        (n.run { s with frames := frames, depth := s.depth + 1 }) := rfl

/-- A computation that leaves every scope as it was, with a result or with a failure. -/
structure Neutral (n : EvalM α) : Prop where
  scope : ∀ s, (n.run s).2 = s

namespace Neutral

variable {n : EvalM α}

@[simp] theorem pure (a : α) : Neutral (Pure.pure a : EvalM α) := ⟨fun _ => rfl⟩

@[simp] theorem fail (cause : EvalCause) (span : Span) :
    Neutral (Eval.fail cause span : EvalM α) := ⟨fun _ => rfl⟩

@[simp] theorem get : Neutral (MonadState.get : EvalM Scope) := ⟨fun _ => rfl⟩

theorem bind {k : α → EvalM β} (h : Neutral n) (hk : ∀ a, Neutral (k a)) :
    Neutral (n >>= k) := by
  refine ⟨fun s => ?_⟩
  have hs := h.scope s
  rcases hn : n.run s with ⟨f | a, t⟩
  · rw [run_bind_error hn, ← hs, hn]
  · rw [run_bind hn, (hk a).scope, ← hs, hn]

/-- The frames and the depth of a call are undone after it. -/
theorem inside (frames : List Frame) (h : Neutral n) : Neutral (Eval.inside frames n) := by
  refine ⟨fun s => ?_⟩
  rw [run_inside]
  simp only [h.scope, Nat.add_sub_cancel]

end Neutral

@[simp] theorem neutral_stringify (d : Datum) (span : Span) : Neutral (stringify d span) := by
  unfold stringify
  split <;> simp

theorem neutral_stringifyAll (span : Span) (ds : List Datum) :
    Neutral (stringifyAll span ds) := by
  induction ds with
  | nil => exact .pure _
  | cons d ds ih => exact (neutral_stringify ..).bind fun _ => ih.bind fun _ => .pure _

@[simp] theorem neutral_member (receiver : Datum) (property : String) (span : Span) :
    Neutral (member receiver property span) := by
  unfold member
  repeat' split
  all_goals simp

@[simp] theorem neutral_index (receiver position : Datum) (span : Span) :
    Neutral (index receiver position span) := by
  unfold index
  repeat' split
  all_goals simp

@[simp] theorem neutral_unary (op : UnaryOp) (operand : Datum) (span : Span) :
    Neutral (unary op operand span) := by
  unfold unary
  repeat' split
  all_goals simp

theorem neutral_operator (op : BinaryOp) (left right : Datum) (span : Span) :
    Neutral (operator op left right span) := by
  unfold operator
  split
  · exact .pure _
  · split
    · exact .pure _
    · split
      · exact (neutral_stringify ..).bind fun _ => (neutral_stringify ..).bind fun _ => .pure _
      · split <;> simp

@[simp] theorem neutral_separator (name : String) (d : Datum) (span : Span) :
    Neutral (separator name d span) := by
  unfold separator
  split <;> simp

theorem neutral_textMethod (text name : String) (args : List Datum) (span : Span) :
    Neutral (textMethod text name args span) := by
  unfold textMethod
  repeat' split
  · exact .pure _
  · exact .pure _
  · exact (neutral_separator ..).bind fun _ => .pure _
  · exact .fail ..

theorem neutral_name (text : String) (span : Span) : Neutral (name text span) := by
  refine Neutral.get.bind fun s => ?_
  split <;> simp

def callDatum (call : Caller) (function : Datum) (args : List Datum) (errorSpan span : Span) :
    EvalM Datum :=
  match function with
  | .function params body captured => call params body captured args span
  | d => fail (.notFunction d.kindName) errorSpan

theorem eval_call (call : Caller) {callee : Expr} {args : List Expr} {s : Span}
    (h : ¬ ∃ s object property, callee = .member s object property) :
    eval call (.call s callee args) = (do
      let function ← eval call callee
      let args ← evalAll call args
      callDatum call function args callee.span s) := by
  rw [eval]
  · rfl
  · rintro s object property rfl
    exact h ⟨s, object, property, rfl⟩

/-- Relations that a neutral computation has with itself and that sequencing keeps. -/
structure Congruence (R : ∀ {α : Type}, EvalM α → EvalM α → Prop) : Prop where
  refl : ∀ {α : Type} {n : EvalM α}, Neutral n → R n n
  bind : ∀ {α β : Type} {n n' : EvalM α} {k k' : α → EvalM β},
    R n n' → (∀ a, R (k a) (k' a)) → R (n >>= k) (n' >>= k')

def Relates (R : ∀ {α : Type}, EvalM α → EvalM α → Prop) (call call' : Caller) : Prop :=
  ∀ params body captured args span,
    R (call params body captured args span) (call' params body captured args span)

namespace Congruence

variable {R : ∀ {α : Type}, EvalM α → EvalM α → Prop} (hR : Congruence R) {call call' : Caller}

include hR

theorem pure (a : α) : R (Pure.pure a : EvalM α) (Pure.pure a) := hR.refl (.pure a)

/-- What follows the same computation. -/
theorem after {n : EvalM α} {k k' : α → EvalM β} (h : Neutral n) (hk : ∀ a, R (k a) (k' a)) :
    R (n >>= k) (n >>= k') := hR.bind (hR.refl h) hk

theorem iterate {apply apply' : Datum → Datum → EvalM Datum}
    (h : ∀ a b, R (apply a b) (apply' a b)) (kind : Iteration) (i : Nat) (items : List Datum) :
    R (iterate apply kind i items) (iterate apply' kind i items) := by
  induction items generalizing i with
  | nil => exact hR.pure _
  | cons d rest ih => exact hR.bind (h ..) fun _ => hR.bind (ih _) fun _ => hR.pure _

theorem arrayMethod (h : Relates R call call') (items : List Datum) (name : String)
    (args : List Datum) (span : Span) :
    R (arrayMethod call items name args span) (arrayMethod call' items name args span) := by
  unfold Eval.arrayMethod
  split
  · split
    · exact hR.bind (hR.iterate (fun _ _ => h ..) ..) fun _ => hR.pure _
    · exact hR.refl (.fail ..)
  · split
    · exact hR.pure _
    · split
      · split
        · exact hR.after (.pure _) fun _ => hR.after (neutral_stringifyAll ..) fun _ => hR.pure _
        · exact hR.after (neutral_separator ..) fun _ =>
            hR.after (neutral_stringifyAll ..) fun _ => hR.pure _
      · exact hR.refl (.fail ..)

theorem method (h : Relates R call call') (receiver : Datum) (name : String)
    (args : List Datum) (span : Span) :
    R (method call receiver name args span) (method call' receiver name args span) := by
  unfold Eval.method
  split
  · exact hR.arrayMethod h ..
  · split
    · exact h ..
    · exact hR.refl (.fail ..)
    · exact hR.refl (.fail ..)
  · exact hR.refl (neutral_textMethod ..)
  · exact hR.refl (.fail ..)

theorem callDatum (h : Relates R call call') (function : Datum) (args : List Datum)
    (errorSpan span : Span) :
    R (callDatum call function args errorSpan span)
      (callDatum call' function args errorSpan span) := by
  unfold Eval.callDatum
  split
  · exact h ..
  · exact hR.refl (.fail ..)

mutual

/-- What holds of all calls holds of the evaluation of every expression. -/
theorem eval (h : Relates R call call') : ∀ e, R (eval call e) (eval call' e)
  | .string .. | .number .. | .boolean .. | .null _ | .undefined _ => hR.pure _
  | .name .. => hR.refl (neutral_name ..)
  | .arrow .. => hR.after .get fun _ => hR.pure _
  | .template _ segments => hR.bind (evalSegments h segments) fun _ => hR.pure _
  | .array _ items => hR.bind (evalItems h items) fun _ => hR.pure _
  | .object _ ms => hR.bind (evalMembers h [] ms) fun _ => hR.pure _
  | .member _ object _ => hR.bind (eval h object) fun _ => hR.refl (neutral_member ..)
  | .index _ object position =>
    hR.bind (eval h object) fun _ => hR.bind (eval h position) fun _ => hR.refl (neutral_index ..)
  | .call _ callee args => by
    have hargs := evalAll h args
    by_cases hm : ∃ s object property, callee = .member s object property
    · obtain ⟨_, object, _, rfl⟩ := hm
      rw [Eval.eval, Eval.eval]
      exact hR.bind (eval h object) fun _ => hR.bind hargs fun _ => hR.method h ..
    · rw [eval_call call hm, eval_call call' hm]
      exact hR.bind (eval h callee) fun _ => hR.bind hargs fun _ => hR.callDatum h ..
  | .unary _ _ operand => hR.bind (eval h operand) fun _ => hR.refl (neutral_unary ..)
  | .binary _ op left right => by
    have hl := eval h left
    have hr := eval h right
    cases hop : op.stopsAt? with
    | some stop =>
      rw [eval_shortened _ _ hop, eval_shortened _ _ hop]
      refine hR.bind hl fun _ => ?_
      split
      · exact hR.pure _
      · exact hr
    | none =>
      rw [eval_operator _ _ hop, eval_operator _ _ hop]
      exact hR.bind hl fun _ => hR.bind hr fun _ => hR.refl (neutral_operator ..)
  | .conditional _ test consequent alternate => by
    rw [Eval.eval, Eval.eval]
    refine hR.bind (eval h test) fun _ => ?_
    split
    · exact eval h consequent
    · exact eval h alternate

theorem evalSegments (h : Relates R call call') : ∀ segments,
    R (evalSegments call segments) (evalSegments call' segments)
  | [] => hR.pure _
  | .text _ :: rest => hR.bind (evalSegments h rest) fun _ => hR.pure _
  | .hole e :: rest =>
    hR.bind (eval h e) fun _ => hR.after (neutral_stringify ..) fun _ =>
      hR.bind (evalSegments h rest) fun _ => hR.pure _

theorem evalItems (h : Relates R call call') : ∀ items,
    R (evalItems call items) (evalItems call' items)
  | [] => hR.pure _
  | .item e :: rest => hR.bind (eval h e) fun _ => hR.bind (evalItems h rest) fun _ => hR.pure _
  | .spread e :: rest => by
    rw [Eval.evalItems, Eval.evalItems]
    refine hR.bind (eval h e) fun d => ?_
    split
    · exact hR.bind (evalItems h rest) fun _ => hR.pure _
    · exact hR.refl (.fail ..)

theorem evalMembers (h : Relates R call call') :
    ∀ fields ms, R (evalMembers call fields ms) (evalMembers call' fields ms)
  | _, [] => hR.pure _
  | _, .field _ _ e :: rest => hR.bind (eval h e) fun _ => evalMembers h _ rest
  | _, .spread e :: rest => by
    rw [Eval.evalMembers, Eval.evalMembers]
    refine hR.bind (eval h e) fun d => ?_
    split
    · exact evalMembers h _ rest
    · exact evalMembers h _ rest
    · exact evalMembers h _ rest
    · exact hR.refl (.fail ..)

theorem evalAll (h : Relates R call call') : ∀ es, R (evalAll call es) (evalAll call' es)
  | [] => hR.pure _
  | e :: es => hR.bind (eval h e) fun _ => hR.bind (evalAll h es) fun _ => hR.pure _

end

end Congruence

theorem Congruence.ofNeutral : Congruence fun n _ => Neutral n := ⟨id, .bind⟩

theorem neutral_guarded (maxDepth : Nat) (span : Span) {work : EvalM Datum} (h : Neutral work) :
    Neutral (guarded maxDepth span work) := by
  refine Neutral.get.bind fun s => ?_
  split
  · exact .fail ..
  · exact h

/-- Evaluating an expression leaves the scope as it was if all calls do. -/
theorem neutral_eval {call : Caller}
    (h : ∀ params body captured args span, Neutral (call params body captured args span))
    (e : Expr) : Neutral (eval call e) := by
  have hself : Relates (fun n _ => Neutral n) call call := h
  exact Congruence.ofNeutral.eval hself e

theorem neutral_call (maxDepth levels : Nat) (params : List Ident) (body : Expr)
    (captured : List Frame) (args : List Datum) (span : Span) :
    Neutral (call maxDepth levels params body captured args span) := by
  induction levels generalizing params body captured args span with
  | zero => exact .fail ..
  | succ levels ih => exact neutral_guarded _ _ (.inside _ (neutral_eval ih body))

end TypedConfig.Eval
