import TypedConfig.Eval

/-! # Branching

A conditional goes one of two ways, and some operators leave out their right side. An evaluation
goes one way. A check goes both ways where it does not know the condition, and finds one of both
shapes.
-/

namespace TypedConfig

/-- The truth of a left side at which an operator leaves out its right side. -/
def BinaryOp.stopsAt? : BinaryOp → Option Bool
  | and => some false
  | or => some true
  | _ => none

variable {op : BinaryOp} {stop : Bool}

namespace Check

/-- One of two computations by a condition, or one of both shapes where it is not known. -/
def choose (condition : Option Bool) (yes no : CheckM Shape) (span : Span) : CheckM Shape :=
  match condition with
  | some true => yes
  | some false => no
  | none => do
    let a ← yes
    let b ← no
    oneOf [a, b] span

theorem infer_conditional (call : Caller) (s : Span) (test consequent alternate : Expr) :
    infer call (.conditional s test consequent alternate) = (do
      let t ← infer call test
      choose t.truthiness (infer call consequent) (infer call alternate) s) := by
  rw [infer]
  refine bind_congr fun t => ?_
  rcases t.truthiness with _ | _ | _ <;> rfl

theorem infer_shortened (call : Caller) (s : Span) (h : op.stopsAt? = some stop)
    (left right : Expr) :
    infer call (.binary s op left right) = (do
      let l ← infer call left
      choose (l.truthiness.map (· == stop)) (return l) (infer call right) s) := by
  cases op <;> cases h
  all_goals
    rw [infer]
    refine bind_congr fun l => ?_
    rcases l.truthiness with _ | _ | _ <;> rfl

theorem infer_operator (call : Caller) (s : Span) (h : op.stopsAt? = none) (left right : Expr) :
    infer call (.binary s op left right) = (do
      let l ← infer call left
      let r ← infer call right
      operator op r s l) := by
  rw [infer]
  all_goals
    rintro rfl
    cases h

end Check

namespace Eval

theorem eval_shortened (call : Caller) (s : Span) (h : op.stopsAt? = some stop)
    (left right : Expr) :
    eval call (.binary s op left right) = (do
      let l ← eval call left
      if l.truthy == stop then return l else eval call right) := by
  cases op <;> cases h
  all_goals
    rw [eval]
    refine bind_congr fun l => ?_
    cases l.truthy <;> rfl

theorem eval_operator (call : Caller) (s : Span) (h : op.stopsAt? = none) (left right : Expr) :
    eval call (.binary s op left right) = (do
      let l ← eval call left
      let r ← eval call right
      operator op l r s) := by
  rw [eval]
  all_goals
    rintro rfl
    cases h

end Eval

end TypedConfig
