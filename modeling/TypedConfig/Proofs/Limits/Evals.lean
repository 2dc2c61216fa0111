import TypedConfig.Proofs.Eval.Run
import TypedConfig.Proofs.Limits.Keeps
import TypedConfig.Proofs.Simulation.Programs

/-! # Larger limits keep values

An evaluation that does not fail has not met the limit on the depth of calls, so it gives the
same where calls may be nested deeper.
-/

namespace TypedConfig

namespace Eval

variable {α β : Type}

/-- An evaluation that another repeats, from the same scope, if it does not fail. -/
structure KeepsEval (n n' : EvalM α) : Prop where
  run : ∀ s a t, n.run s = (.ok a, t) → n'.run s = (.ok a, t)

namespace KeepsEval

variable {n n' : EvalM α}

theorem refl (n : EvalM α) : KeepsEval n n := ⟨fun _ _ _ h => h⟩

theorem of_fail (cause : EvalCause) (span : Span) : KeepsEval (Eval.fail cause span) n :=
  ⟨fun s a t h => by cases (Prod.ext_iff.1 h).1⟩

theorem bind {k k' : α → EvalM β} (h : KeepsEval n n') (hk : ∀ a, KeepsEval (k a) (k' a)) :
    KeepsEval (n >>= k) (n' >>= k') := by
  refine ⟨fun s b u hrun => ?_⟩
  match hn : n.run s with
  | (.error f, t) =>
    rw [run_bind_error hn] at hrun
    cases (Prod.ext_iff.1 hrun).1
  | (.ok a, t) =>
    rw [run_bind hn] at hrun
    rw [run_bind (h.run s a t hn)]
    exact (hk a).run t b u hrun

/-- What follows the same evaluation. -/
theorem after {k k' : α → EvalM β} (hk : ∀ a, KeepsEval (k a) (k' a)) :
    KeepsEval (n >>= k) (n >>= k') := (refl n).bind hk

theorem inside (frames : List Frame) (h : KeepsEval n n') :
    KeepsEval (Eval.inside frames n) (Eval.inside frames n') := by
  refine ⟨fun s a t hrun => ?_⟩
  rw [run_inside] at hrun ⊢
  match hn : n.run { s with frames := frames, depth := s.depth + 1 } with
  | (r, u) =>
    rw [hn] at hrun
    cases hrun
    rw [h.run _ a u hn]

theorem congruence : Congruence KeepsEval := ⟨fun _ => .refl _, .bind⟩

end KeepsEval

theorem keeps_guarded {depth depth' : Nat} (hd : depth ≤ depth') (span : Span)
    {work work' : EvalM Datum} (h : KeepsEval work work') :
    KeepsEval (guarded depth span work) (guarded depth' span work') := by
  refine .after fun s => ?_
  by_cases hs : depth ≤ s.depth
  · rw [if_pos hs]
    exact .of_fail ..
  · have hs' : ¬ depth' ≤ s.depth := fun hle => hs (Nat.le_trans hd hle)
    rw [if_neg hs, if_neg hs']
    exact h

/-- Calls are repeated where they may be nested deeper. -/
theorem keeps_call {depth depth' levels levels' : Nat} (hd : depth ≤ depth')
    (hl : levels ≤ levels') :
    Relates KeepsEval (Eval.call depth levels) (Eval.call depth' levels') := by
  induction levels generalizing levels' with
  | zero => intro _ _ _ _ span; exact .of_fail (.tooDeep depth) span
  | succ n ih =>
    cases levels' with
    | zero => cases hl
    | succ n' =>
      intro params body captured args span
      have hbody := KeepsEval.congruence.eval (ih (Nat.le_of_succ_le_succ hl)) body
      exact keeps_guarded hd span (.inside _ hbody)

variable {l m : Limits}

theorem keeps_datumOf (hl : l ≤ m) (e : Expr) : KeepsEval (datumOf l e) (datumOf m e) :=
  KeepsEval.congruence.eval (keeps_call hl.2.1 hl.2.1) e

theorem keeps_statement (hl : l ≤ m) (root : String) (s : Statement) :
    KeepsEval (statement l root s) (statement m root s) := by
  cases s with
  | expression value => exact (keeps_datumOf hl value).bind fun _ => .refl _
  | declare kind name init span =>
    cases init with
    | none => exact .refl _
    | some value => exact (keeps_datumOf hl value).bind fun _ => .refl _
  | assign target value span => exact (keeps_datumOf hl value).bind fun _ => .refl _

theorem keeps_statements (hl : l ≤ m) (root : String) (ss : List Statement) :
    KeepsEval (statements l root ss) (statements m root ss) := by
  induction ss with
  | nil => exact .refl _
  | cons s rest ih => exact (keeps_statement hl root s).bind fun _ => ih

end Eval

/-- A program that has a value within limits has the same within larger ones. -/
theorem CheckedProgram.evaluate_mono {l m : Limits} (hl : l ≤ m) (checked : CheckedProgram) :
    Keeps (checked.evaluate l) (checked.evaluate m) := by
  obtain ⟨schema, program, resolutions⟩ := checked
  refine ⟨fun v h => ?_⟩
  match hrun : (Eval.statements l schema.root.name program.statements).run
      (Eval.initial schema) with
  | (.error f, t) =>
    rw [Program.evaluate_of_run hrun] at h
    cases h
  | (.ok (), t) =>
    have hrun' := (Eval.keeps_statements hl schema.root.name program.statements).run _ () t hrun
    rw [Program.evaluate_of_run hrun] at h
    rw [Program.evaluate_of_run hrun']
    exact h

end TypedConfig
