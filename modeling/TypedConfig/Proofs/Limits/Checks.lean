import TypedConfig.Proofs.Limits.Keeps
import TypedConfig.Proofs.Simulation.Programs

/-! # Larger limits keep checks

A check that finds no error has made no call that was refused, so it goes the same way where
calls may be nested deeper.
-/

namespace TypedConfig

namespace Check

variable {α β : Type}

/-- A computation that another repeats, from the same state, if it finds no error. -/
structure KeepsCheck (m m' : CheckM α) : Prop where
  addsErrors : AddsErrors m
  calls : ∀ s, (after m s).errors = [] → s.calls ≤ maxCalls → (after m s).calls ≤ maxCalls
  run : ∀ s, s.calls ≤ maxCalls → (after m s).errors = [] → m' s = m s

namespace KeepsCheck

variable {m m' : CheckM α}

theorem of_steady (h : Steady m) (hr : ∀ s, s.calls ≤ maxCalls → (after m s).errors = [] →
    m' s = m s) : KeepsCheck m m' := ⟨h.addsErrors, h.calls, hr⟩

theorem refl (h : Steady m) : KeepsCheck m m := .of_steady h fun _ _ _ => rfl

/-- A step that makes no call. -/
theorem step (f : State → α × State) (he : ∀ s, s.errors <:+ (f s).2.errors)
    (hc : ∀ s, (f s).2.calls = s.calls) : KeepsCheck (f : CheckM α) f :=
  ⟨he, fun s _ h => by rw [after, hc]; exact h, fun _ _ _ => rfl⟩

theorem bind {f f' : α → CheckM β} (h : KeepsCheck m m') (hf : ∀ a, KeepsCheck (f a) (f' a)) :
    KeepsCheck (m >>= f) (m' >>= f') where
  addsErrors := h.addsErrors.bind fun a => (hf a).addsErrors
  calls s he hc := by
    have hm : (after m s).errors = [] := (hf _).addsErrors.errors_nil he
    exact (hf _).calls _ he (h.calls s hm hc)
  run s hc he := by
    have hm : (after m s).errors = [] := (hf _).addsErrors.errors_nil he
    have hrest : f' (value m s) (after m s) = f (value m s) (after m s) :=
      (hf _).run _ (h.calls s hm hc) he
    show (fun r => f' r.1 r.2) (m' s) = _
    rw [h.run s hc hm]
    exact hrest

/-- What follows the same computation. -/
theorem after {f f' : α → CheckM β} (h : Steady m) (hf : ∀ a, KeepsCheck (f a) (f' a)) :
    KeepsCheck (m >>= f) (m >>= f') := (refl h).bind hf

theorem map (f : α → β) (h : KeepsCheck m m') : KeepsCheck (f <$> m) (f <$> m') :=
  h.bind fun _ => .refl (.pure _)

theorem inside (frames : List ShapeFrame) (sm : Steady m) (h : KeepsCheck m m') :
    KeepsCheck (inside frames m) (inside frames m') := by
  refine .of_steady (.inside frames sm) fun s hc he => ?_
  have hw := h.run { s with frames := frames, depth := s.depth + 1 } hc he
  show (fun r : α × State => (r.1, { r.2 with frames := s.frames, depth := r.2.depth - 1 }))
    (m' _) = _
  rw [hw]
  rfl

theorem congruence : Congruence KeepsCheck := ⟨refl, bind⟩

end KeepsCheck

/-- A call within the bounds does its work. -/
theorem guarded_of_lt {maxDepth : Nat} {span : Span} {work : CheckM Shape} {s : State}
    (hc : s.calls < maxCalls) (hd : s.depth < maxDepth) :
    guarded maxDepth span work s = work { s with calls := s.calls + 1 } := by
  show (fun r : Bool × State => (if r.1 then do
      if maxDepth ≤ (← get).depth then refuseDepth maxDepth span else work
    else return .unknown span : CheckM Shape) r.2) (countCall span s) = _
  rw [countCall_of_lt span hc]
  show (if maxDepth ≤ s.depth then refuseDepth maxDepth span else work) _ = _
  rw [if_neg (Nat.not_le.2 hd)]

theorem keeps_guarded {depth depth' : Nat} (hd : depth ≤ depth') (span : Span)
    {work work' : CheckM Shape} (sw : Steady work) (h : KeepsCheck work work') :
    KeepsCheck (guarded depth span work) (guarded depth' span work') := by
  refine .of_steady (steady_guarded _ _ sw) fun s hc he => ?_
  obtain ⟨hlt, hdepth, heq⟩ := guarded_eq sw hc he
  have hwork : (after work { s with calls := s.calls + 1 }).errors = [] := by
    rw [after, ← heq]
    exact he
  rw [heq, guarded_of_lt hlt (Nat.lt_of_lt_of_le hdepth hd)]
  exact h.run _ hlt hwork

/-- Calls are repeated where they may be nested deeper. -/
theorem keeps_call {depth depth' levels levels' : Nat} (hd : depth ≤ depth')
    (hl : levels ≤ levels') :
    Relates KeepsCheck (Check.call depth levels) (Check.call depth' levels') := by
  induction levels generalizing levels' with
  | zero =>
    intro params body captured args span
    refine .of_steady (steady_call depth 0 ..) fun s hc he => ?_
    exact absurd he (call_zero_errors depth params body captured args span hc)
  | succ n ih =>
    cases levels' with
    | zero => cases hl
    | succ n' =>
      intro params body captured args span
      have hs : SteadyCaller (Check.call depth n) := steady_call depth n
      have hbody := KeepsCheck.congruence.infer (ih (Nat.le_of_succ_le_succ hl)) body
      exact keeps_guarded hd span (.inside _ (steady_infer hs body))
        (.inside _ (steady_infer hs body) hbody)

variable {l m : Limits} {schema : Schema}

theorem keeps_shapeOf (hl : l ≤ m) (e : Expr) : KeepsCheck (shapeOf l e) (shapeOf m e) :=
  KeepsCheck.congruence.infer (keeps_call hl.2.1 hl.2.1) e

theorem keeps_setContext (context : String) :
    KeepsCheck (setContext context) (setContext context) :=
  .step _ (fun _ => List.suffix_rfl) fun _ => rfl

theorem keeps_bindName (name : String) (b : Binding) :
    KeepsCheck (bindName name b) (bindName name b) :=
  .step _ (fun _ => List.suffix_rfl) fun _ => rfl

theorem steady_roleOf? (name : String) : Steady (roleOf? name) := Steady.get.bind fun _ => .pure _

theorem keeps_assignRoot (hl : l ≤ m) (value : Expr) :
    KeepsCheck (assignRoot l schema value) (assignRoot m schema value) := by
  refine (keeps_setContext _).bind fun _ => (keeps_shapeOf hl value).bind fun shape => ?_
  refine KeepsCheck.bind ?_ fun _ => (keeps_bindName _ _).bind fun _ => .refl (.pure _)
  exact .step _ (fun _ => List.suffix_append _ _) fun _ => rfl

theorem keeps_statement (hl : l ≤ m) (s : Statement) :
    KeepsCheck (statement l schema s) (statement m schema s) := by
  have hreport (expected found : String) (span : Span) {r : Option (List Resolution)} :
      KeepsCheck (do report expected found span; return r)
        (do report expected found span; return r) :=
    .after (.report ..) fun _ => .refl (.pure _)
  have hbind (name : String) (b : Binding) {r : Option (List Resolution)} :
      KeepsCheck (do bindName name b; return r) (do bindName name b; return r) :=
    (keeps_bindName _ _).bind fun _ => .refl (.pure _)
  cases s with
  | expression value =>
    exact (keeps_setContext _).bind fun _ => (keeps_shapeOf hl value).bind fun _ =>
      .refl (.pure _)
  | declare kind name init span =>
    refine (keeps_setContext _).bind fun _ => .after (steady_roleOf? _) fun role => ?_
    split
    · exact hreport ..
    · split
      · exact (keeps_assignRoot hl _).map some
      · exact .refl (.pure _)
      · exact (keeps_shapeOf hl _).bind fun _ => hbind ..
      · exact hbind ..
  | assign target value span =>
    refine (keeps_setContext _).bind fun _ => .after (steady_roleOf? _) fun role => ?_
    split
    · exact (keeps_assignRoot hl value).map some
    · refine (keeps_shapeOf hl value).bind fun shape => ?_
      split
      · exact hreport ..
      · exact hbind ..
      · exact .refl (.pure _)

theorem keeps_statements (hl : l ≤ m) (ss : List Statement) :
    KeepsCheck (statements l schema ss) (statements m schema ss) := by
  induction ss with
  | nil => exact .refl (.pure _)
  | cons s rest ih =>
    exact (keeps_statement hl s).bind fun _ => ih.bind fun _ => .refl (.pure _)

end Check

/-- A program that is checked within limits is checked within larger ones, with the same
outcome. -/
theorem Program.check_mono {l m : Limits} (hl : l ≤ m) (schema : Schema) (program : Program) :
    Keeps (program.check l schema) (program.check m schema) := by
  refine ⟨fun checked h => ?_⟩
  obtain ⟨he, ha, hchecked⟩ := check_eq_ok_iff.1 h
  have hrun := (Check.keeps_statements hl program.statements).run
    (Check.initial schema) (Nat.zero_le _) he
  have hstate : program.checkState m schema = program.checkState l schema := congrArg Prod.snd hrun
  have hassign : program.assignments m schema = program.assignments l schema :=
    congrArg Prod.fst hrun
  rw [check_eq_ok_iff, hstate, hassign]
  exact ⟨he, ha, hchecked⟩

end TypedConfig
