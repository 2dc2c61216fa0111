import TypedConfig.Proofs.Check.Run
import TypedConfig.Proofs.Eval.Run

/-! # The depth of calls

Functions may call themselves and each other, so that calls in the body of a call are made in
the same way again. Both interpreters refuse a call at the limit of the depth, which a call
raises for its body: an expression is therefore done within as many nested calls as the limit
leaves, whatever deeper calls would do, and no body is entered above the limit.
-/

namespace TypedConfig

variable {α β : Type} {maxDepth d n levels : Nat}

namespace Eval

/-- An evaluation for which another is run where calls are nested too deep. -/
def unlessDeeper (maxDepth : Nat) (alarm work : EvalM α) : EvalM α := do
  if maxDepth < (← get).depth then alarm else work

/-- Calls whose bodies make such calls in turn, up to a number nested in one another. A further
one is left to `beyond`, and `alarm` is run for a body that is entered above the limit. -/
def unrolled (maxDepth : Nat) (beyond : Caller) (alarm : EvalM Datum) : Nat → Caller
  | 0 => beyond
  | n + 1 => fun params body captured args span =>
    guarded maxDepth span <|
      inside (frameOf params args :: captured) <|
        unlessDeeper maxDepth alarm <| eval (unrolled maxDepth beyond alarm n) body

theorem run_guarded (span : Span) (work : EvalM Datum) (s : Scope) :
    (guarded maxDepth span work).run s =
      if maxDepth ≤ s.depth then (.error ⟨.tooDeep maxDepth, span⟩, s) else work.run s := by
  show (if maxDepth ≤ s.depth then fail (.tooDeep maxDepth) span else work : EvalM Datum).run s = _
  split <;> rfl

/-- From scopes of a depth, the one evaluation does what the other does, and it comes back to
this depth. -/
structure AgreesAt (d : Nat) (n n' : EvalM α) : Prop where
  run : ∀ s, s.depth = d → n'.run s = n.run s
  depth : ∀ s, s.depth = d → (n.run s).2.depth = d

namespace AgreesAt

variable {m m' : EvalM α}

theorem refl (h : Neutral m) : AgreesAt d m m :=
  ⟨fun _ _ => rfl, fun s hs => by rw [h.scope, hs]⟩

theorem bind {k k' : α → EvalM β} (h : AgreesAt d m m') (hk : ∀ a, AgreesAt d (k a) (k' a)) :
    AgreesAt d (m >>= k) (m' >>= k') := by
  have hrun (s : Scope) (hs : s.depth = d) :
      (m' >>= k').run s = (m >>= k).run s ∧ ((m >>= k).run s).2.depth = d := by
    have hdepth := h.depth s hs
    rcases hm : m.run s with ⟨f | a, t⟩
    · rw [run_bind_error hm, run_bind_error ((h.run s hs).trans hm)]
      rw [hm] at hdepth
      exact ⟨rfl, hdepth⟩
    · rw [hm] at hdepth
      rw [run_bind hm, run_bind ((h.run s hs).trans hm), (hk a).run t hdepth]
      exact ⟨rfl, (hk a).depth t hdepth⟩
  exact ⟨fun s hs => (hrun s hs).1, fun s hs => (hrun s hs).2⟩

theorem congruence (d : Nat) : Congruence (AgreesAt d) := ⟨refl, bind⟩

theorem inside (frames : List Frame) (h : AgreesAt (d + 1) m m') :
    AgreesAt d (Eval.inside frames m) (Eval.inside frames m') := by
  refine ⟨fun s hs => ?_, fun s hs => ?_⟩
  · rw [run_inside, run_inside, h.run]
    exact congrArg (· + 1) hs
  · rw [run_inside]
    exact congrArg (· - 1) (h.depth { s with frames := frames, depth := s.depth + 1 }
      (congrArg (· + 1) hs))

/-- A call at the limit is refused whatever its work is. -/
theorem guarded (span : Span) {work work' : EvalM Datum}
    (h : d < maxDepth → AgreesAt d work work') :
    AgreesAt d (Eval.guarded maxDepth span work) (Eval.guarded maxDepth span work') := by
  refine ⟨fun s hs => ?_, fun s hs => ?_⟩
  · rw [run_guarded, run_guarded]
    split
    · rfl
    · exact (h (by omega)).run s hs
  · rw [run_guarded]
    split
    · exact hs
    · exact (h (by omega)).depth s hs

theorem unlessDeeper (alarm : EvalM α) (hd : d ≤ maxDepth) (h : AgreesAt d m m') :
    AgreesAt d m (Eval.unlessDeeper maxDepth alarm m') := by
  refine ⟨fun s hs => ?_, h.depth⟩
  show (if maxDepth < s.depth then alarm else m' : EvalM α).run s = _
  rw [if_neg (by omega)]
  exact h.run s hs

end AgreesAt

/-- From a depth within the limit, calls are done within the nesting that the limit leaves. -/
theorem agreesAt_call (beyond : Caller) (alarm : EvalM Datum) (hd : d ≤ maxDepth)
    (hl : maxDepth ≤ d + levels) (hn : maxDepth < d + n) :
    Relates (AgreesAt d) (call maxDepth levels) (unrolled maxDepth beyond alarm n) := by
  induction n generalizing d levels with
  | zero => omega
  | succ n ih =>
    intro params body captured args span
    cases levels with
    | zero =>
      refine ⟨fun s hs => ?_, fun s hs => hs⟩
      rw [unrolled, run_guarded, if_pos (by omega)]
      rfl
    | succ levels =>
      refine .guarded span fun hlt => .inside _ (.unlessDeeper alarm hlt ?_)
      have hlevels : maxDepth ≤ d + 1 + levels := by omega
      have hbody := ih hlt hlevels (by omega)
      exact (AgreesAt.congruence _).eval hbody body

/-- Within the limit, a call is made as all calls are: its body may make such calls in turn. -/
theorem call_unfold {s : Scope} (hs : s.depth ≤ maxDepth) (params : List Ident) (body : Expr)
    (captured : List Frame) (args : List Datum) (span : Span) :
    (call maxDepth maxDepth params body captured args span).run s =
      (guarded maxDepth span <| inside (frameOf params args :: captured) <|
        eval (call maxDepth maxDepth) body).run s := by
  have hcall := agreesAt_call (call 0 0) (fail .arrayBounds span) hs (Nat.le_add_left ..)
    (n := maxDepth + 2) (by omega) params body captured args span
  rw [← hcall.run s rfl]
  refine (AgreesAt.guarded span fun hlt => .inside _ (.unlessDeeper _ hlt ?_)).run s rfl
  exact (AgreesAt.congruence _).eval
    (agreesAt_call _ _ hlt (Nat.le_add_left ..) (by omega)) body

end Eval

namespace Check

/-- A computation for which another is run where calls are nested too deep. -/
def unlessDeeper (maxDepth : Nat) (alarm work : CheckM α) : CheckM α := do
  if maxDepth < (← get).depth then alarm else work

/-- Calls whose bodies make such calls in turn, up to a number nested in one another. A further
one is left to `beyond`, and `alarm` is run for a body that is entered above the limit. -/
def unrolled (maxDepth : Nat) (beyond : Caller) (alarm : CheckM Shape) : Nat → Caller
  | 0 => beyond
  | n + 1 => fun params body captured args span =>
    guarded maxDepth span <|
      inside (frameOf span params args :: captured) <|
        unlessDeeper maxDepth alarm <| infer (unrolled maxDepth beyond alarm n) body

/-- From states of a depth, the one computation does what the other does, and it comes back to
this depth. -/
structure AgreesAt (d : Nat) (m m' : CheckM α) : Prop where
  run : ∀ s, s.depth = d → m' s = m s
  depth : ∀ s, s.depth = d → (after m s).depth = d

namespace AgreesAt

variable {m m' : CheckM α}

theorem refl (h : Steady m) : AgreesAt d m m :=
  ⟨fun _ _ => rfl, fun s hs => by rw [h.depth, hs]⟩

theorem bind {f f' : α → CheckM β} (h : AgreesAt d m m') (hf : ∀ a, AgreesAt d (f a) (f' a)) :
    AgreesAt d (m >>= f) (m' >>= f') := by
  refine ⟨fun s hs => ?_, fun s hs => (hf _).depth _ (h.depth s hs)⟩
  show (fun r => f' r.1 r.2) (m' s) = _
  rw [h.run s hs]
  exact (hf _).run _ (h.depth s hs)

theorem congruence (d : Nat) : Congruence (AgreesAt d) := ⟨refl, bind⟩

theorem inside (frames : List ShapeFrame) (h : AgreesAt (d + 1) m m') :
    AgreesAt d (Check.inside frames m) (Check.inside frames m') := by
  refine ⟨fun s hs => ?_, fun s hs => ?_⟩
  · have hm := h.run { s with frames := frames, depth := s.depth + 1 } (congrArg (· + 1) hs)
    show (fun r : α × State => (r.1, { r.2 with frames := s.frames, depth := r.2.depth - 1 }))
      (m' _) = _
    rw [hm]
    rfl
  · rw [after_inside]
    exact congrArg (· - 1) (h.depth { s with frames := frames, depth := s.depth + 1 }
      (congrArg (· + 1) hs))

/-- A call at the limit is refused whatever its work is. -/
theorem guarded (span : Span) {work work' : CheckM Shape}
    (h : d < maxDepth → AgreesAt d work work') :
    AgreesAt d (Check.guarded maxDepth span work) (Check.guarded maxDepth span work') := by
  refine (refl (steady_countCall span)).bind fun allowed => ?_
  split
  · refine ⟨fun s hs => ?_, fun s hs => ?_⟩
    · show (if maxDepth ≤ s.depth then refuseDepth maxDepth span else work') s =
        (if maxDepth ≤ s.depth then refuseDepth maxDepth span else work) s
      split
      · rfl
      · exact (h (by omega)).run s hs
    · show (after (if maxDepth ≤ s.depth then refuseDepth maxDepth span else work) s).depth = d
      split
      · exact hs
      · exact (h (by omega)).depth s hs
  · exact refl (.pure _)

theorem unlessDeeper (alarm : CheckM α) (hd : d ≤ maxDepth) (h : AgreesAt d m m') :
    AgreesAt d m (Check.unlessDeeper maxDepth alarm m') := by
  refine ⟨fun s hs => ?_, h.depth⟩
  show (if maxDepth < s.depth then alarm else m' : CheckM α) s = _
  rw [if_neg (by omega)]
  exact h.run s hs

end AgreesAt

/-- From a depth within the limit, calls are done within the nesting that the limit leaves. -/
theorem agreesAt_call (beyond : Caller) (alarm : CheckM Shape) (hd : d ≤ maxDepth)
    (hl : maxDepth ≤ d + levels) (hn : maxDepth < d + n) :
    Relates (AgreesAt d) (call maxDepth levels) (unrolled maxDepth beyond alarm n) := by
  induction n generalizing d levels with
  | zero => omega
  | succ n ih =>
    intro params body captured args span
    cases levels with
    | zero => exact .guarded span fun hlt => absurd hlt (by omega)
    | succ levels =>
      refine .guarded span fun hlt => .inside _ (.unlessDeeper alarm hlt ?_)
      have hlevels : maxDepth ≤ d + 1 + levels := by omega
      have hbody := ih hlt hlevels (by omega)
      exact (AgreesAt.congruence _).infer hbody body

/-- Within the limit, a call is made as all calls are: its body may make such calls in turn. -/
theorem call_unfold {s : State} (hs : s.depth ≤ maxDepth) (params : List Ident) (body : Expr)
    (captured : List ShapeFrame) (args : List Shape) (span : Span) :
    call maxDepth maxDepth params body captured args span s =
      (guarded maxDepth span <| inside (frameOf span params args :: captured) <|
        infer (call maxDepth maxDepth) body) s := by
  have hcall := agreesAt_call (call 0 0) (return .unknown span) hs (Nat.le_add_left ..)
    (n := maxDepth + 2) (by omega) params body captured args span
  rw [← hcall.run s rfl]
  refine (AgreesAt.guarded span fun hlt => .inside _ (.unlessDeeper _ hlt ?_)).run s rfl
  exact (AgreesAt.congruence _).infer
    (agreesAt_call _ _ hlt (Nat.le_add_left ..) (by omega)) body

end Check

/-- Whatever functions call each other, an expression is done within as many nested calls as the
limit leaves from a depth within it, and no body is entered above the limit: what further calls
and such bodies would do makes no difference. Both interpreters come back to the names and the
depth that they started with, and a check only adds errors. -/
theorem interpreters_finish (maxDepth : Nat) (e : Expr) :
    (∀ s : Eval.Scope, s.depth ≤ maxDepth →
      (∀ beyond alarm n, maxDepth < s.depth + n →
        (Eval.eval (Eval.unrolled maxDepth beyond alarm n) e).run s =
          (Eval.eval (Eval.call maxDepth maxDepth) e).run s) ∧
      ((Eval.eval (Eval.call maxDepth maxDepth) e).run s).2 = s) ∧
    ∀ s : Check.State, s.depth ≤ maxDepth →
      (∀ beyond alarm n, maxDepth < s.depth + n →
        Check.infer (Check.unrolled maxDepth beyond alarm n) e s =
          Check.infer (Check.call maxDepth maxDepth) e s) ∧
      ∃ t, Check.after (Check.infer (Check.call maxDepth maxDepth) e) s = t ∧
        t.globals = s.globals ∧ t.frames = s.frames ∧ t.depth = s.depth ∧
        s.errors <:+ t.errors := by
  refine ⟨fun s hs => ⟨fun beyond alarm n hn => ?_, ?_⟩,
    fun s hs => ⟨fun beyond alarm n hn => ?_, ?_⟩⟩
  · have hcall := Eval.agreesAt_call beyond alarm hs (Nat.le_add_left ..) hn
    exact ((Eval.AgreesAt.congruence _).eval hcall e).run s rfl
  · exact (Eval.neutral_eval (Eval.neutral_call maxDepth maxDepth) e).scope s
  · have hcall := Check.agreesAt_call beyond alarm hs (Nat.le_add_left ..) hn
    exact ((Check.AgreesAt.congruence _).infer hcall e).run s rfl
  · have hsteady := Check.steady_infer (Check.steady_call maxDepth maxDepth) e
    exact ⟨_, rfl, hsteady.globals s, hsteady.frames s, hsteady.depth s, hsteady.errors s⟩

/-- A function that calls what it is given with itself, given itself. -/
def selfCall : Expr :=
  let f : Ident := ⟨"f", default⟩
  let apply := Expr.arrow default [f] (.call default (.name default "f") [.name default "f"])
  .call default apply [apply]

theorem interpreters_finish_selfCall :
    (∀ beyond alarm, (Eval.eval (Eval.unrolled 2 beyond alarm 3) selfCall).run ⟨[], [], 0⟩ =
      (.error ⟨.tooDeep 2, default⟩, ⟨[], [], 0⟩)) ∧
    ∀ beyond alarm,
      Check.infer (Check.unrolled 2 beyond alarm 3) selfCall ⟨[], [], 0, 0, "", []⟩ =
        (.unknown default, ⟨[], [], 0, 3, "",
          [⟨"", "calls nested at most 2 deep", "deeper recursion", default, none⟩]⟩) := by
  obtain ⟨heval, hinfer⟩ := interpreters_finish 2 selfCall
  refine ⟨fun beyond alarm => ?_, fun beyond alarm => ?_⟩
  · rw [(heval ⟨[], [], 0⟩ (by decide)).1 beyond alarm 3 (by decide)]
    rfl
  · rw [(hinfer ⟨[], [], 0, 0, "", []⟩ (by decide)).1 beyond alarm 3 (by decide)]
    rfl

end TypedConfig
