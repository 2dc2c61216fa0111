import TypedConfig.Check.Ends
import TypedConfig.Proofs.Check.Work
import TypedConfig.Proofs.Soundness

/-! # Unknown shapes

An unknown shape stands for an error that has been reported. This holds throughout the check of a
program in which no object is indexed by an unknown text: whenever a shape has an unknown one
inside, an error stands, and so no check that succeeds binds or matches one.
-/

namespace TypedConfig.Check

variable {limits : Limits} {schema : Schema} {σ : State}

/-- The path that errors in the value of a name are reported at. -/
def contextOf (schema : Schema) (σ : State) (name : String) : String :=
  if σ.role? name = some .root then schema.root.name else name

/-- The expression whose shape a statement asks for, and the state in which it does. -/
def asked? (schema : Schema) (σ : State) : Statement → Option (Expr × State)
  | .expression value => some (value, σ.at "")
  | .assign target value _ => some (value, σ.at (contextOf schema σ target.name))
  | .declare kind name init _ =>
    match redeclared? kind name.name (σ.role? name.name) with
    | some _ => none
    | none => init.map fun value => (value, σ.at (contextOf schema σ name.name))

theorem suffix_assignRoot (value : Expr) (context : String) :
    (after (shapeOf limits value) (σ.at schema.root.name)).errors <:+
      (after (assignRoot limits schema value) (σ.at context)).errors := by
  rw [after, after, assignRoot_eq]
  exact List.suffix_append _ _

/-- A statement finds the shape that it asks for in a state that differs from its own in the path
at most, and keeps the errors of it. -/
theorem statement_of_asked? (limits : Limits) {s : Statement} {e : Expr} {τ : State}
    (h : asked? schema σ s = some (e, τ)) :
    (∃ context, τ = σ.at context) ∧
      statementEvents limits schema s σ = shapeEvents limits e τ ∧
        (after (shapeOf limits e) τ).errors <:+ (after (statement limits schema s) σ).errors := by
  cases s with
  | expression value =>
    cases h
    exact ⟨⟨_, rfl⟩, rfl, List.suffix_rfl⟩
  | assign target value span =>
    cases h
    refine ⟨⟨_, rfl⟩, ?_⟩
    simp only [contextOf, statementEvents, statement, Events.following, value_bind, after_bind,
      after_setContext, value_roleOf?, after_roleOf?, role?_at]
    have hrest {k : Shape → CheckM (Option (List Resolution))}
        (hk : ∀ shape, AddsErrors (k shape)) :
        (after (shapeOf limits e) (σ.at target.name)).errors <:+
          (after (shapeOf limits e >>= k) (σ.at target.name)).errors := hk _ _
    rcases σ.role? target.name with _ | kind | _ | _
    case some.root => exact ⟨rfl, suffix_assignRoot ..⟩
    all_goals
      refine ⟨rfl, hrest fun shape => ?_⟩
      split
      · exact AddsErrors.bind (Steady.report ..).addsErrors fun _ => .pure _
      · exact AddsErrors.bind (.bindName _ _) fun _ => .pure _
      · exact .pure _
  | declare kind name init span =>
    simp only [asked?] at h
    split at h
    · cases h
    rename_i hd
    obtain ⟨value, rfl, ⟨⟩⟩ := Option.map_eq_some_iff.1 h
    refine ⟨⟨_, rfl⟩, ?_⟩
    simp only [contextOf, statementEvents, statement, Events.following, value_bind, after_bind,
      after_setContext, value_roleOf?, after_roleOf?, role?_at, hd]
    rcases σ.role? name.name with _ | kind | _ | _
    case some.root => exact ⟨rfl, suffix_assignRoot ..⟩
    all_goals exact ⟨rfl, AddsErrors.bindName _ _ _⟩

theorem Ready.asked {s : Statement} {e : Expr} {τ : State}
    (h : Ready (statementEvents limits schema s) True σ) (hq : asked? schema σ s = some (e, τ)) :
    Point.Ready limits.maxDepth ⟨limits.maxDepth, .expr e, τ⟩ := by
  obtain ⟨⟨context, rfl⟩, hevents, -⟩ := statement_of_asked? limits hq
  intro he
  obtain ⟨hσ, -, hE⟩ := h he
  rw [hevents] at hE
  exact ⟨⟨hσ.globals, hσ.frames, hσ.calls⟩, trivial, hE⟩

theorem Ready.statement {s : Statement} {rest : List Statement}
    (h : Ready (statementsEvents limits schema (s :: rest)) True σ) :
    Ready (statementsEvents limits schema rest) True (after (statement limits schema s) σ) := by
  intro he
  obtain ⟨hσ, -, hE⟩ := h ((addsErrors_statement s).errors_nil he)
  have hk := (statement_step he).known hσ he fun e hm => hE e (List.mem_append_left _ hm)
  exact ⟨hk.2, trivial, fun e hm => hE e (List.mem_append_right _ hm)⟩

theorem Ready.statements (ss : List Statement) {rest : List Statement}
    (h : Ready (statementsEvents limits schema (ss ++ rest)) True σ) :
    Ready (statementsEvents limits schema rest) True (after (statements limits schema ss) σ) := by
  induction ss generalizing σ with
  | nil => exact h
  | cons s ss ih => exact ih h.statement

theorem after_statements_append (ss rest : List Statement) (σ : State) :
    after (statements limits schema (ss ++ rest)) σ =
      after (statements limits schema rest) (after (statements limits schema ss) σ) := by
  induction ss generalizing σ with
  | nil => rfl
  | cons s ss ih => exact ih _

/-- The shapes that a check without errors assigns to the root binding. -/
theorem rootShapes_known (ss : List Statement)
    (h : Ready (statementsEvents limits schema ss) True σ)
    (he : (after (statements limits schema ss) σ).errors = []) :
    ∀ shape ∈ value (rootShapes limits schema ss) σ, shape.Known := by
  induction ss generalizing σ with
  | nil => exact nofun
  | cons s rest ih =>
    have he' : (after (Check.statements limits schema rest)
      (after (Check.statement limits schema s) σ)).errors = [] := he
    have hrest := ih h.statement he'
    obtain ⟨hσ, -⟩ := h.statement ((addsErrors_statements rest).errors_nil he')
    simp only [rootShapes, value_bind, value_get, after_get, value_pure]
    split
    · refine List.forall_mem_append.2 ⟨fun shape hm => ?_, hrest⟩
      obtain ⟨b, hb, rfl⟩ := Option.map_eq_some_iff.1 (Option.mem_toList.1 hm)
      exact hσ.globals _ (Entries.mem_of_get? hb)
    · exact hrest

end Check

namespace Program

open Check (after value)

variable {limits : Limits} {schema : Schema} {program : Program} {p : Check.Point}

/-- Whether the check of a program does some work on the way to the shapes that its statements ask
for. -/
def Asks (limits : Limits) (schema : Schema) (program : Program) (p : Check.Point) : Prop :=
  ∃ ss s rest e σ, program.statements = ss ++ s :: rest ∧
    Check.asked? schema (after (Check.statements limits schema ss) (Check.initial schema)) s =
      some (e, σ) ∧
    Check.Point.Reaches limits.maxDepth ⟨limits.maxDepth, .expr e, σ⟩ p

theorem ready_initial (h : ∀ e ∈ program.checkEvents limits schema, e.isReported = true) :
    Check.Ready (Check.statementsEvents limits schema program.statements) True
      (Check.initial schema) :=
  fun _ => ⟨Check.initial_known schema, trivial, h⟩

theorem Asks.ready (h : ∀ e ∈ program.checkEvents limits schema, e.isReported = true)
    (hp : program.Asks limits schema p) : p.Ready limits.maxDepth := by
  obtain ⟨ss, s, rest, e, σ, hss, hq, hp⟩ := hp
  have hs := ready_initial h
  rw [hss] at hs
  have hs := (hs.statements ss).among fun e => List.mem_append_left _
  exact (hs.asked hq).reaches hp

/-- What a check that finds no error does leaves none either. -/
theorem Asks.quiet (he : (program.checkState limits schema).errors = [])
    (hp : program.Asks limits schema p) : p.Quiet limits.maxDepth := by
  obtain ⟨ss, s, rest, e, σ, hss, hq, hp⟩ := hp
  refine Check.Point.Quiet.reaches ?_ hp
  rw [checkState, hss, Check.after_statements_append] at he
  have hs := (Check.addsErrors_statements rest).errors_nil he
  exact List.suffix_nil.1 (hs ▸ (Check.statement_of_asked? limits hq).2.2)

/-- The states in which the work of a check that succeeds is begun. -/
theorem Asks.known (h : ∀ e ∈ program.checkEvents limits schema, e.isReported = true)
    (he : (program.checkState limits schema).errors = []) (hp : program.Asks limits schema p) :
    p.state.Known ∧ p.work.Known := by
  obtain ⟨hσ, hw, -⟩ := hp.ready h ((hp.quiet he).errors_nil (Check.steady_call _ _))
  exact ⟨hσ, hw⟩

/-- If no object is indexed by an unknown text, an error stands whenever the shape of an expression
is unknown or has an unknown one inside; so a check that succeeds binds known shapes only, calls
functions and methods with known shapes, and matches known shapes against the root type. -/
theorem unknown_reported (h : ∀ e ∈ program.checkEvents limits schema, e.isReported = true) :
    (∀ levels e σ, program.Asks limits schema ⟨levels, .expr e, σ⟩ →
      ¬ (value (Check.infer (Check.call limits.maxDepth levels) e) σ).Known →
        (after (Check.infer (Check.call limits.maxDepth levels) e) σ).errors ≠ []) ∧
    ∀ checked, program.check limits schema = .ok checked →
      (∀ p, program.Asks limits schema p → p.state.Known ∧ p.work.Known) ∧
      (∀ ss rest, program.statements = ss ++ rest →
        (after (Check.statements limits schema ss) (Check.initial schema)).Known) ∧
      ∀ shape ∈ value (Check.rootShapes limits schema program.statements) (Check.initial schema),
        shape.Known := by
  have hready := ready_initial h
  constructor
  · intro levels e σ hp hu he
    have ssteady := Check.steady_call limits.maxDepth levels
    obtain ⟨hσ, -, hE⟩ := hp.ready h ((Check.steady_infer ssteady e).errors_nil he)
    exact hu (Check.finds_infer ssteady (Check.finds_call _ _) e σ hσ he hE).2
  · intro checked hc
    obtain ⟨he, -, -⟩ := check_eq_ok_iff.1 hc
    refine ⟨fun p hp => hp.known h he, fun ss rest hss => ?_, ?_⟩
    · rw [hss] at hready
      rw [checkState, hss, Check.after_statements_append] at he
      exact (hready.statements ss ((Check.addsErrors_statements rest).errors_nil he)).1
    · exact Check.rootShapes_known _ hready he

/-- `["a"].map(() => x)`, where `x` is not declared. -/
def undeclared : Expr := calling (texts ["a"]) "map" (.arrow default [] (.name default "x"))

def inBody : Check.State :=
  { Check.initial textsSchema with frames := [[]], depth := 1, calls := 1 }

theorem asks_undeclared : (assigning undeclared).Asks .standard textsSchema
    ⟨127, .expr (.name default "x"), inBody⟩ := by
  let σ := Check.initial textsSchema
  let element := Shape.string default (some "a")
  let function := Shape.function default [] (.name default "x") []
  refine ⟨[], _, [], undeclared, σ, rfl, rfl, ?_⟩
  refine .head (b := ⟨128, .method "map" [function] default (.tuple default [element]), σ⟩)
    (.tail _ (.tail _ (.head _))) ?_
  refine .head (b := ⟨128, .iterate [] (.name default "x") [] .map true default 0 [element], σ⟩)
    (.head _) ?_
  refine .head (b := ⟨128, .call [] (.name default "x") []
    [element, .number default (some (lengthNumber 0))] default, σ⟩) (.head _) ?_
  exact .single (.head _)

/-- A name that is not declared has the unknown shape, and an error stands. Two joined arrays have
a known shape, and no error stands. -/
theorem unknown_reported_undeclared :
    ((∀ e ∈ (assigning undeclared).checkEvents .standard textsSchema, e.isReported = true) ∧
      (assigning undeclared).Asks .standard textsSchema
        ⟨127, .expr (.name default "x"), inBody⟩ ∧
      ¬ (value (Check.infer (Check.call 128 127) (.name default "x")) inBody).Known ∧
      (after (Check.infer (Check.call 128 127) (.name default "x")) inBody).errors ≠ []) ∧
    (∀ e ∈ (assigning joined).checkEvents .standard textsSchema, e.isReported = true) ∧
      ∃ checked, (assigning joined).check .standard textsSchema = .ok checked ∧
        ∀ shape ∈ value (Check.rootShapes .standard textsSchema (assigning joined).statements)
          (Check.initial textsSchema), shape.Known := by
  have hs : ∀ e ∈ (assigning undeclared).checkEvents .standard textsSchema,
      e.isReported = true := by decide
  have hs' : ∀ e ∈ (assigning joined).checkEvents .standard textsSchema, e.isReported = true := by
    decide
  have hc : (assigning joined).check .standard textsSchema = .ok ⟨_, _, _⟩ :=
    check_eq_ok_iff.2 ⟨rfl, by decide, rfl⟩
  have hshape : value (Check.infer (Check.call 128 127) (.name default "x")) inBody =
      .unknown default := rfl
  have hunknown : ¬ (value (Check.infer (Check.call 128 127) (.name default "x")) inBody).Known :=
    hshape ▸ Shape.not_known_unknown default
  exact ⟨⟨hs, asks_undeclared, hunknown,
    (unknown_reported hs).1 _ _ _ asks_undeclared hunknown⟩, hs', _, hc,
    ((unknown_reported hs').2 _ hc).2.2⟩

/-- The field of an object whose name is not known has the unknown shape without an error, and
is matched against the root type. -/
theorem not_known_of_unknownField :
    ∃ checked, (assigning unknownField).check .standard textsSchema = .ok checked ∧
      ∃ shape ∈ value (Check.rootShapes .standard textsSchema (assigning unknownField).statements)
        (Check.initial textsSchema), shape.isUnknown = true :=
  ⟨_, check_eq_ok_iff.2 ⟨rfl, by decide, rfl⟩, .unknown default, List.mem_singleton_self _, rfl⟩

end Program

end TypedConfig
