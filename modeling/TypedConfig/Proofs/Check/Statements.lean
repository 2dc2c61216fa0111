import TypedConfig.Proofs.Check.Known

/-! # What a statement does to the state of a check

A statement that is checked without errors finds the shape of at most one expression and binds at
most one name, whose role stays what it was. The root binding is matched whenever it is assigned.
-/

namespace TypedConfig.Check

variable {limits : Limits} {schema : Schema} {σ τ : State} {s : Statement}
  {r : Option (List Resolution)}

def assignment? : Statement → Option (Ident × Expr)
  | .declare _ name init _ => init.map (name, ·)
  | .assign target value _ => some (target, value)
  | .expression _ => none

/-- The state in which an expression is looked at, for a name. -/
def State.at (σ : State) (context : String) : State := { σ with context := context }

def State.put (σ : State) (name : String) (b : Binding) : State :=
  { σ with globals := Entries.put σ.globals name b }

def State.role? (σ : State) (name : String) : Option Role :=
  (Entries.get? σ.globals name).map Binding.role

/-- What checking a statement meets and does if it finds no error. -/
inductive Step (limits : Limits) (schema : Schema) (σ : State) :
    Statement → List Event → Option (List Resolution) → State → Prop
  | look (value : Expr) :
    Step limits schema σ (.expression value) (shapeEvents limits value (σ.at "")) none
      (after (shapeOf limits value) (σ.at ""))
  | keep (kind : BindingKind) (name : Ident) (span : Span) (hr : σ.role? name.name = some .root) :
    Step limits schema σ (.declare kind name none span) [] none (σ.at name.name)
  | declare (kind : BindingKind) (name : Ident) (span : Span)
    (hr : σ.role? name.name ≠ some .root) :
    Step limits schema σ (.declare kind name none span) [] none
      ((σ.at name.name).put name.name ⟨.declared kind, .undefined name.span⟩)
  | bind (s : Statement) (name : Ident) (value : Expr) (role : Role)
    (hs : assignment? s = some (name, value)) (hr : σ.role? name.name ≠ some .root)
    (hrole : role ≠ .root)
    (hassign : ∀ span, s = .assign name value span → σ.role? name.name = some role) :
    Step limits schema σ s (shapeEvents limits value (σ.at name.name)) none
      ((after (shapeOf limits value) (σ.at name.name)).put name.name
        ⟨role, Check.value (shapeOf limits value) (σ.at name.name)⟩)
  | root (s : Statement) (name : Ident) (value : Expr) (resolutions : List Resolution)
    (hs : assignment? s = some (name, value)) (hr : σ.role? name.name = some .root)
    (hkind : ∀ kind init span, s = .declare kind name init span → kind = .var)
    (he : (Match.conform schema schema.root.type
      (Check.value (shapeOf limits value) (σ.at schema.root.name)) schema.root.name).errors = []) :
    Step limits schema σ s (shapeEvents limits value (σ.at schema.root.name)) (some resolutions)
      ((after (shapeOf limits value) (σ.at schema.root.name)).put schema.root.name
        ⟨.root, Check.value (shapeOf limits value) (σ.at schema.root.name)⟩)

theorem steady_shapeOf (limits : Limits) (e : Expr) : Steady (shapeOf limits e) :=
  steady_infer (steady_call _ _) e

/-- Assigning the root binding. -/
theorem assignRoot_eq (value : Expr) (context : String) :
    let t := after (shapeOf limits value) (σ.at schema.root.name)
    let shape := Check.value (shapeOf limits value) (σ.at schema.root.name)
    let outcome := Match.conform schema schema.root.type shape schema.root.name
    assignRoot limits schema value (σ.at context) =
      (outcome.resolutions,
        { t with errors := outcome.errors.reverse ++ t.errors }.put schema.root.name
          ⟨.root, shape⟩) := rfl

theorem root_of_assignRoot {name : Ident} {value : Expr}
    (hs : assignment? s = some (name, value)) (hr : σ.role? name.name = some .root)
    (hkind : ∀ kind init span, s = .declare kind name init span → kind = .var)
    (he : (after (assignRoot limits schema value) (σ.at name.name)).errors = []) :
    Step limits schema σ s (shapeEvents limits value (σ.at schema.root.name))
      (some (Check.value (assignRoot limits schema value) (σ.at name.name)))
      (after (assignRoot limits schema value) (σ.at name.name)) := by
  rw [after, assignRoot_eq] at he
  rw [after, Check.value, assignRoot_eq]
  have ho : (Match.conform schema schema.root.type
      (Check.value (shapeOf limits value) (σ.at schema.root.name)) schema.root.name).errors = [] :=
    List.reverse_eq_nil_iff.1 (List.append_eq_nil_iff.1 he).1
  have hstep := Step.root s name value
    (Match.conform schema schema.root.type
      (Check.value (shapeOf limits value) (σ.at schema.root.name)) schema.root.name).resolutions
    hs hr hkind ho
  simpa [ho] using hstep

@[simp] theorem after_setContext (context : String) (σ : State) :
    after (setContext context) σ = σ.at context := rfl

@[simp] theorem after_bindName (name : String) (b : Binding) (σ : State) :
    after (bindName name b) σ = σ.put name b := rfl

@[simp] theorem value_roleOf? (name : String) (σ : State) :
    Check.value (roleOf? name) σ = σ.role? name := rfl

@[simp] theorem after_roleOf? (name : String) (σ : State) : after (roleOf? name) σ = σ := rfl

@[simp] theorem role?_at (context name : String) (σ : State) :
    (σ.at context).role? name = σ.role? name := rfl

theorem kind_of_redeclared?_root {kind : BindingKind} {name : String}
    (h : redeclared? kind name (some .root) = none) : kind = .var := by
  simp only [redeclared?] at h
  split at h
  · assumption
  · cases h

/-- A statement that is checked without errors does one of these. -/
theorem statement_step (he : (after (statement limits schema s) σ).errors = []) :
    Step limits schema σ s (statementEvents limits schema s σ)
      (value (statement limits schema s) σ) (after (statement limits schema s) σ) := by
  cases s with
  | expression value => exact .look value
  | declare kind name init span =>
    simp only [statement, statementEvents, Events.following, after_bind, value_bind,
      after_setContext, value_roleOf?, after_roleOf?, role?_at] at he ⊢
    split at he
    · exact absurd he (List.cons_ne_nil _ _)
    rename_i hd
    by_cases hr : σ.role? name.name = some .root
    · rw [hr] at hd
      simp only [hr, hd] at he ⊢
      cases init with
      | none => exact .keep kind name span hr
      | some value =>
        exact root_of_assignRoot rfl hr (by rintro _ _ _ ⟨⟩; exact kind_of_redeclared?_root hd) he
    · have hdeclare : Step limits schema σ (.declare kind name none span) _ none _ :=
        .declare kind name span hr
      have hbind (value : Expr) :
          Step limits schema σ (.declare kind name (some value) span) _ none _ :=
        .bind _ name value (.declared kind) rfl hr (by simp) (by simp)
      rw [hd]
      generalize σ.role? name.name = role at he hr ⊢
      rcases role with _ | _ | _ | _
      · cases init with
        | none => exact hdeclare
        | some value => exact hbind value
      · cases init with
        | none => exact hdeclare
        | some value => exact hbind value
      · exact absurd rfl hr
      · cases init with
        | none => exact hdeclare
        | some value => exact hbind value
  | assign target value span =>
    simp only [statement, statementEvents, Events.following, after_bind, value_bind,
      after_setContext, value_roleOf?, after_roleOf?, role?_at] at he ⊢
    by_cases hr : σ.role? target.name = some .root
    · simp only [hr] at he ⊢
      exact root_of_assignRoot rfl hr (by simp) he
    · generalize hrole : σ.role? target.name = role at he hr ⊢
      have hbind (role : Role) (h : σ.role? target.name = some role) (hne : role ≠ .root) :
          Step limits schema σ (.assign target value span) _ none _ :=
        .bind _ target value role rfl (by rw [h]; simpa using hne) hne (by rintro _ ⟨⟩; exact h)
      rcases role with _ | kind | _ | _
      · exact absurd he (List.cons_ne_nil _ _)
      · cases hm : kind.isMutable
        · simp only [unassignable?, hm] at he
          exact absurd he (List.cons_ne_nil _ _)
        · simp only [unassignable?, hm]
          exact hbind _ hrole (by simp)
      · exact absurd rfl hr
      · exact absurd he (List.cons_ne_nil _ _)

def AddsErrors {α : Type} (m : CheckM α) : Prop := ∀ σ, σ.errors <:+ (after m σ).errors

namespace AddsErrors

variable {α β : Type} {m : CheckM α}

theorem bind {f : α → CheckM β} (hm : AddsErrors m) (hf : ∀ a, AddsErrors (f a)) :
    AddsErrors (m >>= f) := fun σ => (hm σ).trans (hf _ _)

theorem pure (a : α) : AddsErrors (Pure.pure a) := fun _ => List.suffix_rfl

theorem setContext (context : String) : AddsErrors (setContext context) :=
  fun _ => List.suffix_rfl

theorem bindName (name : String) (b : Binding) : AddsErrors (bindName name b) :=
  fun _ => List.suffix_rfl

theorem errors_nil (hm : AddsErrors m) (he : (after m σ).errors = []) : σ.errors = [] :=
  List.suffix_nil.1 (he ▸ hm σ)

end AddsErrors

theorem Steady.addsErrors {α : Type} {m : CheckM α} (h : Steady m) : AddsErrors m := h.errors

theorem addsErrors_shapeOf (limits : Limits) (e : Expr) : AddsErrors (shapeOf limits e) :=
  (steady_shapeOf limits e).addsErrors

theorem addsErrors_assignRoot (value : Expr) : AddsErrors (assignRoot limits schema value) := by
  refine (AddsErrors.setContext _).bind fun _ => (addsErrors_shapeOf _ _).bind fun shape => ?_
  refine AddsErrors.bind (fun σ => List.suffix_append _ _) fun _ => ?_
  exact (AddsErrors.bindName _ _).bind fun _ => .pure _

theorem addsErrors_statement (s : Statement) : AddsErrors (statement limits schema s) := by
  have hrole (name : String) : AddsErrors (roleOf? name) := fun _ => List.suffix_rfl
  cases s with
  | expression value =>
    exact (AddsErrors.setContext _).bind fun _ => (addsErrors_shapeOf _ _).bind fun _ => .pure _
  | declare kind name init span =>
    refine (AddsErrors.setContext _).bind fun _ => (hrole _).bind fun role => ?_
    split
    · exact (Steady.report ..).addsErrors.bind fun _ => .pure _
    · split
      · exact fun σ => addsErrors_assignRoot _ σ
      · exact .pure _
      · exact (addsErrors_shapeOf _ _).bind fun _ => (AddsErrors.bindName _ _).bind fun _ => .pure _
      · exact (AddsErrors.bindName _ _).bind fun _ => .pure _
  | assign target value span =>
    refine (AddsErrors.setContext _).bind fun _ => (hrole _).bind fun role => ?_
    split
    · exact fun σ => addsErrors_assignRoot _ σ
    · refine (addsErrors_shapeOf _ _).bind fun _ => ?_
      split
      · exact (Steady.report ..).addsErrors.bind fun _ => .pure _
      · exact (AddsErrors.bindName _ _).bind fun _ => .pure _
      · exact .pure _

theorem addsErrors_statements (ss : List Statement) :
    AddsErrors (statements limits schema ss) := by
  induction ss with
  | nil => exact .pure _
  | cons s rest ih => exact (addsErrors_statement s).bind fun _ => ih.bind fun _ => .pure _

theorem State.Known.put (h : σ.Known) (name : String) {b : Binding} (hb : b.shape.Known) :
    (σ.put name b).Known where
  globals := Entries.forall_put (P := fun b : Binding => b.shape.Known) h.globals hb
  frames := h.frames
  calls := h.calls

theorem finds_shapeOf (limits : Limits) (e : Expr) :
    Finds (shapeEvents limits e) (shapeOf limits e) Shape.Known :=
  finds_infer (steady_call _ _) (finds_call _ _) e

theorem Step.known {es : List Event} (h : Step limits schema σ s es r τ) (hσ : σ.Known)
    (he : τ.errors = []) (hs : ∀ e ∈ es, e.isReported = true) :
    (∀ e ∈ es, e.isClear = true) ∧ τ.Known := by
  have hat (context : String) : (σ.at context).Known := ⟨hσ.globals, hσ.frames, hσ.calls⟩
  have hshape (value : Expr) (context : String)
      (he : (after (shapeOf limits value) (σ.at context)).errors = [])
      (hs : ∀ e ∈ shapeEvents limits value (σ.at context), e.isReported = true) :=
    (finds_shapeOf limits value (σ.at context) (hat context) he hs).imp_right fun hk =>
      (⟨hk, (hat context).after (steady_shapeOf ..) he⟩ : _ ∧ _)
  cases h with
  | look value =>
    obtain ⟨hc, -, hk⟩ := hshape value "" he hs
    exact ⟨hc, hk⟩
  | keep => exact ⟨nofun, hat _⟩
  | declare => exact ⟨nofun, (hat _).put _ trivial⟩
  | bind name value =>
    obtain ⟨hc, hv, hk⟩ := hshape _ _ he hs
    exact ⟨hc, hk.put _ hv⟩
  | root name value =>
    obtain ⟨hc, hv, hk⟩ := hshape _ _ he hs
    exact ⟨hc, hk.put _ hv⟩

/-- The states of a check that finds no error. -/
theorem statements_known (ss : List Statement) (hσ : σ.Known)
    (he : (after (statements limits schema ss) σ).errors = [])
    (hs : ∀ e ∈ statementsEvents limits schema ss σ, e.isReported = true) :
    ∀ e ∈ statementsEvents limits schema ss σ, e.isClear = true := by
  induction ss generalizing σ with
  | nil => exact nofun
  | cons s rest ih =>
    have he' : (after (statements limits schema rest)
      (after (statement limits schema s) σ)).errors = [] := he
    have hfirst := (addsErrors_statements rest).errors_nil he'
    obtain ⟨hc, hk⟩ := (statement_step hfirst).known hσ hfirst fun e hm =>
      hs e (List.mem_append_left _ hm)
    exact List.forall_mem_append.2 ⟨hc, ih hk he' fun e hm => hs e (List.mem_append_right _ hm)⟩

theorem initial_known (schema : Schema) : (initial schema).Known where
  globals := by
    refine Entries.forall_put (P := fun b : Binding => b.shape.Known) ?_ trivial
    refine Entries.forall_putAll (P := fun b : Binding => b.shape.Known) (by simp) ?_
    intro e he
    obtain ⟨c, -, rfl⟩ := List.mem_map.1 he
    exact trivial
  frames := trivial
  calls := Nat.zero_le _

end TypedConfig.Check
