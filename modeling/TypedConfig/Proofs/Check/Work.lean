import Mathlib.Logic.Relation
import TypedConfig.Proofs.Check.Known

/-! # The work of a check

To find the shape of an expression, a check finds the shapes of its parts and of the bodies that it
calls, one after another, each in the state that the work before it left. Where all that it meets
is reported, each of these shapes is known unless an error stands already.
-/

namespace TypedConfig.Check

open Relation (ReflTransGen)
open Shape (Known)

/-- Something that a check does on the way to a shape: finding the shape of an expression, going
through what is left of a list, calling a method of a shape or of each of several, or calling a
function. -/
inductive Work
  | expr (e : Expr)
  | segments (text : Option String) (rest : List TemplateSegment)
  | items (rest : List ArrayItem)
  | members (p : Partials) (rest : List ObjectMember)
  | all (rest : List Expr)
  | method (name : String) (args : List Shape) (span : Span) (receiver : Shape)
  | methods (name : String) (args : List Shape) (span : Span) (receivers : List Shape)
  | iterate (params : List Ident) (body : Expr) (captured : List ShapeFrame) (kind : Iteration)
    (isKnown : Bool) (span : Span) (i : Nat) (rest : List Shape)
  | call (params : List Ident) (body : Expr) (captured : List ShapeFrame) (args : List Shape)
    (span : Span)

/-- The call of a value, if it is a function. -/
def callParts (function : Shape) (args : List Shape) (span : Span) (σ : State) :
    List (Work × State) :=
  match function with
  | .function _ params body captured => [(.call params body captured args span, σ)]
  | _ => []

/-- The iteration that a method of an array stands for, if it is one and may be begun. -/
def iterateParts (elements : List Shape) (isKnown : Bool) (name : String) (args : List Shape)
    (span : Span) (σ : State) : List (Work × State) :=
  match Iteration.ofName? name with
  | some kind =>
    match value (callback name args span) σ with
    | some (params, body, captured) =>
      [(.iterate params body captured kind isKnown span 0 elements,
        after (callback name args span) σ)]
    | none => []
  | none => []

namespace Work

section

variable (call : Caller)

/-- What the work consists of, in turn, with the states in which each part is begun. The body of a
function is left to the caller. -/
def parts : Work → State → List (Work × State)
  | .expr (.template _ ss), σ => [(.segments (some "") ss, σ)]
  | .expr (.array _ is), σ => [(.items is, σ)]
  | .expr (.object _ ms), σ => [(.members ⟨[[]], false⟩ ms, σ)]
  | .expr (.member _ object _), σ => [(.expr object, σ)]
  | .expr (.index _ object position), σ =>
    [(.expr object, σ), (.expr position, after (infer call object) σ)]
  | .expr (.call s (.member _ object property) args), σ =>
    let τ := after (infer call object) σ
    [(.expr object, σ), (.all args, τ),
      (.method property.name (value (inferAll call args) τ) s (value (infer call object) σ),
        after (inferAll call args) τ)]
  | .expr (.call s callee args), σ =>
    let τ := after (infer call callee) σ
    (.expr callee, σ) :: (.all args, τ) ::
      callParts (value (infer call callee) σ) (value (inferAll call args) τ) s
        (after (inferAll call args) τ)
  | .expr (.unary _ _ operand), σ => [(.expr operand, σ)]
  | .expr (.binary _ op left right), σ =>
    (.expr left, σ) ::
      match op, (value (infer call left) σ).truthiness with
      | .and, some false | .or, some true => []
      | _, _ => [(.expr right, after (infer call left) σ)]
  | .expr (.conditional _ test consequent alternate), σ =>
    let τ := after (infer call test) σ
    (.expr test, σ) ::
      match (value (infer call test) σ).truthiness with
      | some true => [(.expr consequent, τ)]
      | some false => [(.expr alternate, τ)]
      | none => [(.expr consequent, τ), (.expr alternate, after (infer call consequent) τ)]
  | .expr _, _ => []
  | .segments _ [], _ => []
  | .segments text (.text part :: rest), σ => [(.segments (text.map (· ++ part)) rest, σ)]
  | .segments text (.hole e :: rest), σ =>
    let shape := value (infer call e) σ
    let τ := after (infer call e) σ
    [(.expr e, σ), (.segments (value (extend text shape) τ) rest, after (extend text shape) τ)]
  | .items [], _ => []
  | .items (.item e :: rest), σ => [(.expr e, σ), (.items rest, after (infer call e) σ)]
  | .items (.spread e :: rest), σ =>
    let shape := value (infer call e) σ
    let τ := after (infer call e) σ
    -- Where the shape cannot be spread, the items after it are begun with the error of that.
    [(.expr e, σ),
      (.items rest,
        match shape.spread? with
        | some _ => τ
        | none => after (report "an array to spread" shape.describe shape.span) τ)]
  | .members _ [], _ => []
  | .members p (.field key keySpan e :: rest), σ =>
    [(.expr e, σ),
      (.members (p.put key keySpan (value (infer call e) σ)) rest, after (infer call e) σ)]
  | .members p (.spread e :: rest), σ =>
    let shape := value (infer call e) σ
    let τ := after (infer call e) σ
    [(.expr e, σ), (.members (value (p.spread shape) τ) rest, after (p.spread shape) τ)]
  | .all [], _ => []
  | .all (e :: rest), σ => [(.expr e, σ), (.all rest, after (infer call e) σ)]
  | .method name args span (.oneOf _ branches), σ => [(.methods name args span branches, σ)]
  | .method name args span (.record s fields), σ =>
    callParts (value (member name span (.record s fields)) σ) args span
      (after (member name span (.record s fields)) σ)
  | .method name args span receiver, σ =>
    match receiver.elements? with
    | some (elements, isKnown) => iterateParts elements isKnown name args span σ
    | none => []
  | .methods _ _ _ [], _ => []
  | .methods name args span (receiver :: rest), σ =>
    [(.method name args span receiver, σ),
      (.methods name args span rest, after (Check.method call name args span receiver) σ)]
  | .iterate _ _ _ _ _ _ _ [], _ => []
  | .iterate params body captured kind isKnown span i (element :: rest), σ =>
    let args := [element, .number span (if isKnown then some (lengthNumber i) else none)]
    [(.call params body captured args span, σ),
      (.iterate params body captured kind isKnown span (i + 1) rest,
        after (call params body captured args span) σ)]
  | .call .., _ => []

def leaves : Work → State → State
  | .expr e => after (infer call e)
  | .segments text rest => after (inferSegments call text rest)
  | .items rest => after (inferItems call rest)
  | .members p rest => after (inferMembers call p rest)
  | .all rest => after (inferAll call rest)
  | .method name args span receiver => after (Check.method call name args span receiver)
  | .methods name args span receivers => after (Check.methods call name args span receivers)
  | .iterate params body captured kind isKnown span i rest =>
    after (Check.iterate (fun e p => call params body captured [e, p] span) kind isKnown span i
      rest)
  | .call params body captured args span => after (call params body captured args span)

def events (calls : CallerEvents) : Work → Events
  | .expr e => exprEvents call calls e
  | .segments text rest => segmentsEvents call calls text rest
  | .items rest => itemsEvents call calls rest
  | .members p rest => membersEvents call calls p rest
  | .all rest => allEvents call calls rest
  | .method name args span receiver => methodEvents call calls name args span receiver
  | .methods name args span receivers => methodsEvents call calls name args span receivers
  | .iterate params body captured kind isKnown span i rest =>
    iterateEvents call calls params body captured kind isKnown span i rest
  | .call params body captured args span => calls params body captured args span

end

/-- Whether no shape that the work is given has an unknown one inside. -/
def Known : Work → Prop
  | .members p _ => p.Known
  | .method _ args _ receiver => receiver.Known ∧ ∀ a ∈ args, a.Known
  | .methods _ args _ receivers => (∀ r ∈ receivers, r.Known) ∧ ∀ a ∈ args, a.Known
  | .iterate _ _ captured _ _ _ _ rest => Shape.FramesKnown captured ∧ ∀ e ∈ rest, e.Known
  | .call _ _ captured args _ => Shape.FramesKnown captured ∧ ∀ a ∈ args, a.Known
  | .expr _ | .segments .. | .items _ | .all _ => True

end Work

variable {α : Type} {E : Events} {P Q : Prop} {σ : State}

/-- Unless an error stands already, all names are bound to known shapes, what is given has a
property, and all that will be met is reported. -/
def Ready (E : Events) (P : Prop) (σ : State) : Prop :=
  σ.errors = [] → σ.Known ∧ P ∧ ∀ e ∈ E σ, e.isReported = true

namespace Ready

theorem of_errors (h : σ.errors ≠ []) : Ready E P σ := fun he => absurd he h

theorem imp (h : Ready E P σ) (hPQ : P → Q) : Ready E Q σ :=
  fun he => (h he).imp_right fun hr => hr.imp_left hPQ

/-- Some of what will be met. -/
theorem among {F : Events} (h : Ready F P σ) (hE : ∀ e ∈ E σ, e ∈ F σ) : Ready E P σ :=
  fun he => (h he).imp_right fun hr => hr.imp_right fun hF e hm => hF e (hE e hm)

variable {m : CheckM α} {F : α → Events} {R : α → Prop}

theorem first (h : Ready (E.andThen m F) P σ) : Ready E P σ :=
  h.among fun _ => List.mem_append_left _

/-- What a computation finds is known to what follows it. -/
theorem next (h : Ready (E.andThen m F) P σ) (sm : Steady m) (fm : P → Finds E m R) :
    Ready (F (value m σ)) (P ∧ R (value m σ)) (after m σ) := by
  intro he
  obtain ⟨hσ, hP, hE⟩ := h (sm.errors_nil he)
  obtain ⟨-, hr⟩ := fm hP σ hσ he fun e hm => hE e (List.mem_append_left _ hm)
  exact ⟨hσ.after sm he, ⟨hP, hr⟩, fun e hm => hE e (List.mem_append_right _ hm)⟩

theorem following (h : Ready (.following m F) P σ) (sm : Steady m) (fm : P → Finds .none m R) :
    Ready (F (value m σ)) (P ∧ R (value m σ)) (after m σ) :=
  next (E := .none) h sm fm

end Ready

/-- What is known where a piece of work begins. -/
def Work.Ready (call : Caller) (calls : CallerEvents) (w : Work) (σ : State) : Prop :=
  Check.Ready (w.events call calls) w.Known σ

section

variable {call : Caller} {calls : CallerEvents} (hs : SteadyCaller call)
  (hc : FindingCaller call calls)

theorem ready_callParts {function : Shape} {args : List Shape} {span : Span}
    (h : Ready (callValueEvents calls function args span)
      (function.Known ∧ ∀ a ∈ args, a.Known) σ) :
    ∀ q ∈ callParts function args span σ, q.1.Ready call calls q.2 := by
  unfold callParts
  split
  · exact List.forall_mem_singleton.2 h
  · exact nofun

theorem ready_iterateParts {elements args : List Shape} {isKnown : Bool} {name : String}
    {span : Span}
    (h : Ready (arrayMethodEvents call calls elements isKnown name args span)
      ((∀ e ∈ elements, e.Known) ∧ ∀ a ∈ args, a.Known) σ) :
    ∀ q ∈ iterateParts elements isKnown name args span σ, q.1.Ready call calls q.2 := by
  unfold arrayMethodEvents at h
  unfold iterateParts
  revert h
  rcases Iteration.ofName? name with _ | kind
  · exact fun _ => nofun
  intro h
  have hnext := Ready.following h (steady_callback name args span) fun hk =>
    finds_callback name hk.2
  revert hnext
  rcases value (callback name args span) σ with _ | ⟨params, body, captured⟩
  · exact fun _ => nofun
  · refine fun hnext => List.forall_mem_singleton.2 (hnext.imp ?_)
    rintro ⟨hk, _, _, _, ⟨⟩, hf⟩
    exact ⟨hf, hk.1⟩

theorem ready_method {name : String} {args : List Shape} {span : Span} {receiver : Shape}
    (h : (Work.method name args span receiver).Ready call calls σ) :
    ∀ q ∈ (Work.method name args span receiver).parts call σ, q.1.Ready call calls q.2 := by
  cases receiver with
  | oneOf _ branches =>
    exact List.forall_mem_singleton.2 (h.imp fun hk => ⟨Shape.allKnown_iff.1 hk.1, hk.2⟩)
  | record s fields =>
    have h : Ready (.following (member name span (.record s fields)) fun property =>
        callValueEvents calls property args span) _ σ := h
    have hnext := h.following (steady_member ..) fun hk => finds_member hk.1
    exact ready_callParts (hnext.imp fun hk => ⟨hk.2, hk.1.2⟩)
  | tuple | array => exact ready_iterateParts (h.imp (And.imp_left fun hk => hk.elements? rfl))
  | _ => exact nofun

include hs hc

/-- Before anything else is done, the shape of an expression is found. -/
theorem Ready.shape {F : Shape → Events} {e : Expr}
    (h : Ready ((exprEvents call calls e).andThen (infer call e) F) P σ) :
    (Work.expr e).Ready call calls σ ∧
      Ready (F (value (infer call e) σ)) (P ∧ (value (infer call e) σ).Known)
        (after (infer call e) σ) :=
  ⟨h.first.imp fun _ => trivial, h.next (steady_infer hs e) fun _ => finds_infer hs hc e⟩

theorem Ready.args {F : List Shape → Events} {es : List Expr}
    (h : Ready ((allEvents call calls es).andThen (inferAll call es) F) P σ) :
    (Work.all es).Ready call calls σ ∧
      Ready (F (value (inferAll call es) σ)) (P ∧ ∀ a ∈ value (inferAll call es) σ, a.Known)
        (after (inferAll call es) σ) :=
  ⟨h.first.imp fun _ => trivial, h.next (steady_inferAll hs es) fun _ => finds_inferAll hs hc es⟩

theorem ready_call {s : Span} {callee : Expr} {args : List Expr}
    (h : (Work.expr (.call s callee args)).Ready call calls σ) :
    ∀ q ∈ (Work.expr (.call s callee args)).parts call σ, q.1.Ready call calls q.2 := by
  cases callee with
  | member _ object property =>
    obtain ⟨hobject, h⟩ := Ready.shape hs hc h
    obtain ⟨hargs, h⟩ := Ready.args hs hc h
    refine List.forall_mem_cons.2 ⟨hobject, List.forall_mem_cons.2 ⟨hargs, ?_⟩⟩
    exact List.forall_mem_singleton.2 (h.imp fun hk => ⟨hk.1.2, hk.2⟩)
  | _ =>
    obtain ⟨hcallee, h⟩ := Ready.shape hs hc h
    obtain ⟨hargs, h⟩ := Ready.args hs hc h
    refine List.forall_mem_cons.2 ⟨hcallee, List.forall_mem_cons.2 ⟨hargs, ?_⟩⟩
    exact ready_callParts (h.imp fun hk => ⟨hk.1.2, hk.2⟩)

theorem ready_binary {s : Span} {op : BinaryOp} {left right : Expr}
    (h : (Work.expr (.binary s op left right)).Ready call calls σ) :
    ∀ q ∈ (Work.expr (.binary s op left right)).parts call σ, q.1.Ready call calls q.2 := by
  obtain ⟨hleft, h⟩ := Ready.shape hs hc h
  refine List.forall_mem_cons.2 ⟨hleft, ?_⟩
  cases op with
  | and =>
    revert h
    rcases (value (infer call left) σ).truthiness with _ | _ | _
    · exact fun h => List.forall_mem_singleton.2 (h.imp fun _ => trivial)
    · exact fun _ => nofun
    · exact fun h => List.forall_mem_singleton.2 (h.imp fun _ => trivial)
  | or =>
    revert h
    rcases (value (infer call left) σ).truthiness with _ | _ | _
    · exact fun h => List.forall_mem_singleton.2 (h.imp fun _ => trivial)
    · exact fun h => List.forall_mem_singleton.2 (h.imp fun _ => trivial)
    · exact fun _ => nofun
  | _ => exact List.forall_mem_singleton.2 (h.first.imp fun _ => trivial)

theorem ready_conditional {s : Span} {test consequent alternate : Expr}
    (h : (Work.expr (.conditional s test consequent alternate)).Ready call calls σ) :
    ∀ q ∈ (Work.expr (.conditional s test consequent alternate)).parts call σ,
      q.1.Ready call calls q.2 := by
  obtain ⟨htest, h⟩ := Ready.shape hs hc h
  refine List.forall_mem_cons.2 ⟨htest, ?_⟩
  revert h
  rcases (value (infer call test) σ).truthiness with _ | _ | _
  · intro h
    obtain ⟨hconsequent, h⟩ := Ready.shape hs hc h
    exact List.forall_mem_cons.2
      ⟨hconsequent, List.forall_mem_singleton.2 (h.imp fun _ => trivial)⟩
  · exact fun h => List.forall_mem_singleton.2 (h.imp fun _ => trivial)
  · exact fun h => List.forall_mem_singleton.2 (h.imp fun _ => trivial)

theorem ready_expr : ∀ e, (Work.expr e).Ready call calls σ →
    ∀ q ∈ (Work.expr e).parts call σ, q.1.Ready call calls q.2
  | .string .., _ | .number .., _ | .boolean .., _ | .null _, _ | .undefined _, _ | .name .., _
  | .arrow .., _ => nofun
  | .template _ segments, h => List.forall_mem_singleton.2 h
  | .array _ items, h => List.forall_mem_singleton.2 h
  | .object _ ms, h =>
    List.forall_mem_singleton.2 (h.imp fun _ => ⟨rfl, by simp [Shape.FieldsKnown]⟩)
  | .member _ object _, h => List.forall_mem_singleton.2 h
  | .unary _ _ operand, h => List.forall_mem_singleton.2 h
  | .index _ object position, h => by
    obtain ⟨hobject, h⟩ := Ready.shape hs hc h
    exact List.forall_mem_cons.2
      ⟨hobject, List.forall_mem_singleton.2 (h.first.imp fun _ => trivial)⟩
  | .binary .., h => ready_binary hs hc h
  | .call .., h => ready_call hs hc h
  | .conditional .., h => ready_conditional hs hc h

/-- The parts of a piece of work begin as the work does: where no error stands, all is known. -/
theorem ready_parts : ∀ (w : Work) {σ : State}, w.Ready call calls σ →
    ∀ q ∈ w.parts call σ, q.1.Ready call calls q.2
  | .expr e, _, h => ready_expr hs hc e h
  | .segments _ [], _, _ | .items [], _, _ | .members _ [], _, _ | .all [], _, _
  | .methods _ _ _ [], _, _ | .iterate _ _ _ _ _ _ _ [], _, _ | .call .., _, _ => nofun
  | .segments _ (.text _ :: _), _, h => List.forall_mem_singleton.2 h
  | .segments text (.hole e :: rest), σ, h => by
    obtain ⟨he, h⟩ := Ready.shape hs hc h
    have hrest := h.following (steady_extend ..) fun _ => Finds.trivial
    exact List.forall_mem_cons.2 ⟨he, List.forall_mem_singleton.2 (hrest.imp fun _ => trivial)⟩
  | .items (.item e :: rest), σ, h => by
    obtain ⟨he, h⟩ := Ready.shape hs hc h
    exact List.forall_mem_cons.2 ⟨he, List.forall_mem_singleton.2 (h.imp fun _ => trivial)⟩
  | .items (.spread e :: rest), σ, h => by
    obtain ⟨he, h⟩ := Ready.shape hs hc h
    refine List.forall_mem_cons.2 ⟨he, List.forall_mem_singleton.2 ?_⟩
    dsimp only
    split
    · exact h.imp fun _ => trivial
    · -- An error stands from here on, so nothing has to be known any more.
      exact .of_errors (List.cons_ne_nil _ _)
  | .members p (.field key keySpan e :: rest), σ, h => by
    obtain ⟨he, h⟩ := Ready.shape hs hc h
    exact List.forall_mem_cons.2
      ⟨he, List.forall_mem_singleton.2 (h.imp fun hk => hk.1.put key keySpan hk.2)⟩
  | .members p (.spread e :: rest), σ, h => by
    obtain ⟨he, h⟩ := Ready.shape hs hc h
    have hspread := (h.among fun _ => List.mem_cons_of_mem _).following (steady_spread ..)
      fun hk => finds_spread hk.1 hk.2
    exact List.forall_mem_cons.2 ⟨he, List.forall_mem_singleton.2 (hspread.imp And.right)⟩
  | .all (e :: rest), σ, h => by
    obtain ⟨he, h⟩ := Ready.shape hs hc h
    exact List.forall_mem_cons.2 ⟨he, List.forall_mem_singleton.2 (h.imp fun _ => trivial)⟩
  | .method .., _, h => ready_method h
  | .methods name args span (receiver :: rest), σ, h => by
    have hnext := h.next (steady_method hs name args span receiver) fun hk =>
      finds_method hs hc name (hk.1 _ List.mem_cons_self) hk.2
    refine List.forall_mem_cons.2 ⟨h.first.imp fun hk => ?_, List.forall_mem_singleton.2 ?_⟩
    · exact ⟨hk.1 _ List.mem_cons_self, hk.2⟩
    · exact hnext.imp fun hk => ⟨fun r hm => hk.1.1 r (List.mem_cons_of_mem _ hm), hk.1.2⟩
  | .iterate params body captured kind isKnown span i (element :: rest), σ, h => by
    let args := [element, .number span (if isKnown then some (lengthNumber i) else none)]
    have hargs (hk : (Work.iterate params body captured kind isKnown span i
        (element :: rest)).Known) : ∀ a ∈ args, Known a := by
      simpa [args, Known] using hk.2 element List.mem_cons_self
    have hnext := h.next (hs params body captured args span) fun hk =>
      hc params body captured args span hk.1 (hargs hk)
    refine List.forall_mem_cons.2 ⟨h.first.imp fun hk => ⟨hk.1, hargs hk⟩,
      List.forall_mem_singleton.2 ?_⟩
    exact (hnext.among fun _ => List.mem_append_right _).imp fun hk =>
      ⟨hk.1.1, fun e hm => hk.1.2 e (List.mem_cons_of_mem _ hm)⟩

end

/-- Whether no error stands once the work is done. -/
def Work.Quiet (call : Caller) (w : Work) (σ : State) : Prop := (w.leaves call σ).errors = []

section

variable {call : Caller} (hs : SteadyCaller call)

theorem quiet_callParts {function : Shape} {args : List Shape} {errorSpan span : Span}
    (h : (after (callValue call function args errorSpan span) σ).errors = []) :
    ∀ q ∈ callParts function args span σ, q.1.Quiet call q.2 := by
  unfold callParts
  split
  · exact List.forall_mem_singleton.2 h
  · exact nofun

theorem quiet_iterateParts {receiver : Shape} {elements args : List Shape} {isKnown : Bool}
    {name : String} {span : Span}
    (h : (after (arrayMethod call receiver elements isKnown name args span) σ).errors = []) :
    ∀ q ∈ iterateParts elements isKnown name args span σ, q.1.Quiet call q.2 := by
  unfold arrayMethod at h
  unfold iterateParts
  revert h
  rcases Iteration.ofName? name with _ | kind
  · exact fun _ => nofun
  rw [after_bind]
  rcases value (callback name args span) σ with _ | ⟨params, body, captured⟩
  · exact fun _ => nofun
  · exact fun h => List.forall_mem_singleton.2 ((Steady.arrayOf ..).errors_nil h)

theorem quiet_method {name : String} {args : List Shape} {span : Span} {receiver : Shape}
    (h : (Work.method name args span receiver).Quiet call σ) :
    ∀ q ∈ (Work.method name args span receiver).parts call σ, q.1.Quiet call q.2 := by
  cases receiver with
  | oneOf _ branches => exact List.forall_mem_singleton.2 ((Steady.oneOf ..).errors_nil h)
  | record s fields =>
    have h : (after (plainMethod call (.record s fields) name args span) σ).errors = [] := h
    unfold plainMethod at h
    rw [after_bind] at h
    show ∀ q ∈ callParts (value (member name span (.record s fields)) σ) args span _, _
    generalize value (member name span (.record s fields)) σ = property at h ⊢
    cases property with
    | function => exact quiet_callParts h
    | _ => exact nofun
  | tuple | array => exact quiet_iterateParts h
  | _ => exact nofun

include hs

/-- Work only adds errors. -/
theorem Work.Quiet.errors_nil : ∀ {w : Work}, w.Quiet call σ → σ.errors = []
  | .expr e, h => (steady_infer hs e).errors_nil h
  | .segments text rest, h => (steady_inferSegments hs text rest).errors_nil h
  | .items rest, h => (steady_inferItems hs rest).errors_nil h
  | .members p rest, h => (steady_inferMembers hs p rest).errors_nil h
  | .all rest, h => (steady_inferAll hs rest).errors_nil h
  | .method name args span receiver, h => (steady_method hs name args span receiver).errors_nil h
  | .methods name args span receivers, h =>
    (steady_methods hs name args span receivers).errors_nil h
  | .iterate params body captured kind isKnown span i rest, h =>
    (steady_iterate (fun e p => hs params body captured [e, p] span) kind isKnown span i
      rest).errors_nil h
  | .call params body captured args span, h => (hs params body captured args span).errors_nil h

theorem quiet_call {s : Span} {callee : Expr} {args : List Expr}
    (h : (Work.expr (.call s callee args)).Quiet call σ) :
    ∀ q ∈ (Work.expr (.call s callee args)).parts call σ, q.1.Quiet call q.2 := by
  have sargs := steady_inferAll hs args
  cases callee with
  | member _ object property =>
    have hargs := (steady_method hs ..).errors_nil h
    exact List.forall_mem_cons.2 ⟨sargs.errors_nil hargs,
      List.forall_mem_cons.2 ⟨hargs, List.forall_mem_singleton.2 h⟩⟩
  | _ =>
    rw [Work.Quiet, Work.leaves, infer_call call (by simp), after_bind, after_bind] at h
    have hargs := (steady_callValue hs ..).errors_nil h
    exact List.forall_mem_cons.2 ⟨sargs.errors_nil hargs,
      List.forall_mem_cons.2 ⟨hargs, quiet_callParts h⟩⟩

theorem quiet_binary {s : Span} {op : BinaryOp} {left right : Expr}
    (h : (Work.expr (.binary s op left right)).Quiet call σ) :
    ∀ q ∈ (Work.expr (.binary s op left right)).parts call σ, q.1.Quiet call q.2 := by
  have sright := steady_infer hs right
  rw [Work.Quiet, Work.leaves] at h
  refine List.forall_mem_cons.2 ?_
  cases op with
  | and =>
    rw [infer, after_bind] at h
    revert h
    rcases (value (infer call left) σ).truthiness with _ | _ | _
    · intro h
      have hright := (Steady.oneOf ..).errors_nil h
      exact ⟨sright.errors_nil hright, List.forall_mem_singleton.2 hright⟩
    · exact fun h => ⟨h, nofun⟩
    · exact fun h => ⟨sright.errors_nil h, List.forall_mem_singleton.2 h⟩
  | or =>
    rw [infer, after_bind] at h
    revert h
    rcases (value (infer call left) σ).truthiness with _ | _ | _
    · intro h
      have hright := (Steady.oneOf ..).errors_nil h
      exact ⟨sright.errors_nil hright, List.forall_mem_singleton.2 hright⟩
    · exact fun h => ⟨sright.errors_nil h, List.forall_mem_singleton.2 h⟩
    · exact fun h => ⟨h, nofun⟩
  | _ =>
    have hright := (steady_operator ..).errors_nil h
    exact ⟨sright.errors_nil hright, List.forall_mem_singleton.2 hright⟩

theorem quiet_conditional {s : Span} {test consequent alternate : Expr}
    (h : (Work.expr (.conditional s test consequent alternate)).Quiet call σ) :
    ∀ q ∈ (Work.expr (.conditional s test consequent alternate)).parts call σ,
      q.1.Quiet call q.2 := by
  have sconsequent := steady_infer hs consequent
  have salternate := steady_infer hs alternate
  rw [Work.Quiet, Work.leaves, infer, after_bind] at h
  refine List.forall_mem_cons.2 ?_
  revert h
  rcases (value (infer call test) σ).truthiness with _ | _ | _
  · intro h
    have halt := (Steady.oneOf ..).errors_nil h
    have hcons := salternate.errors_nil halt
    exact ⟨sconsequent.errors_nil hcons,
      List.forall_mem_cons.2 ⟨hcons, List.forall_mem_singleton.2 halt⟩⟩
  · exact fun h => ⟨salternate.errors_nil h, List.forall_mem_singleton.2 h⟩
  · exact fun h => ⟨sconsequent.errors_nil h, List.forall_mem_singleton.2 h⟩

theorem quiet_expr : ∀ e, (Work.expr e).Quiet call σ →
    ∀ q ∈ (Work.expr e).parts call σ, q.1.Quiet call q.2
  | .string .., _ | .number .., _ | .boolean .., _ | .null _, _ | .undefined _, _ | .name .., _
  | .arrow .., _ => nofun
  | .template _ segments, h => List.forall_mem_singleton.2 h
  | .array _ items, h => List.forall_mem_singleton.2 ((Steady.arrayOf ..).errors_nil h)
  | .object _ ms, h => List.forall_mem_singleton.2 ((steady_shape ..).errors_nil h)
  | .member _ object _, h => List.forall_mem_singleton.2 ((steady_member ..).errors_nil h)
  | .unary _ _ operand, h => List.forall_mem_singleton.2 ((steady_unary ..).errors_nil h)
  | .index _ object position, h => by
    have hposition := (steady_index ..).errors_nil h
    exact List.forall_mem_cons.2
      ⟨(steady_infer hs position).errors_nil hposition, List.forall_mem_singleton.2 hposition⟩
  | .binary .., h => quiet_binary hs h
  | .call .., h => quiet_call hs h
  | .conditional .., h => quiet_conditional hs h

/-- If no error stands once a piece of work is done, none stands once one of its parts is. -/
theorem quiet_parts : ∀ (w : Work) {σ : State}, w.Quiet call σ →
    ∀ q ∈ w.parts call σ, q.1.Quiet call q.2
  | .expr e, _, h => quiet_expr hs e h
  | .segments _ [], _, _ | .items [], _, _ | .members _ [], _, _ | .all [], _, _
  | .methods _ _ _ [], _, _ | .iterate _ _ _ _ _ _ _ [], _, _ | .call .., _, _ => nofun
  | .segments text (.text part :: rest), _, h => List.forall_mem_singleton.2 h
  | .segments text (.hole e :: rest), σ, h =>
    List.forall_mem_cons.2
      ⟨(steady_extend ..).errors_nil ((steady_inferSegments hs _ rest).errors_nil h),
        List.forall_mem_singleton.2 h⟩
  | .items (.item e :: rest), σ, h =>
    List.forall_mem_cons.2
      ⟨(steady_inferItems hs rest).errors_nil h, List.forall_mem_singleton.2 h⟩
  | .items (.spread e :: rest), σ, h => by
    have srest := steady_inferItems hs rest
    rw [Work.Quiet, Work.leaves, inferItems, after_bind] at h
    refine List.forall_mem_cons.2 ?_
    revert h
    rcases (value (infer call e) σ).spread? with _ | ⟨items, isKnown⟩
    · exact fun h => ⟨(Steady.report ..).errors_nil (srest.errors_nil h),
        List.forall_mem_singleton.2 h⟩
    · exact fun h => ⟨srest.errors_nil h, List.forall_mem_singleton.2 h⟩
  | .members p (.field key keySpan e :: rest), σ, h =>
    List.forall_mem_cons.2
      ⟨(steady_inferMembers hs _ rest).errors_nil h, List.forall_mem_singleton.2 h⟩
  | .members p (.spread e :: rest), σ, h =>
    List.forall_mem_cons.2
      ⟨(steady_spread ..).errors_nil ((steady_inferMembers hs _ rest).errors_nil h),
        List.forall_mem_singleton.2 h⟩
  | .all (e :: rest), σ, h =>
    List.forall_mem_cons.2
      ⟨(steady_inferAll hs rest).errors_nil h, List.forall_mem_singleton.2 h⟩
  | .method .., _, h => quiet_method h
  | .methods name args span (receiver :: rest), σ, h =>
    List.forall_mem_cons.2
      ⟨(steady_methods hs name args span rest).errors_nil h, List.forall_mem_singleton.2 h⟩
  | .iterate params body captured kind isKnown span i (element :: rest), σ, h =>
    List.forall_mem_cons.2
      ⟨(steady_iterate (fun e p => hs params body captured [e, p] span) kind isKnown span _
        rest).errors_nil h, List.forall_mem_singleton.2 h⟩

end

/-- Work that is begun in a state from which calls may be nested a number of levels deep. -/
structure Point where
  levels : Nat
  work : Work
  state : State

namespace Point

variable {maxDepth : Nat} {p q : Point}

/-- The body of a function that is called, in the frames of the call, unless the call is
refused. -/
def body (maxDepth : Nat) : Point → List Point
  | ⟨levels + 1, .call params body captured args span, σ⟩ =>
    let τ := after (countCall span) σ
    if value (countCall span) σ = true ∧ τ.depth < maxDepth then
      [⟨levels, .expr body,
        { τ with frames := frameOf span params args :: captured, depth := τ.depth + 1 }⟩]
    else []
  | _ => []

def asks (maxDepth : Nat) (p : Point) : List Point :=
  p.body maxDepth ++
    (p.work.parts (call maxDepth p.levels) p.state).map fun q => ⟨p.levels, q.1, q.2⟩

def Reaches (maxDepth : Nat) : Point → Point → Prop :=
  ReflTransGen fun p q => q ∈ p.asks maxDepth

def Ready (maxDepth : Nat) (p : Point) : Prop :=
  p.work.Ready (call maxDepth p.levels) (callEvents maxDepth p.levels) p.state

def Quiet (maxDepth : Nat) (p : Point) : Prop := p.work.Quiet (call maxDepth p.levels) p.state

theorem mem_body (hq : q ∈ p.body maxDepth) :
    ∃ levels params body captured args span σ,
      p = ⟨levels + 1, .call params body captured args span, σ⟩ ∧
        value (countCall span) σ = true ∧ (after (countCall span) σ).depth < maxDepth ∧
          q = ⟨levels, .expr body,
            { after (countCall span) σ with
              frames := frameOf span params args :: captured
              depth := (after (countCall span) σ).depth + 1 }⟩ := by
  unfold Point.body at hq
  split at hq
  · dsimp only at hq
    split at hq
    · rename_i hallowed
      exact ⟨_, _, _, _, _, _, _, rfl, hallowed.1, hallowed.2, List.mem_singleton.1 hq⟩
    · cases hq
  · cases hq

theorem Ready.body (h : p.Ready maxDepth) (hq : q ∈ p.body maxDepth) : q.Ready maxDepth := by
  obtain ⟨levels, params, body, captured, args, span, σ, rfl, hallowed, hdepth, rfl⟩ := mem_body hq
  have h : Check.Ready (.following (countCall span) fun allowed s =>
    if allowed = true ∧ s.depth < maxDepth then
      exprEvents (call maxDepth levels) (callEvents maxDepth levels) body
        { s with frames := frameOf span params args :: captured, depth := s.depth + 1 }
    else []) _ σ := h
  intro he
  -- Counting the call finds no error, so the frames of the call hold what the call was given.
  obtain ⟨hσ, ⟨hk, -⟩, hE⟩ := h.following (steady_countCall span) (fun _ => Finds.trivial) he
  beta_reduce at hE
  rw [if_pos ⟨hallowed, hdepth⟩] at hE
  exact ⟨⟨hσ.globals, ⟨frameOf_known span params hk.2, hk.1⟩, hσ.calls⟩, trivial, hE⟩

theorem Quiet.body (h : p.Quiet maxDepth) (hq : q ∈ p.body maxDepth) : q.Quiet maxDepth := by
  obtain ⟨levels, params, body, captured, args, span, σ, rfl, hallowed, hdepth, rfl⟩ := mem_body hq
  have h : (after (guarded maxDepth span (inside (frameOf span params args :: captured)
    (infer (call maxDepth levels) body))) σ).errors = [] := h
  rw [guarded, after_bind, hallowed, if_pos rfl, after_bind, value_get, after_get,
    if_neg (Nat.not_le.2 hdepth)] at h
  exact h

/-- What work asks for begins as the work does: where no error stands, all is known. -/
theorem Ready.asks (h : p.Ready maxDepth) (hq : q ∈ p.asks maxDepth) : q.Ready maxDepth := by
  rcases List.mem_append.1 hq with hq | hq
  · exact h.body hq
  · obtain ⟨r, hr, rfl⟩ := List.mem_map.1 hq
    exact ready_parts (steady_call _ _) (finds_call _ _) p.work h r hr

/-- If no error stands once work is done, none stands once what it asks for is. -/
theorem Quiet.asks (h : p.Quiet maxDepth) (hq : q ∈ p.asks maxDepth) : q.Quiet maxDepth := by
  rcases List.mem_append.1 hq with hq | hq
  · exact h.body hq
  · obtain ⟨r, hr, rfl⟩ := List.mem_map.1 hq
    exact quiet_parts (steady_call _ _) p.work h r hr

theorem Ready.reaches (h : p.Ready maxDepth) (hq : p.Reaches maxDepth q) : q.Ready maxDepth := by
  induction hq with
  | refl => exact h
  | tail _ hstep ih => exact ih.asks hstep

theorem Quiet.reaches (h : p.Quiet maxDepth) (hq : p.Reaches maxDepth q) : q.Quiet maxDepth := by
  induction hq with
  | refl => exact h
  | tail _ hstep ih => exact ih.asks hstep

end Point

end TypedConfig.Check
