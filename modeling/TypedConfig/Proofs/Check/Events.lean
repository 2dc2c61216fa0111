import TypedConfig.Proofs.Check.Run
import TypedConfig.Proofs.Shape.Views

/-! # What a check meets

While a check runs it compares operands, indexes shapes, flattens the results of callbacks, joins
arguments to arrays and spreads objects. These are the places where it may stay imprecise without
an error, so its run is accompanied by the list of them, in order.
-/

namespace TypedConfig.Check

/-- A place where a check may be imprecise, with the shapes that it has there. -/
inductive Event
  | comparison (left right : Shape)
  | indexing (receiver position : Shape)
  | flattening (result : Shape)
  | joining (arg : Shape)
  | spreading (shape : Shape)

namespace Event

/-- Whether a text is indexed by a number that is known to be the place of a character. -/
def isWithin (text : Option String) (position : Option Float) : Bool :=
  match text, position with
  | some s, some x => (Number.index? x).any fun i => decide (i < s.length)
  | _, _ => false

/-- Whether the check is definite here: operands are compared of which one is null or undefined,
or none is an object, an array or a function; a text is indexed within its characters. -/
def isDefinite : Event → Bool
  | comparison left right =>
    left.isNothing || right.isNothing || (!left.isCompound && !right.isCompound)
  | indexing receiver (.number _ (some x)) =>
    match receiver.text? with
    | some s => isWithin (some s) (some x)
    | none => true
  | _ => true

/-- Whether the shape found here covers what may come at run time. An object indexed by an
unknown text has the unknown shape without an error, and one of several arrays is added as a
single element where it is flattened, or where not all of them are arrays. -/
def isSound : Event → Bool
  | comparison .. => true
  | indexing (.record ..) (.string _ none) => false
  | indexing .. => true
  | flattening result => !result.mayBeArray || result.elements?.isSome
  | joining arg => !arg.mayBeArray || arg.spread?.isSome
  | spreading _ => true

/-- Whether the shape found here is unknown only where an error has been reported. An object indexed
by an unknown text has the unknown shape without one. -/
def isReported : Event → Bool
  | indexing (.record ..) (.string _ none) => false
  | _ => true

theorem isReported_of_isSound {e : Event} (h : e.isSound = true) : e.isReported = true := by
  unfold isReported
  split
  · cases h
  · rfl

/-- Whether no object is spread here of which an alternative is unknown. -/
def isClear : Event → Bool
  | spreading shape => (branchesOf shape).all fun b => !b.isUnknown
  | _ => true

/-- Whether the index may be out of bounds at run time: that of an array of unknown length or of
an unknown text, or an unknown one. -/
def mayExceed : Event → Bool
  | indexing (.tuple ..) (.number _ none) | indexing (.array ..) (.number ..) => true
  | indexing receiver (.number _ x) => receiver.isText && (receiver.text?.isNone || x.isNone)
  | _ => false

/-- Whether a known number is out of bounds here in any case: nothing has such an index, or a known
text has no character there. -/
def isOutside : Event → Bool
  | indexing receiver (.number _ (some x)) =>
    (Number.index? x).isNone || receiver.text?.any fun s => !isWithin (some s) (some x)
  | _ => false

end Event

/-- What a computation meets if it starts in a state. -/
abbrev Events := State → List Event

namespace Events

variable {α : Type}

def none : Events := fun _ => []

def one (e : Event) : Events := fun _ => [e]

def meeting (e : Event) (E : Events) : Events := fun s => e :: E s

def whenever (p : Prop) [Decidable p] (e : Event) (E : Events) : Events :=
  fun s => (if p then [e] else []) ++ E s

/-- What is met after a computation that meets nothing itself. -/
def following (m : CheckM α) (F : α → Events) : Events := fun s => F (value m s) (after m s)

/-- What a computation meets, and then what follows it. -/
def andThen (E : Events) (m : CheckM α) (F : α → Events) : Events :=
  fun s => E s ++ following m F s

/-- What the same computation meets on each of several shapes. -/
def each (E : Shape → Events) (f : Shape → CheckM Shape) : List Shape → Events
  | [] => none
  | shape :: shapes => (E shape).andThen (f shape) fun _ => each E f shapes

/-- What is met on the way that a condition chooses, or on both ways. -/
def choose (condition : Option Bool) (E : Events) (yes : CheckM Shape) (F : Events) : Events :=
  match condition with
  | some true => E
  | some false => F
  | .none => E.andThen yes fun _ => F

theorem each_none (f : Shape → CheckM Shape) (shapes : List Shape) :
    each (fun _ => none) f shapes = none := by
  induction shapes with
  | nil => rfl
  | cons shape shapes ih => rw [each, ih]; rfl

end Events

/-- What the calls of a caller meet. -/
abbrev CallerEvents := List Ident → Expr → List ShapeFrame → List Shape → Span → Events

section

variable (call : Caller) (calls : CallerEvents)

def iterateEvents (params : List Ident) (body : Expr) (captured : List ShapeFrame)
    (kind : Iteration) (isKnown : Bool) (span : Span) : Nat → List Shape → Events
  | _, [] => .none
  | i, element :: rest =>
    let args := [element, .number span (if isKnown then some (lengthNumber i) else none)]
    (calls params body captured args span).andThen (call params body captured args span)
      fun result =>
        .whenever (kind = .flatMap) (.flattening result)
          (iterateEvents params body captured kind isKnown span (i + 1) rest)

def arrayMethodEvents (elements : List Shape) (isKnown : Bool) (name : String)
    (args : List Shape) (span : Span) : Events :=
  match Iteration.ofName? name with
  | some kind =>
    .following (callback name args span) fun
      | some (params, body, captured) =>
        iterateEvents call calls params body captured kind isKnown span 0 elements
      | none => .none
  | none => fun _ => if name = "concat" then args.map .joining else []

def callValueEvents (function : Shape) (args : List Shape) (span : Span) : Events :=
  match function with
  | .function _ params body captured => calls params body captured args span
  | _ => .none

def plainMethodEvents (receiver : Shape) (name : String) (args : List Shape) (span : Span) :
    Events :=
  match receiver with
  | .record .. =>
    .following (member name span receiver) fun property => callValueEvents calls property args span
  | _ =>
    match receiver.elements? with
    | some (elements, isKnown) => arrayMethodEvents call calls elements isKnown name args span
    | none => .none

mutual

def methodEvents (name : String) (args : List Shape) (span : Span) : Shape → Events
  | .oneOf _ branches => methodsEvents name args span branches
  | receiver => plainMethodEvents call calls receiver name args span

def methodsEvents (name : String) (args : List Shape) (span : Span) : List Shape → Events
  | [] => .none
  | shape :: shapes =>
    (methodEvents name args span shape).andThen (method call name args span shape)
      fun _ => methodsEvents name args span shapes

end

theorem methodsEvents_eq (name : String) (args : List Shape) (span : Span) (shapes : List Shape) :
    methodsEvents call calls name args span shapes =
      .each (methodEvents call calls name args span) (method call name args span)
        shapes := by
  induction shapes with
  | nil => rfl
  | cons shape shapes ih => rw [methodsEvents, ih, Events.each]

mutual

def exprEvents : Expr → Events
  | .string .. | .number .. | .boolean .. | .null _ | .undefined _ | .name .. | .arrow .. => .none
  | .template _ segments => segmentsEvents (some "") segments
  | .array _ items => itemsEvents items
  | .object _ ms => membersEvents ⟨[[]], false⟩ ms
  | .member _ object _ => exprEvents object
  | .index _ object position =>
    (exprEvents object).andThen (infer call object) fun receiver =>
      (exprEvents position).andThen (infer call position) fun position =>
        .one (.indexing receiver position)
  | .call s (.member _ object property) args =>
    (exprEvents object).andThen (infer call object) fun receiver =>
      (allEvents args).andThen (inferAll call args) fun args =>
        methodEvents call calls property.name args s receiver
  | .call s callee args =>
    (exprEvents callee).andThen (infer call callee) fun function =>
      (allEvents args).andThen (inferAll call args) fun args =>
        callValueEvents calls function args s
  | .unary _ _ operand => exprEvents operand
  | .binary _ op left right =>
    (exprEvents left).andThen (infer call left) fun l =>
      match op, l.truthiness with
      | .and, some false | .or, some true => .none
      | .and, _ | .or, _ => exprEvents right
      | op, _ =>
        (exprEvents right).andThen (infer call right) fun r =>
          .whenever (op = .equal ∨ op = .notEqual) (.comparison l r) .none
  | .conditional _ test consequent alternate =>
    (exprEvents test).andThen (infer call test) fun t =>
      match t.truthiness with
      | some true => exprEvents consequent
      | some false => exprEvents alternate
      | none => (exprEvents consequent).andThen (infer call consequent) fun _ =>
          exprEvents alternate

def segmentsEvents (text : Option String) : List TemplateSegment → Events
  | [] => .none
  | .text part :: rest => segmentsEvents (text.map (· ++ part)) rest
  | .hole e :: rest =>
    (exprEvents e).andThen (infer call e) fun shape =>
      .following (extend text shape) fun text => segmentsEvents text rest

def itemsEvents : List ArrayItem → Events
  | [] => .none
  | .item e :: rest => (exprEvents e).andThen (infer call e) fun _ => itemsEvents rest
  | .spread e :: rest => (exprEvents e).andThen (infer call e) fun _ => itemsEvents rest

def membersEvents (p : Partials) : List ObjectMember → Events
  | [] => .none
  | .field key keySpan e :: rest =>
    (exprEvents e).andThen (infer call e) fun shape => membersEvents (p.put key keySpan shape) rest
  | .spread e :: rest =>
    (exprEvents e).andThen (infer call e) fun shape =>
      .meeting (.spreading shape) (.following (p.spread shape) fun p => membersEvents p rest)

def allEvents : List Expr → Events
  | [] => .none
  | e :: es => (exprEvents e).andThen (infer call e) fun _ => allEvents es

end

theorem exprEvents_conditional (s : Span) (test consequent alternate : Expr) :
    exprEvents call calls (.conditional s test consequent alternate) =
      (exprEvents call calls test).andThen (infer call test) fun t =>
        .choose t.truthiness (exprEvents call calls consequent) (infer call consequent)
          (exprEvents call calls alternate) := by
  rw [exprEvents]
  rfl

variable {op : BinaryOp} {stop : Bool}

theorem exprEvents_shortened (s : Span) (h : op.stopsAt? = some stop) (left right : Expr) :
    exprEvents call calls (.binary s op left right) =
      (exprEvents call calls left).andThen (infer call left) fun l =>
        .choose (l.truthiness.map (· == stop)) .none (return l)
          (exprEvents call calls right) := by
  cases op <;> cases h
  all_goals
    rw [exprEvents]
    congr
    funext l
    rcases l.truthiness with _ | _ | _ <;> rfl

theorem exprEvents_operator (s : Span) (h : op.stopsAt? = none) (left right : Expr) :
    exprEvents call calls (.binary s op left right) =
      (exprEvents call calls left).andThen (infer call left) fun l =>
        (exprEvents call calls right).andThen (infer call right) fun r =>
          .whenever (op = .equal ∨ op = .notEqual) (.comparison l r) .none := by
  cases op with
  | and | or => cases h
  | _ => rfl

end

/-- What the caller for a number of levels meets: what the body meets in the frames of the call,
unless the call is refused. -/
def callEvents (maxDepth : Nat) : Nat → CallerEvents
  | 0, _, _, _, _, _ => .none
  | levels + 1, params, body, captured, args, span =>
    .following (countCall span) fun allowed s =>
      if allowed = true ∧ s.depth < maxDepth then
        exprEvents (call maxDepth levels) (callEvents maxDepth levels) body
          { s with frames := frameOf span params args :: captured, depth := s.depth + 1 }
      else []

/-- What a call within the bounds meets, once it has been counted. -/
theorem callEvents_eq {maxDepth levels : Nat} {params : List Ident} {body : Expr}
    {captured : List ShapeFrame} {args : List Shape} {span : Span} {σ : State}
    (hlt : σ.calls < maxCalls) (hd : σ.depth < maxDepth) :
    callEvents maxDepth (levels + 1) params body captured args span σ =
      exprEvents (call maxDepth levels) (callEvents maxDepth levels) body
        { σ with
          calls := σ.calls + 1
          frames := frameOf span params args :: captured
          depth := σ.depth + 1 } := by
  show (fun p : Bool × State => if p.1 = true ∧ p.2.depth < maxDepth then
      exprEvents (call maxDepth levels) (callEvents maxDepth levels) body
        { p.2 with frames := frameOf span params args :: captured, depth := p.2.depth + 1 }
    else []) (countCall span σ) = _
  rw [countCall_of_lt span hlt]
  exact if_pos ⟨rfl, hd⟩

def shapeEvents (limits : Limits) (e : Expr) : Events :=
  exprEvents (call limits.maxDepth limits.maxDepth) (callEvents limits.maxDepth limits.maxDepth) e

def statementEvents (limits : Limits) (schema : Schema) : Statement → Events
  | .declare kind name init _ =>
    .following (do setContext name.name; roleOf? name.name) fun role =>
      match redeclared? kind name.name role, role, init with
      | none, some .root, some value =>
        .following (setContext schema.root.name) fun _ => shapeEvents limits value
      | none, _, some value => shapeEvents limits value
      | _, _, _ => .none
  | .assign target value _ =>
    .following (do setContext target.name; roleOf? target.name) fun
      | some .root => .following (setContext schema.root.name) fun _ => shapeEvents limits value
      | _ => shapeEvents limits value
  | .expression value => .following (setContext "") fun _ => shapeEvents limits value

def statementsEvents (limits : Limits) (schema : Schema) : List Statement → Events
  | [] => .none
  | s :: rest =>
    (statementEvents limits schema s).andThen (statement limits schema s) fun _ =>
      statementsEvents limits schema rest

end Check

/-- What checking a program meets, in order. -/
def Program.checkEvents (limits : Limits) (schema : Schema) (program : Program) :
    List Check.Event :=
  Check.statementsEvents limits schema program.statements (Check.initial schema)

end TypedConfig
