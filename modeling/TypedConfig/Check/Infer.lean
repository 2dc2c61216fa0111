import TypedConfig.Check.State
import TypedConfig.Operation

/-! # The shapes of expressions

Expressions are run over shapes. Where a condition is not known both sides are taken, and a
misuse is recorded as an error and has the unknown shape. Expressions are followed by structure;
what a function's body gives is asked of a caller, which is built for each depth of calls from
the caller for the depth below.
-/

namespace TypedConfig.Check

/-- Calls a function, given by its parameters, body and captured frames, with arguments. -/
abbrev Caller := List Ident → Expr → List ShapeFrame → List Shape → Span → CheckM Shape

/-- Names that are methods of arrays or texts. -/
def methodNames : List String :=
  ["map", "filter", "flatMap", "concat", "join", "split", "toUpperCase", "toLowerCase", "trim"]

/-! ### Properties and indices -/

/-- A property of a shape that is not one of several. -/
def plainMember (receiver : Shape) (property : String) (span : Span) : CheckM Shape :=
  match receiver with
  | .unknown _ => return .unknown span
  | .record _ fields =>
    match Entries.get? fields property with
    | some (_, shape) => return shape
    | none => refuse ("an object with property `" ++ property ++ "`") receiver.describe span span
  | _ =>
    if property = "length" ∧ (receiver.elements?.isSome ∨ receiver.isText) then
      match receiver with
      | .tuple _ items => return .number span (some (lengthNumber items.length))
      | .array .. => return .number span none
      | _ => return .number span (receiver.text?.map textLength)
    else
      match receiver with
      | .null _ | .undefined _ =>
        refuse "an object" (receiver.describe ++ " when reading `" ++ property ++ "`") span span
      | _ =>
        if methodNames.contains property then
          refuse ("a call to `." ++ property ++ "(...)`")
            ("method `" ++ property ++ "` used as a value") span span
        else
          refuse ("a value with property `" ++ property ++ "`") receiver.describe span span

mutual

def member (property : String) (span : Span) : Shape → CheckM Shape
  | .oneOf _ branches => do oneOf (← members property span branches) span
  | receiver => plainMember receiver property span

def members (property : String) (span : Span) : List Shape → CheckM (List Shape)
  | [] => return []
  | shape :: shapes => do
    let first ← member property span shape
    return first :: (← members property span shapes)

end

def index (receiver position : Shape) (span : Span) : CheckM Shape :=
  match receiver, position with
  | .unknown _, _ | _, .unknown _ => return .unknown span
  | .tuple _ items, .number _ (some x) =>
    match (Number.index? x).bind (items[·]?) with
    | some item => return item
    | none =>
      refuse ("an index below " ++ toString items.length) ("index " ++ Number.stringText x)
        position.span span
  | .tuple _ items, .number _ none => oneOf items span
  | .array _ element, .number .. => return element
  | receiver, position =>
    match receiver, position.text?, position with
    | .record .., some key, _ => member key span receiver
    | .record .., none, .string .. => return .unknown span
    | _, _, _ =>
      match receiver.isText, position with
      | true, .number _ x =>
        let text := do charAt? (← receiver.text?) (← x)
        return .string span text
      | _, _ =>
        refuse "an array indexed by a number or an object indexed by a string"
          (receiver.describe ++ " indexed by " ++ position.describe) span span

/-! ### Operators -/

def unary (op : UnaryOp) (operand : Shape) (span : Span) : CheckM Shape :=
  match op, operand with
  | .not, _ => return .boolean span (operand.truthiness.map (!·))
  | .negate, .number _ x => return .number span (x.map (-·))
  | .negate, .unknown _ => return .unknown span
  | .negate, _ => refuse "a number" (operand.describe ++ " after `-`") operand.span span

def operatorError (op : BinaryOp) (left right : Shape) (span : Span) : CheckM Shape :=
  let expected :=
    match op with
    | .add => "numbers or strings"
    | .less | .greater => "two numbers or two strings"
    | _ => "numbers"
  refuse (expected ++ " around `" ++ op.text ++ "`")
    (left.describe ++ " and " ++ right.describe) span span

/-- A function of two values that are both known. -/
def both {α β : Type} (f : α → α → β) (a b : Option α) : Option β := do
  return f (← a) (← b)

/-- Two scalars joined as texts. -/
def concatenate (left right : Shape) (span : Span) : CheckM Shape :=
  match left.kind?, right.kind? with
  | some _, some _ =>
    match left.rendering, right.rendering with
    | .known a, .known b => return .string span (some (a ++ b))
    | _, _ => return .string span none
  | _, _ => operatorError .add left right span

/-- An operator on two shapes of which neither is unknown or one of several. -/
def plainOperator (op : BinaryOp) (left right : Shape) (span : Span) : CheckM Shape :=
  if op = .equal then return .boolean span (left.equal? right)
  else if op = .notEqual then return .boolean span ((left.equal? right).map (!·))
  else if op = .add ∧ (left.isText ∨ right.isText) then concatenate left right span
  else if op.isOrder ∧ left.isText ∧ right.isText then
    return .boolean span (both op.compareTexts left.text? right.text?)
  else
    match left, right with
    | .number _ a, .number _ b =>
      if op.isOrder then return .boolean span (both op.compareNumbers a b)
      else return .number span (both op.compute a b)
    | _, _ => operatorError op left right span

mutual

def operatorRight (op : BinaryOp) (left : Shape) (span : Span) : Shape → CheckM Shape
  | .unknown _ => return .unknown span
  | .oneOf _ branches => do oneOf (← operatorRights op left span branches) span
  | right => plainOperator op left right span

def operatorRights (op : BinaryOp) (left : Shape) (span : Span) :
    List Shape → CheckM (List Shape)
  | [] => return []
  | shape :: shapes => do
    let first ← operatorRight op left span shape
    return first :: (← operatorRights op left span shapes)

end

mutual

/-- An operator on two shapes, other than the two that may leave out their right side. -/
def operator (op : BinaryOp) (right : Shape) (span : Span) : Shape → CheckM Shape
  | .unknown _ => return .unknown span
  | .oneOf _ branches => do
    if right.isUnknown then return .unknown span
    else oneOf (← operators op right span branches) span
  | left => operatorRight op left span right

def operators (op : BinaryOp) (right : Shape) (span : Span) : List Shape → CheckM (List Shape)
  | [] => return []
  | shape :: shapes => do
    let first ← operator op right span shape
    return first :: (← operators op right span shapes)

end

/-! ### Methods -/

/-- The function among the arguments of an iterating method, if one may be called. -/
def callback (method : String) (args : List Shape) (span : Span) :
    CheckM (Option (List Ident × Expr × List ShapeFrame)) :=
  match args with
  | .function _ params body captured :: _ => return some (params, body, captured)
  | .unknown _ :: _ => return none
  | _ => do
    report ("a function argument to `." ++ method ++ "`")
      ((args.head?.map Shape.describe).getD "no argument") span
    return none

/-- The results of an iterating method, and whether they are known one by one. -/
abbrev Results := List Shape × Bool

def Results.append (a b : Results) : Results := (a.1 ++ b.1, a.2 && b.2)

/-- What an iterating method adds to its results for an element and what the callback gave for
it. -/
def contribution (kind : Iteration) (element result : Shape) : Results :=
  match kind with
  | .map => ([result], true)
  | .filter =>
    match result.truthiness with
    | some true => ([element], true)
    | some false => ([], true)
    | none => ([element], false)
  | .flatMap =>
    if result.isUnknown then ([], false) else result.elements?.getD ([result], true)

/-- Calls a function on each element and its index, which is known if all elements are. -/
def iterate (call : Shape → Shape → CheckM Shape) (kind : Iteration) (isKnown : Bool)
    (span : Span) : Nat → List Shape → CheckM Results
  | _, [] => return ([], isKnown)
  | i, element :: rest => do
    let position := Shape.number span (if isKnown then some (lengthNumber i) else none)
    let result ← call element position
    let more ← iterate call kind isKnown span (i + 1) rest
    return Results.append (contribution kind element result) more

/-- The elements that the arguments of `concat` add; an argument that cannot be spread is an
element itself. -/
def concatItems : List Shape → Results
  | [] => ([], true)
  | arg :: args => Results.append (arg.spread?.getD ([arg], true)) (concatItems args)

/-- The separator of `join`, as far as it is known. -/
def separator (args : List Shape) : CheckM (Option String) :=
  match args with
  | [] => return some ","
  | arg :: _ => do
    if arg.isText then return arg.text?
    else if arg.isUnknown then return none
    else
      report "a string separator" arg.describe arg.span
      return none

/-- The texts of the elements of `join`, if they are all known. -/
def joinParts : List Shape → CheckM (Option (List String))
  | [] => return some []
  | element :: rest => do
    let part ←
      match element.rendering with
      | .known text => pure (some text)
      | .possible => pure none
      | .impossible =>
        report "array elements that are strings, numbers or booleans"
          (element.describe ++ " in `.join`") element.span
        pure none
    let parts ← joinParts rest
    return do return (← part) :: (← parts)

def unknownMethod (receiver : Shape) (name : String) (span : Span) : CheckM Shape :=
  let expected :=
    if ["map", "filter", "flatMap", "concat", "join"].contains name then "an array"
    else if ["split", "toUpperCase", "toLowerCase", "trim"].contains name then "a string"
    else "a supported method (map, filter, flatMap, concat, join, split, toUpperCase, " ++
      "toLowerCase, trim)"
  refuse (expected ++ " for `." ++ name ++ "`") receiver.describe receiver.span span

def arrayMethod (call : Caller) (receiver : Shape) (elements : List Shape) (isKnown : Bool)
    (name : String) (args : List Shape) (span : Span) : CheckM Shape := do
  match Iteration.ofName? name with
  | some kind =>
    match ← callback name args span with
    | none => return .unknown span
    | some (params, body, captured) =>
      let apply (element position : Shape) : CheckM Shape :=
        call params body captured [element, position] span
      let (items, isKnown) ← iterate apply kind isKnown span 0 elements
      arrayOf items isKnown span
  | none =>
    if name = "concat" then
      let (items, isKnown) := Results.append (elements, isKnown) (concatItems args)
      arrayOf items isKnown span
    else if name = "join" then
      let sep ← separator args
      let parts ← joinParts elements
      let text := do return (← sep).intercalate (← parts)
      return .string span (if isKnown then text else none)
    else unknownMethod receiver name span

/-- The parts of a text, as far as they are known. -/
def splitText (text : Option String) (args : List Shape) (span : Span) : CheckM Shape :=
  match args with
  | [] => return .tuple span [.string span text]
  | arg :: _ =>
    if arg.isText then
      match both Text.split text arg.text? with
      | some parts => return .tuple span (parts.map fun p => .string span (some p))
      | none => return .array span (.string span none)
    else refuse "a string separator" arg.describe arg.span span

def textMethod (receiver : Shape) (name : String) (args : List Shape) (span : Span) :
    CheckM Shape :=
  match textMethod? name with
  | some f => return .string span (receiver.text?.map f)
  | none =>
    if name = "split" then splitText receiver.text? args span
    else unknownMethod receiver name span

def callValue (call : Caller) (function : Shape) (args : List Shape) (errorSpan span : Span) :
    CheckM Shape :=
  match function with
  | .function _ params body captured => call params body captured args span
  | .unknown _ => return .unknown span
  | _ =>
    refuse "a function" (function.describe ++ " called as a function") errorSpan span

def plainMethod (call : Caller) (receiver : Shape) (name : String) (args : List Shape)
    (span : Span) : CheckM Shape :=
  match receiver with
  | .unknown _ => return .unknown span
  | .record .. => do
    let property ← member name span receiver
    match property with
    | .unknown _ => return property
    | _ => callValue call property args span span
  | _ =>
    match receiver.elements? with
    | some (elements, isKnown) => arrayMethod call receiver elements isKnown name args span
    | none =>
      if receiver.isText then textMethod receiver name args span
      else unknownMethod receiver name span

mutual

def method (call : Caller) (name : String) (args : List Shape) (span : Span) :
    Shape → CheckM Shape
  | .oneOf _ branches => do oneOf (← methods call name args span branches) span
  | receiver => plainMethod call receiver name args span

def methods (call : Caller) (name : String) (args : List Shape) (span : Span) :
    List Shape → CheckM (List Shape)
  | [] => return []
  | shape :: shapes => do
    let first ← method call name args span shape
    return first :: (← methods call name args span shapes)

end

/-! ### Objects -/

/-- What an object may be after some of its members: one set of fields for each combination of
alternatives, and whether something about it is not known. -/
structure Partials where
  fields : List ShapeFields
  isUnknown : Bool

/-- The sets of fields that come of spreading one shape into each of some; none if it cannot
be known. -/
def spreadInto (partials : List ShapeFields) (branch : Shape) :
    CheckM (Option (List ShapeFields)) :=
  match branch with
  | .record _ fields => return some (partials.map (Entries.putAll · fields))
  | .null _ | .undefined _ => return some partials
  | .unknown _ => return none
  | _ => do
    report "an object to spread" branch.describe branch.span
    return none

/-- The sets of fields that come of spreading each of several shapes. -/
def spreadBranches (partials : List ShapeFields) : List Shape → CheckM Partials
  | [] => return ⟨[], false⟩
  | branch :: rest => do
    let first ← spreadInto partials branch
    let more ← spreadBranches partials rest
    return ⟨first.getD [] ++ more.fields, first.isNone || more.isUnknown⟩

/-- The branches of a shape, or the shape alone. -/
def branchesOf : Shape → List Shape
  | .oneOf _ branches => branches
  | shape => [shape]

def Partials.spread (p : Partials) (shape : Shape) : CheckM Partials := do
  let next ← spreadBranches p.fields (branchesOf shape)
  let isUnknown := p.isUnknown || next.isUnknown
  let fields := if next.fields.isEmpty then p.fields else next.fields
  if Shape.maxBranches < next.fields.length then
    reportBranches shape.span
    return ⟨fields, true⟩
  else return ⟨fields, isUnknown⟩

/-- A partly read object with one more field. -/
def Partials.put (p : Partials) (key : String) (keySpan : Span) (shape : Shape) : Partials :=
  { p with fields := p.fields.map (Entries.put · key (keySpan, shape)) }

/-- The shape of an object that has been read. -/
def Partials.shape (p : Partials) (span : Span) : CheckM Shape :=
  if p.isUnknown then return .unknown span
  else oneOf (p.fields.map (.record span)) span

/-! ### Expressions -/

def name (text : String) (span : Span) : CheckM Shape := do
  match (← get).lookup? text with
  | some shape => return shape.leafAt span
  | none =>
    refuse "a declared identifier" ("unknown identifier `" ++ text ++ "`") span span

/-- A template's text so far with one more part, if both are known. -/
def extend (text : Option String) (part : Shape) : CheckM (Option String) :=
  match part.rendering with
  | .known t => return text.map (· ++ t)
  | .possible => return none
  | .impossible => do
    report "a string, number or boolean" (part.describe ++ " in template literal") part.span
    return none

mutual

/-- The shape of an expression. -/
def infer (call : Caller) : Expr → CheckM Shape
  | .string s v => return .string s (some v)
  | .number s v => return .number s (some v)
  | .boolean s v => return .boolean s (some v)
  | .null s => return .null s
  | .undefined s => return .undefined s
  | .name s n => name n s
  | .template s segments => return .string s (← inferSegments call (some "") segments)
  | .array s items => do
    let (elements, isKnown) ← inferItems call items
    arrayOf elements isKnown s
  | .object s ms => do
    let p ← inferMembers call ⟨[[]], false⟩ ms
    p.shape s
  | .member s object property => do
    let receiver ← infer call object
    member property.name s receiver
  | .index s object position => do
    let receiver ← infer call object
    let position ← infer call position
    index receiver position s
  | .call s (.member _ object property) args => do
    let receiver ← infer call object
    let args ← inferAll call args
    method call property.name args s receiver
  | .call s callee args => do
    let function ← infer call callee
    let args ← inferAll call args
    callValue call function args callee.span s
  | .arrow s params body => return .function s params body (← get).frames
  | .unary s op operand => do
    let shape ← infer call operand
    unary op shape s
  | .binary s .and left right => do
    let l ← infer call left
    match l.truthiness with
    | some false => return l
    | some true => infer call right
    | none =>
      let r ← infer call right
      oneOf [l, r] s
  | .binary s .or left right => do
    let l ← infer call left
    match l.truthiness with
    | some true => return l
    | some false => infer call right
    | none =>
      let r ← infer call right
      oneOf [l, r] s
  | .binary s op left right => do
    let l ← infer call left
    let r ← infer call right
    operator op r s l
  | .conditional s test consequent alternate => do
    let t ← infer call test
    match t.truthiness with
    | some true => infer call consequent
    | some false => infer call alternate
    | none =>
      let a ← infer call consequent
      let b ← infer call alternate
      oneOf [a, b] s

/-- The text of a template, as far as it is known. -/
def inferSegments (call : Caller) (text : Option String) :
    List TemplateSegment → CheckM (Option String)
  | [] => return text
  | .text part :: rest => inferSegments call (text.map (· ++ part)) rest
  | .hole e :: rest => do
    let shape ← infer call e
    let text ← extend text shape
    inferSegments call text rest

/-- The elements of an array, and whether they are known one by one. -/
def inferItems (call : Caller) : List ArrayItem → CheckM Results
  | [] => return ([], true)
  | .item e :: rest => do
    let shape ← infer call e
    let (shapes, isKnown) ← inferItems call rest
    return (shape :: shapes, isKnown)
  | .spread e :: rest => do
    let shape ← infer call e
    match shape.spread? with
    | some (items, allKnown) =>
      let (shapes, isKnown) ← inferItems call rest
      return (items ++ shapes, allKnown && isKnown)
    | none =>
      report "an array to spread" shape.describe shape.span
      let (shapes, _) ← inferItems call rest
      return (shapes, false)

def inferMembers (call : Caller) (p : Partials) : List ObjectMember → CheckM Partials
  | [] => return p
  | .field key keySpan e :: rest => do
    let shape ← infer call e
    inferMembers call (p.put key keySpan shape) rest
  | .spread e :: rest => do
    let shape ← infer call e
    let p ← p.spread shape
    inferMembers call p rest

def inferAll (call : Caller) : List Expr → CheckM (List Shape)
  | [] => return []
  | e :: es => do
    let shape ← infer call e
    return shape :: (← inferAll call es)

end

/-! ### Calls -/

/-- Counts a call and refuses one too many; the first of those is an error. -/
def countCall (span : Span) : CheckM Bool := do
  modify fun s => { s with calls := s.calls + 1 }
  let calls := (← get).calls
  if calls = maxCalls + 1 then
    report ("at most " ++ toString maxCalls ++ " function calls") "a program that calls more" span
  return decide (calls ≤ maxCalls)

def refuseDepth (maxDepth : Nat) (span : Span) : CheckM Shape :=
  refuse ("calls nested at most " ++ toString maxDepth ++ " deep") "deeper recursion" span span

/-- Does the work of a call unless there have been too many or they are nested too deep. -/
def guarded (maxDepth : Nat) (span : Span) (work : CheckM Shape) : CheckM Shape := do
  if ← countCall span then
    if maxDepth ≤ (← get).depth then refuseDepth maxDepth span
    else work
  else return .unknown span

/-- The caller for calls that may be nested `levels` deep. With as many levels as the depth limit
leaves, it is the limit that stops deeper calls. -/
def call (maxDepth : Nat) : Nat → Caller
  | 0, _, _, _, _, span => guarded maxDepth span (refuseDepth maxDepth span)
  | levels + 1, params, body, captured, args, span =>
    guarded maxDepth span <|
      inside (frameOf span params args :: captured) <|
        infer (fun ps b fs as s => call maxDepth levels ps b fs as s) body

end TypedConfig.Check
