import TypedConfig.Check
import TypedConfig.Eval.Datum
import TypedConfig.Eval.Error

/-! # Evaluating programs

A checked program is run to its end; its value is what the root binding then holds. Expressions
are followed by structure, and what a function's body gives is asked of a caller, which is built
for each depth of calls from the caller for the depth below.
-/

namespace TypedConfig.Eval

/-- What names are bound to, and how many calls the present one is nested in, itself included.
The names of a call stand in frames, innermost first. -/
structure Scope where
  globals : Entries Datum
  frames : List Frame
  depth : Nat

abbrev EvalM := ExceptT Fault (StateM Scope)

def fail {α : Type} (cause : EvalCause) (span : Span) : EvalM α := throw ⟨cause, span⟩

def inFrames? (frames : List Frame) (name : String) : Option Datum :=
  frames.findSome? fun f => Entries.get? f name

def Scope.lookup? (s : Scope) (name : String) : Option Datum :=
  match inFrames? s.frames name with
  | some d => some d
  | none => Entries.get? s.globals name

/-- The frame of a call: a parameter without an argument is undefined. -/
def frameOf : List Ident → List Datum → Frame
  | [], _ => []
  | p :: ps, [] => Entries.put (frameOf ps []) p.name .undefined
  | p :: ps, a :: as => Entries.put (frameOf ps as) p.name a

/-- Works inside a call and comes back to the frames and the depth before it, also from a
failure. -/
def inside {α : Type} (frames : List Frame) (work : EvalM α) : EvalM α := ExceptT.mk do
  let saved := (← get).frames
  modify fun s => { s with frames := frames, depth := s.depth + 1 }
  let result ← work.run
  modify fun s => { s with frames := saved, depth := s.depth - 1 }
  return result

/-- Calls a function, given by its parameters, body and captured frames, with arguments. -/
abbrev Caller := List Ident → Expr → List Frame → List Datum → Span → EvalM Datum

/-! ### Operations -/

/-- A scalar as part of a text. -/
def stringify (d : Datum) (span : Span) : EvalM String :=
  match d.scalar? with
  | some s => return s.stringText
  | none => fail (.notText d.kindName) span

def stringifyAll (span : Span) : List Datum → EvalM (List String)
  | [] => return []
  | d :: ds => do
    let text ← stringify d span
    return text :: (← stringifyAll span ds)

def member (receiver : Datum) (property : String) (span : Span) : EvalM Datum :=
  match receiver with
  | .object fields =>
    match Entries.get? fields property with
    | some d => return d
    | none => fail (.noProperty property) span
  | _ =>
    if property = "length" then
      match receiver, receiver.text? with
      | .array items, _ => return .number (lengthNumber items.length)
      | _, some text => return .number (textLength text)
      | _, none => fail (.unreadable property receiver.kindName) span
    else fail (.unreadable property receiver.kindName) span

def index (receiver position : Datum) (span : Span) : EvalM Datum :=
  match receiver, position.text?, receiver.text? with
  | .array items, _, _ =>
    match (position.number?.bind Number.index?).bind (items[·]?) with
    | some d => return d
    | none => fail .arrayBounds span
  | .object _, some key, _ => member receiver key span
  | _, _, some text =>
    match position.number?.bind (charAt? text) with
    | some c => return .string c
    | none => fail .textBounds span
  | _, _, _ => fail (.unindexable receiver.kindName position.kindName) span

def unary (op : UnaryOp) (operand : Datum) (span : Span) : EvalM Datum :=
  match op with
  | .not => return .boolean (!operand.truthy)
  | .negate =>
    match operand.number? with
    | some x => return .number (-x)
    | none => fail (.negation operand.kindName) span

/-- An operator on two data, other than the two that may leave out their right side. -/
def operator (op : BinaryOp) (left right : Datum) (span : Span) : EvalM Datum :=
  if op = .equal then return .boolean (left.equals right)
  else if op = .notEqual then return .boolean (!left.equals right)
  else if op = .add ∧ (left.isText ∨ right.isText) then do
    let a ← stringify left span
    let b ← stringify right span
    return .string (a ++ b)
  else
    match op.isOrder, left.text?, right.text?, left.number?, right.number? with
    | true, some a, some b, _, _ => return .boolean (op.compareTexts a b)
    | true, _, _, some a, some b => return .boolean (op.compareNumbers a b)
    | false, _, _, some a, some b => return .number (op.compute a b)
    | _, _, _, _, _ => fail (.operands op.text left.kindName right.kindName) span

/-! ### Methods -/

/-- What an iterating method adds to its results for an element and what the callback gave for
it. -/
def contribution (kind : Iteration) (element result : Datum) : List Datum :=
  match kind, result with
  | .map, _ => [result]
  | .filter, _ => if result.truthy then [element] else []
  | .flatMap, .array items => items
  | .flatMap, _ => [result]

def iterate (call : Datum → Datum → EvalM Datum) (kind : Iteration) :
    Nat → List Datum → EvalM (List Datum)
  | _, [] => return []
  | i, element :: rest => do
    let result ← call element (.number (lengthNumber i))
    let more ← iterate call kind (i + 1) rest
    return contribution kind element result ++ more

/-- The elements that an argument of `concat` adds: its own if it is an array, or else itself. -/
def concatItems : Datum → List Datum
  | .array items => items
  | d => [d]

/-- The text that separates or splits, where an argument gives one. -/
def separator (name : String) (d : Datum) (span : Span) : EvalM String :=
  match d.text? with
  | some text => return text
  | none => fail (.separatorExpected name) span

def arrayMethod (call : Caller) (items : List Datum) (name : String) (args : List Datum)
    (span : Span) : EvalM Datum := do
  match Iteration.ofName? name with
  | some kind =>
    match args with
    | .function params body captured :: _ =>
      let apply (element position : Datum) : EvalM Datum :=
        call params body captured [element, position] span
      return .array (← iterate apply kind 0 items)
    | _ => fail (.functionExpected name) span
  | none =>
    if name = "concat" then return .array (items ++ args.flatMap concatItems)
    else if name = "join" then
      let sep ←
        match args with
        | [] => pure ","
        | arg :: _ => separator name arg span
      let parts ← stringifyAll span items
      return .string (sep.intercalate parts)
    else fail (.noMethodOf name "array") span

def textMethod (text name : String) (args : List Datum) (span : Span) : EvalM Datum := do
  match textMethod? name with
  | some f => return .string (f text)
  | none =>
    if name = "split" then
      match args with
      | [] => return .array [.string text]
      | arg :: _ =>
        let sep ← separator name arg span
        return .array ((Text.split text sep).map .string)
    else fail (.noMethodOf name "string") span

/-- A method of a datum; of an object it is a field that holds a function. -/
def method (call : Caller) (receiver : Datum) (name : String) (args : List Datum)
    (span : Span) : EvalM Datum :=
  match receiver, receiver.text? with
  | .array items, _ => arrayMethod call items name args span
  | .object fields, _ =>
    match Entries.get? fields name with
    | some (.function params body captured) => call params body captured args span
    | some d => fail (.notMethod name d.kindName) span
    | none => fail (.noMethod name) span
  | _, some text => textMethod text name args span
  | _, none => fail (.noMethodOf name receiver.kindName) span

/-! ### Expressions -/

def name (text : String) (span : Span) : EvalM Datum := do
  match (← get).lookup? text with
  | some d => return d
  | none => fail (.undefinedName text) span

mutual

def eval (call : Caller) : Expr → EvalM Datum
  | .string _ v => return .string v
  | .number _ v => return .number v
  | .boolean _ v => return .boolean v
  | .null _ => return .null
  | .undefined _ => return .undefined
  | .name s n => name n s
  | .template _ segments => do return .string (← evalSegments call segments)
  | .array _ items => do return .array (← evalItems call items)
  | .object _ ms => do return .object (← evalMembers call [] ms)
  | .member s object property => do
    let receiver ← eval call object
    member receiver property.name s
  | .index s object position => do
    let receiver ← eval call object
    let position ← eval call position
    index receiver position s
  | .call s (.member _ object property) args => do
    let receiver ← eval call object
    let args ← evalAll call args
    method call receiver property.name args s
  | .call s callee args => do
    let function ← eval call callee
    let args ← evalAll call args
    match function with
    | .function params body captured => call params body captured args s
    | d => fail (.notFunction d.kindName) callee.span
  | .arrow _ params body => return .function params body (← get).frames
  | .unary s op operand => do
    let d ← eval call operand
    unary op d s
  | .binary _ .and left right => do
    let d ← eval call left
    if d.truthy then eval call right else return d
  | .binary _ .or left right => do
    let d ← eval call left
    if d.truthy then return d else eval call right
  | .binary s op left right => do
    let l ← eval call left
    let r ← eval call right
    operator op l r s
  | .conditional _ test consequent alternate => do
    let t ← eval call test
    if t.truthy then eval call consequent else eval call alternate

def evalSegments (call : Caller) : List TemplateSegment → EvalM String
  | [] => return ""
  | .text part :: rest => do return part ++ (← evalSegments call rest)
  | .hole e :: rest => do
    let d ← eval call e
    let part ← stringify d e.span
    return part ++ (← evalSegments call rest)

def evalItems (call : Caller) : List ArrayItem → EvalM (List Datum)
  | [] => return []
  | .item e :: rest => do
    let d ← eval call e
    return d :: (← evalItems call rest)
  | .spread e :: rest => do
    let d ← eval call e
    match d with
    | .array items => return items ++ (← evalItems call rest)
    | d => fail (.arraySpread d.kindName) e.span

def evalMembers (call : Caller) (fields : List (String × Datum)) :
    List ObjectMember → EvalM (List (String × Datum))
  | [] => return fields
  | .field key _ e :: rest => do
    let d ← eval call e
    evalMembers call (Entries.put fields key d) rest
  | .spread e :: rest => do
    let d ← eval call e
    match d with
    | .object more => evalMembers call (Entries.putAll fields more) rest
    | .null | .undefined => evalMembers call fields rest
    | d => fail (.objectSpread d.kindName) e.span

def evalAll (call : Caller) : List Expr → EvalM (List Datum)
  | [] => return []
  | e :: es => do
    let d ← eval call e
    return d :: (← evalAll call es)

end

/-! ### Calls -/

/-- Does the work of a call unless it is nested too deep. -/
def guarded (maxDepth : Nat) (span : Span) (work : EvalM Datum) : EvalM Datum := do
  if maxDepth ≤ (← get).depth then fail (.tooDeep maxDepth) span else work

/-- The caller for calls that may be nested `levels` deep. With as many levels as the depth limit
leaves, it is the limit that stops deeper calls. -/
def call (maxDepth : Nat) : Nat → Caller
  | 0, _, _, _, _, span => fail (.tooDeep maxDepth) span
  | levels + 1, params, body, captured, args, span =>
    guarded maxDepth span <|
      inside (frameOf params args :: captured) <|
        eval (fun ps b fs as s => call maxDepth levels ps b fs as s) body

/-! ### Statements -/

/-- The datum of an expression that stands outside of calls. -/
def datumOf (limits : Limits) (e : Expr) : EvalM Datum :=
  eval (fun ps b fs as s => call limits.maxDepth limits.maxDepth ps b fs as s) e

def bindName (name : String) (d : Datum) : EvalM Unit :=
  modify fun s => { s with globals := Entries.put s.globals name d }

/-- Runs a statement. The root binding may be declared by `var` only, and keeps its value if the
declaration gives none. -/
def statement (limits : Limits) (root : String) : Statement → EvalM Unit
  | .declare _ name none _ =>
    if name.name = root then return () else bindName name.name .undefined
  | .declare kind name (some value) _ => do
    let d ← datumOf limits value
    if name.name = root ∧ kind ≠ .var then fail (.redeclared name.name) name.span
    else bindName name.name d
  | .assign target value _ => do
    let d ← datumOf limits value
    if Entries.contains (← get).globals target.name then bindName target.name d
    else fail (.undeclared target.name) target.span
  | .expression value => do
    let _ ← datumOf limits value

def statements (limits : Limits) (root : String) : List Statement → EvalM Unit
  | [] => return ()
  | s :: rest => do
    statement limits root s
    statements limits root rest

def initial (schema : Schema) : Scope where
  globals :=
    let constants := schema.constants.map fun c => (c.name, Datum.sentinel ⟨c.name, c.value⟩)
    Entries.put (Entries.ofList constants) schema.root.name .undefined
  frames := []
  depth := 0

end Eval

/-- The value that a checked program gives the root binding. -/
def CheckedProgram.evaluate (limits : Limits) (checked : CheckedProgram) :
    Except EvalError Value :=
  let root := checked.schema.root.name
  let (result, scope) :=
    (Eval.statements limits root checked.program.statements).run (Eval.initial checked.schema)
  match result with
  | .error f => .error (.ofFault checked.program.source f)
  | .ok () =>
    (((Entries.get? scope.globals root).getD .undefined).toValue root).mapError .unserializable

end TypedConfig
