import TypedConfig.Check.Infer
import TypedConfig.Check.Match
import TypedConfig.Limits

/-! # Checking programs

A program is run over shapes, one statement after another. Each shape that is assigned to the
root binding is matched against the root type, and the program has to assign it at least once.
-/

namespace TypedConfig

/-- A program that conforms to a schema, with the alternatives that its values were matched
against. -/
structure CheckedProgram where
  schema : Schema
  program : Program
  resolutions : List Resolution

namespace Check

/-- What is bound before the first statement: the constants and the root binding. -/
def initialGlobals (schema : Schema) : Entries Binding :=
  let constants := schema.constants.map fun c =>
    (c.name, (⟨.constant, .sentinel default ⟨c.name, c.value⟩⟩ : Binding))
  Entries.put (Entries.ofList constants) schema.root.name ⟨.root, .undefined default⟩

def initial (schema : Schema) : State where
  globals := initialGlobals schema
  frames := []
  depth := 0
  calls := 0
  context := schema.root.name
  errors := []

/-- The shape of an expression that stands outside of calls. -/
def shapeOf (limits : Limits) (e : Expr) : CheckM Shape :=
  infer (fun ps b fs as s => call limits.maxDepth limits.maxDepth ps b fs as s) e

def setContext (context : String) : CheckM Unit :=
  modify fun s => { s with context := context }

def bindName (name : String) (binding : Binding) : CheckM Unit :=
  modify fun s => { s with globals := Entries.put s.globals name binding }

def roleOf? (name : String) : CheckM (Option Role) := do
  return (Entries.get? (← get).globals name).map Binding.role

/-- What was expected and what was found where a name cannot be declared: a name is new, or both
declarations are by `var`, as the root's own counts. -/
def redeclared? (kind : BindingKind) (name : String) : Option Role → Option (String × String)
  | none => none
  | some .root =>
    if kind = .var then none
    else
      some ("an assignment `" ++ name ++ " = ...`",
        "`" ++ name ++ "` redeclared; it is declared by the schema")
  | some .constant => some ("a new name", "`" ++ name ++ "`, which is a schema constant")
  | some (.declared previous) =>
    if previous = .var ∧ kind = .var then none
    else some ("a new name", "`" ++ name ++ "`, which is already declared")

/-- What was expected and what was found where a name cannot be assigned to. -/
def unassignable? (name : String) : Option Role → Option (String × String)
  | none => some ("a declared variable", "undeclared `" ++ name ++ "`")
  | some .root => none
  | some .constant => some ("an assignable variable", "constant `" ++ name ++ "`")
  | some (.declared kind) =>
    if kind.isMutable then none else some ("an assignable variable", "constant `" ++ name ++ "`")

/-- Assigns the root binding; gives the alternatives that the value was matched against. -/
def assignRoot (limits : Limits) (schema : Schema) (value : Expr) :
    CheckM (List Resolution) := do
  let root := schema.root
  setContext root.name
  let shape ← shapeOf limits value
  let outcome := Match.conform schema root.type shape root.name
  modify fun s => { s with errors := outcome.errors.reverse ++ s.errors }
  bindName root.name ⟨.root, shape⟩
  return outcome.resolutions

/-- Checks a statement. If it assigns the root binding, gives what came of that. -/
def statement (limits : Limits) (schema : Schema) : Statement → CheckM (Option (List Resolution))
  | .declare kind name init _ => do
    setContext name.name
    let role ← roleOf? name.name
    match redeclared? kind name.name role with
    | some (expected, found) =>
      report expected found name.span
      return none
    | none =>
      match role, init with
      | some .root, some value => some <$> assignRoot limits schema value
      | some .root, none => return none
      | _, some value =>
        let shape ← shapeOf limits value
        bindName name.name ⟨.declared kind, shape⟩
        return none
      | _, none =>
        bindName name.name ⟨.declared kind, .undefined name.span⟩
        return none
  | .assign target value _ => do
    setContext target.name
    match ← roleOf? target.name with
    | some .root => some <$> assignRoot limits schema value
    | role =>
      let shape ← shapeOf limits value
      match unassignable? target.name role, role with
      | some (expected, found), _ => report expected found target.span
      | none, some role => bindName target.name ⟨role, shape⟩
      | none, none => pure ()
      return none
  | .expression value => do
    setContext ""
    let _ ← shapeOf limits value
    return none

/-- Checks statements in turn; gives what came of each assignment of the root binding. -/
def statements (limits : Limits) (schema : Schema) :
    List Statement → CheckM (List (List Resolution))
  | [] => return []
  | s :: rest => do
    let first ← statement limits schema s
    let more ← statements limits schema rest
    return first.toList ++ more

/-- The error of a program that never assigns the root binding, at its end. -/
def unassigned (root : RootBinding) (source : Source) : CheckError :=
  { path := root.name
    expected := root.type.text
    found := "no assignment to `" ++ root.name ++ "`"
    span := .point source.text.utf8ByteSize
    note := some ("Assign the pipeline with `" ++ root.name ++ " = [...]`") }

end Check

def Program.check (limits : Limits) (schema : Schema) (program : Program) :
    Except CheckFailure CheckedProgram :=
  let (assignments, state) :=
    (Check.statements limits schema program.statements).run (Check.initial schema)
  let missing := if assignments.isEmpty then [Check.unassigned schema.root program.source] else []
  let errors := CheckError.arrange (state.errors.reverse ++ missing)
  if errors.isEmpty then .ok ⟨schema, program, assignments.flatten⟩
  else .error ⟨program.source, errors⟩

end TypedConfig
