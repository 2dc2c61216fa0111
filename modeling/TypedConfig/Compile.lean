import TypedConfig.Document.Emit
import TypedConfig.Eval
import TypedConfig.Program.Parse
import TypedConfig.Schema.Load

/-! # Compiling programs

A program is parsed, checked against a schema, evaluated and written as a document. Nothing is
written unless every stage succeeds.
-/

namespace TypedConfig

inductive CompileError
  | schema (e : SchemaError)
  | parse (e : ProgramError)
  | check (e : CheckFailure)
  | evaluate (e : EvalError)
  | emit (e : EmitError)

namespace CompileError

def stage : CompileError → String
  | schema _ => "schema"
  | parse _ => "parse"
  | check _ => "check"
  | evaluate _ => "evaluate"
  | emit _ => "emit"

def diagnostic : CompileError → Diagnostic
  | schema e => e.diagnostic
  | parse e => e.diagnostic
  | check e => e.diagnostic
  | evaluate e => e.diagnostic
  | emit e => e.diagnostic

def diagnostics : CompileError → List Diagnostic
  | check e => e.diagnostic :: e.errors.map CheckError.diagnostic
  | e => [e.diagnostic]

end CompileError

def checkSource (limits : Limits) (schema : Schema) (source : Source) :
    Except CompileError CheckedProgram := do
  let program ← (Program.parse limits source).mapError .parse
  (program.check limits schema).mapError .check

def compile (layout : Layout) (schema : Schema) (source : Source) :
    Except CompileError String := do
  let checked ← checkSource layout.limits schema source
  let value ← (checked.evaluate layout.limits).mapError .evaluate
  (layout.emit schema.root.name value).mapError .emit

def compileText (declarations program : String) : Except CompileError String := do
  let source : Source := ⟨Schema.defaultSourceName, declarations⟩
  let schema ← (Schema.load .standard [source]).mapError .schema
  compile .standard schema ⟨Program.defaultSourceName, program⟩

end TypedConfig
