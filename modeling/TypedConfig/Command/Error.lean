import TypedConfig.Compile
import TypedConfig.Config

/-! # Errors of commands -/

namespace TypedConfig

/-- Why arguments that can be read do not make sense together. -/
inductive Misuse
  | needsDirectory
  | sameDocument (first second name : String)
deriving DecidableEq, Repr

namespace Misuse

def message : Misuse → String
  | needsDirectory => "Several programs need an output directory"
  | sameDocument first second name => s!"{first} and {second} both compile to {name}"

def help : Misuse → String
  | needsDirectory => "Pass --out <DIR>; each document is named after its program"
  | sameDocument .. => "Rename one of the programs or compile them separately"

end Misuse

inductive FileOperation
  | read
  | write
  | create
deriving DecidableEq, Repr

def FileOperation.word : FileOperation → String
  | read => "read"
  | write => "write"
  | create => "create"

inductive CommandError
  | misuse (e : Misuse)
  | config (e : ConfigError)
  | files (operation : FileOperation) (path : String)
  | compile (e : CompileError)
  /-- Several programs, of which some have errors. -/
  | programs (total : Nat) (errors : List CompileError)

namespace CommandError

/-- Two for errors of usage and three for errors of schemas and programs. -/
def exitCode : CommandError → Nat
  | misuse _ | config _ | files .. => 2
  | compile _ | programs .. => 3

def diagnostic : CommandError → Diagnostic
  | misuse e => ⟨"pipetype::cli::usage", e.message, some e.help⟩
  | config e => e.diagnostic
  | files operation path =>
    ⟨"pipetype::cli::io", s!"Failed to {operation.word} {path}", none⟩
  | compile e => e.diagnostic
  | programs total errors =>
    { code := "pipetype::cli::failed"
      message := s!"{errors.length} of {total} programs failed"
      help := some "No output was written" }

def diagnostics : CommandError → List Diagnostic
  | compile e => e.diagnostics
  | programs total errors =>
    (programs total errors).diagnostic :: errors.flatMap CompileError.diagnostics
  | e => [e.diagnostic]

end CommandError

end TypedConfig
