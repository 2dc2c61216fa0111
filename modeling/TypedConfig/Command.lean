import TypedConfig.Command.Error
import TypedConfig.Files
import TypedConfig.Schema.Bundled

/-! # Commands

What the commands do: compile programs to documents, check them, and show a schema. Documents are
written only after all programs have been compiled without errors.
-/

namespace TypedConfig

inductive Command
  | compile (programs : List String) (schema out : Option String) (format : Option Format)
      (wrapRoot : Bool)
  | check (programs : List String) (schema : Option String) (explain : Bool)
  | schema (schema : Option String)
deriving DecidableEq, Repr

/-- A command and the configuration file that is named for it. -/
structure Invocation where
  config : Option String
  command : Command
deriving DecidableEq, Repr

namespace Command

variable {m : Type → Type} [Monad m] [FileSystem m]

/-- What has to do with files and may fail. -/
abbrev Work (m : Type → Type) := ExceptT CommandError m

def read (path : String) : Work m String := do
  match ← FileSystem.read? path with
  | some text => return text
  | none => throw (.files .read path)

/-- The configuration of a named file, or of the standard one if it is there. -/
def loadConfig (path : Option String) : Work m Config := do
  match path with
  | some path =>
    match ← FileSystem.read? path with
    | some text => liftExcept ((Config.ofText text).mapError .config)
    | none => throw (.config (.unreadable path))
  | none =>
    if ← FileSystem.isFile Config.fileName then
      match ← FileSystem.read? Config.fileName with
      | some text => liftExcept ((Config.ofText text).mapError .config)
      | none => throw (.config (.unreadable Config.fileName))
    else return .empty
where
  liftExcept {α : Type} (e : Except CommandError α) : Work m α := ExceptT.mk (pure e)

def loadSchema (config : Config) (named : Option String) : Work m Schema := do
  let source ←
    match named <|> config.schema with
    | some path => do
      let text ← read path
      pure (⟨path, text⟩ : Source)
    | none => pure Schema.Bundled.source
  match Schema.load config.sizes [source] with
  | .ok s => return s
  | .error e => throw (.compile (.schema e))

def readSources : List String → Work m (List Source)
  | [] => return []
  | path :: paths => do
    let text ← read path
    return ⟨path, text⟩ :: (← readSources paths)

def errorsOf {α : Type} : List (Except CompileError α) → List CompileError
  | [] => []
  | .error e :: rest => e :: errorsOf rest
  | .ok _ :: rest => errorsOf rest

def valuesOf {α : Type} : List (Except CompileError α) → List α
  | [] => []
  | .error _ :: rest => valuesOf rest
  | .ok a :: rest => a :: valuesOf rest

/-- The values of results of which none is an error. -/
def collect {α : Type} (results : List (Except CompileError α)) :
    Except CommandError (List α) :=
  match results, errorsOf results with
  | _, [] => .ok (valuesOf results)
  | [_], [e] => .error (.compile e)
  | _, errors => .error (.programs results.length errors)

def runAll {α : Type} (programs : List String) (stage : Source → Except CompileError α) :
    Work m (List α) := do
  let sources ← readSources programs
  match collect (sources.map stage) with
  | .ok values => return values
  | .error e => throw e

/-- The first two of some programs that have documents of one name. `seen` holds the programs
before them by the names of their documents. -/
def clash? (format : Format) (seen : Entries String) : List String → Option Misuse
  | [] => none
  | program :: rest =>
    let name := Path.documentName program format
    match Entries.get? seen name with
    | some first => some (.sameDocument first program name)
    | none => clash? format (Entries.put seen name program) rest

def write (path text : String) : Work m Unit := do
  if ← FileSystem.write path text then return () else throw (.files .write path)

def writeAll (directory : String) (format : Format) : List (String × String) → Work m Unit
  | [] => return ()
  | (program, document) :: rest => do
    write (Path.join directory (Path.documentName program format)) document
    writeAll directory format rest

def writeTo (target : String) (format : Format) (documents : List (String × String)) :
    Work m Unit := do
  match documents, ← FileSystem.isDirectory target with
  | [(_, document)], false => write target document
  | _, _ =>
    if ← FileSystem.makeDirectories target then writeAll target format documents
    else throw (.files .create target)

/-- What is wrong about where documents are to go, if anything. -/
def misuse? (programs : List String) (out : Option String) (format : Format) :
    Work m (Option Misuse) := do
  let isMissing ←
    match out with
    | some target => FileSystem.isFile target
    | none => pure true
  if 1 < programs.length ∧ isMissing then return some .needsDirectory
  else return if out.isSome then clash? format [] programs else none

/-- Compiles programs; gives the documents that are to be shown. -/
def compileAll (layout : Layout) (schema : Schema) (programs : List String)
    (out : Option String) : Work m String := do
  match ← misuse? programs out layout.format with
  | some e => throw (.misuse e)
  | none =>
    let documents ← runAll programs (TypedConfig.compile layout schema)
    match out with
    | none => return String.join documents
    | some target =>
      writeTo target layout.format (programs.zip documents)
      return ""

/-- The report on programs without errors, with the alternatives chosen in them if asked for. -/
def report (explain : Bool) : List (String × CheckedProgram) → String
  | [] => ""
  | (program, checked) :: rest =>
    let lines := (program ++ ": ok") ::
      if explain then checked.resolutions.map fun r => "  " ++ r.message else []
    String.join (lines.map (· ++ "\n")) ++ report explain rest

def checkAll (limits : Limits) (schema : Schema) (programs : List String) (explain : Bool) :
    Work m String := do
  let reports ← runAll programs (checkSource limits schema)
  return report explain (programs.zip reports)

def fieldLine (f : FieldInfo × Ty) : String :=
  "  " ++ f.1.name ++ (if f.1.optional then "?" else "") ++ ": " ++ f.2.text ++ ";"

def typeLines (d : TypeDeclaration) : List String :=
  match d.type with
  | .record _ fields =>
    ("interface " ++ d.name ++ " \x7b") :: fields.map fieldLine ++ ["\x7d"]
  | t => ["type " ++ d.name ++ " = " ++ t.text ++ ";"]

/-- The root binding, the types and the constants of a schema. -/
def summary (s : Schema) : String :=
  let root := "declare var " ++ s.root.name ++ ": " ++ s.root.type.text ++ ";"
  let constants := s.constants.map fun c =>
    "declare const " ++ c.name ++ " = " ++ c.value.literalText ++ ";"
  String.join ((root :: s.types.flatMap typeLines ++ constants).map (· ++ "\n"))

end Command

open Command in
/-- Runs a command; gives what it shows. -/
def Invocation.run {m : Type → Type} [Monad m] [FileSystem m] (i : Invocation) :
    Work m String := do
  let config ← loadConfig i.config
  match i.command with
  | .compile programs named out format wrapRoot =>
    let layout : Layout :=
      ⟨format.getD config.outputFormat, config.wrapRoot || wrapRoot, config.sizes⟩
    let s ← loadSchema config named
    compileAll layout s programs out
  | .check programs named explain =>
    let s ← loadSchema config named
    checkAll config.sizes s programs explain
  | .schema named =>
    let s ← loadSchema config named
    return summary s

end TypedConfig
