import TypedConfig.Document.Emit
import TypedConfig.Toml

/-! # Configuration

What a configuration file sets: the schema to use, the form of documents and the limits. A key
that has no meaning is refused. A table may also be written as an array of its values in order.
-/

namespace TypedConfig

structure OutputConfig where
  format : Option Format
  wrapRoot : Option Bool
deriving DecidableEq, Repr

structure Config where
  /-- The path of the declarations; the bundled schema if it is not set. -/
  schema : Option String
  output : Option OutputConfig
  limits : Option LimitOverrides
deriving DecidableEq, Repr

inductive ConfigError
  | invalid
  | unreadable (path : String)
deriving DecidableEq, Repr

namespace ConfigError

def message : ConfigError → String
  | invalid => "Invalid configuration"
  | unreadable path => "Failed to read configuration file " ++ path

def diagnostic (e : ConfigError) : Diagnostic :=
  match e with
  | invalid =>
    { code := "pipetype::config::parse"
      message := e.message
      help := some ("Supported keys: schema, [output] format/wrap_root, " ++
        "[limits] max_source_bytes/max_depth/max_output_bytes") }
  | unreadable _ =>
    { code := "pipetype::config::io"
      message := e.message
      help := some "Check file permissions and ensure the path exists" }

end ConfigError

namespace Config

open Toml (Table Node)

def empty : Config := ⟨none, none, none⟩

instance : Inhabited Config := ⟨empty⟩

/-- The file that is read when no other is named. -/
def fileName : String := "pipetype.toml"

def onlyKeys (known : List String) (es : Table) : Bool := es.all fun e => known.contains e.1

/-- The value under a key, if it is set, by a reader of values. -/
def setting? {α : Type} (read : Node → Option α) (es : Table) (key : String) :
    Option (Option α) :=
  match Entries.get? es key with
  | none => some none
  | some v => (read v).map some

def text? : Node → Option String
  | .string s => some s
  | _ => none

def flag? : Node → Option Bool
  | .boolean b => some b
  | _ => none

def size? : Node → Option Nat
  | .integer n => if 0 ≤ n ∧ n.toNat < Nat.pow 2 64 then some n.toNat else none
  | _ => none

def formatOfName? (name : String) : Option Format :=
  if name = "yaml" then some .yaml else if name = "json" then some .json else none

/-- A format by its name, which may also be the one key of a table with nothing under it. -/
def format? : Node → Option Format
  | .string name => formatOfName? name
  | .table _ [(name, .table _ [])] => formatOfName? name
  | .table _ [(name, .array [])] => formatOfName? name
  | _ => none

def output? : Node → Option OutputConfig
  | .table _ es => do
    if onlyKeys ["format", "wrap_root"] es then
      return ⟨← setting? format? es "format", ← setting? flag? es "wrap_root"⟩
    else none
  | .array (format :: wrapRoot :: _) => do
    return ⟨some (← format? format), some (← flag? wrapRoot)⟩
  | _ => none

def limits? : Node → Option LimitOverrides
  | .table _ es => do
    if onlyKeys ["max_source_bytes", "max_depth", "max_output_bytes"] es then
      return ⟨← setting? size? es "max_source_bytes", ← setting? size? es "max_depth",
        ← setting? size? es "max_output_bytes"⟩
    else none
  | .array (source :: depth :: output :: _) => do
    return ⟨some (← size? source), some (← size? depth), some (← size? output)⟩
  | _ => none

def ofTable? (es : Table) : Option Config := do
  if onlyKeys ["schema", "output", "limits"] es then
    return ⟨← setting? text? es "schema", ← setting? output? es "output",
      ← setting? limits? es "limits"⟩
  else none

/-- The configuration that the text of a file sets. -/
def ofText (text : String) : Except ConfigError Config :=
  match (Toml.parse text).bind ofTable? with
  | some config => .ok config
  | none => .error .invalid

/-- The format of documents; YAML if it is not set. -/
def outputFormat (c : Config) : Format := (c.output.bind OutputConfig.format).getD .yaml

def wrapRoot (c : Config) : Bool := (c.output.bind OutputConfig.wrapRoot).getD false

def sizes (c : Config) : Limits :=
  match c.limits with
  | some overrides => Limits.standard.override overrides
  | none => .standard

def layout (c : Config) : Layout := ⟨c.outputFormat, c.wrapRoot, c.sizes⟩

end Config

end TypedConfig
