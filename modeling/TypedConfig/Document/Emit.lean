import TypedConfig.Document.Finite
import TypedConfig.Document.Json
import TypedConfig.Document.Yaml
import TypedConfig.Limits

/-! # Documents

The document of a program's value, in either format, alone or under the name of the root
binding, and within the limit on its size.
-/

namespace TypedConfig

inductive Format
  | yaml
  | json
deriving DecidableEq, Repr, Inhabited

def Format.extension : Format → String
  | .yaml => "yml"
  | .json => "json"

inductive EmitError
  | unserializable (e : Unserializable)
  | tooLarge (e : LimitExceeded)
deriving DecidableEq, Repr

def EmitError.message : EmitError → String
  | unserializable e => e.message
  | tooLarge e => "Emitted document is too large: " ++ e.message

def EmitError.diagnostic : EmitError → Diagnostic
  | unserializable e => e.diagnostic
  | e =>
    { code := "pipetype::emit::too_large"
      message := e.message
      help := some "Raise [limits] max_output_bytes in pipetype.toml" }

/-- The form of a document. -/
structure Layout where
  format : Format
  wrapRoot : Bool
  limits : Limits
deriving DecidableEq, Repr, Inhabited

/-- Unwrapped, and within the standard limits. -/
def Layout.standard : Layout := ⟨.yaml, false, .standard⟩

def Format.write (f : Format) (path : String) (v : Value) : Except Unserializable String :=
  match f with
  | .yaml => Yaml.write path v
  | .json => do
    v.checkFinite path
    return Json.document v

/-- The value that a document holds, and the path of that value. -/
def Layout.content (l : Layout) (root : String) (v : Value) : Value × String :=
  if l.wrapRoot then (.record [(root, v)], "") else (v, root)

def Layout.emit (l : Layout) (root : String) (v : Value) : Except EmitError String := do
  let (content, path) := l.content root v
  let text ← (l.format.write path content).mapError .unserializable
  (l.limits.checkOutput text).mapError .tooLarge
  return text

end TypedConfig
