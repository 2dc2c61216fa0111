import TypedConfig.Diagnostic
import TypedConfig.Limits
import TypedConfig.Source
import TypedConfig.Token

/-! # Errors of schemas -/

namespace TypedConfig

/-- The number of characters of a construct that an error shows. -/
def shownLength : Nat := 60

inductive SchemaCause
  | malformed (text : String)
  | unsupported (text : String)
  | unknownType (name : String)
  | duplicateType (name : String)
  | duplicateField (record field : String)
  | duplicateConstant (name : String)
  | multipleRoots (first second : String)
  | conflictingRoot (name firstSource : String)
  | missingRoot
  | cyclicAlias (name : String)
  | tooDeep (limit : Nat)
  | tooLarge (excess : LimitExceeded)
deriving DecidableEq, Repr

namespace SchemaCause

def message : SchemaCause → String
  | malformed text => "syntax error: " ++ text
  | unsupported text => "unsupported construct: " ++ text
  | unknownType name => s!"unknown type `{name}`"
  | duplicateType name => s!"type `{name}` is declared more than once"
  | duplicateField record field =>
    s!"field `{field}` is declared more than once in `{record}`"
  | duplicateConstant name => s!"constant `{name}` is declared more than once"
  | multipleRoots first second =>
    s!"root binding `{second}` conflicts with root binding `{first}`"
  | conflictingRoot name firstSource =>
    s!"root binding `{name}` is already declared by `{firstSource}`"
  | missingRoot => "no root binding declared"
  | cyclicAlias name => s!"type alias `{name}` refers to itself"
  | tooDeep limit => s!"type nesting exceeds maximum depth of {limit}"
  | tooLarge excess => excess.message

/-- What to do about an error, where there is a general answer. -/
def help? : SchemaCause → Option String
  | conflictingRoot .. => some "Select one schema per invocation instead of loading both"
  | missingRoot => some "Declare the root binding, e.g. `declare var steps: Step[];`"
  | _ => none

end SchemaCause

/-- An error of declarations and the construct that it is about. -/
structure SchemaError where
  cause : SchemaCause
  construct : String
  sourceName : String
  sourceText : String
  location : Location
  span : Span
deriving DecidableEq, Repr

namespace SchemaError

def of (cause : SchemaCause) (source : Source) (span : Span) : SchemaError :=
  let span := source.clamp span
  { cause
    construct := String.ofList ((source.slice span).take shownLength)
    sourceName := source.name
    sourceText := source.text
    location := .resolve source.text span.start
    span }

def message (e : SchemaError) : String :=
  e.cause.message ++ " at " ++ e.sourceName ++ ":" ++ e.location.render

def diagnostic (e : SchemaError) : Diagnostic :=
  ⟨"pipetype::schema::parse", e.message, e.cause.help?⟩

end SchemaError

end TypedConfig
