import TypedConfig.Source
import TypedConfig.Value

/-! # Evaluation errors -/

namespace TypedConfig

/-- Why an expression or a statement has no result. Kinds of data are given by their names. -/
inductive EvalCause
  | redeclared (name : String)
  | undeclared (name : String)
  | undefinedName (name : String)
  | arraySpread (kind : String)
  | objectSpread (kind : String)
  | negation (kind : String)
  | notFunction (kind : String)
  | notText (kind : String)
  | noProperty (name : String)
  | unreadable (property kind : String)
  | arrayBounds
  | textBounds
  | unindexable (kind position : String)
  | tooDeep (limit : Nat)
  | functionExpected (method : String)
  | separatorExpected (method : String)
  | noMethodOf (method kind : String)
  | notMethod (name kind : String)
  | noMethod (name : String)
  | operands (operator left right : String)
deriving DecidableEq, Repr

def EvalCause.message : EvalCause → String
  | redeclared name => s!"`{name}` cannot be redeclared"
  | undeclared name => s!"`{name}` is not declared"
  | undefinedName name => s!"`{name}` is not defined"
  | arraySpread kind => s!"cannot spread {kind} into an array"
  | objectSpread kind => s!"cannot spread {kind} into an object"
  | negation kind => s!"cannot negate {kind}"
  | notFunction kind => s!"{kind} is not a function"
  | notText kind => s!"cannot convert {kind} to a string"
  | noProperty name => s!"object has no property `{name}`"
  | unreadable property kind => s!"cannot read `{property}` of {kind}"
  | arrayBounds => "array index out of bounds"
  | textBounds => "string index out of bounds"
  | unindexable kind position => s!"cannot index {kind} with {position}"
  | tooDeep limit => s!"calls nested more than {limit} deep"
  | functionExpected method => s!"`.{method}` expects a function"
  | separatorExpected method => s!"`.{method}` expects a string separator"
  | noMethodOf method kind => s!"`.{method}` is not available on {kind}"
  | notMethod name kind => s!"`{name}` is a {kind}, not a function"
  | noMethod name => s!"object has no method `{name}`"
  | operands operator left right => s!"cannot apply `{operator}` to {left} and {right}"

/-- A cause and the place in the program that it is about. -/
structure Fault where
  cause : EvalCause
  span : Span
deriving DecidableEq, Repr

/-- Why a program has no value: something failed, or what it gives cannot stand in a document. -/
inductive EvalError
  | fault (cause : EvalCause) (sourceName : String) (location : Location) (span : Span)
  | unserializable (e : Unserializable)
deriving DecidableEq, Repr

namespace EvalError

def ofFault (source : Source) (f : Fault) : EvalError :=
  let span := source.clamp f.span
  .fault f.cause source.name (.resolve source.text span.start) span

def message : EvalError → String
  | fault cause sourceName location _ =>
    cause.message ++ " at " ++ sourceName ++ ":" ++ location.render
  | unserializable e => e.message

def diagnostic : EvalError → Diagnostic
  | unserializable e => e.diagnostic
  | e => ⟨"pipetype::eval", e.message, none⟩

end EvalError

end TypedConfig
