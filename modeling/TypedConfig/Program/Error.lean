import TypedConfig.Diagnostic
import TypedConfig.Limits
import TypedConfig.Program
import TypedConfig.Token.Lexer

/-! # Errors of programs -/

namespace TypedConfig

inductive ProgramCause
  | tooLarge (excess : LimitExceeded)
  | lexical (e : LexError)
  | expected (what found : String)
  | expectedEnd (found : String)
  | expectedPath (found : String)
  | expectedValue (found : String)
  | expectedReturn (found : String)
  | invalidTarget
  | duplicateParameter (name : String)
  | unclosedBody
  | unclosedBracket
  | unclosedBrace
  | unsupportedWord (word : String)
  | tooDeep (limit : Nat)
deriving DecidableEq, Repr

namespace ProgramCause

def expectation (what found : String) : String := "expected " ++ what ++ ", found " ++ found

def message : ProgramCause → String
  | tooLarge excess => excess.message
  | lexical e => e.message
  | expected what found => expectation what found
  | expectedEnd found => expectation "`;` or a line break" found
  | expectedPath found => expectation "module path" found
  | expectedValue found => expectation "`=`" found
  | expectedReturn found => expectation "`return`" found
  | invalidTarget => "invalid assignment target"
  | duplicateParameter name => s!"duplicate parameter `{name}`"
  | unclosedBody => "unclosed arrow function body"
  | unclosedBracket => "unclosed `[`"
  | unclosedBrace => "unclosed `\x7b`"
  | unsupportedWord word => s!"`{word}` is not supported in configuration programs"
  | tooDeep limit => s!"expression nesting exceeds maximum depth of {limit}"

/-- What to do about an error, where there is a general answer. -/
def help? : ProgramCause → Option String
  | expectedEnd _ => some "Put each statement on its own line or end it with `;`"
  | expectedPath _ =>
    some "Only side-effect imports such as `import \"./yaml/buildkite\";` are supported"
  | expectedValue _ => some "`const` declarations must be initialized"
  | expectedReturn _ =>
    some ("Block bodies may only contain `return <expression>`; wrap object results in " ++
      "parentheses: `x => (\x7b ... \x7d)`")
  | invalidTarget => some "Only plain variables can be assigned; build a new object instead"
  | _ => none

end ProgramCause

structure ProgramError where
  cause : ProgramCause
  sourceName : String
  location : Location
  span : Span
deriving DecidableEq, Repr

namespace ProgramError

def of (cause : ProgramCause) (source : Source) (span : Span) : ProgramError :=
  let span := source.clamp span
  ⟨cause, source.name, .resolve source.text span.start, span⟩

def message (e : ProgramError) : String :=
  e.cause.message ++ " at " ++ e.sourceName ++ ":" ++ e.location.render

def diagnostic (e : ProgramError) : Diagnostic :=
  ⟨"pipetype::program::parse", e.message, e.cause.help?⟩

end ProgramError

end TypedConfig
