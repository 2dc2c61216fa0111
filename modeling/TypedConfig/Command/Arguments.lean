import TypedConfig.Command

/-! # Arguments of commands

Reads the words of a command line. Options may stand before and after the names of programs; a
double dash ends them. A value is looked at when the next option begins, so that of two faults the
one that is met first is not always the one that is reported.
-/

namespace TypedConfig

/-- Why arguments do not make an invocation; asking for help is one of the reasons. -/
inductive ArgumentError
  | help
  | version
  | nothingGiven
  | missingCommand
  | missingPrograms
  | unknownCommand (word : String)
  | unknownArgument (word : String)
  | badValue (option value : String)
  | repeatedOption (option : String)
  | needlessValue (option : String)
deriving DecidableEq, Repr

namespace ArgumentError

/-- Help and version are what was asked for; all else is an error of usage. -/
def exitCode : ArgumentError → Nat
  | help | version => 0
  | _ => 2

def message : ArgumentError → String
  | help => "help was asked for"
  | version => "the version was asked for"
  | nothingGiven => "no arguments are given"
  | missingCommand => "a command is missing"
  | missingPrograms => "the names of programs are missing"
  | unknownCommand word => s!"unknown command `{word}`"
  | unknownArgument word => s!"unexpected argument `{word}`"
  | badValue option value => s!"invalid value `{value}` for `{option}`"
  | repeatedOption option => s!"`{option}` is given more than once"
  | needlessValue option => s!"`{option}` takes no value"

/-- The forms that arguments take. -/
def usage : String := "\n".intercalate [
  "Usage: pipetype [OPTIONS] <COMMAND>",
  "",
  "  compile [-s FILE] [-o PATH] [-f yaml|json] [--wrap-root] PROGRAMS...",
  "  check [-s FILE] [--explain] PROGRAMS...",
  "  schema [-s FILE]",
  "",
  "  -c, --config FILE  -l, --log-level LEVEL  --log-format FORMAT  -h, --help  -V, --version"]

def versionText : String := "pipetype 0.3.0"

/-- What is shown in answer to the arguments. -/
def shown : ArgumentError → String
  | help | nothingGiven => usage
  | version => versionText
  | e => "error: " ++ e.message ++ "\n\n" ++ usage

end ArgumentError

namespace Arguments

inductive Flag
  | config
  | logLevel
  | logFormat
  | schema
  | out
  | format
  | wrapRoot
  | explain
  | help
  | version
deriving DecidableEq, Repr

namespace Flag

def long : Flag → String
  | config => "config"
  | logLevel => "log-level"
  | logFormat => "log-format"
  | schema => "schema"
  | out => "out"
  | format => "format"
  | wrapRoot => "wrap-root"
  | explain => "explain"
  | help => "help"
  | version => "version"

def short? : Flag → Option Char
  | config => some 'c'
  | logLevel => some 'l'
  | schema => some 's'
  | out => some 'o'
  | format => some 'f'
  | help => some 'h'
  | version => some 'V'
  | _ => none

def takesValue : Flag → Bool
  | wrapRoot | explain | help | version => false
  | _ => true

/-- Whether a value of an option is one that it may have; paths are any but the empty one. -/
def admits : Flag → String → Bool
  | logLevel, v => ["trace", "debug", "info", "warn", "error"].contains v
  | logFormat, v => ["pretty", "compact", "json"].contains v
  | format, v => ["yaml", "json"].contains v
  | _, v => !v.isEmpty

end Flag

/-- The words that options and programs belong to: those before the command, or a command. -/
inductive Level
  | front
  | compile
  | check
  | schema
deriving DecidableEq, Repr

namespace Level

def flags : Level → List Flag
  | front => [.config, .logLevel, .logFormat, .help, .version]
  | compile => [.config, .logLevel, .logFormat, .help, .schema, .out, .format, .wrapRoot]
  | check => [.config, .logLevel, .logFormat, .help, .schema, .explain]
  | schema => [.config, .logLevel, .logFormat, .help, .schema]

def takesPrograms : Level → Bool
  | compile | check => true
  | _ => false

def ofName? : String → Option Level
  | "compile" => some compile
  | "check" => some check
  | "schema" => some schema
  | _ => none

def long? (l : Level) (name : String) : Option Flag := l.flags.find? fun f => f.long == name

def short? (l : Level) (c : Char) : Option Flag := l.flags.find? fun f => f.short? == some c

end Level

/-- Words that have been taken but not looked at. -/
inductive Pending
  | nothing
  | option (flag : Flag) (value : Option String)
  | programs (names : List String)

structure Given where
  options : List (Flag × String)
  programs : List String
  pending : Pending

namespace Given

def empty : Given := ⟨[], [], .nothing⟩

def set (g : Given) (f : Flag) (value : String) : Except ArgumentError Given :=
  if g.options.any (·.1 == f) then .error (.repeatedOption f.long)
  else if f.takesValue && !f.admits value then .error (.badValue f.long value)
  else .ok { g with options := (f, value) :: g.options }

def settle (g : Given) : Except ArgumentError Given :=
  let rest := { g with pending := .nothing }
  match g.pending with
  | .nothing => .ok rest
  | .option f (some value) => rest.set f value
  | .option f none => .error (.badValue f.long "")
  | .programs names =>
    if names.contains "" then .error (.badValue "programs" "")
    else .ok { rest with programs := g.programs ++ names }

def takeFlag (g : Given) (f : Flag) : Except ArgumentError Given := do
  let g ← g.settle
  match f with
  | .help => throw .help
  | .version => throw .version
  | f => g.set f ""

/-- Takes an option whose value, if it is not in the same word, is the next one. -/
def takeOption (g : Given) (f : Flag) (attached : Option String) : Except ArgumentError Given := do
  let g ← g.settle
  match attached with
  | some value => g.set f value
  | none => return { g with pending := .option f none }

def takeProgram (g : Given) (name : String) : Except ArgumentError Given :=
  match g.pending with
  | .programs names => .ok { g with pending := .programs (names ++ [name]) }
  | _ => do
    let g ← g.settle
    return { g with pending := .programs [name] }

def value? (g : Given) (f : Flag) : Option String := g.options.lookup f

def awaiting? (g : Given) : Option Flag :=
  match g.pending with
  | .option f none => some f
  | _ => none

end Given

/-- The characters before and after the first equals sign. -/
def cutEquals (cs : List Char) : String × Option String :=
  let name := String.ofList (cs.takeWhile (· != '='))
  match cs.dropWhile (· != '=') with
  | [] => (name, none)
  | _ :: value => (name, some (String.ofList value))

def takeLong (l : Level) (g : Given) (cs : List Char) : Except ArgumentError Given :=
  let (name, value) := cutEquals cs
  match l.long? name, value with
  | none, _ => .error (.unknownArgument ("--" ++ name))
  | some f, value =>
    if f.takesValue then g.takeOption f value
    else if value.isSome then .error (.needlessValue f.long)
    else g.takeFlag f

/-- Takes the letters of a word that begins with one dash. -/
def takeShort (l : Level) (g : Given) : List Char → Except ArgumentError Given
  | [] => .ok g
  | c :: cs =>
    match l.short? c with
    | none => .error (.unknownArgument ("-" ++ c.toString))
    | some f =>
      if f.takesValue then
        match cs with
        | [] => g.takeOption f none
        | '=' :: value => g.takeOption f (some (String.ofList value))
        | value => g.takeOption f (some (String.ofList value))
      else do
        let g ← g.takeFlag f
        takeShort l g cs

def takeWord (l : Level) (isTrailing : Bool) (g : Given) (word : String) :
    Except ArgumentError Given :=
  if l.takesPrograms then g.takeProgram word
  else
    match l with
    | .front =>
      if isTrailing ∧ ((Level.ofName? word).isSome ∨ word = "help") then
        .error (.unknownArgument word)
      else .error (.unknownCommand word)
    | _ => .error (.unknownArgument word)

/-- Takes a word before which no double dash stands. -/
def takeArgument (l : Level) (g : Given) (word : String) : Except ArgumentError Given :=
  match word.toList, g.awaiting? with
  | '-' :: '-' :: cs, _ => takeLong l g cs
  | '-' :: c :: cs, _ => takeShort l g (c :: cs)
  | _, some f => .ok { g with pending := .option f (some word) }
  | _, none => takeWord l false g word

def takeAll (l : Level) (g : Given) : List String → Except ArgumentError Given
  | [] => g.settle
  | "--" :: words => do
    let g ← words.foldlM (takeWord l true) g
    g.settle
  | word :: words => do
    let g ← takeArgument l g word
    takeAll l g words

def command (l : Level) (words : List String) : Except ArgumentError (Given × Command) := do
  let g ← takeAll l .empty words
  if l.takesPrograms ∧ g.programs.isEmpty then throw .missingPrograms
  match l with
  | .compile =>
    return (g, .compile g.programs (g.value? .schema) (g.value? .out)
      ((g.value? .format).bind Config.formatOfName?) (g.value? .wrapRoot).isSome)
  | .check => return (g, .check g.programs (g.value? .schema) (g.value? .explain).isSome)
  | _ => return (g, .schema (g.value? .schema))

def helpOn : List String → ArgumentError
  | [] => .help
  | word :: words =>
    if (Level.ofName? word).isSome ∨ word = "help" then
      match words with
      | [] => .help
      | next :: _ => .unknownCommand next
    else .unknownCommand word

/-- The invocation that words give, after those before the command. What the command says of the
configuration file goes before what those say. -/
def invocation (g : Given) : List String → Except ArgumentError Invocation
  | [] => do
    let g ← g.settle
    throw (if g.options.isEmpty then .nothingGiven else .missingCommand)
  | word :: words => do
    if word = "--" ∧ words.isEmpty then
      let g ← g.settle
      throw (if g.options.isEmpty then .nothingGiven else .missingCommand)
    else if word = "--" then
      let _ ← takeAll .front g ("--" :: words)
      throw .missingCommand
    else if g.awaiting?.isNone ∧ word = "help" then throw (helpOn words)
    else
      match g.awaiting?, Level.ofName? word with
      | none, some l =>
        let (inner, c) ← command l words
        let g ← g.settle
        return ⟨inner.value? .config <|> g.value? .config, c⟩
      | _, _ =>
        let g ← takeArgument .front g word
        invocation g words

end Arguments

def Invocation.ofArguments (words : List String) : Except ArgumentError Invocation :=
  Arguments.invocation .empty words

end TypedConfig
