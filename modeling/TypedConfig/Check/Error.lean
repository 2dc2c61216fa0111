import TypedConfig.Diagnostic
import TypedConfig.Source

/-! # Check errors -/

namespace TypedConfig

/-- A place of a value where something else was expected than what the program has. -/
structure CheckError where
  path : String
  expected : String
  found : String
  span : Span
  note : Option String
deriving DecidableEq, Repr

namespace CheckError

def message (e : CheckError) : String :=
  e.path ++ ": expected " ++ e.expected ++ ", found " ++ e.found

def diagnostic (e : CheckError) : Diagnostic := ⟨"pipetype::check", e.message, e.note⟩

/-- The line and the column that an error begins at. -/
def location (source : Source) (e : CheckError) : Location :=
  .resolve source.text e.span.start

/-- A list without the elements that equal the one before them. -/
def dropRepeats : List CheckError → List CheckError
  | [] => []
  | [e] => [e]
  | e :: f :: es => if e = f then dropRepeats (f :: es) else e :: dropRepeats (f :: es)

/-- Errors in the order of their places, those of one place in their own order, and none
twice in a row. -/
def arrange (es : List CheckError) : List CheckError :=
  dropRepeats (es.mergeSort fun a b => decide (a.span.start ≤ b.span.start))

end CheckError

/-- The errors of a program that does not conform to its schema. -/
structure CheckFailure where
  source : Source
  errors : List CheckError

namespace CheckFailure

def message (f : CheckFailure) : String :=
  let count :=
    if f.errors.length = 1 then "1 type error" else toString f.errors.length ++ " type errors"
  count ++ " found in " ++ f.source.name

def diagnostic (f : CheckFailure) : Diagnostic :=
  { code := "pipetype::check::failed"
    message := f.message
    help := some "Fix the reported values; no output is written while errors remain" }

end CheckFailure

end TypedConfig
