import TypedConfig.Check.Error
import TypedConfig.Shape

/-! # The state of a check

While a program is checked, names are bound to shapes, calls are counted and errors collected.
The names of a call stand in frames, innermost first.
-/

namespace TypedConfig.Check

/-- What a name of the program is. -/
inductive Role
  | declared (kind : BindingKind)
  | root
  | constant
deriving DecidableEq, Repr

structure Binding where
  role : Role
  shape : Shape

structure State where
  globals : Entries Binding
  frames : List ShapeFrame
  /-- How many calls the present one is nested in, itself included. -/
  depth : Nat
  /-- How many calls have been made in all. -/
  calls : Nat
  /-- The path that errors in expressions are reported at. -/
  context : String
  /-- The errors found so far, the last first. -/
  errors : List CheckError

abbrev CheckM := StateM State

def maxCalls : Nat := 100000

def reportNoted (expected found : String) (span : Span) (note : Option String) : CheckM Unit :=
  modify fun s => { s with errors := ⟨s.context, expected, found, span, note⟩ :: s.errors }

def report (expected found : String) (span : Span) : CheckM Unit :=
  reportNoted expected found span none

/-- Records an error in place of a shape. -/
def refuse (expected found : String) (errorSpan span : Span) : CheckM Shape := do
  report expected found errorSpan
  return .unknown span

def reportBranches (span : Span) : CheckM Unit :=
  reportNoted ("at most " ++ toString Shape.maxBranches ++ " possible shapes")
    "an expression with more" span
    (some "Split the expression so each part has fewer alternatives")

/-- One of several shapes; an error if they are too many. -/
def oneOf (shapes : List Shape) (span : Span) : CheckM Shape :=
  match Shape.oneOf? shapes span with
  | some shape => return shape
  | none => do
    reportBranches span
    return .unknown span

/-- An array of known elements, or of any number of elements like them. -/
def arrayOf (items : List Shape) (isKnown : Bool) (span : Span) : CheckM Shape := do
  if isKnown then return .tuple span items
  else return .array span (← oneOf items span)

def inFrames? (frames : List ShapeFrame) (name : String) : Option Shape :=
  frames.findSome? fun f => Entries.get? f name

def State.lookup? (s : State) (name : String) : Option Shape :=
  match inFrames? s.frames name with
  | some shape => some shape
  | none => (Entries.get? s.globals name).map Binding.shape

/-- The frame of a call: a parameter without an argument is undefined. -/
def frameOf (span : Span) : List Ident → List Shape → ShapeFrame
  | [], _ => []
  | p :: ps, [] => Entries.put (frameOf span ps []) p.name (.undefined span)
  | p :: ps, a :: as => Entries.put (frameOf span ps as) p.name a

def inside {α : Type} (frames : List ShapeFrame) (work : CheckM α) : CheckM α := do
  let saved := (← get).frames
  modify fun s => { s with frames := frames, depth := s.depth + 1 }
  let result ← work
  modify fun s => { s with frames := saved, depth := s.depth - 1 }
  return result

end TypedConfig.Check
