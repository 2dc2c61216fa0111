import TypedConfig.Text.Quoted

/-! # Paths to values

A path such as `steps[3].retry["a b"]` names a position in a value. Keys that are identifiers
follow a point, other keys stand quoted in brackets, and `[*]` is any index.
-/

namespace TypedConfig

/-- One step into a value. -/
inductive Segment
  | key (name : String)
  | index (position : Nat)
  | anyIndex
deriving DecidableEq, Repr

def isNameStart (c : Char) : Bool := c.isAlpha || c == '_' || c == '$'

def isNameContinue (c : Char) : Bool := c.isAlphanum || c == '_' || c == '$'

def isName : List Char → Bool
  | [] => false
  | c :: cs => isNameStart c && cs.all isNameContinue

namespace ValuePath

def append (parent : String) : Segment → String
  | .key name =>
    if isName name.toList then
      if parent.isEmpty then name else parent ++ "." ++ name
    else parent ++ "[" ++ Text.quoted name ++ "]"
  | .index i => parent ++ "[" ++ toString i ++ "]"
  | .anyIndex => parent ++ "[*]"

def appendAll (parent : String) (segments : List Segment) : String :=
  segments.foldl append parent

end ValuePath

end TypedConfig
