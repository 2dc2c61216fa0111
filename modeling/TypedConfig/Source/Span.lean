import TypedConfig.Text.Units

/-! # Places in a source text

A span is a range of byte offsets into a source text in UTF-8; a location is the line and the
column, in characters, at which an offset stands.
-/

namespace TypedConfig

/-- The bytes from `start` up to and not including `stop`. -/
structure Span where
  start : Nat
  stop : Nat
deriving DecidableEq, Repr, Inhabited

namespace Span

/-- The empty span at an offset. -/
def point (offset : Nat) : Span := ⟨offset, offset⟩

def join (a b : Span) : Span := ⟨min a.start b.start, max a.stop b.stop⟩

def length (s : Span) : Nat := s.stop - s.start

def isEmpty (s : Span) : Bool := s.length == 0

def shift (s : Span) (distance : Nat) : Span :=
  ⟨s.start + distance, s.stop + distance⟩

end Span

/-- A line and a column, both counted from one. -/
structure Location where
  line : Nat
  column : Nat
deriving DecidableEq, Repr, Inhabited

namespace Location

/-- The location reached from `here` by passing the characters that start before an offset;
`left` is the number of bytes from the first of them to that offset. -/
def advance (here : Location) : List Char → Nat → Location
  | _, 0 => here
  | [], _ => here
  | c :: cs, left + 1 =>
    let next := if c = '\n' then ⟨here.line + 1, 1⟩ else { here with column := here.column + 1 }
    advance next cs (left + 1 - c.utf8Size)

/-- The location of a byte offset, or of the end of the text if the offset is beyond it. -/
def resolve (source : String) (offset : Nat) : Location :=
  advance ⟨1, 1⟩ source.toList offset

def render (l : Location) : String := toString l.line ++ ":" ++ toString l.column

end Location

end TypedConfig
