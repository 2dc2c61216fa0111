import TypedConfig.Source.Span

/-! # Sources

A source is a text with a name. Errors show the part of it that they are about.
-/

namespace TypedConfig

/-- A named text of declarations or of a program. -/
structure Source where
  name : String
  text : String
deriving DecidableEq, Repr, Inhabited

namespace Source

def clamp (s : Source) (span : Span) : Span :=
  let size := s.text.utf8ByteSize
  let start := min span.start size
  ⟨start, min (max span.stop start) size⟩

/-- The characters from one byte offset to another; nothing if one of them is inside a
character. -/
def slice (s : Source) (span : Span) : List Char :=
  ((dropBytes span.start s.text.toList).bind (takeBytes (span.stop - span.start))).getD []
where
  dropBytes : Nat → List Char → Option (List Char)
    | 0, cs => some cs
    | _, [] => none
    | n + 1, c :: cs => if c.utf8Size ≤ n + 1 then dropBytes (n + 1 - c.utf8Size) cs else none
  takeBytes : Nat → List Char → Option (List Char)
    | 0, _ => some []
    | _, [] => none
    | n + 1, c :: cs =>
      if c.utf8Size ≤ n + 1 then (takeBytes (n + 1 - c.utf8Size) cs).map (c :: ·) else none

end Source

end TypedConfig
