import TypedConfig.Token.Cursor

/-! # Reading from tokens

A reader takes tokens from the front of a cursor or fails at a place. A reader that repeats is
given a list and drops an element of it every round. As every round but the last takes a token,
the tokens ahead and the end token are enough.
-/

namespace TypedConfig

/-- A cause of failure and the place it concerns. -/
structure Located (ε : Type) where
  cause : ε
  span : Span
deriving DecidableEq, Repr

/-- A reader of tokens. -/
abbrev Reader (ε α : Type) := StateT Cursor (Except (Located ε)) α

namespace Reader

variable {ε : Type}

def fail {α : Type} (cause : ε) (span : Span) : Reader ε α := fun _ => .error ⟨cause, span⟩

def peek : Reader ε Lexeme := fun c => .ok (c.peek, c)

/-- Takes the next token. -/
def next : Reader ε Lexeme := fun c => .ok (c.peek, c.advance)

def previous : Reader ε Span := fun c => .ok (c.previous, c)

/-- One element for each token ahead and one for the end token. -/
def rounds : Reader ε (List Lexeme) := fun c => .ok (c.last :: c.ahead, c)

def atEnd : Reader ε Bool := fun c => .ok (c.atEnd, c)

def atPunct (p : Punct) : Reader ε Bool := fun c => .ok (c.atPunct p, c)

def punctAt (n : Nat) (p : Punct) : Reader ε Bool := fun c => .ok (c.punctAt n p, c)

def atName (word : String) : Reader ε Bool := fun c => .ok (c.atName word, c)

/-- Takes a punctuation if it stands next, and tells whether it did. -/
def eatPunct (p : Punct) : Reader ε Bool := fun c =>
  match c.eatPunct? p with
  | some d => .ok (true, d)
  | none => .ok (false, c)

/-- Takes a word if it stands next, and tells whether it did. -/
def eatName (word : String) : Reader ε Bool := fun c =>
  match c.eatName? word with
  | some d => .ok (true, d)
  | none => .ok (false, c)

/-- Takes every copy of some punctuations that stand next. -/
def skipPuncts (ps : List Punct) : Reader ε Unit := fun c =>
  .ok ((), go c.ahead c)
where
  go : List Lexeme → Cursor → Cursor
    | [], c => c
    | l :: ls, c => if ps.any l.isPunct then go ls c.advance else c

end Reader

end TypedConfig
