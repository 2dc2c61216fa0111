import TypedConfig.Token

/-! # Reading positions in a token list

A cursor stands before a token of a list that ends with an end token. The end token is never
passed.
-/

namespace TypedConfig

/-- The tokens ahead without the end token, the end token, and the span of the token passed
last, which is that of the first token while none has been passed. -/
structure Cursor where
  ahead : List Lexeme
  last : Lexeme
  previous : Span
deriving Inhabited

namespace Cursor

/-- The end token of a list: its last token if that is one, else a new one behind it. -/
def endOf (tokens : List Lexeme) : Lexeme :=
  match tokens.getLast? with
  | some l => if l.isEnd then l else .endAt (.point l.span.stop)
  | none => .endAt (.point 0)

/-- The tokens of a list without an end token at its end. -/
def body (tokens : List Lexeme) : List Lexeme :=
  match tokens.getLast? with
  | some l => if l.isEnd then tokens.dropLast else tokens
  | none => []

def ofTokens (tokens : List Lexeme) : Cursor :=
  let last := endOf tokens
  let ahead := body tokens
  ⟨ahead, last, (ahead.headD last).span⟩

def peekAt (c : Cursor) (n : Nat) : Lexeme := (c.ahead[n]?).getD c.last

def peek (c : Cursor) : Lexeme := c.ahead.headD c.last

/-- The cursor behind the next token. -/
def advance (c : Cursor) : Cursor :=
  match c.ahead with
  | [] => c
  | l :: ls => ⟨ls, c.last, l.span⟩

def atEnd (c : Cursor) : Bool := c.peek.isEnd

def atPunct (c : Cursor) (p : Punct) : Bool := c.peek.isPunct p

def atName (c : Cursor) (word : String) : Bool := c.peek.isName word

def punctAt (c : Cursor) (n : Nat) (p : Punct) : Bool := (c.peekAt n).isPunct p

/-- The cursor behind a punctuation, if that stands next. -/
def eatPunct? (c : Cursor) (p : Punct) : Option Cursor :=
  if c.atPunct p then some c.advance else none

def eatName? (c : Cursor) (word : String) : Option Cursor :=
  if c.atName word then some c.advance else none

@[simp] theorem peekAt_zero (c : Cursor) : c.peekAt 0 = c.peek := by
  cases c with
  | mk ahead => cases ahead <;> rfl

end Cursor

end TypedConfig
