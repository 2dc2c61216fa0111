import TypedConfig.Number.Written
import TypedConfig.Source.Span
import TypedConfig.Text.Quoted

/-! # Tokens

The tokens that declarations and programs are made of. A template holds the tokens of its holes,
each list ended by its own end token.
-/

namespace TypedConfig

inductive Punct
  | leftBrace | rightBrace | leftBracket | rightBracket | leftParen | rightParen
  | less | greater | comma | semicolon | colon | question | pipe | assign | dot | ellipsis
  | arrow | plus | minus | star | slash | bang | equal | notEqual | and | or
deriving DecidableEq, Repr

def Punct.text : Punct → String
  | leftBrace => "\x7b"
  | rightBrace => "\x7d"
  | leftBracket => "["
  | rightBracket => "]"
  | leftParen => "("
  | rightParen => ")"
  | less => "<"
  | greater => ">"
  | comma => ","
  | semicolon => ";"
  | colon => ":"
  | question => "?"
  | pipe => "|"
  | assign => "="
  | dot => "."
  | ellipsis => "..."
  | arrow => "=>"
  | plus => "+"
  | minus => "-"
  | star => "*"
  | slash => "/"
  | bang => "!"
  | equal => "==="
  | notEqual => "!=="
  | and => "&&"
  | or => "||"

mutual

inductive Token
  | name (text : String)
  | string (text : String)
  | number (value : Float)
  | template (pieces : List Piece)
  | punct (p : Punct)
  | endOfInput

/-- A piece of a template: text with its escapes resolved, or the tokens of a hole. -/
inductive Piece
  | text (text : String)
  | hole (tokens : List Lexeme)

/-- A token with its place, the doc comment before it and whether a line ended before it. -/
inductive Lexeme
  | mk (token : Token) (span : Span) (doc : Option String) (newlineBefore : Bool)

end

instance : Inhabited Token := ⟨.endOfInput⟩

namespace Token

def describe : Token → String
  | name text => "`" ++ text ++ "`"
  | string text => "string " ++ Text.quoted text
  | number value => "number " ++ Number.positionalText value
  | template _ => "template literal"
  | punct p => "`" ++ p.text ++ "`"
  | endOfInput => "end of input"

def isEnd : Token → Bool
  | endOfInput => true
  | _ => false

def isPunct (t : Token) (p : Punct) : Bool :=
  match t with
  | punct q => q == p
  | _ => false

def isName (t : Token) (word : String) : Bool :=
  match t with
  | name text => text == word
  | _ => false

theorem eq_of_isPunct {t : Token} {p : Punct} (h : t.isPunct p = true) : t = punct p := by
  cases t with
  | punct q => exact congrArg punct (beq_iff_eq.1 h)
  | _ => cases h

end Token

namespace Lexeme

def token : Lexeme → Token
  | mk t _ _ _ => t

def span : Lexeme → Span
  | mk _ s _ _ => s

def doc : Lexeme → Option String
  | mk _ _ d _ => d

def newlineBefore : Lexeme → Bool
  | mk _ _ _ n => n

def endAt (s : Span) : Lexeme := mk .endOfInput s none false

instance : Inhabited Lexeme := ⟨endAt default⟩

def isEnd (l : Lexeme) : Bool := l.token.isEnd

def isPunct (l : Lexeme) (p : Punct) : Bool := l.token.isPunct p

def isName (l : Lexeme) (word : String) : Bool := l.token.isName word

end Lexeme

end TypedConfig
