import TypedConfig.Source

/-! # Programs

A program binds names, one of them the root binding of a schema, to the values of expressions.
Every expression carries the span that it was written at.
-/

namespace TypedConfig

structure Ident where
  name : String
  span : Span
deriving DecidableEq, Repr, Inhabited

inductive UnaryOp
  | not
  | negate
deriving DecidableEq, Repr

inductive BinaryOp
  | add | subtract | multiply | divide | equal | notEqual | less | greater | and | or
deriving DecidableEq, Repr

namespace UnaryOp

def text : UnaryOp → String
  | not => "!"
  | negate => "-"

end UnaryOp

namespace BinaryOp

def text : BinaryOp → String
  | add => "+"
  | subtract => "-"
  | multiply => "*"
  | divide => "/"
  | equal => "==="
  | notEqual => "!=="
  | less => "<"
  | greater => ">"
  | and => "&&"
  | or => "||"

/-- How tightly an operator binds. -/
def precedence : BinaryOp → Nat
  | or => 1
  | and => 2
  | equal | notEqual => 3
  | less | greater => 4
  | add | subtract => 5
  | multiply | divide => 6

end BinaryOp

mutual

inductive Expr
  | string (span : Span) (value : String)
  | number (span : Span) (value : Float)
  | boolean (span : Span) (value : Bool)
  | null (span : Span)
  | undefined (span : Span)
  | name (span : Span) (name : String)
  | template (span : Span) (segments : List TemplateSegment)
  | array (span : Span) (items : List ArrayItem)
  | object (span : Span) (members : List ObjectMember)
  | member (span : Span) (object : Expr) (property : Ident)
  | index (span : Span) (object index : Expr)
  | call (span : Span) (callee : Expr) (arguments : List Expr)
  | arrow (span : Span) (params : List Ident) (body : Expr)
  | unary (span : Span) (op : UnaryOp) (operand : Expr)
  | binary (span : Span) (op : BinaryOp) (left right : Expr)
  | conditional (span : Span) (test consequent alternate : Expr)

inductive TemplateSegment
  | text (value : String)
  | hole (value : Expr)

inductive ArrayItem
  | item (value : Expr)
  | spread (value : Expr)

inductive ObjectMember
  | field (key : String) (keySpan : Span) (value : Expr)
  | spread (value : Expr)

end

namespace Expr

instance : Inhabited Expr := ⟨undefined default⟩

def span : Expr → Span
  | string s _ | number s _ | boolean s _ | null s | undefined s | name s _ | template s _
  | array s _ | object s _ | member s _ _ | index s _ _ | call s _ _ | arrow s _ _
  | unary s _ _ | binary s _ _ _ | conditional s _ _ _ => s

/-- The same expression at another place, as when it stands in parentheses. -/
def withSpan (s : Span) : Expr → Expr
  | string _ v => string s v
  | number _ v => number s v
  | boolean _ v => boolean s v
  | null _ => null s
  | undefined _ => undefined s
  | name _ n => name s n
  | template _ ts => template s ts
  | array _ is => array s is
  | object _ ms => object s ms
  | member _ o p => member s o p
  | index _ o i => index s o i
  | call _ f as => call s f as
  | arrow _ ps b => arrow s ps b
  | unary _ o e => unary s o e
  | binary _ o l r => binary s o l r
  | conditional _ t c a => conditional s t c a

end Expr

inductive BindingKind
  | const
  | letVar
  | var
deriving DecidableEq, Repr

/-- Whether a name so declared may be assigned to. -/
def BindingKind.isMutable : BindingKind → Bool
  | const => false
  | letVar | var => true

inductive Statement
  | declare (kind : BindingKind) (name : Ident) (init : Option Expr) (span : Span)
  | assign (target : Ident) (value : Expr) (span : Span)
  | expression (value : Expr)

structure Import where
  path : String
  span : Span
deriving DecidableEq, Repr

structure Program where
  source : Source
  imports : List Import
  statements : List Statement

end TypedConfig
