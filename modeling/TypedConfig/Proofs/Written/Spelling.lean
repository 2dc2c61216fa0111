import Mathlib.Algebra.Group.Nat.Defs
import TypedConfig.Program.Parse
import TypedConfig.Proofs.Layout.Bare

/-! # Writing programs down

A program is spelled as a list of tokens without places: imports first, every expression inside
another in parentheses, and each statement ended by a semicolon. The text of such a list has a
blank after each token and a line break after each semicolon.
-/

namespace TypedConfig

mutual

/-- A token to be written. The tokens of a template's holes are written with it. -/
inductive Spelled
  | name (text : String)
  | string (text : String)
  | number (value : Float)
  | template (pieces : List SpelledPiece)
  | punct (p : Punct)

inductive SpelledPiece
  | text (text : String)
  | hole (tokens : List Spelled)

end

namespace Spelled

def isPunct (t : Spelled) (p : Punct) : Bool :=
  match t with
  | punct q => q == p
  | _ => false

def endsLine (t : Spelled) : Bool := t.isPunct .semicolon

def quotedChar (c : Char) : List Char :=
  if c = '"' then ['\\', '"']
  else if c = '\\' then ['\\', '\\']
  else if c = '\n' then ['\\', 'n']
  else [c]

def templateChar (c : Char) : List Char :=
  if c = '\x60' ∨ c = '\\' ∨ c = '$' then ['\\', c] else [c]

def separator (t : Spelled) : Char := if t.endsLine then '\n' else ' '

mutual

def chars : Spelled → List Char
  | name text => text.toList
  | string text => '"' :: (text.toList.flatMap quotedChar ++ ['"'])
  | number x => (Number.stringText x).toList
  | template pieces => '\x60' :: (pieceChars pieces ++ ['\x60'])
  | punct p => p.text.toList

def pieceChars : List SpelledPiece → List Char
  | [] => []
  | .text s :: ps => s.toList.flatMap templateChar ++ pieceChars ps
  | .hole ts :: ps => '$' :: '\x7b' :: (lineChars ts ++ '\x7d' :: pieceChars ps)

/-- The characters of tokens, each with what stands behind it. -/
def lineChars : List Spelled → List Char
  | [] => []
  | t :: ts => chars t ++ separator t :: lineChars ts

end

def inParens (ts : List Spelled) : List Spelled :=
  .punct .leftParen :: (ts ++ [.punct .rightParen])

def separated : List (List Spelled) → List Spelled
  | [] => []
  | [ts] => ts
  | ts :: rest => ts ++ .punct .comma :: separated rest

end Spelled

open Spelled (inParens separated)

def UnaryOp.punct : UnaryOp → Punct
  | .not => .bang
  | .negate => .minus

def BinaryOp.punct : BinaryOp → Punct
  | .add => .plus
  | .subtract => .minus
  | .multiply => .star
  | .divide => .slash
  | .equal => .equal
  | .notEqual => .notEqual
  | .less => .less
  | .greater => .greater
  | .and => .and
  | .or => .or

def BindingKind.word : BindingKind → String
  | .const => "const"
  | .letVar => "let"
  | .var => "var"

namespace Expr

mutual

/-- The tokens of an expression, with all expressions inside it in parentheses. -/
def spell : Expr → List Spelled
  | string _ v => [.string v]
  | number _ x => [.number x]
  | boolean _ b => [.name (if b then "true" else "false")]
  | null _ => [.name "null"]
  | undefined _ => [.name "undefined"]
  | name _ n => [.name n]
  | template _ segments => [.template (spellSegments segments)]
  | array _ items =>
    .punct .leftBracket :: (separated (spellItems items) ++ [.punct .rightBracket])
  | object _ members =>
    .punct .leftBrace :: (separated (spellMembers members) ++ [.punct .rightBrace])
  | member _ o p => inParens (spell o) ++ [.punct .dot, .name p.name]
  | index _ o i =>
    inParens (spell o) ++ .punct .leftBracket :: (inParens (spell i) ++ [.punct .rightBracket])
  | call _ f args =>
    inParens (spell f) ++
      .punct .leftParen :: (separated (spellArguments args) ++ [.punct .rightParen])
  | arrow _ params body =>
    .punct .leftParen :: (separated (params.map fun p => [.name p.name]) ++
      .punct .rightParen :: .punct .arrow :: inParens (spell body))
  | unary _ op e => .punct op.punct :: inParens (spell e)
  | binary _ op l r => inParens (spell l) ++ .punct op.punct :: inParens (spell r)
  | conditional _ t c a =>
    inParens (spell t) ++
      .punct .question :: (inParens (spell c) ++ .punct .colon :: inParens (spell a))

def spellSegments : List TemplateSegment → List SpelledPiece
  | [] => []
  | .text s :: rest => .text s :: spellSegments rest
  | .hole e :: rest => .hole (inParens (spell e)) :: spellSegments rest

def spellItems : List ArrayItem → List (List Spelled)
  | [] => []
  | .item e :: rest => inParens (spell e) :: spellItems rest
  | .spread e :: rest => (.punct .ellipsis :: inParens (spell e)) :: spellItems rest

def spellMembers : List ObjectMember → List (List Spelled)
  | [] => []
  | .field key _ e :: rest =>
    (.string key :: .punct .colon :: inParens (spell e)) :: spellMembers rest
  | .spread e :: rest => (.punct .ellipsis :: inParens (spell e)) :: spellMembers rest

def spellArguments : List Expr → List (List Spelled)
  | [] => []
  | e :: es => inParens (spell e) :: spellArguments es

end

/-- The tokens of an expression that is part of a statement; it may stand in parentheses too. -/
def spellWhole (parens : Bool) (e : Expr) : List Spelled :=
  if parens then inParens e.spell else e.spell

end Expr

def ArrayItem.spell : ArrayItem → List Spelled
  | item e => inParens e.spell
  | spread e => .punct .ellipsis :: inParens e.spell

def ObjectMember.spell : ObjectMember → List Spelled
  | field key _ e => .string key :: .punct .colon :: inParens e.spell
  | spread e => .punct .ellipsis :: inParens e.spell

namespace Expr

theorem spellItems_eq_map (items : List ArrayItem) :
    spellItems items = items.map ArrayItem.spell := by
  induction items with
  | nil => rfl
  | cons i items ih => cases i <;> exact congrArg (List.cons _) ih

theorem spellMembers_eq_map (members : List ObjectMember) :
    spellMembers members = members.map ObjectMember.spell := by
  induction members with
  | nil => rfl
  | cons m members ih => cases m <;> exact congrArg (List.cons _) ih

theorem spellArguments_eq_map (args : List Expr) :
    spellArguments args = args.map fun e => inParens e.spell := by
  induction args with
  | nil => rfl
  | cons e args ih => exact congrArg (List.cons _) ih

end Expr

def Import.spell (i : Import) : List Spelled :=
  [.name "import", .string i.path, .punct .semicolon]

def Statement.spell (parens : Bool) : Statement → List Spelled
  | declare kind name none _ => [.name kind.word, .name name.name, .punct .semicolon]
  | declare kind name (some e) _ =>
    .name kind.word :: .name name.name :: .punct .assign ::
      (e.spellWhole parens ++ [.punct .semicolon])
  | assign target e _ =>
    .name target.name :: .punct .assign :: (e.spellWhole parens ++ [.punct .semicolon])
  | expression e => e.spellWhole parens ++ [.punct .semicolon]

namespace Program

def spell (parens : Bool) (p : Program) : List Spelled :=
  p.imports.flatMap Import.spell ++ p.statements.flatMap (Statement.spell parens)

/-- The text that a program is written as; whether the expressions of statements stand in
parentheses is free. -/
def writtenText (parens : Bool) (p : Program) : String :=
  String.ofList (Spelled.lineChars (p.spell parens))

end Program

/-- A name that the lexer reads as one and that is not reserved. -/
structure IsIdentifier (name : String) : Prop where
  valid : isName name.toList = true
  free : Program.reservedWords.contains name = false

/-- The expression of an item of an array. -/
def ArrayItem.value : ArrayItem → Expr
  | item e | spread e => e

/-- The expression of a member of an object. -/
def ObjectMember.value : ObjectMember → Expr
  | field _ _ e | spread e => e

def TemplateSegment.text? : TemplateSegment → Option String
  | text s => some s
  | hole _ => none

/-- Texts that are not empty and of which no two are neighbours. -/
def TextsApart : List (Option String) → Prop
  | [] => True
  | none :: rest => TextsApart rest
  | some s :: none :: rest => s ≠ "" ∧ TextsApart rest
  | [some s] => s ≠ ""
  | some _ :: some _ :: _ => False

/-- Pieces that a template is read as: one empty text, or some pieces with their texts apart. -/
def TemplateShape (texts : List (Option String)) : Prop :=
  texts = [some ""] ∨ texts ≠ [] ∧ TextsApart texts

namespace Expr

/-- Expressions that can be written: with names that are identifiers, parameters that differ,
templates as they are read, and whole numbers below the bound of exact ones. -/
inductive Writable : Expr → Prop
  | string (s : Span) (v : String) : Writable (.string s v)
  | number (s : Span) {n : Nat} (small : n < 2 ^ 53) : Writable (.number s (Float.ofNat n))
  | boolean (s : Span) (b : Bool) : Writable (.boolean s b)
  | null (s : Span) : Writable (.null s)
  | undefined (s : Span) : Writable (.undefined s)
  | name (s : Span) {n : String} (identifier : IsIdentifier n) : Writable (.name s n)
  | template (s : Span) {segments : List TemplateSegment}
    (shape : TemplateShape (segments.map TemplateSegment.text?))
    (holes : ∀ e, .hole e ∈ segments → Writable e) : Writable (.template s segments)
  | array (s : Span) {items : List ArrayItem} (values : ∀ i ∈ items, Writable i.value) :
    Writable (.array s items)
  | object (s : Span) {members : List ObjectMember} (values : ∀ m ∈ members, Writable m.value) :
    Writable (.object s members)
  | member (s : Span) {o : Expr} {p : Ident} (object : Writable o)
    (property : isName p.name.toList = true) : Writable (.member s o p)
  | index (s : Span) {o i : Expr} (object : Writable o) (position : Writable i) :
    Writable (.index s o i)
  | call (s : Span) {f : Expr} {args : List Expr} (callee : Writable f)
    (arguments : ∀ e ∈ args, Writable e) : Writable (.call s f args)
  | arrow (s : Span) {params : List Ident} {body : Expr}
    (identifiers : ∀ p ∈ params, IsIdentifier p.name)
    (differ : (params.map fun p => p.name).Nodup) (result : Writable body) :
    Writable (.arrow s params body)
  | unary (s : Span) (op : UnaryOp) {e : Expr} (operand : Writable e) : Writable (.unary s op e)
  | binary (s : Span) (op : BinaryOp) {l r : Expr} (left : Writable l) (right : Writable r) :
    Writable (.binary s op l r)
  | conditional (s : Span) {t c a : Expr} (test : Writable t) (consequent : Writable c)
    (alternate : Writable a) : Writable (.conditional s t c a)

end Expr

/-- Statements that can be written; a constant has a value. -/
inductive Statement.Writable : Statement → Prop
  | declare {kind : BindingKind} {name : Ident} {init : Option Expr} (s : Span)
    (identifier : IsIdentifier name.name) (value : kind = .const → init ≠ none)
    (expression : ∀ e ∈ init, e.Writable) : Writable (.declare kind name init s)
  | assign {target : Ident} {e : Expr} (s : Span) (identifier : IsIdentifier target.name)
    (expression : e.Writable) : Writable (.assign target e s)
  | expression {e : Expr} (expression : e.Writable) : Writable (.expression e)

/-- Programs that can be written. Imports and the keys of objects may be any texts. -/
def Program.Writable (p : Program) : Prop := ∀ s ∈ p.statements, s.Writable

end TypedConfig
