import TypedConfig.Schema.Error
import TypedConfig.Schema.Term
import TypedConfig.Token.Lexer
import TypedConfig.Token.Reader

/-! # Declarations

A source of declarations defines types, constants and the root binding. The reader of type
expressions of each nesting level is built from the reader of the level inside it, so the limit
on nesting is the number of levels.
-/

namespace TypedConfig

/-- A declaration as it is written. -/
inductive Declaration
  | type (name : String) (body : TyTerm) (doc : Option String) (span : Span)
  | constant (name : String) (value : Scalar) (span : Span)
  | root (name : String) (body : TyTerm) (span : Span)

namespace Declaration

abbrev DeclReader := Reader SchemaCause

/-- Fails with what was expected before the next token. -/
def expectedBut {α : Type} (what : String) : DeclReader α := do
  let l ← Reader.peek
  Reader.fail (.malformed ("expected " ++ what ++ ", found " ++ l.token.describe)) l.span

def expect (p : Punct) : DeclReader Span := do
  if ← Reader.eatPunct p then Reader.previous
  else expectedBut ("`" ++ p.text ++ "`")

def expectName (what : String) : DeclReader (String × Span) := do
  let l ← Reader.peek
  match l.token with
  | .name text =>
    let _ ← Reader.next
    return (text, l.span)
  | _ => expectedBut what

def endStatement : DeclReader Unit := do
  let _ ← Reader.eatPunct .semicolon

/-- A literal: a text, a truth value or a number, which may have a minus sign. -/
def literalValue : DeclReader Scalar := do
  let negative ← Reader.eatPunct .minus
  let l ← Reader.next
  match l.token, negative with
  | .number x, true => return .number (-x)
  | .number x, false => return .number x
  | .string s, false => return .string s
  | t, _ =>
    if !negative && t.isName "true" then return .boolean true
    else if !negative && t.isName "false" then return .boolean false
    else Reader.fail (.malformed ("expected a literal value, found " ++ t.describe)) l.span

def indexSignature (inner : DeclReader TyTerm) : DeclReader (String × TyTerm) := do
  let (key, _) ← expectName "index key name"
  let _ ← expect .colon
  if !(← Reader.eatName "string") then
    Reader.fail (.unsupported "index signatures must use string keys") (← Reader.peek).span
  let _ ← expect .rightBracket
  let _ ← expect .colon
  return (key, ← inner)

def fieldTerm (inner : DeclReader TyTerm) : DeclReader (FieldInfo × TyTerm) := do
  let l ← Reader.next
  let name ←
    match l.token with
    | .name text | .string text => pure text
    | t => Reader.fail (.malformed ("expected field name, found " ++ t.describe)) l.span
  let optional ← Reader.eatPunct .question
  let _ ← expect .colon
  let t ← inner
  return (⟨name, optional, l.doc, l.span⟩, t)

/-- The type expression that members make: fields make a record, one index signature a map. -/
def ofMembers (owner : Option String) (brace : Span) (fields : List (FieldInfo × TyTerm))
    (index : Option (String × TyTerm)) : DeclReader TyTerm :=
  match index, fields with
  | none, _ => return .record owner fields
  | some (key, t), [] => return .map key t
  | some _, _ =>
    Reader.fail (.unsupported
      (owner.getD "object type" ++ " mixes named fields with an index signature")) brace

/-- Members up to the closing brace, after those already read. -/
def members (inner : DeclReader TyTerm) (owner : Option String) (brace : Span) :
    List Lexeme → List (FieldInfo × TyTerm) → Option (String × TyTerm) → DeclReader TyTerm
  | [], fields, index => ofMembers owner brace fields index
  | _ :: rounds, fields, index => do
    Reader.skipPuncts [.semicolon, .comma]
    if ← Reader.eatPunct .rightBrace then ofMembers owner brace fields index
    else if ← Reader.atEnd then
      Reader.fail (.malformed ("unclosed `\x7b` in " ++ owner.getD "object type")) brace
    else if ← Reader.eatPunct .leftBracket then
      let start ← Reader.previous
      let signature ← indexSignature inner
      if index.isSome then Reader.fail (.unsupported "more than one index signature") start
      else members inner owner brace rounds fields (some signature)
    else
      let (info, t) ← fieldTerm inner
      if fields.any (·.1.name == info.name) then
        Reader.fail (.duplicateField (owner.getD "object type") info.name) info.span
      else members inner owner brace rounds (fields ++ [(info, t)]) index

/-- Type names that stand for no type of a configuration. -/
def excludedNames : List String :=
  ["any", "unknown", "null", "undefined", "object", "never", "void"]

/-- The type expression that begins with a name, which has been taken. -/
def namedTerm (inner : DeclReader TyTerm) (word : String) (span : Span) : DeclReader TyTerm := do
  if word == "string" then return .scalar .string
  else if word == "number" then return .scalar .number
  else if word == "boolean" then return .scalar .boolean
  else if word == "true" then return .literal (.boolean true)
  else if word == "false" then return .literal (.boolean false)
  else if word == "Array" || word == "OneOrMany" then
    let _ ← expect .less
    let t ← inner
    let _ ← expect .greater
    return .sequence t (word == "OneOrMany")
  else if excludedNames.contains word then
    Reader.fail (.unsupported ("type `" ++ word ++ "`")) span
  else if ← Reader.atPunct .less then
    Reader.fail (.unsupported ("generic type `" ++ word ++ "<...>`")) span
  else return .reference ⟨word, span⟩

def primary (inner : DeclReader TyTerm) : DeclReader TyTerm := do
  let l ← Reader.peek
  match l.token with
  | .punct .leftParen =>
    let _ ← Reader.next
    let t ← inner
    let _ ← expect .rightParen
    return t
  | .punct .leftBrace =>
    let _ ← Reader.next
    members inner none l.span (← Reader.rounds) [] none
  | .string _ | .number _ | .punct .minus => return .literal (← literalValue)
  | .name word =>
    let _ ← Reader.next
    namedTerm inner word l.span
  | _ => expectedBut "a type"

/-- A sequence type for every pair of brackets that follows. -/
def bracketed : List Lexeme → TyTerm → DeclReader TyTerm
  | [], t => return t
  | _ :: rounds, t => do
    if (← Reader.atPunct .leftBracket) && (← Reader.punctAt 1 .rightBracket) then
      let _ ← Reader.next
      let _ ← Reader.next
      bracketed rounds (.sequence t false)
    else return t

def alternative (inner : DeclReader TyTerm) : DeclReader TyTerm := do
  bracketed (← Reader.rounds) (← primary inner)

def alternatives (inner : DeclReader TyTerm) : List Lexeme → DeclReader (List TyTerm)
  | [] => return []
  | _ :: rounds => do
    if ← Reader.eatPunct .pipe then
      let t ← alternative inner
      return t :: (← alternatives inner rounds)
    else return []

/-- One or more alternatives; a bar may lead. -/
def unionTerm (inner : DeclReader TyTerm) : DeclReader TyTerm := do
  let _ ← Reader.eatPunct .pipe
  let t ← alternative inner
  return .ofAlternatives (t :: (← alternatives inner (← Reader.rounds)))

/-- A type expression of which `levels` may still be nested; `limit` is how many there were at
the start. -/
def typeTerm (limit : Nat) : Nat → DeclReader TyTerm
  | 0, c => .error ⟨.tooDeep limit, c.peek.span⟩
  | levels + 1, c => unionTerm (fun c => typeTerm limit levels c) c

def interface (term : DeclReader TyTerm) (doc : Option String) : DeclReader Declaration := do
  let (name, span) ← expectName "interface name"
  let l ← Reader.peek
  if l.isName "extends" || l.isPunct .less then
    Reader.fail (.unsupported "interface inheritance and generics") l.span
  let brace ← expect .leftBrace
  let body ← members term (some name) brace (← Reader.rounds) [] none
  return .type name body doc span

def typeAlias (term : DeclReader TyTerm) (doc : Option String) : DeclReader Declaration := do
  let (name, span) ← expectName "type name"
  let _ ← expect .assign
  let body ← term
  endStatement
  return .type name body doc span

def typedConstant (term : DeclReader TyTerm) : DeclReader Scalar := do
  let start := (← Reader.peek).span
  let t ← term
  match t.type with
  | .literal [v] => return v
  | _ =>
    Reader.fail (.unsupported "constants must have a single literal type")
      (start.join (← Reader.previous))

/-- The value of a constant: a literal, or what its type fixes. -/
def constantValue (term : DeclReader TyTerm) : DeclReader Scalar := do
  if ← Reader.eatPunct .assign then literalValue
  else if ← Reader.eatPunct .colon then typedConstant term
  else Reader.fail (.malformed "expected `=` or `:` after constant name") (← Reader.peek).span

def constantDeclaration (term : DeclReader TyTerm) : DeclReader Declaration := do
  let (name, span) ← expectName "constant name"
  let value ← constantValue term
  endStatement
  return .constant name value span

/-- The root binding, after its keywords. `earlier` is the name of the binding before it. -/
def rootDeclaration (term : DeclReader TyTerm) (earlier : Option String) :
    DeclReader Declaration := do
  let (name, span) ← expectName "binding name"
  let _ ← expect .colon
  let body ← term
  endStatement
  match earlier with
  | some first =>
    if first == name then return .root name body span
    else Reader.fail (.multipleRoots first name) span
  | none => return .root name body span

/-- An import, after its keyword. Sources are combined by whoever loads them. -/
def importPath : DeclReader Unit := do
  let l ← Reader.next
  match l.token with
  | .string _ => endStatement
  | t =>
    Reader.fail (.malformed ("expected module path, found " ++ t.describe))
      (← Reader.peek).span

/-- A statement, which declares something unless it is an import. -/
def statement (term : DeclReader TyTerm) (earlier : Option String) :
    DeclReader (Option Declaration) := do
  let doc := (← Reader.peek).doc
  let _ ← Reader.eatName "export"
  if ← Reader.eatName "interface" then return some (← interface term doc)
  else if ← Reader.eatName "type" then return some (← typeAlias term doc)
  else if ← Reader.eatName "declare" then
    if ← Reader.eatName "const" then return some (← constantDeclaration term)
    else if ← Reader.eatName "var" then return some (← rootDeclaration term earlier)
    else if ← Reader.eatName "let" then return some (← rootDeclaration term earlier)
    else
      Reader.fail (.malformed "expected `const`, `var` or `let` after `declare`")
        (← Reader.peek).span
  else if ← Reader.eatName "import" then
    importPath
    return none
  else expectedBut "a declaration"

def rootName? : Declaration → Option String
  | root name .. => some name
  | _ => none

/-- All statements up to the end, after the declarations in `done`, last first. -/
def statements (term : DeclReader TyTerm) (earlier : Option String) (done : List Declaration) :
    List Lexeme → DeclReader (List Declaration)
  | [] => return done.reverse
  | _ :: rounds => do
    Reader.skipPuncts [.semicolon]
    if ← Reader.atEnd then return done.reverse
    else
      match ← statement term earlier with
      | some d => statements term (d.rootName? <|> earlier) (d :: done) rounds
      | none => statements term earlier done rounds

def ofTokens (maxDepth : Nat) (tokens : List Lexeme) :
    Except (Located SchemaCause) (List Declaration) :=
  let c := Cursor.ofTokens tokens
  (statements (typeTerm maxDepth maxDepth) none [] (c.last :: c.ahead) c).map Prod.fst

def references : Declaration → List Reference
  | type _ body .. | root _ body _ => body.references
  | constant .. => []

end Declaration

end TypedConfig
