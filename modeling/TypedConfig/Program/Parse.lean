import TypedConfig.Program.Error
import TypedConfig.Token.Reader

/-! # Reading programs

Statements end with a semicolon or a line break. Expressions nest to a limited depth: arrow
bodies, brackets, right operands and the operands of unary operators each take one level, and
the reader of a level is built from the reader of the level inside it.
-/

namespace TypedConfig

namespace Program

abbrev ProgramReader := Reader ProgramCause

def reservedWords : List String :=
  ["const", "let", "var", "import", "export", "return", "function", "if", "else", "for",
    "while", "new", "this", "class", "true", "false", "null", "undefined"]

def unsupportedWords : List String :=
  ["function", "new", "this", "class", "if", "for", "while", "return"]

def failBefore {α : Type} (cause : String → ProgramCause) : ProgramReader α := do
  let l ← Reader.peek
  Reader.fail (cause l.token.describe) l.span

def expect (p : Punct) : ProgramReader Span := do
  if ← Reader.eatPunct p then Reader.previous
  else failBefore (.expected ("`" ++ p.text ++ "`"))

def expectName (what : String) : ProgramReader Ident := do
  let l ← Reader.peek
  match l.token with
  | .name text =>
    if reservedWords.contains text then failBefore (.expected what)
    else
      let _ ← Reader.next
      return ⟨text, l.span⟩
  | _ => failBefore (.expected what)

/-- Takes the name of a property, which may be a reserved word. -/
def expectProperty : ProgramReader Ident := do
  let l ← Reader.peek
  match l.token with
  | .name text =>
    let _ ← Reader.next
    return ⟨text, l.span⟩
  | _ => failBefore (.expected "a property name")

/-! ### Expressions -/

/-- What is read on the next level of nesting: an expression, a right operand whose operators
bind at least as tightly as given, or the operand of a unary operator at a place. -/
inductive Goal
  | expression
  | rightOperand (least : Nat)
  | unaryOperand (mark : Span)

/-- A reader of the next level. -/
abbrev Inner := Goal → ProgramReader Expr

def closesParams : List Lexeme → Bool
  | l :: m :: _ => l.isPunct .rightParen && m.isPunct .arrow
  | _ => false

/-- Whether one or more names, with commas between them, and then a closing parenthesis and an
arrow stand next. -/
def namesParams : List Lexeme → Bool
  | l :: m :: ls =>
    (match l.token with
      | .name _ => true
      | _ => false) &&
      (if m.isPunct .comma then namesParams ls else closesParams (m :: ls))
  | _ => false

def beginsArrow : List Lexeme → Bool
  | l :: ls =>
    match l.token with
    | .name _ => (ls.head?.map (·.isPunct .arrow)).getD false
    | .punct .leftParen => closesParams ls || namesParams ls
    | _ => false
  | [] => false

def params : List Lexeme → ProgramReader (List Ident)
  | [] => return []
  | _ :: rounds => do
    if ← Reader.eatPunct .rightParen then return []
    else
      let p ← expectName "a parameter name"
      let _ ← Reader.eatPunct .comma
      return p :: (← params rounds)

/-- The first name that comes a second time. -/
def repeated? (seen : List String) : List Ident → Option Ident
  | [] => none
  | p :: ps => if seen.contains p.name then some p else repeated? (p.name :: seen) ps

/-- The body of an arrow function, bare or as the one `return` between braces. -/
def arrowBody (inner : Inner) : ProgramReader Expr := do
  if ← Reader.eatPunct .leftBrace then
    let brace ← Reader.previous
    if ← Reader.eatName "return" then
      let e ← inner .expression
      let _ ← Reader.eatPunct .semicolon
      if ← Reader.eatPunct .rightBrace then return e
      else Reader.fail .unclosedBody brace
    else failBefore .expectedReturn
  else inner .expression

def arrow (inner : Inner) : ProgramReader Expr := do
  let start := (← Reader.peek).span
  let ps ←
    if ← Reader.eatPunct .leftParen then params (← Reader.rounds)
    else
      let p ← expectName "a parameter name"
      pure [p]
  match repeated? [] ps with
  | some p => Reader.fail (.duplicateParameter p.name) p.span
  | none =>
    let _ ← expect .arrow
    let body ← arrowBody inner
    return .arrow (start.join (← Reader.previous)) ps body

/-- The binary operator that a token is. -/
def binaryOp? : Token → Option BinaryOp
  | .punct .or => some .or
  | .punct .and => some .and
  | .punct .equal => some .equal
  | .punct .notEqual => some .notEqual
  | .punct .less => some .less
  | .punct .greater => some .greater
  | .punct .plus => some .add
  | .punct .minus => some .subtract
  | .punct .star => some .multiply
  | .punct .slash => some .divide
  | _ => none

def arguments (inner : Inner) : List Lexeme → ProgramReader (List Expr)
  | [] => return []
  | _ :: rounds => do
    if ← Reader.eatPunct .rightParen then return []
    else if ← Reader.atEnd then failBefore (.expected "`)`")
    else
      let e ← inner .expression
      if ← Reader.eatPunct .comma then return e :: (← arguments inner rounds)
      else if ← Reader.atPunct .rightParen then return e :: (← arguments inner rounds)
      else failBefore (.expected "`,` or `)`")

def items (inner : Inner) (bracket : Span) : List Lexeme → ProgramReader (List ArrayItem)
  | [] => return []
  | _ :: rounds => do
    if ← Reader.eatPunct .rightBracket then return []
    else if ← Reader.atEnd then Reader.fail .unclosedBracket bracket
    else
      let i ←
        if ← Reader.eatPunct .ellipsis then
          let e ← inner .expression
          pure (ArrayItem.spread e)
        else
          let e ← inner .expression
          pure (ArrayItem.item e)
      if ← Reader.eatPunct .comma then return i :: (← items inner bracket rounds)
      else if ← Reader.atPunct .rightBracket then return i :: (← items inner bracket rounds)
      else failBefore (.expected "`,` or `]`")

/-- The key of an object member, and whether it may stand for the binding of that name. -/
def memberKey : ProgramReader (String × Span × Bool) := do
  let l ← Reader.next
  match l.token with
  | .name text => return (text, l.span, !reservedWords.contains text)
  | .string text => return (text, l.span, false)
  | .number x => return (Number.stringText x, l.span, false)
  | t => Reader.fail (.expected "a property name" t.describe) l.span

def objectMember (inner : Inner) : ProgramReader ObjectMember := do
  if ← Reader.eatPunct .ellipsis then return .spread (← inner .expression)
  else
    let (key, span, isName) ← memberKey
    if ← Reader.eatPunct .colon then return .field key span (← inner .expression)
    else if isName then return .field key span (.name span key)
    else failBefore (.expected "`:`")

def members (inner : Inner) (brace : Span) : List Lexeme → ProgramReader (List ObjectMember)
  | [] => return []
  | _ :: rounds => do
    if ← Reader.eatPunct .rightBrace then return []
    else if ← Reader.atEnd then Reader.fail .unclosedBrace brace
    else
      let m ← objectMember inner
      if ← Reader.eatPunct .comma then return m :: (← members inner brace rounds)
      else if ← Reader.atPunct .rightBrace then return m :: (← members inner brace rounds)
      else failBefore (.expected "`,` or `\x7d`")

/-- The expression of a template hole, which takes all its tokens. -/
def hole (inner : Inner) (tokens : List Lexeme) : Except (Located ProgramCause) Expr := do
  let (e, c) ← inner .expression (Cursor.ofTokens tokens)
  if c.atEnd then return e
  else .error ⟨.expected "`\x7d` closing the template hole" c.peek.token.describe, c.peek.span⟩

def segments (inner : Inner) : List Piece → Except (Located ProgramCause) (List TemplateSegment)
  | [] => return []
  | .text s :: ps => return .text s :: (← segments inner ps)
  | .hole tokens :: ps => do
    let e ← hole inner tokens
    return .hole e :: (← segments inner ps)

def word (text : String) (span : Span) : ProgramReader Expr :=
  if text == "true" then return .boolean span true
  else if text == "false" then return .boolean span false
  else if text == "null" then return .null span
  else if text == "undefined" then return .undefined span
  else if unsupportedWords.contains text then Reader.fail (.unsupportedWord text) span
  else return .name span text

def primary (inner : Inner) : ProgramReader Expr := do
  let l ← Reader.next
  match l.token with
  | .string s => return .string l.span s
  | .number x => return .number l.span x
  | .template ps => return .template l.span (← segments inner ps)
  | .name text => word text l.span
  | .punct .leftParen =>
    let e ← inner .expression
    let close ← expect .rightParen
    return e.withSpan (l.span.join close)
  | .punct .leftBracket =>
    let is ← items inner l.span (← Reader.rounds)
    return .array (l.span.join (← Reader.previous)) is
  | .punct .leftBrace =>
    let ms ← members inner l.span (← Reader.rounds)
    return .object (l.span.join (← Reader.previous)) ms
  | t => Reader.fail (.expected "an expression" t.describe) l.span

/-- Property names, indices and arguments behind an expression. Brackets and parentheses count
only on the line on which the expression ends. -/
def trailers (inner : Inner) : List Lexeme → Expr → ProgramReader Expr
  | [], e => return e
  | _ :: rounds, e => do
    let l ← Reader.peek
    if ← Reader.eatPunct .dot then
      let p ← expectProperty
      trailers inner rounds (.member (e.span.join p.span) e p)
    else if l.newlineBefore then return e
    else if ← Reader.eatPunct .leftBracket then
      let i ← inner .expression
      let close ← expect .rightBracket
      trailers inner rounds (.index (e.span.join close) e i)
    else if ← Reader.eatPunct .leftParen then
      let as ← arguments inner (← Reader.rounds)
      trailers inner rounds (.call (e.span.join (← Reader.previous)) e as)
    else return e

/-- An operand: a unary operator with its own operand, or an expression without operators. -/
def unary (inner : Inner) : ProgramReader Expr := do
  let start := (← Reader.peek).span
  if ← Reader.eatPunct .bang then
    let e ← inner (.unaryOperand start)
    return .unary (start.join e.span) .not e
  else if ← Reader.eatPunct .minus then
    let e ← inner (.unaryOperand start)
    return .unary (start.join e.span) .negate e
  else
    let e ← primary inner
    trailers inner (← Reader.rounds) e

/-- Binary operators that bind at least as tightly as `least`, behind their left operand. -/
def operators (inner : Inner) (least : Nat) : List Lexeme → Expr → ProgramReader Expr
  | [], left => return left
  | _ :: rounds, left => do
    match binaryOp? (← Reader.peek).token with
    | none => return left
    | some op =>
      if op.precedence < least then return left
      else
        let _ ← Reader.next
        let right ← inner (.rightOperand (op.precedence + 1))
        operators inner least rounds (.binary (left.span.join right.span) op left right)

/-- Operands and the binary operators between them that bind at least as tightly as `least`. -/
def binary (inner : Inner) (least : Nat) : ProgramReader Expr := do
  let left ← unary inner
  operators inner least (← Reader.rounds) left

def conditional (inner : Inner) : ProgramReader Expr := do
  let test ← binary inner 0
  if ← Reader.eatPunct .question then
    let consequent ← inner .expression
    let _ ← expect .colon
    let alternate ← inner .expression
    return .conditional (test.span.join alternate.span) test consequent alternate
  else return test

/-- An expression of which `levels` may still be nested; `limit` is how many there were at the
start. -/
def nested (limit : Nat) : Nat → Goal → ProgramReader Expr
  | 0, .unaryOperand mark, _ => .error ⟨.tooDeep limit, mark⟩
  | 0, _, c => .error ⟨.tooDeep limit, c.peek.span⟩
  | levels + 1, goal, c =>
    let inner : Inner := fun goal c => nested limit levels goal c
    match goal with
    | .expression => if beginsArrow c.ahead then arrow inner c else conditional inner c
    | .rightOperand least => binary inner least c
    | .unaryOperand _ => unary inner c

/-! ### Statements -/

/-- A statement ends with a semicolon, before a line break or at the end of the source. -/
def endStatement : ProgramReader Unit := do
  if ← Reader.eatPunct .semicolon then return ()
  else if ← Reader.atEnd then return ()
  else if (← Reader.peek).newlineBefore then return ()
  else failBefore .expectedEnd

def importStatement : ProgramReader Import := do
  let start := (← Reader.next).span
  let l ← Reader.next
  match l.token with
  | .string path =>
    endStatement
    return ⟨path, start.join l.span⟩
  | t => Reader.fail (.expectedPath t.describe) l.span

/-- The rest of a declaration that began at `start`, after its keyword. -/
def declaration (expression : ProgramReader Expr) (kind : BindingKind) (start : Span) :
    ProgramReader Statement := do
  let name ← expectName "a binding name"
  let init ←
    if ← Reader.eatPunct .assign then
      let e ← expression
      pure (some e)
    else if kind = .const then failBefore .expectedValue
    else pure none
  let span := start.join (← Reader.previous)
  endStatement
  return .declare kind name init span

/-- The rest of an assignment that began at `start`, before the mark. -/
def assignment (expression : ProgramReader Expr) (target : Expr) (start : Span) :
    ProgramReader Statement := do
  match target with
  | .name span name =>
    let _ ← Reader.next
    let value ← expression
    let whole := start.join (← Reader.previous)
    endStatement
    return .assign ⟨name, span⟩ value whole
  | _ => Reader.fail .invalidTarget target.span

def statement (expression : ProgramReader Expr) : ProgramReader Statement := do
  let start := (← Reader.peek).span
  if ← Reader.eatName "const" then declaration expression .const start
  else if ← Reader.eatName "let" then declaration expression .letVar start
  else if ← Reader.eatName "var" then declaration expression .var start
  else
    let e ← expression
    if ← Reader.atPunct .assign then assignment expression e start
    else
      endStatement
      return .expression e

/-- Imports and statements up to the end, after those already read, which are in reverse. -/
def body (expression : ProgramReader Expr) (imports : List Import)
    (statements : List Statement) : List Lexeme → ProgramReader (List Import × List Statement)
  | [] => return (imports.reverse, statements.reverse)
  | _ :: rounds => do
    Reader.skipPuncts [.semicolon]
    if ← Reader.atEnd then return (imports.reverse, statements.reverse)
    else if ← Reader.atName "import" then
      let i ← importStatement
      body expression (i :: imports) statements rounds
    else
      let s ← statement expression
      body expression imports (s :: statements) rounds

def ofTokens (maxDepth : Nat) (tokens : List Lexeme) :
    Except (Located ProgramCause) (List Import × List Statement) :=
  let c := Cursor.ofTokens tokens
  let expression : ProgramReader Expr := fun c => nested maxDepth maxDepth .expression c
  (body expression [] [] (c.last :: c.ahead) c).map Prod.fst

def defaultSourceName : String := "program.ts"

def parse (limits : Limits) (source : Source) : Except ProgramError Program :=
  match limits.checkSource source.text with
  | .error e => .error (.of (.tooLarge e) source (.point 0))
  | .ok () =>
    match tokenizeWithin limits.maxDepth source.text with
    | .error e => .error (.of (.lexical e) source e.span)
    | .ok tokens =>
      match ofTokens limits.maxDepth tokens with
      | .error e => .error (.of e.cause source e.span)
      | .ok (imports, statements) => .ok ⟨source, imports, statements⟩

end Program

end TypedConfig
