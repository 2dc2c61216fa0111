import TypedConfig.Limits
import TypedConfig.Number.Read
import TypedConfig.Text.Blank
import TypedConfig.Token
import TypedConfig.ValuePath

/-! # Reading tokens

A source is read from left to right. Between tokens stand blanks and comments; the last doc
comment in such a gap belongs to the token after it. A template is read whole, together with
the tokens of its holes, and the levels of templates inside holes are limited: the reader of
each level is built from the reader of the level inside it.
-/

namespace TypedConfig

inductive LexCause
  | unterminatedComment
  | unterminatedString
  | unterminatedTemplate
  | unterminatedHole
  | unterminatedEscape
  | invalidEscape (digits : String)
  | unexpectedCharacter (c : Char)
  | templatesTooDeep (limit : Nat)
deriving DecidableEq, Repr

structure LexError where
  cause : LexCause
  span : Span
deriving DecidableEq, Repr

def LexError.message (e : LexError) : String :=
  match e.cause with
  | .unterminatedComment => "unterminated block comment"
  | .unterminatedString => "unterminated string literal"
  | .unterminatedTemplate => "unterminated template literal"
  | .unterminatedHole => "unterminated `$\x7b` in template literal"
  | .unterminatedEscape => "unterminated escape"
  | .invalidEscape digits => "invalid unicode escape `\\u" ++ digits ++ "`"
  | .unexpectedCharacter c => "unexpected character `" ++ c.toString ++ "`"
  | .templatesTooDeep limit => "template literals nested deeper than " ++ toString limit

/-- A reading position: the characters ahead and the byte offset of the first of them. -/
structure Position where
  ahead : List Char
  offset : Nat
deriving Repr

namespace Position

/-- The beginning of a source. -/
def start (source : String) : Position := ⟨source.toList, 0⟩

def skip (p : Position) (n : Nat) : Position :=
  ⟨p.ahead.drop n, p.offset + Text.byteSize (p.ahead.take n)⟩

/-- The longest run of characters of a class, and the position after it. -/
def run (p : Position) (ok : Char → Bool) : List Char × Position :=
  let cs := p.ahead.takeWhile ok
  (cs, ⟨p.ahead.dropWhile ok, p.offset + Text.byteSize cs⟩)

theorem length_dropWhile_le (ok : Char → Bool) (cs : List Char) :
    (cs.dropWhile ok).length ≤ cs.length := (List.dropWhile_suffix ok).length_le

theorem length_run_le (p : Position) (ok : Char → Bool) :
    (p.run ok).2.ahead.length ≤ p.ahead.length := length_dropWhile_le ok p.ahead

end Position

namespace Lexer

/-! ### Gaps between tokens -/

/-- What a gap between two tokens tells about the token after it. -/
structure Gap where
  doc : Option String
  newline : Bool
deriving DecidableEq, Repr

/-- The text of a comment up to its end mark, and what follows the mark. `text` holds the part
already passed, in reverse. -/
def closeComment (text : List Char) : List Char → Option (List Char × List Char)
  | [] => none
  | c :: cs =>
    if c = '*' ∧ cs.head? = some '/' then some (text.reverse, cs.tail)
    else closeComment (c :: text) cs

theorem length_closeComment {text cs body rest : List Char}
    (h : closeComment text cs = some (body, rest)) : rest.length ≤ cs.length := by
  induction cs generalizing text with
  | nil => simp [closeComment] at h
  | cons c cs ih =>
    rw [closeComment] at h
    split at h
    · cases h
      simp only [List.length_tail, List.length_cons]
      omega
    · exact Nat.le_succ_of_le (ih h)

/-- A line of a doc comment without its margin. -/
def cleanLine (line : List Char) : List Char :=
  match Text.trimChars line with
  | '*' :: rest => Text.trimChars rest
  | line => line

/-- The text of a doc comment without its margin, given what stands between the comment marks. -/
def cleanDoc (body : List Char) : String :=
  let body := if body.head? = some '*' then body.tail else body
  let lines := (body.splitOn '\n').map cleanLine
  String.ofList (Text.trimChars (List.intercalate ['\n'] lines))

/-- Whether what follows a comment's opening mark makes it a doc comment. -/
def opensDoc (body : List Char) : Bool := body.head? == some '*' && body.tail.head? != some '/'

def passGap (gap : Gap) (p : Position) : Except LexError (Gap × Position) :=
  match _hp : p.ahead with
  | [] => .ok (gap, p)
  | c :: cs =>
    if c = '\n' then passGap { gap with newline := true } ⟨cs, p.offset + 1⟩
    else if Text.isBlank c then passGap gap ⟨cs, p.offset + c.utf8Size⟩
    else if c = '/' ∧ cs.head? = some '/' then
      passGap gap (Position.run ⟨cs, p.offset + 1⟩ (· != '\n')).2
    else if c = '/' ∧ cs.head? = some '*' then
      match _hc : closeComment [] cs.tail with
      | none =>
        .error ⟨.unterminatedComment, ⟨p.offset, p.offset + Text.byteSize p.ahead⟩⟩
      | some (body, rest) =>
        passGap
          { doc := if opensDoc cs.tail then some (cleanDoc body) else gap.doc
            newline := gap.newline || body.contains '\n' }
          ⟨rest, p.offset + 4 + Text.byteSize body⟩
    else .ok (gap, p)
termination_by p.ahead.length
decreasing_by
  · simp [_hp]
  · simp [_hp]
  · simp only [_hp, List.length_cons]
    exact Nat.lt_succ_of_le (Position.length_run_le ⟨cs, p.offset + 1⟩ _)
  · have := length_closeComment _hc
    simp only [_hp, List.length_cons, List.length_tail] at this ⊢
    omega

/-! ### Names, numbers and punctuation -/

/-- The exponent mark, sign and digits of a number, if they stand next. -/
def exponent? (p : Position) : Option (Int × Position) :=
  match p.ahead with
  | mark :: rest =>
    if mark = 'e' ∨ mark = 'E' then
      let signed := rest.head? == some '+' || rest.head? == some '-'
      let q := p.skip (if signed then 2 else 1)
      match q.run Char.isDigit with
      | ([], _) => none
      | (digits, q) =>
        let n := Number.ofDigits digits
        some (if rest.head? == some '-' then -(n : Int) else n, q)
    else none
  | [] => none

/-- The fraction of a number, if a point and a digit stand next. -/
def fraction? (p : Position) : Option (List Char × Position) :=
  match p.ahead with
  | '.' :: _ =>
    match (p.skip 1).run Char.isDigit with
    | ([], _) => none
    | (digits, q) => some (digits, q)
  | _ => none

/-- The number whose first digit stands next. -/
def number (p : Position) : Token × Position :=
  let (whole, p) := p.run Char.isDigit
  let (fraction, p) := (fraction? p).getD ([], p)
  let (exponent, p) := (exponent? p).getD (0, p)
  (.number (Number.ofDecimal whole fraction exponent), p)

/-- The punctuation at the front of the characters, and how many of them it takes. -/
def punct? : List Char → Option (Punct × Nat)
  | [] => none
  | c :: cs =>
    let next := cs.head?
    let third := cs.tail.head?
    if c = '\x7b' then some (.leftBrace, 1)
    else if c = '\x7d' then some (.rightBrace, 1)
    else if c = '[' then some (.leftBracket, 1)
    else if c = ']' then some (.rightBracket, 1)
    else if c = '(' then some (.leftParen, 1)
    else if c = ')' then some (.rightParen, 1)
    else if c = '<' then some (.less, 1)
    else if c = '>' then some (.greater, 1)
    else if c = ',' then some (.comma, 1)
    else if c = ';' then some (.semicolon, 1)
    else if c = ':' then some (.colon, 1)
    else if c = '?' then some (.question, 1)
    else if c = '+' then some (.plus, 1)
    else if c = '-' then some (.minus, 1)
    else if c = '*' then some (.star, 1)
    else if c = '/' then some (.slash, 1)
    else if c = '.' then
      if next = some '.' ∧ third = some '.' then some (.ellipsis, 3) else some (.dot, 1)
    else if c = '=' then
      if next = some '>' then some (.arrow, 2)
      else if next = some '=' then some (.equal, if third = some '=' then 3 else 2)
      else some (.assign, 1)
    else if c = '!' then
      if next = some '=' then some (.notEqual, if third = some '=' then 3 else 2)
      else some (.bang, 1)
    else if c = '|' then
      if next = some '|' then some (.or, 2) else some (.pipe, 1)
    else if c = '&' ∧ next = some '&' then some (.and, 2)
    else none

/-! ### Escapes and strings -/

/-- The code point digits of an escape, after its `u`. -/
def escapeDigits (p : Position) : List Char × Position :=
  if p.ahead.head? = some '\x7b' then
    let (digits, q) := (p.skip 1).run (· != '\x7d')
    (digits, q.skip 1)
  else (p.ahead.take 4, p.skip 4)

/-- The character that a code point number denotes, if it is one. -/
def charOfNat? (n : Nat) : Option Char := if n.isValidChar then some (Char.ofNat n) else none

/-- The character of an escape whose backslash stands at `start` and has been passed. -/
def escape (start : Nat) (p : Position) : Except LexError (Char × Position) :=
  match p.ahead with
  | [] => .error ⟨.unterminatedEscape, .point start⟩
  | c :: _ =>
    let q := p.skip 1
    if c = 'n' then .ok ('\n', q)
    else if c = 't' then .ok ('\t', q)
    else if c = 'r' then .ok ('\r', q)
    else if c = '0' then .ok ('\x00', q)
    else if c = 'u' then
      let (digits, q) := escapeDigits q
      match (Number.ofHex? digits).bind charOfNat? with
      | some c => .ok (c, q)
      | none => .error ⟨.invalidEscape (String.ofList digits), ⟨start, q.offset⟩⟩
    else .ok (c, q)

theorem length_skip_lt (p : Position) {n : Nat} (hn : 0 < n) (hp : p.ahead ≠ []) :
    (p.skip n).ahead.length < p.ahead.length := by
  have := List.length_pos_iff.2 hp
  simp only [Position.skip, List.length_drop]
  omega

theorem length_skip_le (p : Position) (n : Nat) :
    (p.skip n).ahead.length ≤ p.ahead.length := by
  simp [Position.skip]

theorem length_escapeDigits_le (p : Position) :
    (escapeDigits p).2.ahead.length ≤ p.ahead.length := by
  unfold escapeDigits
  split
  · exact Nat.le_trans (length_skip_le _ _)
      (Nat.le_trans (Position.length_run_le _ _) (length_skip_le _ _))
  · exact length_skip_le _ _

theorem length_escape_lt {start : Nat} {p q : Position} {c : Char}
    (h : escape start p = .ok (c, q)) : q.ahead.length < p.ahead.length := by
  unfold escape at h
  split at h
  · cases h
  · next d cs hp =>
    have hs : (p.skip 1).ahead.length < p.ahead.length :=
      length_skip_lt p Nat.one_pos (by simp [hp])
    have he := length_escapeDigits_le (p.skip 1)
    simp only at h
    split at h
    · cases h; exact hs
    · split at h
      · cases h; exact hs
      · split at h
        · cases h; exact hs
        · split at h
          · cases h; exact hs
          · split at h
            · split at h
              · cases h; omega
              · cases h
            · cases h; exact hs

/-- The rest of a string whose opening quote at `start` has been passed. `text` holds the part
already read, in reverse. -/
def string (quote : Char) (start : Nat) (text : List Char) (p : Position) :
    Except LexError (String × Position) :=
  match _hp : p.ahead with
  | [] => .error ⟨.unterminatedString, ⟨start, p.offset⟩⟩
  | c :: _ =>
    if c = '\n' then .error ⟨.unterminatedString, ⟨start, (p.skip 1).offset⟩⟩
    else if c = quote then .ok (String.ofList text.reverse, p.skip 1)
    else if c = '\\' then
      match _he : escape p.offset (p.skip 1) with
      | .ok (e, q) => string quote start (e :: text) q
      | .error e => .error e
    else string quote start (c :: text) (p.skip 1)
termination_by p.ahead.length
decreasing_by
  · exact Nat.lt_trans (length_escape_lt _he) (length_skip_lt p Nat.one_pos (by simp [_hp]))
  · exact length_skip_lt p Nat.one_pos (by simp [_hp])

/-! ### Templates -/

/-- A reader of what follows a template's opening mark at a given offset. -/
abbrev TemplateReader := Nat → Position → Except LexError (List Piece × Position)

/-- The token that begins here, if any character is left. -/
def bareToken (template : TemplateReader) (p : Position) : Except LexError (Token × Position) :=
  match p.ahead with
  | [] => .ok (.endOfInput, p)
  | c :: _ =>
    let q := p.skip 1
    if c = '"' ∨ c = '\'' then (string c p.offset [] q).map fun (s, q) => (.string s, q)
    else if c = '\x60' then (template p.offset q).map fun (ps, q) => (.template ps, q)
    else if c.isDigit then .ok (number p)
    else if isNameStart c then
      let (cs, q) := p.run isNameContinue
      .ok (.name (String.ofList cs), q)
    else
      match punct? p.ahead with
      | some (t, n) => .ok (.punct t, p.skip n)
      | none => .error ⟨.unexpectedCharacter c, ⟨p.offset, q.offset⟩⟩

def lexeme (template : TemplateReader) (p : Position) : Except LexError (Lexeme × Position) := do
  let (gap, p) ← passGap ⟨none, false⟩ p
  let (token, q) ← bareToken template p
  return (.mk token ⟨p.offset, q.offset⟩ gap.doc gap.newline, q)

/-- The rest of the tokens of a hole up to its closing brace, which becomes the end token.
`depth` counts the braces open inside the hole, and `tokens` holds what has been read, in
reverse. Each round drops an element of the list; one for each character ahead is enough. -/
def hole (template : TemplateReader) (start : Nat) (depth : Nat) (tokens : List Lexeme)
    (rounds : List Char) (p : Position) : Except LexError (List Lexeme × Position) :=
  match lexeme template p with
  | .error e => .error e
  | .ok (l, q) =>
    if l.isPunct .rightBrace ∧ depth = 0 then .ok ((.endAt l.span :: tokens).reverse, q)
    else
      match l.isEnd, rounds with
      | false, _ :: rounds =>
        let depth :=
          if l.isPunct .leftBrace then depth + 1
          else if l.isPunct .rightBrace then depth - 1
          else depth
        hole template start depth (l :: tokens) rounds q
      | _, _ => .error ⟨.unterminatedHole, ⟨start, q.offset⟩⟩

/-- The text read so far as a piece, unless it is empty. -/
def flush (text : List Char) (pieces : List Piece) : List Piece :=
  if text.isEmpty then pieces else .text (String.ofList text.reverse) :: pieces

/-- The rest of a template. `text` holds the text since the last hole and `pieces` the pieces
before it, both in reverse. Each round drops an element of the list; one for each character ahead
is enough. -/
def pieces (template : TemplateReader) (start : Nat) (text : List Char) (done : List Piece)
    (rounds : List Char) (p : Position) : Except LexError (List Piece × Position) :=
  match p.ahead, rounds with
  | '\x60' :: _, _ =>
    let all := flush text done
    .ok (if all.isEmpty then [.text ""] else all.reverse, p.skip 1)
  | c :: cs, _ :: rounds =>
    if c = '\\' then
      match escape p.offset (p.skip 1) with
      | .ok (e, q) => pieces template start (e :: text) done rounds q
      | .error e => .error e
    else if c = '$' ∧ cs.head? = some '\x7b' then
      match hole template start 0 [] cs (p.skip 2) with
      | .ok (tokens, q) => pieces template start [] (.hole tokens :: flush text done) rounds q
      | .error e => .error e
    else pieces template start (c :: text) done rounds (p.skip 1)
  | _, _ => .error ⟨.unterminatedTemplate, ⟨start, p.offset⟩⟩

/-- The reader of templates of which `levels` may still be nested; `limit` is how many there
were at the start. -/
def template (limit : Nat) : Nat → TemplateReader
  | 0, start, p => .error ⟨.templatesTooDeep limit, ⟨start, p.offset⟩⟩
  | levels + 1, start, p => pieces (template limit levels) start [] [] p.ahead p

/-- All tokens from a position on, ended by an end token. `done` holds those before it, in
reverse. Each round drops an element of the list; one for each character ahead is enough. -/
def lexemes (template : TemplateReader) (done : List Lexeme) (rounds : List Char)
    (p : Position) : Except LexError (List Lexeme) :=
  match lexeme template p with
  | .error e => .error e
  | .ok (l, q) =>
    match l.isEnd, rounds with
    | false, _ :: rounds => lexemes template (l :: done) rounds q
    | _, _ => .ok (l :: done).reverse

end Lexer

/-- The tokens of a source, with at most `maxDepth` levels of templates inside each other. -/
def tokenizeWithin (maxDepth : Nat) (source : String) : Except LexError (List Lexeme) :=
  let p := Position.start source
  Lexer.lexemes (Lexer.template maxDepth maxDepth) [] p.ahead p

def tokenize (source : String) : Except LexError (List Lexeme) :=
  tokenizeWithin Limits.standard.maxDepth source

end TypedConfig
