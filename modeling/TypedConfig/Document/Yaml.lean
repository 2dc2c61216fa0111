import TypedConfig.Text.Blank
import TypedConfig.Value
import TypedConfig.ValuePath

/-! # YAML documents

Values as block mappings and block sequences, each at its indentation; one that is an item of a
sequence begins in the line of its dash. A text is written plain if a reader takes it for itself,
as a literal block if it has several lines that a block can hold, and quoted otherwise. The
writer stops at the first number that is not finite.
-/

namespace TypedConfig.Yaml

abbrev Line := List Char

/-- Whether a character must be escaped in every form of text. -/
def needsEscape (c : Char) : Bool :=
  let n := c.toNat
  n < 0x20 || (0x7f ≤ n && n ≤ 0x9f) || n == 0x2028 || n == 0x2029 || n == 0xfeff ||
    n == 0xfffe || n == 0xffff

/-- A character by its code point, in four digits. -/
def pointEscape (c : Char) : List Char :=
  let ds := (Text.hexDigits c.toNat).map Char.toUpper
  ['\\', 'u'] ++ List.replicate (4 - ds.length) '0' ++ ds

/-- A character as it stands inside a quoted text. -/
def quotedChar (c : Char) : List Char :=
  if c = '"' then ['\\', '"']
  else if c = '\\' then ['\\', '\\']
  else if c = '\n' then ['\\', 'n']
  else if c = '\t' then ['\\', 't']
  else if c = '\r' then ['\\', 'r']
  else if c = '\x00' then ['\\', '0']
  else if needsEscape c then pointEscape c
  else [c]

/-- Characters that mean something else than themselves at the beginning of a text. -/
def indicators : List Char :=
  ['-', '?', ':', ',', '[', ']', '\x7b', '\x7d', '#', '&', '*', '!', '|', '>', '\'', '"', '%',
    '@', '\x60']

/-- Whether two characters stand next to each other somewhere. -/
def hasPair (a b : Char) : List Char → Bool
  | c :: d :: cs => (c == a && d == b) || hasPair a b (d :: cs)
  | _ => false

/-- Words that some reader takes for null, a truth value or a mark. -/
def reservedWords : List String :=
  ["~", "null", "true", "false", "yes", "no", "y", "n", "on", "off", "=", "<<"]

/-- Whether some reader takes a text for something else than a text: a reserved word, a special
number, or anything that begins like a number, a date or a time. -/
def readsAsOther (cs : List Char) : Bool :=
  let lower := cs.map Char.toLower
  let unsigned := lower.dropWhile fun c => c == '+' || c == '-'
  let digits := if unsigned.head? = some '.' then unsigned.tail else unsigned
  reservedWords.contains (String.ofList lower) ||
    unsigned == ['.', 'i', 'n', 'f'] || unsigned == ['.', 'n', 'a', 'n'] ||
    ['.', '.', '.'].isPrefixOf cs || digits.head?.any Char.isDigit

/-- Whether a text reads back as itself when it stands alone on a line. -/
def isPlain (cs : List Char) : Bool :=
  match cs with
  | [] => false
  | first :: _ =>
    !(indicators.contains first || Text.isBlank first || cs.getLast?.any Text.isBlank ||
      cs.getLast? == some ':' || hasPair ':' ' ' cs || hasPair ' ' '#' cs ||
      cs.any needsEscape || readsAsOther cs)

/-- A text on one line, plain or quoted. -/
def inlineText (s : String) : Line :=
  let cs := s.toList
  if isPlain cs then cs else '"' :: (cs.flatMap quotedChar ++ ['"'])

/-- The header and the lines of a text that a literal block can hold: several lines, of which
the first begins with a visible character, none ends with a space and the last is not empty. -/
def blockText? (s : String) : Option (Line × List Line) :=
  let cs := s.toList
  let closed := cs.getLast? == some '\n'
  let body := if closed then cs.dropLast else cs
  let lines := body.splitOn '\n'
  let first := lines.headD []
  if cs.contains '\n' && !first.isEmpty && first.head? != some ' ' &&
      body.getLast? != some '\n' && lines.all (fun l => l.getLast? != some ' ') &&
      cs.all (fun c => c == '\n' || !needsEscape c) then
    some (if closed then ['|'] else ['|', '-'], lines)
  else none

def spaces (width : Nat) : List Char := List.replicate width ' '

def scalarText (path : String) : Scalar → Except Unserializable Line
  | .string s => return inlineText s
  | .number x =>
    match Number.text? x with
    | some t => return t.toList
    | none => throw ⟨path, "non-finite number " ++ Number.positionalText x⟩
  | .boolean b => return (if b then "true" else "false").toList

/-- A scalar, a constant or an empty collection on one line. -/
def leafText (path : String) : Value → Except Unserializable Line
  | .scalar s => scalarText path s
  | .sentinel c => scalarText path c.literal
  | .record _ => return ['\x7b', '\x7d']
  | .sequence _ => return ['[', ']']

/-- The lines of a literal block, at an indentation; an empty line stays empty. -/
def writeBlock (indent : Nat) (lines : List Line) : List Char :=
  lines.flatMap fun l => (if l.isEmpty then [] else spaces indent ++ l) ++ ['\n']

/-- A scalar, a constant or an empty collection to the end of its last line. The lines of a
literal block stand two places to the right of the indentation. -/
def writeLeaf (indent : Nat) (path : String) (v : Value) : Except Unserializable (List Char) :=
  match v.text?.bind blockText? with
  | some (header, lines) => return header ++ '\n' :: writeBlock (indent + 2) lines
  | none => do return (← leafText path v) ++ ['\n']

mutual

def writeField (indent : Nat) (path : String) : Value → Except Unserializable (List Char)
  | .record (e :: es) => do return '\n' :: (← writeEntries (indent + 2) false path (e :: es))
  | .sequence (v :: vs) => do return '\n' :: (← writeItems (indent + 2) false path 0 (v :: vs))
  | v => do return ' ' :: (← writeLeaf indent path v)

def writeItem (indent : Nat) (path : String) : Value → Except Unserializable (List Char)
  | .record (e :: es) => writeEntries (indent + 2) true path (e :: es)
  | .sequence (v :: vs) => writeItems (indent + 2) true path 0 (v :: vs)
  | v => writeLeaf indent path v

/-- A block mapping at an indentation. In line, its first key stands behind a dash that has
been written. -/
def writeEntries (indent : Nat) (inline : Bool) (path : String) :
    List (String × Value) → Except Unserializable (List Char)
  | [] => return []
  | (k, v) :: es => do
    let value ← writeField indent (ValuePath.append path (.key k)) v
    let rest ← writeEntries indent false path es
    return (if inline then [] else spaces indent) ++ inlineText k ++ ':' :: value ++ rest

/-- A block sequence at an indentation, from an index on. In line, its first dash stands behind
one that has been written. -/
def writeItems (indent : Nat) (inline : Bool) (path : String) (i : Nat) :
    List Value → Except Unserializable (List Char)
  | [] => return []
  | v :: vs => do
    let item ← writeItem indent (ValuePath.append path (.index i)) v
    let rest ← writeItems indent false path (i + 1) vs
    return (if inline then [] else spaces indent) ++ '-' :: ' ' :: item ++ rest

end

def write (path : String) : Value → Except Unserializable String
  | .record (e :: es) => do return String.ofList (← writeEntries 0 false path (e :: es))
  | .sequence (v :: vs) => do return String.ofList (← writeItems 0 false path 0 (v :: vs))
  | v => do return String.ofList (← writeLeaf 0 path v)

end TypedConfig.Yaml

namespace TypedConfig.Value

def toYaml (v : Value) : Except Unserializable String := Yaml.write "" v

end TypedConfig.Value
