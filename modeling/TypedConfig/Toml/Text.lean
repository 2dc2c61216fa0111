import TypedConfig.Number.Read

/-! # Texts of TOML

Characters, blanks and strings. Each reader takes what it reads from the front of a list of
characters and gives it with the rest.
-/

namespace TypedConfig.Toml

/-- Whether a character may stand in a comment or a string: no control character but the tab. -/
def isPlain (c : Char) : Bool := c == '\t' || (decide (' ' ≤ c) && c != '\x7f')

def isSpace (c : Char) : Bool := c == ' ' || c == '\t'

def dropSpaces (cs : List Char) : List Char := cs.dropWhile isSpace

/-- The characters after spaces, line ends and comments. -/
def dropBlanks (inComment : Bool) : List Char → Option (List Char)
  | [] => some []
  | '\n' :: cs => dropBlanks false cs
  | '\r' :: '\n' :: cs => dropBlanks false cs
  | c :: cs =>
    if inComment then if isPlain c then dropBlanks true cs else none
    else if isSpace c then dropBlanks false cs
    else if c == '#' then dropBlanks true cs
    else some (c :: cs)

def endLine (inComment : Bool) : List Char → Option (List Char)
  | [] => some []
  | '\n' :: cs => some cs
  | '\r' :: '\n' :: cs => some cs
  | c :: cs =>
    if inComment then if isPlain c then endLine true cs else none
    else if isSpace c then endLine false cs
    else if c == '#' then endLine true cs
    else none

/-- The number of digits of an escape by code point, by the letter that begins it. -/
def escapeWidth? (c : Char) : Option Nat :=
  if c = 'x' then some 2 else if c = 'u' then some 4 else if c = 'U' then some 8 else none

/-- The character of an escape by a single letter. -/
def escaped? (c : Char) : Option Char :=
  match c with
  | '"' | '\\' => some c
  | 'b' => some '\x08'
  | 't' => some '\t'
  | 'n' => some '\n'
  | 'f' => some '\x0c'
  | 'r' => some '\r'
  | 'e' => some '\x1b'
  | _ => none

def charOf? (n : Nat) : Option Char :=
  if h : n.isValidChar then some (Char.ofNatAux n h) else none

def escape : List Char → Option (Char × List Char)
  | [] => none
  | c :: cs =>
    match escapeWidth? c with
    | some width => do
      let digits := cs.take width
      if digits.length < width then none
      else
        let n ← Number.hexAfter 0 digits
        return (← charOf? n, cs.drop width)
    | none => do return (← escaped? c, cs)

/-- The characters after a backslash at the end of a line, from the next one that is not blank. -/
def joinLines (cs : List Char) : Option (List Char) :=
  match dropSpaces cs with
  | '\n' :: rest => some (rest.dropWhile fun c => isSpace c || c == '\n' || c == '\r')
  | '\r' :: '\n' :: rest => some (rest.dropWhile fun c => isSpace c || c == '\n' || c == '\r')
  | _ => none

/-- The rest of a string on one line, up to its closing quote. Escapes are read in double quotes
only. The number bounds the characters that are left. -/
def string (quote : Char) : Nat → List Char → Option (List Char × List Char)
  | 0, _ => none
  | _, [] => none
  | n + 1, c :: cs =>
    if c = quote then some ([], cs)
    else if c = '\\' ∧ quote = '"' then do
      let (d, rest) ← escape cs
      let (ds, rest) ← string quote n rest
      return (d :: ds, rest)
    else if isPlain c then do
      let (ds, rest) ← string quote n cs
      return (c :: ds, rest)
    else none

/-- The rest of a string on several lines, up to three closing quotes; up to two quotes may stand
before those. -/
def block (quote : Char) : Nat → List Char → Option (List Char × List Char)
  | 0, _ => none
  | _, [] => none
  | n + 1, c :: cs =>
    if c = quote then
      let more := (cs.takeWhile (· == quote)).length
      if 2 ≤ more then
        let inner := min (more - 2) 2
        some (List.replicate inner quote, cs.drop (inner + 2))
      else do
        let (ds, rest) ← block quote n cs
        return (c :: ds, rest)
    else if c = '\\' ∧ quote = '"' then
      match joinLines cs with
      | some rest => block quote n rest
      | none => do
        let (d, rest) ← escape cs
        let (ds, rest) ← block quote n rest
        return (d :: ds, rest)
    else
      match c, cs with
      | '\n', _ => do
        let (ds, rest) ← block quote n cs
        return ('\n' :: ds, rest)
      | '\r', '\n' :: cs => do
        let (ds, rest) ← block quote n cs
        return ('\n' :: ds, rest)
      | _, _ =>
        if isPlain c then do
          let (ds, rest) ← block quote n cs
          return (c :: ds, rest)
        else none

/-- The characters after one line end, if there is one. -/
def dropLineEnd : List Char → List Char
  | '\n' :: cs => cs
  | '\r' :: '\n' :: cs => cs
  | cs => cs

/-- A string in either quote, on one line or several. -/
def quoted (cs : List Char) : Option (String × List Char) :=
  let size := cs.length
  let text : Option (List Char × List Char) :=
    match cs with
    | '"' :: '"' :: '"' :: rest => block '"' size (dropLineEnd rest)
    | '\'' :: '\'' :: '\'' :: rest => block '\'' size (dropLineEnd rest)
    | '"' :: rest => string '"' size rest
    | '\'' :: rest => string '\'' size rest
    | _ => none
  text.map fun (t, rest) => (String.ofList t, rest)

end TypedConfig.Toml
