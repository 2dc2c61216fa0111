import TypedConfig.Toml.Atom
import TypedConfig.Toml.Text

/-! # TOML

Reads a document of keys and values in tables. Nothing is said of why a text is not a document.
-/

namespace TypedConfig.Toml

def isBare (c : Char) : Bool := c.isAlphanum || c == '_' || c == '-'

def keyPart (cs : List Char) : Option (String × List Char) :=
  match cs with
  | '"' :: rest => (string '"' cs.length rest).map fun (t, rest) => (String.ofList t, rest)
  | '\'' :: rest => (string '\'' cs.length rest).map fun (t, rest) => (String.ofList t, rest)
  | _ =>
    match cs.takeWhile isBare with
    | [] => none
    | name => some (String.ofList name, cs.dropWhile isBare)

/-- A dotted key and the spaces after it. The number bounds the characters that are left. -/
def key : Nat → List Char → Option (List String × List Char)
  | 0, _ => none
  | n + 1, cs => do
    let (part, rest) ← keyPart cs
    match dropSpaces rest with
    | '.' :: rest =>
      let (parts, rest) ← key n (dropSpaces rest)
      return (part :: parts, rest)
    | rest => return ([part], rest)

def keyBefore (cs : List Char) : Option (List String × List Char) := do
  let (parts, rest) ← key (cs.length + 1) cs
  match rest with
  | '=' :: rest => return (parts, dropSpaces rest)
  | _ => none

/-! The number that these readers take bounds the characters that are left. -/

mutual

def value : Nat → List Char → Option (Node × List Char)
  | 0, _ => none
  | n + 1, cs =>
    match cs with
    | '[' :: rest => do
      let (items, rest) ← elements n [] (← dropBlanks false rest)
      return (.array items, rest)
    | '\x7b' :: rest => do
      let (entries, rest) ← members n [] (← dropBlanks false rest)
      return (.table .braces entries, rest)
    | c :: _ =>
      if c = '"' ∨ c = '\'' then (quoted cs).map fun (t, rest) => (.string t, rest)
      else atom cs
    | [] => none

/-- The elements of an array up to its closing bracket, given those before. -/
def elements : Nat → List Node → List Char → Option (List Node × List Char)
  | 0, _, _ => none
  | n + 1, done, cs =>
    match cs with
    | ']' :: rest => some (done, rest)
    | _ => do
      let (v, rest) ← value n cs
      match ← dropBlanks false rest with
      | ',' :: rest => elements n (done ++ [v]) (← dropBlanks false rest)
      | ']' :: rest => return (done ++ [v], rest)
      | _ => none

/-- The members of a table up to its closing brace, given those before. -/
def members : Nat → Table → List Char → Option (Table × List Char)
  | 0, _, _ => none
  | n + 1, done, cs =>
    match cs with
    | '\x7d' :: rest => some (done, rest)
    | _ => do
      let (parts, rest) ← keyBefore cs
      let (v, rest) ← value n rest
      let done ← Table.insert v parts done
      match ← dropBlanks false rest with
      | ',' :: rest => members n done (← dropBlanks false rest)
      | '\x7d' :: rest => return (done, rest)
      | _ => none

end

def headerPath (close : List Char) (cs : List Char) : Option (List String × List Char) := do
  let cs := dropSpaces cs
  let (path, rest) ← key (cs.length + 1) cs
  if close.isPrefixOf rest then return (path, rest.drop close.length) else none

def lineFront (cs : List Char) : Option (Line × List Char) :=
  match dropSpaces cs with
  | '[' :: '[' :: rest => (headerPath [']', ']'] rest).map fun (p, rest) => (.element p, rest)
  | '[' :: rest => (headerPath [']'] rest).map fun (p, rest) => (.header p, rest)
  | cs =>
    match cs with
    | [] | '\n' :: _ | '\r' :: _ | '#' :: _ => some (.blank, cs)
    | _ => do
      let (parts, rest) ← keyBefore cs
      let (v, rest) ← value (rest.length + 1) rest
      return (.pair parts v, rest)

def lines : Nat → Document → List Char → Option Document
  | _, d, [] => some d
  | 0, _, _ => none
  | n + 1, d, cs => do
    let (line, rest) ← lineFront cs
    let d ← d.addLine line
    lines n d (← endLine false rest)

/-- The table that a text is a document of; a byte order mark may lead. -/
def parse (text : String) : Option Table :=
  let cs :=
    match text.toList with
    | '\ufeff' :: cs => cs
    | cs => cs
  (lines cs.length ⟨[], []⟩ cs).map Document.table

end TypedConfig.Toml
