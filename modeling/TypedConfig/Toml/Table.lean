import TypedConfig.Entries

/-! # Tables of TOML

A document of TOML is a table. Its headers and dotted keys open tables inside it; a table may be
opened by a header once, dotted keys may extend only what dotted keys have opened, and a table
that is written in braces is never extended.
-/

namespace TypedConfig.Toml

/-- How a table came to be. -/
inductive Origin
  /-- Written in braces. -/
  | braces
  /-- Opened by a header of its own. -/
  | header
  /-- Opened by the header of a table inside it. -/
  | implied
  /-- Opened by a dotted key. -/
  | dotted
deriving DecidableEq, Repr

inductive Node
  | string (text : String)
  | integer (value : Int)
  | boolean (value : Bool)
  /-- A number with a fraction or an exponent. -/
  | decimal (text : String)
  /-- A date, a time of day or both. -/
  | moment (text : String)
  | array (items : List Node)
  | table (origin : Origin) (entries : List (String × Node))
  /-- An array of tables, each opened by a header. -/
  | tables (items : List (List (String × Node)))

abbrev Table := Entries Node

namespace Table

/-- Puts a value under a dotted key that is not there yet. -/
def insert (v : Node) : List String → Table → Option Table
  | [], _ => none
  | [key], es => if Entries.contains es key then none else some (Entries.put es key v)
  | key :: rest, es =>
    match Entries.get? es key with
    | none => do return Entries.put es key (.table .dotted (← insert v rest []))
    | some (.table .dotted inner) =>
      do return Entries.put es key (.table .dotted (← insert v rest inner))
    | some _ => none

/-- Changes the table at a path of headers, the last one where there are several. -/
def change (f : Table → Option Table) : List String → Table → Option Table
  | [], es => f es
  | key :: rest, es =>
    match Entries.get? es key with
    | none => do return Entries.put es key (.table .implied (← change f rest []))
    | some (.table .braces _) => none
    | some (.table origin inner) =>
      do return Entries.put es key (.table origin (← change f rest inner))
    | some (.tables ts) => do
      let last ← ts.getLast?
      return Entries.put es key (.tables (ts.dropLast ++ [← change f rest last]))
    | some _ => none

def openOne (key : String) (es : Table) : Option Table :=
  match Entries.get? es key with
  | none => some (Entries.put es key (.table .header []))
  | some (.table .implied inner) => some (Entries.put es key (.table .header inner))
  | some _ => none

/-- Opens one more table of those under a key. -/
def openNext (key : String) (es : Table) : Option Table :=
  match Entries.get? es key with
  | none => some (Entries.put es key (.tables [[]]))
  | some (.tables ts) => some (Entries.put es key (.tables (ts ++ [[]])))
  | some _ => none

end Table

inductive Line
  | blank
  | pair (key : List String) (value : Node)
  | header (path : List String)
  | element (path : List String)

/-- A document as far as it has been read, and the path of the table that is open. -/
structure Document where
  table : Table
  current : List String

namespace Document

def openAt (d : Document) (opener : String → Table → Option Table) (path : List String) :
    Option Document := do
  let key ← path.getLast?
  let table ← d.table.change (opener key) path.dropLast
  return ⟨table, path⟩

def addLine (d : Document) : Line → Option Document
  | .blank => some d
  | .pair key value => do
    return { d with table := ← d.table.change (Table.insert value key) d.current }
  | .header path => d.openAt Table.openOne path
  | .element path => d.openAt Table.openNext path

end Document

end TypedConfig.Toml
