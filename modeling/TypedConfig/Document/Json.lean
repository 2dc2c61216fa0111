import TypedConfig.Value

/-! # JSON documents

Values as JSON, on one line or with one member a line. A constant stands as its literal, and
the members of an object keep their order.
-/

namespace TypedConfig.Json

def controlEscape (c : Char) : List Char :=
  let ds := Text.hexDigits c.toNat
  ['\\', 'u'] ++ List.replicate (4 - ds.length) '0' ++ ds

def stringChar (c : Char) : List Char :=
  if c = '"' then ['\\', '"']
  else if c = '\\' then ['\\', '\\']
  else if c = '\n' then ['\\', 'n']
  else if c = '\r' then ['\\', 'r']
  else if c = '\t' then ['\\', 't']
  else if c = '\x08' then ['\\', 'b']
  else if c = '\x0c' then ['\\', 'f']
  else if c.toNat < 0x20 then controlEscape c
  else [c]

def string (s : String) : String :=
  String.ofList ('"' :: (s.toList.flatMap stringChar ++ ['"']))

def scalar : Scalar → String
  | .string s => string s
  | .number x => Number.dataText x
  | .boolean b => if b then "true" else "false"

/-- Texts between two brackets, with commas between them. -/
def enclose (left right : String) (parts : List String) : String :=
  left ++ ",".intercalate parts ++ right

mutual

/-- A value on one line. -/
def compact : Value → String
  | .scalar s => scalar s
  | .sentinel c => scalar c.literal
  | .record es => enclose "\x7b" "\x7d" (compactMembers es)
  | .sequence vs => enclose "[" "]" (compactItems vs)

def compactMembers : List (String × Value) → List String
  | [] => []
  | (k, v) :: es => (string k ++ ":" ++ compact v) :: compactMembers es

def compactItems : List Value → List String
  | [] => []
  | v :: vs => compact v :: compactItems vs

end

def indent (depth : Nat) : String := String.ofList (List.replicate (2 * depth) ' ')

/-- Texts between two brackets, each on a line of its own; nothing between them if there are
none. -/
def encloseLines (left right : String) (depth : Nat) : List String → String
  | [] => left ++ right
  | parts =>
    left ++ "\n" ++ ",\n".intercalate (parts.map (indent (depth + 1) ++ ·)) ++ "\n" ++
      indent depth ++ right

mutual

/-- A value with one member a line, inside a number of enclosing values. -/
def pretty (depth : Nat) : Value → String
  | .scalar s => scalar s
  | .sentinel c => scalar c.literal
  | .record es => encloseLines "\x7b" "\x7d" depth (prettyMembers (depth + 1) es)
  | .sequence vs => encloseLines "[" "]" depth (prettyItems (depth + 1) vs)

def prettyMembers (depth : Nat) : List (String × Value) → List String
  | [] => []
  | (k, v) :: es => (string k ++ ": " ++ pretty depth v) :: prettyMembers depth es

def prettyItems (depth : Nat) : List Value → List String
  | [] => []
  | v :: vs => pretty depth v :: prettyItems depth vs

end

def document (v : Value) : String := pretty 0 v ++ "\n"

end TypedConfig.Json
