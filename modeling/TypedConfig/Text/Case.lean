import TypedConfig.Text.Printable
import TypedConfig.Text.Case.Table

/-! # Upper and lower case

Case conversion of whole texts, independent of any language. A character may become several,
and a capital sigma that ends a word becomes the final small sigma.
-/

namespace TypedConfig.Text.Case

/-- The distance that the first matching run gives for a code point. -/
def shift? (runs : List (Nat × Nat × Nat × Int)) (n : Nat) : Option Int :=
  runs.findSome? fun (first, last, step, shift) =>
    if first ≤ n ∧ n ≤ last ∧ (n - first) % step = 0 then some shift else none

/-- A character's mapping by a table of sequences and a table of runs. -/
def convert (sequences : List (Nat × List Nat)) (runs : List (Nat × Nat × Nat × Int))
    (c : Char) : List Char :=
  match sequences.lookup c.toNat with
  | some ns => ns.map Char.ofNat
  | none =>
    match shift? runs c.toNat with
    | some d => [Char.ofNat (c.toNat + d).toNat]
    | none => [c]

def upperChar (c : Char) : List Char :=
  if c.toNat < 0x80 then [c.toUpper] else convert upperSequences upperRuns c

/-- The lower-case form of one character, whatever its neighbours. -/
def lowerChar (c : Char) : List Char :=
  if c.toNat < 0x80 then [c.toLower] else convert lowerSequences lowerRuns c

def isCased (c : Char) : Bool := inRanges casedRanges c.toNat

def isIgnorable (c : Char) : Bool := inRanges ignorableRanges c.toNat

/-- Whether the first character that is not ignorable for case is cased. -/
def meetsCased (cs : List Char) : Bool :=
  match cs.dropWhile isIgnorable with
  | c :: _ => isCased c
  | [] => false

/-- A capital sigma after a cased character and not before one ends its word. -/
def endsWord (before after : List Char) : Bool := meetsCased before && !meetsCased after

/-- Lower case of the characters `cs`, where `before` holds those already passed, nearest first. -/
def lowerAfter (before : List Char) : List Char → List Char
  | [] => []
  | c :: cs =>
    (if c = 'Σ' then [if endsWord before cs then 'ς' else 'σ'] else lowerChar c)
      ++ lowerAfter (c :: before) cs

end Case

def upper (s : String) : String := String.ofList (s.toList.flatMap Case.upperChar)

def lower (s : String) : String := String.ofList (Case.lowerAfter [] s.toList)

end TypedConfig.Text
