import TypedConfig.Document.Yaml
import TypedConfig.Number.Read

/-! # Reading YAML

A part of YAML 1.2: block mappings and block sequences nested by indentation, empty flow
collections, texts in double quotes on one line, literal blocks, and plain texts on one line, which
the core schema gives a kind. What is read here is read so by YAML 1.2, which also wants the keys
of a mapping to differ and sets a bound to their length. Everything else is refused: tabs and
characters that YAML wants escaped or that some version of it takes for a line break, document
markers and directives, single quotes, folded blocks, flow collections with something in them,
anchors, aliases, tags, and nodes that go on over several lines.
-/

namespace TypedConfig.Yaml

/-- What a document holds. The key of an entry may be any node. -/
inductive Node
  | null
  | boolean (value : Bool)
  | number (value : Float)
  | string (text : String)
  | sequence (items : List Node)
  | mapping (entries : List (Node × Node))

namespace Node

/-- The node that a scalar reads back as. Negative zero reads back as zero. -/
def ofScalar : Scalar → Node
  | .string s => .string s
  | .number x => .number (if x == 0 then 0 else x)
  | .boolean b => .boolean b

mutual

/-- The node that a value reads back as: a constant as its literal, and entries in their order. -/
def ofValue : Value → Node
  | .scalar s => ofScalar s
  | .sentinel c => ofScalar c.literal
  | .record es => .mapping (ofEntries es)
  | .sequence vs => .sequence (ofItems vs)

def ofEntries : List (String × Value) → List (Node × Node)
  | [] => []
  | (k, v) :: es => (.string k, ofValue v) :: ofEntries es

def ofItems : List Value → List Node
  | [] => []
  | v :: vs => ofValue v :: ofItems vs

end

end Node

def unsigned : List Char → List Char
  | '+' :: cs | '-' :: cs => cs
  | cs => cs

/-- One or more digits, and maybe a sign before them. -/
def isDecimal (cs : List Char) : Bool :=
  let ds := unsigned cs
  !ds.isEmpty && ds.all Char.isDigit

def isOctal : List Char → Bool
  | '0' :: 'o' :: ds => !ds.isEmpty && ds.all fun c => decide ('0' ≤ c) && decide (c ≤ '7')
  | _ => false

def isHexadecimal : List Char → Bool
  | '0' :: 'x' :: ds => !ds.isEmpty && ds.all fun c => (Number.hexValue? c).isSome
  | _ => false

/-- Digits, of which some may stand behind a point. -/
def isMantissa (cs : List Char) : Bool :=
  match cs.dropWhile Char.isDigit with
  | [] => !cs.isEmpty
  | c :: fraction =>
    c == '.' && fraction.all Char.isDigit && (cs.head?.any Char.isDigit || !fraction.isEmpty)

def isExponent : List Char → Bool
  | [] => true
  | _ :: ds => isDecimal ds

def isNotExponent (c : Char) : Bool := c != 'e' && c != 'E'

/-- A mantissa, and maybe a sign before it and an exponent behind it. -/
def isFloating (cs : List Char) : Bool :=
  isMantissa ((unsigned cs).takeWhile isNotExponent) &&
    isExponent ((unsigned cs).dropWhile isNotExponent)

def infinityWords : List String := [".inf", ".Inf", ".INF"]

def notNumberWords : List String := [".nan", ".NaN", ".NAN"]

def isNumber (cs : List Char) : Bool :=
  isDecimal cs || isOctal cs || isHexadecimal cs || isFloating cs ||
    infinityWords.contains (String.ofList (unsigned cs)) ||
    notNumberWords.contains (String.ofList cs)

def nullWords : List String := ["", "~", "null", "Null", "NULL"]

def trueWords : List String := ["true", "True", "TRUE"]

def falseWords : List String := ["false", "False", "FALSE"]

section

-- The number that a text in one of the forms of the core schema stands for.
variable (numberOf : String → Float)

/-- The node that a plain text stands for. -/
def resolve (cs : List Char) : Node :=
  let text := String.ofList cs
  if nullWords.contains text then .null
  else if trueWords.contains text then .boolean true
  else if falseWords.contains text then .boolean false
  else if isNumber cs then .number (numberOf text)
  else .string text

/-- Whether a colon or a dash with this behind it has its own meaning. -/
def isGap : List Char → Bool
  | [] => true
  | c :: _ => c == ' '

/-- A plain text and what is behind it on its line: nothing, a colon, or a comment. -/
def plainSpan : List Char → List Char × List Char
  | [] => ([], [])
  | c :: cs =>
    if (c == ':' && isGap cs) || (c == ' ' && cs.head? == some '#') then ([], c :: cs)
    else (c :: (plainSpan cs).1, (plainSpan cs).2)

def trimEnd (cs : List Char) : List Char := (cs.reverse.dropWhile (· == ' ')).reverse

/-- Whether a plain text may begin so: not with an indicator, except that a dash, a question mark
or a colon may stand in front of a visible character. -/
def beginsPlain : List Char → Bool
  | [] | ' ' :: _ => false
  | '-' :: cs | '?' :: cs | ':' :: cs => !isGap cs
  | ',' :: _ | '[' :: _ | ']' :: _ | '\x7b' :: _ | '\x7d' :: _ => false
  | '#' :: _ | '&' :: _ | '*' :: _ | '!' :: _ | '|' :: _ | '>' :: _ => false
  | '\'' :: _ | '"' :: _ | '%' :: _ | '@' :: _ | '\x60' :: _ => false
  | _ => true

/-- The character of an escape of one letter. -/
def escape? : Char → Option Char
  | '"' => some '"'
  | '\\' => some '\\'
  | 'n' => some '\n'
  | 't' => some '\t'
  | 'r' => some '\r'
  | '0' => some '\x00'
  | _ => none

/-- The character of a code point in base sixteen. -/
def point? (ds : List Char) : Option Char :=
  (Number.hexAfter 0 ds).bind fun n => if n.isValidChar then some (Char.ofNat n) else none

/-- A quoted text and what is behind the quote that closes it. -/
def quotedSpan : List Char → Option (List Char × List Char)
  | [] => none
  | '"' :: cs => some ([], cs)
  | '\\' :: 'u' :: d₁ :: d₂ :: d₃ :: d₄ :: cs => do
    let c ← point? [d₁, d₂, d₃, d₄]
    let (text, rest) ← quotedSpan cs
    return (c :: text, rest)
  | '\\' :: c :: cs => do
    let c ← escape? c
    let (text, rest) ← quotedSpan cs
    return (c :: text, rest)
  | c :: cs => do
    let (text, rest) ← quotedSpan cs
    return (c :: text, rest)

/-- Whether nothing is left on a line but spaces and a comment behind them. -/
def isEnd (cs : List Char) : Bool :=
  let rest := cs.dropWhile (· == ' ')
  rest.isEmpty || (isGap cs && rest.head? == some '#')

def inlineNode? : Line → Option Node
  | '"' :: cs => do
    let (text, rest) ← quotedSpan cs
    if isEnd rest then some (.string (String.ofList text)) else none
  | '\x7b' :: '\x7d' :: rest => if isEnd rest then some (.mapping []) else none
  | '[' :: ']' :: rest => if isEnd rest then some (.sequence []) else none
  | cs =>
    let (text, rest) := plainSpan cs
    if beginsPlain cs && isEnd rest then some (resolve numberOf (trimEnd text)) else none

/-- What is behind a colon that a gap follows. -/
def afterColon? : List Char → Option Line
  | ':' :: cs => if isGap cs then some (cs.dropWhile (· == ' ')) else none
  | _ => none

def splitKey? : Line → Option (Node × Line)
  | '"' :: cs => do
    let (text, rest) ← quotedSpan cs
    return (.string (String.ofList text), ← afterColon? rest)
  | cs =>
    let (text, rest) := plainSpan cs
    if beginsPlain cs then (afterColon? rest).map (resolve numberOf (trimEnd text), ·) else none

def indentation (l : Line) : Nat := (l.takeWhile (· == ' ')).length

/-- Whether lines begin with a number of spaces, or have nothing else. -/
def isIndented (n : Nat) (ls : List Line) : Bool := ls.all fun l => (l.take n).all (· == ' ')

def dedent (n : Nat) (ls : List Line) : List Line := ls.map (·.drop n)

/-- The indentation of the first line. -/
def depth (ls : List Line) : Nat := indentation (ls.headD [])

/-- Whether lines are indented like the first of them, which has more than spaces. -/
def isBlock (ls : List Line) : Bool :=
  ls.isEmpty || (decide (0 < depth ls) && decide (depth ls < (ls.headD []).length) &&
    isIndented (depth ls) ls)

/-- Whether a line belongs to the item or the entry above it. -/
def isInner (l : Line) : Bool := l.isEmpty || l.head? == some ' '

/-- The end of a text that a literal block with this header holds. -/
def literalEnd? : Line → Option (List Char)
  | ['|'] => some ['\n']
  | ['|', '-'] => some []
  | _ => none

/-- The text of a literal block. Empty lines at its end do not count. -/
def literalText (ending : List Char) (ls : List Line) : List Char :=
  match (ls.reverse.dropWhile List.isEmpty).reverse with
  | [] => []
  | content => ['\n'].intercalate content ++ ending

def literal? (ending : List Char) (below : List Line) : Option Node :=
  if isBlock below then
    some (.string (String.ofList (literalText ending (dedent (depth below) below))))
  else none

def isItem : Line → Bool
  | '-' :: cs => isGap cs
  | _ => false

def itemHead (l : Line) : Line := (l.drop 1).dropWhile (· == ' ')

/-- The column that the content of an item begins at. -/
def itemWidth (l : Line) : Nat := 1 + indentation (l.drop 1)

def size (ls : List Line) : Nat := ls.foldr (fun l n => l.length + 1 + n) 0

@[simp] theorem size_nil : size [] = 0 := rfl

@[simp] theorem size_cons (l : Line) (ls : List Line) :
    size (l :: ls) = l.length + 1 + size ls := rfl

theorem size_append (ls ms : List Line) : size (ls ++ ms) = size ls + size ms := by
  induction ls with
  | nil => simp
  | cons l ls ih =>
    rw [List.cons_append, size_cons, size_cons, ih]
    omega

theorem size_dedent_le (n : Nat) (ls : List Line) : size (dedent n ls) ≤ size ls := by
  induction ls with
  | nil => exact Nat.le_refl _
  | cons l ls ih =>
    rw [dedent, List.map_cons, size_cons, size_cons, List.length_drop]
    rw [dedent] at ih
    omega

theorem size_inner_add (ls : List Line) :
    size (ls.takeWhile isInner) + size (ls.dropWhile isInner) = size ls := by
  rw [← size_append, List.takeWhile_append_dropWhile]

theorem length_itemHead_lt {l : Line} (h : isItem l = true) : (itemHead l).length < l.length := by
  cases l with
  | nil => cases h
  | cons c cs => exact Nat.lt_succ_of_le (List.dropWhile_suffix _).length_le

mutual

/-- The node of lines that stand by themselves. -/
def readNode : List Line → Option Node
  | [] => some .null
  | l :: below =>
    if isItem l then (readItems (l :: below)).map .sequence
    else if (splitKey? numberOf l).isSome then (readEntries (l :: below)).map .mapping
    else if below.isEmpty then inlineNode? numberOf l
    else none
termination_by ls => 3 * size ls + 1
decreasing_by all_goals omega

/-- The nodes of lines that begin with an item. -/
def readItems : List Line → Option (List Node)
  | [] => some []
  | l :: ls =>
    if _h : isItem l then do
      let node ← readItem (itemWidth l) (itemHead l) (ls.takeWhile isInner)
      let nodes ← readItems (ls.dropWhile isInner)
      return node :: nodes
    else none
termination_by ls => 3 * size ls
decreasing_by
  · have hsize := size_inner_add ls
    have hhead := length_itemHead_lt _h
    rw [size_cons, size_cons]
    omega
  · have hsize := size_inner_add ls
    rw [size_cons]
    omega

/-- The node of an item, of which `head` stands on its first line. -/
def readItem (width : Nat) (head : Line) (below : List Line) : Option Node :=
  match literalEnd? head with
  | some ending => literal? ending below
  | none =>
    if head.isEmpty then
      if isBlock below then readNode (dedent (depth below) below) else none
    else if isIndented width below then readNode (head :: dedent width below)
    else none
termination_by 3 * size (head :: below) + 2
decreasing_by
  · have hsize := size_dedent_le (depth below) below
    rw [size_cons]
    omega
  · have hsize := size_dedent_le width below
    rw [size_cons, size_cons]
    omega

/-- The nodes of lines that begin with an entry. -/
def readEntries : List Line → Option (List (Node × Node))
  | [] => some []
  | l :: ls => do
    let (key, head) ← splitKey? numberOf l
    let node ← readEntry head (ls.takeWhile isInner)
    let entries ← readEntries (ls.dropWhile isInner)
    return (key, node) :: entries
termination_by ls => 3 * size ls
decreasing_by
  all_goals
    have hsize := size_inner_add ls
    rw [size_cons]
    omega

/-- The node under a key, of which `head` stands behind the key. -/
def readEntry (head : Line) (below : List Line) : Option Node :=
  match literalEnd? head with
  | some ending => literal? ending below
  | none =>
    if head.isEmpty then
      if isBlock below then readNode (dedent (depth below) below) else none
    else if below.isEmpty then inlineNode? numberOf head
    else none
termination_by 3 * size below + 2
decreasing_by
  have hsize := size_dedent_le (depth below) below
  omega

end

/-- Whether a character stands for itself in a line, in every version of YAML: printable, and
neither a tab nor a line break nor the byte order mark. -/
def isTextChar (c : Char) : Bool :=
  let n := c.toNat
  (decide (0x20 ≤ n ∧ n ≤ 0x7e) || decide (0xa0 ≤ n ∧ n ≤ 0xd7ff) ||
      decide (0xe000 ≤ n ∧ n ≤ 0xfffd) || decide (0x10000 ≤ n ∧ n ≤ 0x10ffff)) &&
    !([0x2028, 0x2029, 0xfeff].contains n)

/-- Whether a line begins a document or ends one. -/
def isMarker : Line → Bool
  | '-' :: '-' :: '-' :: cs | '.' :: '.' :: '.' :: cs => isGap cs
  | _ => false

/-- The lines of a text. A line feed breaks it, a carriage return, or both. -/
def linesOf : List Char → List Line
  | [] => []
  | '\r' :: '\n' :: cs | '\n' :: cs | '\r' :: cs => [] :: linesOf cs
  | c :: cs =>
    match linesOf cs with
    | [] => [[c]]
    | l :: ls => (c :: l) :: ls

def readLines : List Line → Option Node
  | [] => none
  | l :: below =>
    match literalEnd? l with
    | some ending => literal? ending below
    | none => readNode numberOf (l :: below)

/-- The node of a document. -/
def read (text : String) : Option Node :=
  let ls := linesOf text.toList
  if ls.all fun l => l.all isTextChar && !isMarker l then readLines numberOf ls else none

end

end TypedConfig.Yaml
