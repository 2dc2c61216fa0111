import TypedConfig.Document.Emit
import TypedConfig.Proofs.Number.Finite

/-! # Documents by lines

A document is a list of lines, and nesting moves lines to the right. What the writer puts out for
a value at an indentation are the lines of the value moved there, and it stops where the check of
the numbers does.
-/

namespace TypedConfig.Yaml

/-- A leaf as the rest of the line that it begins on and the lines below. -/
structure Leaf where
  head : Line
  below : List Line

def scalarLeaf : Scalar → Leaf
  | .string s =>
    match blockText? s with
    | some (header, lines) => ⟨header, lines⟩
    | none => ⟨inlineText s, []⟩
  | .number x => ⟨((Number.text? x).getD "").toList, []⟩
  | .boolean b => ⟨(if b then "true" else "false").toList, []⟩

/-- A scalar, a constant or an empty collection. -/
def leaf? : Value → Option Leaf
  | .scalar s => some (scalarLeaf s)
  | .sentinel c => some (scalarLeaf c.literal)
  | .record [] => some ⟨['\x7b', '\x7d'], []⟩
  | .sequence [] => some ⟨['[', ']'], []⟩
  | _ => none

/-- A line moved two places to the right; an empty line stays empty. -/
def indentLine (l : Line) : Line := if l.isEmpty then l else ' ' :: ' ' :: l

def leafLines (lead : Line) (l : Leaf) : List Line :=
  (lead ++ l.head) :: l.below.map indentLine

def itemOf : List Line → List Line
  | [] => []
  | l :: ls => ('-' :: ' ' :: l) :: ls.map indentLine

mutual

def lines : Value → List Line
  | .record (e :: es) => entryLines (e :: es)
  | .sequence (v :: vs) => itemLines (v :: vs)
  | v => ((leaf? v).map (leafLines [])).getD []

def entryLines : List (String × Value) → List Line
  | [] => []
  | (k, v) :: es =>
    (match leaf? v with
      | some l => leafLines (inlineText k ++ [':', ' ']) l
      | none => (inlineText k ++ [':']) :: (lines v).map indentLine)
      ++ entryLines es

def itemLines : List Value → List Line
  | [] => []
  | v :: vs =>
    (match leaf? v with
      | some l => leafLines ['-', ' '] l
      | none => itemOf (lines v))
      ++ itemLines vs

end

/-- Lines as a text, each ended by a line feed. -/
def ofLines (ls : List Line) : String := String.ofList (ls.flatMap (· ++ ['\n']))

/-- The document of a value whose numbers are finite. -/
def document (v : Value) : String := ofLines (lines v)

/-- A line moved some places to the right; an empty line stays empty. -/
def shift (n : Nat) (l : Line) : Line := if l.isEmpty then l else spaces n ++ l

@[simp] theorem shift_zero (l : Line) : shift 0 l = l := by
  unfold shift spaces
  split <;> rfl

theorem shift_of_ne_nil {l : Line} (h : l ≠ []) (n : Nat) : shift n l = spaces n ++ l := by
  cases l with
  | nil => exact absurd rfl h
  | cons c cs => rfl

theorem shift_indentLine (n : Nat) (l : Line) : shift n (indentLine l) = shift (n + 2) l := by
  cases l with
  | nil => rfl
  | cons c cs =>
    have hspaces : spaces (n + 2) = spaces n ++ [' ', ' '] := by
      simp [spaces, List.replicate_succ']
    show spaces n ++ ' ' :: ' ' :: c :: cs = spaces (n + 2) ++ c :: cs
    rw [hspaces, List.append_assoc]
    rfl

/-- Lines moved to the right, the first one not if it continues a line. -/
def placed (n : Nat) (inline : Bool) : List Line → List Line
  | [] => []
  | l :: ls => (if inline then l else shift n l) :: ls.map (shift n)

theorem placed_false (n : Nat) (ls : List Line) : placed n false ls = ls.map (shift n) := by
  cases ls <;> rfl

/-- Lines as characters, each ended by a line feed. -/
def text (ls : List Line) : List Char := ls.flatMap (· ++ ['\n'])

theorem text_append (ls ms : List Line) : text (ls ++ ms) = text ls ++ text ms :=
  List.flatMap_append

theorem text_cons (l : Line) (ls : List Line) : text (l :: ls) = l ++ '\n' :: text ls := by
  simp [text]

theorem writeBlock_eq (n : Nat) (ls : List Line) :
    writeBlock n ls = text (ls.map (shift n)) := by
  induction ls with
  | nil => rfl
  | cons l ls ih =>
    rw [List.map_cons, text_cons, ← ih, writeBlock, List.flatMap_cons, ← writeBlock]
    cases l <;> simp [shift]

/-- The text of a leaf whose first line has been begun. -/
def Leaf.text (n : Nat) (l : Leaf) : List Char :=
  Yaml.text (l.head :: l.below.map (shift (n + 2)))

@[simp] theorem Leaf.text_line (n : Nat) (head : Line) : Leaf.text n ⟨head, []⟩ = head ++ ['\n'] :=
  text_cons head []

theorem writeScalar_eq (n : Nat) (path : String) (s : Scalar) :
    writeLeaf n path (.scalar s) = do
      Value.checkScalar path s
      return (scalarLeaf s).text n := by
  cases s with
  | boolean b => rw [scalarLeaf, Leaf.text_line]; rfl
  | string s =>
    simp only [writeLeaf, Value.text?, Value.scalar?, Option.bind_some, scalarLeaf]
    rcases blockText? s with _ | ⟨header, ls⟩
    · rw [Leaf.text_line]
      rfl
    · simp only [writeBlock_eq, Leaf.text, text_cons]
      rfl
  | number x =>
    simp only [writeLeaf, Value.text?, Value.scalar?, Option.bind_none, leafText, scalarText,
      Value.checkScalar, scalarLeaf, Leaf.text_line]
    rcases ht : Number.text? x with _ | t
    · have hx : ¬ x.isFinite = true := fun h => by simp [Number.isFinite_iff, ht] at h
      rw [if_neg hx]
      rfl
    · have hx : x.isFinite = true := Number.isFinite_iff.2 (by rw [ht]; rfl)
      rw [if_pos hx]
      rfl

theorem writeLeaf_eq {v : Value} {l : Leaf} (hl : leaf? v = some l) (n : Nat) (path : String) :
    writeLeaf n path v = do
      v.checkFinite path
      return l.text n := by
  cases v with
  | scalar s => cases hl; exact writeScalar_eq n path s
  | sentinel c => cases hl; exact writeScalar_eq n path c.literal
  | record es =>
    cases es with
    | nil => cases hl; rfl
    | cons e es => cases hl
  | sequence vs =>
    cases vs with
    | nil => cases hl; rfl
    | cons v vs => cases hl

def fieldText (n : Nat) (v : Value) : List Char :=
  match leaf? v with
  | some l => ' ' :: l.text n
  | none => '\n' :: text (placed (n + 2) false (lines v))

def itemText (n : Nat) (v : Value) : List Char :=
  match leaf? v with
  | some l => l.text n
  | none => text (placed (n + 2) true (lines v))

theorem map_shift_indent (n : Nat) (ls : List Line) :
    (ls.map indentLine).map (shift n) = ls.map (shift (n + 2)) := by
  rw [List.map_map]
  exact List.map_congr_left fun l _ => shift_indentLine n l

theorem placed_append {ls : List Line} (h : ls ≠ []) (n : Nat) (inline : Bool) (ms : List Line) :
    placed n inline (ls ++ ms) = placed n inline ls ++ placed n false ms := by
  obtain ⟨l, ls, rfl⟩ := List.exists_cons_of_ne_nil h
  rw [placed_false, List.cons_append, placed, List.map_append]
  rfl

/-- The text of lines of which the first one begins with a lead. -/
theorem text_placed_cons (n : Nat) (inline : Bool) {lead : Line} (h : lead ≠ []) (l : Line)
    (ls : List Line) :
    text (placed n inline ((lead ++ l) :: ls.map indentLine)) =
      (if inline then [] else spaces n) ++
        (lead ++ (l ++ '\n' :: text (ls.map (shift (n + 2))))) := by
  have hne : lead ++ l ≠ [] := by simp [h]
  rw [placed, map_shift_indent, text_cons, shift_of_ne_nil hne]
  cases inline <;> simp

theorem entryLines_ne_nil (k : String) (v : Value) (es : List (String × Value)) :
    entryLines ((k, v) :: es) ≠ [] := by
  rw [entryLines]
  split <;> simp [leafLines]

theorem itemLines_ne_nil : ∀ (v : Value) (vs : List Value), itemLines (v :: vs) ≠ []
  | .scalar _, _ | .sentinel _, _ | .record [], _ | .sequence [], _ => List.cons_ne_nil _ _
  | .record ((k, v) :: es), vs => by
    have hlines : itemLines (.record ((k, v) :: es) :: vs) =
        itemOf (entryLines ((k, v) :: es)) ++ itemLines vs := rfl
    obtain ⟨l, ls, hl⟩ := List.exists_cons_of_ne_nil (entryLines_ne_nil k v es)
    rw [hlines, hl]
    exact List.cons_ne_nil _ _
  | .sequence (v :: ws), vs => by
    have hlines : itemLines (.sequence (v :: ws) :: vs) =
        itemOf (itemLines (v :: ws)) ++ itemLines vs := rfl
    obtain ⟨l, ls, hl⟩ := List.exists_cons_of_ne_nil (itemLines_ne_nil v ws)
    rw [hlines, hl]
    exact List.cons_ne_nil _ _

theorem lines_ne_nil {v : Value} (h : leaf? v = none) : lines v ≠ [] := by
  cases v with
  | scalar | sentinel => cases h
  | record es =>
    cases es with
    | nil => cases h
    | cons e es => exact entryLines_ne_nil e.1 e.2 es
  | sequence vs =>
    cases vs with
    | nil => cases h
    | cons v vs => exact itemLines_ne_nil v vs

theorem text_entry (n : Nat) (inline : Bool) (k : String) (v : Value)
    (es : List (String × Value)) :
    text (placed n inline (entryLines ((k, v) :: es))) =
      (if inline then [] else spaces n) ++ inlineText k ++ ':' :: fieldText n v ++
        text (placed n false (entryLines es)) := by
  rw [entryLines, fieldText]
  cases leaf? v with
  | some l =>
    simp only [leafLines]
    rw [placed_append (List.cons_ne_nil _ _), text_append,
      text_placed_cons n inline (by simp) l.head l.below, Leaf.text, text_cons]
    simp
  | none =>
    have hhead : inlineText k ++ [':'] = (inlineText k ++ [':']) ++ [] := (List.append_nil _).symm
    simp only []
    rw [placed_append (List.cons_ne_nil _ _), text_append, hhead,
      text_placed_cons n inline (by simp) [] (lines v), placed_false (n + 2)]
    simp

theorem text_item (n : Nat) (inline : Bool) (v : Value) (vs : List Value) :
    text (placed n inline (itemLines (v :: vs))) =
      (if inline then [] else spaces n) ++ '-' :: ' ' :: itemText n v ++
        text (placed n false (itemLines vs)) := by
  rw [itemLines, itemText]
  cases hl : leaf? v with
  | some l =>
    simp only [leafLines]
    rw [placed_append (List.cons_ne_nil _ _), text_append,
      text_placed_cons n inline (by simp) l.head l.below, Leaf.text, text_cons]
    simp
  | none =>
    obtain ⟨l, ls, hlines⟩ := List.exists_cons_of_ne_nil (lines_ne_nil hl)
    have hitem : itemOf (l :: ls) = (['-', ' '] ++ l) :: ls.map indentLine := rfl
    simp only [hlines, hitem]
    rw [placed_append (List.cons_ne_nil _ _), text_append,
      text_placed_cons n inline (by simp) l ls, placed, text_cons]
    simp

theorem writeItem_leaf {v : Value} {l : Leaf} (hl : leaf? v = some l) (n : Nat) (path : String) :
    writeItem n path v = writeLeaf n path v := by
  cases v with
  | scalar | sentinel => rfl
  | record es => cases es <;> first | rfl | cases hl
  | sequence vs => cases vs <;> first | rfl | cases hl

theorem writeField_leaf {v : Value} {l : Leaf} (hl : leaf? v = some l) (n : Nat)
    (path : String) : writeField n path v = do return ' ' :: (← writeLeaf n path v) := by
  cases v with
  | scalar | sentinel => rfl
  | record es => cases es <;> first | rfl | cases hl
  | sequence vs => cases vs <;> first | rfl | cases hl

theorem writeItem_leaf_eq {v : Value} {l : Leaf} (hl : leaf? v = some l) (n : Nat)
    (path : String) :
    writeItem n path v = do
      v.checkFinite path
      return itemText n v := by
  rw [writeItem_leaf hl, writeLeaf_eq hl, itemText, hl]

theorem writeField_leaf_eq {v : Value} {l : Leaf} (hl : leaf? v = some l) (n : Nat)
    (path : String) :
    writeField n path v = do
      v.checkFinite path
      return fieldText n v := by
  rw [writeField_leaf hl, writeLeaf_eq hl, fieldText, hl]
  simp only [bind_assoc, pure_bind]

mutual

theorem writeField_eq : ∀ (v : Value) (n : Nat) (path : String),
    writeField n path v = do
      v.checkFinite path
      return fieldText n v
  | .record (e :: es), n, path => by
    rw [writeField, writeEntries_eq (e :: es), Value.checkFinite]
    simp only [bind_assoc, pure_bind]
    rfl
  | .sequence (v :: vs), n, path => by
    rw [writeField, writeItems_eq (v :: vs), Value.checkFinite]
    simp only [bind_assoc, pure_bind]
    rfl
  | .scalar s, n, path => writeField_leaf_eq (v := .scalar s) rfl n path
  | .sentinel c, n, path => writeField_leaf_eq (v := .sentinel c) rfl n path
  | .record [], n, path => writeField_leaf_eq (v := .record []) rfl n path
  | .sequence [], n, path => writeField_leaf_eq (v := .sequence []) rfl n path

theorem writeItem_eq : ∀ (v : Value) (n : Nat) (path : String),
    writeItem n path v = do
      v.checkFinite path
      return itemText n v
  | .record (e :: es), n, path => writeEntries_eq (e :: es) (n + 2) true path
  | .sequence (v :: vs), n, path => writeItems_eq (v :: vs) (n + 2) true path 0
  | .scalar s, n, path => writeItem_leaf_eq (v := .scalar s) rfl n path
  | .sentinel c, n, path => writeItem_leaf_eq (v := .sentinel c) rfl n path
  | .record [], n, path => writeItem_leaf_eq (v := .record []) rfl n path
  | .sequence [], n, path => writeItem_leaf_eq (v := .sequence []) rfl n path

theorem writeEntries_eq : ∀ (es : List (String × Value)) (n : Nat) (inline : Bool)
    (path : String),
    writeEntries n inline path es = do
      Value.checkEntries path es
      return text (placed n inline (entryLines es))
  | [], _, _, _ => rfl
  | (k, v) :: es, n, inline, path => by
    rw [writeEntries, writeField_eq v, writeEntries_eq es, Value.checkEntries, text_entry]
    simp only [bind_assoc, pure_bind]

theorem writeItems_eq : ∀ (vs : List Value) (n : Nat) (inline : Bool) (path : String) (i : Nat),
    writeItems n inline path i vs = do
      Value.checkItems path i vs
      return text (placed n inline (itemLines vs))
  | [], _, _, _, _ => rfl
  | v :: vs, n, inline, path, i => by
    rw [writeItems, writeItem_eq v, writeItems_eq vs, Value.checkItems, text_item]
    simp only [bind_assoc, pure_bind]

end

theorem map_shift_zero (ls : List Line) : ls.map (shift 0) = ls := by
  rw [List.map_congr_left fun l _ => shift_zero l, List.map_id']

theorem text_leaf {v : Value} {l : Leaf} (hl : leaf? v = some l) : l.text 0 = text (lines v) := by
  have hlines : lines v = leafLines [] l := by
    cases v with
    | scalar | sentinel => cases hl; rfl
    | record es => cases es <;> cases hl; rfl
    | sequence vs => cases vs <;> cases hl; rfl
  rw [hlines, Leaf.text, leafLines, ← map_shift_indent, map_shift_zero]
  rfl

theorem write_leaf {v : Value} {l : Leaf} (hl : leaf? v = some l) (path : String) :
    write path v = do return String.ofList (← writeLeaf 0 path v) := by
  cases v with
  | scalar | sentinel => rfl
  | record es => cases es <;> first | rfl | cases hl
  | sequence vs => cases vs <;> first | rfl | cases hl

/-- The writer puts out the lines of a value unless a number in it is not finite. -/
theorem write_eq (path : String) (v : Value) :
    write path v = do
      v.checkFinite path
      return document v := by
  cases hl : leaf? v with
  | some l =>
    rw [write_leaf hl, writeLeaf_eq hl, text_leaf hl]
    simp only [bind_assoc, pure_bind]
    rfl
  | none =>
    cases v with
    | scalar | sentinel => cases hl
    | record es =>
      cases es with
      | nil => cases hl
      | cons e es =>
        rw [write, writeEntries_eq, placed_false, map_shift_zero]
        simp only [bind_assoc, pure_bind]
        rfl
    | sequence vs =>
      cases vs with
      | nil => cases hl
      | cons v vs =>
        rw [write, writeItems_eq, placed_false, map_shift_zero]
        simp only [bind_assoc, pure_bind]
        rfl

end TypedConfig.Yaml

namespace TypedConfig

/-- The document of a value, whose numbers are checked before anything is written. -/
theorem Format.write_eq (f : Format) (path : String) (v : Value) :
    f.write path v = do
      v.checkFinite path
      return match f with
        | .yaml => Yaml.document v
        | .json => Json.document v := by
  cases f with
  | yaml => exact Yaml.write_eq path v
  | json => rfl

theorem Value.toYaml_eq (v : Value) :
    v.toYaml = do
      v.checkFinite ""
      return Yaml.document v := Yaml.write_eq "" v

end TypedConfig
