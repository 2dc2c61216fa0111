import Mathlib.Logic.Relation
import TypedConfig.Schema.Declaration

/-! # The grammar of declarations

A form is what a token or several tokens make. Behind the first tokens of a source some forms are
wanted, one behind the other, and the next token, or that and the one behind it, tells which forms
make up the first of them. So there is at most one place where a source cannot be read on, which is
where a token does not begin the form that is wanted.
-/

namespace TypedConfig

open Relation (ReflTransGen)

variable {maxDepth : Nat} {tokens passed passed' ls : List Lexeme} {l l' : Lexeme}

theorem mem_of_next (h : passed ++ [l] <+: tokens) : l ∈ tokens := h.subset (by simp)

theorem next_unique (h : passed ++ [l] <+: tokens) (h' : passed ++ [l'] <+: tokens) : l = l' := by
  obtain ⟨after, hafter⟩ := h
  obtain ⟨after', rfl⟩ := h'
  rw [List.append_assoc, List.append_assoc, List.append_cancel_left_eq] at hafter
  exact (List.cons.inj hafter).1

namespace Declaration

/-- What a name is the name of. -/
inductive NameKind
  | interface | type | constant | root | key

def NameKind.wording : NameKind → String
  | interface => "interface name"
  | type => "type name"
  | constant => "constant name"
  | root => "binding name"
  | key => "index key name"

/-- The forms of single tokens come first. A type or the members of a block have a number of types
around them. -/
inductive Form
  | mark (p : Punct)
  | anyOf (marks : List Punct)
  | word (text : String)
  | name (kind : NameKind)
  | field
  | path
  | number
  | plain
  | optional (f : Form)
  | separators (marks : List Punct)
  | statements
  | statement
  | declared
  | value
  | literal
  | type (n : Nat)
  | alternatives (n : Nat)
  | primary (n : Nat)
  | brackets
  | members (n : Nat)

namespace Form

abbrev source : List Form := [separators [.semicolon], statements]

abbrev block (n : Nat) : List Form := [separators [.semicolon, .comma], members n]

/-- An index signature behind its opening bracket. -/
abbrev signature (n : Nat) : List Form :=
  [name .key, mark .colon, word "string", mark .rightBracket, mark .colon, type n]

abbrev alternative (n : Nat) : List Form := [primary n, brackets]

abbrev fieldParts (n : Nat) : List Form :=
  [field, optional (mark .question), mark .colon, type n]

/-- How messages name what is wanted. -/
def wording? : Form → Option String
  | mark p => some ("`" ++ p.text ++ "`")
  | name kind => some kind.wording
  | field => some "field name"
  | number | plain => some "a literal value"
  | primary _ => some "a type"
  | statement => some "a declaration"
  | _ => none

/-- Whether a token has the form. -/
def takes (l : Lexeme) : Form → Bool
  | mark p => l.isPunct p
  | anyOf marks => marks.any l.isPunct
  | word text => l.isName text
  | name _ =>
    match l.token with
    | .name _ => true
    | _ => false
  | field =>
    match l.token with
    | .name _ | .string _ => true
    | _ => false
  | path =>
    match l.token with
    | .string _ => true
    | _ => false
  | number =>
    match l.token with
    | .number _ => true
    | _ => false
  | plain =>
    match l.token with
    | .number _ | .string _ => true
    | _ => l.isName "true" || l.isName "false"
  | _ => false

/-- The names of types that type arguments may follow. -/
def sequenceNames : List String := ["Array", "OneOrMany"]

/-- The names of types that are not told by what follows them. -/
def plainNames : List String := ["string", "number", "boolean", "true", "false"]

/-- The forms that make up a form whose first two tokens are known. -/
def parts? (maxDepth : Nat) (l : Lexeme) (second : Option Lexeme) : Form → Option (List Form)
  | optional f => some (if f.takes l then [f] else [])
  | separators marks =>
    some (if marks.any l.isPunct then [anyOf marks, separators marks] else [])
  | statements => some (if l.isEnd then [] else optional (word "export") :: statement :: source)
  | statement =>
    if l.isName "interface" then
      some (word "interface" :: name .interface :: mark .leftBrace :: block 0)
    else if l.isName "type" then
      some [word "type", name .type, mark .assign, type 0, optional (mark .semicolon)]
    else if l.isName "declare" then some [word "declare", declared]
    else if l.isName "import" then some [word "import", path, optional (mark .semicolon)]
    else none
  | declared =>
    if l.isName "const" then
      some [word "const", name .constant, value, optional (mark .semicolon)]
    else if l.isName "var" then
      some [word "var", name .root, mark .colon, type 0, optional (mark .semicolon)]
    else if l.isName "let" then
      some [word "let", name .root, mark .colon, type 0, optional (mark .semicolon)]
    else none
  | value =>
    if l.isPunct .assign then some [mark .assign, literal]
    else if l.isPunct .colon then some [mark .colon, type 0]
    else none
  | literal => some (if l.isPunct .minus then [mark .minus, number] else [plain])
  | type n =>
    if n < maxDepth then
      some (optional (mark .pipe) :: (alternative n ++ [alternatives n]))
    else none
  | alternatives n =>
    some (if l.isPunct .pipe then mark .pipe :: (alternative n ++ [alternatives n]) else [])
  | primary n =>
    match l.token with
    | .punct .leftParen => some [mark .leftParen, type (n + 1), mark .rightParen]
    | .punct .leftBrace => some (mark .leftBrace :: block (n + 1))
    | .punct .minus | .string _ | .number _ => some [literal]
    | .name text =>
      if text ∈ sequenceNames then
        some [word text, mark .less, type (n + 1), mark .greater]
      else if text ∈ plainNames then some [word text]
      else if text ∈ excludedNames ∨ second.any (·.isPunct .less) then none
      else some [word text]
    | _ => none
  | brackets =>
    some (if l.isPunct .leftBracket ∧ second.any (·.isPunct .rightBracket) then
      [mark .leftBracket, mark .rightBracket, brackets] else [])
  | members n =>
    if l.isPunct .rightBrace then some [mark .rightBrace]
    else if l.isEnd then none
    else if l.isPunct .leftBracket then some (mark .leftBracket :: (signature n ++ block n))
    else some (fieldParts n ++ block n)
  | _ => none

/-- A single token is not made of others. -/
theorem parts?_of_takes {f : Form} (h : f.takes l = true) (second : Option Lexeme) :
    f.parts? maxDepth l second = none := by
  cases f <;> first | rfl | cases h

end Form

open Form

structure Place where
  wanted : List Form
  passed : List Lexeme

/-- A token is passed that has the form which is wanted first, or that form is taken apart. -/
inductive Move (maxDepth : Nat) (tokens : List Lexeme) : Place → Place → Prop
  | token {f : Form} {fs : List Form} {passed : List Lexeme} {l : Lexeme}
    (hl : passed ++ [l] <+: tokens) (hf : f.takes l = true) :
    Move maxDepth tokens ⟨f :: fs, passed⟩ ⟨fs, passed ++ [l]⟩
  | parts {f : Form} {fs gs : List Form} {passed rest : List Lexeme} {l : Lexeme}
    (hl : tokens = passed ++ l :: rest) (hf : f.parts? maxDepth l rest.head? = some gs) :
    Move maxDepth tokens ⟨f :: fs, passed⟩ ⟨gs ++ fs, passed⟩

/-- One place is behind another, or the same. -/
abbrev Leads (maxDepth : Nat) (tokens : List Lexeme) : Place → Place → Prop :=
  ReflTransGen (Move maxDepth tokens)

/-- Some forms are the first that a source goes on with behind some tokens. -/
def Wants (maxDepth : Nat) (tokens : List Lexeme) (fs : List Form) (passed : List Lexeme) : Prop :=
  ∃ below, Leads maxDepth tokens ⟨source, []⟩ ⟨fs ++ below, passed⟩

/-- A token stands where a form is wanted that it does not begin. -/
structure Stuck (maxDepth : Nat) (tokens : List Lexeme) (f : Form) (passed : List Lexeme)
    (l : Lexeme) : Prop where
  wanted : Wants maxDepth tokens [f] passed
  takes : f.takes l = false
  parts : ∃ rest, tokens = passed ++ l :: rest ∧ f.parts? maxDepth l rest.head? = none

variable {f f' : Form} {fs fs' gs : List Form} {p q : Place}

theorem next_of_eq {rest : List Lexeme} (h : tokens = passed ++ l :: rest) :
    passed ++ [l] <+: tokens :=
  ⟨rest, by rw [h, List.append_assoc]; rfl⟩

theorem eq_of_next (h : passed ++ [l] <+: tokens) : ∃ rest, tokens = passed ++ l :: rest := by
  obtain ⟨rest, rfl⟩ := h
  exact ⟨rest, by rw [List.append_assoc]; rfl⟩

theorem move_rightUnique : Relator.RightUnique (Move maxDepth tokens) := by
  rintro p q q' (⟨hl, hf⟩ | ⟨hl, hf⟩) (⟨hl', hf'⟩ | ⟨hl', hf'⟩)
  · rw [next_unique hl hl']
  · obtain rfl := next_unique hl (next_of_eq hl')
    cases (parts?_of_takes hf _).symm.trans hf'
  · obtain rfl := next_unique hl' (next_of_eq hl)
    cases (parts?_of_takes hf' _).symm.trans hf
  · obtain ⟨rfl, rfl⟩ := List.cons.inj (List.append_cancel_left (hl.symm.trans hl'))
    rw [Option.some.inj (hf.symm.trans hf')]

namespace Leads

theorem take (hl : passed ++ [l] <+: tokens) (hf : f.takes l = true) :
    Leads maxDepth tokens ⟨f :: fs, passed⟩ ⟨fs, passed ++ [l]⟩ := .single (.token hl hf)

theorem parts (hl : passed ++ [l] <+: tokens)
    (hf : ∀ second, f.parts? maxDepth l second = some gs) :
    Leads maxDepth tokens ⟨f :: fs, passed⟩ ⟨gs ++ fs, passed⟩ := by
  obtain ⟨rest, hrest⟩ := eq_of_next hl
  exact .single (.parts hrest (hf _))

/-- The first token of a form that is taken apart. -/
theorem enter (hl : passed ++ [l] <+: tokens)
    (hf : ∀ second, f.parts? maxDepth l second = some (f' :: gs)) (hf' : f'.takes l = true) :
    Leads maxDepth tokens ⟨f :: fs, passed⟩ ⟨gs ++ fs, passed ++ [l]⟩ :=
  (parts hl hf).trans (take hl hf')

/-- What is wanted further on does not matter. -/
theorem append (h : Leads maxDepth tokens p q) (below : List Form) :
    Leads maxDepth tokens ⟨p.wanted ++ below, p.passed⟩ ⟨q.wanted ++ below, q.passed⟩ := by
  induction h with
  | refl => exact .refl
  | tail _ hmove ih =>
    refine ih.tail ?_
    cases hmove with
    | token hl hf => exact .token hl hf
    | parts hl hf =>
      rw [List.append_assoc]
      exact .parts hl hf

theorem comp (h : Leads maxDepth tokens ⟨fs, passed⟩ ⟨[], passed'⟩)
    (h' : Leads maxDepth tokens ⟨gs, passed'⟩ q) : Leads maxDepth tokens ⟨fs ++ gs, passed⟩ q :=
  (h.append gs).trans h'

end Leads

namespace Wants

theorem leads (h : Wants maxDepth tokens (fs ++ gs) passed)
    (hfs : Leads maxDepth tokens ⟨fs, passed⟩ ⟨fs', passed'⟩) :
    Wants maxDepth tokens (fs' ++ gs) passed' := by
  obtain ⟨below, h⟩ := h
  rw [List.append_assoc] at h
  exact ⟨below, by simpa using h.trans (hfs.append (gs ++ below))⟩

theorem trans (h : Wants maxDepth tokens fs passed)
    (hfs : Leads maxDepth tokens ⟨fs, passed⟩ ⟨fs', passed'⟩) :
    Wants maxDepth tokens fs' passed' := by
  rw [← List.append_nil fs] at h
  exact List.append_nil fs' ▸ h.leads hfs

theorem first (h : Wants maxDepth tokens (fs ++ gs) passed) : Wants maxDepth tokens fs passed := by
  obtain ⟨below, h⟩ := h
  exact ⟨gs ++ below, by rwa [← List.append_assoc]⟩

end Wants

namespace Stuck

theorem next (h : Stuck maxDepth tokens f passed l) : passed ++ [l] <+: tokens := by
  obtain ⟨rest, hrest, -⟩ := h.parts
  exact next_of_eq hrest

theorem of_next (h : Wants maxDepth tokens (f :: fs) passed) (hl : passed ++ [l] <+: tokens)
    (htakes : f.takes l = false) (hparts : ∀ second, f.parts? maxDepth l second = none) :
    Stuck maxDepth tokens f passed l := by
  replace h : Wants maxDepth tokens ([f] ++ fs) passed := h
  obtain ⟨rest, hrest⟩ := eq_of_next hl
  exact ⟨h.first, htakes, rest, hrest, hparts _⟩

/-- Nothing lies behind the place where a source cannot be read on. -/
theorem eq_of_leads {below : List Form} (h : Stuck maxDepth tokens f passed l)
    (hq : Leads maxDepth tokens ⟨f :: below, passed⟩ q) : q = ⟨f :: below, passed⟩ := by
  rcases hq.cases_head with rfl | ⟨_, hmove, -⟩
  · rfl
  · obtain ⟨rest, hrest, hnone⟩ := h.parts
    cases hmove with
    | token hl hf =>
      obtain rfl := next_unique hl (next_of_eq hrest)
      cases h.takes.symm.trans hf
    | parts hl hf =>
      obtain ⟨rfl, rfl⟩ := List.cons.inj (List.append_cancel_left (hl.symm.trans hrest))
      cases hnone.symm.trans hf

/-- There is one place at most where a source cannot be read on. -/
theorem unique (h : Stuck maxDepth tokens f passed l) (h' : Stuck maxDepth tokens f' passed' l') :
    f = f' ∧ passed = passed' ∧ l = l' := by
  obtain ⟨below, hreached⟩ := h.wanted
  obtain ⟨below', hreached'⟩ := h'.wanted
  have hplace : (⟨f :: below, passed⟩ : Place) = ⟨f' :: below', passed'⟩ := by
    rcases ReflTransGen.total_of_right_unique move_rightUnique hreached hreached' with hle | hle
    · exact (h.eq_of_leads hle).symm
    · exact h'.eq_of_leads hle
  cases hplace
  exact ⟨rfl, rfl, next_unique h.next h'.next⟩

/-- Where a source cannot be read on, it is not made of statements. -/
theorem not_leads (h : Stuck maxDepth tokens f passed l) :
    ¬ Leads maxDepth tokens ⟨source, []⟩ ⟨[], passed'⟩ := by
  intro hend
  obtain ⟨below, hreached⟩ := h.wanted
  rcases ReflTransGen.total_of_right_unique move_rightUnique hreached hend with hle | hle
  · cases h.eq_of_leads hle
  · rcases hle.cases_head with heq | ⟨_, hmove, -⟩
    · cases heq
    · cases hmove

end Stuck

end Declaration

end TypedConfig
