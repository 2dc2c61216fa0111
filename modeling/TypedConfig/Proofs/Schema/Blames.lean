import TypedConfig.Proofs.Schema.Forms
import TypedConfig.Proofs.Schema.Reading

/-! # What declarations are refused for

A reader of declarations that fails blames tokens: the one that its source cannot go on with, or
those of a construct that no schema may have. What it gives goes with the forms that are wanted
where it begins, and the names in that stand where names of their kind are wanted.
-/

namespace TypedConfig

variable {α β : Type} {maxDepth : Nat} {tokens passed ls : List Lexeme} {l : Lexeme}

theorem Token.eq_of_isName {t : Token} {word : String} (h : t.isName word = true) :
    t = name word := by
  cases t with
  | name text => exact congrArg name (beq_iff_eq.1 h)
  | _ => cases h

theorem isName_eq {word : String} (h : l.isName word = true) (other : String) :
    l.isName other = (word == other) := by
  rw [Lexeme.isName, Token.eq_of_isName h]
  rfl

theorem isPunct_eq {p : Punct} (h : l.isPunct p = true) (q : Punct) :
    l.isPunct q = (p == q) := by
  rw [Lexeme.isPunct, Token.eq_of_isPunct h]
  rfl

theorem isEnd_of_isName {word : String} (h : l.isName word = true) : l.isEnd = false := by
  rw [Lexeme.isEnd, Token.eq_of_isName h]
  rfl

theorem isEnd_of_isPunct {p : Punct} (h : l.isPunct p = true) : l.isEnd = false := by
  rw [Lexeme.isEnd, Token.eq_of_isPunct h]
  rfl

theorem isEnd_of_token {t : Token} (h : l.token = t) (ht : t.isEnd = false) : l.isEnd = false := by
  rwa [Lexeme.isEnd, h]

/-- The cursor stands behind the tokens that have been passed, and the last of all tokens is the
only end token. -/
structure Cursor.Behind (tokens passed : List Lexeme) (c : Cursor) : Prop where
  tokens : tokens = passed ++ (c.ahead ++ [c.last])
  last : c.last.isEnd = true
  ahead : ∀ l ∈ c.ahead, l.isEnd = false
  previous : ∀ l ∈ passed.getLast?, c.previous = l.span

namespace Cursor.Behind

variable {c : Cursor}

theorem peek (h : c.Behind tokens passed) : passed ++ [c.peek] <+: tokens := by
  obtain ⟨_ | ⟨l, ls⟩, last, previous⟩ := c
  · exact ⟨[], (List.append_nil _).trans h.tokens.symm⟩
  · exact ⟨ls ++ [last], (List.append_assoc ..).trans h.tokens.symm⟩

theorem peek_eq (h : c.Behind tokens passed) (hl : passed ++ [l] <+: tokens) : c.peek = l :=
  next_unique h.peek hl

theorem begins (h : c.Behind tokens passed) : passed <+: tokens := ⟨_, h.tokens.symm⟩

theorem length_lt (h : c.Behind tokens passed) : passed.length < tokens.length := by
  rw [h.tokens]
  simp

theorem advance (h : c.Behind tokens passed) (hin : c.peek.isEnd = false) :
    c.advance.Behind tokens (passed ++ [c.peek]) := by
  obtain ⟨_ | ⟨l, ls⟩, last, previous⟩ := c
  · exact absurd (h.last.symm.trans hin) nofun
  · refine ⟨h.tokens.trans (List.append_cons ..), h.last, fun m hm => h.ahead m (.tail _ hm),
      fun m hm => ?_⟩
    rw [List.getLast?_concat] at hm
    cases hm
    rfl

/-- The end token is never passed. -/
theorem advance_end (h : c.Behind tokens passed) (hend : c.peek.isEnd = true) : c.advance = c := by
  obtain ⟨_ | ⟨l, ls⟩, last, previous⟩ := c
  · rfl
  · exact absurd (hend.symm.trans (h.ahead l (.head _))) nofun

theorem eq_append (h : c.Behind tokens passed) (hend : c.peek.isEnd = true) :
    tokens = passed ++ [c.peek] := by
  obtain ⟨_ | ⟨l, ls⟩, last, previous⟩ := c
  · exact h.tokens
  · exact absurd (hend.symm.trans (h.ahead l (.head _))) nofun

/-- Behind a token that has been passed stands the next one. -/
theorem head?_eq {rest : List Lexeme} (h : c.Behind tokens (passed ++ [l]))
    (hl : tokens = passed ++ l :: rest) : rest.head? = some c.peek := by
  have hahead := h.tokens.symm.trans hl
  rw [List.append_assoc, List.append_cancel_left_eq] at hahead
  obtain ⟨_ | ⟨_, _⟩, last, previous⟩ := c
  · cases hahead
    rfl
  · cases hahead
    rfl

/-- What stands behind the next token. -/
theorem punctAt_one {rest : List Lexeme} (h : c.Behind tokens passed)
    (hl : tokens = passed ++ l :: rest) (p : Punct) :
    c.punctAt 1 p = rest.head?.any (·.isPunct p) := by
  have hahead := List.append_cancel_left (h.tokens.symm.trans hl)
  obtain ⟨_ | ⟨_, _ | ⟨_, _⟩⟩, last, previous⟩ := c
  · cases hahead
    cases hp : last.isPunct p with
    | false => exact hp
    | true => exact absurd ((isEnd_of_isPunct hp).symm.trans h.last) nofun
  · cases hahead
    rfl
  · cases hahead
    rfl

end Cursor.Behind

namespace Declaration

open Form

/-- A token stands where a form is wanted. -/
structure Stands (maxDepth : Nat) (tokens : List Lexeme) (f : Form) (passed : List Lexeme)
    (l : Lexeme) : Prop where
  wanted : Wants maxDepth tokens [f] passed
  next : passed ++ [l] <+: tokens

/-- A name stands among the first tokens, where a form of some kind is wanted. -/
def Named (maxDepth : Nat) (tokens : List Lexeme) (kind : Form → Prop) (passed : List Lexeme)
    (text : String) (span : Span) : Prop :=
  ∃ f front l, kind f ∧ Stands maxDepth tokens f front l ∧ front ++ [l] <+: passed ∧
    l.token = .name text ∧ l.span = span

namespace Form

def NamesType (f : Form) : Prop := f = name .interface ∨ f = name .type

def NamesConstant (f : Form) : Prop := f = name .constant

def NamesRoot (f : Form) : Prop := f = name .root

def IsPrimary (f : Form) : Prop := ∃ n, f = primary n

end Form

theorem Named.append {kind : Form → Prop} {text : String} {span : Span}
    (h : Named maxDepth tokens kind passed text span) (ls : List Lexeme) :
    Named maxDepth tokens kind (passed ++ ls) text span := by
  obtain ⟨f, front, l, hf, hl, hfront, htext⟩ := h
  exact ⟨f, front, l, hf, hl, hfront.trans (List.prefix_append ..), htext⟩

end Declaration

open Declaration

/-- The references of an expression are names where types are wanted. -/
def TyTerm.Cites (maxDepth : Nat) (tokens : List Lexeme) (t : TyTerm) : Prop :=
  ∀ r ∈ t.references, Named maxDepth tokens Form.IsPrimary tokens r.name r.span

namespace TyTerm.Cites

theorem record {owner : Option String} {fields : List (FieldInfo × TyTerm)}
    (h : ∀ f ∈ fields, f.2.Cites maxDepth tokens) :
    (TyTerm.record owner fields).Cites maxDepth tokens := by
  intro r hr
  rw [references, fieldReferences_eq] at hr
  obtain ⟨f, hf, hr⟩ := List.mem_flatMap.1 hr
  exact h f hf r hr

theorem ofAlternatives {t : TyTerm} {ts : List TyTerm} (ht : t.Cites maxDepth tokens)
    (hts : ∀ u ∈ ts, u.Cites maxDepth tokens) :
    (TyTerm.ofAlternatives (t :: ts)).Cites maxDepth tokens := by
  cases ts with
  | nil => exact ht
  | cons u us =>
    intro r hr
    have hall : (TyTerm.ofAlternatives (t :: u :: us)).references =
        listReferences (t :: u :: us) := rfl
    rw [hall, listReferences_eq] at hr
    obtain ⟨v, hv, hr⟩ := List.mem_flatMap.1 hr
    exact List.forall_mem_cons.2 ⟨ht, hts⟩ v hv r hr

end TyTerm.Cites

namespace Declaration

open Form

/-- Why a token is refused where a form is wanted that it does not begin. -/
inductive Refusal (maxDepth : Nat) (l : Lexeme) : Form → SchemaCause → Prop
  | unexpected {f : Form} {what : String} (hf : f.wording? = some what) :
    Refusal maxDepth l f (.malformed ("expected " ++ what ++ ", found " ++ l.token.describe))
  | undeclaring : Refusal maxDepth l .declared
    (.malformed "expected `const`, `var` or `let` after `declare`")
  | valueless : Refusal maxDepth l .value
    (.malformed "expected `=` or `:` after constant name")
  | inherited (hl : l.isName "extends" = true ∨ l.isPunct .less = true) :
    Refusal maxDepth l (.mark .leftBrace) (.unsupported "interface inheritance and generics")
  | indexed : Refusal maxDepth l (.word "string")
    (.unsupported "index signatures must use string keys")
  | excluded {n : Nat} {word : String} (hl : l.token = .name word) (hword : word ∈ excludedNames) :
    Refusal maxDepth l (.primary n) (.unsupported ("type `" ++ word ++ "`"))
  | generic {n : Nat} {word : String} (hl : l.token = .name word) (hword : word ∉ excludedNames) :
    Refusal maxDepth l (.primary n) (.unsupported ("generic type `" ++ word ++ "<...>`"))
  | tooDeep : Refusal maxDepth l (.type maxDepth) (.tooDeep maxDepth)

/-- The brace in front of the members of an interface or of an object type. -/
structure OpensBlock (maxDepth : Nat) (tokens : List Lexeme) (n : Nat) (before : List Lexeme)
    (owner : String) (brace : Lexeme) : Prop where
  wanted : Wants maxDepth tokens (.mark .leftBrace :: block n) before
  mark : brace.isPunct .leftBrace = true
  owner : owner = "object type" ∨ ∃ front l, before = front ++ [l] ∧
    Wants maxDepth tokens [.name .interface] front ∧ l.token = .name owner

/-- Some members, up to where another one may begin. -/
def Inside (maxDepth : Nat) (tokens : List Lexeme) (n : Nat) (opened inside : List Lexeme) : Prop :=
  Leads maxDepth tokens ⟨block n, opened⟩ ⟨[.members n], opened ++ inside⟩

/-- The name of a field and what follows it. -/
def FieldName (name : String) (l m : Lexeme) : Prop :=
  (l.token = .name name ∨ l.token = .string name) ∧
    (m.isPunct .question = true ∨ m.isPunct .colon = true)

/-- The bracket of an index signature and the name of its key. -/
def IndexKey (b k : Lexeme) : Prop := b.isPunct .leftBracket = true ∧ ∃ key, k.token = .name key

/-- One of some members begins with two tokens. -/
def HasMember (maxDepth : Nat) (tokens : List Lexeme) (Begins : Lexeme → Lexeme → Prop) (n : Nat)
    (opened inside : List Lexeme) : Prop :=
  ∃ front l m back, inside = front ++ l :: m :: back ∧
    Inside maxDepth tokens n opened front ∧ Begins l m

/-- The tokens of a source that an error is about, and their place. -/
inductive Blames (maxDepth : Nat) (tokens : List Lexeme) : SchemaCause → Span → Prop
  /-- The token that the source cannot go on with. -/
  | stuck {f : Form} {passed : List Lexeme} {l : Lexeme} {cause : SchemaCause}
    (h : Stuck maxDepth tokens f passed l) (hl : Refusal maxDepth l f cause) :
    Blames maxDepth tokens cause l.span
  /-- The type of a constant, from its first token to its last. -/
  | valued {before ls : List Lexeme} {colon first last : Lexeme} {c d : Cursor} {t : TyTerm}
    (hwanted : Wants maxDepth tokens [.value] before) (hcolon : colon.isPunct .colon = true)
    (hc : c.Behind tokens (before ++ [colon])) (ht : typeTerm maxDepth maxDepth c = .ok (t, d))
    (hls : Leads maxDepth tokens ⟨[.type 0], before ++ [colon]⟩ ⟨[], before ++ [colon] ++ ls⟩)
    (hd : d.Behind tokens (before ++ [colon] ++ ls)) (hvalue : ∀ v, t.type ≠ .literal [v])
    (hfirst : ls.head? = some first) (hlast : ls.getLast? = some last) :
    Blames maxDepth tokens (.unsupported "constants must have a single literal type")
      (first.span.join last.span)
  /-- A brace with fields and an index signature. -/
  | mixed {n : Nat} {before inside : List Lexeme} {brace close : Lexeme} {owner name : String}
    (hbrace : OpensBlock maxDepth tokens n before owner brace)
    (hinside : Inside maxDepth tokens n (before ++ [brace]) inside)
    (hnext : before ++ [brace] ++ inside ++ [close] <+: tokens)
    (hclose : close.isPunct .rightBrace = true)
    (hfield : HasMember maxDepth tokens (FieldName name) n (before ++ [brace]) inside)
    (hindex : HasMember maxDepth tokens IndexKey n (before ++ [brace]) inside) :
    Blames maxDepth tokens
      (.unsupported (owner ++ " mixes named fields with an index signature")) brace.span
  /-- A brace that is not closed up to the end of the source. -/
  | unclosed {n : Nat} {before inside : List Lexeme} {brace stop : Lexeme} {owner : String}
    (hbrace : OpensBlock maxDepth tokens n before owner brace)
    (hinside : Inside maxDepth tokens n (before ++ [brace]) inside)
    (hstop : stop.isEnd = true) (htokens : tokens = before ++ [brace] ++ inside ++ [stop]) :
    Blames maxDepth tokens (.malformed ("unclosed `\x7b` in " ++ owner)) brace.span
  /-- The bracket of an index signature behind another one. -/
  | reindexed {n : Nat} {before inside : List Lexeme} {brace b k : Lexeme} {owner : String}
    (hbrace : OpensBlock maxDepth tokens n before owner brace)
    (hinside : Inside maxDepth tokens n (before ++ [brace]) inside)
    (hnext : before ++ [brace] ++ inside ++ [b, k] <+: tokens) (hb : IndexKey b k)
    (hagain : HasMember maxDepth tokens IndexKey n (before ++ [brace]) inside) :
    Blames maxDepth tokens (.unsupported "more than one index signature") b.span
  /-- The name of a field behind another field of the name. -/
  | repeatedField {n : Nat} {before inside : List Lexeme} {brace l m : Lexeme}
    {owner name : String} (hbrace : OpensBlock maxDepth tokens n before owner brace)
    (hinside : Inside maxDepth tokens n (before ++ [brace]) inside)
    (hnext : before ++ [brace] ++ inside ++ [l, m] <+: tokens) (hl : FieldName name l m)
    (hagain : HasMember maxDepth tokens (FieldName name) n (before ++ [brace]) inside) :
    Blames maxDepth tokens (.duplicateField owner name) l.span
  /-- The name of a root binding behind one of another name. -/
  | roots {before : List Lexeme} {l : Lexeme} {name first : String} {span : Span}
    (hl : Stands maxDepth tokens (.name .root) before l) (hname : l.token = .name name)
    (hfirst : Named maxDepth tokens NamesRoot before first span) (hne : first ≠ name) :
    Blames maxDepth tokens (.multipleRoots first name) l.span

/-- What stands where the path of an import is wanted and is none. -/
def Pathless (maxDepth : Nat) (tokens : List Lexeme) (l : Lexeme) : Prop :=
  ∃ passed, Stuck maxDepth tokens .path passed l

/-- The error tells what stands in place of the path of an import. Its place is that of the token
behind, unless the source ends there. -/
def LosesPath (maxDepth : Nat) (tokens : List Lexeme) (e : Located SchemaCause) : Prop :=
  ∃ passed l, Stuck maxDepth tokens .path passed l ∧
    e.cause = .malformed ("expected module path, found " ++ l.token.describe) ∧
    (l.isEnd = true ∧ e.span = l.span ∨ ∃ m, passed ++ [l, m] <+: tokens ∧ e.span = m.span)

variable (maxDepth tokens) in
/-- A reader takes the forms that are wanted behind some tokens, and what it gives goes with the
tokens that it takes, or it fails and blames some for it. -/
structure Blaming (wanted : List Form) (passed : List Lexeme) (m : DeclReader α)
    (Q : List Lexeme → α → Prop) : Prop where
  ok : ∀ c a d, Wants maxDepth tokens wanted passed → c.Behind tokens passed →
    m c = .ok (a, d) → ∃ ls, d.Behind tokens (passed ++ ls) ∧
      Leads maxDepth tokens ⟨wanted, passed⟩ ⟨[], passed ++ ls⟩ ∧ Q ls a
  error : ∀ c e, Wants maxDepth tokens wanted passed → c.Behind tokens passed → m c = .error e →
    Blames maxDepth tokens e.cause e.span ∨ LosesPath maxDepth tokens e

variable (maxDepth tokens) in
/-- Once a reader has seen the next token, it goes on behind that or refuses it. -/
inductive Answer (wanted : List Form) (passed : List Lexeme) (l : Lexeme) (m : DeclReader α)
    (Q : List Lexeme → α → Prop) : Prop
  | taken {fs : List Form} (hin : l.isEnd = false)
    (hls : Leads maxDepth tokens ⟨wanted, passed⟩ ⟨fs, passed ++ [l]⟩)
    (h : Blaming maxDepth tokens fs (passed ++ [l]) m fun ms => Q (l :: ms))
  | refused {cause : SchemaCause}
    (hm : ∀ c, (l.isEnd = false → c.Behind tokens (passed ++ [l])) → m c = .error ⟨cause, l.span⟩)
    (h : Wants maxDepth tokens wanted passed → Blames maxDepth tokens cause l.span)

namespace Blaming

variable {m n : DeclReader α} {f : α → DeclReader β} {P : List Lexeme → α → Prop}
  {Q : List Lexeme → β → Prop} {fs gs : List Form}

theorem pure {a : α} (h : P [] a) : Blaming maxDepth tokens [] passed (Pure.pure a) P :=
  ⟨fun c b d _ hc hr => by
    cases hr
    exact ⟨[], by rwa [List.append_nil], by rw [List.append_nil], h⟩, nofun⟩

/-- A reader that fails, for what holds where it begins. -/
theorem fail {cause : SchemaCause} {span : Span} (hm : ∀ c, m c = .error ⟨cause, span⟩)
    (h : Wants maxDepth tokens fs passed → Blames maxDepth tokens cause span) :
    Blaming maxDepth tokens fs passed m P := by
  constructor
  · intro c a d _ _ hr
    cases (hm c).symm.trans hr
  · intro c e hw _ hr
    cases (hm c).symm.trans hr
    exact .inl (h hw)

/-- The forms are wanted where the reader begins. -/
theorem wanting (h : Wants maxDepth tokens fs passed → Blaming maxDepth tokens fs passed m P) :
    Blaming maxDepth tokens fs passed m P :=
  ⟨fun c a d hw => (h hw).ok c a d hw, fun c e hw => (h hw).error c e hw⟩

/-- What is passed are the first of the tokens, and one of them is next. -/
theorem known (h : ∀ l, passed ++ [l] <+: tokens → Blaming maxDepth tokens fs passed m P) :
    Blaming maxDepth tokens fs passed m P :=
  ⟨fun c a d hw hc => (h _ hc.peek).ok c a d hw hc, fun c e hw hc => (h _ hc.peek).error c e hw hc⟩

/-- Where the first form is taken apart. -/
theorem through (h : Leads maxDepth tokens ⟨fs, passed⟩ ⟨gs, passed⟩)
    (hm : Blaming maxDepth tokens gs passed m P) : Blaming maxDepth tokens fs passed m P := by
  constructor
  · intro c a d hw hc hr
    obtain ⟨ls, hd, hls, ha⟩ := hm.ok c a d (hw.trans h) hc hr
    exact ⟨ls, hd, h.trans hls, ha⟩
  · exact fun c e hw => hm.error c e (hw.trans h)

theorem ran (h : Blaming maxDepth tokens fs passed m P) :
    Blaming maxDepth tokens fs passed m fun ls a => P ls a ∧
      Leads maxDepth tokens ⟨fs, passed⟩ ⟨[], passed ++ ls⟩ ∧
        ∃ c d, c.Behind tokens passed ∧ m c = .ok (a, d) ∧ d.Behind tokens (passed ++ ls) := by
  refine ⟨fun c a d hw hc hr => ?_, h.error⟩
  obtain ⟨ls, hd, hls, ha⟩ := h.ok c a d hw hc hr
  exact ⟨ls, hd, hls, ha, hls, c, d, hc, hr, hd⟩

theorem imp {P' : List Lexeme → α → Prop} (h : Blaming maxDepth tokens fs passed m P)
    (hP : ∀ ls a, P ls a → P' ls a) : Blaming maxDepth tokens fs passed m P' := by
  refine ⟨fun c a d hw hc hr => ?_, h.error⟩
  obtain ⟨ls, hd, hls, ha⟩ := h.ok c a d hw hc hr
  exact ⟨ls, hd, hls, hP ls a ha⟩

theorem bind (h : Blaming maxDepth tokens fs passed m P)
    (hf : ∀ ls a, P ls a →
      Blaming maxDepth tokens gs (passed ++ ls) (f a) fun ms => Q (ls ++ ms)) :
    Blaming maxDepth tokens (fs ++ gs) passed (m >>= f) Q := by
  constructor
  · intro c b d hw hc hr
    obtain ⟨⟨a, c'⟩, hm, hr⟩ := bind_eq_ok_iff.1 hr
    obtain ⟨ls, hc', hls, ha⟩ := h.ok c a c' hw.first hc hm
    obtain ⟨ms, hd, hms, hb⟩ := (hf ls a ha).ok c' b d (hw.leads hls) hc' hr
    rw [List.append_assoc] at hd hms
    exact ⟨ls ++ ms, hd, hls.comp hms, hb⟩
  · intro c e hw hc hr
    obtain hm | ⟨⟨a, c'⟩, hm, hr⟩ := bind_eq_error_iff.1 hr
    · exact h.error c e hw.first hc hm
    · obtain ⟨ls, hc', hls, ha⟩ := h.ok c a c' hw.first hc hm
      exact (hf ls a ha).error c' e (hw.leads hls) hc' hr

/-- The reader of the first form and what follows it. -/
theorem first {g : Form} (h : Blaming maxDepth tokens [g] passed m P)
    (hf : ∀ ls a, P ls a →
      Blaming maxDepth tokens gs (passed ++ ls) (f a) fun ms => Q (ls ++ ms)) :
    Blaming maxDepth tokens (g :: gs) passed (m >>= f) Q := h.bind hf

/-- The reader of all forms and what it is given for. -/
theorem last (h : Blaming maxDepth tokens fs passed m P)
    (hf : ∀ ls a, P ls a →
      Blaming maxDepth tokens [] (passed ++ ls) (f a) fun ms => Q (ls ++ ms)) :
    Blaming maxDepth tokens fs passed (m >>= f) Q := List.append_nil fs ▸ h.bind hf

theorem ite {p : Prop} [Decidable p] (h : p → Blaming maxDepth tokens fs passed m P)
    (hn : ¬ p → Blaming maxDepth tokens fs passed n P) :
    Blaming maxDepth tokens fs passed (if p then m else n) P := by
  split
  · exact h ‹_›
  · exact hn ‹_›

/-- What follows a look at the tokens ahead. -/
theorem looked {g : Cursor → α}
    (hf : ∀ c, c.Behind tokens passed → Blaming maxDepth tokens fs passed (f (g c)) Q) :
    Blaming maxDepth tokens fs passed ((fun c => .ok (g c, c) : DeclReader α) >>= f) Q :=
  ⟨fun c b d hw hc hr => (hf c hc).ok c b d hw hc hr,
    fun c e hw hc hr => (hf c hc).error c e hw hc hr⟩

/-- What follows once the next token has been passed. -/
theorem behind {m' : DeclReader α} (hm : ∀ c, c.Behind tokens passed → m' c = m c.advance)
    (hl : passed ++ [l] <+: tokens) (hin : l.isEnd = false)
    (hls : Leads maxDepth tokens ⟨fs, passed⟩ ⟨gs, passed ++ [l]⟩)
    (h : Blaming maxDepth tokens gs (passed ++ [l]) m fun ms => P (l :: ms)) :
    Blaming maxDepth tokens fs passed m' P := by
  have hadvance {c : Cursor} (hc : c.Behind tokens passed) :
      c.advance.Behind tokens (passed ++ [l]) := by
    obtain rfl := hc.peek_eq hl
    exact hc.advance hin
  constructor
  · intro c b d hw hc hr
    rw [hm c hc] at hr
    obtain ⟨ms, hd, hms, hb⟩ := h.ok c.advance b d (hw.trans hls) (hadvance hc) hr
    rw [← List.append_cons] at hd hms
    exact ⟨l :: ms, hd, hls.trans hms, hb⟩
  · intro c e hw hc hr
    rw [hm c hc] at hr
    exact h.error c.advance e (hw.trans hls) (hadvance hc) hr

/-- What follows the next token, where it is known. -/
theorem taken {f : Lexeme → DeclReader β} (hl : passed ++ [l] <+: tokens) (hin : l.isEnd = false)
    (hls : Leads maxDepth tokens ⟨fs, passed⟩ ⟨gs, passed ++ [l]⟩)
    (h : Blaming maxDepth tokens gs (passed ++ [l]) (f l) fun ms => Q (l :: ms)) :
    Blaming maxDepth tokens fs passed (Reader.next >>= f) Q := by
  refine .behind (fun c hc => ?_) hl hin hls h
  rw [← hc.peek_eq hl]
  rfl

/-- What follows the next token, which is taken unless it is refused. -/
theorem answered {f : Lexeme → DeclReader β}
    (hf : ∀ l, passed ++ [l] <+: tokens → Answer maxDepth tokens fs passed l (f l) Q) :
    Blaming maxDepth tokens fs passed (Reader.next >>= f) Q := by
  refine .known fun l hl => ?_
  cases hf l hl with
  | taken hin hls h => exact .taken hl hin hls h
  | @refused cause hm h =>
    have hrun {c : Cursor} (hc : c.Behind tokens passed) :
        (Reader.next >>= f) c = .error ⟨cause, l.span⟩ := by
      obtain rfl := hc.peek_eq hl
      exact hm c.advance hc.advance
    constructor
    · intro c b d _ hc hr
      cases (hrun hc).symm.trans hr
    · intro c e hw hc hr
      cases (hrun hc).symm.trans hr
      exact .inl (h hw)

/-- What follows the attempt to take a token that passes a test. -/
theorem eaten (test : Lexeme → Bool) {m : DeclReader Bool} {f : Bool → DeclReader β}
    (hm : ∀ c, m c = .ok (if test c.peek then (true, c.advance) else (false, c)))
    (hin : ∀ l, test l = true → l.isEnd = false)
    (hf : ∀ l, passed ++ [l] <+: tokens → test l = true → ∃ gs,
      Leads maxDepth tokens ⟨fs, passed⟩ ⟨gs, passed ++ [l]⟩ ∧
        Blaming maxDepth tokens gs (passed ++ [l]) (f true) fun ms => Q (l :: ms))
    (hn : ∀ l, passed ++ [l] <+: tokens → test l = false →
      Blaming maxDepth tokens fs passed (f false) Q) :
    Blaming maxDepth tokens fs passed (m >>= f) Q := by
  have hrun (c : Cursor) : (m >>= f) c =
      if test c.peek then f true c.advance else f false c := by
    show (m c >>= fun r => f r.1 r.2) = _
    rw [hm c]
    split <;> rfl
  refine .known fun l hl => ?_
  cases htest : test l with
  | true =>
    obtain ⟨gs, hls, h⟩ := hf l hl htest
    refine .behind (fun c hc => ?_) hl (hin l htest) hls h
    rw [hrun c, hc.peek_eq hl, htest, if_pos rfl]
  | false =>
    have h := hn l hl htest
    have heq {c : Cursor} (hc : c.Behind tokens passed) : (m >>= f) c = f false c := by
      rw [hrun c, hc.peek_eq hl, htest, if_neg nofun]
    exact ⟨fun c b d hw hc hr => h.ok c b d hw hc (heq hc ▸ hr),
      fun c e hw hc hr => h.error c e hw hc (heq hc ▸ hr)⟩

end Blaming

theorem eatPunct_eq (p : Punct) (c : Cursor) : (Reader.eatPunct p : DeclReader Bool) c =
    .ok (if c.peek.isPunct p then (true, c.advance) else (false, c)) := by
  unfold Reader.eatPunct Cursor.eatPunct? Cursor.atPunct
  cases c.peek.isPunct p <;> rfl

theorem eatName_eq (word : String) (c : Cursor) : (Reader.eatName word : DeclReader Bool) c =
    .ok (if c.peek.isName word then (true, c.advance) else (false, c)) := by
  unfold Reader.eatName Cursor.eatName? Cursor.atName
  cases c.peek.isName word <;> rfl

variable {Q : List Lexeme → α → Prop} {fs : List Form}

theorem blaming_eatPunct {f : Bool → DeclReader α} (p : Punct)
    (hf : ∀ l, passed ++ [l] <+: tokens → l.isPunct p = true → ∃ gs,
      Leads maxDepth tokens ⟨fs, passed⟩ ⟨gs, passed ++ [l]⟩ ∧
        Blaming maxDepth tokens gs (passed ++ [l]) (f true) fun ms => Q (l :: ms))
    (hn : ∀ l, passed ++ [l] <+: tokens → l.isPunct p = false →
      Blaming maxDepth tokens fs passed (f false) Q) :
    Blaming maxDepth tokens fs passed (Reader.eatPunct p >>= f) Q :=
  .eaten (fun l => l.isPunct p) (eatPunct_eq p) (fun _ h => isEnd_of_isPunct h) hf hn

theorem blaming_eatName {f : Bool → DeclReader α} (word : String)
    (hf : ∀ l, passed ++ [l] <+: tokens → l.isName word = true → ∃ gs,
      Leads maxDepth tokens ⟨fs, passed⟩ ⟨gs, passed ++ [l]⟩ ∧
        Blaming maxDepth tokens gs (passed ++ [l]) (f true) fun ms => Q (l :: ms))
    (hn : ∀ l, passed ++ [l] <+: tokens → l.isName word = false →
      Blaming maxDepth tokens fs passed (f false) Q) :
    Blaming maxDepth tokens fs passed (Reader.eatName word >>= f) Q :=
  .eaten (fun l => l.isName word) (eatName_eq word) (fun _ h => isEnd_of_isName h) hf hn

theorem leads_optional {g : Form} (hl : passed ++ [l] <+: tokens) (hg : g.takes l = true) :
    Leads maxDepth tokens ⟨[.optional g], passed⟩ ⟨[], passed ++ [l]⟩ :=
  .enter hl (fun _ => by rw [parts?, if_pos hg]) hg

theorem leads_optional_nil {g : Form} (hl : passed ++ [l] <+: tokens) (hg : g.takes l = false) :
    Leads maxDepth tokens ⟨[.optional g], passed⟩ ⟨[], passed⟩ :=
  .parts hl fun _ => by rw [parts?, if_neg (hg ▸ Bool.false_ne_true)]

theorem blaming_ate (p : Punct) : Blaming maxDepth tokens [.optional (.mark p)] passed
    (Reader.eatPunct p) fun ls _ => ls = [] ∨ ∃ l, ls = [l] ∧ l.isPunct p = true := by
  have h : Blaming maxDepth tokens [.optional (.mark p)] passed
      (Reader.eatPunct p >>= Pure.pure) fun ls _ => ls = [] ∨ ∃ l, ls = [l] ∧ l.isPunct p = true :=
    blaming_eatPunct p (fun l hl hp => ⟨[], leads_optional hl hp, .pure (.inr ⟨l, rfl, hp⟩)⟩)
      fun l hl hp => .through (leads_optional_nil hl hp) (.pure (.inl rfl))
  rwa [bind_pure] at h

theorem blaming_ateName (word : String) : Blaming maxDepth tokens [.optional (.word word)] passed
    (Reader.eatName word) fun _ _ => True := by
  have h : Blaming maxDepth tokens [.optional (.word word)] passed
      (Reader.eatName word >>= Pure.pure) fun _ _ => True :=
    blaming_eatName word (fun l hl hw => ⟨[], leads_optional hl hw, .pure trivial⟩)
      fun l hl hw => .through (leads_optional_nil hl hw) (.pure trivial)
  rwa [bind_pure] at h

theorem blaming_endStatement :
    Blaming maxDepth tokens [.optional (.mark .semicolon)] passed endStatement fun _ _ => True :=
  .last (blaming_ate _) fun _ _ _ => .pure trivial

/-- What is expected is the form that is wanted. -/
theorem blaming_expectedBut {g : Form} {what : String} (hl : passed ++ [l] <+: tokens)
    (hwhat : g.wording? = some what) (htakes : g.takes l = false)
    (hparts : ∀ second, g.parts? maxDepth l second = none) :
    Blaming maxDepth tokens (g :: fs) passed (expectedBut what) Q := by
  refine .looked fun c hc => .fail (fun _ => rfl) fun hw => ?_
  obtain rfl := hc.peek_eq hl
  exact .stuck (.of_next hw hl htakes hparts) (.unexpected hwhat)

theorem blaming_expect (p : Punct) :
    Blaming maxDepth tokens [.mark p] passed (expect p) fun ls span =>
      ∃ l, ls = [l] ∧ l.isPunct p = true ∧ l.span = span := by
  refine blaming_eatPunct p (fun l hl hp => ⟨[], .take hl hp, ?_⟩) fun l hl hp =>
    blaming_expectedBut hl rfl hp fun _ => rfl
  refine ⟨?_, nofun⟩
  rintro c _ _ - hc ⟨⟩
  refine ⟨[], by rwa [List.append_nil], by rw [List.append_nil], l, rfl, hp, ?_⟩
  exact (hc.previous l (List.getLast?_concat ..)).symm

theorem takes_name {kind : NameKind} {text : String} (hl : l.token = .name text) :
    (Form.name kind).takes l = true := by rw [takes, hl]

theorem blaming_expectName (kind : NameKind) :
    Blaming maxDepth tokens [.name kind] passed (expectName kind.wording) fun ls r =>
      ∃ l, ls = [l] ∧ Stands maxDepth tokens (.name kind) passed l ∧ l.token = .name r.1 ∧
        l.span = r.2 := by
  refine .wanting fun hw => .looked fun c hc => ?_
  have hl := hc.peek
  split
  · rename_i text htext
    exact .taken hl (isEnd_of_token htext rfl) (.take hl (takes_name htext))
      (.pure ⟨_, rfl, ⟨hw, hl⟩, htext, rfl⟩)
  · rename_i hother
    refine blaming_expectedBut hl rfl ?_ fun _ => rfl
    rw [takes]
    split
    · exact absurd ‹_› (hother _)
    · rfl

theorem blaming_skipPuncts (ps : List Punct) :
    Blaming maxDepth tokens [.separators ps] passed (Reader.skipPuncts ps) fun _ _ => True := by
  refine ⟨?_, nofun⟩
  rintro c _ _ - hc ⟨⟩
  have hstop {passed : List Lexeme} {l : Lexeme} (hl : passed ++ [l] <+: tokens)
      (hnone : ps.any l.isPunct = false) :
      Leads maxDepth tokens ⟨[.separators ps], passed⟩ ⟨[], passed ++ []⟩ := by
    have hparts (second : Option Lexeme) :
        (Form.separators ps).parts? maxDepth l second = some [] := by
      rw [parts?, if_neg (hnone ▸ Bool.false_ne_true)]
    rw [List.append_nil]
    exact .parts hl hparts
  have hgo (ahead passed : List Lexeme) (c : Cursor) (hc : c.Behind tokens passed)
      (hahead : c.ahead = ahead) : ∃ ls,
        (Reader.skipPuncts.go ps ahead c).Behind tokens (passed ++ ls) ∧
          Leads maxDepth tokens ⟨[.separators ps], passed⟩ ⟨[], passed ++ ls⟩ := by
    induction ahead generalizing passed c with
    | nil =>
      obtain ⟨_, last, previous⟩ := c
      cases hahead
      refine ⟨[], by rwa [List.append_nil], hstop hc.peek (Bool.eq_false_iff.2 fun hany => ?_)⟩
      obtain ⟨p, -, hp⟩ := List.any_eq_true.1 hany
      exact absurd ((isEnd_of_isPunct hp).symm.trans hc.last) nofun
    | cons l ahead ih =>
      obtain ⟨_, last, previous⟩ := c
      cases hahead
      rw [Reader.skipPuncts.go]
      split
      · rename_i hany
        obtain ⟨ls, hd, hls⟩ := ih _ _ (hc.advance (hc.ahead l (.head _))) rfl
        rw [← List.append_cons] at hd hls
        have hparts (second : Option Lexeme) : (Form.separators ps).parts? maxDepth l second =
            some [.anyOf ps, .separators ps] := by rw [parts?, if_pos hany]
        exact ⟨l :: ls, hd, (Leads.enter hc.peek hparts hany).trans hls⟩
      · exact ⟨[], by rwa [List.append_nil], hstop hc.peek (Bool.eq_false_iff.2 ‹_›)⟩
  obtain ⟨ls, hd, hls⟩ := hgo c.ahead passed c hc rfl
  exact ⟨ls, hd, hls, trivial⟩

/-- A literal takes a token. -/
theorem blaming_literalValue :
    Blaming maxDepth tokens [.literal] passed literalValue fun ls _ => ls ≠ [] := by
  refine blaming_eatPunct .minus (fun minus hl hminus => ?_) fun l hl hminus => ?_
  · have hparts (second : Option Lexeme) : Form.literal.parts? maxDepth minus second =
        some [.mark .minus, .number] := by rw [parts?, if_pos hminus]
    refine ⟨[.number], .enter hl hparts hminus, .answered fun l hl => ?_⟩
    split
    · rename_i htoken _
      exact .taken (isEnd_of_token htoken rfl) (.take hl (by rw [takes, htoken])) (.pure nofun)
    · rename_i hnone
      cases hnone
    · rename_i hnone
      cases hnone
    · rename_i hnumber _ _
      have hwhat : Form.number.wording? = some "a literal value" := rfl
      refine .refused (fun _ _ => rfl) fun hw => ?_
      refine .stuck (.of_next hw hl ?_ fun _ => rfl) (.unexpected hwhat)
      rw [takes]
      split
      · exact absurd rfl (hnumber _ ‹_›)
      · rfl
  · have hparts (second : Option Lexeme) : Form.literal.parts? maxDepth l second =
        some [.plain] := by rw [parts?, if_neg (hminus ▸ Bool.false_ne_true)]
    refine .through (.parts hl hparts) (.answered fun l hl => ?_)
    split
    · rename_i hnone
      cases hnone
    · rename_i htoken _
      exact .taken (isEnd_of_token htoken rfl) (.take hl (by rw [takes, htoken])) (.pure nofun)
    · rename_i htoken _
      exact .taken (isEnd_of_token htoken rfl) (.take hl (by rw [takes, htoken])) (.pure nofun)
    · rename_i hnumber hstring
      have htakes : Form.plain.takes l = (l.isName "true" || l.isName "false") := by
        rw [takes]
        split
        · exact absurd rfl (hnumber _ ‹_›)
        · exact absurd rfl (hstring _ ‹_›)
        · rfl
      have hword {word : String} (hname : (!false && l.token.isName word) = true)
          (hlit : Form.plain.takes l = true) {x : Scalar} :
          Answer maxDepth tokens [.plain] passed l (Pure.pure x) fun ls _ => ls ≠ [] :=
        .taken (isEnd_of_isName hname) (.take hl hlit) (.pure nofun)
      split
      · rename_i hname
        exact hword hname (by rw [htakes, Bool.or_eq_true]; exact .inl hname)
      split
      · rename_i hname
        exact hword hname (by rw [htakes, Bool.or_eq_true]; exact .inr hname)
      · rename_i htrue hfalse
        have hwhat : Form.plain.wording? = some "a literal value" := rfl
        refine .refused (fun _ _ => rfl) fun hw => ?_
        refine .stuck (.of_next hw hl ?_ fun _ => rfl) (.unexpected hwhat)
        rw [htakes]
        exact Bool.or_eq_false_iff.2 ⟨Bool.eq_false_iff.2 htrue, Bool.eq_false_iff.2 hfalse⟩

end Declaration

end TypedConfig
