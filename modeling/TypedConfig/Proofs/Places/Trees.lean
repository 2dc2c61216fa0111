import TypedConfig.Program
import TypedConfig.Token.Reader

/-! # Places in tokens and expressions

A class of places is closed if it has the joins and the ends of its members. Tokens, expressions
and statements stand in a class if every place that they hold, at any depth, belongs to it.
-/

namespace TypedConfig

/-- A class of places that has the joins of its members, their ends and the beginning. -/
structure Span.Closed (S : Span → Prop) : Prop where
  join : ∀ a b, S a → S b → S (a.join b)
  stop : ∀ a, S a → S (.point a.stop)
  zero : S (.point 0)

theorem Span.Closed.all : Span.Closed fun _ => True :=
  ⟨fun _ _ _ _ => trivial, fun _ _ => trivial, trivial⟩

variable (S : Span → Prop)

/-- A token with its place in the class, and all places inside its template holes. -/
inductive Lexeme.StandsIn : Lexeme → Prop
  | mk {token : Token} {span : Span} {doc : Option String} {newline : Bool} (place : S span)
    (holes : ∀ ps, token = .template ps → ∀ tokens, Piece.hole tokens ∈ ps →
      ∀ l ∈ tokens, StandsIn l) : StandsIn (.mk token span doc newline)

/-- A cursor over tokens that stand in the class. -/
structure Cursor.StandsIn (c : Cursor) : Prop where
  ahead : ∀ l ∈ c.ahead, l.StandsIn S
  last : c.last.StandsIn S
  previous : S c.previous

variable {S}

namespace Lexeme.StandsIn

variable {l : Lexeme}

theorem span (h : l.StandsIn S) : S l.span := by
  cases h with
  | mk place => exact place

theorem hole (h : l.StandsIn S) {ps : List Piece} (ht : l.token = .template ps)
    {tokens : List Lexeme} (hm : .hole tokens ∈ ps) : ∀ m ∈ tokens, m.StandsIn S := by
  cases h with
  | mk place holes => exact holes ps ht tokens hm

/-- A token that is not a template. -/
theorem plain {token : Token} {span : Span} {doc : Option String} {newline : Bool}
    (ht : ∀ ps, token ≠ .template ps) (h : S span) :
    (Lexeme.mk token span doc newline).StandsIn S := .mk h fun ps he => absurd he (ht ps)

theorem endAt {span : Span} (h : S span) : (Lexeme.endAt span).StandsIn S := .plain nofun h

end Lexeme.StandsIn

namespace Cursor.StandsIn

variable {c : Cursor}

theorem peek (h : c.StandsIn S) : c.peek.StandsIn S := by
  obtain ⟨_ | ⟨l, ls⟩, last, previous⟩ := c
  · exact h.last
  · exact h.ahead l (.head _)

theorem advance (h : c.StandsIn S) : c.advance.StandsIn S := by
  obtain ⟨_ | ⟨l, ls⟩, last, previous⟩ := c
  · exact h
  · exact ⟨fun m hm => h.ahead m (.tail _ hm), h.last, (h.ahead l (.head _)).span⟩

theorem ofTokens (hS : Span.Closed S) {tokens : List Lexeme} (h : ∀ l ∈ tokens, l.StandsIn S) :
    (Cursor.ofTokens tokens).StandsIn S := by
  have hlast : (Cursor.endOf tokens).StandsIn S := by
    unfold Cursor.endOf
    split
    · rename_i l hl
      have hl : l.StandsIn S := h l (List.mem_of_getLast? hl)
      split
      · exact hl
      · exact .endAt (hS.stop _ hl.span)
    · exact .endAt hS.zero
  have hbody : ∀ l ∈ Cursor.body tokens, l.StandsIn S := by
    unfold Cursor.body
    split
    · split
      · exact fun l hl => h l ((List.dropLast_sublist tokens).subset hl)
      · exact h
    · exact nofun
  refine ⟨hbody, hlast, ?_⟩
  unfold Cursor.ofTokens
  generalize Cursor.body tokens = ls at hbody
  cases ls with
  | nil => exact hlast.span
  | cons l ls => exact (hbody l (.head _)).span

end Cursor.StandsIn

variable (S)

mutual

def Expr.StandsIn : Expr → Prop
  | .string s _ | .number s _ | .boolean s _ | .null s | .undefined s | .name s _ => S s
  | .template s ts => S s ∧ TemplateSegment.AllStandIn ts
  | .array s is => S s ∧ ArrayItem.AllStandIn is
  | .object s ms => S s ∧ ObjectMember.AllStandIn ms
  | .member s o p => S s ∧ o.StandsIn ∧ S p.span
  | .index s o i => S s ∧ o.StandsIn ∧ i.StandsIn
  | .call s f as => S s ∧ f.StandsIn ∧ Expr.AllStandIn as
  | .arrow s ps b => S s ∧ (∀ p ∈ ps, S p.span) ∧ b.StandsIn
  | .unary s _ e => S s ∧ e.StandsIn
  | .binary s _ l r => S s ∧ l.StandsIn ∧ r.StandsIn
  | .conditional s t c a => S s ∧ t.StandsIn ∧ c.StandsIn ∧ a.StandsIn

def Expr.AllStandIn : List Expr → Prop
  | [] => True
  | e :: es => e.StandsIn ∧ Expr.AllStandIn es

def TemplateSegment.AllStandIn : List TemplateSegment → Prop
  | [] => True
  | .text _ :: ts => TemplateSegment.AllStandIn ts
  | .hole e :: ts => e.StandsIn ∧ TemplateSegment.AllStandIn ts

def ArrayItem.AllStandIn : List ArrayItem → Prop
  | [] => True
  | .item e :: is | .spread e :: is => e.StandsIn ∧ ArrayItem.AllStandIn is

def ObjectMember.AllStandIn : List ObjectMember → Prop
  | [] => True
  | .field _ s e :: ms => (S s ∧ e.StandsIn) ∧ ObjectMember.AllStandIn ms
  | .spread e :: ms => e.StandsIn ∧ ObjectMember.AllStandIn ms

end

def Statement.expressions : Statement → List Expr
  | .declare _ _ init _ => init.toList
  | .assign _ value _ | .expression value => [value]

/-- Every place in the statement belongs to the class. -/
def Statement.StandsIn : Statement → Prop
  | .declare _ name init span => S name.span ∧ (∀ e ∈ init, e.StandsIn S) ∧ S span
  | .assign target value span => S target.span ∧ value.StandsIn S ∧ S span
  | .expression value => value.StandsIn S

variable {S}

theorem Expr.StandsIn.span : ∀ {e : Expr}, e.StandsIn S → S e.span
  | .string .., h | .number .., h | .boolean .., h | .null _, h | .undefined _, h
  | .name .., h => h
  | .template .., h | .array .., h | .object .., h | .member .., h | .index .., h
  | .call .., h | .arrow .., h | .unary .., h | .binary .., h | .conditional .., h => h.1

theorem Expr.StandsIn.withSpan {s : Span} (hs : S s) :
    ∀ {e : Expr}, e.StandsIn S → (e.withSpan s).StandsIn S
  | .string .., _ | .number .., _ | .boolean .., _ | .null _, _ | .undefined _, _
  | .name .., _ => hs
  | .template .., h | .array .., h | .object .., h | .member .., h | .index .., h
  | .call .., h | .arrow .., h | .unary .., h | .binary .., h | .conditional .., h => ⟨hs, h.2⟩

mutual

/-- All expressions stand in the class of all places. -/
theorem Expr.standsIn_true : ∀ e : Expr, e.StandsIn fun _ => True
  | .string .. | .number .. | .boolean .. | .null _ | .undefined _ | .name .. => trivial
  | .template _ ts => ⟨trivial, TemplateSegment.allStandIn_true ts⟩
  | .array _ is => ⟨trivial, ArrayItem.allStandIn_true is⟩
  | .object _ ms => ⟨trivial, ObjectMember.allStandIn_true ms⟩
  | .member _ o _ => ⟨trivial, o.standsIn_true, trivial⟩
  | .index _ o i => ⟨trivial, o.standsIn_true, i.standsIn_true⟩
  | .call _ f as => ⟨trivial, f.standsIn_true, Expr.allStandIn_true as⟩
  | .arrow _ _ b => ⟨trivial, fun _ _ => trivial, b.standsIn_true⟩
  | .unary _ _ e => ⟨trivial, e.standsIn_true⟩
  | .binary _ _ l r => ⟨trivial, l.standsIn_true, r.standsIn_true⟩
  | .conditional _ t c a => ⟨trivial, t.standsIn_true, c.standsIn_true, a.standsIn_true⟩

theorem Expr.allStandIn_true : ∀ es : List Expr, Expr.AllStandIn (fun _ => True) es
  | [] => trivial
  | e :: es => ⟨e.standsIn_true, Expr.allStandIn_true es⟩

theorem TemplateSegment.allStandIn_true :
    ∀ ts : List TemplateSegment, TemplateSegment.AllStandIn (fun _ => True) ts
  | [] => trivial
  | .text _ :: ts => TemplateSegment.allStandIn_true ts
  | .hole e :: ts => ⟨e.standsIn_true, TemplateSegment.allStandIn_true ts⟩

theorem ArrayItem.allStandIn_true :
    ∀ is : List ArrayItem, ArrayItem.AllStandIn (fun _ => True) is
  | [] => trivial
  | .item e :: is | .spread e :: is => ⟨e.standsIn_true, ArrayItem.allStandIn_true is⟩

theorem ObjectMember.allStandIn_true :
    ∀ ms : List ObjectMember, ObjectMember.AllStandIn (fun _ => True) ms
  | [] => trivial
  | .field _ _ e :: ms => ⟨⟨trivial, e.standsIn_true⟩, ObjectMember.allStandIn_true ms⟩
  | .spread e :: ms => ⟨e.standsIn_true, ObjectMember.allStandIn_true ms⟩

end

theorem Statement.standsIn_true : ∀ s : Statement, s.StandsIn fun _ => True
  | .declare .. => ⟨trivial, fun e _ => e.standsIn_true, trivial⟩
  | .assign .. => ⟨trivial, Expr.standsIn_true _, trivial⟩
  | .expression e => e.standsIn_true

end TypedConfig
