import TypedConfig.Program.Parse
import TypedConfig.Proofs.Layout.Bare
import TypedConfig.Proofs.Layout.Tokens

/-! # Programs do not depend on layout

Every reader of programs erases to itself, given no places: what it reads from tokens without
layout is what it reads from the tokens, with the spans forgotten. Line ends are kept, as
statements and trailers ask for them.
-/

namespace TypedConfig

open Reader (Erases)

namespace Program

def Goal.bare : Goal → Goal
  | expression => expression
  | rightOperand least => rightOperand least
  | unaryOperand _ => unaryOperand default

/-- A reader of the next level that erases to itself. -/
def LayoutFree (inner : Inner) : Prop :=
  ∀ goal, Erases true Expr.bare (inner goal) (inner goal.bare)

variable {α β : Type} {f : α → β} {inner : Inner}

theorem erases_failBefore (cause : String → ProgramCause) :
    Erases true f (failBefore cause) (failBefore cause) := by
  refine Erases.peek.bind fun l => ?_
  rw [Lexeme.token_bare, Token.describe_bare]
  exact .fail ..

theorem erases_expect (p : Punct) : Erases true (fun _ => default) (expect p) (expect p) :=
  .after (.eatPunct p) fun _ => .ite .previous (erases_failBefore _)

theorem erases_expectName (what : String) :
    Erases true Ident.bare (expectName what) (expectName what) := by
  refine Erases.peek.bind fun l => ?_
  obtain ⟨t, s, d, n⟩ := l
  cases t with
  | name text => exact .ite (erases_failBefore _) (Erases.next.bind fun _ => .pure rfl)
  | _ => exact erases_failBefore _

theorem erases_expectProperty : Erases true Ident.bare expectProperty expectProperty := by
  refine Erases.peek.bind fun l => ?_
  obtain ⟨t, s, d, n⟩ := l
  cases t with
  | name text => exact Erases.next.bind fun _ => .pure rfl
  | _ => exact erases_failBefore _

section

variable (ls : List Lexeme)

theorem closesParams_bare : closesParams (ls.map (.bare true)) = closesParams ls := by
  match ls with
  | [] | [_] => rfl
  | l :: m :: _ => simp [closesParams]

theorem namesParams_bare : namesParams (ls.map (.bare true)) = namesParams ls := by
  induction ls using namesParams.induct with
  | case1 l m ls ih =>
    have hclose := closesParams_bare (m :: ls)
    obtain ⟨t, s, d, n⟩ := l
    simp only [List.map_cons] at hclose ⊢
    simp only [namesParams, Lexeme.isPunct_bare, hclose, ih]
    cases t <;> rfl
  | case2 ls h =>
    match ls, h with
    | [], _ | [_], _ => rfl
    | l :: m :: ls, h => exact absurd rfl (h l m ls)

theorem beginsArrow_bare : beginsArrow (ls.map (.bare true)) = beginsArrow ls := by
  match ls with
  | [] => rfl
  | ⟨t, s, d, n⟩ :: ls =>
    cases t with
    | name text =>
      cases ls with
      | nil => rfl
      | cons m ls => exact congrFun m.isPunct_bare .arrow
    | punct p => cases p <;> simp [beginsArrow, Lexeme.bare, Lexeme.token, Token.bare,
        closesParams_bare, namesParams_bare]
    | _ => rfl

end

theorem erases_params (rounds : List Lexeme) :
    Erases true (List.map Ident.bare) (params rounds) (params (rounds.map (.bare true))) := by
  induction rounds with
  | nil => exact .pure rfl
  | cons l rounds ih =>
    refine .after (.eatPunct _) fun _ => .ite (.pure rfl) ?_
    refine (erases_expectName _).bind fun p => .after (.eatPunct _) fun _ => ?_
    exact ih.bind fun ps => .pure rfl

theorem repeated?_bare (seen : List String) (ps : List Ident) :
    repeated? seen (ps.map Ident.bare) = (repeated? seen ps).map Ident.bare := by
  induction ps generalizing seen with
  | nil => rfl
  | cons p ps ih =>
    simp only [List.map_cons, repeated?, Ident.name_bare, ih]
    split <;> rfl

theorem erases_arrowBody (h : LayoutFree inner) :
    Erases true Expr.bare (arrowBody inner) (arrowBody inner) := by
  refine .after (.eatPunct _) fun _ => .ite (Erases.previous.bind fun _ => ?_) (h _)
  refine .after (.eatName _) fun _ => .ite ((h _).bind fun e => ?_) (erases_failBefore _)
  exact .after (.eatPunct _) fun _ => .after (.eatPunct _) fun _ => .ite (.pure rfl) (.fail ..)

theorem erases_arrow (h : LayoutFree inner) :
    Erases true Expr.bare (arrow inner) (arrow inner) := by
  refine Erases.peek.bind fun l => .after (.eatPunct _) fun _ => ?_
  extract_lets rest rest'
  have hrest (ps : List Ident) :
      Erases true Expr.bare (rest ps) (rest' (ps.map Ident.bare)) := by
    dsimp only [rest, rest']
    rw [repeated?_bare]
    cases repeated? [] ps with
    | some p => exact .fail ..
    | none =>
      exact (erases_expect _).bind fun _ => (erases_arrowBody h).bind fun body =>
        Erases.previous.bind fun _ => .pure rfl
  -- One parameter without parentheses goes on as a list of them does.
  refine .ite ?_ ?_
  · exact Erases.rounds.bind fun _ => (erases_params _).bind hrest
  · exact (erases_expectName _).bind fun p => hrest [p]

theorem erases_arguments (h : LayoutFree inner) (rounds : List Lexeme) :
    Erases true Expr.bareAll (arguments inner rounds)
      (arguments inner (rounds.map (.bare true))) := by
  induction rounds with
  | nil => exact .pure rfl
  | cons l rounds ih =>
    refine .after (.eatPunct _) fun _ => .ite (.pure rfl) (.after .atEnd fun _ => ?_)
    refine .ite (erases_failBefore _) ((h _).bind fun e => .after (.eatPunct _) fun _ => ?_)
    refine .ite (ih.bind fun _ => .pure rfl) (.after (.atPunct _) fun _ => ?_)
    exact .ite (ih.bind fun _ => .pure rfl) (erases_failBefore _)

theorem erases_items (h : LayoutFree inner) (bracket bracket' : Span) (rounds : List Lexeme) :
    Erases true (List.map ArrayItem.bare) (items inner bracket rounds)
      (items inner bracket' (rounds.map (.bare true))) := by
  induction rounds with
  | nil => exact .pure rfl
  | cons l rounds ih =>
    refine .after (.eatPunct _) fun _ => .ite (.pure rfl) (.after .atEnd fun _ => ?_)
    refine .ite (.fail ..) (.after (.eatPunct _) fun _ => ?_)
    extract_lets rest rest'
    have hrest (i : ArrayItem) :
        Erases true (List.map ArrayItem.bare) (rest i) (rest' i.bare) := by
      refine .after (.eatPunct _) fun _ => .ite (ih.bind fun _ => .pure rfl) ?_
      exact .after (.atPunct _) fun _ => .ite (ih.bind fun _ => .pure rfl) (erases_failBefore _)
    exact .ite ((h _).bind fun e => hrest (.spread e)) ((h _).bind fun e => hrest (.item e))

theorem erases_memberKey :
    Erases true (fun (key, _, isName) => (key, default, isName)) memberKey memberKey := by
  refine Erases.next.bind fun l => ?_
  obtain ⟨t, s, d, n⟩ := l
  cases t with
  | name text | string text | number x => exact .pure rfl
  | template pieces | punct p | endOfInput => exact .fail ..

theorem erases_objectMember (h : LayoutFree inner) :
    Erases true ObjectMember.bare (objectMember inner) (objectMember inner) := by
  refine .after (.eatPunct _) fun _ => .ite ((h _).bind fun _ => .pure rfl) ?_
  refine erases_memberKey.bind fun (key, span, isName) => .after (.eatPunct _) fun _ => ?_
  exact .ite ((h _).bind fun _ => .pure rfl) (.ite (.pure rfl) (erases_failBefore _))

theorem erases_members (h : LayoutFree inner) (brace brace' : Span) (rounds : List Lexeme) :
    Erases true (List.map ObjectMember.bare) (members inner brace rounds)
      (members inner brace' (rounds.map (.bare true))) := by
  induction rounds with
  | nil => exact .pure rfl
  | cons l rounds ih =>
    refine .after (.eatPunct _) fun _ => .ite (.pure rfl) (.after .atEnd fun _ => ?_)
    refine .ite (.fail ..) ((erases_objectMember h).bind fun m => .after (.eatPunct _) fun _ => ?_)
    refine .ite (ih.bind fun _ => .pure rfl) (.after (.atPunct _) fun _ => ?_)
    exact .ite (ih.bind fun _ => .pure rfl) (erases_failBefore _)

theorem mirrors_hole (h : LayoutFree inner) (tokens : List Lexeme) :
    Mirrors Expr.bare (hole inner tokens) (hole inner (tokens.map (.bare true))) := by
  refine ((h .expression).ofTokens tokens).bind fun (e, c) => ?_
  simp only [Cursor.atEnd_bare, Cursor.peek_bare, Lexeme.token_bare, Token.describe_bare]
  split <;> rfl

theorem mirrors_segments (h : LayoutFree inner) (ps : List Piece) :
    Mirrors Expr.bareSegments (segments inner ps) (segments inner (Piece.bareAll true ps)) := by
  induction ps with
  | nil => rfl
  | cons p ps ih =>
    cases p with
    | text s => exact ih.bind fun _ => rfl
    | hole tokens =>
      rw [Piece.bareAll, Lexeme.bareAll_eq_map]
      exact (mirrors_hole h tokens).bind fun _ => ih.bind fun _ => rfl

theorem erases_segments (h : LayoutFree inner) (ps : List Piece) :
    Erases true Expr.bareSegments (liftM (segments inner ps) : ProgramReader _)
      (liftM (segments inner (Piece.bareAll true ps)) : ProgramReader _) :=
  ⟨fun _ => (mirrors_segments h ps).bind fun _ => rfl⟩

theorem erases_word (text : String) (s s' : Span) (h : s' = default) :
    Erases true Expr.bare (word text s) (word text s') := by
  subst h
  exact .ite (.pure rfl) (.ite (.pure rfl) (.ite (.pure rfl) (.ite (.pure rfl)
    (.ite (.fail ..) (.pure rfl)))))

theorem erases_primary (h : LayoutFree inner) :
    Erases true Expr.bare (primary inner) (primary inner) := by
  refine Erases.next.bind fun l => ?_
  obtain ⟨t, s, d, n⟩ := l
  cases t with
  | string v => exact .pure rfl
  | number x => exact .pure rfl
  | template ps => exact (erases_segments h ps).bind fun _ => .pure rfl
  | name text => exact erases_word _ _ _ rfl
  | endOfInput => exact .fail ..
  | punct p =>
    cases p with
    | leftParen =>
      refine (h _).bind fun e => (erases_expect _).bind fun _ => .pure ?_
      rw [Expr.bare_withSpan]
      exact e.withSpan_bare
    | leftBracket =>
      refine Erases.rounds.bind fun _ => (erases_items h _ _ _).bind fun is => ?_
      exact Erases.previous.bind fun _ => .pure (by rw [Expr.bare, Expr.bareItems_eq_map]; rfl)
    | leftBrace =>
      refine Erases.rounds.bind fun _ => (erases_members h _ _ _).bind fun ms => ?_
      exact Erases.previous.bind fun _ => .pure (by rw [Expr.bare, Expr.bareMembers_eq_map]; rfl)
    | _ => exact .fail ..

theorem erases_trailers (h : LayoutFree inner) (rounds : List Lexeme) (e : Expr) :
    Erases true Expr.bare (trailers inner rounds e)
      (trailers inner (rounds.map (.bare true)) e.bare) := by
  induction rounds generalizing e with
  | nil => exact .pure rfl
  | cons l rounds ih =>
    rw [List.map_cons, trailers, trailers, Expr.span_bare]
    refine Erases.peek.bind fun l => .after (.eatPunct _) fun _ => .ite ?_ ?_
    · exact erases_expectProperty.bind fun _ => ih _
    rw [Lexeme.newlineBefore_bare]
    refine .ite (.pure rfl) (.after (.eatPunct _) fun _ => .ite ?_ ?_)
    · exact (h _).bind fun _ => (erases_expect _).bind fun _ => ih _
    refine .after (.eatPunct _) fun _ => .ite ?_ (.pure rfl)
    exact Erases.rounds.bind fun _ => (erases_arguments h _).bind fun _ =>
      Erases.previous.bind fun _ => ih _

theorem erases_unary (h : LayoutFree inner) :
    Erases true Expr.bare (unary inner) (unary inner) := by
  refine Erases.peek.bind fun l => .after (.eatPunct _) fun _ => .ite ?_ ?_
  · exact (h (.unaryOperand _)).bind fun e => .pure (by rw [Expr.span_bare]; rfl)
  refine .after (.eatPunct _) fun _ => .ite ?_ ?_
  · exact (h (.unaryOperand _)).bind fun e => .pure (by rw [Expr.span_bare]; rfl)
  · exact (erases_primary h).bind fun e => Erases.rounds.bind fun _ => erases_trailers h _ e

theorem binaryOp?_bare (t : Token) : binaryOp? (t.bare true) = binaryOp? t := by
  cases t <;> rfl

theorem erases_operators (h : LayoutFree inner) (least : Nat) (rounds : List Lexeme)
    (left : Expr) :
    Erases true Expr.bare (operators inner least rounds left)
      (operators inner least (rounds.map (.bare true)) left.bare) := by
  induction rounds generalizing left with
  | nil => exact .pure rfl
  | cons l rounds ih =>
    rw [List.map_cons, operators, operators, Expr.span_bare]
    refine Erases.peek.bind fun l => ?_
    rw [Lexeme.token_bare, binaryOp?_bare]
    cases binaryOp? l.token with
    | none => exact .pure rfl
    | some op =>
      refine .ite (.pure rfl) (Erases.next.bind fun _ => ?_)
      refine (h (.rightOperand _)).bind fun right => ?_
      rw [Expr.span_bare]
      exact ih (.binary _ op left right)

theorem erases_binary (h : LayoutFree inner) (least : Nat) :
    Erases true Expr.bare (binary inner least) (binary inner least) :=
  (erases_unary h).bind fun left => Erases.rounds.bind fun _ => erases_operators h _ _ left

theorem erases_conditional (h : LayoutFree inner) :
    Erases true Expr.bare (conditional inner) (conditional inner) := by
  refine (erases_binary h 0).bind fun test => .after (.eatPunct _) fun _ => .ite ?_ (.pure rfl)
  refine (h .expression).bind fun c => (erases_expect _).bind fun _ => ?_
  exact (h .expression).bind fun a => .pure (by rw [Expr.span_bare, Expr.span_bare]; rfl)

theorem layoutFree_nested (limit levels : Nat) : LayoutFree (nested limit levels) := by
  induction levels with
  | zero => exact fun goal => ⟨fun c => by cases goal <;> rfl⟩
  | succ n ih =>
    intro goal
    cases goal with
    | expression =>
      -- Which form is read is decided by all that is ahead, so this reader is not a bind.
      refine ⟨fun c => ?_⟩
      have harrow : beginsArrow (c.bare true).ahead = beginsArrow c.ahead := beginsArrow_bare _
      simp only [nested, Goal.bare, harrow]
      split
      · exact (erases_arrow ih).run c
      · exact (erases_conditional ih).run c
    | rightOperand least => exact ⟨(erases_binary ih least).run⟩
    | unaryOperand mark => exact ⟨(erases_unary ih).run⟩

variable {expression : ProgramReader Expr}

theorem erases_endStatement : Erases true id endStatement endStatement := by
  refine .after (.eatPunct _) fun _ => .ite (.pure rfl) (.after .atEnd fun _ => ?_)
  refine .ite (.pure rfl) (Erases.peek.bind fun l => ?_)
  rw [Lexeme.newlineBefore_bare]
  exact .ite (.pure rfl) (erases_failBefore _)

theorem erases_importStatement : Erases true Import.bare importStatement importStatement := by
  refine Erases.next.bind fun _ => Erases.next.bind fun l => ?_
  obtain ⟨t, s, d, n⟩ := l
  cases t with
  | string path => exact .after erases_endStatement fun _ => .pure rfl
  | _ => exact .fail ..

theorem erases_declaration (h : Erases true Expr.bare expression expression)
    (kind : BindingKind) (start : Span) :
    Erases true Statement.bare (declaration expression kind start)
      (declaration expression kind default) := by
  refine (erases_expectName _).bind fun name => .after (.eatPunct _) fun _ => ?_
  extract_lets rest rest'
  have hrest (init : Option Expr) :
      Erases true Statement.bare (rest init) (rest' (init.map Expr.bare)) :=
    Erases.previous.bind fun _ => .after erases_endStatement fun _ => .pure rfl
  refine .ite (h.bind fun e => hrest (some e)) (.ite ?_ (hrest none))
  exact (erases_failBefore (f := Option.map Expr.bare) _).bind hrest

theorem erases_assignment (h : Erases true Expr.bare expression expression) (target : Expr)
    (start : Span) :
    Erases true Statement.bare (assignment expression target start)
      (assignment expression target.bare default) := by
  cases target with
  | name span name =>
    refine Erases.next.bind fun _ => h.bind fun value => Erases.previous.bind fun _ => ?_
    exact .after erases_endStatement fun _ => .pure rfl
  | _ => exact .fail ..

theorem erases_statement (h : Erases true Expr.bare expression expression) :
    Erases true Statement.bare (statement expression) (statement expression) := by
  refine Erases.peek.bind fun l => .after (.eatName _) fun _ => ?_
  refine .ite (erases_declaration h ..) (.after (.eatName _) fun _ => ?_)
  refine .ite (erases_declaration h ..) (.after (.eatName _) fun _ => ?_)
  refine .ite (erases_declaration h ..) (h.bind fun e => .after (.atPunct _) fun _ => ?_)
  exact .ite (erases_assignment h ..) (.after erases_endStatement fun _ => .pure rfl)

def barePair (r : List Import × List Statement) : List Import × List Statement :=
  (r.1.map Import.bare, r.2.map Statement.bare)

theorem erases_body (h : Erases true Expr.bare expression expression) (imports : List Import)
    (ss : List Statement) (rounds : List Lexeme) :
    Erases true barePair (body expression imports ss rounds)
      (body expression (imports.map Import.bare) (ss.map Statement.bare)
        (rounds.map (.bare true))) := by
  have hpair : barePair (imports.reverse, ss.reverse) =
      ((imports.map Import.bare).reverse, (ss.map Statement.bare).reverse) := by
    simp [barePair]
  induction rounds generalizing imports ss with
  | nil => exact .pure hpair.symm
  | cons l rounds ih =>
    refine .after (.skipPuncts _) fun _ => .after .atEnd fun _ => .ite (.pure hpair.symm) ?_
    refine .after (.atName _) fun _ => .ite ?_ ?_
    · exact erases_importStatement.bind fun i => ih (i :: imports) ss (by simp [barePair])
    · exact (erases_statement h).bind fun s => ih imports (s :: ss) (by simp [barePair])

/-- Tokens without layout are read as the same imports and statements without places. -/
theorem mirrors_ofTokens (maxDepth : Nat) (tokens : List Lexeme) :
    Mirrors barePair (ofTokens maxDepth tokens)
      (ofTokens maxDepth (tokens.map (.bare true))) := by
  have hexpr : Erases true Expr.bare (fun c => nested maxDepth maxDepth .expression c)
      (fun c => nested maxDepth maxDepth .expression c) :=
    ⟨(layoutFree_nested maxDepth maxDepth .expression).run⟩
  unfold ofTokens
  rw [Cursor.ofTokens_bare]
  exact ((erases_body hexpr [] [] _).run _).map fun _ => rfl

end Program

end TypedConfig
