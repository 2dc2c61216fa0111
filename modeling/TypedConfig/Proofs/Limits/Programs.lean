import TypedConfig.Program.Parse
import TypedConfig.Proofs.Limits.Keeps

/-! # Larger limits keep programs

A reader of programs keeps what it reads if the reader of the next level of nesting does. So an
expression that is read with a number of levels is read the same with more of them, and a program
that is read within limits is read the same within larger ones.
-/

namespace TypedConfig.Program

/-- The second reader of the next level keeps what the first reads. -/
def KeepsInner (inner inner' : Inner) : Prop := ∀ goal, KeepsReader (inner goal) (inner' goal)

variable {inner inner' : Inner}

theorem keeps_arrowBody (h : KeepsInner inner inner') :
    KeepsReader (arrowBody inner) (arrowBody inner') :=
  .after fun _ => .ite
    (.after fun _ => .after fun _ => .ite ((h _).bind fun _ => .refl _) (.refl _)) (h _)

theorem keeps_arrow (h : KeepsInner inner inner') : KeepsReader (arrow inner) (arrow inner') := by
  refine .after fun l => .after fun _ => ?_
  extract_lets rest rest'
  have hrest (ps : List Ident) : KeepsReader (rest ps) (rest' ps) := by
    dsimp only [rest, rest']
    split
    · exact .refl _
    · exact .after fun _ => (keeps_arrowBody h).bind fun _ => .refl _
  exact .ite (.after fun _ => .after hrest) (.after fun _ => .after hrest)

theorem keeps_arguments (h : KeepsInner inner inner') (rounds : List Lexeme) :
    KeepsReader (arguments inner rounds) (arguments inner' rounds) := by
  induction rounds with
  | nil => exact .refl _
  | cons l rounds ih =>
    refine .after fun _ => .ite (.refl _) (.after fun _ => .ite (.refl _) ?_)
    refine (h _).bind fun e => .after fun _ => .ite (ih.bind fun _ => .refl _) ?_
    exact .after fun _ => .ite (ih.bind fun _ => .refl _) (.refl _)

theorem keeps_items (h : KeepsInner inner inner') (bracket : Span) (rounds : List Lexeme) :
    KeepsReader (items inner bracket rounds) (items inner' bracket rounds) := by
  induction rounds with
  | nil => exact .refl _
  | cons l rounds ih =>
    refine .after fun _ => .ite (.refl _) (.after fun _ => .ite (.refl _) (.after fun _ => ?_))
    extract_lets rest rest'
    have hrest (i : ArrayItem) : KeepsReader (rest i) (rest' i) := by
      refine .after fun _ => .ite (ih.bind fun _ => .refl _) ?_
      exact .after fun _ => .ite (ih.bind fun _ => .refl _) (.refl _)
    exact .ite ((h _).bind fun _ => .after hrest) ((h _).bind fun _ => .after hrest)

theorem keeps_objectMember (h : KeepsInner inner inner') :
    KeepsReader (objectMember inner) (objectMember inner') := by
  refine .after fun _ => .ite ((h _).bind fun _ => .refl _) (.after fun (key, span, isName) => ?_)
  exact .after fun _ => .ite ((h _).bind fun _ => .refl _) (.refl _)

theorem keeps_members (h : KeepsInner inner inner') (brace : Span) (rounds : List Lexeme) :
    KeepsReader (members inner brace rounds) (members inner' brace rounds) := by
  induction rounds with
  | nil => exact .refl _
  | cons l rounds ih =>
    refine .after fun _ => .ite (.refl _) (.after fun _ => .ite (.refl _) ?_)
    refine (keeps_objectMember h).bind fun _ => ?_
    refine .after fun _ => .ite (ih.bind fun _ => .refl _) ?_
    exact .after fun _ => .ite (ih.bind fun _ => .refl _) (.refl _)

theorem keeps_segments (h : KeepsInner inner inner') (ps : List Piece) :
    Keeps (segments inner ps) (segments inner' ps) := by
  induction ps with
  | nil => exact .refl _
  | cons p ps ih =>
    cases p with
    | text s => exact ih.bind fun _ => .refl _
    | hole tokens =>
      have hhole : Keeps (hole inner tokens) (hole inner' tokens) :=
        ((h _).run _).bind fun _ => .refl _
      exact hhole.bind fun _ => ih.bind fun _ => .refl _

theorem keeps_primary (h : KeepsInner inner inner') :
    KeepsReader (primary inner) (primary inner') := by
  refine .after fun l => ?_
  split
  · exact .refl _
  · exact .refl _
  · exact .bind ⟨fun _ => (keeps_segments h _).bind fun _ => .refl _⟩ fun _ => .refl _
  · exact .refl _
  · exact (h _).bind fun _ => .refl _
  · exact .after fun _ => (keeps_items h _ _).bind fun _ => .refl _
  · exact .after fun _ => (keeps_members h _ _).bind fun _ => .refl _
  · exact .refl _

theorem keeps_trailers (h : KeepsInner inner inner') (rounds : List Lexeme) (e : Expr) :
    KeepsReader (trailers inner rounds e) (trailers inner' rounds e) := by
  induction rounds generalizing e with
  | nil => exact .refl _
  | cons l rounds ih =>
    refine .after fun _ => .after fun _ => .ite (.after fun _ => ih _) (.ite (.refl _) ?_)
    refine .after fun _ => .ite ((h _).bind fun _ => .after fun _ => ih _) (.after fun _ => ?_)
    exact .ite (.after fun _ => (keeps_arguments h _).bind fun _ => .after fun _ => ih _) (.refl _)

theorem keeps_unary (h : KeepsInner inner inner') : KeepsReader (unary inner) (unary inner') := by
  refine .after fun _ => .after fun _ => .ite ((h _).bind fun _ => .refl _) (.after fun _ => ?_)
  refine .ite ((h _).bind fun _ => .refl _) ((keeps_primary h).bind fun _ => .after fun _ => ?_)
  exact keeps_trailers h _ _

theorem keeps_operators (h : KeepsInner inner inner') (least : Nat) (rounds : List Lexeme)
    (left : Expr) :
    KeepsReader (operators inner least rounds left) (operators inner' least rounds left) := by
  induction rounds generalizing left with
  | nil => exact .refl _
  | cons l rounds ih =>
    refine .after fun _ => ?_
    split
    · exact .refl _
    · exact .ite (.refl _) (.after fun _ => (h _).bind fun _ => ih _)

theorem keeps_binary (h : KeepsInner inner inner') (least : Nat) :
    KeepsReader (binary inner least) (binary inner' least) :=
  (keeps_unary h).bind fun _ => .after fun _ => keeps_operators h _ _ _

theorem keeps_conditional (h : KeepsInner inner inner') :
    KeepsReader (conditional inner) (conditional inner') := by
  refine (keeps_binary h 0).bind fun _ => .after fun _ => .ite ?_ (.refl _)
  exact (h _).bind fun _ => .after fun _ => (h _).bind fun _ => .refl _

/-- An expression is read the same where more levels may be nested. -/
theorem keeps_nested {limit limit' levels levels' : Nat} (hl : levels ≤ levels') :
    KeepsInner (nested limit levels) (nested limit' levels') := by
  induction levels generalizing levels' with
  | zero => exact fun goal => ⟨fun _ => by cases goal <;> exact .of_error ..⟩
  | succ n ih =>
    cases levels' with
    | zero => cases hl
    | succ n' =>
      have h : KeepsInner (nested limit n) (nested limit' n') := ih (Nat.le_of_succ_le_succ hl)
      intro goal
      cases goal with
      | expression =>
        refine ⟨fun c => ?_⟩
        simp only [nested]
        split
        · exact (keeps_arrow h).run c
        · exact (keeps_conditional h).run c
      | rightOperand least => exact ⟨fun c => (keeps_binary h least).run c⟩
      | unaryOperand mark => exact ⟨fun c => (keeps_unary h).run c⟩

variable {expression expression' : ProgramReader Expr}

theorem keeps_declaration (h : KeepsReader expression expression') (kind : BindingKind)
    (start : Span) : KeepsReader (declaration expression kind start)
      (declaration expression' kind start) := by
  refine .after fun _ => .after fun _ => ?_
  extract_lets rest
  exact .ite (h.bind fun _ => .after fun _ => .refl _) (.refl _)

theorem keeps_assignment (h : KeepsReader expression expression') (target : Expr) (start : Span) :
    KeepsReader (assignment expression target start) (assignment expression' target start) := by
  cases target with
  | name span name => exact .after fun _ => h.bind fun _ => .refl _
  | _ => exact .refl _

theorem keeps_statement (h : KeepsReader expression expression') :
    KeepsReader (statement expression) (statement expression') := by
  refine .after fun _ => .after fun _ => .ite (keeps_declaration h _ _) (.after fun _ => ?_)
  refine .ite (keeps_declaration h _ _) (.after fun _ => .ite (keeps_declaration h _ _) ?_)
  exact h.bind fun _ => .after fun _ => .ite (keeps_assignment h _ _) (.refl _)

theorem keeps_body (h : KeepsReader expression expression') (imports : List Import)
    (ss : List Statement) (rounds : List Lexeme) :
    KeepsReader (body expression imports ss rounds) (body expression' imports ss rounds) := by
  induction rounds generalizing imports ss with
  | nil => exact .refl _
  | cons l rounds ih =>
    refine .after fun _ => .after fun _ => .ite (.refl _) (.after fun _ => ?_)
    exact .ite (.after fun _ => ih _ _) ((keeps_statement h).bind fun _ => ih _ _)

theorem ofTokens_mono {depth depth' : Nat} (hd : depth ≤ depth') (tokens : List Lexeme) :
    Keeps (ofTokens depth tokens) (ofTokens depth' tokens) :=
  ((keeps_body ⟨(keeps_nested hd .expression).run⟩ [] [] _).run _).map _

variable {l m : Limits} {source : Source} {program : Program}

/-- A program that is read within limits is read the same within larger ones. -/
theorem parse_mono (hl : l ≤ m) (h : parse l source = .ok program) :
    parse m source = .ok program := by
  unfold parse at h ⊢
  split at h
  · cases h
  · rename_i hsize
    rw [Limits.checkSource_mono hl hsize]
    dsimp only
    split at h
    · cases h
    · rename_i tokens htokens
      rw [(tokenizeWithin_mono hl.2.1 source.text).ok tokens htokens]
      dsimp only
      split at h
      · cases h
      · rename_i imports statements hread
        rw [(ofTokens_mono hl.2.1 tokens).ok _ hread]
        exact h

end TypedConfig.Program
