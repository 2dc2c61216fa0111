import TypedConfig.Proofs.Limits.Keeps
import TypedConfig.Schema.Load

/-! # Larger limits keep schemas

A type expression that is read with a number of levels of nesting is read the same with more of
them. So sources that make a schema within limits make the same within larger ones.
-/

namespace TypedConfig

namespace Declaration

variable {inner inner' : DeclReader TyTerm}

theorem keeps_indexSignature (h : KeepsReader inner inner') :
    KeepsReader (indexSignature inner) (indexSignature inner') := by
  refine .after fun (key, _) => .after fun _ => .after fun _ => ?_
  extract_lets rest rest'
  have hrest (u : Unit) : KeepsReader (rest u) (rest' u) :=
    .after fun _ => .after fun _ => h.bind fun _ => .refl _
  exact .ite (.after fun _ => .after hrest) (hrest ())

theorem keeps_fieldTerm (h : KeepsReader inner inner') :
    KeepsReader (fieldTerm inner) (fieldTerm inner') := by
  refine .after fun l => ?_
  extract_lets rest rest'
  have hrest (name : String) : KeepsReader (rest name) (rest' name) :=
    .after fun _ => .after fun _ => h.bind fun _ => .refl _
  split <;> exact .after hrest

theorem keeps_members (h : KeepsReader inner inner') (owner : Option String) (brace : Span)
    (rounds : List Lexeme) (fields : List (FieldInfo × TyTerm))
    (index : Option (String × TyTerm)) :
    KeepsReader (members inner owner brace rounds fields index)
      (members inner' owner brace rounds fields index) := by
  induction rounds generalizing fields index with
  | nil => exact .refl _
  | cons l rounds ih =>
    refine .after fun _ => .after fun _ => .ite (.refl _) (.after fun _ => .ite (.refl _) ?_)
    refine .after fun _ => .ite (.after fun _ => ?_) ?_
    · exact (keeps_indexSignature h).bind fun _ => .ite (.refl _) (ih _ _)
    · exact (keeps_fieldTerm h).bind fun _ => .ite (.refl _) (ih _ _)

theorem keeps_namedTerm (h : KeepsReader inner inner') (word : String) (span : Span) :
    KeepsReader (namedTerm inner word span) (namedTerm inner' word span) := by
  refine .ite (.refl _) (.ite (.refl _) (.ite (.refl _) (.ite (.refl _) (.ite (.refl _) ?_))))
  exact .ite (.after fun _ => h.bind fun _ => .refl _) (.refl _)

theorem keeps_primary (h : KeepsReader inner inner') :
    KeepsReader (primary inner) (primary inner') := by
  refine .after fun l => ?_
  split
  · exact .after fun _ => h.bind fun _ => .refl _
  · exact .after fun _ => .after fun _ => keeps_members h ..
  · exact .refl _
  · exact .refl _
  · exact .refl _
  · exact .after fun _ => keeps_namedTerm h ..
  · exact .refl _

theorem keeps_alternative (h : KeepsReader inner inner') :
    KeepsReader (alternative inner) (alternative inner') :=
  .after fun _ => (keeps_primary h).bind fun _ => .refl _

theorem keeps_alternatives (h : KeepsReader inner inner') (rounds : List Lexeme) :
    KeepsReader (alternatives inner rounds) (alternatives inner' rounds) := by
  induction rounds with
  | nil => exact .refl _
  | cons l rounds ih =>
    refine .after fun _ => .ite ((keeps_alternative h).bind fun _ => ?_) (.refl _)
    exact ih.bind fun _ => .refl _

theorem keeps_unionTerm (h : KeepsReader inner inner') :
    KeepsReader (unionTerm inner) (unionTerm inner') :=
  .after fun _ => (keeps_alternative h).bind fun _ => .after fun _ =>
    (keeps_alternatives h _).bind fun _ => .refl _

/-- A type expression is read the same where more levels may be nested. -/
theorem keeps_typeTerm {limit limit' levels levels' : Nat} (hl : levels ≤ levels') :
    KeepsReader (typeTerm limit levels) (typeTerm limit' levels') := by
  induction levels generalizing levels' with
  | zero => exact ⟨fun _ => .of_error ..⟩
  | succ n ih =>
    cases levels' with
    | zero => cases hl
    | succ n' => exact ⟨(keeps_unionTerm (ih (Nat.le_of_succ_le_succ hl))).run⟩

variable {term term' : DeclReader TyTerm}

theorem keeps_interface (h : KeepsReader term term') (doc : Option String) :
    KeepsReader (interface term doc) (interface term' doc) := by
  refine .after fun _ => .after fun _ => ?_
  extract_lets rest rest'
  have hrest (u : Unit) : KeepsReader (rest u) (rest' u) :=
    .after fun _ => .after fun _ => (keeps_members h ..).bind fun _ => .refl _
  exact .ite (.after hrest) (hrest ())

theorem keeps_typeAlias (h : KeepsReader term term') (doc : Option String) :
    KeepsReader (typeAlias term doc) (typeAlias term' doc) :=
  .after fun _ => .after fun _ => h.bind fun _ => .refl _

theorem keeps_constantValue (h : KeepsReader term term') :
    KeepsReader (constantValue term) (constantValue term') := by
  have htyped : KeepsReader (typedConstant term) (typedConstant term') :=
    .after fun _ => h.bind fun _ => .refl _
  exact .after fun _ => .ite (.refl _) (.after fun _ => .ite htyped (.refl _))

theorem keeps_constantDeclaration (h : KeepsReader term term') :
    KeepsReader (constantDeclaration term) (constantDeclaration term') :=
  .after fun _ => (keeps_constantValue h).bind fun _ => .refl _

theorem keeps_rootDeclaration (h : KeepsReader term term') (earlier : Option String) :
    KeepsReader (rootDeclaration term earlier) (rootDeclaration term' earlier) :=
  .after fun _ => .after fun _ => h.bind fun _ => .refl _

theorem keeps_statement (h : KeepsReader term term') (earlier : Option String) :
    KeepsReader (statement term earlier) (statement term' earlier) := by
  refine .after fun _ => .after fun _ => .after fun _ => ?_
  refine .ite ((keeps_interface h _).bind fun _ => .refl _) (.after fun _ => ?_)
  refine .ite ((keeps_typeAlias h _).bind fun _ => .refl _) (.after fun _ => .ite ?_ (.refl _))
  refine .after fun _ => .ite ((keeps_constantDeclaration h).bind fun _ => .refl _) ?_
  have hroot : KeepsReader (do return some (← rootDeclaration term earlier))
      (do return some (← rootDeclaration term' earlier)) :=
    (keeps_rootDeclaration h earlier).bind fun _ => .refl _
  exact .after fun _ => .ite hroot (.after fun _ => .ite hroot (.refl _))

theorem keeps_statements (h : KeepsReader term term') (earlier : Option String)
    (done : List Declaration) (rounds : List Lexeme) :
    KeepsReader (statements term earlier done rounds) (statements term' earlier done rounds) := by
  induction rounds generalizing earlier done with
  | nil => exact .refl _
  | cons l rounds ih =>
    refine .after fun _ => .after fun _ => .ite (.refl _) ((keeps_statement h _).bind fun d => ?_)
    cases d <;> exact ih _ _

theorem ofTokens_mono {depth depth' : Nat} (hd : depth ≤ depth') (tokens : List Lexeme) :
    Keeps (ofTokens depth tokens) (ofTokens depth' tokens) :=
  ((keeps_statements (keeps_typeTerm hd) none [] _).run _).map _

end Declaration

namespace Schema

variable {l m : Limits}

theorem declarations_mono (hl : l ≤ m) (source : Source) :
    Keeps (declarations l source) (declarations m source) := by
  refine ⟨fun ds h => ?_⟩
  unfold declarations at h ⊢
  split at h
  · cases h
  · rename_i hsize
    rw [Limits.checkSource_mono hl hsize]
    dsimp only
    split at h
    · cases h
    · rename_i tokens htokens
      rw [(tokenizeWithin_mono hl.2.1 source.text).ok tokens htokens]
      dsimp only
      split at h
      · cases h
      · rename_i ds' hread
        rw [(Declaration.ofTokens_mono hl.2.1 tokens).ok _ hread]
        exact h

theorem draft_mono (hl : l ≤ m) (d : Draft) (sources : List Source) :
    Keeps (draft l d sources) (draft m d sources) := by
  induction sources generalizing d with
  | nil => exact .refl _
  | cons source rest ih =>
    exact (declarations_mono hl source).bind fun _ => (Keeps.refl _).bind fun _ => ih _

/-- Sources that make a schema within limits make the same within larger ones. -/
theorem keeps_load (hl : l ≤ m) (sources : List Source) :
    Keeps (load l sources) (load m sources) :=
  (draft_mono hl .empty sources).bind fun _ => .refl _

end Schema

end TypedConfig
