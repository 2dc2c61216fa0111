import TypedConfig.Proofs.Layout.Tokens
import TypedConfig.Schema.Load

/-! # Schemas do not depend on layout

Every reader of declarations erases to itself, given no places and no doc comments, and nothing
that becomes of declarations asks for either. So sources that have the same tokens up to layout
both make no schema, or schemas that are equal up to spans and doc comments.
-/

namespace TypedConfig

open Reader (Erases)

def FieldInfo.bare (i : FieldInfo) : FieldInfo := ⟨i.name, i.optional, none, default⟩

@[simp] theorem FieldInfo.name_bare (i : FieldInfo) : i.bare.name = i.name := rfl

namespace Ty

mutual

def bare : Ty → Ty
  | scalar kind => scalar kind
  | literal values => literal values
  | record name fields => record name (bareFields fields)
  | union ts => union (bareAll ts)
  | sequence t acceptsSingle => sequence t.bare acceptsSingle
  | map key t => map key t.bare
  | named name => named name

def bareAll : List Ty → List Ty
  | [] => []
  | t :: ts => t.bare :: bareAll ts

def bareFields : List (FieldInfo × Ty) → List (FieldInfo × Ty)
  | [] => []
  | (i, t) :: fs => (i.bare, t.bare) :: bareFields fs

end

@[simp] theorem literals?_bare (t : Ty) : t.bare.literals? = t.literals? := by cases t <;> rfl

@[simp] theorem allLiterals?_bareAll (ts : List Ty) :
    allLiterals? (bareAll ts) = allLiterals? ts := by
  unfold allLiterals?
  congr 1
  induction ts with
  | nil => rfl
  | cons t ts ih => rw [bareAll, List.mapM_cons, List.mapM_cons, ih, literals?_bare]

theorem unite_bareAll (ts : List Ty) : unite (bareAll ts) = (unite ts).bare := by
  match ts with
  | [] | [_] => rfl
  | t :: u :: ts =>
    have hliterals := allLiterals?_bareAll (t :: u :: ts)
    simp only [bareAll] at hliterals ⊢
    simp only [unite, hliterals]
    split <;> rfl

end Ty

namespace TyTerm

mutual

def bare : TyTerm → TyTerm
  | scalar kind => scalar kind
  | literal value => literal value
  | record name fields => record name (bareFields fields)
  | union ts => union (bareAll ts)
  | sequence t acceptsSingle => sequence t.bare acceptsSingle
  | map key t => map key t.bare
  | reference r => reference ⟨r.name, default⟩

def bareAll : List TyTerm → List TyTerm
  | [] => []
  | t :: ts => t.bare :: bareAll ts

def bareFields : List (FieldInfo × TyTerm) → List (FieldInfo × TyTerm)
  | [] => []
  | (i, t) :: fs => (i.bare, t.bare) :: bareFields fs

end

/-- A field of a record without its span and doc comment. -/
def bareField (f : FieldInfo × TyTerm) : FieldInfo × TyTerm := (f.1.bare, f.2.bare)

theorem bareFields_eq_map (fs : List (FieldInfo × TyTerm)) :
    bareFields fs = fs.map bareField := by
  induction fs with
  | nil => rfl
  | cons f fs ih => exact congrArg (List.cons _) ih

mutual

theorem type_bare : ∀ t : TyTerm, t.bare.type = t.type.bare
  | scalar _ | literal _ | reference _ => rfl
  | record _ fields => congrArg (Ty.record _) (fieldTypes_bareFields fields)
  | union ts => by rw [bare, type, types_bareAll, Ty.unite_bareAll, type]
  | sequence t _ => congrArg (Ty.sequence · _) (type_bare t)
  | map _ t => congrArg (Ty.map _) (type_bare t)

theorem types_bareAll : ∀ ts : List TyTerm, types (bareAll ts) = Ty.bareAll (types ts)
  | [] => rfl
  | t :: ts => by rw [bareAll, types, type_bare t, types_bareAll ts, types, Ty.bareAll]

theorem fieldTypes_bareFields : ∀ fs : List (FieldInfo × TyTerm),
    fieldTypes (bareFields fs) = Ty.bareFields (fieldTypes fs)
  | [] => rfl
  | (i, t) :: fs => by
    rw [bareFields, fieldTypes, type_bare t, fieldTypes_bareFields fs, fieldTypes, Ty.bareFields]

end

theorem ofAlternatives_bareAll (ts : List TyTerm) :
    ofAlternatives (bareAll ts) = (ofAlternatives ts).bare := by
  match ts with
  | [] | [_] | _ :: _ :: _ => rfl

end TyTerm

def Reference.bare (r : Reference) : Reference := ⟨r.name, default⟩

namespace TyTerm

mutual

theorem references_bare : ∀ t : TyTerm, t.bare.references = t.references.map Reference.bare
  | scalar _ | literal _ | reference _ => rfl
  | record _ fields => fieldReferences_bareFields fields
  | union ts => listReferences_bareAll ts
  | sequence t _ | map _ t => references_bare t

theorem listReferences_bareAll : ∀ ts : List TyTerm,
    listReferences (bareAll ts) = (listReferences ts).map Reference.bare
  | [] => rfl
  | t :: ts => by
    rw [bareAll, listReferences, listReferences, List.map_append, references_bare t,
      listReferences_bareAll ts]

theorem fieldReferences_bareFields : ∀ fs : List (FieldInfo × TyTerm),
    fieldReferences (bareFields fs) = (fieldReferences fs).map Reference.bare
  | [] => rfl
  | (_, t) :: fs => by
    rw [bareFields, fieldReferences, fieldReferences, List.map_append, references_bare t,
      fieldReferences_bareFields fs]

end

end TyTerm

def TypeDeclaration.bare (d : TypeDeclaration) : TypeDeclaration :=
  ⟨d.name, d.type.bare, none, d.source, default⟩

def ConstantDeclaration.bare (d : ConstantDeclaration) : ConstantDeclaration :=
  ⟨d.name, d.value, default⟩

def RootBinding.bare (r : RootBinding) : RootBinding := ⟨r.name, r.type.bare, r.source, default⟩

def Schema.bare (s : Schema) : Schema :=
  ⟨s.types.map .bare, s.constants.map .bare, s.root.bare⟩

namespace Declaration

def bare : Declaration → Declaration
  | type name body _ _ => type name body.bare none default
  | constant name value _ => constant name value default
  | root name body _ => root name body.bare default

def bareWord (r : String × Span) : String × Span := (r.1, default)

def bareIndex (r : String × TyTerm) : String × TyTerm := (r.1, r.2.bare)

abbrev LayoutFree (inner : DeclReader TyTerm) : Prop := Erases false TyTerm.bare inner inner

variable {α β : Type} {f : α → β} {inner : DeclReader TyTerm}

theorem erases_expectedBut (what : String) :
    Erases false f (expectedBut what) (expectedBut what) := by
  refine Erases.peek.bind fun l => ?_
  rw [Lexeme.token_bare, Token.describe_bare]
  exact .fail ..

theorem erases_expect (p : Punct) : Erases false (fun _ => default) (expect p) (expect p) :=
  .after (.eatPunct p) fun _ => .ite .previous (erases_expectedBut _)

theorem erases_expectName (what : String) :
    Erases false bareWord (expectName what) (expectName what) := by
  refine Erases.peek.bind fun l => ?_
  obtain ⟨t, s, d, n⟩ := l
  cases t with
  | name text => exact Erases.next.bind fun _ => .pure rfl
  | _ => exact erases_expectedBut _

theorem erases_endStatement : Erases false id endStatement endStatement :=
  .after (.eatPunct _) fun _ => .pure rfl

theorem erases_literalValue : Erases false id literalValue literalValue := by
  refine .after (.eatPunct _) fun negative => Erases.next.bind fun l => ?_
  obtain ⟨t, s, d, n⟩ := l
  have hword (t : Token) (s s' : Span) : Erases false id
      (if !negative && t.isName "true" then pure (.boolean true)
        else if !negative && t.isName "false" then pure (.boolean false)
        else Reader.fail (.malformed ("expected a literal value, found " ++ t.describe)) s :
        DeclReader Scalar)
      (if !negative && t.isName "true" then pure (.boolean true)
        else if !negative && t.isName "false" then pure (.boolean false)
        else Reader.fail (.malformed ("expected a literal value, found " ++ t.describe)) s' :
        DeclReader Scalar) := .ite (.pure rfl) (.ite (.pure rfl) (.fail ..))
  cases t <;> cases negative <;> first | exact .pure rfl | exact hword ..

theorem erases_indexSignature (h : LayoutFree inner) :
    Erases false bareIndex (indexSignature inner) (indexSignature inner) := by
  refine (erases_expectName _).bind fun (key, _) => (erases_expect _).bind fun _ => ?_
  refine .after (.eatName _) fun _ => ?_
  extract_lets rest rest'
  have hrest (u : Unit) : Erases false bareIndex (rest u) (rest' u) :=
    (erases_expect _).bind fun _ => (erases_expect _).bind fun _ => h.bind fun _ => .pure rfl
  exact .ite (Erases.peek.bind fun _ => (Erases.fail (f := id) ..).bind hrest) (hrest ())

theorem erases_fieldTerm (h : LayoutFree inner) :
    Erases false TyTerm.bareField (fieldTerm inner) (fieldTerm inner) := by
  refine Erases.next.bind fun l => ?_
  extract_lets rest rest'
  have hrest (name : String) : Erases false TyTerm.bareField (rest name) (rest' name) :=
    .after (.eatPunct _) fun _ => (erases_expect _).bind fun _ => h.bind fun _ => .pure rfl
  obtain ⟨t, s, d, n⟩ := l
  cases t with
  | name text | string text => exact hrest text
  | _ => exact (Erases.fail (f := id) ..).bind hrest

theorem erases_ofMembers (owner : Option String) (brace brace' : Span)
    (fields : List (FieldInfo × TyTerm)) (index : Option (String × TyTerm)) :
    Erases false TyTerm.bare (ofMembers owner brace fields index)
      (ofMembers owner brace' (fields.map TyTerm.bareField) (index.map bareIndex)) := by
  cases index with
  | none => exact .pure (by rw [TyTerm.bare, TyTerm.bareFields_eq_map])
  | some signature =>
    cases fields with
    | nil => exact .pure rfl
    | cons f fs => exact .fail ..

theorem erases_members (h : LayoutFree inner) (owner : Option String) (brace brace' : Span)
    (rounds : List Lexeme) (fields : List (FieldInfo × TyTerm))
    (index : Option (String × TyTerm)) :
    Erases false TyTerm.bare (members inner owner brace rounds fields index)
      (members inner owner brace' (rounds.map (.bare false)) (fields.map TyTerm.bareField)
        (index.map bareIndex)) := by
  induction rounds generalizing fields index with
  | nil => exact erases_ofMembers ..
  | cons l rounds ih =>
    refine .after (.skipPuncts _) fun _ => .after (.eatPunct _) fun _ => ?_
    refine .ite (erases_ofMembers ..) (.after .atEnd fun _ => .ite (.fail ..) ?_)
    refine .after (.eatPunct _) fun _ => .ite ?_ ?_
    · refine Erases.previous.bind fun _ => (erases_indexSignature h).bind fun signature => ?_
      rw [Option.isSome_map]
      exact .ite (.fail ..) (ih fields (some signature))
    · refine (erases_fieldTerm h).bind fun (info, t) => ?_
      refine .cond List.any_map (.fail ..) ?_
      have hmore := ih (fields ++ [(info, t)]) index
      rw [List.map_append] at hmore
      exact hmore

theorem erases_namedTerm (h : LayoutFree inner) (word : String) (s s' : Span)
    (hs : s' = default) :
    Erases false TyTerm.bare (namedTerm inner word s) (namedTerm inner word s') := by
  subst hs
  refine .ite (.pure rfl) (.ite (.pure rfl) (.ite (.pure rfl) (.ite (.pure rfl)
    (.ite (.pure rfl) (.ite ?_ (.ite (.fail ..) (.after (.atPunct _) fun _ =>
      .ite (.fail ..) (.pure rfl))))))))
  exact (erases_expect _).bind fun _ => h.bind fun _ => (erases_expect _).bind fun _ => .pure rfl

theorem erases_primary (h : LayoutFree inner) :
    Erases false TyTerm.bare (primary inner) (primary inner) := by
  refine Erases.peek.bind fun l => ?_
  obtain ⟨t, s, d, n⟩ := l
  have hliteral : Erases false TyTerm.bare (do return .literal (← literalValue))
      (do return .literal (← literalValue)) := .after erases_literalValue fun _ => .pure rfl
  cases t with
  | string text => exact hliteral
  | number x => exact hliteral
  | name word => exact Erases.next.bind fun _ => erases_namedTerm h _ _ _ rfl
  | template ps => exact erases_expectedBut _
  | endOfInput => exact erases_expectedBut _
  | punct p =>
    cases p with
    | leftParen =>
      exact Erases.next.bind fun _ => h.bind fun _ => (erases_expect _).bind fun _ => .pure rfl
    | leftBrace =>
      exact Erases.next.bind fun _ => Erases.rounds.bind fun _ => erases_members h _ _ _ _ [] none
    | minus => exact hliteral
    | _ => exact erases_expectedBut _

theorem erases_bracketed (rounds : List Lexeme) (t : TyTerm) :
    Erases false TyTerm.bare (bracketed rounds t)
      (bracketed (rounds.map (.bare false)) t.bare) := by
  induction rounds generalizing t with
  | nil => exact .pure rfl
  | cons l rounds ih =>
    refine .after (.atPunct _) fun _ => .after (.punctAt ..) fun _ => .ite ?_ (.pure rfl)
    exact Erases.next.bind fun _ => Erases.next.bind fun _ => ih (.sequence t false)

theorem erases_alternative (h : LayoutFree inner) :
    Erases false TyTerm.bare (alternative inner) (alternative inner) :=
  Erases.rounds.bind fun _ => (erases_primary h).bind fun _ => erases_bracketed ..

theorem erases_alternatives (h : LayoutFree inner) (rounds : List Lexeme) :
    Erases false TyTerm.bareAll (alternatives inner rounds)
      (alternatives inner (rounds.map (.bare false))) := by
  induction rounds with
  | nil => exact .pure rfl
  | cons l rounds ih =>
    refine .after (.eatPunct _) fun _ => .ite ((erases_alternative h).bind fun _ => ?_) (.pure rfl)
    exact ih.bind fun _ => .pure rfl

theorem erases_unionTerm (h : LayoutFree inner) :
    Erases false TyTerm.bare (unionTerm inner) (unionTerm inner) := by
  refine .after (.eatPunct _) fun _ => (erases_alternative h).bind fun t => ?_
  refine Erases.rounds.bind fun _ => (erases_alternatives h _).bind fun ts => ?_
  exact .pure (TyTerm.ofAlternatives_bareAll (t :: ts))

theorem layoutFree_typeTerm (limit levels : Nat) : LayoutFree (typeTerm limit levels) := by
  induction levels with
  | zero => exact ⟨fun _ => rfl⟩
  | succ n ih => exact ⟨(erases_unionTerm ih).run⟩

variable {term : DeclReader TyTerm}

theorem erases_interface (h : LayoutFree term) (doc : Option String) :
    Erases false bare (interface term doc) (interface term none) := by
  refine (erases_expectName _).bind fun (name, span) => Erases.peek.bind fun l => ?_
  extract_lets rest rest'
  have hrest (u : Unit) : Erases false bare (rest u) (rest' u) :=
    (erases_expect _).bind fun _ => Erases.rounds.bind fun _ =>
      (erases_members h _ _ _ _ [] none).bind fun _ => .pure rfl
  rw [Lexeme.isName_bare, Lexeme.isPunct_bare]
  exact .ite ((Erases.fail (f := id) ..).bind hrest) (hrest ())

theorem erases_typeAlias (h : LayoutFree term) (doc : Option String) :
    Erases false bare (typeAlias term doc) (typeAlias term none) :=
  (erases_expectName _).bind fun _ => (erases_expect _).bind fun _ => h.bind fun _ =>
    .after erases_endStatement fun _ => .pure rfl

theorem erases_typedConstant (h : LayoutFree term) :
    Erases false id (typedConstant term) (typedConstant term) := by
  refine Erases.peek.bind fun _ => h.bind fun t => ?_
  have hfail (cause : SchemaCause) (s s' : Span) : Erases false (id : Scalar → Scalar)
      (Reader.previous >>= fun p => Reader.fail cause (s.join p))
      (Reader.previous >>= fun p => Reader.fail cause (s'.join p)) :=
    Erases.previous.bind fun _ => .fail ..
  rw [TyTerm.type_bare]
  match t.type with
  | .literal [v] => exact .pure rfl
  | .literal [] | .literal (_ :: _ :: _) | .scalar _ | .record .. | .union _ | .sequence ..
  | .map .. | .named _ => exact hfail ..

theorem erases_constantDeclaration (h : LayoutFree term) :
    Erases false bare (constantDeclaration term) (constantDeclaration term) := by
  have hvalue : Erases false id (constantValue term) (constantValue term) :=
    .after (.eatPunct _) fun _ => .ite erases_literalValue (.after (.eatPunct _) fun _ =>
      .ite (erases_typedConstant h) (Erases.peek.bind fun _ => .fail ..))
  exact (erases_expectName _).bind fun _ => .after hvalue fun _ =>
    .after erases_endStatement fun _ => .pure rfl

theorem erases_rootDeclaration (h : LayoutFree term) (earlier : Option String) :
    Erases false bare (rootDeclaration term earlier) (rootDeclaration term earlier) := by
  refine (erases_expectName _).bind fun _ => (erases_expect _).bind fun _ => h.bind fun body => ?_
  refine .after erases_endStatement fun _ => ?_
  cases earlier with
  | some first => exact .ite (.pure rfl) (.fail ..)
  | none => exact .pure rfl

theorem erases_importPath : Erases false id importPath importPath := by
  refine Erases.next.bind fun l => ?_
  obtain ⟨t, s, d, n⟩ := l
  cases t with
  | string path => exact erases_endStatement
  | _ => exact Erases.peek.bind fun _ => .fail ..

theorem erases_statement (h : LayoutFree term) (earlier : Option String) :
    Erases false (Option.map bare) (statement term earlier) (statement term earlier) := by
  have hsome {m m' : DeclReader Declaration} (hm : Erases false bare m m') :
      Erases false (Option.map bare) (do return some (← m)) (do return some (← m')) :=
    hm.bind fun _ => .pure rfl
  refine Erases.peek.bind fun l => .after (.eatName _) fun _ => .after (.eatName _) fun _ => ?_
  refine .ite (hsome (erases_interface h _)) (.after (.eatName _) fun _ => ?_)
  refine .ite (hsome (erases_typeAlias h _)) (.after (.eatName _) fun _ => .ite ?_ ?_)
  · refine .after (.eatName _) fun _ => .ite (hsome (erases_constantDeclaration h)) ?_
    refine .after (.eatName _) fun _ => .ite (hsome (erases_rootDeclaration h _)) ?_
    refine .after (.eatName _) fun _ => .ite (hsome (erases_rootDeclaration h _)) ?_
    exact Erases.peek.bind fun _ => .fail ..
  · refine .after (.eatName _) fun _ => .ite ?_ (erases_expectedBut _)
    exact .after erases_importPath fun _ => .pure rfl

theorem erases_statements (h : LayoutFree term) (earlier : Option String)
    (done : List Declaration) (rounds : List Lexeme) :
    Erases false (List.map bare) (statements term earlier done rounds)
      (statements term earlier (done.map bare) (rounds.map (.bare false))) := by
  induction rounds generalizing earlier done with
  | nil => exact .pure List.map_reverse.symm
  | cons l rounds ih =>
    refine .after (.skipPuncts _) fun _ => .after .atEnd fun _ => ?_
    refine .ite (.pure List.map_reverse.symm) ((erases_statement h _).bind fun d => ?_)
    cases d with
    | none => exact ih earlier done
    | some d =>
      have hroot : d.bare.rootName? = d.rootName? := by cases d <;> rfl
      rw [Option.map_some]
      dsimp only
      rw [hroot]
      exact ih _ (d :: done)

/-- Tokens without layout are read as the same declarations without layout. -/
theorem mirrors_ofTokens (maxDepth : Nat) (tokens : List Lexeme) :
    Mirrors (List.map bare) (ofTokens maxDepth tokens)
      (ofTokens maxDepth (tokens.map (.bare false))) := by
  unfold ofTokens
  rw [Cursor.ofTokens_bare]
  have hread := erases_statements (layoutFree_typeTerm maxDepth maxDepth) none []
  exact ((hread _).run _).map fun _ => rfl

theorem references_bare (d : Declaration) :
    d.bare.references = d.references.map Reference.bare := by
  cases d with
  | type name body doc span => exact body.references_bare
  | constant name value span => rfl
  | root name body span => exact body.references_bare

end Declaration

end TypedConfig
