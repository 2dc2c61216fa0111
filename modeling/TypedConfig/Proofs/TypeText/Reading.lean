import TypedConfig.Proofs.TypeText.Spelling

/-! # Reading the tokens of type texts

The reader of type expressions takes the tokens of a type up to what cannot go on with it, and what
it gives denotes the type with its alternatives opened. A level of the reader is enough for each
step down the type.
-/

namespace TypedConfig

open Spelled

/-- An expression that denotes a type when alternatives are opened, with its references declared. -/
structure TyTerm.Denotes (types : List TypeDeclaration) (t : Ty) (term : TyTerm) : Prop where
  parts : term.type.expandedParts = t.expandedParts
  declared : ∀ r ∈ term.references, ∃ d ∈ types, d.name = r.name

/-- An expression that denotes an alternative and is a literal just if that is one. -/
structure TyTerm.DenotesPart (types : List TypeDeclaration) (t : Ty) (term : TyTerm) : Prop
    extends TyTerm.Denotes types t term where
  literals : term.type.literals? = t.literals?

open TyTerm (Denotes DenotesPart)

variable {types : List TypeDeclaration} {t u : Ty} {term : TyTerm}

theorem TyTerm.Denotes.sequence (h : Denotes types t term) (acceptsSingle : Bool) :
    DenotesPart types (.sequence t acceptsSingle) (.sequence term acceptsSingle) := by
  refine ⟨⟨?_, h.declared⟩, rfl⟩
  rw [TyTerm.type, Ty.expandedParts, Ty.expandedParts, h.parts]

theorem TyTerm.Denotes.map (h : Denotes types t term) (keyName : String) :
    DenotesPart types (.map keyName t) (.map keyName term) := by
  refine ⟨⟨?_, h.declared⟩, rfl⟩
  rw [TyTerm.type, Ty.expandedParts, Ty.expandedParts, h.parts]

namespace Ty

theorem foldl_keep_of_pairwise {kept values : List Scalar}
    (h : (kept ++ values).Pairwise fun a b => a.equals b = false) :
    values.foldl keep kept = kept ++ values := by
  induction values generalizing kept with
  | nil => exact (List.append_nil kept).symm
  | cons v values ih =>
    have hnew : ¬ admitsLiteral kept v = true := by
      rw [admitsLiteral, List.any_eq_true]
      rintro ⟨a, ha, he⟩
      have := (List.pairwise_append.1 h).2.2 a ha v List.mem_cons_self
      exact absurd he (ne_true_of_eq_false this)
    rw [List.foldl_cons, keep, if_neg hnew, ih (by simpa using h), List.append_assoc]
    rfl

/-- Values that all differ are kept as they are. -/
theorem distinct_of_pairwise {values : List Scalar}
    (h : values.Pairwise fun a b => a.equals b = false) : distinct values = values :=
  @foldl_keep_of_pairwise [] values h

theorem allLiterals?_singles (values : List Scalar) :
    allLiterals? (values.map fun v => literal [v]) = some values := by
  have hmapM : (values.map fun v => literal [v]).mapM literals? =
      some (values.map fun v => [v]) := by
    induction values with
    | nil => rfl
    | cons v values ih => simp [List.mapM_cons, ih, literals?]
  rw [allLiterals?, hmapM, Option.map_some, ← List.flatMap_def, List.flatMap_singleton']

theorem allLiterals?_eq_none {ts : List Ty} (hu : u ∈ ts) (hnone : u.literals? = none) :
    allLiterals? ts = none := by
  have hmapM : ts.mapM literals? = none := by
    induction ts with
    | nil => cases hu
    | cons t ts ih =>
      rcases List.mem_cons.1 hu with rfl | hu
      · simp [List.mapM_cons, hnone]
      · simp [List.mapM_cons, ih hu]
  rw [allLiterals?, hmapM, Option.map_none]

theorem allLiterals?_congr {ts us : List Ty}
    (h : List.Forall₂ (fun t u => t.literals? = u.literals?) ts us) :
    allLiterals? ts = allLiterals? us := by
  have hmapM : ts.mapM literals? = us.mapM literals? := by
    induction h with
    | nil => rfl
    | cons h _ ih => simp [List.mapM_cons, h, ih]
  rw [allLiterals?, allLiterals?, hmapM]

/-- Of the alternatives of a type that is not made of literals one is not a literal. -/
theorem Denotable.exists_literals?_eq_none (h : t.Denotable types) (ht : t.literals? = none) :
    ∃ u ∈ t.parts, u.literals? = none := by
  induction h with
  | literal => cases ht
  | @union ts _ mixed _ ih =>
    obtain ⟨u, hu, hnone⟩ := mixed
    obtain ⟨v, hv, hnone⟩ := ih u hu hnone
    rw [parts, partsAll_eq]
    exact ⟨v, List.mem_flatMap.2 ⟨u, hu, hv⟩, hnone⟩
  | _ => exact ⟨_, List.mem_singleton.2 rfl, ht⟩

end Ty

/-- The union of types that are expanded like the alternatives of a type, and literals where these
are, is expanded like the type. -/
theorem Ty.Denotable.expandedParts_unite {ts : List Ty} (ht : t.Denotable types)
    (hparts : ts.flatMap expandedParts = t.expandedParts) (hlength : 2 ≤ ts.length)
    (hliterals : allLiterals? ts = allLiterals? t.parts) :
    (unite ts).expandedParts = t.expandedParts := by
  rw [unite_of_two_le hlength]
  split
  · rename_i values hall
    cases hnone : t.literals? with
    | none =>
      obtain ⟨u, hu, hnone⟩ := ht.exists_literals?_eq_none hnone
      rw [hliterals, allLiterals?_eq_none hu hnone] at hall
      cases hall
    | some vs =>
      cases ht with
      | literal _ differ =>
        rw [hliterals, parts, allLiterals?_singles] at hall
        cases hall
        rw [distinct_of_pairwise differ]
      | _ => cases hnone
  · rw [expandedParts, expandedAll_eq, hparts]

/-- Expressions for the alternatives of a type make one for the type. -/
theorem denotes_ofAlternatives {terms : List TyTerm} (ht : t.Denotable types)
    (h : List.Forall₂ (fun term u => DenotesPart types u term) terms t.parts) :
    Denotes types t (.ofAlternatives terms) := by
  have hparts : (terms.map TyTerm.type).flatMap Ty.expandedParts = t.expandedParts := by
    rw [Ty.expandedParts_eq]
    generalize t.parts = us at h
    induction h with
    | nil => rfl
    | cons hu _ ih => rw [List.map_cons, List.flatMap_cons, List.flatMap_cons, hu.parts, ih]
  have hliterals : Ty.allLiterals? (terms.map TyTerm.type) = Ty.allLiterals? t.parts :=
    Ty.allLiterals?_congr (List.forall₂_map_left_iff.2 (h.imp fun _ _ hu => hu.literals))
  have hdeclared : ∀ term ∈ terms, ∀ r ∈ term.references, ∃ d ∈ types, d.name = r.name := by
    clear hparts hliterals
    generalize t.parts = us at h
    induction h with
    | nil => exact List.forall_mem_nil _
    | cons hu _ ih => exact List.forall_mem_cons.2 ⟨hu.declared, ih⟩
  rcases terms with _ | ⟨a, _ | ⟨c, rest⟩⟩
  · rw [List.forall₂_nil_left_iff] at h
    exact absurd h ht.parts_ne_nil
  · have ha : a.type.expandedParts = t.expandedParts := by simpa using hparts
    exact ⟨ha, hdeclared a List.mem_cons_self⟩
  · constructor
    · have hlength : 2 ≤ ((a :: c :: rest).map TyTerm.type).length := Nat.le_add_left ..
      rw [TyTerm.ofAlternatives, TyTerm.type, TyTerm.types_eq]
      · exact ht.expandedParts_unite hparts hlength hliterals
      · rintro _ ⟨⟩
    · intro r hr
      rw [TyTerm.ofAlternatives, TyTerm.references, TyTerm.listReferences_eq] at hr
      · obtain ⟨term, hterm, hr⟩ := List.mem_flatMap.1 hr
        exact hdeclared term hterm r hr
      · rintro _ ⟨⟩

namespace Declaration

open Program (Takes takes_peek takes_next takes_previous takes_rounds takes_atPunct takes_eatPunct
  takes_eatPunct_miss takes_eatName takes_skipPuncts_none takes_punctAt_one)

variable {b : Bool} {ts us vs : List Spelled} {inner : DeclReader TyTerm} {n : Nat}

/-- Tokens behind a whole type expression. -/
def Ends (us : List Spelled) : Prop :=
  leads .pipe us = false ∧ leads .leftBracket us = false ∧ leads .less us = false

def TakesTypes (types : List TypeDeclaration) (inner : DeclReader TyTerm) (n : Nat) : Prop :=
  ∀ t, t.Denotable types → t.height ≤ n → ∀ b us, Ends us →
    Takes inner b (t.spell ++ us) false us (Denotes types t)

theorem takes_string (text : String) :
    Takes literalValue b (.string text :: us) false us (· = .string text) := by
  refine .bind (takes_eatPunct_miss rfl) fun r hr => .bind takes_next fun l hl => ?_
  rw [hr, eq_of_reads_string hl]
  exact .pure rfl

theorem takes_number (x : Float) :
    Takes literalValue b (.number x :: us) false us (· = .number x) := by
  refine .bind (takes_eatPunct_miss rfl) fun r hr => .bind takes_next fun l hl => ?_
  rw [hr, eq_of_reads_number hl]
  exact .pure rfl

theorem takes_negative (x : Float) :
    Takes literalValue b (.punct .minus :: .number x :: us) false us (· = .number (-x)) := by
  refine .bind (takes_eatPunct .minus) fun r hr => .bind takes_next fun l hl => ?_
  rw [hr, eq_of_reads_number hl]
  exact .pure rfl

/-- An index signature behind its opening bracket. -/
theorem takes_indexSignature (h : TakesTypes types inner n) (ht : t.Denotable types)
    (hn : t.height ≤ n) (key : String) :
    Takes (indexSignature inner) b (.name key :: .punct .colon :: .name "string" ::
      .punct .rightBracket :: .punct .colon :: (t.spell ++ .punct .rightBrace :: us)) false
      (.punct .rightBrace :: us) fun r => r.1 = key ∧ Denotes types t r.2 := by
  refine .bind (takes_expectName _ key) fun (k, _) hk => .bind (takes_expect _) fun _ _ => ?_
  refine .bind (takes_eatName "string") fun r hr => ?_
  rw [hr]
  refine .bind (takes_expect _) fun _ _ => .bind (takes_expect _) fun _ _ => ?_
  exact .bind (h t ht hn _ _ ⟨rfl, rfl, rfl⟩) fun term hterm => .pure ⟨hk, hterm⟩

/-- The members of a type expression with an index signature alone, behind the opening brace. -/
theorem takes_members (h : TakesTypes types inner n) (ht : t.Denotable types) (hn : t.height ≤ n)
    (key : String) (brace : Span) {rounds : List Lexeme} (hr : 2 ≤ rounds.length) :
    Takes (members inner none brace rounds [] none) b (.punct .leftBracket :: .name key ::
      .punct .colon :: .name "string" :: .punct .rightBracket :: .punct .colon ::
        (t.spell ++ .punct .rightBrace :: us)) false us
      fun term => ∃ value, term = .map key value ∧ Denotes types t value := by
  obtain ⟨l, m, rounds, rfl⟩ : ∃ l m rest, rounds = l :: m :: rest := by
    match rounds, hr with
    | l :: m :: rest, _ => exact ⟨l, m, rest, rfl⟩
  refine .bind (takes_skipPuncts_none (by simp)) fun _ _ => .miss rfl ?_
  refine .goesOn (List.cons_ne_nil _ _) (.hit (.bind takes_previous fun _ _ => ?_))
  refine .bind (takes_indexSignature h ht hn key) fun (k, value) hvalue => ?_
  obtain ⟨rfl, hvalue⟩ := hvalue
  refine .bind (takes_skipPuncts_none (by simp)) fun _ _ => .hit (.pure ⟨value, rfl, hvalue⟩)

/-- A type expression that begins with a word is read by what the word is. -/
theorem takes_word {word : String} {P : TyTerm → Prop}
    (h : ∀ span, Takes (namedTerm inner word span) false ts false us P) :
    Takes (primary inner) b (.name word :: ts) false us P := by
  refine .bind takes_peek fun l hl => ?_
  rw [eq_of_reads_name hl.1]
  exact .bind takes_next fun _ _ => h l.span

theorem takes_primary_literal {v : Scalar} (h : v.Exact) :
    Takes (primary inner) b (v.spell ++ us) false us (· = .literal v) := by
  cases h with
  | string text =>
    refine .bind takes_peek fun l hl => ?_
    rw [eq_of_reads_string hl.1]
    exact .bind (takes_string text) fun r hr => .pure (congrArg _ hr)
  | boolean value =>
    cases value
    · exact takes_word fun _ => .pure rfl
    · exact takes_word fun _ => .pure rfl
  | @number n small =>
    rw [Scalar.spell, Number.signBit_ofNat small]
    refine .bind takes_peek fun l hl => ?_
    rw [eq_of_reads_number hl.1]
    exact .bind (takes_number _) fun r hr => .pure (congrArg _ hr)
  | @negative n pos small =>
    rw [Scalar.spell, Number.signBit_neg_ofNat small, if_pos rfl, Number.neg_neg]
    refine .bind takes_peek fun l hl => ?_
    rw [eq_of_reads_punct hl.1]
    exact .bind (takes_negative _) fun r hr => .pure (congrArg _ hr)

theorem takes_reference {name : String} (hname : name ∉ typeWords) (hus : leads .less us = false)
    (span : Span) :
    Takes (namedTerm inner name span) b us b us (· = .reference ⟨name, span⟩) := by
  have hne {word : String} (hword : word ∈ typeWords) : ¬ (name == word) = true := by
    rw [beq_iff_eq]
    rintro rfl
    exact hname hword
  have hsequence : ¬ (name == "Array" || name == "OneOrMany") = true := by
    rw [Bool.or_eq_true]
    exact not_or.2 ⟨hne (by decide), hne (by decide)⟩
  have hexcluded : ¬ excludedNames.contains name = true := by
    rw [List.contains_iff_mem]
    exact fun h => hname (List.mem_append_right _ h)
  unfold namedTerm
  rw [if_neg (hne (by decide)), if_neg (hne (by decide)), if_neg (hne (by decide)),
    if_neg (hne (by decide)), if_neg (hne (by decide)), if_neg hsequence, if_neg hexcluded]
  refine .bind (takes_atPunct .less) fun r hr => ?_
  rw [if_neg (ne_true_of_eq_false (hr.trans hus))]
  exact .pure rfl

/-- An alternative without brackets behind it. -/
theorem takes_primary (h : TakesTypes types inner n) (ht : t.Denotable types)
    (hn : t.height ≤ n + 1) (hsingle : t.hasAlternatives = false)
    (hbare : ∀ u, t ≠ .sequence u false) (hus : leads .less us = false) :
    Takes (primary inner) b (t.spell ++ us) false us (DenotesPart types t) := by
  cases ht with
  | scalar kind =>
    cases kind <;> exact takes_word fun _ => .pure ⟨⟨rfl, List.forall_mem_nil _⟩, rfl⟩
  | @literal values some _ exact =>
    obtain ⟨v, rfl⟩ : ∃ v, values = [v] := by
      obtain ⟨v, rest, rfl⟩ := List.exists_cons_of_ne_nil some
      cases rest with
      | nil => exact ⟨v, rfl⟩
      | cons => cases hsingle
    rw [Ty.spell, List.map_singleton, Spelled.barred, List.flatMap_nil, List.append_nil]
    refine (takes_primary_literal (exact v List.mem_cons_self)).mono ?_
    rintro _ rfl
    exact ⟨⟨rfl, List.forall_mem_nil _⟩, rfl⟩
  | union => cases hsingle
  | @sequence t single element =>
    cases single with
    | false => exact absurd rfl (hbare t)
    | true =>
      have hheight : t.height ≤ n := Ty.height_sequence_le_iff.1 hn
      have hspell : (Ty.sequence t true).spell ++ us =
          .name "OneOrMany" :: .punct .less :: (t.spell ++ .punct .greater :: us) := by
        simp [Ty.spell]
      rw [hspell]
      refine takes_word fun _ => .bind (takes_expect .less) fun _ _ => ?_
      refine .bind (h t element hheight _ _ ⟨rfl, rfl, rfl⟩) fun term hterm => ?_
      exact .bind (takes_expect .greater) fun _ _ => .pure (hterm.sequence true)
  | @map key t valid value =>
    have hheight : t.height ≤ n := Ty.height_map_le_iff.1 hn
    have hspell : (Ty.map key t).spell ++ us =
        .punct .leftBrace :: .punct .leftBracket :: .name key :: .punct .colon :: .name "string" ::
          .punct .rightBracket :: .punct .colon :: (t.spell ++ .punct .rightBrace :: us) := by
      simp [Ty.spell]
    rw [hspell]
    refine .bind takes_peek fun l hl => ?_
    rw [eq_of_reads_punct hl.1]
    refine .bind takes_next fun _ _ => .bind takes_rounds fun rounds hr => ?_
    have hrounds : 2 ≤ rounds.length := by
      simp only [List.length_cons] at hr
      omega
    refine (takes_members h value hheight key l.span hrounds).mono ?_
    rintro _ ⟨term, rfl, hterm⟩
    exact hterm.map key
  | named valid free declared =>
    refine takes_word fun span => (takes_reference free hus span).mono ?_
    rintro _ rfl
    exact ⟨⟨rfl, List.forall_mem_singleton.2 declared⟩, rfl⟩

theorem takes_bracketed_step {rounds : List Lexeme} {P : TyTerm → Prop} (l : Lexeme)
    (h : Takes (bracketed rounds (.sequence term false)) false us false vs P) :
    Takes (bracketed (l :: rounds) term) false
      (.punct .leftBracket :: .punct .rightBracket :: us) false vs P := by
  refine .bind (takes_atPunct .leftBracket) fun r hr => ?_
  refine .bind (takes_punctAt_one .rightBracket) fun r' hr' => ?_
  rw [if_pos (by rw [hr, hr']; rfl)]
  exact .bind takes_next fun _ _ => .bind takes_next fun _ _ => h

/-- What is read in parentheses. -/
theorem takes_group (h : TakesTypes types inner n) (ht : t.Denotable types) (hn : t.height ≤ n) :
    Takes (primary inner) b (.punct .leftParen :: (t.spell ++ .punct .rightParen :: us)) false us
      (Denotes types t) := by
  refine .bind takes_peek fun l hl => ?_
  rw [eq_of_reads_punct hl.1]
  refine .bind takes_next fun _ _ => .bind (h t ht hn _ _ ⟨rfl, rfl, rfl⟩) fun term hterm => ?_
  exact .bind (takes_expect .rightParen) fun _ _ => .pure hterm

/-- An alternative that is no sequence in brackets is read whole before the brackets behind it. -/
theorem takes_alternative_bare (h : TakesTypes types inner n) (ht : t.Denotable types)
    (hn : t.height ≤ n + 1) (hsingle : t.hasAlternatives = false)
    (hbare : ∀ u, t ≠ .sequence u false) (hus : leads .less us = false) {P : TyTerm → Prop}
    (hrest : ∀ term rounds, DenotesPart types t term → us.length < rounds.length →
      Takes (bracketed rounds term) false us false vs P) :
    Takes (alternative inner) b (t.spell ++ us) false vs P := by
  refine .bind takes_rounds fun rounds hr => ?_
  refine .bind (takes_primary h ht hn hsingle hbare hus) fun term hterm => ?_
  rw [List.length_append] at hr
  exact hrest term rounds hterm (by omega)

/-- What is read as an alternative goes on with the pairs of brackets behind it. -/
theorem takes_alternative_then (h : TakesTypes types inner n) (ht : t.Denotable types)
    (hn : t.height ≤ n + 1) (hsingle : t.hasAlternatives = false) (hus : leads .less us = false)
    {P : TyTerm → Prop} (hrest : ∀ term rounds, DenotesPart types t term →
      us.length < rounds.length → Takes (bracketed rounds term) false us false vs P) :
    Takes (alternative inner) b (t.spell ++ us) false vs P := by
  induction ht generalizing us with
  | scalar kind => exact takes_alternative_bare h (.scalar kind) hn hsingle nofun hus hrest
  | literal some differ exact =>
    exact takes_alternative_bare h (.literal some differ exact) hn hsingle nofun hus hrest
  | union => cases hsingle
  | map valid value => exact takes_alternative_bare h (.map valid value) hn hsingle nofun hus hrest
  | named valid free declared =>
    exact takes_alternative_bare h (.named valid free declared) hn hsingle nofun hus hrest
  | @sequence t single element ih =>
    cases single with
    | true => exact takes_alternative_bare h (.sequence element) hn hsingle nofun hus hrest
    | false =>
      have hheight : t.height ≤ n := Ty.height_sequence_le_iff.1 hn
      -- Each pair of brackets takes a round and makes a sequence of what was read before it.
      have hstep (term : TyTerm) (rounds : List Lexeme) (hterm : Denotes types t term)
          (hr : us.length + 2 < rounds.length) :
          Takes (bracketed rounds term) false
            (.punct .leftBracket :: .punct .rightBracket :: us) false vs P := by
        obtain ⟨l, rounds, rfl⟩ := List.exists_cons_of_length_pos (Nat.zero_lt_of_lt hr)
        rw [List.length_cons] at hr
        exact takes_bracketed_step l (hrest _ _ (hterm.sequence false) (by omega))
      by_cases halternatives : t.hasAlternatives = true
      · have hspell : (Ty.sequence t false).spell ++ us = .punct .leftParen :: (t.spell ++
            .punct .rightParen :: .punct .leftBracket :: .punct .rightBracket :: us) := by
          simp [Ty.spell, halternatives]
        rw [hspell]
        refine .bind takes_rounds fun rounds hr => ?_
        refine .bind (takes_group h element hheight) fun term hterm => ?_
        simp only [List.length_cons, List.length_append] at hr
        exact hstep term rounds hterm (by omega)
      · rw [Bool.not_eq_true] at halternatives
        have hspell : (Ty.sequence t false).spell ++ us =
            t.spell ++ .punct .leftBracket :: .punct .rightBracket :: us := by
          simp [Ty.spell, halternatives]
        rw [hspell]
        refine ih (Nat.le_succ_of_le hheight) halternatives rfl fun term rounds hterm hr => ?_
        exact hstep term rounds hterm.toDenotes (by simpa using hr)

/-- An alternative up to what cannot go on with it. -/
theorem takes_alternative (h : TakesTypes types inner n) (ht : t.Denotable types)
    (hn : t.height ≤ n + 1) (hsingle : t.hasAlternatives = false)
    (hus : leads .less us = false ∧ leads .leftBracket us = false) :
    Takes (alternative inner) b (t.spell ++ us) false us (DenotesPart types t) :=
  takes_alternative_then h ht hn hsingle hus.1 fun term rounds hterm _ =>
    (takes_bracketed_stop hus.2 rounds term).mono fun _ ha => ha ▸ hterm

def bars (ts : List Ty) : List Spelled := (ts.map Ty.spell).flatMap fun us => .punct .pipe :: us

theorem leads_bars (hus : Ends us) (ts : List Ty) :
    leads .less (bars ts ++ us) = false ∧ leads .leftBracket (bars ts ++ us) = false := by
  cases ts with
  | nil => exact ⟨hus.2.2, hus.2.1⟩
  | cons t ts => exact ⟨rfl, rfl⟩

theorem takes_alternatives (h : TakesTypes types inner n) (hus : Ends us) {ts : List Ty}
    (hts : ∀ t ∈ ts, t.Denotable types ∧ t.hasAlternatives = false ∧ t.height ≤ n + 1)
    {rounds : List Lexeme} (hr : (bars ts ++ us).length < rounds.length) :
    Takes (alternatives inner rounds) false (bars ts ++ us) false us
      fun terms => List.Forall₂ (fun term t => DenotesPart types t term) terms ts := by
  induction ts generalizing rounds with
  | nil =>
    cases rounds with
    | nil => exact .pure .nil
    | cons l rounds => exact .miss hus.1 (.pure .nil)
  | cons t ts ih =>
    obtain ⟨⟨ht, hsingle, hn⟩, hts⟩ := List.forall_mem_cons.1 hts
    have hspell : bars (t :: ts) ++ us = .punct .pipe :: (t.spell ++ (bars ts ++ us)) := by
      simp [bars]
    rw [hspell] at hr ⊢
    obtain ⟨l, rounds, rfl⟩ := List.exists_cons_of_length_pos (Nat.zero_lt_of_lt hr)
    refine .hit (.bind (takes_alternative h ht hn hsingle (leads_bars hus ts)) fun term hterm => ?_)
    simp only [List.length_cons, List.length_append] at hr
    refine .bind (ih hts (by rw [List.length_append]; omega)) fun terms hterms => ?_
    exact .pure (.cons hterm hterms)

/-- A level of the reader takes the types one step higher than the level inside it does. -/
theorem takes_unionTerm (h : TakesTypes types inner n) :
    TakesTypes types (unionTerm inner) (n + 1) := by
  intro t ht hn b us hus
  have hparts : ∀ u ∈ t.parts,
      u.Denotable types ∧ u.hasAlternatives = false ∧ u.height ≤ n + 1 := fun u hu =>
    have ⟨hu, hsingle, hheight⟩ := ht.of_mem_parts u hu
    ⟨hu, hsingle, hheight.trans hn⟩
  have hbegins := (ht.begins_spell.append us).2
  have hdenotes {terms : List TyTerm} := @denotes_ofAlternatives types t terms ht
  have hspell := ht.spell_eq
  obtain ⟨u, rest, hcons⟩ := List.exists_cons_of_ne_nil ht.parts_ne_nil
  rw [hcons] at hparts hdenotes hspell
  obtain ⟨⟨hu, hsingle, hheight⟩, hrest⟩ := List.forall_mem_cons.1 hparts
  replace hspell : t.spell ++ us = u.spell ++ (bars rest ++ us) := by
    rw [hspell, ← List.append_assoc]
    rfl
  rw [hspell] at hbegins ⊢
  refine .bind (takes_eatPunct_miss hbegins) fun _ _ => ?_
  refine .bind (takes_alternative h hu hheight hsingle (leads_bars hus rest)) fun term hterm => ?_
  refine .bind takes_rounds fun rounds hr => ?_
  exact .bind (takes_alternatives h hus hrest hr) fun terms hterms =>
    .pure (hdenotes (.cons hterm hterms))

/-- The reader of type expressions with a number of levels takes the types up to that height. -/
theorem takes_typeTerm (limit n : Nat) : TakesTypes types (typeTerm limit n) n := by
  induction n with
  | zero =>
    intro t _ hn
    cases t <;> simp [Ty.height, Ty.depth] at hn
  | succ n ih => exact takes_unionTerm ih

end Declaration

end TypedConfig
