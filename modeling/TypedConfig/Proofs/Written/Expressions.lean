import TypedConfig.Proofs.Written.Lists

/-! # Reading written expressions

Every form of expression is read from its tokens, given that the expressions inside it are read
on the next level of nesting. As they stand in parentheses, no operator, property name, index or
list of arguments behind them is taken for a part of them.
-/

namespace TypedConfig

open Spelled

namespace Spelled

def isName : Spelled → Bool
  | name _ => true
  | _ => false

def closesParams : List Spelled → Bool
  | t :: u :: _ => t.isPunct .rightParen && u.isPunct .arrow
  | _ => false

def namesParams : List Spelled → Bool
  | t :: u :: ts =>
    t.isName && (if u.isPunct .comma then namesParams ts else closesParams (u :: ts))
  | _ => false

def beginsArrow : List Spelled → Bool
  | name _ :: ts => leads .arrow ts
  | punct .leftParen :: ts => closesParams ts || namesParams ts
  | _ => false

variable {fresh : Bool} {ts : List Spelled} {ls : List Lexeme}

theorem ReadsAll.closesParams_eq (h : ReadsAll fresh ts ls) :
    Program.closesParams ls = closesParams ts := by
  cases h with
  | nil => rfl
  | cons token line rest =>
    cases rest with
    | nil => rfl
    | cons token' line' rest =>
      simp only [Program.closesParams, closesParams, Lexeme.isPunct, token.isPunct_eq,
        token'.isPunct_eq]

theorem ReadsAll.namesParams_eq (h : ReadsAll fresh ts ls) :
    Program.namesParams ls = namesParams ts := by
  induction ts using namesParams.induct generalizing fresh ls with
  | case1 t u ts ih =>
    cases h with
    | @cons _ _ _ l _ token line rest =>
      cases rest with
      | cons token' line' rest =>
        have hclose := (ReadsAll.cons token' line' rest).closesParams_eq
        obtain ⟨tok, span, doc, newline⟩ := l
        rw [Program.namesParams, namesParams, hclose, ih rest, Lexeme.isPunct, token'.isPunct_eq]
        cases token <;> rfl
  | case2 ts hts =>
    cases h with
    | nil => rfl
    | cons token line rest =>
      cases rest with
      | nil => rfl
      | cons token' line' rest => exact absurd rfl (hts _ _ _)

theorem ReadsAll.beginsArrow_eq (h : ReadsAll fresh ts ls) :
    Program.beginsArrow ls = beginsArrow ts := by
  cases h with
  | nil => rfl
  | @cons _ t ts l ls token line rest =>
    obtain ⟨tok, span, doc, newline⟩ := l
    have hclose := rest.closesParams_eq
    have hnames := rest.namesParams_eq
    cases token with
    | name text =>
      cases rest with
      | nil => rfl
      | cons token' line' rest => exact token'.isPunct_eq .arrow
    | punct p =>
      cases p with
      | leftParen =>
        rw [beginsArrow, ← hclose, ← hnames]
        rfl
      | _ => rfl
    | _ => rfl

theorem beginsArrow_name {text : String} {us : List Spelled} (h : Closes us) :
    beginsArrow (name text :: us) = false := leads_of_closes h (by decide)

end Spelled

namespace Expr

/-- No expression begins with a closing mark, and one that begins with a name is just that. -/
theorem spell_eq_cons (e : Expr) : ∃ t ts, e.spell = t :: ts ∧ Opens (t :: ts) ∧
    (∀ text, t = .name text → ts = []) := by
  cases e with
  | unary s op e => cases op <;> exact ⟨_, _, rfl, by simp [Opens, closers, UnaryOp.punct], nofun⟩
  | _ => exact ⟨_, _, rfl, by simp [Opens, closers], by simp⟩

theorem opens_spell (e : Expr) : Opens e.spell := by
  obtain ⟨t, ts, hspell, hopens, -⟩ := e.spell_eq_cons
  rw [hspell]
  exact hopens

/-- An expression in parentheses is not taken for parameters unless an arrow stands behind it. -/
theorem beginsArrow_inParens (e : Expr) {us : List Spelled} (h : leads .arrow us = false) :
    beginsArrow (inParens e.spell ++ us) = false := by
  obtain ⟨t, ts, hspell, hopens, hname⟩ := e.spell_eq_cons
  have hright : t.isPunct .rightParen = false := leads_of_opens hopens (by decide)
  rw [hspell, inParens, List.cons_append, List.append_assoc]
  simp only [beginsArrow, Bool.or_eq_false_iff]
  constructor
  · cases ts <;> simp [closesParams, hright]
  · cases t with
    | name text =>
      obtain rfl := hname text rfl
      cases us with
      | nil => rfl
      | cons u us => exact h
    | _ => cases ts <;> rfl

end Expr

namespace Program

variable {ε α : Type} {P Q : α → Prop} {b : Bool} {ts us vs : List Spelled} {inner : Inner}

def op? : List Spelled → Option BinaryOp
  | .punct p :: _ => binaryOp? (.punct p)
  | _ => none

theorem op?_of_closes (h : Closes us) : op? us = none := by
  match us, h with
  | [], _ => rfl
  | .punct p :: us, h =>
    have hclosers : ∀ q ∈ closers, binaryOp? (.punct q) = none := by decide
    exact hclosers p h

theorem op?_punct (op : BinaryOp) (us : List Spelled) : op? (.punct op.punct :: us) = some op := by
  cases op <;> rfl

theorem takes_peek_op : Takes (ε := ε) Reader.peek b ts b ts fun l =>
    binaryOp? l.token = op? ts := by
  intro c hc
  refine ⟨c.peek, c, rfl, hc, ?_⟩
  obtain ⟨ahead, last, previous⟩ := c
  obtain ⟨htokens, hstop⟩ := hc
  cases htokens with
  | nil =>
    obtain ⟨tok, span, doc, newline⟩ := last
    cases tok <;> first | rfl | cases hstop
  | @cons _ t ts l ls token line rest =>
    obtain ⟨tok, span, doc, newline⟩ := l
    cases token <;> rfl

/-- Tokens that are no part of the operand before them. -/
structure EndsOperand (us : List Spelled) : Prop where
  dot : leads .dot us = false
  bracket : leads .leftBracket us = false
  paren : leads .leftParen us = false

theorem endsOperand_of_closes (h : Closes us) : EndsOperand us where
  dot := leads_of_closes h (by decide)
  bracket := leads_of_closes h (by decide)
  paren := leads_of_closes h (by decide)

theorem endsOperand_op (op : BinaryOp) (us : List Spelled) :
    EndsOperand (.punct op.punct :: us) := by
  cases op <;> exact ⟨rfl, rfl, rfl⟩

theorem takes_trailers_stop (h : EndsOperand us) (rounds : List Lexeme) {e : Expr} :
    Takes (trailers inner rounds e) b us b us (· = e) := by
  cases rounds with
  | nil => exact .pure rfl
  | cons l rounds =>
    apply Takes.bind takes_peek_any
    intro l _
    refine .miss h.dot ?_
    refine .ite (fun _ => .pure rfl) fun _ => ?_
    refine .miss h.bracket ?_
    refine .miss h.paren ?_
    exact .pure rfl

theorem takes_operators_stop (least : Nat) (h : op? us = none) (rounds : List Lexeme) {e : Expr} :
    Takes (operators inner least rounds e) b us b us (· = e) := by
  cases rounds with
  | nil => exact .pure rfl
  | cons l rounds =>
    apply Takes.bind takes_peek_op
    intro l hl
    rw [hl, h]
    exact .pure rfl

/-- An operand that begins with no unary operator, with what stands behind it. -/
theorem takes_unary {P Q : Expr → Prop} (hbang : leads .bang ts = false)
    (hminus : leads .minus ts = false) (hprimary : Takes (primary inner) b ts false us P)
    (htrailers : ∀ e, P e → ∀ rounds, us.length < rounds.length →
      Takes (trailers inner rounds e) false us false vs Q) :
    Takes (unary inner) b ts false vs Q := by
  apply Takes.bind takes_peek_any
  intro _ _
  refine .miss hbang ?_
  refine .miss hminus ?_
  apply Takes.bind hprimary
  intro e he
  apply Takes.bind takes_rounds
  intro rounds hr
  exact htrailers e he rounds hr

theorem takes_binary {P Q : Expr → Prop} {least : Nat}
    (hunary : Takes (unary inner) b ts false us P)
    (hoperators : ∀ e, P e → ∀ rounds, us.length < rounds.length →
      Takes (operators inner least rounds e) false us false vs Q) :
    Takes (binary inner least) b ts false vs Q :=
  .bind hunary fun e he => .bind takes_rounds fun rounds hr => hoperators e he rounds hr

section Whole

variable {P : Expr → Prop}

/-- An operand that no operator, property name, index or list of arguments follows. -/
theorem takes_unary_of_primary (hbang : leads .bang ts = false)
    (hminus : leads .minus ts = false) (hus : EndsOperand us)
    (h : Takes (primary inner) b ts false us P) : Takes (unary inner) b ts false us P :=
  takes_unary hbang hminus h fun _ he rounds _ =>
    (takes_trailers_stop hus rounds).mono fun _ ha => ha ▸ he

theorem takes_binary_of_unary (least : Nat) (hus : op? us = none)
    (h : Takes (unary inner) b ts false us P) : Takes (binary inner least) b ts false us P :=
  takes_binary h fun _ he rounds _ =>
    (takes_operators_stop least hus rounds).mono fun _ ha => ha ▸ he

theorem takes_conditional_of_binary (hus : leads .question us = false)
    (h : Takes (binary inner 0) b ts false us P) : Takes (conditional inner) b ts false us P :=
  .bind h fun _ he => .miss hus (.pure he)

theorem takes_conditional_of_unary (hus : Closes us)
    (h : Takes (unary inner) b ts false us P) : Takes (conditional inner) b ts false us P :=
  takes_conditional_of_binary (leads_of_closes hus (by decide))
    (takes_binary_of_unary 0 (op?_of_closes hus) h)

end Whole

/-- The reader of a level, given that of the level inside it. -/
def level (inner : Inner) : Inner
  | .expression => fun c => if beginsArrow c.ahead then arrow inner c else conditional inner c
  | .rightOperand least => binary inner least
  | .unaryOperand _ => unary inner

theorem nested_succ (limit levels : Nat) :
    nested limit (levels + 1) = level (nested limit levels) := by
  funext goal
  cases goal <;> rfl

theorem takes_level_of_conditional {P : Expr → Prop} (hts : Spelled.beginsArrow ts = false)
    (h : Takes (conditional inner) b ts false us P) :
    Takes (level inner .expression) b ts false us P := by
  intro c hc
  obtain ⟨a, d, hread, hd⟩ := h c hc
  have harrow : Program.beginsArrow c.ahead = false := by rw [hc.tokens.beginsArrow_eq, hts]
  refine ⟨a, d, ?_, hd⟩
  rw [← hread]
  exact if_neg (ne_true_of_eq_false harrow)

theorem takes_level_of_arrow {P : Expr → Prop} (hts : Spelled.beginsArrow ts = true)
    (h : Takes (arrow inner) b ts false us P) :
    Takes (level inner .expression) b ts false us P := by
  intro c hc
  obtain ⟨a, d, hread, hd⟩ := h c hc
  have harrow : Program.beginsArrow c.ahead = true := by rw [hc.tokens.beginsArrow_eq, hts]
  refine ⟨a, d, ?_, hd⟩
  rw [← hread]
  exact if_pos harrow

/-- The expression was read as another, up to places. -/
def Same (e a : Expr) : Prop := a.bare = e.bare

/-- The tokens of an expression are read as the expression. -/
def ReadsWhole (inner : Inner) (e : Expr) : Prop :=
  ∀ b us, Closes us → Takes (inner .expression) b (e.spell ++ us) false us (Same e)

def ReadsGroup (inner : Inner) (e : Expr) : Prop :=
  ∀ goal b us, Closes us → Takes (inner goal) b (inParens e.spell ++ us) false us (Same e)

/-- An expression that may stand inside another. -/
structure ReadsPart (inner : Inner) (e : Expr) : Prop where
  whole : ReadsWhole inner e
  group : ReadsGroup inner e

variable {e : Expr}

theorem inParens_append (ts us : List Spelled) :
    inParens ts ++ us = .punct .leftParen :: (ts ++ .punct .rightParen :: us) := by
  rw [inParens, List.cons_append, List.append_assoc]
  rfl

theorem takes_primary_group (h : ReadsWhole inner e) (b : Bool) (us : List Spelled) :
    Takes (primary inner) b (inParens e.spell ++ us) false us (Same e) := by
  rw [inParens_append]
  apply Takes.bind takes_next
  intro l hl
  rw [eq_of_reads_punct hl]
  refine .bind (h false (.punct .rightParen :: us) (by decide : Punct.rightParen ∈ closers)) ?_
  intro a ha
  apply Takes.bind (takes_expect .rightParen)
  intro close _
  apply Takes.pure
  rw [Same, Expr.bare_withSpan]
  exact ha

theorem takes_unary_group (h : ReadsWhole inner e) (b : Bool) (hus : EndsOperand us) :
    Takes (unary inner) b (inParens e.spell ++ us) false us (Same e) :=
  takes_unary_of_primary rfl rfl hus (takes_primary_group h b us)

/-- An expression in parentheses is read one level further out. -/
theorem readsGroup_level (h : ReadsWhole inner e) : ReadsGroup (level inner) e := by
  intro goal b us hus
  have hunary := takes_unary_group h b (endsOperand_of_closes hus)
  cases goal with
  | expression =>
    refine takes_level_of_conditional ?_ (takes_conditional_of_unary hus hunary)
    exact Expr.beginsArrow_inParens e (leads_of_closes hus (by decide))
  | rightOperand least => exact takes_binary_of_unary least (op?_of_closes hus) hunary
  | unaryOperand mark => exact hunary

/-- An expression without operators, which begins with no operator and no parameters. -/
theorem readsWhole_of_primary
    (harrow : ∀ us, Closes us → Spelled.beginsArrow (e.spell ++ us) = false)
    (hbang : ∀ us, leads .bang (e.spell ++ us) = false)
    (hminus : ∀ us, leads .minus (e.spell ++ us) = false)
    (h : ∀ b us, Takes (primary inner) b (e.spell ++ us) false us (Same e)) :
    ReadsWhole (level inner) e := by
  intro b us hus
  refine takes_level_of_conditional (harrow us hus) (takes_conditional_of_unary hus ?_)
  exact takes_unary_of_primary (hbang us) (hminus us) (endsOperand_of_closes hus) (h b us)

theorem readsWhole_string (s : Span) (v : String) : ReadsWhole (level inner) (.string s v) := by
  refine readsWhole_of_primary (fun _ _ => rfl) (fun _ => rfl) (fun _ => rfl) fun b us => ?_
  apply Takes.bind takes_next
  intro l hl
  rw [eq_of_reads_string hl]
  exact .pure rfl

theorem readsWhole_number (s : Span) (x : Float) : ReadsWhole (level inner) (.number s x) := by
  refine readsWhole_of_primary (fun _ _ => rfl) (fun _ => rfl) (fun _ => rfl) fun b us => ?_
  apply Takes.bind takes_next
  intro l hl
  rw [eq_of_reads_number hl]
  exact .pure rfl

/-- An expression that is a single word. -/
theorem readsWhole_of_word {text : String} (hspell : e.spell = [.name text])
    (hword : ∀ span, ∃ a, Same e a ∧ word text span = pure a) :
    ReadsWhole (level inner) e := by
  refine readsWhole_of_primary ?_ ?_ ?_ ?_
  · intro us hus
    rw [hspell]
    exact beginsArrow_name hus
  · intro us
    rw [hspell]
    rfl
  · intro us
    rw [hspell]
    rfl
  · intro b us
    rw [hspell]
    apply Takes.bind takes_next
    intro l hl
    rw [eq_of_reads_name hl]
    obtain ⟨a, ha, hword⟩ := hword l.span
    dsimp only
    rw [hword]
    exact .pure ha

theorem readsWhole_boolean (s : Span) (v : Bool) : ReadsWhole (level inner) (.boolean s v) := by
  cases v with
  | false => exact readsWhole_of_word rfl fun span => ⟨.boolean span false, rfl, rfl⟩
  | true => exact readsWhole_of_word rfl fun span => ⟨.boolean span true, rfl, rfl⟩

theorem readsWhole_null (s : Span) : ReadsWhole (level inner) (.null s) :=
  readsWhole_of_word rfl fun span => ⟨.null span, rfl, rfl⟩

theorem readsWhole_undefined (s : Span) : ReadsWhole (level inner) (.undefined s) :=
  readsWhole_of_word rfl fun span => ⟨.undefined span, rfl, rfl⟩

theorem word_of_free {text : String} (h : reservedWords.contains text = false) (span : Span) :
    word text span = pure (.name span text) := by
  have hunsupported : unsupportedWords.contains text = false := by
    simp only [reservedWords, unsupportedWords, List.contains_cons, List.contains_nil,
      Bool.or_eq_false_iff] at h ⊢
    tauto
  simp only [reservedWords, List.contains_cons, List.contains_nil, Bool.or_eq_false_iff] at h
  simp only [word, h, hunsupported, Bool.false_eq_true, if_false]

theorem readsWhole_name (s : Span) {n : String} (h : IsIdentifier n) :
    ReadsWhole (level inner) (.name s n) :=
  readsWhole_of_word rfl fun span => ⟨.name span n, rfl, word_of_free h.free span⟩

theorem hole_of_reads {ls : List Lexeme} (brace : Span) (h : ReadsGroup inner e)
    (hls : ReadsAll false (inParens e.spell) ls) :
    ∃ a, hole inner (ls ++ [.endAt brace]) = .ok a ∧ Same e a := by
  have hc : (Cursor.ofTokens (ls ++ [.endAt brace])).Reads false (inParens e.spell ++ []) := by
    rw [List.append_nil]
    exact Cursor.reads_ofTokens hls rfl
  obtain ⟨a, d, hread, hd, ha⟩ := h .expression false [] trivial _ hc
  refine ⟨a, ?_, ha⟩
  rw [hole, hread]
  have hend : d.atEnd = true := hd.atEnd
  show (if d.atEnd then _ else _) = _
  rw [hend]
  rfl

theorem segments_of_reads {segs : List TemplateSegment} {ps : List Piece}
    (h : ∀ e, .hole e ∈ segs → ReadsGroup inner e)
    (hps : ReadsPieces (Expr.spellSegments segs) ps) :
    ∃ as, segments inner ps = .ok as ∧ Expr.bareSegments as = Expr.bareSegments segs := by
  induction segs generalizing ps with
  | nil =>
    cases hps
    exact ⟨[], rfl, rfl⟩
  | cons seg segs ih =>
    have hrest := fun (qs : List Piece) (hqs : ReadsPieces (Expr.spellSegments segs) qs) =>
      ih (fun e he => h e (List.mem_cons_of_mem _ he)) hqs
    cases seg with
    | text s =>
      cases hps with
      | text _ rest =>
        obtain ⟨as, hread, hsame⟩ := hrest _ rest
        refine ⟨.text s :: as, ?_, congrArg (List.cons _) hsame⟩
        rw [segments, hread]
        rfl
    | hole e =>
      cases hps with
      | hole brace tokens rest =>
        obtain ⟨a, hhole, ha⟩ := hole_of_reads brace (h e List.mem_cons_self) tokens
        obtain ⟨as, hread, hsame⟩ := hrest _ rest
        refine ⟨.hole a :: as, ?_, ?_⟩
        · rw [segments, hhole, hread]
          rfl
        · rw [Expr.bareSegments, Expr.bareSegments, ha, hsame]

theorem takes_lift {x : Except (Located ε) α} {a : α} (hx : x = .ok a) (ha : P a) :
    Takes (ε := ε) (liftM x) b ts b ts P := by
  intro c hc
  refine ⟨a, c, ?_, hc, ha⟩
  rw [hx]
  rfl

theorem readsWhole_template (s : Span) {segs : List TemplateSegment}
    (h : ∀ e, .hole e ∈ segs → ReadsGroup inner e) :
    ReadsWhole (level inner) (.template s segs) := by
  refine readsWhole_of_primary (fun _ _ => rfl) (fun _ => rfl) (fun _ => rfl) fun b us => ?_
  apply Takes.bind takes_next
  intro l hl
  obtain ⟨ps, hl, hps⟩ : ∃ ps, l.token = .template ps ∧
      ReadsPieces (Expr.spellSegments segs) ps := by
    generalize l.token = token at hl
    cases hl with
    | template pieces => exact ⟨_, rfl, pieces⟩
  obtain ⟨as, hread, hsame⟩ := segments_of_reads h hps
  rw [hl]
  refine Takes.bind (takes_lift (P := fun as' => as' = as) hread rfl) ?_
  intro as' has
  apply Takes.pure
  rw [has, Same, Expr.bare, Expr.bare, hsame]

theorem arrayItem_opens (i : ArrayItem) : Opens i.spell := by
  cases i with
  | item e => exact (by decide : Punct.leftParen ∉ closers)
  | spread e => exact (by decide : Punct.ellipsis ∉ closers)

theorem takes_arrayItem {i : ArrayItem} (h : ReadsGroup inner i.value) (b : Bool)
    (hus : Closes us) :
    Takes (arrayItem inner) b (i.spell ++ us) false us fun a => a.bare = i.bare := by
  cases i with
  | item e =>
    refine .miss rfl ?_
    apply Takes.bind (h .expression b us hus)
    intro a ha
    apply Takes.pure
    exact congrArg ArrayItem.item ha
  | spread e =>
    apply Takes.hit
    apply Takes.bind (h .expression false us hus)
    intro a ha
    apply Takes.pure
    exact congrArg ArrayItem.spread ha

theorem map_eq_map_of_forall₂ {α β γ : Type} {f : α → γ} {g : β → γ} {as : List α} {bs : List β}
    (h : List.Forall₂ (fun a b => f a = g b) as bs) : as.map f = bs.map g := by
  induction h with
  | nil => rfl
  | cons ha _ ih => rw [List.map_cons, List.map_cons, ha, ih]

theorem readsWhole_array (s : Span) {is : List ArrayItem}
    (h : ∀ i ∈ is, ReadsGroup inner i.value) :
    ReadsWhole (level inner) (.array s is) := by
  refine readsWhole_of_primary (fun _ _ => rfl) (fun _ => rfl) (fun _ => rfl) fun b us => ?_
  have hspell : (Expr.array s is).spell ++ us = .punct .leftBracket ::
      (separated (is.map ArrayItem.spell) ++ .punct .rightBracket :: us) := by
    rw [Expr.spell, Expr.spellItems_eq_map, List.cons_append, List.append_assoc]
    rfl
  rw [hspell]
  apply Takes.bind takes_next
  intro l hl
  rw [eq_of_reads_punct hl]
  apply Takes.bind takes_rounds
  intro rounds hr
  have hopens : ∀ i ∈ is, Opens i.spell := fun i _ => arrayItem_opens i
  have hread := (readsItems_items inner l.span).separated (by decide) ArrayItem.spell
    (fun a i => a.bare = i.bare) hopens
    (fun i hi b us hus => takes_arrayItem (h i hi) b hus) rounds
    (length_lt_of_separated hopens hr) false us
  apply Takes.bind hread
  intro as has
  apply Takes.bind takes_previous
  intro _ _
  apply Takes.pure
  rw [Same, Expr.bare, Expr.bare, Expr.bareItems_eq_map, Expr.bareItems_eq_map,
    map_eq_map_of_forall₂ has]

theorem objectMember_opens (m : ObjectMember) : Opens m.spell := by
  cases m with
  | field key s e => trivial
  | spread e => exact (by decide : Punct.ellipsis ∉ closers)

theorem takes_objectMember {m : ObjectMember} (h : ReadsGroup inner m.value) (b : Bool)
    (hus : Closes us) :
    Takes (objectMember inner) b (m.spell ++ us) false us fun a => a.bare = m.bare := by
  cases m with
  | field key s e =>
    have hkey : Takes memberKey b (.string key :: .punct .colon :: (inParens e.spell ++ us)) false
        (.punct .colon :: (inParens e.spell ++ us)) fun r => r.1 = key := by
      apply Takes.bind takes_next
      intro l hl
      rw [eq_of_reads_string hl]
      exact .pure rfl
    refine .miss rfl ?_
    apply Takes.bind hkey
    rintro ⟨_, span, isName⟩ rfl
    apply Takes.hit
    apply Takes.bind (h .expression false us hus)
    intro a ha
    apply Takes.pure
    exact congrArg (ObjectMember.field _ default) ha
  | spread e =>
    apply Takes.hit
    apply Takes.bind (h .expression false us hus)
    intro a ha
    apply Takes.pure
    exact congrArg ObjectMember.spread ha

theorem readsWhole_object (s : Span) {ms : List ObjectMember}
    (h : ∀ m ∈ ms, ReadsGroup inner m.value) :
    ReadsWhole (level inner) (.object s ms) := by
  refine readsWhole_of_primary (fun _ _ => rfl) (fun _ => rfl) (fun _ => rfl) fun b us => ?_
  have hspell : (Expr.object s ms).spell ++ us = .punct .leftBrace ::
      (separated (ms.map ObjectMember.spell) ++ .punct .rightBrace :: us) := by
    rw [Expr.spell, Expr.spellMembers_eq_map, List.cons_append, List.append_assoc]
    rfl
  rw [hspell]
  apply Takes.bind takes_next
  intro l hl
  rw [eq_of_reads_punct hl]
  apply Takes.bind takes_rounds
  intro rounds hr
  have hopens : ∀ m ∈ ms, Opens m.spell := fun m _ => objectMember_opens m
  have hread := (readsItems_members inner l.span).separated (by decide) ObjectMember.spell
    (fun a m => a.bare = m.bare) hopens
    (fun m hm b us hus => takes_objectMember (h m hm) b hus) rounds
    (length_lt_of_separated hopens hr) false us
  apply Takes.bind hread
  intro as has
  apply Takes.bind takes_previous
  intro _ _
  apply Takes.pure
  rw [Same, Expr.bare, Expr.bare, Expr.bareMembers_eq_map, Expr.bareMembers_eq_map,
    map_eq_map_of_forall₂ has]

/-- An expression in parentheses with something behind it that is one of its trailers. -/
theorem readsWhole_of_trailers {o : Expr} (ho : ReadsWhole inner o) {ts : List Spelled}
    (hspell : e.spell = inParens o.spell ++ ts) (harrow : ∀ us, leads .arrow (ts ++ us) = false)
    (htrailers : ∀ us a, Closes us → Same o a → ∀ rounds, (ts ++ us).length < rounds.length →
      Takes (trailers inner rounds a) false (ts ++ us) false us (Same e)) :
    ReadsWhole (level inner) e := by
  intro b us hus
  rw [hspell, List.append_assoc]
  refine takes_level_of_conditional (Expr.beginsArrow_inParens o (harrow us)) ?_
  refine takes_conditional_of_unary hus (takes_unary rfl rfl (takes_primary_group ho b _) ?_)
  exact fun a ha rounds hr => htrailers us a hus ha rounds hr

theorem readsWhole_member (s : Span) {o : Expr} (ho : ReadsWhole inner o) (p : Ident) :
    ReadsWhole (level inner) (.member s o p) := by
  refine readsWhole_of_trailers ho rfl (fun _ => rfl) fun us a hus ha rounds hr => ?_
  obtain ⟨l, rounds, rfl⟩ := List.exists_cons_of_length_pos (Nat.zero_lt_of_lt hr)
  apply Takes.bind takes_peek
  intro _ _
  apply Takes.hit
  apply Takes.bind (takes_expectProperty p.name)
  intro q hq
  refine (takes_trailers_stop (endsOperand_of_closes hus) rounds).mono ?_
  rintro _ rfl
  rw [Same, Expr.bare, Expr.bare, ha, hq]

theorem readsWhole_index (s : Span) {o i : Expr} (ho : ReadsWhole inner o)
    (hi : ReadsGroup inner i) : ReadsWhole (level inner) (.index s o i) := by
  refine readsWhole_of_trailers ho rfl (fun _ => rfl) fun us a hus ha rounds hr => ?_
  obtain ⟨l, rounds, rfl⟩ := List.exists_cons_of_length_pos (Nat.zero_lt_of_lt hr)
  rw [List.cons_append, List.append_assoc]
  apply Takes.bind takes_peek
  intro l hl
  -- The bracket is on the line of the parenthesis before it, as that is no semicolon.
  refine .miss rfl ?_
  refine .ite (fun h => absurd (hl.2 h) Bool.false_ne_true) fun _ => ?_
  apply Takes.hit
  refine Takes.bind (hi .expression false _ (by decide : Punct.rightBracket ∈ closers)) ?_
  intro j hj
  apply Takes.bind (takes_expect .rightBracket)
  intro _ _
  refine (takes_trailers_stop (endsOperand_of_closes hus) rounds).mono ?_
  rintro _ rfl
  rw [Same, Expr.bare, Expr.bare, ha, hj]

theorem opens_inParens (ts : List Spelled) : Opens (inParens ts) :=
  (by decide : Punct.leftParen ∉ closers)

theorem readsWhole_call (s : Span) {f : Expr} {args : List Expr} (hf : ReadsWhole inner f)
    (hargs : ∀ e ∈ args, ReadsGroup inner e) : ReadsWhole (level inner) (.call s f args) := by
  refine readsWhole_of_trailers hf rfl (fun _ => rfl) fun us a hus ha rounds hr => ?_
  obtain ⟨l, rounds, rfl⟩ := List.exists_cons_of_length_pos (Nat.zero_lt_of_lt hr)
  rw [List.cons_append, List.append_assoc, Expr.spellArguments_eq_map]
  apply Takes.bind takes_peek
  intro l hl
  refine .miss rfl ?_
  refine .ite (fun h => absurd (hl.2 h) Bool.false_ne_true) fun _ => ?_
  refine .miss rfl ?_
  apply Takes.hit
  apply Takes.bind takes_rounds
  intro rounds' hr'
  have hopens : ∀ e ∈ args, Opens (inParens e.spell) := fun e _ => opens_inParens _
  have hread := (readsItems_arguments inner).separated (by decide) (fun e => inParens e.spell)
    (fun a e => a.bare = e.bare) hopens (fun e he b us hus => hargs e he .expression b us hus)
    rounds' (length_lt_of_separated hopens hr') false us
  apply Takes.bind hread
  intro as has
  apply Takes.bind takes_previous
  intro _ _
  refine (takes_trailers_stop (endsOperand_of_closes hus) rounds).mono ?_
  rintro _ rfl
  rw [Same, Expr.bare, Expr.bare, ha, Expr.bareAll_eq_map, Expr.bareAll_eq_map,
    map_eq_map_of_forall₂ has]

theorem readsWhole_unary (s : Span) (op : UnaryOp) (he : ReadsGroup inner e) :
    ReadsWhole (level inner) (.unary s op e) := by
  intro b us hus
  have hoperand (mark : Span) := he (.unaryOperand mark) false us hus
  refine takes_level_of_conditional ?_ (takes_conditional_of_unary hus ?_)
  · cases op <;> rfl
  · apply Takes.bind takes_peek_any
    intro l _
    cases op with
    | not =>
      apply Takes.hit
      apply Takes.bind (hoperand l.span)
      intro a ha
      apply Takes.pure
      exact congrArg (Expr.unary default .not) ha
    | negate =>
      refine .miss rfl ?_
      apply Takes.hit
      apply Takes.bind (hoperand l.span)
      intro a ha
      apply Takes.pure
      exact congrArg (Expr.unary default .negate) ha

theorem readsWhole_binary (s : Span) (op : BinaryOp) {l r : Expr} (hl : ReadsWhole inner l)
    (hr : ReadsGroup inner r) : ReadsWhole (level inner) (.binary s op l r) := by
  intro b us hus
  have hspell : (Expr.binary s op l r).spell ++ us =
      inParens l.spell ++ .punct op.punct :: (inParens r.spell ++ us) := by
    rw [Expr.spell, List.append_assoc, List.cons_append]
  rw [hspell]
  refine takes_level_of_conditional (Expr.beginsArrow_inParens l ?_) ?_
  · cases op <;> rfl
  · refine takes_conditional_of_binary (leads_of_closes hus (by decide)) (takes_binary
      (takes_unary_group hl b (endsOperand_op op _)) fun a ha rounds hrounds => ?_)
    obtain ⟨l', rounds, rfl⟩ := List.exists_cons_of_length_pos (Nat.zero_lt_of_lt hrounds)
    apply Takes.bind takes_peek_op
    intro l' hop
    rw [hop, op?_punct]
    refine .ite (fun h => absurd h (Nat.not_lt_zero _)) fun _ => .bind takes_next fun _ _ => ?_
    apply Takes.bind (hr (.rightOperand (op.precedence + 1)) _ us hus)
    intro c hc
    refine (takes_operators_stop 0 (op?_of_closes hus) rounds).mono ?_
    rintro _ rfl
    rw [Same, Expr.bare, Expr.bare, ha, hc]

theorem readsWhole_conditional (s : Span) {t c a : Expr} (ht : ReadsWhole inner t)
    (hc : ReadsGroup inner c) (ha : ReadsGroup inner a) :
    ReadsWhole (level inner) (.conditional s t c a) := by
  intro b us hus
  have hspell : (Expr.conditional s t c a).spell ++ us = inParens t.spell ++
      .punct .question :: (inParens c.spell ++ .punct .colon :: (inParens a.spell ++ us)) := by
    simp only [Expr.spell, List.append_assoc, List.cons_append]
  rw [hspell]
  refine takes_level_of_conditional (Expr.beginsArrow_inParens t rfl) ?_
  refine .bind (takes_binary_of_unary 0 rfl (takes_unary_group ht b ⟨rfl, rfl, rfl⟩)) ?_
  refine fun test htest => .hit ?_
  refine Takes.bind (hc .expression false _ (by decide : Punct.colon ∈ closers)) ?_
  intro then' hthen
  apply Takes.bind (takes_expect .colon)
  intro _ _
  apply Takes.bind (ha .expression false us hus)
  intro else' helse
  apply Takes.pure
  rw [Same, Expr.bare, Expr.bare, htest, hthen, helse]

theorem beginsArrow_params {ps : List Ident} (us : List Spelled) :
    Spelled.beginsArrow (.punct .leftParen ::
      (separated (ps.map fun p => [.name p.name]) ++
        .punct .rightParen :: .punct .arrow :: us)) = true := by
  rw [Spelled.beginsArrow, Bool.or_eq_true]
  induction ps with
  | nil => exact .inl rfl
  | cons p ps ih =>
    -- A closing parenthesis stands first only where there are no parameters.
    right
    cases ps with
    | nil => rfl
    | cons q ps =>
      obtain hclose | hnames := ih
      · cases ps <;> cases hclose
      · exact hnames

theorem repeated?_eq_none {seen : List String} {ps : List Ident}
    (hseen : ∀ p ∈ ps, p.name ∉ seen) (h : (ps.map Ident.name).Nodup) :
    repeated? seen ps = none := by
  induction ps generalizing seen with
  | nil => rfl
  | cons p ps ih =>
    rw [List.map_cons, List.nodup_cons] at h
    have hp : seen.contains p.name = false := by
      simpa using hseen p List.mem_cons_self
    rw [repeated?, hp]
    refine ih (fun q hq hmem => ?_) h.2
    obtain hname | hmem := List.mem_cons.1 hmem
    · exact h.1 (List.mem_map.2 ⟨q, hq, hname⟩)
    · exact hseen q (List.mem_cons_of_mem _ hq) hmem

theorem takes_arrowBody (h : ReadsGroup inner e) (b : Bool) (hus : Closes us) :
    Takes (arrowBody inner) b (inParens e.spell ++ us) false us (Same e) :=
  .miss rfl (h .expression b us hus)

theorem readsWhole_arrow (s : Span) {ps : List Ident} {body : Expr}
    (hps : ∀ p ∈ ps, IsIdentifier p.name) (hdiffer : (ps.map fun p => p.name).Nodup)
    (hbody : ReadsGroup inner body) : ReadsWhole (level inner) (.arrow s ps body) := by
  intro b us hus
  have hspell : (Expr.arrow s ps body).spell ++ us = .punct .leftParen ::
      (separated (ps.map fun p => [.name p.name]) ++
        .punct .rightParen :: .punct .arrow :: (inParens body.spell ++ us)) := by
    simp only [Expr.spell, List.append_assoc, List.cons_append]
  rw [hspell]
  refine takes_level_of_arrow (beginsArrow_params _) ?_
  have hopens : ∀ p ∈ ps, Opens [Spelled.name p.name] := fun _ _ => trivial
  apply Takes.bind takes_peek_any
  intro l _
  apply Takes.hit
  apply Takes.bind takes_rounds
  intro rounds hr
  have hparams := readsItems_params.separated (by decide) (fun p => [Spelled.name p.name])
    (fun a p => a.name = p.name) hopens
    (fun p hp b us hus => takes_expectName _ (hps p hp).free) rounds
    (length_lt_of_separated hopens hr) false (.punct .arrow :: (inParens body.spell ++ us))
  apply Takes.bind hparams
  intro as has
  have hnames : as.map Ident.name = ps.map Ident.name := map_eq_map_of_forall₂ has
  dsimp only
  rw [repeated?_eq_none (fun _ _ => List.not_mem_nil) (hnames ▸ hdiffer)]
  apply Takes.bind (takes_expect .arrow)
  intro _ _
  apply Takes.bind (takes_arrowBody hbody false hus)
  intro a ha
  have hbare : as.map (fun p => (⟨p.name, default⟩ : Ident)) = ps.map fun p => ⟨p.name, default⟩ :=
    map_eq_map_of_forall₂ (has.imp fun p q h => by rw [h])
  apply Takes.bind takes_previous
  intro _ _
  apply Takes.pure
  rw [Same, Expr.bare, Expr.bare, hbare, ha]

open Filter

/-- An expression that is read on the level around large enough ones may stand inside others. -/
theorem eventually_of_level {e : Expr}
    (h : ∀ᶠ levels in atTop, ∀ limit, ReadsWhole (level (nested limit levels)) e) :
    ∀ᶠ levels in atTop, ∀ limit, ReadsPart (nested limit levels) e := by
  -- The expression takes one level more than its parts, and its parentheses another one.
  have hwhole : ∀ᶠ levels in atTop, ∀ limit, ReadsWhole (nested limit levels) e := by
    apply eventually_of_succ
    filter_upwards [h] with levels h limit
    rw [nested_succ]
    exact h limit
  have hgroup : ∀ᶠ levels in atTop, ∀ limit, ReadsGroup (nested limit levels) e := by
    apply eventually_of_succ
    filter_upwards [hwhole] with levels h limit
    rw [nested_succ]
    exact readsGroup_level (h limit)
  filter_upwards [hwhole, hgroup] with levels hwhole hgroup limit
  exact ⟨hwhole limit, hgroup limit⟩

/-- A writable expression is read if expressions may be nested deep enough. -/
theorem eventually_readsPart {e : Expr} (h : e.Writable) :
    ∀ᶠ levels in atTop, ∀ limit, ReadsPart (nested limit levels) e := by
  induction h with
  | string s v => exact eventually_of_level (.of_forall fun _ _ => readsWhole_string s v)
  | number s small => exact eventually_of_level (.of_forall fun _ _ => readsWhole_number s _)
  | boolean s b => exact eventually_of_level (.of_forall fun _ _ => readsWhole_boolean s b)
  | null s => exact eventually_of_level (.of_forall fun _ _ => readsWhole_null s)
  | undefined s => exact eventually_of_level (.of_forall fun _ _ => readsWhole_undefined s)
  | name s h => exact eventually_of_level (.of_forall fun _ _ => readsWhole_name s h)
  | template s shape holes ih =>
    apply eventually_of_level
    have hholes := eventually_forall_mem_of_injective (fun _ _ h => TemplateSegment.hole.inj h) ih
    filter_upwards [hholes] with levels h limit
    exact readsWhole_template s fun e he => (h e he limit).group
  | array s values ih =>
    apply eventually_of_level
    filter_upwards [eventually_forall_mem ih] with levels h limit
    exact readsWhole_array s fun i hi => (h i hi limit).group
  | object s values ih =>
    apply eventually_of_level
    filter_upwards [eventually_forall_mem ih] with levels h limit
    exact readsWhole_object s fun m hm => (h m hm limit).group
  | @member s o p object property ih =>
    apply eventually_of_level
    filter_upwards [ih] with levels h limit
    exact readsWhole_member s (h limit).whole p
  | index s object position iho ihi =>
    apply eventually_of_level
    filter_upwards [iho, ihi] with levels ho hi limit
    exact readsWhole_index s (ho limit).whole (hi limit).group
  | call s callee arguments ihf ihargs =>
    apply eventually_of_level
    filter_upwards [ihf, eventually_forall_mem ihargs] with levels hf hargs limit
    exact readsWhole_call s (hf limit).whole fun e he => (hargs e he limit).group
  | arrow s identifiers differ result ih =>
    apply eventually_of_level
    filter_upwards [ih] with levels h limit
    exact readsWhole_arrow s identifiers differ (h limit).group
  | unary s op operand ih =>
    apply eventually_of_level
    filter_upwards [ih] with levels h limit
    exact readsWhole_unary s op (h limit).group
  | binary s op left right ihl ihr =>
    apply eventually_of_level
    filter_upwards [ihl, ihr] with levels hl hr limit
    exact readsWhole_binary s op (hl limit).whole (hr limit).group
  | conditional s test consequent alternate iht ihc iha =>
    apply eventually_of_level
    filter_upwards [iht, ihc, iha] with levels ht hc ha limit
    exact readsWhole_conditional s (ht limit).whole (hc limit).group (ha limit).group

end Program

end TypedConfig
