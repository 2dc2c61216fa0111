import TypedConfig.Proofs.Depth.Types
import TypedConfig.Proofs.Written.Programs

/-! # Chains of any length

Property names behind an expression and brackets behind a type are read in a loop, which charges
no nesting for them. So sources are written that are accepted with any limit on nesting but none
at all, and whose trees are as high as one likes.
-/

namespace TypedConfig

open Spelled Program

namespace Spelled

/-- Names and punctuation, which are read whatever the limit on nesting is. -/
inductive Plain : Spelled → Prop
  | name {text : String} (h : TypedConfig.isName text.toList = true) : Plain (.name text)
  | punct (p : Punct) : Plain (.punct p)

variable {t : Spelled} {ts : List Spelled}

theorem Plain.valid (h : t.Plain) : t.Valid := by
  cases h with
  | name h => exact .name h
  | punct p => exact .punct p

theorem Plain.readsToken (h : t.Plain) (template : Lexer.TemplateReader) :
    Lexer.ReadsToken template t := by
  cases h with
  | name h => exact Lexer.readsToken_name h
  | punct p => exact Lexer.readsToken_punct p

def written (ts : List Spelled) : String := String.ofList (lineChars ts)

theorem tokenizeWithin_of_plain (h : ∀ t ∈ ts, t.Plain) (depth : Nat) : ∃ ls stop,
    tokenizeWithin depth (written ts) = .ok (ls ++ [stop]) ∧
      stop.isEnd = true ∧ ReadsAll false ts ls := by
  rw [tokenizeWithin, Position.start, written, String.toList_ofList]
  exact Lexer.lexemes_append (fun t ht => ⟨(h t ht).valid, (h t ht).readsToken _⟩) .none [] _
    (Lexer.length_le_lineChars ts) 0

def properties : Nat → List Spelled
  | 0 => []
  | n + 1 => .punct .dot :: .name "b" :: properties n

def brackets : Nat → List Spelled
  | 0 => []
  | n + 1 => .punct .leftBracket :: .punct .rightBracket :: brackets n

variable {n : Nat}

theorem length_properties (n : Nat) : (properties n).length = 2 * n := by
  induction n with
  | zero => rfl
  | succ n ih =>
    simp only [properties, List.length_cons, ih]
    omega

theorem length_brackets (n : Nat) : (brackets n).length = 2 * n := by
  induction n with
  | zero => rfl
  | succ n ih =>
    simp only [brackets, List.length_cons, ih]
    omega

theorem plain_properties (n : Nat) : ∀ t ∈ properties n, t.Plain := by
  induction n with
  | zero => exact nofun
  | succ n ih => exact List.forall_mem_cons.2 ⟨.punct _, List.forall_mem_cons.2 ⟨.name rfl, ih⟩⟩

theorem plain_brackets (n : Nat) : ∀ t ∈ brackets n, t.Plain := by
  induction n with
  | zero => exact nofun
  | succ n ih => exact List.forall_mem_cons.2 ⟨.punct _, List.forall_mem_cons.2 ⟨.punct _, ih⟩⟩

end Spelled

namespace Program

variable {us : List Spelled} {inner : Inner} {n : Nat}

theorem takes_trailers_properties (hus : EndsOperand us) (n : Nat) (e : Expr)
    (rounds : List Lexeme) (hr : n < rounds.length) :
    Takes (trailers inner rounds e) false (properties n ++ us) false us
      (·.height = e.height + n) := by
  induction n generalizing e rounds with
  | zero => exact (takes_trailers_stop hus rounds).mono fun a ha => ha ▸ rfl
  | succ n ih =>
    obtain ⟨l, rounds, rfl⟩ := List.exists_cons_of_length_pos (Nat.zero_lt_of_lt hr)
    refine .bind takes_peek_any fun _ _ => ?_
    refine .hit (.bind (takes_expectProperty "b") fun p _ => ?_)
    refine (ih _ rounds (by simpa using hr)).mono fun a ha => ?_
    rw [ha, Expr.height, Expr.height, Expr.depth]
    omega

theorem takes_propertyChain (hus : Closes us) (b : Bool) (limit levels n : Nat) :
    Takes (nested limit (levels + 1) .expression) b (.name "a" :: (properties n ++ us)) false us
      (·.height = n + 1) := by
  rw [nested_succ]
  have harrow : Spelled.beginsArrow (.name "a" :: (properties n ++ us)) = false := by
    cases n with
    | zero => exact beginsArrow_name hus
    | succ n => rfl
  have hname : Takes (primary (nested limit levels)) b (.name "a" :: (properties n ++ us)) false
      (properties n ++ us) (·.height = 1) := by
    refine .bind takes_next fun l hl => ?_
    rw [eq_of_reads_name hl]
    exact .pure rfl
  refine takes_level_of_conditional harrow (takes_conditional_of_unary hus ?_)
  refine takes_unary rfl rfl hname fun e he rounds hr => ?_
  refine (takes_trailers_properties (endsOperand_of_closes hus) n e rounds ?_).mono
    fun a ha => by rw [ha, he, Nat.add_comm]
  rw [List.length_append, length_properties] at hr
  omega

def propertyChain (n : Nat) : List Spelled := .name "a" :: (properties n ++ [.punct .semicolon])

theorem plain_propertyChain (n : Nat) : ∀ t ∈ propertyChain n, t.Plain := by
  refine List.forall_mem_cons.2 ⟨.name rfl, List.forall_mem_append.2 ⟨plain_properties n, ?_⟩⟩
  exact List.forall_mem_singleton.2 (.punct _)

/-- A program has just one statement, an expression of some height. -/
def IsOfHeight (height : Nat) (statements : List Statement) : Prop :=
  ∃ e, statements = [.expression e] ∧ e.height = height

theorem ofTokens_propertyChain {depth : Nat} (hdepth : 0 < depth) {ls : List Lexeme} {stop : Lexeme}
    (hls : ReadsAll false (propertyChain n) ls) (hstop : stop.isEnd = true) :
    ∃ is ss, ofTokens depth (ls ++ [stop]) = .ok (is, ss) ∧ IsOfHeight (n + 1) ss := by
  obtain ⟨levels, rfl⟩ := Nat.exists_eq_succ_of_ne_zero hdepth.ne'
  have hstatement : Takes (statement (nested (levels + 1) (levels + 1) .expression)) true
      (propertyChain n) true [] fun s => ∃ e, s = .expression e ∧ e.height = n + 1 := by
    refine .bind takes_peek_any fun _ _ => ?_
    refine .missName rfl (.missName rfl (.missName rfl ?_))
    refine .bind (takes_propertyChain (closes_semicolon []) true _ levels n) fun e he => ?_
    refine .bind (takes_atPunct .assign) fun r hr => ?_
    rw [if_neg (ne_true_of_eq_false hr)]
    exact .bind takes_endStatement fun _ _ => .pure ⟨e, rfl, he⟩
  have hbody : ∀ r r' rounds, Takes (body (nested (levels + 1) (levels + 1) .expression) [] []
      (r :: r' :: rounds)) true (propertyChain n) true [] fun b => IsOfHeight (n + 1) b.2 := by
    intro r r' rounds
    refine .bind (takes_skipPuncts_miss rfl) fun _ _ => .goesOn nofun ?_
    refine .bind (takes_atName "import") fun r hr => ?_
    rw [if_neg (ne_true_of_eq_false hr)]
    refine .bind hstatement fun s ⟨e, hs, he⟩ => ?_
    refine .bind (takes_skipPuncts_miss rfl) fun _ _ => .bind takes_atEnd fun r hend => ?_
    rw [if_pos (by rw [hend]; rfl), hs]
    exact .pure ⟨e, rfl, he⟩
  have hc := Cursor.reads_ofTokens hls.fresh hstop
  obtain ⟨r, rounds, hrounds⟩ := List.exists_cons_of_length_pos
    (show 0 < (Cursor.ofTokens (ls ++ [stop])).ahead.length by
      rw [hc.tokens.length_eq]
      exact Nat.succ_pos _)
  obtain ⟨⟨is, ss⟩, d, hread, -, hss⟩ := hbody _ r rounds _ hc
  refine ⟨is, ss, ?_, hss⟩
  unfold ofTokens
  rw [← hrounds] at hread
  exact congrArg (Except.map Prod.fst) hread

/-- A program with a chain of properties is accepted with any limit on nesting but none at all. -/
theorem parse_propertyChain {limits : Limits} (hdepth : 0 < limits.maxDepth) (name : String)
    (hsize : (written (propertyChain n)).utf8ByteSize ≤ limits.maxSourceBytes) :
    ∃ p, parse limits ⟨name, written (propertyChain n)⟩ = .ok p ∧
      IsOfHeight (n + 1) p.statements := by
  obtain ⟨ls, stop, htokens, hstop, hls⟩ :=
    tokenizeWithin_of_plain (plain_propertyChain n) limits.maxDepth
  obtain ⟨is, ss, hread, hss⟩ := ofTokens_propertyChain hdepth hls hstop
  refine ⟨⟨⟨name, written (propertyChain n)⟩, is, ss⟩, ?_, hss⟩
  have hsize : limits.checkSource (written (propertyChain n)) = .ok () :=
    Limits.checkSize_eq_ok_iff.2 hsize
  simp only [parse, hsize, htokens, hread]

end Program

namespace Declaration

variable {us : List Spelled} {inner : DeclReader TyTerm} {n : Nat}

theorem takes_endStatement (b : Bool) :
    Takes endStatement b (.punct .semicolon :: us) true us fun _ => True :=
  .bind (takes_eatPunct .semicolon) fun _ _ => .pure trivial

/-- A type expression of some height that refers to no name. -/
def IsClosed (height : Nat) (t : TyTerm) : Prop := t.type.height = height ∧ t.references = []

theorem takes_bracketed_brackets (hus : leads .leftBracket us = false) (n : Nat) {height : Nat}
    {t : TyTerm} (ht : IsClosed height t) (rounds : List Lexeme) (hr : n < rounds.length) :
    Takes (bracketed rounds t) false (brackets n ++ us) false us (IsClosed (height + n)) := by
  induction n generalizing t height rounds with
  | zero => exact (takes_bracketed_stop hus rounds t).mono fun a ha => ha ▸ ht
  | succ n ih =>
    obtain ⟨l, rounds, rfl⟩ := List.exists_cons_of_length_pos (Nat.zero_lt_of_lt hr)
    refine .bind (takes_atPunct .leftBracket) fun l hl => ?_
    refine .bind (takes_punctAt_one .rightBracket) fun r hright => ?_
    rw [if_pos (by rw [hl, hright]; rfl)]
    refine .bind takes_next fun _ _ => .bind takes_next fun _ _ => ?_
    have hseq : IsClosed (height + 1) (.sequence t false) :=
      ⟨by rw [← ht.1]; exact Nat.add_comm 1 _, ht.2⟩
    refine (ih hseq rounds (by simpa using hr)).mono fun a ha => ?_
    rwa [Nat.add_right_comm] at ha

/-- What stands behind the type of a root binding. -/
def stop : List Spelled := [.punct .semicolon]

theorem takes_typeTerm_brackets (limit levels n : Nat) : Takes (typeTerm limit (levels + 1)) false
    (.name "string" :: (brackets n ++ stop)) false stop (IsClosed (n + 1)) := by
  have hprimary : Takes (primary fun c => typeTerm limit levels c) false
      (.name "string" :: (brackets n ++ stop)) false (brackets n ++ stop) (IsClosed 1) := by
    refine .bind takes_peek fun l hl => ?_
    rw [eq_of_reads_name hl.1]
    exact .bind takes_next fun _ _ => .pure ⟨rfl, rfl⟩
  have halternative : Takes (alternative fun c => typeTerm limit levels c) false
      (.name "string" :: (brackets n ++ stop)) false stop (IsClosed (n + 1)) := by
    refine .bind takes_rounds fun rounds hr => .bind hprimary fun t ht => ?_
    rw [List.length_cons, List.length_append, length_brackets] at hr
    rw [Nat.add_comm]
    exact takes_bracketed_brackets rfl n ht rounds (by omega)
  refine .bind (takes_eatPunct_miss rfl) fun _ _ => .bind halternative fun t ht => ?_
  refine .bind takes_rounds fun rounds hr => ?_
  obtain ⟨r, rounds, rfl⟩ := List.exists_cons_of_length_pos (Nat.zero_lt_of_lt hr)
  refine .bind (P := (· = [])) (.miss rfl (.pure rfl)) fun ts hts => ?_
  rw [hts]
  exact .pure ht

/-- The tokens of a root binding whose type is made of sequences. -/
def sequenceRun (n : Nat) : List Spelled :=
  .name "declare" :: .name "var" :: .name "a" :: .punct .colon :: .name "string" ::
    (brackets n ++ stop)

theorem plain_sequenceRun (n : Nat) : ∀ t ∈ sequenceRun n, t.Plain := by
  simp only [sequenceRun, stop, List.forall_mem_cons, List.forall_mem_append]
  exact ⟨.name rfl, .name rfl, .name rfl, .punct _, .name rfl, plain_brackets n, .punct _, nofun⟩

/-- Declarations of nothing but a root binding, whose type has some height and refers to no
name. -/
def IsRootOfHeight (height : Nat) (ds : List Declaration) : Prop :=
  ∃ binding t span, ds = [.root binding t span] ∧ IsClosed height t

theorem ofTokens_sequenceRun {depth : Nat} (hdepth : 0 < depth) {ls : List Lexeme} {last : Lexeme}
    (hls : ReadsAll false (sequenceRun n) ls) (hlast : last.isEnd = true) :
    ∃ ds, ofTokens depth (ls ++ [last]) = .ok ds ∧ IsRootOfHeight (n + 1) ds := by
  obtain ⟨levels, rfl⟩ := Nat.exists_eq_succ_of_ne_zero hdepth.ne'
  have hroot : Takes (rootDeclaration (typeTerm (levels + 1) (levels + 1)) none) false
      (.name "a" :: .punct .colon :: .name "string" :: (brackets n ++ stop)) true []
      fun d => IsRootOfHeight (n + 1) [d] := by
    refine .bind (takes_expectName _ "a") fun (binding, span) _ => ?_
    refine .bind (takes_expect .colon) fun _ _ => ?_
    refine .bind (takes_typeTerm_brackets _ levels n) fun t ht => ?_
    refine .bind (takes_endStatement false) fun _ _ => ?_
    exact .pure ⟨binding, t, span, rfl, ht⟩
  have hstatement : Takes (statement (typeTerm (levels + 1) (levels + 1)) none) false
      (sequenceRun n) true [] fun d => ∃ e, d = some e ∧ IsRootOfHeight (n + 1) [e] := by
    refine .bind takes_peek_any fun _ _ => .bind (takes_eatName_miss rfl) fun _ _ => ?_
    refine .missName rfl (.missName rfl (.hitName (.missName rfl (.hitName ?_))))
    exact .bind hroot fun d hd => .pure ⟨d, rfl, hd⟩
  have hall : ∀ r r' rounds, Takes (statements (typeTerm (levels + 1) (levels + 1)) none []
      (r :: r' :: rounds)) false (sequenceRun n) true [] (IsRootOfHeight (n + 1)) := by
    intro r r' rounds
    refine .bind (takes_skipPuncts_miss rfl) fun _ _ => .goesOn nofun ?_
    refine .bind hstatement fun d ⟨e, hd, he⟩ => ?_
    rw [hd]
    refine .bind (takes_skipPuncts_miss rfl) fun _ _ => .bind takes_atEnd fun r hend => ?_
    rw [if_pos (by rw [hend]; rfl)]
    exact .pure he
  have hc := Cursor.reads_ofTokens hls hlast
  obtain ⟨r, rounds, hrounds⟩ := List.exists_cons_of_length_pos
    (show 0 < (Cursor.ofTokens (ls ++ [last])).ahead.length by
      rw [hc.tokens.length_eq]
      exact Nat.succ_pos _)
  obtain ⟨ds, d, hread, -, hds⟩ := hall _ r rounds _ hc
  refine ⟨ds, ?_, hds⟩
  unfold ofTokens
  rw [← hrounds] at hread
  exact congrArg (Except.map Prod.fst) hread

end Declaration

namespace Schema

open Declaration

variable {n : Nat}

/-- A root binding of sequences of sequences is accepted with any limit on nesting but none at
all. -/
theorem load_sequenceRun {limits : Limits} (hdepth : 0 < limits.maxDepth) (name : String)
    (hsize : (written (sequenceRun n)).utf8ByteSize ≤ limits.maxSourceBytes) :
    ∃ schema, load limits [⟨name, written (sequenceRun n)⟩] = .ok schema ∧
      schema.root.type.height = n + 1 := by
  obtain ⟨ls, stop, htokens, hstop, hls⟩ :=
    tokenizeWithin_of_plain (plain_sequenceRun n) limits.maxDepth
  obtain ⟨ds, hread, root, t, span, hds, hheight, hreferences⟩ :=
    ofTokens_sequenceRun hdepth hls hstop
  subst hds
  refine ⟨⟨[], [], ⟨root, t.type, name, span⟩⟩, ?_, hheight⟩
  have hdeclarations : declarations limits ⟨name, written (sequenceRun n)⟩ =
      .ok [.root root t span] := by
    have hsize : limits.checkSource (written (sequenceRun n)) = .ok () :=
      Limits.checkSize_eq_ok_iff.2 hsize
    simp only [declarations, hsize, htokens, hread]
  have hdraft : draft limits .empty [⟨name, written (sequenceRun n)⟩] =
      .ok ⟨[], [], some ⟨root, t.type, name, span⟩, []⟩ := by
    have hnone : [Declaration.root root t span].flatMap references = [] := by
      rw [List.flatMap_singleton]
      exact hreferences
    rw [draft, hdeclarations]
    change (Draft.empty.add _ [.root root t span] >>= fun d => draft limits d []) = _
    rw [Draft.add, hnone]
    rfl
  simp only [load, hdraft]
  rfl

end Schema

end TypedConfig
