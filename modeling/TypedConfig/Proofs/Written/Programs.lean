import TypedConfig.Proofs.Written.Expressions
import TypedConfig.Proofs.Written.Tokens

/-! # Programs read back

Statements and imports are read one after another from their tokens. So a writable program is
read back from its text, but for the places of its parts, if the limits are large enough.
-/

namespace TypedConfig.Program

open Spelled Filter

variable {b : Bool} {ts us vs : List Spelled} {inner : Inner} {e : Expr} {word : String}

def statementWords : List String := ["const", "let", "var", "import"]

theorem leadsName_of_free {text : String} (h : reservedWords.contains text = false)
    (hword : reservedWords.contains word = true) : leadsName word (.name text :: ts) = false := by
  rw [leadsName, beq_eq_false_iff_ne]
  rintro rfl
  rw [h] at hword
  cases hword

theorem leadsName_spellWhole (h : e.Writable) (parens : Bool) (hword : word ∈ statementWords)
    (us : List Spelled) : leadsName word (e.spellWhole parens ++ us) = false := by
  cases parens with
  | true => rfl
  | false =>
    have hreserved : ∀ word ∈ statementWords, reservedWords.contains word = true := by decide
    have hother : ∀ word ∈ statementWords,
        ∀ text ∈ ["true", "false", "null", "undefined"], (text == word) = false := by decide
    cases h with
    | name s identifier => exact leadsName_of_free identifier.free (hreserved word hword)
    | boolean s v => cases v <;> exact hother word hword _ (by decide)
    | null s => exact hother word hword _ (by decide)
    | undefined s => exact hother word hword _ (by decide)
    | _ => rfl

theorem opens_spellWhole (e : Expr) (parens : Bool) : Opens (e.spellWhole parens) := by
  cases parens
  · exact e.opens_spell
  · exact opens_inParens _

theorem takes_spellWhole (h : ReadsPart inner e) (parens b : Bool) (hus : Closes us) :
    Takes (inner .expression) b (e.spellWhole parens ++ us) false us (Same e) := by
  cases parens
  · exact h.whole b us hus
  · exact h.group .expression b us hus

theorem takes_endStatement : Takes endStatement b (.punct .semicolon :: us) true us fun _ => True :=
  .hit (.pure trivial)

theorem takes_importStatement (i : Import) :
    Takes importStatement b (i.spell ++ us) true us fun a => a.bare = i.bare := by
  apply Takes.bind takes_next
  intro _ _
  apply Takes.bind takes_next
  intro l hl
  rw [eq_of_reads_string hl]
  apply Takes.bind takes_endStatement
  intro _ _
  exact .pure rfl

theorem closes_semicolon (us : List Spelled) : Closes (.punct .semicolon :: us) :=
  (by decide : Punct.semicolon ∈ closers)

theorem takes_declaration {kind : BindingKind} {name : Ident} {init : Option Expr}
    (start s : Span) (identifier : IsIdentifier name.name) (value : kind = .const → init ≠ none)
    (h : ∀ e ∈ init, ReadsPart inner e) (parens : Bool) (us : List Spelled) :
    Takes (declaration (inner .expression) kind start) false
      (((Statement.declare kind name init s).spell parens).tail ++ us) true us
      fun a => a.bare = (Statement.declare kind name init s).bare := by
  cases init with
  | none =>
    apply Takes.bind (takes_expectName _ identifier.free)
    intro a ha
    refine .miss rfl ?_
    refine .ite ?_ fun _ => ?_
    · intro hconst
      exact absurd rfl (value hconst)
    · refine Takes.bind (.pure (P := (· = none)) rfl) ?_
      intro init hinit
      apply Takes.bind takes_previous
      intro _ _
      apply Takes.bind takes_endStatement
      intro _ _
      apply Takes.pure
      rw [hinit, Statement.bare, Statement.bare, ha]
  | some e =>
    have hspell : ((Statement.declare kind name (some e) s).spell parens).tail ++ us =
        .name name.name :: .punct .assign ::
          (e.spellWhole parens ++ .punct .semicolon :: us) := by
      simp only [Statement.spell, List.tail_cons, List.cons_append, List.append_assoc,
        List.nil_append]
    rw [hspell]
    apply Takes.bind (takes_expectName _ identifier.free)
    intro a ha
    apply Takes.hit
    refine Takes.bind (takes_spellWhole (h e rfl) parens false (closes_semicolon us)) ?_
    intro e' he
    refine Takes.bind (.pure (P := (· = some e')) rfl) ?_
    intro init hinit
    apply Takes.bind takes_previous
    intro _ _
    apply Takes.bind takes_endStatement
    intro _ _
    apply Takes.pure
    rw [hinit, Statement.bare, Statement.bare, ha]
    exact congrArg (fun e => Statement.declare kind ⟨name.name, default⟩ (some e) default) he

theorem takes_assignment {target : Ident} {a : Expr} {start : Span} (s : Span)
    (ha : Same (.name default target.name) a) (h : ReadsPart inner e) (parens : Bool)
    (us : List Spelled) :
    Takes (assignment (inner .expression) a start) false
      (.punct .assign :: (e.spellWhole parens ++ .punct .semicolon :: us)) true us
      fun a => a.bare = (Statement.assign target e s).bare := by
  cases a <;> cases ha
  apply Takes.bind takes_next
  intro _ _
  apply Takes.bind (takes_spellWhole h parens _ (closes_semicolon us))
  intro e' he
  apply Takes.bind takes_previous
  intro _ _
  apply Takes.bind takes_endStatement
  intro _ _
  apply Takes.pure
  exact congrArg (fun e => Statement.assign ⟨target.name, default⟩ e default) he

/-- The expressions of a statement are read; the target of an assignment is one of them. -/
def ReadsParts (inner : Inner) : Statement → Prop
  | .declare _ _ init _ => ∀ e ∈ init, ReadsPart inner e
  | .assign target e _ => ReadsWhole inner (.name default target.name) ∧ ReadsPart inner e
  | .expression e => ReadsPart inner e

variable {s : Statement}

theorem eventually_readsParts (h : s.Writable) :
    ∀ᶠ levels in atTop, ∀ limit, ReadsParts (nested limit levels) s := by
  cases h with
  | @declare kind name init _ identifier value expression =>
    cases init with
    | none => exact .of_forall fun _ _ => nofun
    | some e =>
      filter_upwards [eventually_readsPart (expression e rfl)] with levels h limit
      rintro _ ⟨⟩
      exact h limit
  | @assign target e _ identifier expression =>
    have htarget := eventually_readsPart (.name default identifier)
    filter_upwards [htarget, eventually_readsPart expression] with levels htarget h limit
    exact ⟨(htarget limit).whole, h limit⟩
  | expression expression => exact eventually_readsPart expression

theorem takes_statement (hs : s.Writable) (h : ReadsParts inner s) (parens b : Bool)
    (us : List Spelled) :
    Takes (statement (inner .expression)) b (s.spell parens ++ us) true us
      fun a => a.bare = s.bare := by
  apply Takes.bind takes_peek_any
  intro l _
  cases hs with
  | @declare kind name init span identifier value expression =>
    have hspell : (Statement.declare kind name init span).spell parens ++ us =
        .name kind.word ::
          (((Statement.declare kind name init span).spell parens).tail ++ us) := by
      cases init <;> rfl
    have hread := takes_declaration l.span span identifier value h parens us
    rw [hspell]
    cases kind with
    | const => exact .hitName hread
    | letVar => exact .missName rfl (.hitName hread)
    | var => exact .missName rfl (.missName rfl (.hitName hread))
  | @assign target e span identifier expression =>
    have hspell : (Statement.assign target e span).spell parens ++ us = .name target.name ::
        .punct .assign :: (e.spellWhole parens ++ .punct .semicolon :: us) := by
      simp only [Statement.spell, List.cons_append, List.append_assoc, List.nil_append]
    rw [hspell]
    have hmiss {word : String} (hword : reservedWords.contains word = true) :
        leadsName word (.name target.name ::
          .punct .assign :: (e.spellWhole parens ++ .punct .semicolon :: us)) = false :=
      leadsName_of_free identifier.free hword
    refine .missName (hmiss rfl) ?_
    refine .missName (hmiss rfl) ?_
    refine .missName (hmiss rfl) ?_
    refine Takes.bind (h.1 b _ (by decide : Punct.assign ∈ closers)) ?_
    intro a ha
    apply Takes.bind (takes_atPunct .assign)
    intro r hr
    rw [if_pos (by rw [hr]; rfl)]
    exact takes_assignment span ha h.2 parens us
  | @expression e expression =>
    have hspell : (Statement.expression e).spell parens ++ us =
        e.spellWhole parens ++ .punct .semicolon :: us := by
      simp only [Statement.spell, List.append_assoc, List.cons_append, List.nil_append]
    rw [hspell]
    have hmiss {word : String} (hword : word ∈ statementWords) :=
      leadsName_spellWhole expression parens hword (.punct .semicolon :: us)
    refine .missName (hmiss (by decide)) ?_
    refine .missName (hmiss (by decide)) ?_
    refine .missName (hmiss (by decide)) ?_
    apply Takes.bind (takes_spellWhole h parens b (closes_semicolon us))
    intro a ha
    apply Takes.bind (takes_atPunct .assign)
    intro r hr
    rw [if_neg (ne_true_of_eq_false hr)]
    apply Takes.bind takes_endStatement
    intro _ _
    exact .pure (congrArg Statement.expression ha)

theorem opens_import (i : Import) : Opens i.spell := trivial

theorem opens_statement (s : Statement) (parens : Bool) : Opens (s.spell parens) := by
  match s with
  | .declare _ _ none _ | .declare _ _ (some _) _ | .assign .. => trivial
  | .expression e => exact (opens_spellWhole e parens).append _

theorem leadsName_import (hs : s.Writable) (parens : Bool) (us : List Spelled) :
    leadsName "import" (s.spell parens ++ us) = false := by
  cases hs with
  | @declare kind name init =>
    have hword : leadsName "import" [.name kind.word] = false := by cases kind <;> rfl
    cases init <;> exact hword
  | assign _ identifier => exact leadsName_of_free identifier.free rfl
  | expression expression =>
    rw [Statement.spell, List.append_assoc]
    exact leadsName_spellWhole expression parens (by decide) _

theorem takes_body_statements {ss : List Statement} (hs : ∀ s ∈ ss, s.Writable)
    (h : ∀ s ∈ ss, ReadsParts inner s) (parens : Bool) (imports : List Import)
    (done : List Statement) (rounds : List Lexeme) (hr : ss.length < rounds.length) :
    Takes (body (inner .expression) imports done rounds) true
      (ss.flatMap (Statement.spell parens)) true [] fun r => r.1 = imports.reverse ∧
        r.2.map Statement.bare = (done.reverse ++ ss).map Statement.bare := by
  induction ss generalizing done rounds with
  | nil =>
    obtain ⟨l, rounds, rfl⟩ := List.exists_cons_of_length_pos hr
    refine Takes.bind (takes_skipPuncts_miss rfl) ?_
    intro _ _
    apply Takes.bind takes_atEnd
    intro r hend
    rw [if_pos (by rw [hend]; rfl)]
    exact .pure ⟨rfl, by rw [List.append_nil]⟩
  | cons s ss ih =>
    obtain ⟨l, rounds, rfl⟩ := List.exists_cons_of_length_pos (Nat.zero_lt_of_lt hr)
    have hopens : Opens (s.spell parens ++ ss.flatMap (Statement.spell parens)) :=
      (opens_statement s parens).append _
    rw [List.flatMap_cons]
    refine Takes.bind (takes_skipPuncts_miss (leads_of_opens hopens (by decide))) ?_
    intro _ _
    refine .goesOn hopens.ne_nil ?_
    apply Takes.bind (takes_atName "import")
    intro r hname
    rw [leadsName_import (hs s List.mem_cons_self)] at hname
    rw [if_neg (ne_true_of_eq_false hname)]
    refine .bind (takes_statement (hs s List.mem_cons_self) (h s List.mem_cons_self) parens _ _) ?_
    intro a ha
    have hrest := ih (fun t ht => hs t (List.mem_cons_of_mem _ ht))
      (fun t ht => h t (List.mem_cons_of_mem _ ht)) (a :: done) rounds (by simpa using hr)
    refine hrest.mono fun r hr => ⟨hr.1, ?_⟩
    rw [hr.2]
    simp [ha]

theorem takes_body {is : List Import} {ss : List Statement} (hs : ∀ s ∈ ss, s.Writable)
    (h : ∀ s ∈ ss, ReadsParts inner s) (parens : Bool) (done : List Import)
    (rounds : List Lexeme) (hr : is.length + ss.length < rounds.length) :
    Takes (body (inner .expression) done [] rounds) true
      (is.flatMap Import.spell ++ ss.flatMap (Statement.spell parens)) true [] fun r =>
        r.1.map Import.bare = (done.reverse ++ is).map Import.bare ∧
          r.2.map Statement.bare = ss.map Statement.bare := by
  induction is generalizing done rounds with
  | nil =>
    have hread := takes_body_statements hs h parens done [] rounds (by simpa using hr)
    exact hread.mono fun r hr => ⟨by rw [hr.1, List.append_nil], hr.2⟩
  | cons i is ih =>
    obtain ⟨l, rounds, rfl⟩ := List.exists_cons_of_length_pos (Nat.zero_lt_of_lt hr)
    rw [List.flatMap_cons, List.append_assoc]
    refine Takes.bind (takes_skipPuncts_miss rfl) ?_
    intro _ _
    refine .goesOn nofun ?_
    apply Takes.bind (takes_atName "import")
    intro r hname
    rw [if_pos (by rw [hname]; rfl)]
    apply Takes.bind (takes_importStatement i)
    intro a ha
    have hrest := ih (a :: done) rounds (by simp only [List.length_cons] at hr ⊢; omega)
    refine hrest.mono fun r hr => ⟨?_, hr.2⟩
    rw [hr.1]
    simp [ha]

theorem length_le_flatMap {α : Type} {f : α → List Spelled} {xs : List α}
    (h : ∀ x ∈ xs, Opens (f x)) : xs.length ≤ (xs.flatMap f).length := by
  induction xs with
  | nil => exact Nat.zero_le _
  | cons x xs ih =>
    have hx : 0 < (f x).length := List.length_pos_iff.2 (h x List.mem_cons_self).ne_nil
    have hxs := ih fun y hy => h y (List.mem_cons_of_mem _ hy)
    rw [List.flatMap_cons, List.length_append, List.length_cons]
    omega

variable {p : Program}

theorem ofTokens_of_reads (hp : p.Writable) {depth : Nat}
    (h : ∀ s ∈ p.statements, ReadsParts (nested depth depth) s) {parens : Bool}
    {ls : List Lexeme} {stop : Lexeme} (hls : ReadsAll false (p.spell parens) ls)
    (hstop : stop.isEnd = true) :
    ∃ is ss, ofTokens depth (ls ++ [stop]) = .ok (is, ss) ∧
      is.map Import.bare = p.imports.map Import.bare ∧
      ss.map Statement.bare = p.statements.map Statement.bare := by
  -- Statements leave a fresh line behind, so the first one is taken from a fresh line too.
  have hc := Cursor.reads_ofTokens hls.fresh hstop
  have hr : p.imports.length + p.statements.length <
      ((Cursor.ofTokens (ls ++ [stop])).last :: (Cursor.ofTokens (ls ++ [stop])).ahead).length := by
    have himports := length_le_flatMap fun i (_ : i ∈ p.imports) => opens_import i
    have hstatements := length_le_flatMap
      fun s (_ : s ∈ p.statements) => opens_statement s parens
    rw [List.length_cons, hc.tokens.length_eq, spell, List.length_append]
    omega
  obtain ⟨⟨is, ss⟩, d, hread, -, his, hss⟩ := takes_body hp h parens [] _ hr _ hc
  refine ⟨is, ss, ?_, his, hss⟩
  unfold ofTokens
  exact congrArg (Except.map Prod.fst) hread

/-- A program that is written down is read back, but for the places of its parts, within all
limits that are large enough. -/
theorem parse_writtenText (hp : p.Writable) (parens : Bool) :
    ∃ least : Limits, ∀ limits, least ≤ limits → ∀ name, ∃ q,
      parse limits ⟨name, p.writtenText parens⟩ = .ok q ∧
        q.imports.map Import.bare = p.imports.map Import.bare ∧
        q.statements.map Statement.bare = p.statements.map Statement.bare := by
  have htokens := eventually_tokenizeWithin (hp.sound parens).valid
  have hparts := eventually_forall_mem fun s hs => eventually_readsParts (hp s hs)
  obtain ⟨depth, hdepth⟩ := eventually_atTop.1 (htokens.and hparts)
  refine ⟨⟨(p.writtenText parens).utf8ByteSize, depth, 0⟩, fun limits hlimits name => ?_⟩
  obtain ⟨⟨ls, stop, htokens, hstop, hls⟩, hparts⟩ := hdepth limits.maxDepth hlimits.2.1
  obtain ⟨is, ss, hread, his, hss⟩ :=
    ofTokens_of_reads hp (fun s hs => hparts s hs limits.maxDepth) hls hstop
  refine ⟨⟨⟨name, p.writtenText parens⟩, is, ss⟩, ?_, his, hss⟩
  have hsize : limits.checkSource (p.writtenText parens) = .ok () :=
    Limits.checkSize_eq_ok_iff.2 hlimits.1
  rw [writtenText] at hsize ⊢
  simp only [parse, hsize, htokens, hread]

/-- A program with an arrow function, a template, an object with a spread and an assignment. -/
def greeting : Program where
  source := default
  imports := [⟨"base.ts", default⟩]
  statements := [
    .declare .const ⟨"greet", default⟩ (some (.arrow default [⟨"name", default⟩]
      (.template default [.text "Dear $", .hole (.name default "name")]))) default,
    .declare .letVar ⟨"app", default⟩ none default,
    .assign ⟨"app", default⟩ (.object default [
      .field "a \"title\"" default
        (.call default (.name default "greet") [.string default "a\nb"]),
      .spread (.name default "base")]) default]

example : greeting.writtenText false =
    "import \"base.ts\" ;\n" ++
    "const greet = ( name ) => ( \x60Dear \\$$\x7b( name ) \x7d\x60 ) ;\n" ++
    "let app ;\n" ++
    "app = \x7b \"a \\\"title\\\"\" : ( ( greet ) ( ( \"a\\nb\" ) ) ) , ... ( base ) \x7d ;\n" := by
  decide +kernel

theorem writable_greeting : greeting.Writable := by
  have hname : IsIdentifier "name" := ⟨by decide, by decide⟩
  have hgreet : IsIdentifier "greet" := ⟨by decide, by decide⟩
  have happ : IsIdentifier "app" := ⟨by decide, by decide⟩
  have hbase : IsIdentifier "base" := ⟨by decide, by decide⟩
  have htemplate : TemplateShape [some "Dear $", none] := .inr ⟨nofun, by decide, trivial⟩
  intro s hs
  simp only [greeting, List.mem_cons, List.not_mem_nil, or_false] at hs
  rcases hs with rfl | rfl | rfl
  · refine .declare _ hgreet (fun _ => nofun) ?_
    rintro _ ⟨⟩
    refine .arrow _ ?_ (by decide) (.template _ htemplate ?_)
    · simpa using hname
    · intro e he
      obtain rfl : e = .name default "name" := by simpa using he
      exact .name _ hname
  · exact .declare _ happ nofun nofun
  · refine .assign _ happ (.object _ fun m hm => ?_)
    simp only [List.mem_cons, List.not_mem_nil, or_false] at hm
    rcases hm with rfl | rfl
    · refine .call _ (.name _ hgreet) fun e he => ?_
      obtain rfl : e = .string default "a\nb" := by simpa using he
      exact .string ..
    · exact .name _ hbase

theorem parse_writtenText_greeting :
    ∃ least : Limits, ∀ limits, least ≤ limits → ∀ name, ∃ q,
      parse limits ⟨name, greeting.writtenText false⟩ = .ok q ∧
        q.imports.map Import.bare = greeting.imports.map Import.bare ∧
        q.statements.map Statement.bare = greeting.statements.map Statement.bare :=
  parse_writtenText writable_greeting false

end TypedConfig.Program
