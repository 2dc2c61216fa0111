import TypedConfig.Program.Parse
import TypedConfig.Proofs.Depth.Trees
import TypedConfig.Proofs.Places.Trees
import TypedConfig.Proofs.Schema.Reading

/-! # Where programs are read

On tokens that stand in a closed class of places, every reader of programs fails at a place of
the class, and what it reads stands in the class. The reader of a level of nesting gives
expressions that nest no deeper than the levels left.
-/

namespace TypedConfig

variable {S : Span → Prop} {ε α β : Type}

namespace Reader

variable (S) in
/-- On tokens that stand in a class, the reader gives results with a property and leaves tokens
that stand in the class, or fails at a place of it. -/
structure Yields (m : Reader ε α) (P : α → Prop) : Prop where
  ok : ∀ c a d, c.StandsIn S → m c = .ok (a, d) → P a ∧ d.StandsIn S
  error : ∀ c e, c.StandsIn S → m c = .error e → S e.span

namespace Yields

variable {m n : Reader ε α} {P : α → Prop} {Q : β → Prop}

theorem total {f : Cursor → α × Cursor}
    (h : ∀ c, c.StandsIn S → P (f c).1 ∧ (f c).2.StandsIn S) :
    Yields S (fun c => .ok (f c) : Reader ε α) P :=
  ⟨fun c _ _ hc hr => by simpa only [Except.ok.inj hr] using h c hc, nofun⟩

theorem pure {a : α} (h : P a) : Yields S (Pure.pure a : Reader ε α) P := total fun _ hc => ⟨h, hc⟩

theorem fail {cause : ε} {span : Span} (h : S span) : Yields S (Reader.fail cause span) P :=
  ⟨nofun, fun _ _ _ hr => by cases hr; exact h⟩

theorem bind {f : α → Reader ε β} (h : Yields S m P) (hf : ∀ a, P a → Yields S (f a) Q) :
    Yields S (m >>= f) Q := by
  constructor
  · intro c b d hc hr
    obtain ⟨⟨a, c'⟩, hm, hr⟩ := bind_eq_ok_iff.1 hr
    obtain ⟨ha, hc'⟩ := h.ok c a c' hc hm
    exact (hf a ha).ok c' b d hc' hr
  · intro c e hc hr
    obtain hm | ⟨⟨a, c'⟩, hm, hr⟩ := bind_eq_error_iff.1 hr
    · exact h.error c e hc hm
    · obtain ⟨ha, hc'⟩ := h.ok c a c' hc hm
      exact (hf a ha).error c' e hc' hr

theorem ite {p : Prop} [Decidable p] (h : Yields S m P) (hn : Yields S n P) :
    Yields S (if p then m else n) P := by
  split
  · exact h
  · exact hn

/-- A computation that reads no tokens of the cursor. -/
theorem lift {x : Except (Located ε) α} (hok : ∀ a, x = .ok a → P a)
    (herror : ∀ e, x = .error e → S e.span) : Yields S (liftM x : Reader ε α) P := by
  cases x with
  | error e => exact ⟨nofun, fun c e' hc hr => by cases hr; exact herror e rfl⟩
  | ok a => exact pure (hok a rfl)

theorem run (h : Yields S m P) {c : Cursor} (hc : c.StandsIn S) :
    (∀ a, (m c).map Prod.fst = .ok a → P a) ∧
      ∀ e, (m c).map Prod.fst = .error e → S e.span := by
  cases hm : m c with
  | error e => exact ⟨nofun, fun e' he => by cases he; exact h.error c e hc hm⟩
  | ok r => exact ⟨fun a ha => by cases ha; exact (h.ok c r.1 r.2 hc hm).1, nofun⟩

theorem peek : Yields (ε := ε) S Reader.peek (Lexeme.StandsIn S) := total fun _ hc => ⟨hc.peek, hc⟩

theorem next : Yields (ε := ε) S Reader.next (Lexeme.StandsIn S) :=
  total fun _ hc => ⟨hc.peek, hc.advance⟩

theorem previous : Yields (ε := ε) S Reader.previous S := total fun _ hc => ⟨hc.previous, hc⟩

theorem rounds : Yields (ε := ε) S Reader.rounds fun _ => True := total fun _ hc => ⟨trivial, hc⟩

theorem atEnd : Yields (ε := ε) S Reader.atEnd fun _ => True := total fun _ hc => ⟨trivial, hc⟩

theorem atPunct (p : Punct) : Yields (ε := ε) S (Reader.atPunct p) fun _ => True :=
  total fun _ hc => ⟨trivial, hc⟩

theorem atName (word : String) : Yields (ε := ε) S (Reader.atName word) fun _ => True :=
  total fun _ hc => ⟨trivial, hc⟩

theorem eatPunct (p : Punct) : Yields (ε := ε) S (Reader.eatPunct p) fun _ => True := by
  have h : Reader.eatPunct (ε := ε) p =
      fun c => .ok (if c.atPunct p then (true, c.advance) else (false, c)) := by
    funext c
    unfold Reader.eatPunct Cursor.eatPunct?
    cases c.atPunct p <;> rfl
  rw [h]
  refine total fun c hc => ⟨trivial, ?_⟩
  split
  · exact hc.advance
  · exact hc

theorem eatName (word : String) : Yields (ε := ε) S (Reader.eatName word) fun _ => True := by
  have h : Reader.eatName (ε := ε) word =
      fun c => .ok (if c.atName word then (true, c.advance) else (false, c)) := by
    funext c
    unfold Reader.eatName Cursor.eatName?
    cases c.atName word <;> rfl
  rw [h]
  refine total fun c hc => ⟨trivial, ?_⟩
  split
  · exact hc.advance
  · exact hc

theorem skipPuncts (ps : List Punct) :
    Yields (ε := ε) S (Reader.skipPuncts ps) fun _ => True := by
  have hgo (ls : List Lexeme) (c : Cursor) (hc : c.StandsIn S) :
      (Reader.skipPuncts.go ps ls c).StandsIn S := by
    induction ls generalizing c with
    | nil => exact hc
    | cons l ls ih =>
      rw [Reader.skipPuncts.go]
      split
      · exact ih _ hc.advance
      · exact hc
  exact total fun c hc => ⟨trivial, hgo _ c hc⟩

end Yields

end Reader

variable (S) in
/-- An expression that stands in a class and nests no deeper than given. -/
structure Expr.Read (levels : Nat) (e : Expr) : Prop where
  stands : e.StandsIn S
  nests : e.nesting ≤ levels

variable (S) in
/-- Items of an array that stand in a class and nest no deeper than given. -/
structure ArrayItem.Read (levels : Nat) (is : List ArrayItem) : Prop where
  stands : ArrayItem.AllStandIn S is
  nests : ArrayItem.depthAll 0 is ≤ levels

variable (S) in
/-- Members of an object that stand in a class and nest no deeper than given. -/
structure ObjectMember.Read (levels : Nat) (ms : List ObjectMember) : Prop where
  stands : ObjectMember.AllStandIn S ms
  nests : ObjectMember.depthAll 0 ms ≤ levels

variable (S) in
/-- Segments of a template that stand in a class and nest no deeper than given. -/
structure TemplateSegment.Read (levels : Nat) (ts : List TemplateSegment) : Prop where
  stands : TemplateSegment.AllStandIn S ts
  nests : TemplateSegment.depthAll 0 ts ≤ levels

variable (S) in
/-- Arguments that stand in a class and nest no deeper than given. -/
structure Expr.ReadAll (levels : Nat) (es : List Expr) : Prop where
  stands : Expr.AllStandIn S es
  nests : Expr.depthAll 0 es ≤ levels

variable {levels n : Nat}

theorem node_nests {a : Nat} (h : a ≤ n) : 1 + a ≤ n + 1 := by omega

theorem link_nests {a b : Nat} (ha : a ≤ n + 1) (hb : b ≤ n) : max (0 + a) (1 + b) ≤ n + 1 := by
  omega

theorem Expr.Read.mono {e : Expr} (h : e.Read S n) (hn : n ≤ levels) : e.Read S levels :=
  ⟨h.stands, Nat.le_trans h.nests hn⟩

theorem Expr.Read.withSpan {e : Expr} (h : e.Read S n) {s : Span} (hs : S s) :
    (e.withSpan s).Read S n := ⟨h.stands.withSpan hs, by cases e <;> exact h.nests⟩

theorem Expr.Read.cons {e : Expr} {es : List Expr} (h : e.Read S n)
    (hs : Expr.ReadAll S n es) : Expr.ReadAll S n (e :: es) :=
  ⟨⟨h.stands, hs.stands⟩, Nat.max_le.2 ⟨h.nests, hs.nests⟩⟩

theorem ArrayItem.Read.item {e : Expr} (h : e.Read S n) : ArrayItem.Read S n [.item e] :=
  ⟨⟨h.stands, trivial⟩, Nat.max_le.2 ⟨h.nests, Nat.zero_le _⟩⟩

theorem ArrayItem.Read.spread {e : Expr} (h : e.Read S n) : ArrayItem.Read S n [.spread e] :=
  ⟨⟨h.stands, trivial⟩, Nat.max_le.2 ⟨h.nests, Nat.zero_le _⟩⟩

theorem ArrayItem.Read.cons {i : ArrayItem} {is : List ArrayItem} (h : ArrayItem.Read S n [i])
    (hs : ArrayItem.Read S n is) : ArrayItem.Read S n (i :: is) := by
  cases i with
  | item e | spread e =>
    exact ⟨⟨h.stands.1, hs.stands⟩, Nat.max_le.2 ⟨(Nat.max_le.1 h.nests).1, hs.nests⟩⟩

theorem ObjectMember.Read.field {key : String} {span : Span} {e : Expr} (hs : S span)
    (h : e.Read S n) : ObjectMember.Read S n [.field key span e] :=
  ⟨⟨⟨hs, h.stands⟩, trivial⟩, Nat.max_le.2 ⟨h.nests, Nat.zero_le _⟩⟩

theorem ObjectMember.Read.spread {e : Expr} (h : e.Read S n) :
    ObjectMember.Read S n [.spread e] :=
  ⟨⟨h.stands, trivial⟩, Nat.max_le.2 ⟨h.nests, Nat.zero_le _⟩⟩

theorem ObjectMember.Read.cons {m : ObjectMember} {ms : List ObjectMember}
    (h : ObjectMember.Read S n [m]) (hs : ObjectMember.Read S n ms) :
    ObjectMember.Read S n (m :: ms) := by
  cases m with
  | field key span e | spread e =>
    exact ⟨⟨h.stands.1, hs.stands⟩, Nat.max_le.2 ⟨(Nat.max_le.1 h.nests).1, hs.nests⟩⟩

variable (S) in
/-- A statement that stands in a class, of expressions that nest no deeper than given. -/
structure Statement.Read (levels : Nat) (s : Statement) : Prop where
  stands : s.StandsIn S
  nests : ∀ e ∈ s.expressions, e.nesting ≤ levels

namespace Program

open Reader (Yields)

variable (S) in
/-- Every operand that the reader of the next level is asked for is read. -/
def YieldsInner (levels : Nat) (inner : Inner) : Prop :=
  ∀ goal, (∀ mark, goal = .unaryOperand mark → S mark) → Yields S (inner goal) (Expr.Read S levels)

variable {inner : Inner}

theorem YieldsInner.expression (h : YieldsInner S levels inner) :
    Yields S (inner .expression) (Expr.Read S levels) := h _ nofun

theorem yields_failBefore (cause : String → ProgramCause) (P : α → Prop) :
    Yields S (failBefore cause) P := .bind .peek fun _ hl => .fail hl.span

theorem yields_expect (p : Punct) : Yields S (expect p) S :=
  .bind (.eatPunct p) fun _ _ => .ite .previous (yields_failBefore ..)

theorem yields_expectName (what : String) : Yields S (expectName what) fun i => S i.span := by
  refine .bind .peek fun l hl => ?_
  split
  · exact .ite (yields_failBefore ..) (.bind .next fun _ _ => .pure hl.span)
  · exact yields_failBefore ..

theorem yields_expectProperty : Yields S expectProperty fun i => S i.span := by
  refine .bind .peek fun l hl => ?_
  split
  · exact .bind .next fun _ _ => .pure hl.span
  · exact yields_failBefore ..

theorem yields_params (rounds : List Lexeme) :
    Yields S (params rounds) fun ps => ∀ p ∈ ps, S p.span := by
  induction rounds with
  | nil => exact .pure nofun
  | cons l rounds ih =>
    refine .bind (.eatPunct _) fun _ _ => .ite (.pure nofun) ?_
    refine .bind (yields_expectName _) fun p hp => .bind (.eatPunct _) fun _ _ => ?_
    exact .bind ih fun ps hps => .pure (List.forall_mem_cons.2 ⟨hp, hps⟩)

theorem yields_arrowBody (h : YieldsInner S levels inner) :
    Yields S (arrowBody inner) (Expr.Read S levels) := by
  refine .bind (.eatPunct _) fun _ _ => .ite (.bind .previous fun brace hb => ?_) h.expression
  refine .bind (.eatName _) fun _ _ => .ite (.bind h.expression fun e he => ?_) ?_
  · refine .bind (.eatPunct _) fun _ _ => .bind (.eatPunct _) fun _ _ => ?_
    exact .ite (.pure he) (.fail hb)
  · exact yields_failBefore ..

theorem repeated?_mem {seen : List String} {ps : List Ident} {p : Ident}
    (h : repeated? seen ps = some p) : p ∈ ps := by
  induction ps generalizing seen with
  | nil => cases h
  | cons q ps ih =>
    rw [repeated?] at h
    split at h
    · cases h
      exact .head _
    · exact .tail _ (ih h)

theorem yields_arrow (hS : Span.Closed S) (h : YieldsInner S levels inner) :
    Yields S (arrow inner) (Expr.Read S (levels + 1)) := by
  refine .bind .peek fun l hl => .bind (.eatPunct _) fun _ _ => ?_
  extract_lets rest
  have hrest (ps : List Ident) (hps : ∀ p ∈ ps, S p.span) :
      Yields S (rest ps) (Expr.Read S (levels + 1)) := by
    dsimp only [rest]
    split
    · rename_i p hp
      exact .fail (hps p (repeated?_mem hp))
    · refine .bind (yields_expect _) fun _ _ => .bind (yields_arrowBody h) fun body hbody => ?_
      refine .bind .previous fun s hs => .pure ⟨⟨hS.join _ _ hl.span hs, hps, hbody.stands⟩, ?_⟩
      exact node_nests hbody.nests
  refine .ite (.bind .rounds fun _ _ => .bind (yields_params _) hrest) ?_
  refine .bind (yields_expectName _) fun p hp => ?_
  exact .bind (.pure (P := fun ps => ∀ p ∈ ps, S p.span) (by simpa using hp)) hrest

theorem yields_arguments (h : YieldsInner S levels inner) (rounds : List Lexeme) :
    Yields S (arguments inner rounds) (Expr.ReadAll S levels) := by
  induction rounds with
  | nil => exact .pure ⟨trivial, Nat.zero_le _⟩
  | cons l rounds ih =>
    refine .bind (.eatPunct _) fun _ _ => .ite (.pure ⟨trivial, Nat.zero_le _⟩) ?_
    refine .bind .atEnd fun _ _ => .ite (yields_failBefore ..) ?_
    refine .bind h.expression fun e he => ?_
    have hrest : Yields S (do return e :: (← arguments inner rounds)) (Expr.ReadAll S levels) :=
      .bind ih fun es hes => .pure (he.cons hes)
    refine .bind (.eatPunct _) fun _ _ => .ite hrest (.bind (.atPunct _) fun _ _ => ?_)
    exact .ite hrest (yields_failBefore ..)

theorem yields_items (h : YieldsInner S levels inner) {bracket : Span} (hb : S bracket)
    (rounds : List Lexeme) : Yields S (items inner bracket rounds) (ArrayItem.Read S levels) := by
  induction rounds with
  | nil => exact .pure ⟨trivial, Nat.zero_le _⟩
  | cons l rounds ih =>
    refine .bind (.eatPunct _) fun _ _ => .ite (.pure ⟨trivial, Nat.zero_le _⟩) ?_
    refine .bind .atEnd fun _ _ => .ite (.fail hb) (.bind (.eatPunct _) fun _ _ => ?_)
    extract_lets rest
    have hrest (i : ArrayItem) (hi : ArrayItem.Read S levels [i]) :
        Yields S (rest i) (ArrayItem.Read S levels) := by
      have hnext : Yields S (do return i :: (← items inner bracket rounds))
          (ArrayItem.Read S levels) := .bind ih fun is his => .pure (hi.cons his)
      refine .bind (.eatPunct _) fun _ _ => .ite hnext (.bind (.atPunct _) fun _ _ => ?_)
      exact .ite hnext (yields_failBefore ..)
    exact .ite (.bind h.expression fun e he => .bind (.pure (.spread he)) hrest)
      (.bind h.expression fun e he => .bind (.pure (.item he)) hrest)

theorem yields_memberKey : Yields S memberKey fun r => S r.2.1 := by
  refine .bind .next fun l hl => ?_
  split
  · exact .pure hl.span
  · exact .pure hl.span
  · exact .pure hl.span
  · exact .fail hl.span

/-- A member that stands for the binding of its name holds an expression that has not been read
by the reader of the next level. -/
theorem yields_objectMember (h : YieldsInner S levels inner) (hpos : 0 < levels) :
    Yields S (objectMember inner) fun m => ObjectMember.Read S levels [m] := by
  refine .bind (.eatPunct _) fun _ _ => .ite ?_ (.bind yields_memberKey fun r hr => ?_)
  · exact .bind h.expression fun e he => .pure (.spread he)
  · refine .bind (.eatPunct _) fun _ _ => .ite ?_ (.ite ?_ (yields_failBefore ..))
    · exact .bind h.expression fun e he => .pure (.field hr he)
    · exact .pure (.field hr ⟨hr, hpos⟩)

theorem yields_members (h : YieldsInner S levels inner) (hpos : 0 < levels) {brace : Span}
    (hb : S brace) (rounds : List Lexeme) :
    Yields S (members inner brace rounds) (ObjectMember.Read S levels) := by
  induction rounds with
  | nil => exact .pure ⟨trivial, Nat.zero_le _⟩
  | cons l rounds ih =>
    refine .bind (.eatPunct _) fun _ _ => .ite (.pure ⟨trivial, Nat.zero_le _⟩) ?_
    refine .bind .atEnd fun _ _ => .ite (.fail hb) ?_
    refine .bind (yields_objectMember h hpos) fun m hm => ?_
    have hnext : Yields S (do return m :: (← members inner brace rounds))
        (ObjectMember.Read S levels) := .bind ih fun ms hms => .pure (hm.cons hms)
    refine .bind (.eatPunct _) fun _ _ => .ite hnext (.bind (.atPunct _) fun _ _ => ?_)
    exact .ite hnext (yields_failBefore ..)

/-- The segments of a template read on their own tokens, or where they cannot be read. -/
theorem segments_read (hS : Span.Closed S) (h : YieldsInner S levels inner) {ps : List Piece}
    (hps : ∀ tokens, .hole tokens ∈ ps → ∀ l ∈ tokens, l.StandsIn S) :
    (∀ ts, segments inner ps = .ok ts → TemplateSegment.Read S levels ts) ∧
      ∀ e, segments inner ps = .error e → S e.span := by
  induction ps with
  | nil => exact ⟨fun ts hr => by cases hr; exact ⟨trivial, Nat.zero_le _⟩, nofun⟩
  | cons p ps ih =>
    have ih := ih fun tokens hm => hps tokens (.tail _ hm)
    cases p with
    | text s =>
      constructor
      · intro ts hr
        obtain ⟨ts', hts', ⟨⟩⟩ := bind_eq_ok_iff.1 hr
        exact ⟨(ih.1 ts' hts').stands, (ih.1 ts' hts').nests⟩
      · intro e hr
        obtain hr | ⟨_, _, ⟨⟩⟩ := bind_eq_error_iff.1 hr
        exact ih.2 e hr
    | hole tokens =>
      have hc : (Cursor.ofTokens tokens).StandsIn S := .ofTokens hS (hps tokens (.head _))
      constructor
      · intro ts hr
        obtain ⟨e, he, hr⟩ := bind_eq_ok_iff.1 hr
        obtain ⟨ts', hts', ⟨⟩⟩ := bind_eq_ok_iff.1 hr
        obtain ⟨⟨e', c⟩, hinner, hend⟩ := bind_eq_ok_iff.1 he
        have hread := (h.expression.ok _ e' c hc hinner).1
        dsimp only at hend
        split at hend
        · cases hend
          exact ⟨⟨hread.stands, (ih.1 ts' hts').stands⟩,
            Nat.max_le.2 ⟨hread.nests, (ih.1 ts' hts').nests⟩⟩
        · cases hend
      · intro e hr
        obtain he | ⟨_, _, hr⟩ := bind_eq_error_iff.1 hr
        · obtain he | ⟨⟨e', c⟩, hinner, hend⟩ := bind_eq_error_iff.1 he
          · exact h.expression.error _ e hc he
          · have hc' := (h.expression.ok _ e' c hc hinner).2
            dsimp only at hend
            split at hend
            · cases hend
            · cases hend
              exact hc'.peek.span
        · obtain hr | ⟨_, _, ⟨⟩⟩ := bind_eq_error_iff.1 hr
          exact ih.2 e hr

theorem yields_word (text : String) {span : Span} (hs : S span) (hpos : 0 < levels) :
    Yields S (word text span) (Expr.Read S levels) := by
  have hleaf {e : Expr} (he : e.StandsIn S) (hn : e.nesting = 1) :
      Yields S (Pure.pure e : ProgramReader Expr) (Expr.Read S levels) := .pure ⟨he, hn ▸ hpos⟩
  refine .ite (hleaf hs rfl) (.ite (hleaf hs rfl) (.ite (hleaf hs rfl) (.ite (hleaf hs rfl) ?_)))
  exact .ite (.fail hs) (hleaf hs rfl)

/-- An expression that is built around operands of the next level. -/
theorem yields_primary (hS : Span.Closed S) (h : YieldsInner S levels inner)
    (hpos : 0 < levels) : Yields S (primary inner) (Expr.Read S (levels + 1)) := by
  refine .bind .next fun l hl => ?_
  have hs : S l.span := hl.span
  split
  · exact .pure ⟨hs, Nat.le_add_left ..⟩
  · exact .pure ⟨hs, Nat.le_add_left ..⟩
  · rename_i ps hps
    have hts := segments_read hS h fun tokens hm => hl.hole hps hm
    exact .bind (.lift hts.1 hts.2) fun ts hts => .pure ⟨⟨hs, hts.stands⟩, node_nests hts.nests⟩
  · exact yields_word _ hs (Nat.succ_pos _)
  · refine .bind h.expression fun e he => .bind (yields_expect _) fun close hclose => .pure ?_
    exact (he.mono (Nat.le_succ _)).withSpan (hS.join _ _ hs hclose)
  · refine .bind .rounds fun _ _ => .bind (yields_items h hs _) fun is his => ?_
    refine .bind .previous fun s' hs' => .pure ⟨⟨hS.join _ _ hs hs', his.stands⟩, ?_⟩
    exact node_nests his.nests
  · refine .bind .rounds fun _ _ => .bind (yields_members h hpos hs _) fun ms hms => ?_
    refine .bind .previous fun s' hs' => .pure ⟨⟨hS.join _ _ hs hs', hms.stands⟩, ?_⟩
    exact node_nests hms.nests
  · exact .fail hs

theorem yields_trailers (hS : Span.Closed S) (h : YieldsInner S levels inner)
    (rounds : List Lexeme) {e : Expr} (he : e.Read S (levels + 1)) :
    Yields S (trailers inner rounds e) (Expr.Read S (levels + 1)) := by
  induction rounds generalizing e with
  | nil => exact .pure he
  | cons l rounds ih =>
    have hspan : S e.span := he.stands.span
    refine .bind .peek fun _ _ => .bind (.eatPunct _) fun _ _ => .ite ?_ (.ite (.pure he) ?_)
    · refine .bind yields_expectProperty fun p hp => ih ⟨⟨hS.join _ _ hspan hp, he.stands, hp⟩, ?_⟩
      exact Nat.le_trans (Nat.le_of_eq (Nat.zero_add _)) he.nests
    refine .bind (.eatPunct _) fun _ _ => .ite ?_ (.bind (.eatPunct _) fun _ _ => .ite ?_ ?_)
    · refine .bind h.expression fun i hi => .bind (yields_expect _) fun close hclose => ?_
      exact ih ⟨⟨hS.join _ _ hspan hclose, he.stands, hi.stands⟩, link_nests he.nests hi.nests⟩
    · refine .bind .rounds fun _ _ => .bind (yields_arguments h _) fun as has => ?_
      refine .bind .previous fun s hs => ih ⟨⟨hS.join _ _ hspan hs, he.stands, has.stands⟩, ?_⟩
      exact link_nests he.nests has.nests
    · exact .pure he

theorem yields_unary (hS : Span.Closed S) (h : YieldsInner S levels inner) (hpos : 0 < levels) :
    Yields S (unary inner) (Expr.Read S (levels + 1)) := by
  refine .bind .peek fun l hl => ?_
  have hoperand : Yields S (inner (.unaryOperand l.span)) (Expr.Read S levels) :=
    h _ fun mark hm => by cases hm; exact hl.span
  have hunary (op : UnaryOp) {e : Expr} (he : e.Read S levels) :
      (Expr.unary (l.span.join e.span) op e).Read S (levels + 1) :=
    ⟨⟨hS.join _ _ hl.span he.stands.span, he.stands⟩, node_nests he.nests⟩
  refine .bind (.eatPunct _) fun _ _ => .ite (.bind hoperand fun e he => .pure (hunary _ he)) ?_
  refine .bind (.eatPunct _) fun _ _ => .ite (.bind hoperand fun e he => .pure (hunary _ he)) ?_
  exact .bind (yields_primary hS h hpos) fun e he => .bind .rounds fun _ _ =>
    yields_trailers hS h _ he

theorem yields_operators (hS : Span.Closed S) (h : YieldsInner S levels inner) (least : Nat)
    (rounds : List Lexeme) {left : Expr} (hleft : left.Read S (levels + 1)) :
    Yields S (operators inner least rounds left) (Expr.Read S (levels + 1)) := by
  induction rounds generalizing left with
  | nil => exact .pure hleft
  | cons l rounds ih =>
    refine .bind .peek fun _ _ => ?_
    split
    · exact .pure hleft
    · refine .ite (.pure hleft) (.bind .next fun _ _ => .bind (h _ nofun) fun right hright => ?_)
      have hs := hS.join _ _ hleft.stands.span hright.stands.span
      exact ih ⟨⟨hs, hleft.stands, hright.stands⟩, link_nests hleft.nests hright.nests⟩

theorem yields_binary (hS : Span.Closed S) (h : YieldsInner S levels inner) (hpos : 0 < levels)
    (least : Nat) : Yields S (binary inner least) (Expr.Read S (levels + 1)) :=
  .bind (yields_unary hS h hpos) fun _ he => .bind .rounds fun _ _ =>
    yields_operators hS h _ _ he

theorem yields_conditional (hS : Span.Closed S) (h : YieldsInner S levels inner)
    (hpos : 0 < levels) : Yields S (conditional inner) (Expr.Read S (levels + 1)) := by
  refine .bind (yields_binary hS h hpos 0) fun test ht => ?_
  refine .bind (.eatPunct _) fun _ _ => .ite ?_ (.pure ht)
  refine .bind h.expression fun c hc => .bind (yields_expect _) fun _ _ => ?_
  refine .bind h.expression fun a ha => .pure ⟨⟨?_, ht.stands, hc.stands, ha.stands⟩, ?_⟩
  · exact hS.join _ _ ht.stands.span ha.stands.span
  · exact link_nests ht.nests (Nat.max_le.2 ⟨hc.nests, ha.nests⟩)

/-- An expression of which some levels may still be nested is no deeper than these, but for an
object member that stands for a binding. -/
theorem yields_nested (hS : Span.Closed S) (limit levels : Nat) :
    YieldsInner S (levels + 1) (nested limit levels) := by
  induction levels with
  | zero =>
    intro goal hgoal
    cases goal with
    | unaryOperand mark =>
      exact ⟨nofun, fun c e hc hr => by cases hr; exact hgoal mark rfl⟩
    | _ => exact ⟨nofun, fun c e hc hr => by cases hr; exact hc.peek.span⟩
  | succ n ih =>
    have hpos := Nat.succ_pos n
    intro goal hgoal
    cases goal with
    | expression =>
      have harrow := yields_arrow hS ih
      have hcond := yields_conditional hS ih hpos
      constructor
      · intro c a d hc hr
        simp only [nested] at hr
        split at hr
        · exact harrow.ok c a d hc hr
        · exact hcond.ok c a d hc hr
      · intro c e hc hr
        simp only [nested] at hr
        split at hr
        · exact harrow.error c e hc hr
        · exact hcond.error c e hc hr
    | rightOperand least =>
      exact ⟨(yields_binary hS ih hpos least).ok, (yields_binary hS ih hpos least).error⟩
    | unaryOperand mark => exact ⟨(yields_unary hS ih hpos).ok, (yields_unary hS ih hpos).error⟩

variable {expression : ProgramReader Expr}

theorem yields_endStatement : Yields S endStatement fun _ => True := by
  refine .bind (.eatPunct _) fun _ _ => .ite (.pure trivial) ?_
  refine .bind .atEnd fun _ _ => .ite (.pure trivial) (.bind .peek fun _ _ => ?_)
  exact .ite (.pure trivial) (yields_failBefore ..)

theorem yields_importStatement : Yields S importStatement fun _ => True := by
  refine .bind .next fun l hl => .bind .next fun m hm => ?_
  split
  · exact .bind yields_endStatement fun _ _ => .pure trivial
  · exact .fail hm.span

theorem yields_declaration (hS : Span.Closed S) (h : Yields S expression (Expr.Read S levels))
    (kind : BindingKind) {start : Span} (hs : S start) :
    Yields S (declaration expression kind start) (Statement.Read S levels) := by
  refine .bind (yields_expectName _) fun name hname => .bind (.eatPunct _) fun _ _ => ?_
  extract_lets rest
  have hrest (init : Option Expr) (hinit : ∀ e ∈ init, e.Read S levels) :
      Yields S (rest init) (Statement.Read S levels) := by
    refine .bind .previous fun s hs' => .bind yields_endStatement fun _ _ => .pure ⟨?_, ?_⟩
    · exact ⟨hname, fun e he => (hinit e he).stands, hS.join _ _ hs hs'⟩
    · exact fun e he => (hinit e (Option.mem_toList.1 he)).nests
  refine .ite (.bind h fun e he => .bind (.pure ?_) hrest) (.ite ?_ (.bind (.pure nofun) hrest))
  · rintro _ ⟨⟩
    exact he
  · exact .bind (yields_failBefore ..) hrest

theorem yields_assignment (hS : Span.Closed S) (h : Yields S expression (Expr.Read S levels))
    {target : Expr} (ht : target.StandsIn S) {start : Span} (hs : S start) :
    Yields S (assignment expression target start) (Statement.Read S levels) := by
  cases target with
  | name span name =>
    refine .bind .next fun _ _ => .bind h fun value hv => .bind .previous fun s hs' => ?_
    refine .bind yields_endStatement fun _ _ => .pure ⟨⟨ht, hv.stands, hS.join _ _ hs hs'⟩, ?_⟩
    exact List.forall_mem_singleton.2 hv.nests
  | _ => exact .fail ht.span

theorem yields_statement (hS : Span.Closed S) (h : Yields S expression (Expr.Read S levels)) :
    Yields S (statement expression) (Statement.Read S levels) := by
  refine .bind .peek fun l hl => ?_
  have hdecl (kind : BindingKind) := yields_declaration hS h kind hl.span
  refine .bind (.eatName _) fun _ _ => .ite (hdecl _) (.bind (.eatName _) fun _ _ => ?_)
  refine .ite (hdecl _) (.bind (.eatName _) fun _ _ => .ite (hdecl _) (.bind h fun e he => ?_))
  refine .bind (.atPunct _) fun _ _ => .ite (yields_assignment hS h he.stands hl.span) ?_
  exact .bind yields_endStatement fun _ _ => .pure ⟨he.stands, List.forall_mem_singleton.2 he.nests⟩

theorem yields_body (hS : Span.Closed S) (h : Yields S expression (Expr.Read S levels))
    (imports : List Import) {done : List Statement} (hdone : ∀ s ∈ done, s.Read S levels)
    (rounds : List Lexeme) :
    Yields S (body expression imports done rounds) fun r => ∀ s ∈ r.2, s.Read S levels := by
  have hresult : ∀ s ∈ done.reverse, s.Read S levels := fun s hm => hdone s (List.mem_reverse.1 hm)
  induction rounds generalizing imports done with
  | nil => exact .pure hresult
  | cons l rounds ih =>
    refine .bind (.skipPuncts _) fun _ _ => .bind .atEnd fun _ _ => .ite (.pure hresult) ?_
    refine .bind (.atName _) fun _ _ => .ite ?_ (.bind (yields_statement hS h) fun s hs => ?_)
    · exact .bind yields_importStatement fun _ _ => ih _ hdone hresult
    · have hdone' : ∀ x ∈ s :: done, x.Read S levels := List.forall_mem_cons.2 ⟨hs, hdone⟩
      exact ih _ hdone' fun x hm => hdone' x (List.mem_reverse.1 hm)

/-- A list of tokens is read at its own places, as statements no deeper than the limit, or fails
at one of its places. -/
theorem ofTokens_read (hS : Span.Closed S) (maxDepth : Nat) {tokens : List Lexeme}
    (h : ∀ l ∈ tokens, l.StandsIn S) :
    (∀ r, ofTokens maxDepth tokens = .ok r → ∀ s ∈ r.2, s.Read S (maxDepth + 1)) ∧
      ∀ e, ofTokens maxDepth tokens = .error e → S e.span := by
  have hc : (Cursor.ofTokens tokens).StandsIn S := .ofTokens hS h
  have hnone : ∀ s ∈ ([] : List Statement), s.Read S (maxDepth + 1) := nofun
  exact (yields_body hS (yields_nested hS maxDepth maxDepth).expression [] hnone _).run hc

end Program

end TypedConfig
