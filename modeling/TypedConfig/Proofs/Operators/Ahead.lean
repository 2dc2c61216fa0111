import TypedConfig.Proofs.Schema.Reading
import TypedConfig.Program.Parse

/-! # Reading in front of other tokens

What a reader of programs reads from some tokens up to an end token, it reads in front of other
tokens as well. In general that is so only if it leaves one of the tokens, as it may look at what
follows them; what ends with a closing bracket may take all of them, and so may an operand, if what
follows is no part of it.
-/

namespace TypedConfig

/-- A token that continues an expression: a point, or a bracket or parenthesis on the same line. -/
def Lexeme.Continues (l : Lexeme) : Prop :=
  l.isPunct .dot = true ∨
    l.newlineBefore = false ∧ (l.isPunct .leftBracket = true ∨ l.isPunct .leftParen = true)

namespace Program

/-- A place between tokens: the end token that stands there if the tokens before it are read alone,
and the tokens that stand behind it otherwise. -/
structure Seam where
  span : Span
  doc : Option String
  newline : Bool
  rest : List Lexeme
  last : Lexeme

namespace Seam

def stop (s : Seam) : Lexeme := .mk .endOfInput s.span s.doc s.newline

/-- The token behind the seam. -/
def follow (s : Seam) : Lexeme := s.rest.headD s.last

def alone (s : Seam) (ls : List Lexeme) (p : Span) : Cursor := ⟨ls, s.stop, p⟩

def joined (s : Seam) (ls : List Lexeme) (p : Span) : Cursor := ⟨ls ++ s.rest, s.last, p⟩

end Seam

variable {α β : Type} {s : Seam} {Q Q' : Prop} {j k : Nat} {ls : List Lexeme} {l : Lexeme}
  {p : Span}

theorem ifEat_apply (x : Punct) (m n : ProgramReader α) (c : Cursor) :
    (do if ← Reader.eatPunct x then m else n) c =
      if c.peek.isPunct x then m c.advance else n c := by
  show (Reader.eatPunct x c >>= fun r => (if r.1 = true then m else n) r.2) =
    if c.atPunct x then m c.advance else n c
  unfold Reader.eatPunct Cursor.eatPunct?
  cases c.atPunct x <;> rfl

theorem ifEatName_apply (word : String) (m n : ProgramReader α) (c : Cursor) :
    (do if ← Reader.eatName word then m else n) c =
      if c.peek.isName word then m c.advance else n c := by
  show (Reader.eatName word c >>= fun r => (if r.1 = true then m else n) r.2) =
    if c.atName word then m c.advance else n c
  unfold Reader.eatName Cursor.eatName?
  cases c.atName word <;> rfl

/-- What the first reader reads from tokens alone, the second reads from them where others follow,
and both leave the same tokens. At least a number of tokens is taken, and all of them only if `Q`
holds. -/
structure Carries (s : Seam) (Q : Prop) (least : Nat) (m m' : ProgramReader α) (ls : List Lexeme)
    (p : Span) : Prop where
  run : ∀ a d, m (s.alone ls p) = .ok (a, d) → ∃ ms q, d = s.alone ms q ∧
    ms.length + least ≤ ls.length ∧ ((ms = [] → Q) → m' (s.joined ls p) = .ok (a, s.joined ms q))

namespace Carries

variable {m m' : ProgramReader α} {f f' : α → ProgramReader β}

theorem imp (h : Carries s Q j m m' ls p) (hQ : Q' → Q) (hk : k ≤ j) :
    Carries s Q' k m m' ls p := by
  refine ⟨fun a d hr => ?_⟩
  obtain ⟨ms, q, hd, hle, hjoined⟩ := h.run a d hr
  exact ⟨ms, q, hd, by omega, fun hms => hjoined fun h => hQ (hms h)⟩

theorem zero (h : Carries s Q k m m' ls p) : Carries s Q 0 m m' ls p := h.imp id (Nat.zero_le _)

theorem of_error {e : Located ProgramCause} (h : m (s.alone ls p) = .error e) :
    Carries s Q k m m' ls p :=
  ⟨fun a d hr => by rw [h] at hr; cases hr⟩

theorem pure (a : α) : Carries s Q 0 (Pure.pure a) (Pure.pure a) ls p := by
  refine ⟨fun b d hr => ?_⟩
  cases hr
  exact ⟨ls, p, rfl, Nat.le_refl _, fun _ => rfl⟩

theorem fail (cause : ProgramCause) (span : Span) :
    Carries s Q k (Reader.fail cause span : ProgramReader α) m' ls p :=
  .of_error rfl

theorem failBefore (cause : String → ProgramCause) :
    Carries s Q k (failBefore cause : ProgramReader α) m' ls p :=
  .of_error rfl

/-- A computation that reads no tokens of the cursor. -/
theorem lift (x : Except (Located ProgramCause) α) :
    Carries s Q 0 (liftM x : ProgramReader α) (liftM x) ls p := by
  cases x with
  | error e => exact .of_error rfl
  | ok a => exact pure a

theorem bind (hm : Carries s Q k m m' ls p)
    (hf : ∀ a ms q, ms.length + k ≤ ls.length → Carries s Q 0 (f a) (f' a) ms q) :
    Carries s Q k (m >>= f) (m' >>= f') ls p := by
  refine ⟨fun b d hr => ?_⟩
  obtain ⟨⟨a, c⟩, ha, hr⟩ := bind_eq_ok_iff.1 hr
  obtain ⟨ms, q, rfl, hms, hjoined⟩ := hm.run a c ha
  obtain ⟨ns, r, rfl, hns, hjoined'⟩ := (hf a ms q hms).run b d hr
  refine ⟨ns, r, rfl, by omega, fun hQ => bind_eq_ok_iff.2 ⟨(a, _), hjoined ?_, hjoined' hQ⟩⟩
  rintro rfl
  exact hQ (List.length_eq_zero_iff.1 (Nat.eq_zero_of_le_zero hns))

/-- What takes a token itself may follow a reader that has to leave one. -/
theorem before (hm : Carries s False j m m' ls p)
    (hf : ∀ a ms q, ms.length + j ≤ ls.length → Carries s Q 1 (f a) (f' a) ms q) :
    Carries s Q 1 (m >>= f) (m' >>= f') ls p := by
  refine ⟨fun b d hr => ?_⟩
  obtain ⟨⟨a, c⟩, ha, hr⟩ := bind_eq_ok_iff.1 hr
  obtain ⟨ms, q, rfl, hms, hjoined⟩ := hm.run a c ha
  obtain ⟨ns, r, rfl, hns, hjoined'⟩ := (hf a ms q hms).run b d hr
  refine ⟨ns, r, rfl, by omega, fun hQ => bind_eq_ok_iff.2 ⟨(a, _), hjoined ?_, hjoined' hQ⟩⟩
  rintro rfl
  exact absurd hns (Nat.not_succ_le_zero _)

theorem ite {c : Prop} [Decidable c] {n n' : ProgramReader α} (h : Carries s Q k m m' ls p)
    (hn : Carries s Q k n n' ls p) :
    Carries s Q k (if c then m else n) (if c then m' else n') ls p := by
  split
  · exact h
  · exact hn

theorem peek {f f' : Lexeme → ProgramReader β} (h : Carries s Q k (f l) (f' l) (l :: ls) p) :
    Carries s Q k (Reader.peek >>= f) (Reader.peek >>= f') (l :: ls) p :=
  ⟨h.run⟩

theorem atEnd {f f' : Bool → ProgramReader β}
    (h : Carries s Q k (f l.isEnd) (f' l.isEnd) (l :: ls) p) :
    Carries s Q k (Reader.atEnd >>= f) (Reader.atEnd >>= f') (l :: ls) p :=
  ⟨h.run⟩

theorem atPunct {f f' : Bool → ProgramReader β} (x : Punct)
    (h : Carries s Q k (f (l.isPunct x)) (f' (l.isPunct x)) (l :: ls) p) :
    Carries s Q k (Reader.atPunct x >>= f) (Reader.atPunct x >>= f') (l :: ls) p :=
  ⟨h.run⟩

theorem previous {f f' : Span → ProgramReader β} (h : Carries s Q k (f p) (f' p) ls p) :
    Carries s Q k (Reader.previous >>= f) (Reader.previous >>= f') ls p :=
  ⟨h.run⟩

theorem rounds {f f' : List Lexeme → ProgramReader β}
    (h : Carries s Q k (f (s.stop :: ls)) (f' (s.last :: (ls ++ s.rest))) ls p) :
    Carries s Q k (Reader.rounds >>= f) (Reader.rounds >>= f') ls p :=
  ⟨h.run⟩

theorem next {f f' : Lexeme → ProgramReader β} (h : Carries s Q 0 (f l) (f' l) ls l.span) :
    Carries s Q 1 (Reader.next >>= f) (Reader.next >>= f') (l :: ls) p := by
  refine ⟨fun a d hr => ?_⟩
  obtain ⟨ms, q, hd, hle, hjoined⟩ := h.run a d hr
  exact ⟨ms, q, hd, Nat.succ_le_succ hle, hjoined⟩

/-- A branch on a token that is taken if it passes a test, which no end token passes. -/
theorem ifTake {take : ProgramReader Bool} (test : Lexeme → Bool)
    (htake : ∀ m n c, (do if ← take then m else n) c =
      if test c.peek then m c.advance else (n c : Except (Located ProgramCause) (α × Cursor)))
    (hstop : test s.stop = false) {n n' : ProgramReader α} (hQ : Q → ls ≠ [])
    (ht : ∀ l ms, ls = l :: ms → Carries s Q (k - 1) m m' ms l.span)
    (he : Carries s Q k n n' ls p) :
    Carries s Q k (do if ← take then m else n) (do if ← take then m' else n') ls p := by
  refine ⟨fun a d hr => ?_⟩
  rw [htake] at hr ⊢
  cases ls with
  | nil =>
    rw [show test (s.alone [] p).peek = false from hstop] at hr
    obtain ⟨ms, q, hd, hle, -⟩ := he.run a d hr
    rw [List.length_nil] at hle
    refine ⟨ms, q, hd, hle, fun hms => (hQ (hms ?_) rfl).elim⟩
    exact List.length_eq_zero_iff.1 (by omega)
  | cons l ls =>
    cases htest : test l with
    | true =>
      rw [show test (s.alone (l :: ls) p).peek = true from htest] at hr
      obtain ⟨ms, q, hd, hle, hjoined⟩ := (ht l ls rfl).run a d hr
      refine ⟨ms, q, hd, by rw [List.length_cons]; omega, fun hms => ?_⟩
      rw [show test (s.joined (l :: ls) p).peek = true from htest]
      exact hjoined hms
    | false =>
      rw [show test (s.alone (l :: ls) p).peek = false from htest] at hr
      obtain ⟨ms, q, hd, hle, hjoined⟩ := he.run a d hr
      refine ⟨ms, q, hd, hle, fun hms => ?_⟩
      rw [show test (s.joined (l :: ls) p).peek = false from htest]
      exact hjoined hms

section

variable {n n' : ProgramReader α}

theorem ifEat {x : Punct} (hQ : Q → ls ≠ [])
    (ht : ∀ l ms, ls = l :: ms → Carries s Q (k - 1) m m' ms l.span)
    (he : Carries s Q k n n' ls p) :
    Carries s Q k (do if ← Reader.eatPunct x then m else n)
      (do if ← Reader.eatPunct x then m' else n') ls p :=
  ifTake (fun l => l.isPunct x) (ifEat_apply x) rfl hQ ht he

theorem ifEatName {word : String} (hQ : Q → ls ≠ [])
    (ht : ∀ l ms, ls = l :: ms → Carries s Q (k - 1) m m' ms l.span)
    (he : Carries s Q k n n' ls p) :
    Carries s Q k (do if ← Reader.eatName word then m else n)
      (do if ← Reader.eatName word then m' else n') ls p :=
  ifTake (fun l => l.isName word) (ifEatName_apply word) rfl hQ ht he

end

end Carries

theorem carries_eatPunct (x : Punct) :
    Carries s False 0 (Reader.eatPunct x) (Reader.eatPunct x) ls p := by
  have h : (Reader.eatPunct x : ProgramReader Bool) =
      (do if ← Reader.eatPunct x then Pure.pure true else Pure.pure false) := by
    funext c
    refine Eq.trans ?_ (ifEat_apply x (Pure.pure true) (Pure.pure false) c).symm
    show Reader.eatPunct x c = if c.atPunct x then _ else _
    unfold Reader.eatPunct Cursor.eatPunct?
    cases c.atPunct x <;> rfl
  rw [h]
  exact .ifEat False.elim (fun _ _ _ => .pure _) (.pure _)

theorem carries_expect (x : Punct) : Carries s Q 1 (expect x) (expect x) ls p := by
  cases ls with
  | nil => exact .of_error rfl
  | cons l ls =>
    refine .ifEat (fun _ => List.cons_ne_nil _ _) ?_ (.failBefore _)
    rintro _ _ ⟨⟩
    exact .previous (.pure _)

theorem carries_expectName (what : String) :
    Carries s Q 1 (expectName what) (expectName what) ls p := by
  cases ls with
  | nil => exact .of_error rfl
  | cons l ls =>
    refine .peek ?_
    split
    · exact .ite (.failBefore _) (.next (.pure _))
    · exact .failBefore _

theorem carries_expectProperty : Carries s Q 1 expectProperty expectProperty ls p := by
  cases ls with
  | nil => exact .of_error rfl
  | cons l ls =>
    refine .peek ?_
    split
    · exact .next (.pure _)
    · exact .failBefore _

/-- Loops of which the first reads a list up to its closing mark where it stands alone, and the
second where others follow. Both have a round for each token and one more. -/
def CarriesLoop (s : Seam) (loop : List Lexeme → ProgramReader α) : Prop :=
  ∀ Q rounds rounds' ls p, ls.length < rounds.length →
    ls.length + s.rest.length < rounds'.length → Carries s Q 1 (loop rounds) (loop rounds') ls p

/-- The whole list, and what follows it. -/
theorem CarriesLoop.all {loop : List Lexeme → ProgramReader α} (h : CarriesLoop s loop)
    {f f' : α → ProgramReader β}
    (hf : ∀ a ms q, ms.length + 1 ≤ ls.length → Carries s Q 0 (f a) (f' a) ms q) :
    Carries s Q 1 (do f (← loop (← Reader.rounds))) (do f' (← loop (← Reader.rounds))) ls p :=
  .rounds ((h _ _ _ _ _ (Nat.lt_succ_self _) (by simp)).bind hf)

/-- What follows an item of a list. -/
theorem Carries.separated {loop loop' : ProgramReader (List α)} (a : α) (close : Punct)
    (cause : String → ProgramCause)
    (h : ∀ ms q, ms.length ≤ ls.length → Carries s Q 1 loop loop' ms q) :
    Carries s Q 1
      (do
        if ← Reader.eatPunct .comma then return a :: (← loop)
        else if ← Reader.atPunct close then return a :: (← loop)
        else Program.failBefore cause)
      (do
        if ← Reader.eatPunct .comma then return a :: (← loop')
        else if ← Reader.atPunct close then return a :: (← loop')
        else Program.failBefore cause) ls p := by
  have hitem (ms : List Lexeme) (q : Span) (hms : ms.length ≤ ls.length) :
      Carries s Q 1 (do return a :: (← loop)) (do return a :: (← loop')) ms q :=
    (h ms q hms).bind fun _ _ _ _ => .pure _
  cases ls with
  | nil => exact .of_error rfl
  | cons l ls =>
    refine .ifEat (fun _ => List.cons_ne_nil _ _) ?_ ?_
    · rintro _ _ ⟨⟩
      exact (hitem ls _ (Nat.le_succ _)).zero
    · exact .atPunct _ (.ite (hitem _ _ (Nat.le_refl _)) (.failBefore _))

/-- A loop carries if each of its rounds does, given what comes of the rounds after it. -/
theorem CarriesLoop.of_round {loop : List Lexeme → ProgramReader α}
    (hend : ∀ r rounds p, ∃ e, loop (r :: rounds) (s.alone [] p) = .error e)
    (hround : ∀ Q r r' rounds rounds' l ls p,
      (∀ ms q, ms.length ≤ ls.length → Carries s Q 1 (loop rounds) (loop rounds') ms q) →
      Carries s Q 1 (loop (r :: rounds)) (loop (r' :: rounds')) (l :: ls) p) :
    CarriesLoop s loop := by
  intro Q rounds
  induction rounds with
  | nil => exact fun _ _ _ h => absurd h (Nat.not_lt_zero _)
  | cons r rounds ih =>
    intro rounds' ls p hls hls'
    cases rounds' with
    | nil => exact absurd hls' (Nat.not_lt_zero _)
    | cons r' rounds' =>
      cases ls with
      | nil =>
        obtain ⟨e, he⟩ := hend r rounds p
        exact .of_error he
      | cons l ls =>
        simp only [List.length_cons] at hls hls'
        exact hround _ _ _ _ _ _ _ _ fun ms q hms => ih _ _ _ (by omega) (by omega)

theorem carriesLoop_params : CarriesLoop s params := by
  refine .of_round (fun _ _ _ => ⟨_, rfl⟩) fun Q r r' rounds rounds' l ls p ih => ?_
  refine .ifEat (fun _ => List.cons_ne_nil _ _) (fun _ _ _ => .pure _) ?_
  refine .before (carries_expectName _) fun a ms q hms => ?_
  refine .before (carries_eatPunct _) fun _ ns r hns => ?_
  rw [List.length_cons] at hms
  exact (ih ns r (by omega)).bind fun _ _ _ _ => .pure _

/-- The reader of the next level of nesting carries what it reads. The operand of a unary operator
may end at the seam. -/
structure CarriesInner (s : Seam) (inner : Inner) : Prop where
  expression : ∀ ls p, Carries s False 1 (inner .expression) (inner .expression) ls p
  rightOperand : ∀ least ls p,
    Carries s False 1 (inner (.rightOperand least)) (inner (.rightOperand least)) ls p
  unaryOperand : ∀ Q mark ls p, (Q → ¬ s.follow.Continues) →
    Carries s Q 1 (inner (.unaryOperand mark)) (inner (.unaryOperand mark)) ls p

variable {inner : Inner}

theorem carriesLoop_arguments (h : CarriesInner s inner) : CarriesLoop s (arguments inner) := by
  refine .of_round (fun _ _ _ => ⟨_, rfl⟩) fun Q r r' rounds rounds' l ls p ih => ?_
  refine .ifEat (fun _ => List.cons_ne_nil _ _) (fun _ _ _ => .pure _) ?_
  refine .atEnd (.ite (.failBefore _) ?_)
  refine .before (h.expression _ _) fun e ms q hms => ?_
  rw [List.length_cons] at hms
  exact .separated e .rightParen _ fun ns r hns => ih ns r (by omega)

theorem carriesLoop_items (h : CarriesInner s inner) (bracket : Span) :
    CarriesLoop s (items inner bracket) := by
  refine .of_round (fun _ _ _ => ⟨_, rfl⟩) fun Q r r' rounds rounds' l ls p ih => ?_
  refine .ifEat (fun _ => List.cons_ne_nil _ _) (fun _ _ _ => .pure _) ?_
  refine .atEnd (.ite (.fail _ _) ?_)
  extract_lets rest rest'
  have hrest (i : ArrayItem) (ms : List Lexeme) (q : Span) (hms : ms.length ≤ ls.length) :
      Carries s Q 1 (rest i) (rest' i) ms q :=
    .separated i .rightBracket _ fun ns r hns => ih ns r (by omega)
  refine .ifEat (fun _ => List.cons_ne_nil _ _) ?_ ?_
  · rintro _ _ ⟨⟩
    exact (Carries.before (h.expression _ _) fun e ms q hms => hrest _ ms q (by omega)).zero
  · refine .before (h.expression _ _) fun e ms q hms => hrest _ ms q ?_
    rw [List.length_cons] at hms
    omega

theorem carries_memberKey : Carries s Q 1 memberKey memberKey ls p := by
  cases ls with
  | nil => exact .of_error rfl
  | cons l ls =>
    refine .next ?_
    split
    · exact .pure _
    · exact .pure _
    · exact .pure _
    · exact .fail _ _

theorem carries_objectMember (h : CarriesInner s inner) :
    Carries s False 1 (objectMember inner) (objectMember inner) ls p := by
  have hvalue {α : Type} (f : Expr → α) (ms : List Lexeme) (q : Span) :
      Carries s False 0 (do return f (← inner .expression)) (do return f (← inner .expression))
        ms q :=
    (h.expression ms q).zero.bind fun _ _ _ _ => .pure _
  refine .ifEat False.elim (fun _ ms _ => hvalue _ ms _) ?_
  refine carries_memberKey.bind fun key ms q _ => ?_
  obtain ⟨key, span, isName⟩ := key
  refine .ifEat False.elim (fun _ ms _ => hvalue _ ms _) ?_
  exact .ite (.pure _) (.failBefore _)

theorem carriesLoop_members (h : CarriesInner s inner) (brace : Span) :
    CarriesLoop s (members inner brace) := by
  refine .of_round (fun _ _ _ => ⟨_, rfl⟩) fun Q r r' rounds rounds' l ls p ih => ?_
  refine .ifEat (fun _ => List.cons_ne_nil _ _) (fun _ _ _ => .pure _) ?_
  refine .atEnd (.ite (.fail _ _) ?_)
  refine .before (carries_objectMember h) fun m ms q hms => ?_
  rw [List.length_cons] at hms
  exact .separated m .rightBrace _ fun ns r hns => ih ns r (by omega)

theorem carries_word (text : String) (span : Span) :
    Carries s Q 0 (word text span) (word text span) ls p := by
  unfold word
  refine .ite (.pure _) (.ite (.pure _) (.ite (.pure _) (.ite (.pure _) (.ite ?_ (.pure _)))))
  exact .fail _ _

theorem carries_primary (h : CarriesInner s inner) :
    Carries s Q 1 (primary inner) (primary inner) ls p := by
  cases ls with
  | nil => exact .of_error rfl
  | cons l ls =>
    refine .next ?_
    split
    · exact .pure _
    · exact .pure _
    · exact (Carries.lift _).bind fun _ _ _ _ => .pure _
    · exact carries_word _ _
    · refine .zero (.before (h.expression _ _) fun e ms q _ => ?_)
      exact (carries_expect _).bind fun _ _ _ _ => .pure _
    · exact ((carriesLoop_items h _).all fun _ _ _ _ => .previous (.pure _)).zero
    · exact ((carriesLoop_members h _).all fun _ _ _ _ => .previous (.pure _)).zero
    · exact .fail _ _

/-- Nothing is read behind an expression that the next token does not continue. -/
theorem trailers_eq_of_not_continues {c : Cursor} (hc : ¬ c.peek.Continues) (rounds : List Lexeme)
    (e : Expr) : trailers inner rounds e c = .ok (e, c) := by
  cases rounds with
  | nil => rfl
  | cons r rounds =>
    refine (ifEat_apply ..).trans ?_
    rw [if_neg fun h => hc (.inl h)]
    cases hline : c.peek.newlineBefore with
    | true => rfl
    | false =>
      refine (ifEat_apply ..).trans ?_
      rw [if_neg fun h => hc (.inr ⟨hline, .inl h⟩)]
      refine (ifEat_apply ..).trans ?_
      rw [if_neg fun h => hc (.inr ⟨hline, .inr h⟩)]
      rfl

theorem carries_trailers (h : CarriesInner s inner) (hQ : Q → ¬ s.follow.Continues) :
    ∀ rounds rounds' ls p e, ls.length < rounds.length →
      ls.length + s.rest.length < rounds'.length →
      Carries s Q 0 (trailers inner rounds e) (trailers inner rounds' e) ls p := by
  intro rounds
  induction rounds with
  | nil => exact fun _ _ _ _ h => absurd h (Nat.not_lt_zero _)
  | cons r rounds ih =>
    intro rounds' ls p e hls hls'
    cases rounds' with
    | nil => exact absurd hls' (Nat.not_lt_zero _)
    | cons r' rounds' =>
      rw [List.length_cons] at hls hls'
      cases ls with
      | nil =>
        have hstop : ¬ s.stop.Continues := by rintro (⟨⟨⟩⟩ | ⟨-, ⟨⟨⟩⟩ | ⟨⟨⟩⟩⟩)
        refine ⟨fun a d hr => ?_⟩
        rw [trailers_eq_of_not_continues (c := s.alone [] p) hstop] at hr
        cases hr
        exact ⟨[], p, rfl, Nat.le_refl _, fun hq =>
          trailers_eq_of_not_continues (c := s.joined [] p) (hQ (hq rfl)) _ _⟩
      | cons l ls =>
        have hnil : Q → l :: ls ≠ [] := fun _ => List.cons_ne_nil _ _
        have hnext (e : Expr) (ms : List Lexeme) (q : Span) (hms : ms.length ≤ ls.length) :
            Carries s Q 0 (trailers inner rounds e) (trailers inner rounds' e) ms q := by
          rw [List.length_cons] at hls hls'
          exact ih _ _ _ _ (by omega) (by omega)
        refine .peek (.ifEat hnil ?_ (.ite (.pure _) (.ifEat hnil ?_ (.ifEat hnil ?_ (.pure _)))))
        · rintro _ _ ⟨⟩
          exact (carries_expectProperty.bind fun _ ms q hms => hnext _ ms q (by omega)).zero
        · rintro _ _ ⟨⟩
          refine .zero (.before (h.expression _ _) fun i ms q hms => ?_)
          exact (carries_expect _).bind fun _ ns r hns => hnext _ ns r (by omega)
        · rintro _ _ ⟨⟩
          refine .zero ((carriesLoop_arguments h).all fun as ms q hms => .previous ?_)
          exact hnext _ ms q (by omega)

/-- An operand begins with a unary operator or with an expression without operators. -/
theorem unary_apply (inner : Inner) (c : Cursor) : unary inner c =
    if c.peek.isPunct .bang then
      (do
        let e ← inner (.unaryOperand c.peek.span)
        return Expr.unary (c.peek.span.join e.span) .not e) c.advance
    else if c.peek.isPunct .minus then
      (do
        let e ← inner (.unaryOperand c.peek.span)
        return Expr.unary (c.peek.span.join e.span) .negate e) c.advance
    else (do
      let e ← primary inner
      trailers inner (← Reader.rounds) e) c := by
  refine (ifEat_apply ..).trans ?_
  congr 1
  exact ifEat_apply ..

theorem carries_unary (h : CarriesInner s inner) (hQ : Q → ¬ s.follow.Continues) :
    Carries s Q 1 (unary inner) (unary inner) ls p := by
  cases ls with
  | nil => exact .of_error rfl
  | cons l ls =>
    have hoperand (op : UnaryOp) (ls : List Lexeme) (p : Span) :
        Carries s Q 0 (do
            let e ← inner (.unaryOperand l.span)
            return Expr.unary (l.span.join e.span) op e)
          (do
            let e ← inner (.unaryOperand l.span)
            return Expr.unary (l.span.join e.span) op e) ls p :=
      ((h.unaryOperand Q _ ls p hQ).bind fun _ _ _ _ => .pure _).zero
    have hnil : Q → l :: ls ≠ [] := fun _ => List.cons_ne_nil _ _
    refine .peek (.ifEat hnil (fun _ ms _ => hoperand _ ms _) ?_)
    refine .ifEat hnil (fun _ ms _ => hoperand _ ms _) ?_
    refine (carries_primary h).bind fun e ms q _ => ?_
    exact .rounds (carries_trailers h hQ _ _ _ _ _ (Nat.lt_succ_self _) (by simp))

theorem carries_operators (h : CarriesInner s inner) (least : Nat) :
    ∀ rounds rounds' ls p left, ls.length < rounds.length →
      ls.length + s.rest.length < rounds'.length →
      Carries s False 0 (operators inner least rounds left) (operators inner least rounds' left)
        ls p := by
  intro rounds
  induction rounds with
  | nil => exact fun _ _ _ _ h => absurd h (Nat.not_lt_zero _)
  | cons r rounds ih =>
    intro rounds' ls p left hls hls'
    cases rounds' with
    | nil => exact absurd hls' (Nat.not_lt_zero _)
    | cons r' rounds' =>
      cases ls with
      | nil =>
        refine ⟨fun a d hr => ?_⟩
        cases hr
        exact ⟨[], p, rfl, Nat.le_refl _, fun hq => (hq rfl).elim⟩
      | cons l ls =>
        simp only [List.length_cons] at hls hls'
        refine .peek ?_
        split
        · exact .pure _
        · refine .ite (.pure _) (.zero (.next ?_))
          refine .zero ((h.rightOperand _ _ _).bind fun e ms q hms => ?_)
          exact ih _ _ _ _ (by omega) (by omega)

theorem carries_binary (h : CarriesInner s inner) (least : Nat) :
    Carries s False 1 (binary inner least) (binary inner least) ls p :=
  (carries_unary h False.elim).bind fun _ _ _ _ =>
    .rounds (carries_operators h _ _ _ _ _ _ (Nat.lt_succ_self _) (by simp))

def branches (inner : Inner) (test : Expr) : ProgramReader Expr := do
  if ← Reader.eatPunct .question then
    let consequent ← inner .expression
    let _ ← expect .colon
    let alternate ← inner .expression
    return .conditional (test.span.join alternate.span) test consequent alternate
  else return test

theorem carries_branches (h : CarriesInner s inner) (test : Expr) :
    Carries s False 0 (branches inner test) (branches inner test) ls p := by
  refine .ifEat False.elim (fun _ ns _ => ?_) (.pure _)
  refine .zero ((h.expression _ _).bind fun _ _ _ _ => ?_)
  refine .zero ((carries_expect _).bind fun _ _ _ _ => ?_)
  exact ((h.expression _ _).bind fun _ _ _ _ => .pure _).zero

theorem carries_conditional (h : CarriesInner s inner) :
    Carries s False 1 (conditional inner) (conditional inner) ls p :=
  (carries_binary h 0).bind fun _ _ _ _ => carries_branches h _

theorem carries_arrowBody (h : CarriesInner s inner) :
    Carries s False 1 (arrowBody inner) (arrowBody inner) ls p := by
  refine .ifEat False.elim (fun _ ms _ => .previous ?_) (h.expression _ _)
  refine .ifEatName False.elim (fun _ ns _ => ?_) (.failBefore _)
  refine .zero ((h.expression _ _).bind fun _ _ _ _ => ?_)
  refine .bind (carries_eatPunct _) fun _ _ _ _ => ?_
  exact .ifEat False.elim (fun _ _ _ => .pure _) (.fail _ _)

theorem carries_arrow (h : CarriesInner s inner) :
    Carries s False 1 (arrow inner) (arrow inner) ls p := by
  cases ls with
  | nil => exact .of_error rfl
  | cons l ls =>
    refine .peek ?_
    extract_lets start rest
    have hrest (ps : List Ident) (ms : List Lexeme) (q : Span) :
        Carries s False 0 (rest ps) (rest ps) ms q := by
      dsimp only [rest]
      split
      · exact .fail _ _
      · refine .zero ((carries_expect _).bind fun _ _ _ _ => ?_)
        exact .zero ((carries_arrowBody h).bind fun _ _ _ _ => .previous (.pure _))
    refine .ifEat False.elim (fun _ ms _ => ?_) ?_
    · exact .zero (carriesLoop_params.all fun ps ns q _ => hrest ps ns q)
    · exact (carries_expectName _).bind fun _ ms q _ => (Carries.pure _).bind fun ps ns r _ =>
        hrest ps ns r

theorem closesParams_append (rest : List Lexeme) (h : closesParams ls = true) :
    closesParams (ls ++ rest) = true := by
  rcases ls with _ | ⟨l, _ | ⟨m, ls⟩⟩
  · cases h
  · cases h
  · exact h

theorem namesParams_append (rest : List Lexeme) (h : namesParams ls = true) :
    namesParams (ls ++ rest) = true := by
  induction ls using namesParams.induct with
  | case1 l m ls ih =>
    rw [namesParams, Bool.and_eq_true] at h
    rw [List.cons_append, List.cons_append, namesParams, Bool.and_eq_true]
    refine ⟨h.1, ?_⟩
    by_cases hcomma : m.isPunct .comma = true
    · rw [if_pos hcomma] at h ⊢
      exact ih h.2
    · rw [if_neg hcomma] at h ⊢
      exact closesParams_append rest h.2
  | case2 ls hls =>
    rw [namesParams] at h
    · cases h
    · exact hls

theorem beginsArrow_append (rest : List Lexeme) (h : beginsArrow ls = true) :
    beginsArrow (ls ++ rest) = true := by
  rcases ls with _ | ⟨⟨token, span, doc, newline⟩, ls⟩
  · cases h
  · cases token with
    | name text =>
      cases ls with
      | nil => cases h
      | cons m ls => exact h
    | punct x =>
      cases x with
      | leftParen =>
        have h : (closesParams ls || namesParams ls) = true := h
        show (closesParams (ls ++ rest) || namesParams (ls ++ rest)) = true
        rw [Bool.or_eq_true] at h ⊢
        exact h.imp (closesParams_append rest) (namesParams_append rest)
      | _ => cases h
    | _ => cases h

/-- What stands between a parenthesis and the seam where parameters go on behind the seam. -/
inductive OpensParams : List Lexeme → Prop
  | short {ls : List Lexeme} (h : ls.length ≤ 2) : OpensParams ls
  | closed {span : Span} {doc : Option String} {newline : Bool} {ls : List Lexeme} :
    OpensParams (.mk (.punct .rightParen) span doc newline :: ls)
  | names {text : String} {span span' : Span} {doc doc' : Option String} {newline newline' : Bool}
    {ls : List Lexeme} : OpensParams (.mk (.name text) span doc newline ::
      .mk (.punct .comma) span' doc' newline' :: ls)

theorem opensParams_of_closesParams (h : closesParams (ls ++ s.rest) = true)
    (hno : closesParams ls = false) : OpensParams ls := by
  rcases ls with _ | ⟨l, _ | ⟨m, ls⟩⟩
  · exact .short (Nat.zero_le _)
  · exact .short (by simp)
  · rw [List.cons_append, List.cons_append] at h
    exact absurd h (Bool.eq_false_iff.1 hno)

theorem opensParams_of_namesParams (h : namesParams (ls ++ s.rest) = true)
    (hno : namesParams ls = false) : OpensParams ls := by
  rcases ls with _ | ⟨⟨token, span, doc, newline⟩, _ |
    ⟨⟨token', span', doc', newline'⟩, _ | ⟨l, ls⟩⟩⟩
  · exact .short (by decide)
  · exact .short (by simp)
  · exact .short (by simp)
  · rw [List.cons_append, List.cons_append, namesParams, Bool.and_eq_true] at h
    rw [namesParams, h.1, Bool.true_and] at hno
    cases token with
    | name text =>
      by_cases hcomma : Lexeme.isPunct (.mk token' span' doc' newline') .comma = true
      · obtain rfl : token' = .punct .comma := Token.eq_of_isPunct hcomma
        exact .names
      · rw [if_neg hcomma] at h hno
        exact absurd h.2 (Bool.eq_false_iff.1 hno)
    | _ => cases h.1

theorem beginsArrow_of_append (h : beginsArrow (ls ++ s.rest) = true)
    (hno : beginsArrow ls = false) : ls.length ≤ 1 ∨ ∃ span doc newline ms,
      ls = .mk (.punct .leftParen) span doc newline :: ms ∧ OpensParams ms := by
  rcases ls with _ | ⟨⟨token, span, doc, newline⟩, ls⟩
  · exact .inl (Nat.zero_le _)
  · cases token with
    | name text =>
      cases ls with
      | nil => exact .inl (Nat.le_refl _)
      | cons m ls => exact absurd h (Bool.eq_false_iff.1 hno)
    | punct x =>
      cases x with
      | leftParen =>
        have h : (closesParams (ls ++ s.rest) || namesParams (ls ++ s.rest)) = true := h
        have hno : (closesParams ls || namesParams ls) = false := hno
        rw [Bool.or_eq_true] at h
        rw [Bool.or_eq_false_iff] at hno
        refine .inr ⟨span, doc, newline, ls, rfl, ?_⟩
        rcases h with h | h
        · exact opensParams_of_closesParams h hno.1
        · exact opensParams_of_namesParams h hno.2
      | _ => cases h
    | _ => cases h

theorem read_bind_eq_ok {m : ProgramReader α} {f : α → ProgramReader β} {b : β} {c d : Cursor}
    (h : (m >>= f) c = .ok (b, d)) : ∃ a c', m c = .ok (a, c') ∧ f a c' = .ok (b, d) := by
  obtain ⟨⟨a, c'⟩, hm, hf⟩ := bind_eq_ok_iff.1 h
  exact ⟨a, c', hm, hf⟩

/-- The parts in which a conditional expression is read that begins with no unary operator. -/
theorem conditional_eq_ok {c d : Cursor} {a : Expr} (hbang : c.peek.isPunct .bang = false)
    (hminus : c.peek.isPunct .minus = false) (h : conditional inner c = .ok (a, d)) :
    ∃ e c₁, primary inner c = .ok (e, c₁) ∧
      ∃ left c₂, trailers inner (c₁.last :: c₁.ahead) e c₁ = .ok (left, c₂) ∧
        ∃ test c₃, operators inner 0 (c₂.last :: c₂.ahead) left c₂ = .ok (test, c₃) ∧
          branches inner test c₃ = .ok (a, d) := by
  obtain ⟨test, c₃, hbinary, hbranches⟩ := read_bind_eq_ok h
  obtain ⟨left, c₂, hunary, hoperators⟩ := read_bind_eq_ok hbinary
  rw [unary_apply, hbang, hminus] at hunary
  obtain ⟨e, c₁, hprimary, htrailers⟩ := read_bind_eq_ok hunary
  exact ⟨e, c₁, hprimary, left, c₂, htrailers, test, c₃, hoperators, hbranches⟩

/-- An expression in parentheses and its closing parenthesis are read before what follows them. -/
theorem conditional_group (h : CarriesInner s inner) {span : Span} {doc : Option String}
    {newline : Bool} {a : Expr} {ms : List Lexeme} {q : Span}
    (hr : conditional inner (s.alone (.mk (.punct .leftParen) span doc newline :: ls) p) =
      .ok (a, s.alone ms q)) :
    ∃ e ns r, inner .expression (s.alone ls span) = .ok (e, s.alone ns r) ∧
      ∃ close ks t, expect .rightParen (s.alone ns r) = .ok (close, s.alone ks t) ∧
        ms.length ≤ ks.length := by
  obtain ⟨e, c₁, hprimary, left, c₂, htrailers, test, c₃, hoperators, hbranches⟩ :=
    conditional_eq_ok rfl rfl hr
  have hprimary : (do
      let e ← inner .expression
      return Expr.withSpan (span.join (← expect .rightParen)) e) (s.alone ls span) =
        .ok (e, c₁) := hprimary
  obtain ⟨inside, c, hinside, hprimary⟩ := read_bind_eq_ok hprimary
  obtain ⟨close, c', hclose, hprimary⟩ := read_bind_eq_ok hprimary
  cases hprimary
  obtain ⟨ns, r, rfl, -, -⟩ := (h.expression ls span).run _ _ hinside
  obtain ⟨ks, t, rfl, -, -⟩ := (carries_expect (Q := False) _).run _ _ hclose
  have hrounds (ms : List Lexeme) : ms.length + s.rest.length < (s.last :: (ms ++ s.rest)).length :=
    by simp
  obtain ⟨ls₂, p₂, rfl, h₂, -⟩ := (carries_trailers h False.elim _ _ ks t _
    (Nat.lt_succ_self _) (hrounds ks)).run _ _ htrailers
  obtain ⟨ls₃, p₃, rfl, h₃, -⟩ := (carries_operators h 0 _ _ ls₂ p₂ _
    (Nat.lt_succ_self _) (hrounds ls₂)).run _ _ hoperators
  obtain ⟨ls₄, p₄, heq, h₄, -⟩ := (carries_branches h test).run _ _ hbranches
  cases heq
  exact ⟨_, ns, r, hinside, close, ks, t, hclose, by omega⟩

theorem nested_closed (limit levels : Nat) {span : Span} {doc : Option String}
    {newline : Bool} : ∃ e, nested limit levels .expression
      (s.alone (.mk (.punct .rightParen) span doc newline :: ls) p) = .error e := by
  cases levels with
  | zero => exact ⟨_, rfl⟩
  | succ n => exact ⟨_, rfl⟩

theorem word_eq_ok {text : String} {span : Span} {c d : Cursor} {e : Expr}
    (h : word text span c = .ok (e, d)) : d = c := by
  unfold word at h
  split at h
  · cases h
    rfl
  split at h
  · cases h
    rfl
  split at h
  · cases h
    rfl
  split at h
  · cases h
    rfl
  split at h
  · cases h
  · cases h
    rfl

theorem nested_names (limit levels : Nat) {text : String} {span span' : Span}
    {doc doc' : Option String} {newline newline' : Bool} {e : Expr} {d : Cursor}
    (h : nested limit levels .expression (s.alone (.mk (.name text) span doc newline ::
      .mk (.punct .comma) span' doc' newline' :: ls) p) = .ok (e, d)) :
    d.ahead = .mk (.punct .comma) span' doc' newline' :: ls := by
  cases levels with
  | zero => cases h
  | succ n =>
    have h : conditional (nested limit n) _ = _ := h
    obtain ⟨e, c₁, hprimary, left, c₂, htrailers, test, c₃, hoperators, hbranches⟩ :=
      conditional_eq_ok rfl rfl h
    have hword : word text span _ = .ok (e, c₁) := hprimary
    obtain rfl := word_eq_ok hword
    have hcomma : ¬ (Lexeme.mk (.punct .comma) span' doc' newline').Continues := by
      rintro (⟨⟨⟩⟩ | ⟨-, ⟨⟨⟩⟩ | ⟨⟨⟩⟩⟩)
    cases htrailers.symm.trans
      (trailers_eq_of_not_continues (c := s.alone (_ :: ls) span) hcomma _ e)
    cases hoperators
    cases hbranches
    rfl

/-- What leaves a token before the seam is no arrow function that goes on behind it. -/
theorem beginsArrow_append_of_conditional (limit levels : Nat) {a : Expr} {ms : List Lexeme}
    {q : Span} (h : CarriesInner s (nested limit levels)) (hno : beginsArrow ls = false)
    (hr : conditional (nested limit levels) (s.alone ls p) = .ok (a, s.alone ms q))
    (hms : ms ≠ []) : beginsArrow (ls ++ s.rest) = false := by
  refine Bool.eq_false_iff.2 fun harrow => hms (List.length_eq_zero_iff.1 ?_)
  rcases beginsArrow_of_append harrow hno with hshort | ⟨span, doc, newline, ns, rfl, hopens⟩
  · obtain ⟨ms', q', heq, hlength, -⟩ := (carries_conditional h).run _ _ hr
    cases heq
    omega
  · obtain ⟨e, is, r, hinner, close, ks, t, hclose, hle⟩ := conditional_group h hr
    cases hopens with
    | short hshort =>
      obtain ⟨_, _, heq, hinside, -⟩ := (h.expression _ _).run _ _ hinner
      cases heq
      obtain ⟨_, _, heq, hbehind, -⟩ := (carries_expect (Q := False) _).run _ _ hclose
      cases heq
      omega
    | closed =>
      obtain ⟨e', he'⟩ := nested_closed limit levels
      rw [he'] at hinner
      cases hinner
    | names =>
      obtain rfl : is = _ := nested_names limit levels hinner
      cases hclose

theorem carriesInner_nested (limit levels : Nat) : CarriesInner s (nested limit levels) := by
  induction levels with
  | zero =>
    exact ⟨fun _ _ => .of_error rfl, fun _ _ _ => .of_error rfl, fun _ _ _ _ _ => .of_error rfl⟩
  | succ n ih =>
    refine ⟨fun ls p => ⟨fun e d hr => ?_⟩, fun least ls p => ⟨(carries_binary ih least).run⟩,
      fun Q mark ls p hQ => ⟨(carries_unary ih hQ).run⟩⟩
    have hnested (c : Cursor) : nested limit (n + 1) .expression c =
        if beginsArrow c.ahead then arrow (nested limit n) c
        else conditional (nested limit n) c := rfl
    rw [hnested] at hr ⊢
    cases hb : beginsArrow ls with
    | true =>
      rw [show (s.alone ls p).ahead = ls from rfl, hb] at hr
      obtain ⟨ms, q, rfl, hms, hjoined⟩ := (carries_arrow ih).run e d hr
      refine ⟨ms, q, rfl, hms, fun hne => ?_⟩
      rw [show beginsArrow (s.joined ls p).ahead = true from beginsArrow_append _ hb]
      exact hjoined hne
    | false =>
      rw [show (s.alone ls p).ahead = ls from rfl, hb] at hr
      obtain ⟨ms, q, rfl, hms, hjoined⟩ := (carries_conditional ih).run e d hr
      refine ⟨ms, q, rfl, hms, fun hne => ?_⟩
      rw [show beginsArrow (s.joined ls p).ahead = false from
        beginsArrow_append_of_conditional limit n ih hb hr hne]
      exact hjoined hne

/-- An operand that is read alone is read where a token follows that is no part of it. -/
theorem unary_joined {limit levels : Nat} {ls : List Lexeme} {p q : Span} {e : Expr}
    (hfollow : ¬ s.follow.Continues)
    (h : unary (nested limit levels) (s.alone ls p) = .ok (e, s.alone [] q)) :
    unary (nested limit levels) (s.joined ls p) = .ok (e, ⟨s.rest, s.last, q⟩) := by
  obtain ⟨ms, q', heq, -, hjoined⟩ :=
    (carries_unary (carriesInner_nested limit levels) (Q := True) fun _ => hfollow).run _ _ h
  cases heq
  exact hjoined fun _ => trivial

/-- The span of the token before an operand does not matter. -/
theorem unary_previous {inner : Inner} (l : Lexeme) (ls : List Lexeme) (last : Lexeme)
    (p p' : Span) : unary inner ⟨l :: ls, last, p⟩ = unary inner ⟨l :: ls, last, p'⟩ := by
  rw [unary_apply, unary_apply]
  rfl

end Program

end TypedConfig
