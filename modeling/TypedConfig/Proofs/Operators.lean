import TypedConfig.Proofs.Limits.Programs
import TypedConfig.Proofs.Operators.Ahead

/-! # Grouping by binary operators

Operands with binary operators between them are read as the one tree over them in which the right
operand of an operator binds more tightly than the operator itself, and the left operand at least
as tightly. The loop over the operators keeps a tree of what it has read; the next operator that
it takes binds no more tightly than the root of that tree.
-/

namespace TypedConfig

namespace BinaryOp

/-- The operators from those that bind least tightly to those that bind most tightly. -/
def tiers : List (List BinaryOp) :=
  [[or], [and], [equal, notEqual], [less, greater], [add, subtract], [multiply, divide]]

def tier (op : BinaryOp) : Nat := tiers.findIdx (·.contains op)

theorem precedence_eq (op : BinaryOp) : op.precedence = op.tier + 1 := by
  cases op <;> rfl

end BinaryOp

namespace Program

/-- A tree of binary operators over expressions. -/
inductive Grouping
  | operand (e : Expr)
  | node (op : BinaryOp) (left right : Grouping)

namespace Grouping

variable {t u : Grouping} {k : Nat}

/-- The expression that is grouped so; that of an operator spans both its operands. -/
def expr : Grouping → Expr
  | operand e => e
  | node op l r => .binary (l.expr.span.join r.expr.span) op l.expr r.expr

def first : Grouping → Expr
  | operand e => e
  | node _ l _ => l.first

/-- The operators from left to right, each with the operand behind it. -/
def steps : Grouping → List (BinaryOp × Expr)
  | operand _ => []
  | node op l r => l.steps ++ (op, r.first) :: r.steps

def root? : Grouping → Option BinaryOp
  | operand _ => none
  | node op _ _ => some op

/-- Left operands bind at least as tightly as their operators, right operands more tightly. -/
def Graded : Grouping → Prop
  | operand _ => True
  | node op l r => l.Graded ∧ r.Graded ∧
      (∀ o, l.root? = some o → op.tier ≤ o.tier) ∧
      ∀ o, r.root? = some o → op.tier < o.tier

/-- A graded tree over an operand and over the operators and operands behind it. -/
structure Groups (t : Grouping) (first : Expr) (steps : List (BinaryOp × Expr)) : Prop where
  graded : t.Graded
  first : t.first = first
  steps : t.steps = steps

theorem exists_mem_steps_of_root {op : BinaryOp} (h : t.root? = some op) :
    ∃ e, (op, e) ∈ t.steps := by
  cases t with
  | operand e => cases h
  | node o l r =>
    cases h
    exact ⟨r.first, List.mem_append_right _ (List.mem_cons_self ..)⟩

/-- No operator of a graded tree binds less tightly than the one at its root. -/
theorem Graded.le_of_mem_steps (ht : t.Graded) (hk : ∀ o, t.root? = some o → k ≤ o.tier) :
    ∀ step ∈ t.steps, k ≤ step.1.tier := by
  induction t generalizing k with
  | operand e => exact fun _ h => absurd h List.not_mem_nil
  | node op l r ihl ihr =>
    obtain ⟨hl, hr, hleft, hright⟩ := ht
    have hop : k ≤ op.tier := hk op rfl
    rintro step hstep
    rcases List.mem_append.1 hstep with hstep | hstep
    · exact ihl hl (fun o ho => Nat.le_trans hop (hleft o ho)) step hstep
    · rcases List.mem_cons.1 hstep with rfl | hstep
      · exact hop
      · exact ihr hr (fun o ho => Nat.le_trans hop (Nat.le_of_lt (hright o ho))) step hstep

/-- Behind an operator that the rest binds more tightly than, no operator stands that all before
it bind at least as tightly as. -/
theorem ne_append_mark {xs ys ys' zs : List (BinaryOp × Expr)} {a b : BinaryOp × Expr}
    (hys : ∀ y ∈ ys, a.1.tier < y.1.tier)
    (hxs : ∀ x ∈ xs ++ a :: zs, b.1.tier ≤ x.1.tier) :
    ys ≠ zs ++ b :: ys' := by
  rintro rfl
  have hab := hys b (List.mem_append_right _ (List.mem_cons_self ..))
  have hba := hxs a (List.mem_append_right _ (List.mem_cons_self ..))
  omega

/-- The root of a graded tree is told by its operators. -/
theorem split_unique {xs xs' ys ys' : List (BinaryOp × Expr)} {a b : BinaryOp × Expr}
    (hxs : ∀ x ∈ xs, a.1.tier ≤ x.1.tier)
    (hys : ∀ y ∈ ys, a.1.tier < y.1.tier)
    (hxs' : ∀ x ∈ xs', b.1.tier ≤ x.1.tier)
    (hys' : ∀ y ∈ ys', b.1.tier < y.1.tier) (h : xs ++ a :: ys = xs' ++ b :: ys') :
    xs = xs' ∧ a = b ∧ ys = ys' := by
  rcases List.append_eq_append_iff.1 h with ⟨zs, rfl, hrest⟩ | ⟨zs, rfl, hrest⟩
  · cases zs with
    | nil => exact ⟨(List.append_nil _).symm, List.cons.inj hrest⟩
    | cons z zs =>
      obtain ⟨rfl, hys_eq⟩ := List.cons.inj hrest
      exact absurd hys_eq (ne_append_mark hys hxs')
  · cases zs with
    | nil =>
      obtain ⟨hmark, hys_eq⟩ := List.cons.inj hrest
      exact ⟨List.append_nil _, hmark.symm, hys_eq.symm⟩
    | cons z zs =>
      obtain ⟨rfl, hys_eq⟩ := List.cons.inj hrest
      exact absurd hys_eq (ne_append_mark hys' hxs)

/-- A graded tree is told by its first operand and by the operators and operands behind it. -/
theorem Graded.unique (ht : t.Graded) (hu : u.Graded) (hfirst : t.first = u.first)
    (hsteps : t.steps = u.steps) : t = u := by
  induction t generalizing u with
  | operand e =>
    cases u with
    | operand e' => exact congrArg operand hfirst
    | node op l r => simp [steps] at hsteps
  | node op l r ihl ihr =>
    cases u with
    | operand e' => simp [steps] at hsteps
    | node op' l' r' =>
      obtain ⟨hl, hr, hleft, hright⟩ := ht
      obtain ⟨hl', hr', hleft', hright'⟩ := hu
      obtain ⟨hls, hmark, hrs⟩ := split_unique (a := (op, r.first)) (b := (op', r'.first))
        (hl.le_of_mem_steps hleft) (hr.le_of_mem_steps hright) (hl'.le_of_mem_steps hleft')
        (hr'.le_of_mem_steps hright') hsteps
      obtain ⟨rfl, hfirst'⟩ := Prod.mk.inj hmark
      rw [ihl hl hl' hfirst hls, ihr hr hr' hfirst' hrs]

theorem Groups.unique {first : Expr} {steps : List (BinaryOp × Expr)} (ht : t.Groups first steps)
    (hu : u.Groups first steps) : t = u :=
  ht.graded.unique hu.graded (ht.first.trans hu.first.symm) (ht.steps.trans hu.steps.symm)

end Grouping

/-- Tokens that are read as an operand where they stand alone, and that operand. -/
structure Operand where
  tokens : List Lexeme
  expr : Expr
  alone : ∃ limit levels stop p q, stop.isEnd = true ∧
    unary (nested limit levels) ⟨tokens, stop, p⟩ = .ok (expr, ⟨[], stop, q⟩)

/-- The mark of a binary operator and the operand behind it. -/
structure Step where
  mark : Lexeme
  op : BinaryOp
  isOp : binaryOp? mark.token = some op
  operand : Operand

namespace Step

def tokens (s : Step) : List Lexeme := s.mark :: s.operand.tokens

def reading (s : Step) : BinaryOp × Expr := (s.op, s.operand.expr)

end Step

/-- An operand is read with so many levels of nesting wherever no token continues it. -/
def Operand.ReadWithin (o : Operand) (levels : Nat) : Prop :=
  ∀ limit rest last p, ¬ (rest.headD last).Continues → ∃ q,
    unary (nested limit levels) ⟨o.tokens ++ rest, last, p⟩ = .ok (o.expr, ⟨rest, last, q⟩)

theorem Operand.exists_readWithin (o : Operand) : ∃ least, ∀ levels, least ≤ levels →
    o.ReadWithin levels := by
  obtain ⟨limit, least, ⟨token, span, doc, newline⟩, p, q, hstop, halone⟩ := o.alone
  cases token with
  | endOfInput =>
    refine ⟨least, fun levels hlevels limit' rest last p' hfollow => ⟨q, ?_⟩⟩
    have hjoined := unary_joined (s := ⟨span, doc, newline, rest, last⟩) hfollow halone
    have hlevel : KeepsInner (nested limit least) (nested limit' levels) := keeps_nested hlevels
    have hkept := ((keeps_unary hlevel).run _).ok _ hjoined
    cases htokens : o.tokens with
    | nil =>
      rw [htokens] at halone
      cases halone
    | cons l ls =>
      rw [← hkept, htokens]
      exact unary_previous ..
  | _ => cases hstop

variable {inner : Inner} {least : Nat} {left : Expr} {op : BinaryOp} {l r : Lexeme}
  {ls rounds : List Lexeme} {last : Lexeme} {p : Span}

theorem peek_bind {β : Type} (f : Lexeme → ProgramReader β) (c : Cursor) :
    (Reader.peek >>= f) c = f c.peek c := rfl

theorem operators_stop {c : Cursor} (h : binaryOp? c.peek.token = none) :
    operators inner least rounds left c = .ok (left, c) := by
  cases rounds with
  | nil => rfl
  | cons r rounds =>
    rw [operators, peek_bind, h]
    rfl

theorem operators_loose (h : binaryOp? l.token = some op) (hop : op.precedence < least) :
    operators inner least rounds left ⟨l :: ls, last, p⟩ = .ok (left, ⟨l :: ls, last, p⟩) := by
  cases rounds with
  | nil => rfl
  | cons r rounds =>
    rw [operators, peek_bind, show binaryOp? (Cursor.mk (l :: ls) last p).peek.token = _ from h]
    exact congrFun (if_pos hop) _

theorem operators_tight (h : binaryOp? l.token = some op) (hop : least ≤ op.precedence) :
    operators inner least (r :: rounds) left ⟨l :: ls, last, p⟩ = (do
      let right ← inner (.rightOperand (op.precedence + 1))
      operators inner least rounds (.binary (left.span.join right.span) op left right))
        ⟨ls, last, l.span⟩ := by
  rw [operators, peek_bind, show binaryOp? (Cursor.mk (l :: ls) last p).peek.token = _ from h]
  exact congrFun (if_neg (Nat.not_lt.2 hop)) _

theorem not_continues_of_binaryOp (h : binaryOp? l.token = some op) : ¬ l.Continues := by
  have hne {x : Punct} (hx : binaryOp? (.punct x) = none) : l.isPunct x ≠ true := by
    intro hl
    rw [Token.eq_of_isPunct hl, hx] at h
    cases h
  rintro (hl | ⟨-, hl | hl⟩)
  · exact hne rfl hl
  · exact hne rfl hl
  · exact hne rfl hl

/-- What comes of operators behind a tree: those taken bind at least as tightly as asked for, the
first of the rest does not, and the tree over all that is taken is graded. -/
structure Climb (least : Nat) (left : Grouping) (steps taken rest : List Step) (t : Grouping) :
    Prop where
  split : steps = taken ++ rest
  tight : ∀ s ∈ taken, least ≤ s.op.precedence
  loose : ∀ s, rest.head? = some s → s.op.precedence < least
  groups : t.Groups left.first (left.steps ++ taken.map Step.reading)

namespace Climb

variable {tree right t : Grouping} {s : Step} {steps taken taken' rest rest' : List Step}

theorem stop (htree : tree.Graded) (h : ∀ s, steps.head? = some s → s.op.precedence < least) :
    Climb least tree steps [] steps tree :=
  ⟨rfl, fun _ h => absurd h List.not_mem_nil, h, htree, rfl, (List.append_nil _).symm⟩

/-- The operators taken for a right operand bind more tightly than the operator before it. -/
theorem graded (htree : tree.Graded)
    (hleft : ∀ o, tree.root? = some o → op.precedence ≤ o.precedence) {e : Expr}
    (h : Climb (op.precedence + 1) (.operand e) steps taken rest right) :
    (Grouping.node op tree right).Graded := by
  refine ⟨htree, h.groups.graded, fun o ho => ?_, fun o ho => ?_⟩
  · have := hleft o ho
    rw [op.precedence_eq, o.precedence_eq] at this
    exact Nat.le_of_succ_le_succ this
  obtain ⟨e', hmem⟩ := Grouping.exists_mem_steps_of_root ho
  rw [h.groups.steps] at hmem
  obtain ⟨s, hs, heq⟩ := List.mem_map.1 hmem
  cases heq
  have := h.tight s hs
  rw [op.precedence_eq, s.op.precedence_eq] at this
  exact Nat.lt_of_succ_le (Nat.le_of_succ_le_succ this)

theorem step (hleast : least ≤ s.op.precedence)
    (hright : Climb (s.op.precedence + 1) (.operand s.operand.expr) steps taken rest right)
    (hnext : Climb least (.node s.op tree right) rest taken' rest' t) :
    Climb least tree (s :: steps) (s :: taken ++ taken') rest' t where
  split := by simp [hright.split, hnext.split]
  tight x hx := by
    rcases List.mem_append.1 hx with hx | hx
    · rcases List.mem_cons.1 hx with rfl | hx
      · exact hleast
      · have := hright.tight x hx
        omega
    · exact hnext.tight x hx
  loose := hnext.loose
  groups := by
    obtain ⟨hgraded, hfirst, hsteps⟩ := hnext.groups
    refine ⟨hgraded, hfirst, ?_⟩
    rw [hsteps, Grouping.steps, hright.groups.first, hright.groups.steps]
    simp [Step.reading, Grouping.first, Grouping.steps]

end Climb

section

variable {after : List Lexeme} {levels m limit : Nat} {s : Step} {steps : List Step}

/-- What follows an operand does not continue it, be it an operator or what ends them all. -/
theorem not_continues_behind (hend : ¬ (after.headD last).Continues) (steps : List Step) :
    ¬ ((steps.flatMap Step.tokens ++ after).headD last).Continues := by
  cases steps with
  | nil => exact hend
  | cons s steps => exact not_continues_of_binaryOp s.isOp

/-- The loop climbs over the operators in front of what ends them, from any graded tree that may
be the left operand of the first of them that it takes. -/
def Climbs (limit levels : Nat) (after : List Lexeme) (last : Lexeme) (steps : List Step) : Prop :=
  ∀ (least : Nat) (rounds : List Lexeme) (tree : Grouping) (p : Span),
    (steps.flatMap Step.tokens ++ after).length < rounds.length → tree.Graded →
    (∀ s, steps.head? = some s → least ≤ s.op.precedence →
      ∀ o, tree.root? = some o → s.op.precedence ≤ o.precedence) →
    ∃ taken rest t q, Climb least tree steps taken rest t ∧
      operators (nested limit levels) least rounds tree.expr
        ⟨steps.flatMap Step.tokens ++ after, last, p⟩ =
          .ok (t.expr, ⟨rest.flatMap Step.tokens ++ after, last, q⟩)

theorem climbs_nil (hop : binaryOp? (after.headD last).token = none) :
    Climbs limit levels after last [] := by
  intro least rounds tree p _ htree _
  exact ⟨[], [], tree, p, .stop htree (fun _ h => by cases h), operators_stop hop⟩

/-- An operator that is taken: its right operand takes those that bind more tightly, one level
further in, and the loop goes on behind that. -/
theorem climbs_cons (hend : ¬ (after.headD last).Continues)
    (hoperand : s.operand.ReadWithin levels) (hright : Climbs limit levels after last steps)
    (hnext : ∀ rest, rest <:+ steps → Climbs limit (levels + 1) after last rest) :
    Climbs limit (levels + 1) after last (s :: steps) := by
  intro least rounds tree p hrounds htree hroot
  rcases Nat.lt_or_ge s.op.precedence least with hleast | hleast
  · refine ⟨[], s :: steps, tree, p, .stop htree ?_, operators_loose s.isOp hleast⟩
    rintro _ ⟨⟩
    exact hleast
  cases rounds with
  | nil => exact absurd hrounds (Nat.not_lt_zero _)
  | cons r rounds =>
    obtain ⟨q, hunary⟩ := hoperand limit _ last s.mark.span (not_continues_behind hend steps)
    obtain ⟨taken, rest, right, q', hclimb, hread⟩ := hright (s.op.precedence + 1)
      (last :: (steps.flatMap Step.tokens ++ after)) (.operand s.operand.expr) q
      (Nat.lt_succ_self _) trivial (fun _ _ _ _ h => by cases h)
    have hrest : rest <:+ steps := ⟨taken, hclimb.split.symm⟩
    have hshorter : (rest.flatMap Step.tokens ++ after).length < rounds.length := by
      rw [hclimb.split] at hrounds
      simp only [List.flatMap_cons, List.flatMap_append, List.length_append, List.length_cons,
        Step.tokens] at hrounds ⊢
      omega
    have hnode := hclimb.graded htree (hroot s rfl hleast)
    obtain ⟨taken', rest', t, q'', hclimb', hloop⟩ := hnext rest hrest least rounds
      (.node s.op tree right) q' hshorter hnode fun x hx _ o ho => by
        cases ho
        exact Nat.le_of_lt_succ (hclimb.loose x hx)
    refine ⟨s :: taken ++ taken', rest', t, q'', .step hleast hclimb hclimb', ?_⟩
    have hbinary : nested limit (levels + 1) (.rightOperand (s.op.precedence + 1))
        ⟨s.operand.tokens ++ (steps.flatMap Step.tokens ++ after), last, s.mark.span⟩ =
          .ok (right.expr, ⟨rest.flatMap Step.tokens ++ after, last, q'⟩) :=
      bind_eq_ok_iff.2 ⟨_, hunary, hread⟩
    rw [List.flatMap_cons, Step.tokens, List.cons_append, List.cons_append, List.append_assoc,
      operators_tight s.isOp hleast]
    exact bind_eq_ok_iff.2 ⟨_, hbinary, hloop⟩

/-- A level of nesting for each operator is enough. -/
theorem climbs_of_readWithin (limit : Nat) (hop : binaryOp? (after.headD last).token = none)
    (hend : ¬ (after.headD last).Continues)
    (hread : ∀ s ∈ steps, ∀ k, m ≤ k → s.operand.ReadWithin k) :
    ∀ rest, rest <:+ steps → ∀ levels, m + steps.length ≤ levels →
      Climbs limit levels after last rest := by
  induction steps with
  | nil =>
    rintro rest hrest levels -
    rw [List.suffix_nil.1 hrest]
    exact climbs_nil hop
  | cons s steps ih =>
    have ih := ih fun x hx => hread x (List.mem_cons_of_mem _ hx)
    intro rest hrest levels hlevels
    rw [List.length_cons] at hlevels
    rcases List.suffix_cons_iff.1 hrest with rfl | hrest
    · obtain ⟨levels, rfl⟩ : ∃ k, levels = k + 1 := ⟨levels - 1, by omega⟩
      exact climbs_cons hend (hread s (List.mem_cons_self ..) _ (by omega))
        (ih steps List.suffix_rfl _ (by omega)) fun rest hrest => ih rest hrest _ (by omega)
    · exact ih rest hrest _ (by omega)

theorem exists_readWithin_all (steps : List Step) :
    ∃ m, ∀ s ∈ steps, ∀ k, m ≤ k → s.operand.ReadWithin k := by
  induction steps with
  | nil => exact ⟨0, fun _ h => absurd h List.not_mem_nil⟩
  | cons s steps ih =>
    obtain ⟨m, hm⟩ := ih
    obtain ⟨least, hs⟩ := s.operand.exists_readWithin
    refine ⟨max least m, fun x hx k hk => ?_⟩
    rcases List.mem_cons.1 hx with rfl | hx
    · exact hs k (by omega)
    · exact hm x hx k (by omega)

/-- With no bound on how tightly they bind, all operators are taken. -/
theorem binary_of_climbs {first : Operand} (hend : ¬ (after.headD last).Continues)
    (hfirst : first.ReadWithin levels) (hsteps : Climbs limit levels after last steps) (p : Span) :
    ∃ t : Grouping, ∃ q, t.Groups first.expr (steps.map Step.reading) ∧
      binary (nested limit levels) 0
        ⟨first.tokens ++ (steps.flatMap Step.tokens ++ after), last, p⟩ =
          .ok (t.expr, ⟨after, last, q⟩) := by
  obtain ⟨q, hunary⟩ := hfirst limit _ last p (not_continues_behind hend steps)
  obtain ⟨taken, rest, t, q', hclimb, hloop⟩ := hsteps 0
    (last :: (steps.flatMap Step.tokens ++ after)) (.operand first.expr) q (Nat.lt_succ_self _)
    trivial (fun _ _ _ _ h => by cases h)
  obtain rfl : rest = [] := by
    cases rest with
    | nil => rfl
    | cons s rest => exact absurd (hclimb.loose s rfl) (Nat.not_lt_zero _)
  obtain rfl : steps = taken := hclimb.split.trans (List.append_nil _)
  exact ⟨t, q', hclimb.groups, bind_eq_ok_iff.2 ⟨_, hunary, hloop⟩⟩

end

/-- Operands with binary operators between them are read as the one graded tree over them, up to a
token that is no operator and continues no operand, if only enough levels may be nested. -/
theorem binary_groups (first : Operand) (steps : List Step) (after : List Lexeme) (last : Lexeme)
    (hop : binaryOp? (after.headD last).token = none) (hend : ¬ (after.headD last).Continues) :
    ∃ t : Grouping, (∀ u : Grouping, u.Groups first.expr (steps.map Step.reading) ↔ u = t) ∧
      ∃ least, ∀ limit levels p, least ≤ levels → ∃ q,
        binary (nested limit levels) 0
          ⟨first.tokens ++ (steps.flatMap Step.tokens ++ after), last, p⟩ =
            .ok (t.expr, ⟨after, last, q⟩) := by
  obtain ⟨m, hm⟩ := exists_readWithin_all steps
  obtain ⟨k, hfirst⟩ := first.exists_readWithin
  have hread (limit levels : Nat) (p : Span) (hlevels : max k (m + steps.length) ≤ levels) :=
    binary_of_climbs hend (hfirst levels (by omega))
      (climbs_of_readWithin limit hop hend hm steps List.suffix_rfl levels (by omega)) p
  -- the tree does not depend on the levels, as there is only one
  obtain ⟨t, -, ht, -⟩ := hread 0 _ default (Nat.le_refl _)
  refine ⟨t, fun u => ⟨fun hu => hu.unique ht, fun hu => hu ▸ ht⟩, max k (m + steps.length),
    fun limit levels p hlevels => ?_⟩
  obtain ⟨u, q, hu, hloop⟩ := hread limit levels p hlevels
  obtain rfl := hu.unique ht
  exact ⟨q, hloop⟩

def Operand.ofName (text : String) (span : Span)
    (h : ∀ c, word text span c = .ok (.name span text, c)) : Operand where
  tokens := [.mk (.name text) span none false]
  expr := .name span text
  alone := ⟨0, 0, .endAt span, span, span, rfl, bind_eq_ok_iff.2 ⟨_, h _, rfl⟩⟩

theorem binary_groups_and_minus_minus :
    ∃ least, ∀ limit levels p, least ≤ levels → ∃ q,
      binary (nested limit levels) 0
        ⟨[.mk (.name "a") ⟨0, 1⟩ none false, .mk (.punct .and) ⟨2, 4⟩ none false,
          .mk (.name "b") ⟨5, 6⟩ none false, .mk (.punct .minus) ⟨7, 8⟩ none false,
          .mk (.name "c") ⟨9, 10⟩ none false, .mk (.punct .minus) ⟨11, 12⟩ none false,
          .mk (.name "d") ⟨13, 14⟩ none false], .endAt ⟨14, 14⟩, p⟩ =
        .ok (.binary ⟨0, 14⟩ .and (.name ⟨0, 1⟩ "a") (.binary ⟨5, 14⟩ .subtract
          (.binary ⟨5, 10⟩ .subtract (.name ⟨5, 6⟩ "b") (.name ⟨9, 10⟩ "c"))
          (.name ⟨13, 14⟩ "d")), ⟨[], .endAt ⟨14, 14⟩, q⟩) := by
  obtain ⟨t, ht, hread⟩ := binary_groups (.ofName "a" ⟨0, 1⟩ fun _ => rfl)
    [⟨.mk (.punct .and) ⟨2, 4⟩ none false, .and, rfl, .ofName "b" ⟨5, 6⟩ fun _ => rfl⟩,
      ⟨.mk (.punct .minus) ⟨7, 8⟩ none false, .subtract, rfl, .ofName "c" ⟨9, 10⟩ fun _ => rfl⟩,
      ⟨.mk (.punct .minus) ⟨11, 12⟩ none false, .subtract, rfl, .ofName "d" ⟨13, 14⟩ fun _ => rfl⟩]
    [] (.endAt ⟨14, 14⟩) rfl (by rintro (⟨⟨⟩⟩ | ⟨-, ⟨⟨⟩⟩ | ⟨⟨⟩⟩⟩))
  obtain rfl := (ht (.node .and (.operand (.name ⟨0, 1⟩ "a")) (.node .subtract
    (.node .subtract (.operand (.name ⟨5, 6⟩ "b")) (.operand (.name ⟨9, 10⟩ "c")))
    (.operand (.name ⟨13, 14⟩ "d"))))).1
      ⟨by simp +decide [Grouping.Graded], rfl, rfl⟩
  exact hread

end Program

end TypedConfig
