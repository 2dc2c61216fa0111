import TypedConfig.Proofs.Schema.WellFormed
import TypedConfig.Schema.Declaration

/-! # What declarations are read as

Properties of type expressions that the forms of expressions carry from each level of nesting to
the next hold of everything that the readers of declarations give; being well formed is one. The
tokens ahead may be of a class, which the names in expressions then come from. None of the readers
fails for a cycle of names, as a cycle shows only when all sources have been read.
-/

namespace TypedConfig

variable {α β : Type}

theorem bind_eq_ok_iff {ε : Type} {x : Except ε α} {f : α → Except ε β} {b : β} :
    x >>= f = .ok b ↔ ∃ a, x = .ok a ∧ f a = .ok b := by
  cases x with
  | error e => exact ⟨nofun, nofun⟩
  | ok a => exact ⟨fun h => ⟨a, rfl, h⟩, by rintro ⟨_, ⟨⟩, h⟩; exact h⟩

theorem bind_eq_error_iff {ε : Type} {x : Except ε α} {f : α → Except ε β} {e : ε} :
    x >>= f = .error e ↔ x = .error e ∨ ∃ a, x = .ok a ∧ f a = .error e := by
  cases x with
  | error e' =>
    constructor
    · intro h
      cases h
      exact .inl rfl
    · rintro (⟨⟨⟩⟩ | ⟨_, ⟨⟩, _⟩)
      rfl
  | ok a =>
    constructor
    · exact fun h => .inr ⟨a, rfl, h⟩
    · rintro (⟨⟨⟩⟩ | ⟨_, ⟨⟩, h⟩)
      exact h

structure Cursor.Has (K : Lexeme → Prop) (c : Cursor) : Prop where
  last : K c.last
  ahead : ∀ l ∈ c.ahead, K l

namespace Cursor.Has

variable {K : Lexeme → Prop} {c : Cursor}

theorem all (c : Cursor) : c.Has fun _ => True := ⟨trivial, fun _ _ => trivial⟩

theorem peek (h : c.Has K) : K c.peek := by
  obtain ⟨_ | ⟨l, ls⟩, last, previous⟩ := c
  · exact h.last
  · exact h.ahead l List.mem_cons_self

theorem advance (h : c.Has K) : c.advance.Has K := by
  obtain ⟨_ | ⟨l, ls⟩, last, previous⟩ := c
  · exact h
  · exact ⟨h.last, fun m hm => h.ahead m (List.mem_cons_of_mem _ hm)⟩

end Cursor.Has

namespace Declaration

/-- A reader whose results have a property where the tokens are of a class, and which does not fail
for a cycle of names. -/
structure Reads (K : Lexeme → Prop) (m : DeclReader α) (P : α → Prop) : Prop where
  ok : ∀ c a d, c.Has K → m c = .ok (a, d) → P a ∧ d.Has K
  error : ∀ c e name, c.Has K → m c = .error e → e.cause ≠ .cyclicAlias name

/-- A reader about whose results nothing is said. -/
abbrev ReadsAny (K : Lexeme → Prop) (m : DeclReader α) : Prop := Reads K m fun _ => True

variable {K : Lexeme → Prop}

namespace Reads

variable {m : DeclReader α} {P : α → Prop} {Q : β → Prop}

/-- A reader that does not fail. -/
theorem total {f : Cursor → α × Cursor} (h : ∀ c, c.Has K → P (f c).1 ∧ (f c).2.Has K) :
    Reads K (fun c => .ok (f c) : DeclReader α) P :=
  ⟨fun c a d hc hr => by
    have hf : f c = (a, d) := Except.ok.inj hr
    simpa only [hf] using h c hc, nofun⟩

theorem pure {a : α} (h : P a) : Reads K (Pure.pure a : DeclReader α) P :=
  ⟨fun c b d hc hr => by cases hr; exact ⟨h, hc⟩, nofun⟩

theorem fail {cause : SchemaCause} {span : Span} (h : ∀ name, cause ≠ .cyclicAlias name) :
    Reads K (Reader.fail cause span) P :=
  ⟨nofun, fun c e name _ hr => by cases hr; exact h name⟩

theorem bind {f : α → DeclReader β} (h : Reads K m P) (hf : ∀ a, P a → Reads K (f a) Q) :
    Reads K (m >>= f) Q := by
  constructor
  · intro c b d hc hr
    obtain ⟨⟨a, c'⟩, hm, hr⟩ := bind_eq_ok_iff.1 hr
    obtain ⟨ha, hc'⟩ := h.ok c a c' hc hm
    exact (hf a ha).ok c' b d hc' hr
  · intro c e name hc hr
    obtain hm | ⟨⟨a, c'⟩, hm, hr⟩ := bind_eq_error_iff.1 hr
    · exact h.error c e name hc hm
    · obtain ⟨ha, hc'⟩ := h.ok c a c' hc hm
      exact (hf a ha).error c' e name hc' hr

/-- What follows a reader about whose results nothing is said. -/
theorem after {f : α → DeclReader β} (h : ReadsAny K m) (hf : ∀ a, Reads K (f a) Q) :
    Reads K (m >>= f) Q := h.bind fun a _ => hf a

theorem ite {p : Prop} [Decidable p] {n : DeclReader α} (h : p → Reads K m P)
    (hn : ¬ p → Reads K n P) : Reads K (if p then m else n) P := by
  split
  · exact h ‹_›
  · exact hn ‹_›

theorem imp {P' : α → Prop} (h : Reads K m P) (hP : ∀ a, P a → P' a) : Reads K m P' :=
  ⟨fun c a d hc hr => (h.ok c a d hc hr).imp_left (hP a), h.error⟩

theorem any (h : Reads K m P) : ReadsAny K m := h.imp fun _ _ => trivial

theorem result (h : Reads K m P) {c : Cursor} (hc : c.Has K) (a : α)
    (hr : (m c).map Prod.fst = .ok a) : P a := by
  cases hm : m c with
  | error e => rw [hm] at hr; cases hr
  | ok r =>
    rw [hm] at hr
    cases hr
    exact (h.ok c r.1 r.2 hc hm).1

theorem failure (h : Reads K m P) {c : Cursor} (hc : c.Has K) (e : Located SchemaCause)
    (name : String) (hr : (m c).map Prod.fst = .error e) : e.cause ≠ .cyclicAlias name := by
  cases hm : m c with
  | error e' =>
    rw [hm] at hr
    cases hr
    exact h.error c _ name hc hm
  | ok r => rw [hm] at hr; cases hr

end Reads

/-- The next token is of the class. -/
theorem reads_next_token : Reads K (Reader.peek : DeclReader Lexeme) K :=
  .total fun _ h => ⟨h.peek, h⟩

theorem reads_peek : ReadsAny K (Reader.peek : DeclReader Lexeme) := reads_next_token.any

theorem reads_next : ReadsAny K (Reader.next : DeclReader Lexeme) :=
  .total fun _ h => ⟨trivial, h.advance⟩

theorem reads_previous : ReadsAny K (Reader.previous : DeclReader Span) :=
  .total fun _ h => ⟨trivial, h⟩

theorem reads_rounds : ReadsAny K (Reader.rounds : DeclReader (List Lexeme)) :=
  .total fun _ h => ⟨trivial, h⟩

theorem reads_atEnd : ReadsAny K (Reader.atEnd : DeclReader Bool) :=
  .total fun _ h => ⟨trivial, h⟩

theorem reads_atPunct (p : Punct) : ReadsAny K (Reader.atPunct p : DeclReader Bool) :=
  .total fun _ h => ⟨trivial, h⟩

theorem reads_punctAt (n : Nat) (p : Punct) :
    ReadsAny K (Reader.punctAt n p : DeclReader Bool) := .total fun _ h => ⟨trivial, h⟩

theorem reads_skipPuncts (ps : List Punct) :
    ReadsAny K (Reader.skipPuncts ps : DeclReader Unit) := by
  refine .total fun c h => ⟨trivial, ?_⟩
  have hgo (ls : List Lexeme) (c : Cursor) (h : c.Has K) :
      (Reader.skipPuncts.go ps ls c).Has K := by
    induction ls generalizing c with
    | nil => exact h
    | cons l ls ih =>
      rw [Reader.skipPuncts.go]
      split
      · exact ih _ h.advance
      · exact h
  exact hgo c.ahead c h

theorem reads_eatPunct (p : Punct) : ReadsAny K (Reader.eatPunct p : DeclReader Bool) := by
  constructor
  · intro c a d hc h
    unfold Reader.eatPunct Cursor.eatPunct? at h
    split at h
    · rename_i hsome
      split at hsome
      · cases hsome
        cases h
        exact ⟨trivial, hc.advance⟩
      · cases hsome
    · cases h
      exact ⟨trivial, hc⟩
  · intro c e name _ h
    unfold Reader.eatPunct at h
    split at h <;> cases h

theorem reads_eatName (word : String) : ReadsAny K (Reader.eatName word : DeclReader Bool) := by
  constructor
  · intro c a d hc h
    unfold Reader.eatName Cursor.eatName? at h
    split at h
    · rename_i hsome
      split at hsome
      · cases hsome
        cases h
        exact ⟨trivial, hc.advance⟩
      · cases hsome
    · cases h
      exact ⟨trivial, hc⟩
  · intro c e name _ h
    unfold Reader.eatName at h
    split at h <;> cases h

theorem reads_expectedBut (what : String) (P : α → Prop) : Reads K (expectedBut what) P :=
  .after reads_peek fun _ => .fail nofun

theorem reads_expect (p : Punct) : ReadsAny K (expect p) :=
  .after (reads_eatPunct p) fun _ =>
    .ite (fun _ => reads_previous) fun _ => reads_expectedBut ..

def Names (K : Lexeme → Prop) (text : String) : Prop := ∃ l, K l ∧ l.token = .name text

theorem reads_name (what : String) : Reads K (expectName what) fun r => Names K r.1 := by
  refine reads_next_token.bind fun l hl => ?_
  split
  · exact .after reads_next fun _ => .pure ⟨l, hl, ‹_›⟩
  · exact reads_expectedBut ..

theorem reads_expectName (what : String) : ReadsAny K (expectName what) := (reads_name what).any

theorem reads_endStatement : ReadsAny K endStatement :=
  .after (reads_eatPunct _) fun _ => .pure trivial

theorem reads_literalValue : ReadsAny K literalValue := by
  refine .after (reads_eatPunct _) fun negative => .after reads_next fun l => ?_
  split
  · exact .pure trivial
  · exact .pure trivial
  · exact .pure trivial
  · exact .ite (fun _ => .pure trivial) fun _ => .ite (fun _ => .pure trivial) fun _ => .fail nofun

def typeWords : List String :=
  ["string", "number", "boolean", "true", "false", "Array", "OneOrMany"] ++ excludedNames

/-- A property that expressions of one form carry from the expressions of the level inside, with
the property that their unions have in turn. -/
structure Carries (K : Lexeme → Prop) (inside plain whole : TyTerm → Prop) : Prop where
  scalar : ∀ kind, plain (.scalar kind)
  literal : ∀ value, plain (.literal value)
  reference : ∀ r, Names K r.name → r.name ∉ typeWords → plain (.reference r)
  record : ∀ owner fields, (fields.map fun f : FieldInfo × TyTerm => f.1.name).Nodup →
    (∀ f ∈ fields, inside f.2) → plain (.record owner fields)
  map : ∀ key t, Names K key → inside t → plain (.map key t)
  element : ∀ t single, inside t → plain (.sequence t single)
  group : ∀ t, inside t → plain t
  bracketed : ∀ t, plain t → plain (.sequence t false)
  union : ∀ t ts, plain t → (∀ u ∈ ts, plain u) → whole (.ofAlternatives (t :: ts))

variable {inner : DeclReader TyTerm} {inside plain whole : TyTerm → Prop}

theorem reads_indexSignature (h : Reads K inner inside) :
    Reads K (indexSignature inner) fun r => Names K r.1 ∧ inside r.2 := by
  refine (reads_name _).bind fun (key, _) hkey => .after (reads_expect _) fun _ => ?_
  extract_lets rest
  have hrest (u : Unit) : Reads K (rest u) fun r => Names K r.1 ∧ inside r.2 :=
    .after (reads_expect _) fun _ => .after (reads_expect _) fun _ =>
      h.bind fun t ht => .pure ⟨hkey, ht⟩
  refine .after (reads_eatName _) fun _ => .ite (fun _ => ?_) fun _ => hrest ()
  exact .after reads_peek fun _ => .after (.fail nofun) hrest

theorem reads_fieldTerm (h : Reads K inner inside) :
    Reads K (fieldTerm inner) fun f => inside f.2 := by
  refine .after reads_next fun l => ?_
  extract_lets rest
  have hrest (name : String) : Reads K (rest name) fun f => inside f.2 :=
    .after (reads_eatPunct _) fun _ => .after (reads_expect _) fun _ =>
      h.bind fun t ht => .pure ht
  split
  · exact .after (.pure trivial) hrest
  · exact .after (.pure trivial) hrest
  · exact .after (.fail nofun) hrest

/-- Members that may stand in one type expression. -/
structure MembersOk (K : Lexeme → Prop) (inside : TyTerm → Prop)
    (fields : List (FieldInfo × TyTerm)) (index : Option (String × TyTerm)) : Prop where
  unique : (fields.map fun f => f.1.name).Nodup
  terms : ∀ f ∈ fields, inside f.2
  index : ∀ s ∈ index, Names K s.1 ∧ inside s.2

theorem MembersOk.nil : MembersOk K inside [] none := ⟨.nil, nofun, nofun⟩

theorem reads_ofMembers (hc : Carries K inside plain whole) (owner : Option String) (brace : Span)
    {fields : List (FieldInfo × TyTerm)} {index : Option (String × TyTerm)}
    (h : MembersOk K inside fields index) : Reads K (ofMembers owner brace fields index) plain := by
  unfold ofMembers
  split
  · exact .pure (hc.record _ _ h.unique h.terms)
  · exact .pure (hc.map _ _ (h.index _ rfl).1 (h.index _ rfl).2)
  · exact .fail nofun

theorem MembersOk.append {fields : List (FieldInfo × TyTerm)} {index : Option (String × TyTerm)}
    (h : MembersOk K inside fields index) {info : FieldInfo} {t : TyTerm} (ht : inside t)
    (hnew : ¬ (fields.any fun f => f.1.name == info.name) = true) :
    MembersOk K inside (fields ++ [(info, t)]) index where
  unique := by
    rw [List.map_append, List.nodup_append]
    refine ⟨h.unique, List.pairwise_singleton .., fun a ha b hb => ?_⟩
    rintro rfl
    obtain ⟨f, hf, hname⟩ := List.mem_map.1 ha
    have heq : f.1.name = info.name := hname.trans (List.mem_singleton.1 hb)
    exact hnew (List.any_eq_true.2 ⟨f, hf, beq_iff_eq.2 heq⟩)
  terms := List.forall_mem_append.2 ⟨h.terms, List.forall_mem_singleton.2 ht⟩
  index := h.index

theorem reads_members (hc : Carries K inside plain whole) (h : Reads K inner inside)
    (owner : Option String) (brace : Span) (rounds : List Lexeme)
    {fields : List (FieldInfo × TyTerm)} {index : Option (String × TyTerm)}
    (hm : MembersOk K inside fields index) :
    Reads K (members inner owner brace rounds fields index) plain := by
  induction rounds generalizing fields index with
  | nil => exact reads_ofMembers hc owner brace hm
  | cons l rounds ih =>
    refine .after (reads_skipPuncts _) fun _ => .after (reads_eatPunct _) fun _ => ?_
    refine .ite (fun _ => reads_ofMembers hc owner brace hm) fun _ => .after reads_atEnd fun _ => ?_
    refine .ite (fun _ => .fail nofun) fun _ => .after (reads_eatPunct _) fun _ => .ite ?_ ?_
    · intro _
      refine .after reads_previous fun _ => (reads_indexSignature h).bind fun s hs => ?_
      refine .ite (fun _ => .fail nofun) fun _ => ih ⟨hm.unique, hm.terms, fun t ht => ?_⟩
      cases ht
      exact hs
    · intro _
      refine (reads_fieldTerm h).bind fun f hf => ?_
      exact .ite (fun _ => .fail nofun) fun hnew => ih (hm.append hf hnew)

theorem reads_namedTerm (hc : Carries K inside plain whole) (h : Reads K inner inside)
    {word : String} (hw : Names K word) (span : Span) :
    Reads K (namedTerm inner word span) plain := by
  refine .ite (fun _ => .pure (hc.scalar _)) fun h1 => ?_
  refine .ite (fun _ => .pure (hc.scalar _)) fun h2 => ?_
  refine .ite (fun _ => .pure (hc.scalar _)) fun h3 => ?_
  refine .ite (fun _ => .pure (hc.literal _)) fun h4 => ?_
  refine .ite (fun _ => .pure (hc.literal _)) fun h5 => .ite (fun _ => ?_) fun h6 => ?_
  · exact .after (reads_expect _) fun _ => h.bind fun t ht =>
      .after (reads_expect _) fun _ => .pure (hc.element _ _ ht)
  · refine .ite (fun _ => .fail nofun) fun h7 => .after (reads_atPunct _) fun _ => ?_
    refine .ite (fun _ => .fail nofun) fun _ => .pure (hc.reference _ hw ?_)
    simp only [Bool.or_eq_true, not_or, beq_iff_eq, List.contains_iff_mem] at h1 h2 h3 h4 h5 h6 h7
    simp only [typeWords, List.mem_append, List.mem_cons, List.not_mem_nil, or_false, not_or]
    exact ⟨⟨h1, h2, h3, h4, h5, h6⟩, h7⟩

theorem reads_primary (hc : Carries K inside plain whole) (h : Reads K inner inside) :
    Reads K (primary inner) plain := by
  have hliteral : Reads K (do return .literal (← literalValue)) plain :=
    .after reads_literalValue fun v => .pure (hc.literal v)
  refine reads_next_token.bind fun l hl => ?_
  split
  · exact .after reads_next fun _ => h.bind fun t ht => .after (reads_expect _) fun _ =>
      .pure (hc.group t ht)
  · refine .after reads_next fun _ => .after reads_rounds fun rounds => ?_
    exact reads_members hc h _ _ _ .nil
  · exact hliteral
  · exact hliteral
  · exact hliteral
  · exact .after reads_next fun _ => reads_namedTerm hc h ⟨l, hl, ‹_›⟩ _
  · exact reads_expectedBut ..

theorem reads_bracketed (hc : Carries K inside plain whole) (rounds : List Lexeme) {t : TyTerm}
    (ht : plain t) : Reads K (bracketed rounds t) plain := by
  induction rounds generalizing t with
  | nil => exact .pure ht
  | cons l rounds ih =>
    refine .after (reads_atPunct _) fun _ => .after (reads_punctAt ..) fun _ => ?_
    refine .ite (fun _ => ?_) fun _ => .pure ht
    exact .after reads_next fun _ => .after reads_next fun _ => ih (hc.bracketed t ht)

theorem reads_alternative (hc : Carries K inside plain whole) (h : Reads K inner inside) :
    Reads K (alternative inner) plain :=
  .after reads_rounds fun _ => (reads_primary hc h).bind fun _ ht => reads_bracketed hc _ ht

theorem reads_alternatives (hc : Carries K inside plain whole) (h : Reads K inner inside)
    (rounds : List Lexeme) :
    Reads K (alternatives inner rounds) fun ts => ∀ t ∈ ts, plain t := by
  induction rounds with
  | nil => exact .pure nofun
  | cons l rounds ih =>
    refine .after (reads_eatPunct _) fun _ => .ite (fun _ => ?_) fun _ => .pure nofun
    exact (reads_alternative hc h).bind fun t ht => ih.bind fun ts hts =>
      .pure (List.forall_mem_cons.2 ⟨ht, hts⟩)

theorem reads_unionTerm (hc : Carries K inside plain whole) (h : Reads K inner inside) :
    Reads K (unionTerm inner) whole := by
  refine .after (reads_eatPunct _) fun _ => (reads_alternative hc h).bind fun t ht => ?_
  exact .after reads_rounds fun rounds => (reads_alternatives hc h rounds).bind fun ts hts =>
    .pure (hc.union t ts ht hts)

/-- A type expression has the property of its level. -/
theorem reads_typeTerm {P plain : Nat → TyTerm → Prop}
    (hc : ∀ n, Carries K (P n) (plain n) (P (n + 1))) (limit levels : Nat) :
    Reads K (typeTerm limit levels) (P levels) := by
  induction levels with
  | zero => exact ⟨nofun, fun c e name h => by cases h; exact nofun⟩
  | succ n ih => exact ⟨(reads_unionTerm (hc n) ih).ok, (reads_unionTerm (hc n) ih).error⟩

def BodyHas (P : TyTerm → Prop) : Declaration → Prop
  | type _ body .. | root _ body _ => P body
  | constant .. => True

variable {term : DeclReader TyTerm}

theorem reads_interface (hc : Carries K inside plain whole) (h : Reads K term inside)
    (doc : Option String) : Reads K (interface term doc) (BodyHas plain) := by
  refine .after (reads_expectName _) fun _ => .after reads_peek fun l => ?_
  extract_lets rest
  have hrest (u : Unit) : Reads K (rest u) (BodyHas plain) :=
    .after (reads_expect _) fun _ => .after reads_rounds fun rounds =>
      (reads_members hc h _ _ _ .nil).bind fun body hb => .pure hb
  exact .ite (fun _ => .after (.fail nofun) hrest) fun _ => hrest ()

theorem reads_typeAlias (hc : Carries K inside plain whole) (h : Reads K term inside)
    (doc : Option String) : Reads K (typeAlias term doc) (BodyHas plain) :=
  .after (reads_expectName _) fun _ => .after (reads_expect _) fun _ => h.bind fun _ hb =>
    .after reads_endStatement fun _ => .pure (hc.group _ hb)

theorem reads_typedConstant (h : Reads K term inside) : ReadsAny K (typedConstant term) := by
  refine .after reads_peek fun _ => .after h.any fun t => ?_
  split
  · exact .pure trivial
  · exact .after reads_previous fun _ => .fail nofun

theorem reads_constantDeclaration (h : Reads K term inside) :
    Reads K (constantDeclaration term) (BodyHas plain) := by
  have hvalue : ReadsAny K (constantValue term) := by
    refine .after (reads_eatPunct _) fun _ => .ite (fun _ => reads_literalValue) fun _ => ?_
    refine .after (reads_eatPunct _) fun _ => .ite (fun _ => reads_typedConstant h) fun _ => ?_
    exact .after reads_peek fun _ => .fail nofun
  exact .after (reads_expectName _) fun _ => .after hvalue fun _ =>
    .after reads_endStatement fun _ => .pure trivial

theorem reads_rootDeclaration (hc : Carries K inside plain whole) (h : Reads K term inside)
    (earlier : Option String) : Reads K (rootDeclaration term earlier) (BodyHas plain) := by
  refine .after (reads_expectName _) fun _ => .after (reads_expect _) fun _ => ?_
  refine h.bind fun body hb => .after reads_endStatement fun _ => ?_
  have hbody : plain body := hc.group body hb
  split
  · exact .ite (fun _ => .pure hbody) fun _ => .fail nofun
  · exact .pure hbody

theorem reads_importPath : ReadsAny K importPath := by
  refine .after reads_next fun l => ?_
  split
  · exact reads_endStatement
  · exact .after reads_peek fun _ => .fail nofun

theorem reads_statement (hc : Carries K inside plain whole) (h : Reads K term inside)
    (earlier : Option String) :
    Reads K (statement term earlier) fun r => ∀ d ∈ r, d.BodyHas plain := by
  have hsome {m : DeclReader Declaration} (hm : Reads K m (BodyHas plain)) :
      Reads K (do return some (← m)) fun r => ∀ d ∈ r, d.BodyHas plain :=
    hm.bind fun d hd => .pure (by rintro _ ⟨⟩; exact hd)
  have hroot := hsome (reads_rootDeclaration hc h earlier)
  refine .after reads_peek fun _ => .after (reads_eatName _) fun _ => .after (reads_eatName _) ?_
  intro isInterface
  refine .ite (fun _ => hsome (reads_interface hc h _)) fun _ => .after (reads_eatName _) ?_
  intro isType
  refine .ite (fun _ => hsome (reads_typeAlias hc h _)) fun _ => .after (reads_eatName _) ?_
  intro isDeclare
  refine .ite (fun _ => .after (reads_eatName _) fun _ => ?_) fun _ =>
    .after (reads_eatName _) fun _ => ?_
  · refine .ite (fun _ => hsome (reads_constantDeclaration h)) fun _ =>
      .after (reads_eatName _) fun _ => .ite (fun _ => hroot) fun _ =>
        .after (reads_eatName _) fun _ => .ite (fun _ => hroot) fun _ => ?_
    exact .after reads_peek fun _ => .fail nofun
  · exact .ite (fun _ => .after reads_importPath fun _ => .pure nofun) fun _ =>
      reads_expectedBut ..

theorem reads_statements (hc : Carries K inside plain whole) (h : Reads K term inside)
    (earlier : Option String) {done : List Declaration} (hd : ∀ d ∈ done, d.BodyHas plain)
    (rounds : List Lexeme) :
    Reads K (statements term earlier done rounds) fun ds => ∀ d ∈ ds, d.BodyHas plain := by
  have hdone : ∀ d ∈ done.reverse, d.BodyHas plain := fun d hm => hd d (List.mem_reverse.1 hm)
  induction rounds generalizing earlier done with
  | nil => exact .pure hdone
  | cons l rounds ih =>
    refine .after (reads_skipPuncts _) fun _ => .after reads_atEnd fun _ => ?_
    refine .ite (fun _ => .pure hdone) fun _ => (reads_statement hc h earlier).bind fun r hr => ?_
    cases r with
    | none => exact ih earlier hd hdone
    | some d =>
      have hd' : ∀ x ∈ d :: done, x.BodyHas plain := List.forall_mem_cons.2 ⟨hr d rfl, hd⟩
      exact ih _ hd' fun x hm => hd' x (List.mem_reverse.1 hm)

theorem reads_all {P plain : Nat → TyTerm → Prop}
    (hc : ∀ n, Carries K (P n) (plain n) (P (n + 1))) (maxDepth : Nat) (rounds : List Lexeme) :
    Reads K (statements (typeTerm maxDepth maxDepth) none [] rounds) fun ds =>
      ∀ d ∈ ds, d.BodyHas (plain maxDepth) :=
  reads_statements (hc maxDepth) (reads_typeTerm hc maxDepth maxDepth) none (by simp) rounds

theorem carries_wellFormed :
    Carries K TyTerm.WellFormed TyTerm.WellFormed TyTerm.WellFormed where
  scalar := .scalar
  literal := .literal
  reference r _ _ := .reference r
  record _ _ unique terms := .record unique terms
  map _ _ _ h := .map h
  element _ _ h := .sequence h
  group _ h := h
  bracketed _ h := .sequence h
  union _ _ h hs := .ofAlternatives h hs

def WellFormed : Declaration → Prop
  | type _ body .. | root _ body _ => body.WellFormed
  | constant .. => True

theorem BodyHas.wellFormed : ∀ {d : Declaration}, d.BodyHas TyTerm.WellFormed → d.WellFormed
  | type .., h | root .., h | constant .., h => h

variable {maxDepth : Nat} {tokens : List Lexeme}

/-- The declarations of a list of tokens are well formed. -/
theorem wellFormed_of_ofTokens {ds : List Declaration} (h : ofTokens maxDepth tokens = .ok ds) :
    ∀ d ∈ ds, d.WellFormed := fun d hd =>
  ((reads_all (K := fun _ => True) (fun _ => carries_wellFormed) maxDepth _).result (.all _) _ h
    d hd).wellFormed

theorem cause_of_ofTokens {e : Located SchemaCause} (h : ofTokens maxDepth tokens = .error e)
    (name : String) : e.cause ≠ .cyclicAlias name :=
  (reads_all (K := fun _ => True) (fun _ => carries_wellFormed) maxDepth _).failure
    (.all _) _ name h

end Declaration

end TypedConfig
