import TypedConfig.Proofs.Layout.Tokens
import TypedConfig.Proofs.Limits.Keeps

/-! # The nesting of templates

How deep templates stand inside each other's holes is read off the tokens. A source that has
tokens within some limit has the same within any limit that their nesting does not pass, and none
within a lower one. So sources with the same tokens up to layout meet the limit together.
-/

namespace TypedConfig

mutual

/-- The number of templates that stand inside each other, the outermost included. -/
def Token.nesting : Token → Nat
  | .template pieces => Piece.nestingAll pieces + 1
  | .name _ | .string _ | .number _ | .punct _ | .endOfInput => 0

def Piece.nestingAll : List Piece → Nat
  | [] => 0
  | .text _ :: ps => Piece.nestingAll ps
  | .hole tokens :: ps => max (Lexeme.nestingAll tokens) (Piece.nestingAll ps)

def Lexeme.nestingAll : List Lexeme → Nat
  | [] => 0
  | .mk t _ _ _ :: ls => max t.nesting (Lexeme.nestingAll ls)

end

mutual

theorem Token.nesting_bare (lines : Bool) : ∀ t : Token, (t.bare lines).nesting = t.nesting
  | .template pieces => congrArg (· + 1) (Piece.nestingAll_bareAll lines pieces)
  | .name _ | .string _ | .number _ | .punct _ | .endOfInput => rfl

theorem Piece.nestingAll_bareAll (lines : Bool) : ∀ ps : List Piece,
    Piece.nestingAll (Piece.bareAll lines ps) = Piece.nestingAll ps
  | [] => rfl
  | .text _ :: ps => Piece.nestingAll_bareAll lines ps
  | .hole tokens :: ps => by
    rw [Piece.bareAll, Piece.nestingAll, Piece.nestingAll, Lexeme.nestingAll_bareAll lines tokens,
      Piece.nestingAll_bareAll lines ps]

theorem Lexeme.nestingAll_bareAll (lines : Bool) : ∀ ls : List Lexeme,
    Lexeme.nestingAll (Lexeme.bareAll lines ls) = Lexeme.nestingAll ls
  | [] => rfl
  | .mk t _ _ _ :: ls => by
    rw [Lexeme.bareAll, Lexeme.nestingAll, Lexeme.nestingAll, t.nesting_bare lines,
      Lexeme.nestingAll_bareAll lines ls]

end

def Piece.nesting : Piece → Nat
  | .text _ => 0
  | .hole tokens => Lexeme.nestingAll tokens

theorem Lexeme.nestingAll_le_iff {ls : List Lexeme} {n : Nat} :
    nestingAll ls ≤ n ↔ ∀ l ∈ ls, l.token.nesting ≤ n := by
  induction ls with
  | nil => simp [nestingAll]
  | cons l ls ih =>
    obtain ⟨t, s, d, b⟩ := l
    rw [nestingAll, Nat.max_le, ih, List.forall_mem_cons]
    rfl

theorem Piece.nestingAll_le_iff {ps : List Piece} {n : Nat} :
    nestingAll ps ≤ n ↔ ∀ p ∈ ps, p.nesting ≤ n := by
  induction ps with
  | nil => simp [nestingAll]
  | cons p ps ih =>
    cases p with
    | text s => rw [nestingAll, ih, List.forall_mem_cons]; simp [nesting]
    | hole tokens => rw [nestingAll, Nat.max_le, ih, List.forall_mem_cons]; rfl

theorem Lexeme.nesting_le_of_mem {l : Lexeme} {ls : List Lexeme} (h : l ∈ ls) :
    l.token.nesting ≤ nestingAll ls := nestingAll_le_iff.1 (Nat.le_refl _) l h

theorem Piece.nesting_le_of_mem {p : Piece} {ps : List Piece} (h : p ∈ ps) :
    p.nesting ≤ nestingAll ps := nestingAll_le_iff.1 (Nat.le_refl _) p h

theorem Lexeme.nesting_of_isPunct {l : Lexeme} {p : Punct} (h : l.isPunct p = true) :
    l.token.nesting = 0 := by
  obtain ⟨t, s, d, b⟩ := l
  cases t <;> first | rfl | cases h

variable {α β : Type} {n : Nat}

/-- The second computation gives what the first gives if that is nested at most so deep, and
fails if it is nested deeper. -/
structure Restricts (nesting : α → Nat) (n : Nat) (x y : Except LexError α) : Prop where
  ok : ∀ a, x = .ok a → nesting a ≤ n → y = .ok a
  error : ∀ a, x = .ok a → n < nesting a → ∃ e, y = .error e

namespace Restricts

variable {nesting : α → Nat} {depth : β → Nat} {x y : Except LexError α}

theorem refl (h : ∀ a, x = .ok a → nesting a ≤ n) : Restricts nesting n x x :=
  ⟨fun _ hx _ => hx, fun a hx hn => absurd (h a hx) (Nat.not_le.2 hn)⟩

theorem of_error (e : LexError) : Restricts nesting n (.error e) y := ⟨nofun, nofun⟩

/-- What follows results whose nesting is part of that of what follows. -/
theorem bind {f g : α → Except LexError β} (h : Restricts nesting n x y)
    (hf : ∀ a, nesting a ≤ n → Restricts depth n (f a) (g a))
    (hle : ∀ a b, f a = .ok b → nesting a ≤ depth b) :
    Restricts depth n (x >>= f) (y >>= g) := by
  cases x with
  | error e => exact of_error e
  | ok a =>
    by_cases hn : nesting a ≤ n
    · rw [h.ok a rfl hn]
      exact hf a hn
    · obtain ⟨e, he⟩ := h.error a rfl (Nat.not_le.1 hn)
      rw [he]
      refine ⟨fun b hb hd => ?_, fun b hb hd => ⟨e, rfl⟩⟩
      exact absurd (Nat.le_trans (hle a b hb) hd) hn

/-- What follows the same computation. -/
theorem after {f g : α → Except LexError β} (hf : ∀ a, Restricts depth n (f a) (g a)) :
    Restricts depth n (x >>= f) (x >>= g) := by
  cases x with
  | error e => exact of_error e
  | ok a => exact hf a

theorem map (h : Restricts nesting n x y) {f : α → β} (hf : ∀ a, depth (f a) = nesting a) :
    Restricts depth n (x.map f) (y.map f) := by
  cases x with
  | error e => exact of_error e
  | ok a =>
    constructor
    · rintro _ ⟨⟩ hn
      rw [h.ok a rfl (hf a ▸ hn)]
      rfl
    · rintro _ ⟨⟩ hn
      obtain ⟨e, rfl⟩ := h.error a rfl (hf a ▸ hn)
      exact ⟨e, rfl⟩

end Restricts

namespace Lexer

variable {t t' : TemplateReader}

/-- The second reader of templates restricts the first to a nesting. -/
def RestrictsTemplates (n : Nat) (t t' : TemplateReader) : Prop :=
  ∀ start p, Restricts (fun r => Piece.nestingAll r.1 + 1) n (t start p) (t' start p)

theorem restricts_bareToken (h : RestrictsTemplates n t t') (p : Position) :
    Restricts (fun r => r.1.nesting) n (bareToken t p) (bareToken t' p) := by
  have hflat {x : Except LexError (Token × Position)}
      (hx : ∀ a, x = .ok a → a.1.nesting = 0) : Restricts (fun r => r.1.nesting) n x x :=
    .refl fun a ha => hx a ha ▸ Nat.zero_le n
  unfold bareToken
  split
  · exact hflat fun _ ha => by cases ha; rfl
  · dsimp only
    split
    · refine hflat fun _ ha => ?_
      cases hs : string _ p.offset [] (p.skip 1) with
      | error e => rw [hs] at ha; cases ha
      | ok r => rw [hs] at ha; cases ha; rfl
    · split
      · exact (h _ _).map fun _ => rfl
      · refine hflat fun _ ha => ?_
        repeat' split at ha
        all_goals cases ha <;> rfl

theorem restricts_lexeme (h : RestrictsTemplates n t t') (p : Position) :
    Restricts (fun r => r.1.token.nesting) n (lexeme t p) (lexeme t' p) :=
  .after fun _ => (restricts_bareToken h _).bind
    (fun _ ha => .refl fun _ hb => by cases hb; exact ha)
    fun _ _ hb => by cases hb; exact Nat.le_refl _

/-- What has been read stays part of the tokens of a hole. -/
theorem mem_hole {start depth : Nat} {tokens ts : List Lexeme} {rounds : List Char}
    {p q : Position} (h : hole t start depth tokens rounds p = .ok (ts, q)) {l : Lexeme}
    (hl : l ∈ tokens) : l ∈ ts := by
  rw [hole_eq] at h
  cases hx : lexeme t p with
  | error e => rw [hx] at h; cases h
  | ok r =>
    rw [hx] at h
    change (if _ then _ else _) = _ at h
    split at h
    · cases h; simp [hl]
    · match r.1.isEnd, rounds, h with
      | false, _ :: rounds, h => exact mem_hole h (List.mem_cons_of_mem _ hl)
      | false, [], h | true, _, h => cases h

theorem restricts_hole (h : RestrictsTemplates n t t') (start depth : Nat)
    (tokens : List Lexeme) (ht : ∀ l ∈ tokens, l.token.nesting ≤ n) (rounds : List Char)
    (p : Position) :
    Restricts (fun r => Lexeme.nestingAll r.1) n (hole t start depth tokens rounds p)
      (hole t' start depth tokens rounds p) := by
  rw [hole_eq, hole_eq]
  refine (restricts_lexeme h p).bind (fun (l, q) hl => ?_) fun (l, q) (ts, q') hts => ?_
  · dsimp only at hl ⊢
    split
    · refine .refl fun _ ha => ?_
      cases ha
      have hall : ∀ m ∈ Lexeme.endAt l.span :: tokens, m.token.nesting ≤ n :=
        List.forall_mem_cons.2 ⟨Nat.zero_le n, ht⟩
      exact Lexeme.nestingAll_le_iff.2 fun l hl => hall l (List.mem_reverse.1 hl)
    · match l.isEnd, rounds with
      | false, _ :: rounds =>
        exact restricts_hole h start _ (l :: tokens) (List.forall_mem_cons.2 ⟨hl, ht⟩) rounds q
      | false, [] | true, _ => exact .of_error _
  · dsimp only at hts ⊢
    split at hts
    · next hp => rw [Lexeme.nesting_of_isPunct hp.1]; exact Nat.zero_le _
    · match l.isEnd, rounds, hts with
      | false, _ :: rounds, hts =>
        exact Lexeme.nesting_le_of_mem (mem_hole hts List.mem_cons_self)
      | false, [], hts | true, _, hts => cases hts

theorem mem_flush (text : List Char) {done : List Piece} {x : Piece} (h : x ∈ done) :
    x ∈ flush text done := by
  unfold flush
  split
  · exact h
  · exact List.mem_cons_of_mem _ h

theorem forall_mem_flush {text : List Char} {done : List Piece}
    (h : ∀ x ∈ done, x.nesting ≤ n) : ∀ x ∈ flush text done, x.nesting ≤ n := by
  unfold flush
  split
  · exact h
  · exact List.forall_mem_cons.2 ⟨Nat.zero_le n, h⟩

/-- What has been read stays part of a template. -/
theorem mem_pieces {start : Nat} {text : List Char} {done ps : List Piece} {rounds : List Char}
    {p q : Position} (h : pieces t start text done rounds p = .ok (ps, q)) {x : Piece}
    (hx : x ∈ done) : x ∈ ps := by
  induction rounds generalizing text done p with
  | nil =>
    unfold pieces at h
    split at h
    · cases h
      have hmem := mem_flush text hx
      split <;> simp_all
    · contradiction
    · cases h
  | cons r rounds ih =>
    unfold pieces at h
    split at h
    · cases h
      have hmem := mem_flush text hx
      split <;> simp_all
    · rename_i hr
      cases hr
      split at h
      · split at h
        · exact ih h hx
        · cases h
      · split at h
        · split at h
          · exact ih h (List.mem_cons_of_mem _ (mem_flush _ hx))
          · cases h
        · exact ih h hx
    · cases h

theorem restricts_pieces (h : RestrictsTemplates n t t') (start : Nat) (text : List Char)
    (done : List Piece) (hd : ∀ x ∈ done, x.nesting ≤ n) (rounds : List Char) (p : Position) :
    Restricts (fun r => Piece.nestingAll r.1) n (pieces t start text done rounds p)
      (pieces t' start text done rounds p) := by
  have hclose {text : List Char} {done : List Piece} (hd : ∀ x ∈ done, x.nesting ≤ n)
      (q : Position) : Restricts (fun r : List Piece × Position => Piece.nestingAll r.1) n
        (.ok (if (flush text done).isEmpty then [.text ""] else (flush text done).reverse, q))
        (.ok (if (flush text done).isEmpty then [.text ""] else (flush text done).reverse, q)) := by
    refine .refl fun _ ha => ?_
    cases ha
    dsimp only
    split
    · exact Nat.zero_le n
    · exact Piece.nestingAll_le_iff.2 fun x hx => forall_mem_flush hd x (List.mem_reverse.1 hx)
  induction rounds generalizing text done p with
  | nil =>
    unfold pieces
    split
    · exact hclose hd _
    · contradiction
    · exact .of_error _
  | cons r rounds ih =>
    unfold pieces
    split
    · exact hclose hd _
    · rename_i c cs _ _ _ _ hr
      cases hr
      split
      · cases escape p.offset (p.skip 1) with
        | error e => exact .of_error _
        | ok r => exact ih _ _ hd _
      · split
        · have hhole := restricts_hole h start 0 [] nofun cs (p.skip 2)
          cases hx : hole t start 0 [] cs (p.skip 2) with
          | error e => exact .of_error _
          | ok r =>
            by_cases hn : Lexeme.nestingAll r.1 ≤ n
            · rw [hhole.ok r hx hn]
              have hall : ∀ x ∈ .hole r.1 :: flush text done, x.nesting ≤ n :=
                List.forall_mem_cons.2 ⟨hn, forall_mem_flush hd⟩
              exact ih _ _ hall _
            -- The second reader fails at a hole that is too deep. The first goes on, but the
            -- hole stays in what it reads, which is then too deep as well.
            · obtain ⟨e, he⟩ := hhole.error r hx (Nat.not_le.1 hn)
              rw [he]
              refine ⟨fun a ha hle => absurd ?_ hn, fun _ _ _ => ⟨e, rfl⟩⟩
              exact Nat.le_trans (Piece.nesting_le_of_mem (mem_pieces ha List.mem_cons_self)) hle
        · exact ih _ _ hd _
    · exact .of_error _

/-- Templates of fewer levels are those that are nested no deeper. -/
theorem restricts_template (limit limit' levels levels' : Nat) :
    RestrictsTemplates levels' (template limit levels) (template limit' levels') := by
  induction levels generalizing levels' with
  | zero => exact fun _ _ => .of_error _
  | succ n ih =>
    intro start p
    cases levels' with
    | zero => exact ⟨fun _ _ hn => absurd hn (Nat.not_succ_le_zero _), fun _ _ _ => ⟨_, rfl⟩⟩
    | succ n' =>
      have hpieces := restricts_pieces (ih n') start [] [] nofun p.ahead p
      exact ⟨fun a ha hn => hpieces.ok a ha (Nat.le_of_succ_le_succ hn),
        fun a ha hn => hpieces.error a ha (Nat.lt_of_succ_lt_succ hn)⟩

theorem mem_lexemes {done ts : List Lexeme} {rounds : List Char} {p : Position}
    (h : lexemes t done rounds p = .ok ts) {l : Lexeme} (hl : l ∈ done) : l ∈ ts := by
  rw [lexemes_eq] at h
  cases hx : lexeme t p with
  | error e => rw [hx] at h; cases h
  | ok r =>
    obtain ⟨m, q⟩ := r
    rw [hx] at h
    dsimp only [bind, Except.bind] at h
    cases hend : m.isEnd with
    | true => rw [hend] at h; cases h; simp [hl]
    | false =>
      rw [hend] at h
      cases rounds with
      | nil => cases h; simp [hl]
      | cons _ rounds => exact mem_lexemes h (List.mem_cons_of_mem _ hl)

theorem restricts_lexemes (h : RestrictsTemplates n t t') (done : List Lexeme)
    (hd : ∀ l ∈ done, l.token.nesting ≤ n) (rounds : List Char) (p : Position) :
    Restricts Lexeme.nestingAll n (lexemes t done rounds p) (lexemes t' done rounds p) := by
  rw [lexemes_eq, lexemes_eq]
  refine (restricts_lexeme h p).bind (fun (l, q) hl => ?_) fun (l, q) ts hts => ?_
  · have hall : ∀ m ∈ l :: done, m.token.nesting ≤ n := List.forall_mem_cons.2 ⟨hl, hd⟩
    dsimp only
    match l.isEnd, rounds with
    | false, _ :: rounds => exact restricts_lexemes h (l :: done) hall rounds q
    | false, [] | true, _ =>
      refine .refl fun _ ha => ?_
      cases ha
      exact Lexeme.nestingAll_le_iff.2 fun l hl => hall l (List.mem_reverse.1 hl)
  · dsimp only at hts ⊢
    match l.isEnd, rounds, hts with
    | false, _ :: rounds, hts => exact Lexeme.nesting_le_of_mem (mem_lexemes hts List.mem_cons_self)
    | false, [], hts | true, _, hts =>
      cases hts
      exact Lexeme.nesting_le_of_mem (by simp)

end Lexer

/-- A source that has tokens within some limit has them within the limits that their nesting does
not pass, and within no other. -/
theorem restricts_tokenize (depth depth' : Nat) (source : String) :
    Restricts Lexeme.nestingAll depth' (tokenizeWithin depth source)
      (tokenizeWithin depth' source) :=
  Lexer.restricts_lexemes (Lexer.restricts_template depth depth' depth depth') [] nofun ..

/-- Texts of a size within limits that have the same tokens up to layout; `lines` is whether line
ends count. -/
structure SameTokens (limits : Limits) (lines : Bool) (a b : String) : Prop where
  leftSize : limits.checkSource a = .ok ()
  rightSize : limits.checkSource b = .ok ()
  tokens : ∃ depth ts us, tokenizeWithin depth a = .ok ts ∧ tokenizeWithin depth b = .ok us ∧
    ts.map (Lexeme.bare lines) = us.map (Lexeme.bare lines)

/-- Reading both texts at one depth shows that they have the same tokens. -/
theorem SameTokens.of_tokens {limits : Limits} {lines : Bool} {a b : String}
    (ha : limits.checkSource a = .ok ()) (hb : limits.checkSource b = .ok ()) (depth : Nat)
    {bare : List Lexeme}
    (hta : (tokenizeWithin depth a).map (List.map (Lexeme.bare lines)) = .ok bare)
    (htb : (tokenizeWithin depth b).map (List.map (Lexeme.bare lines)) = .ok bare) :
    SameTokens limits lines a b := by
  match hts : tokenizeWithin depth a, hus : tokenizeWithin depth b with
  | .ok ts, .ok us =>
    rw [hts] at hta
    rw [hus] at htb
    exact ⟨ha, hb, depth, ts, us, hts, hus, Except.ok.inj (hta.trans htb.symm)⟩
  | .error _, _ => rw [hts] at hta; cases hta
  | .ok _, .error _ => rw [hus] at htb; cases htb

/-- Texts with the same tokens meet every limit on nesting together. -/
theorem SameTokens.within {limits : Limits} {lines : Bool} {a b : String}
    (h : SameTokens limits lines a b) (depth : Nat) :
    (∃ ts us, tokenizeWithin depth a = .ok ts ∧ tokenizeWithin depth b = .ok us ∧
      ts.map (Lexeme.bare lines) = us.map (Lexeme.bare lines)) ∨
    ∃ e e', tokenizeWithin depth a = .error e ∧ tokenizeWithin depth b = .error e' := by
  obtain ⟨depth', ts, us, hts, hus, hbare⟩ := h.tokens
  have hnesting : Lexeme.nestingAll ts = Lexeme.nestingAll us := by
    rw [← Lexeme.nestingAll_bareAll lines ts, ← Lexeme.nestingAll_bareAll lines us,
      Lexeme.bareAll_eq_map, Lexeme.bareAll_eq_map, hbare]
  have ha := restricts_tokenize depth' depth a
  have hb := restricts_tokenize depth' depth b
  by_cases hn : Lexeme.nestingAll ts ≤ depth
  · exact .inl ⟨ts, us, ha.ok ts hts hn, hb.ok us hus (hnesting ▸ hn), hbare⟩
  · obtain ⟨e, he⟩ := ha.error ts hts (Nat.not_le.1 hn)
    obtain ⟨e', he'⟩ := hb.error us hus (hnesting ▸ Nat.not_le.1 hn)
    exact .inr ⟨e, e', he, he'⟩

end TypedConfig
