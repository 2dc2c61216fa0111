import TypedConfig.Limits
import TypedConfig.Token.Lexer
import TypedConfig.Token.Reader

/-! # Results that larger limits keep

Limits are compared one by one. A computation keeps another if it gives whatever the other gives
without failing; what comes of computations that keep each other is kept too. A size that is
within limits is within larger ones, and a source that has tokens within a nesting of templates
has the same tokens within a deeper one.
-/

namespace TypedConfig

namespace Limits

instance : LE Limits where
  le a b := a.maxSourceBytes ≤ b.maxSourceBytes ∧ a.maxDepth ≤ b.maxDepth ∧
    a.maxOutputBytes ≤ b.maxOutputBytes

variable {l m : Limits} {text : String}

theorem checkSource_mono (hl : l ≤ m) (h : l.checkSource text = .ok ()) :
    m.checkSource text = .ok () :=
  checkSize_eq_ok_iff.2 (Nat.le_trans (checkSize_eq_ok_iff.1 h) hl.1)

theorem checkOutput_mono (hl : l ≤ m) (h : l.checkOutput text = .ok ()) :
    m.checkOutput text = .ok () :=
  checkSize_eq_ok_iff.2 (Nat.le_trans (checkSize_eq_ok_iff.1 h) hl.2.2)

end Limits

variable {ε α β : Type}

/-- The second computation gives whatever the first gives. -/
structure Keeps (x y : Except ε α) : Prop where
  ok : ∀ a, x = .ok a → y = .ok a

namespace Keeps

variable {x y : Except ε α}

@[simp] theorem refl (x : Except ε α) : Keeps x x := ⟨fun _ h => h⟩

@[simp] theorem of_error (e : ε) (y : Except ε α) : Keeps (.error e) y := ⟨nofun⟩

theorem bind {f g : α → Except ε β} (h : Keeps x y) (hf : ∀ a, Keeps (f a) (g a)) :
    Keeps (x >>= f) (y >>= g) := by
  cases x with
  | error e => exact .of_error ..
  | ok a =>
    rw [h.ok a rfl]
    exact hf a

theorem map (f : α → β) (h : Keeps x y) : Keeps (x.map f) (y.map f) := by
  cases x with
  | error e => exact .of_error ..
  | ok a =>
    rw [h.ok a rfl]
    exact .refl _

end Keeps

/-- The second reader reads whatever the first reads. -/
structure KeepsReader (m m' : Reader ε α) : Prop where
  run : ∀ c, Keeps (m c) (m' c)

namespace KeepsReader

variable {m m' : Reader ε α}

theorem refl (m : Reader ε α) : KeepsReader m m := ⟨fun _ => .refl _⟩

theorem bind {f f' : α → Reader ε β} (h : KeepsReader m m')
    (hf : ∀ a, KeepsReader (f a) (f' a)) : KeepsReader (m >>= f) (m' >>= f') :=
  ⟨fun c => (h.run c).bind fun (a, d) => (hf a).run d⟩

/-- What follows the same reader. -/
theorem after {f f' : α → Reader ε β} (hf : ∀ a, KeepsReader (f a) (f' a)) :
    KeepsReader (m >>= f) (m >>= f') := (refl m).bind hf

theorem ite {p : Prop} [Decidable p] {n n' : Reader ε α} (h : KeepsReader m m')
    (hn : KeepsReader n n') : KeepsReader (if p then m else n) (if p then m' else n') := by
  split
  · exact h
  · exact hn

end KeepsReader

namespace Lexer

def KeepsTemplates (t t' : TemplateReader) : Prop := ∀ start p, Keeps (t start p) (t' start p)

variable {t t' : TemplateReader}

theorem keeps_bareToken (h : KeepsTemplates t t') (p : Position) :
    Keeps (bareToken t p) (bareToken t' p) := by
  unfold bareToken
  split
  · exact .refl _
  · dsimp only
    split
    · exact .refl _
    · split
      · exact (h _ _).map _
      · exact .refl _

theorem keeps_lexeme (h : KeepsTemplates t t') (p : Position) :
    Keeps (lexeme t p) (lexeme t' p) :=
  (Keeps.refl _).bind fun _ => (keeps_bareToken h _).bind fun _ => .refl _

theorem hole_eq (t : TemplateReader) (start depth : Nat) (tokens : List Lexeme)
    (rounds : List Char) (p : Position) :
    hole t start depth tokens rounds p = (do
      let (l, q) ← lexeme t p
      if l.isPunct .rightBrace ∧ depth = 0 then return ((.endAt l.span :: tokens).reverse, q)
      else
        match l.isEnd, rounds with
        | false, _ :: rounds =>
          let depth :=
            if l.isPunct .leftBrace then depth + 1
            else if l.isPunct .rightBrace then depth - 1
            else depth
          hole t start depth (l :: tokens) rounds q
        | _, _ => throw ⟨.unterminatedHole, ⟨start, q.offset⟩⟩) := by
  rw [hole.eq_def]
  cases lexeme t p <;> rfl

theorem keeps_hole (h : KeepsTemplates t t') (start depth : Nat) (tokens : List Lexeme)
    (rounds : List Char) (p : Position) :
    Keeps (hole t start depth tokens rounds p) (hole t' start depth tokens rounds p) := by
  rw [hole_eq, hole_eq]
  refine (keeps_lexeme h p).bind fun (l, q) => ?_
  dsimp only
  split
  · exact .refl _
  · match l.isEnd, rounds with
    | false, _ :: rounds => exact keeps_hole h ..
    | false, [] | true, _ => exact .refl _

theorem keeps_pieces (h : KeepsTemplates t t') (start : Nat) (text : List Char)
    (done : List Piece) (rounds : List Char) (p : Position) :
    Keeps (pieces t start text done rounds p) (pieces t' start text done rounds p) := by
  induction rounds generalizing text done p with
  | nil =>
    unfold pieces
    split
    · exact .refl _
    · contradiction
    · exact .refl _
  | cons r rounds ih =>
    unfold pieces
    split
    · exact .refl _
    · rename_i c cs _ _ _ _ hr
      cases hr
      split
      · cases escape p.offset (p.skip 1) with
        | error e => exact .refl _
        | ok r => exact ih _ _ _
      · split
        · have hhole := keeps_hole h start 0 [] cs (p.skip 2)
          generalize hole t start 0 [] cs (p.skip 2) = x at hhole ⊢
          cases x with
          | error e => exact .of_error ..
          | ok r =>
            rw [hhole.ok r rfl]
            exact ih _ _ _
        · exact ih _ _ _
    · exact .refl _

/-- A template is read the same where more levels may be nested. -/
theorem keeps_template {limit limit' levels levels' : Nat} (hl : levels ≤ levels') :
    KeepsTemplates (template limit levels) (template limit' levels') := by
  induction levels generalizing levels' with
  | zero => exact fun _ _ => .of_error ..
  | succ n ih =>
    cases levels' with
    | zero => cases hl
    | succ n' => exact fun _ _ => keeps_pieces (ih (Nat.le_of_succ_le_succ hl)) ..

theorem lexemes_eq (t : TemplateReader) (done : List Lexeme) (rounds : List Char)
    (p : Position) :
    lexemes t done rounds p = (do
      let (l, q) ← lexeme t p
      match l.isEnd, rounds with
      | false, _ :: rounds => lexemes t (l :: done) rounds q
      | _, _ => return (l :: done).reverse) := by
  rw [lexemes.eq_def]
  cases lexeme t p <;> rfl

theorem keeps_lexemes (h : KeepsTemplates t t') (done : List Lexeme) (rounds : List Char)
    (p : Position) : Keeps (lexemes t done rounds p) (lexemes t' done rounds p) := by
  rw [lexemes_eq, lexemes_eq]
  refine (keeps_lexeme h p).bind fun (l, q) => ?_
  dsimp only
  match l.isEnd, rounds with
  | false, _ :: rounds => exact keeps_lexemes h ..
  | false, [] | true, _ => exact .refl _

end Lexer

/-- A source that has tokens within a limit on nesting has the same within a larger limit. -/
theorem tokenizeWithin_mono {depth depth' : Nat} (hd : depth ≤ depth') (source : String) :
    Keeps (tokenizeWithin depth source) (tokenizeWithin depth' source) :=
  Lexer.keeps_lexemes (Lexer.keeps_template hd) ..

end TypedConfig
