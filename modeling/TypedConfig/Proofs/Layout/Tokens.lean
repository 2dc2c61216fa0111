import TypedConfig.Token.Reader

/-! # Tokens without their layout

The layout of a token is its place and the doc comment before it, and for a reader that does not
ask where lines end also whether one ended before it. A reader erases to another if, on tokens
without layout, the other gives what it gives put through a function, or fails for the same
cause; readers that are put together from such readers erase too.
-/

namespace TypedConfig

mutual

/-- The token with the layout of the tokens in its holes forgotten; `lines` is whether line ends
are kept. -/
def Token.bare (lines : Bool) : Token → Token
  | .name text => .name text
  | .string text => .string text
  | .number value => .number value
  | .template pieces => .template (Piece.bareAll lines pieces)
  | .punct p => .punct p
  | .endOfInput => .endOfInput

def Piece.bareAll (lines : Bool) : List Piece → List Piece
  | [] => []
  | .text s :: ps => .text s :: Piece.bareAll lines ps
  | .hole tokens :: ps => .hole (Lexeme.bareAll lines tokens) :: Piece.bareAll lines ps

def Lexeme.bareAll (lines : Bool) : List Lexeme → List Lexeme
  | [] => []
  | .mk t _ _ newline :: ls =>
    .mk (t.bare lines) default none (newline && lines) :: Lexeme.bareAll lines ls

end

def Lexeme.bare (lines : Bool) (l : Lexeme) : Lexeme :=
  .mk (l.token.bare lines) default none (l.newlineBefore && lines)

variable {lines : Bool}

theorem Lexeme.bareAll_eq_map (ls : List Lexeme) : bareAll lines ls = ls.map (bare lines) := by
  induction ls with
  | nil => rfl
  | cons l ls ih =>
    cases l
    exact congrArg (List.cons _) ih

namespace Token

@[simp] theorem describe_bare (t : Token) : (t.bare lines).describe = t.describe := by
  cases t <;> rfl

@[simp] theorem isEnd_bare (t : Token) : (t.bare lines).isEnd = t.isEnd := by cases t <;> rfl

@[simp] theorem isPunct_bare (t : Token) (p : Punct) :
    (t.bare lines).isPunct p = t.isPunct p := by cases t <;> rfl

@[simp] theorem isName_bare (t : Token) (word : String) :
    (t.bare lines).isName word = t.isName word := by cases t <;> rfl

end Token

namespace Lexeme

@[simp] theorem token_bare (l : Lexeme) : (l.bare lines).token = l.token.bare lines := rfl

@[simp] theorem span_bare (l : Lexeme) : (l.bare lines).span = default := rfl

@[simp] theorem newlineBefore_bare (l : Lexeme) :
    (l.bare true).newlineBefore = l.newlineBefore := Bool.and_true _

@[simp] theorem isEnd_bare (l : Lexeme) : (l.bare lines).isEnd = l.isEnd := l.token.isEnd_bare

@[simp] theorem isPunct_bare (l : Lexeme) : (l.bare lines).isPunct = l.isPunct :=
  funext l.token.isPunct_bare

@[simp] theorem isName_bare (l : Lexeme) (word : String) :
    (l.bare lines).isName word = l.isName word := l.token.isName_bare word

end Lexeme

namespace Cursor

def bare (lines : Bool) (c : Cursor) : Cursor :=
  ⟨c.ahead.map (.bare lines), c.last.bare lines, default⟩

theorem endOf_bare (tokens : List Lexeme) :
    endOf (tokens.map (.bare lines)) = (endOf tokens).bare lines := by
  unfold endOf
  rw [List.getLast?_map]
  cases tokens.getLast? with
  | none => rfl
  | some l =>
    rw [Option.map_some]
    dsimp only
    rw [Lexeme.isEnd_bare]
    split <;> rfl

theorem body_bare (tokens : List Lexeme) :
    body (tokens.map (.bare lines)) = (body tokens).map (.bare lines) := by
  unfold body
  rw [List.getLast?_map]
  cases tokens.getLast? with
  | none => rfl
  | some l =>
    rw [Option.map_some]
    dsimp only
    rw [Lexeme.isEnd_bare, ← List.map_dropLast]
    split <;> rfl

theorem ofTokens_bare (tokens : List Lexeme) :
    ofTokens (tokens.map (.bare lines)) = (ofTokens tokens).bare lines := by
  unfold ofTokens bare
  rw [endOf_bare, body_bare]
  cases body tokens <;> rfl

variable (c : Cursor)

@[simp] theorem peek_bare : (c.bare lines).peek = c.peek.bare lines := by
  obtain ⟨_ | ⟨l, ls⟩, last, previous⟩ := c <;> rfl

@[simp] theorem peekAt_bare (n : Nat) : (c.bare lines).peekAt n = (c.peekAt n).bare lines := by
  simp only [peekAt, bare, List.getElem?_map]
  cases c.ahead[n]? <;> rfl

@[simp] theorem advance_bare : (c.bare lines).advance = c.advance.bare lines := by
  obtain ⟨_ | ⟨l, ls⟩, last, previous⟩ := c <;> rfl

@[simp] theorem atEnd_bare : (c.bare lines).atEnd = c.atEnd := by simp [atEnd]

@[simp] theorem atPunct_bare (p : Punct) : (c.bare lines).atPunct p = c.atPunct p := by
  simp [atPunct]

@[simp] theorem punctAt_bare (n : Nat) (p : Punct) :
    (c.bare lines).punctAt n p = c.punctAt n p := by simp [punctAt]

@[simp] theorem atName_bare (word : String) : (c.bare lines).atName word = c.atName word := by
  simp [atName]

end Cursor

variable {ε α β γ δ : Type}

/-- The second computation gives what the first gives put through a function, or fails for the
same cause. -/
def Mirrors (f : α → β) : Except (Located ε) α → Except (Located ε) β → Prop
  | .ok a, .ok b => b = f a
  | .error e, .error e' => e'.cause = e.cause
  | _, _ => False

namespace Mirrors

variable {f : α → β} {x : Except (Located ε) α} {y : Except (Located ε) β}

theorem bind {g : γ → δ} {k : α → Except (Located ε) γ} {k' : β → Except (Located ε) δ}
    (h : Mirrors f x y) (hk : ∀ a, Mirrors g (k a) (k' (f a))) :
    Mirrors g (x >>= k) (y >>= k') := by
  match x, y, h with
  | .ok a, .ok _, rfl => exact hk a
  | .error _, .error _, h => exact h

theorem map {g : α → γ} {g' : β → δ} {r : γ → δ} (h : Mirrors f x y)
    (hg : ∀ a, g' (f a) = r (g a)) : Mirrors r (x.map g) (y.map g') := by
  match x, y, h with
  | .ok a, .ok _, rfl => exact hg a
  | .error _, .error _, h => exact h

end Mirrors

namespace Reader

/-- On tokens without layout, the second reader mirrors the first and leaves what it leaves. -/
structure Erases (lines : Bool) (f : α → β) (m : Reader ε α) (m' : Reader ε β) : Prop where
  run : ∀ c, Mirrors (fun r : α × Cursor => (f r.1, r.2.bare lines)) (m c) (m' (c.bare lines))

namespace Erases

variable {f : α → β} {m n : Reader ε α} {m' n' : Reader ε β}

theorem pure {a : α} {b : β} (h : b = f a) :
    Erases (ε := ε) lines f (Pure.pure a) (Pure.pure b) := ⟨fun c => by subst h; rfl⟩

theorem bind {g : γ → δ} {k : α → Reader ε γ} {k' : β → Reader ε δ} (h : Erases lines f m m')
    (hk : ∀ a, Erases lines g (k a) (k' (f a))) : Erases lines g (m >>= k) (m' >>= k') :=
  ⟨fun c => (h.run c).bind fun (a, d) => (hk a).run d⟩

/-- What follows a reader whose result has no layout. -/
theorem after {g : γ → δ} {o : Reader ε α} {k : α → Reader ε γ} {k' : α → Reader ε δ}
    (h : Erases lines id o o) (hk : ∀ a, Erases lines g (k a) (k' a)) :
    Erases lines g (o >>= k) (o >>= k') := h.bind hk

theorem ite {p : Prop} [Decidable p] (h : Erases lines f m m') (hn : Erases lines f n n') :
    Erases lines f (if p then m else n) (if p then m' else n') := by
  split
  · exact h
  · exact hn

/-- Branches of conditions that agree. -/
theorem cond {b b' : Bool} (hb : b' = b) (h : Erases lines f m m') (hn : Erases lines f n n') :
    Erases lines f (if b then m else n) (if b' then m' else n') := hb ▸ h.ite hn

theorem fail (cause : ε) (s s' : Span) :
    Erases lines f (Reader.fail cause s) (Reader.fail cause s') := ⟨fun _ => rfl⟩

theorem peek : Erases (ε := ε) lines (.bare lines) Reader.peek Reader.peek :=
  ⟨fun c => by simp [Reader.peek, Mirrors]⟩

theorem next : Erases (ε := ε) lines (.bare lines) Reader.next Reader.next :=
  ⟨fun c => by simp [Reader.next, Mirrors]⟩

theorem previous : Erases (ε := ε) lines (fun _ => default) Reader.previous Reader.previous :=
  ⟨fun _ => rfl⟩

theorem rounds :
    Erases (ε := ε) lines (List.map (.bare lines)) Reader.rounds Reader.rounds :=
  ⟨fun _ => rfl⟩

theorem atEnd : Erases (ε := ε) lines id Reader.atEnd Reader.atEnd :=
  ⟨fun c => by simp [Reader.atEnd, Mirrors]⟩

theorem atPunct (p : Punct) : Erases (ε := ε) lines id (Reader.atPunct p) (Reader.atPunct p) :=
  ⟨fun c => by simp [Reader.atPunct, Mirrors]⟩

theorem punctAt (k : Nat) (p : Punct) :
    Erases (ε := ε) lines id (Reader.punctAt k p) (Reader.punctAt k p) :=
  ⟨fun c => by simp [Reader.punctAt, Mirrors]⟩

theorem atName (word : String) :
    Erases (ε := ε) lines id (Reader.atName word) (Reader.atName word) :=
  ⟨fun c => by simp [Reader.atName, Mirrors]⟩

theorem eatPunct (p : Punct) :
    Erases (ε := ε) lines id (Reader.eatPunct p) (Reader.eatPunct p) := by
  refine ⟨fun c => ?_⟩
  simp only [Reader.eatPunct, Cursor.eatPunct?, Cursor.atPunct_bare]
  split <;> simp_all [Mirrors]

theorem eatName (word : String) :
    Erases (ε := ε) lines id (Reader.eatName word) (Reader.eatName word) := by
  refine ⟨fun c => ?_⟩
  simp only [Reader.eatName, Cursor.eatName?, Cursor.atName_bare]
  split <;> simp_all [Mirrors]

theorem skipPuncts (ps : List Punct) :
    Erases (ε := ε) lines id (Reader.skipPuncts ps) (Reader.skipPuncts ps) := by
  have hgo (ls : List Lexeme) (c : Cursor) :
      Reader.skipPuncts.go ps (ls.map (.bare lines)) (c.bare lines) =
        (Reader.skipPuncts.go ps ls c).bare lines := by
    induction ls generalizing c with
    | nil => rfl
    | cons l ls ih =>
      simp only [List.map_cons, Reader.skipPuncts.go, Lexeme.isPunct_bare, Cursor.advance_bare, ih]
      split <;> rfl
  exact ⟨fun c => congrArg (Prod.mk ()) (hgo c.ahead c)⟩

/-- A reader that takes all the tokens of a list. -/
theorem ofTokens (h : Erases lines f m m') (tokens : List Lexeme) :
    Mirrors (fun r : α × Cursor => (f r.1, r.2.bare lines)) (m (.ofTokens tokens))
      (m' (.ofTokens (tokens.map (.bare lines)))) := by
  rw [Cursor.ofTokens_bare]
  exact h.run _

end Erases

end Reader

end TypedConfig
