import TypedConfig.Proofs.Schema.Reading
import TypedConfig.Proofs.Written.Lexing

/-! # Taking written tokens

What a reader does before written tokens: which it takes, which are left and what it gives. There
is one rule for each way in which readers are put together.
-/

namespace TypedConfig

namespace Spelled

def leads (p : Punct) : List Spelled → Bool
  | [] => false
  | t :: _ => t.isPunct p

def leadsName (word : String) : List Spelled → Bool
  | name text :: _ => text == word
  | _ => false

/-- Punctuation that no expression begins with or goes on with. -/
def closers : List Punct :=
  [.rightParen, .rightBracket, .rightBrace, .comma, .colon, .semicolon, .assign]

/-- Tokens behind a whole expression. -/
def Closes : List Spelled → Prop
  | [] => True
  | punct p :: _ => p ∈ closers
  | _ => False

/-- Tokens that something may begin with. -/
def Opens : List Spelled → Prop
  | [] => False
  | punct p :: _ => p ∉ closers
  | _ => True

variable {p : Punct} {ts us : List Spelled}

@[simp] theorem leads_punct (p q : Punct) (ts : List Spelled) :
    leads p (punct q :: ts) = (q == p) := rfl

theorem leads_of_closes (h : Closes ts) (hp : p ∉ closers) : leads p ts = false := by
  match ts, h with
  | [], _ => rfl
  | punct q :: ts, h =>
    rw [leads_punct, beq_eq_false_iff_ne]
    rintro rfl
    exact hp h

theorem leads_of_opens (h : Opens ts) (hp : p ∈ closers) : leads p ts = false := by
  match ts, h with
  | punct q :: ts, h =>
    rw [leads_punct, beq_eq_false_iff_ne]
    rintro rfl
    exact h hp
  | name _ :: _, _ | string _ :: _, _ | number _ :: _, _ | template _ :: _, _ => rfl

theorem Opens.append (h : Opens ts) (us : List Spelled) : Opens (ts ++ us) := by
  match ts, h with
  | t :: ts, h => cases t <;> exact h

theorem Opens.ne_nil (h : Opens ts) : ts ≠ [] := by
  rintro rfl
  exact h

theorem ReadsAll.length_eq {fresh : Bool} {ls : List Lexeme} (h : ReadsAll fresh ts ls) :
    ls.length = ts.length := by
  induction ts generalizing fresh ls with
  | nil =>
    cases h
    rfl
  | cons t ts ih =>
    cases h with
    | cons token line rest => exact congrArg Nat.succ (ih rest)

/-- Tokens are read too where a line may begin at the first. -/
theorem ReadsAll.fresh {fresh : Bool} {ls : List Lexeme} (h : ReadsAll fresh ts ls) :
    ReadsAll true ts ls := by
  cases h with
  | nil => exact .nil true
  | cons token line rest => exact .cons token (fun _ => rfl) rest

section Plain

variable {token : Token}

theorem eq_of_reads_name {text : String} (h : (name text).Reads token) : token = .name text := by
  cases h
  rfl

theorem eq_of_reads_string {text : String} (h : (string text).Reads token) :
    token = .string text := by
  cases h
  rfl

theorem eq_of_reads_number {x : Float} (h : (number x).Reads token) : token = .number x := by
  cases h
  rfl

theorem eq_of_reads_punct (h : (punct p).Reads token) : token = .punct p := by
  cases h
  rfl

end Plain

end Spelled

open Spelled

/-- A cursor before written tokens, with a line beginning at the first only if `fresh`. -/
structure Cursor.Reads (c : Cursor) (fresh : Bool) (ts : List Spelled) : Prop where
  tokens : ReadsAll fresh ts c.ahead
  stop : c.last.isEnd = true

namespace Cursor

variable {c : Cursor} {fresh : Bool} {t : Spelled} {ts : List Spelled}

theorem Reads.peek (h : c.Reads fresh (t :: ts)) :
    t.Reads c.peek.token ∧ (c.peek.newlineBefore = true → fresh = true) := by
  obtain ⟨ahead, last, previous⟩ := c
  obtain ⟨htokens, -⟩ := h
  cases htokens with
  | cons token line rest => exact ⟨token, line⟩

theorem Reads.advance (h : c.Reads fresh (t :: ts)) : c.advance.Reads t.endsLine ts := by
  obtain ⟨ahead, last, previous⟩ := c
  obtain ⟨htokens, hstop⟩ := h
  cases htokens with
  | cons token line rest => exact ⟨rest, hstop⟩

theorem Reads.atEnd (h : c.Reads fresh ts) : c.atEnd = ts.isEmpty := by
  obtain ⟨ahead, last, previous⟩ := c
  obtain ⟨htokens, hstop⟩ := h
  cases htokens with
  | nil => exact hstop
  | cons token line rest => exact token.isEnd_eq

theorem isPunct_of_isEnd {l : Lexeme} (h : l.isEnd = true) (p : Punct) : l.isPunct p = false := by
  obtain ⟨token, span, doc, line⟩ := l
  cases token <;> first | rfl | cases h

theorem isName_of_isEnd {l : Lexeme} (h : l.isEnd = true) (word : String) :
    l.isName word = false := by
  obtain ⟨token, span, doc, line⟩ := l
  cases token <;> first | rfl | cases h

theorem Reads.atPunct (h : c.Reads fresh ts) (p : Punct) : c.atPunct p = leads p ts := by
  obtain ⟨ahead, last, previous⟩ := c
  obtain ⟨htokens, hstop⟩ := h
  cases htokens with
  | nil => exact isPunct_of_isEnd hstop p
  | cons token line rest => exact token.isPunct_eq p

theorem Reads.atName (h : c.Reads fresh ts) (word : String) :
    c.atName word = leadsName word ts := by
  obtain ⟨ahead, last, previous⟩ := c
  obtain ⟨htokens, hstop⟩ := h
  cases htokens with
  | nil => exact isName_of_isEnd hstop word
  | @cons _ t _ l _ token line rest =>
    obtain ⟨tok, span, doc, newline⟩ := l
    cases token <;> rfl

theorem reads_ofTokens {ls : List Lexeme} {stop : Lexeme} (h : ReadsAll fresh ts ls)
    (hstop : stop.isEnd = true) : (ofTokens (ls ++ [stop])).Reads fresh ts := by
  have hofTokens : ofTokens (ls ++ [stop]) = ⟨ls, stop, (ls.headD stop).span⟩ := by
    simp [ofTokens, endOf, body, hstop]
  rw [hofTokens]
  exact ⟨h, hstop⟩

end Cursor

namespace Program

variable {ε α β : Type}

/-- A reader that takes some written tokens up to others and gives a result of a kind. -/
def Takes (m : Reader ε α) (fresh : Bool) (ts : List Spelled) (fresh' : Bool)
    (us : List Spelled) (P : α → Prop) : Prop :=
  ∀ c : Cursor, c.Reads fresh ts → ∃ a d, m c = .ok (a, d) ∧ d.Reads fresh' us ∧ P a

variable {m : Reader ε α} {f : α → Reader ε β} {P P' : α → Prop} {Q : β → Prop}
variable {b b' b'' : Bool} {t : Spelled} {ts us vs : List Spelled} {p : Punct}

namespace Takes

theorem pure {a : α} (h : P a) : Takes (ε := ε) (Pure.pure a) b ts b ts P :=
  fun c hc => ⟨a, c, rfl, hc, h⟩

theorem bind (h : Takes m b ts b' us P) (hf : ∀ a, P a → Takes (f a) b' us b'' vs Q) :
    Takes (m >>= f) b ts b'' vs Q := by
  intro c hc
  obtain ⟨a, d, hm, hd, ha⟩ := h c hc
  obtain ⟨r, e, hr, he, hq⟩ := hf a ha d hd
  exact ⟨r, e, bind_eq_ok_iff.2 ⟨(a, d), hm, hr⟩, he, hq⟩

theorem mono (h : Takes m b ts b' us P) (hP : ∀ a, P a → P' a) : Takes m b ts b' us P' := by
  intro c hc
  obtain ⟨a, d, hm, hd, ha⟩ := h c hc
  exact ⟨a, d, hm, hd, hP a ha⟩

theorem ite {q : Prop} [Decidable q] {n : Reader ε α} (hm : q → Takes m b ts b' us P)
    (hn : ¬ q → Takes n b ts b' us P) : Takes (if q then m else n) b ts b' us P := by
  split
  · exact hm ‹_›
  · exact hn ‹_›

end Takes

theorem takes_peek : Takes (ε := ε) Reader.peek b (t :: ts) b (t :: ts) fun l =>
    t.Reads l.token ∧ (l.newlineBefore = true → b = true) :=
  fun c hc => ⟨c.peek, c, rfl, hc, hc.peek⟩

/-- The span of the next token, whatever that is. -/
theorem takes_peek_any : Takes (ε := ε) Reader.peek b ts b ts fun _ => True :=
  fun c hc => ⟨c.peek, c, rfl, hc, trivial⟩

theorem takes_next :
    Takes (ε := ε) Reader.next b (t :: ts) t.endsLine ts fun l => t.Reads l.token :=
  fun c hc => ⟨c.peek, c.advance, rfl, hc.advance, hc.peek.1⟩

theorem takes_previous : Takes (ε := ε) Reader.previous b ts b ts fun _ => True :=
  fun c hc => ⟨c.previous, c, rfl, hc, trivial⟩

/-- A loop with a round for each token ahead and one more has rounds enough. -/
theorem takes_rounds :
    Takes (ε := ε) Reader.rounds b ts b ts fun rounds => ts.length < rounds.length :=
  fun c hc => ⟨c.last :: c.ahead, c, rfl, hc, by simp [hc.tokens.length_eq]⟩

theorem takes_atEnd : Takes (ε := ε) Reader.atEnd b ts b ts fun r => r = ts.isEmpty :=
  fun c hc => ⟨c.atEnd, c, rfl, hc, hc.atEnd⟩

theorem takes_atPunct (p : Punct) :
    Takes (ε := ε) (Reader.atPunct p) b ts b ts fun r => r = leads p ts :=
  fun c hc => ⟨c.atPunct p, c, rfl, hc, hc.atPunct p⟩

/-- Whether a punctuation stands behind the next token. -/
theorem takes_punctAt_one (p : Punct) :
    Takes (ε := ε) (Reader.punctAt 1 p) b ts b ts fun r => r = leads p ts.tail := by
  intro c hc
  refine ⟨c.punctAt 1 p, c, rfl, hc, ?_⟩
  obtain ⟨ahead, last, previous⟩ := c
  obtain ⟨htokens, hstop⟩ := hc
  cases htokens with
  | nil => exact Cursor.isPunct_of_isEnd hstop p
  | cons token line rest =>
    cases rest with
    | nil => exact Cursor.isPunct_of_isEnd hstop p
    | cons token' line' rest => exact token'.isPunct_eq p

theorem takes_atName (word : String) :
    Takes (ε := ε) (Reader.atName word) b ts b ts fun r => r = leadsName word ts :=
  fun c hc => ⟨c.atName word, c, rfl, hc, hc.atName word⟩

theorem takes_eatPunct (p : Punct) :
    Takes (ε := ε) (Reader.eatPunct p) b (.punct p :: ts) (Spelled.punct p).endsLine ts
      (· = true) := by
  intro c hc
  have hp : c.atPunct p = true := by rw [hc.atPunct, leads_punct, beq_self_eq_true]
  refine ⟨true, c.advance, ?_, hc.advance, rfl⟩
  simp only [Reader.eatPunct, Cursor.eatPunct?, hp, if_true]

theorem takes_eatPunct_miss (h : leads p ts = false) :
    Takes (ε := ε) (Reader.eatPunct p) b ts b ts (· = false) := by
  intro c hc
  have hp : c.atPunct p = false := by rw [hc.atPunct, h]
  refine ⟨false, c, ?_, hc, rfl⟩
  simp only [Reader.eatPunct, Cursor.eatPunct?, hp]
  rfl

theorem takes_eatName (word : String) :
    Takes (ε := ε) (Reader.eatName word) b (.name word :: ts) false ts (· = true) := by
  intro c hc
  have hw : c.atName word = true := by rw [hc.atName, leadsName, beq_self_eq_true]
  refine ⟨true, c.advance, ?_, hc.advance, rfl⟩
  simp only [Reader.eatName, Cursor.eatName?, hw, if_true]

theorem takes_eatName_miss {word : String} (h : leadsName word ts = false) :
    Takes (ε := ε) (Reader.eatName word) b ts b ts (· = false) := by
  intro c hc
  have hw : c.atName word = false := by rw [hc.atName, h]
  refine ⟨false, c, ?_, hc, rfl⟩
  simp only [Reader.eatName, Cursor.eatName?, hw]
  rfl

theorem takes_skipPuncts_none {ps : List Punct} (h : ∀ p ∈ ps, leads p ts = false) :
    Takes (ε := ε) (Reader.skipPuncts ps) b ts b ts fun _ => True := by
  intro c hc
  refine ⟨(), c, ?_, hc, trivial⟩
  have hps : ∀ p ∈ ps, c.atPunct p = false := fun p hp => by rw [hc.atPunct, h p hp]
  obtain ⟨_ | ⟨l, ls⟩, last, previous⟩ := c
  · rfl
  · have hl : ps.any l.isPunct = false :=
      List.any_eq_false.2 fun p hp => ne_true_of_eq_false (hps p hp)
    simp [Reader.skipPuncts, Reader.skipPuncts.go, hl]

theorem takes_skipPuncts_miss (h : leads p ts = false) :
    Takes (ε := ε) (Reader.skipPuncts [p]) b ts b ts fun _ => True :=
  takes_skipPuncts_none (List.forall_mem_singleton.2 h)

namespace Takes

variable {n : Reader ε α}

/-- A choice by whether a punctuation stands next, which it does. -/
theorem hit (h : Takes m (Spelled.punct p).endsLine ts b' us P) :
    Takes (do if ← Reader.eatPunct p then m else n) b (.punct p :: ts) b' us P :=
  .bind (takes_eatPunct p) fun r hr => by rw [if_pos hr]; exact h

/-- A choice by whether a punctuation stands next, which it does not. -/
theorem miss (hp : leads p ts = false) (h : Takes n b ts b' us P) :
    Takes (do if ← Reader.eatPunct p then m else n) b ts b' us P :=
  .bind (takes_eatPunct_miss hp) fun r hr => by rw [if_neg (ne_true_of_eq_false hr)]; exact h

/-- A choice by whether a word stands next, which it does. -/
theorem hitName {word : String} (h : Takes m false ts b' us P) :
    Takes (do if ← Reader.eatName word then m else n) b (.name word :: ts) b' us P :=
  .bind (takes_eatName word) fun r hr => by rw [if_pos hr]; exact h

/-- A choice by whether a word stands next, which it does not. -/
theorem missName {word : String} (hw : leadsName word ts = false) (h : Takes n b ts b' us P) :
    Takes (do if ← Reader.eatName word then m else n) b ts b' us P :=
  .bind (takes_eatName_miss hw) fun r hr => by rw [if_neg (ne_true_of_eq_false hr)]; exact h

/-- A choice by whether the tokens are at their end, which they are not. -/
theorem goesOn (hts : ts ≠ []) (h : Takes n b ts b' us P) :
    Takes (do if ← Reader.atEnd then m else n) b ts b' us P := by
  refine .bind takes_atEnd fun r hr => ?_
  rw [if_neg (by simpa [hr] using hts)]
  exact h

end Takes

theorem takes_expect (p : Punct) :
    Takes (expect p) b (.punct p :: ts) (Spelled.punct p).endsLine ts fun _ => True :=
  .hit takes_previous

theorem takes_expectName {text : String} (what : String)
    (h : reservedWords.contains text = false) :
    Takes (expectName what) b (.name text :: ts) false ts fun i => i.name = text := by
  refine .bind takes_peek fun l hl => ?_
  rw [eq_of_reads_name hl.1]
  dsimp only
  rw [if_neg (ne_true_of_eq_false h)]
  exact .bind takes_next fun _ _ => .pure rfl

theorem takes_expectProperty (text : String) :
    Takes expectProperty b (.name text :: ts) false ts fun i => i.name = text := by
  refine .bind takes_peek fun l hl => ?_
  rw [eq_of_reads_name hl.1]
  exact .bind takes_next fun _ _ => .pure rfl

end Program

namespace Declaration

open Spelled Program

variable {b : Bool} {ts : List Spelled}

theorem takes_expect (p : Punct) :
    Takes (expect p) b (.punct p :: ts) (Spelled.punct p).endsLine ts fun _ => True :=
  .hit takes_previous

theorem takes_expectName (what text : String) :
    Takes (expectName what) b (.name text :: ts) false ts (·.1 = text) := by
  refine .bind takes_peek fun l hl => ?_
  rw [eq_of_reads_name hl.1]
  exact .bind takes_next fun _ _ => .pure rfl

theorem takes_bracketed_stop (hts : leads .leftBracket ts = false) (rounds : List Lexeme)
    (t : TyTerm) : Takes (bracketed rounds t) b ts b ts (· = t) := by
  cases rounds with
  | nil => exact .pure rfl
  | cons r rounds =>
    refine .bind (takes_atPunct .leftBracket) fun l hl => ?_
    refine .bind (takes_punctAt_one .rightBracket) fun r _ => ?_
    rw [if_neg (by simp [hl, hts])]
    exact .pure rfl

end Declaration

end TypedConfig
