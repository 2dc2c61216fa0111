import Mathlib
import TypedConfig.Proofs.Limits.Keeps
import TypedConfig.Proofs.Number.Whole
import TypedConfig.Proofs.Written.Spelling

/-! # Tokens of written programs

The text of spelled tokens has just these tokens. The blank behind each token ends it, and line
breaks stand behind semicolons only.
-/

namespace TypedConfig

open Filter

/-- What holds of all large successors holds of all large numbers. -/
theorem eventually_of_succ {P : Nat → Prop} (h : ∀ᶠ n in atTop, P (n + 1)) :
    ∀ᶠ n in atTop, P n := by
  rw [← map_add_atTop_eq_nat 1]
  exact h

theorem eventually_forall_mem_of_injective {α β : Type} {f : β → α} (hf : Function.Injective f)
    {l : List α} {P : β → Nat → Prop} (h : ∀ b, f b ∈ l → ∀ᶠ n in atTop, P b n) :
    ∀ᶠ n in atTop, ∀ b, f b ∈ l → P b n :=
  (eventually_all_finite (l.finite_toSet.preimage hf.injOn)).2 h

theorem eventually_forall_mem {α : Type} {l : List α} {P : α → Nat → Prop}
    (h : ∀ a ∈ l, ∀ᶠ n in atTop, P a n) : ∀ᶠ n in atTop, ∀ a ∈ l, P a n :=
  eventually_forall_mem_of_injective Function.injective_id h

def SpelledPiece.text? : SpelledPiece → Option String
  | text s => some s
  | hole _ => none

namespace Spelled

mutual

inductive Reads : Spelled → Token → Prop
  | name (text : String) : Reads (.name text) (.name text)
  | string (text : String) : Reads (.string text) (.string text)
  | number (value : Float) : Reads (.number value) (.number value)
  | template {ps : List SpelledPiece} {qs : List Piece} (pieces : ReadsPieces ps qs) :
    Reads (.template ps) (.template qs)
  | punct (p : Punct) : Reads (.punct p) (.punct p)

inductive ReadsPieces : List SpelledPiece → List Piece → Prop
  | nil : ReadsPieces [] []
  | text (s : String) {ps : List SpelledPiece} {qs : List Piece} (rest : ReadsPieces ps qs) :
    ReadsPieces (.text s :: ps) (.text s :: qs)
  | hole {ts : List Spelled} {ls : List Lexeme} (brace : Span) {ps : List SpelledPiece}
    {qs : List Piece} (tokens : ReadsAll false ts ls) (rest : ReadsPieces ps qs) :
    ReadsPieces (.hole ts :: ps) (.hole (ls ++ [.endAt brace]) :: qs)

/-- Tokens that were written one after another. A line may begin at the first if `fresh`, and
behind semicolons. -/
inductive ReadsAll : Bool → List Spelled → List Lexeme → Prop
  | nil (fresh : Bool) : ReadsAll fresh [] []
  | cons {fresh : Bool} {t : Spelled} {ts : List Spelled} {l : Lexeme} {ls : List Lexeme}
    (token : Reads t l.token) (line : l.newlineBefore = true → fresh = true)
    (rest : ReadsAll t.endsLine ts ls) : ReadsAll fresh (t :: ts) (l :: ls)

end

/-- How deep the braces are nested after some tokens; nothing if one more is closed than opened. -/
def bracesAfter : Nat → List Spelled → Option Nat
  | depth, [] => some depth
  | depth, t :: ts =>
    if t.isPunct .rightBrace ∧ depth = 0 then none
    else
      bracesAfter
        (if t.isPunct .leftBrace then depth + 1
          else if t.isPunct .rightBrace then depth - 1
          else depth) ts

def Balanced (ts : List Spelled) : Prop := ∀ depth, bracesAfter depth ts = some depth

inductive Valid : Spelled → Prop
  | name {text : String} (h : isName text.toList = true) : Valid (.name text)
  | string (text : String) : Valid (.string text)
  | number {n : Nat} (small : n < 2 ^ 53) : Valid (.number (Float.ofNat n))
  | template {ps : List SpelledPiece} (shape : TemplateShape (ps.map SpelledPiece.text?))
    (balanced : ∀ ts, .hole ts ∈ ps → Balanced ts)
    (tokens : ∀ ts, .hole ts ∈ ps → ∀ t ∈ ts, Valid t) : Valid (.template ps)
  | punct (p : Punct) : Valid (.punct p)

theorem Reads.isPunct_eq {t : Spelled} {token : Token} (h : t.Reads token) (p : Punct) :
    token.isPunct p = t.isPunct p := by
  cases h <;> rfl

theorem Reads.isEnd_eq {t : Spelled} {token : Token} (h : t.Reads token) :
    token.isEnd = false := by
  cases h <;> rfl

end Spelled

namespace Lexer

open Spelled

/-- Characters before which a gap ends. -/
def EndsGap : List Char → Prop
  | [] => True
  | c :: cs => Text.isBlank c = false ∧ (c = '/' → cs.head? ≠ some '/' ∧ cs.head? ≠ some '*')

theorem passGap_of_endsGap (gap : Gap) {cs : List Char} (h : EndsGap cs) (offset : Nat) :
    passGap gap ⟨cs, offset⟩ = .ok (gap, ⟨cs, offset⟩) := by
  cases cs with
  | nil => unfold passGap; rfl
  | cons c cs =>
    obtain ⟨hblank, hslash⟩ := h
    have hline : c ≠ '\n' := by
      rintro rfl
      exact absurd hblank (by decide)
    have hnot : ¬ Text.isBlank c = true := ne_true_of_eq_false hblank
    have h1 : ¬ (c = '/' ∧ cs.head? = some '/') := fun h => (hslash h.1).1 h.2
    have h2 : ¬ (c = '/' ∧ cs.head? = some '*') := fun h => (hslash h.1).2 h.2
    unfold passGap
    simp only [if_neg hline, if_neg hnot, if_neg h1, if_neg h2]

/-- What may stand before a token in written text, and whether a line ends in it. -/
inductive Blanks : Bool → List Char → Prop
  | none : Blanks false []
  | blank : Blanks false [' ']
  | line : Blanks true ['\n']

theorem passGap_blanks {fresh : Bool} {blanks cs : List Char} (hb : Blanks fresh blanks)
    (h : EndsGap cs) (offset : Nat) :
    ∃ offset', passGap ⟨none, false⟩ ⟨blanks ++ cs, offset⟩ =
      .ok (⟨none, fresh⟩, ⟨cs, offset'⟩) := by
  cases hb with
  | none => exact ⟨offset, passGap_of_endsGap _ h _⟩
  | blank =>
    refine ⟨offset + ' '.utf8Size, ?_⟩
    rw [← passGap_of_endsGap ⟨none, false⟩ h]
    show passGap ⟨none, false⟩ ⟨' ' :: cs, offset⟩ = _
    rw [passGap.eq_def]
    rfl
  | line =>
    refine ⟨offset + 1, ?_⟩
    rw [← passGap_of_endsGap ⟨none, true⟩ h]
    show passGap ⟨none, false⟩ ⟨'\n' :: cs, offset⟩ = _
    rw [passGap.eq_def]
    rfl

theorem blanks_separator (t : Spelled) : Blanks t.endsLine [t.separator] := by
  unfold separator
  cases t.endsLine
  · exact .blank
  · exact .line

def IsSeparator (c : Char) : Prop := c = ' ' ∨ c = '\n'

theorem isSeparator_separator (t : Spelled) : IsSeparator t.separator := by
  unfold separator
  cases t.endsLine
  · exact .inl rfl
  · exact .inr rfl

/-- The characters of a token, with a blank behind them, are read as the token. -/
def ReadsToken (template : TemplateReader) (t : Spelled) : Prop :=
  ∀ s rest offset, IsSeparator s → ∃ token offset',
    bareToken template ⟨t.chars ++ s :: rest, offset⟩ = .ok (token, ⟨s :: rest, offset'⟩) ∧
      t.Reads token

variable {template : TemplateReader} {c s : Char} {rest : List Char}

/-- The character that stands first, if there is one, is not of a class. -/
def Stops (ok : Char → Bool) (rest : List Char) : Prop := ∀ c ∈ rest.head?, ok c = false

theorem stops_of_isSeparator {ok : Char → Bool} (hblank : ok ' ' = false) (hline : ok '\n' = false)
    (hs : IsSeparator s) (rest : List Char) : Stops ok (s :: rest) := by
  rintro _ ⟨⟩
  rcases hs with rfl | rfl
  · exact hblank
  · exact hline

theorem run_append {ok : Char → Bool} {cs : List Char} (hcs : ∀ c ∈ cs, ok c = true)
    (hrest : Stops ok rest) (offset : Nat) :
    Position.run ⟨cs ++ rest, offset⟩ ok = (cs, ⟨rest, offset + Text.byteSize cs⟩) := by
  have hnone : rest.takeWhile ok = [] ∧ rest.dropWhile ok = rest := by
    cases rest with
    | nil => exact ⟨rfl, rfl⟩
    | cons c rest =>
      have hc : ¬ ok c = true := ne_true_of_eq_false (hrest c rfl)
      exact ⟨List.takeWhile_cons_of_neg hc, List.dropWhile_cons_of_neg hc⟩
  simp only [Position.run, List.takeWhile_append_of_pos hcs, List.dropWhile_append_of_pos hcs,
    hnone, List.append_nil]

theorem toNat_of_isNameStart (h : isNameStart c = true) :
    c.toNat = 36 ∨ c.toNat = 95 ∨ (65 ≤ c.toNat ∧ c.toNat ≤ 90) ∨
      (97 ≤ c.toNat ∧ c.toNat ≤ 122) := by
  simp only [isNameStart, Char.isAlpha, Char.isUpper, Char.isLower, Bool.or_eq_true,
    Bool.and_eq_true, decide_eq_true_eq, beq_iff_eq, UInt32.le_iff_toNat_le] at h
  rcases h with (h | rfl) | rfl
  · exact .inr (.inr h)
  · exact .inr (.inl rfl)
  · exact .inl rfl

theorem isDigit_of_isNameStart (h : isNameStart c = true) : c.isDigit = false := by
  have hc := toNat_of_isNameStart h
  rw [← Bool.not_eq_true]
  simp only [Char.isDigit, Bool.and_eq_true, decide_eq_true_eq, UInt32.le_iff_toNat_le]
  change ¬ (48 ≤ c.toNat ∧ c.toNat ≤ 57)
  omega

theorem isBlank_of_isNameStart (h : isNameStart c = true) : Text.isBlank c = false := by
  have hc := toNat_of_isNameStart h
  rw [← Bool.not_eq_true]
  simp only [Text.isBlank, Bool.or_eq_true, Bool.and_eq_true, decide_eq_true_eq, beq_iff_eq]
  omega

theorem isBlank_of_isDigit (h : c.isDigit = true) : Text.isBlank c = false := by
  simp only [Char.isDigit, Bool.and_eq_true, decide_eq_true_eq, UInt32.le_iff_toNat_le] at h
  change 48 ≤ c.toNat ∧ c.toNat ≤ 57 at h
  rw [← Bool.not_eq_true]
  simp only [Text.isBlank, Bool.or_eq_true, Bool.and_eq_true, decide_eq_true_eq, beq_iff_eq]
  omega

theorem exists_cons_of_isName {cs : List Char} (h : isName cs = true) :
    ∃ c rest, cs = c :: rest ∧ isNameStart c = true ∧ ∀ d ∈ rest, isNameContinue d = true := by
  cases cs with
  | nil => cases h
  | cons c cs =>
    rw [isName, Bool.and_eq_true, List.all_eq_true] at h
    exact ⟨c, cs, rfl, h⟩

theorem isNameContinue_of_isName {cs : List Char} (h : isName cs = true) :
    ∀ c ∈ cs, isNameContinue c = true := by
  obtain ⟨c, cs, rfl, hstart, hcs⟩ := exists_cons_of_isName h
  refine List.forall_mem_cons.2 ⟨?_, hcs⟩
  simp only [isNameStart, isNameContinue, Char.isAlphanum, Bool.or_eq_true] at hstart ⊢
  tauto

/-- A name is read up to the first character that does not continue it. -/
theorem bareToken_name {text : String} (h : isName text.toList = true)
    (hrest : Stops isNameContinue rest) (offset : Nat) :
    bareToken template ⟨text.toList ++ rest, offset⟩ =
      .ok (.name text, ⟨rest, offset + Text.byteSize text.toList⟩) := by
  obtain ⟨c, cs, htext, hstart, -⟩ := exists_cons_of_isName h
  have hall : ∀ d ∈ c :: cs, isNameContinue d = true := htext ▸ isNameContinue_of_isName h
  have hquote : ¬ (c = '"' ∨ c = '\'') := by
    rintro (rfl | rfl)
    · exact absurd hstart (by decide)
    · exact absurd hstart (by decide)
  have hback : c ≠ '\x60' := by
    rintro rfl
    exact absurd hstart (by decide)
  have hdigit : ¬ c.isDigit = true := ne_true_of_eq_false (isDigit_of_isNameStart hstart)
  have hrun := run_append hall hrest offset
  have hofList : String.ofList (c :: cs) = text := by rw [← htext, String.ofList_toList]
  unfold bareToken
  rw [htext]
  simp only [List.cons_append] at hrun ⊢
  rw [if_neg hquote, if_neg hback, if_neg hdigit, if_pos hstart, hrun, hofList]

theorem readsToken_name {text : String} (h : isName text.toList = true) :
    ReadsToken template (.name text) := fun _ rest offset hs =>
  ⟨.name text, _, bareToken_name h (stops_of_isSeparator (by decide) (by decide) hs rest) offset,
    .name text⟩

theorem exists_cons_toDigits (n : Nat) :
    ∃ c cs, Nat.toDigits 10 n = c :: cs ∧ ∀ d ∈ c :: cs, d.isDigit = true := by
  obtain ⟨c, cs, hcs⟩ := List.exists_cons_of_ne_nil (Nat.toDigits_ne_nil (n := n) (b := 10))
  refine ⟨c, cs, hcs, fun d hd => ?_⟩
  rw [← hcs] at hd
  exact Nat.isDigit_of_mem_toDigits (by decide) (by decide) hd

/-- The characters of a whole number are digits. -/
theorem chars_number {n : Nat} (hn : n < 2 ^ 53) :
    (Spelled.number (Float.ofNat n)).chars = Nat.toDigits 10 n ∧
      ∃ c cs, Nat.toDigits 10 n = c :: cs ∧ ∀ d ∈ c :: cs, d.isDigit = true := by
  constructor
  · rw [chars, Number.stringText_ofNat hn, Nat.toString_eq_ofList_toDigits, String.toList_ofList]
  · exact exists_cons_toDigits n

def goesOnNumber (c : Char) : Bool := isNameContinue c || c == '.'

theorem isDigit_of_goesOnNumber (h : goesOnNumber c = false) : c.isDigit = false := by
  simp only [goesOnNumber, isNameContinue, Char.isAlphanum, Bool.or_eq_false_iff] at h
  exact h.1.1.1.2

/-- A whole number is read up to the first character that does not go on with it. -/
theorem bareToken_number {n : Nat} (hrest : Stops goesOnNumber rest) (offset : Nat) :
    bareToken template ⟨Nat.toDigits 10 n ++ rest, offset⟩ =
      .ok (.number (Float.ofNat n), ⟨rest, offset + Text.byteSize (Nat.toDigits 10 n)⟩) := by
  obtain ⟨c, cs, hcs, hdigits⟩ := exists_cons_toDigits n
  rw [← hcs] at hdigits
  have hrun := run_append hdigits (fun c hc => isDigit_of_goesOnNumber (hrest c hc)) offset
  have hnumber : Lexer.number ⟨Nat.toDigits 10 n ++ rest, offset⟩ =
      (.number (Float.ofNat n), ⟨rest, offset + Text.byteSize (Nat.toDigits 10 n)⟩) := by
    have hfraction (q : Nat) : fraction? ⟨rest, q⟩ = none := by
      unfold fraction?
      split
      · rename_i heq
        cases heq
        exact absurd (hrest '.' rfl) (by decide)
      · rfl
    have hexponent (q : Nat) : exponent? ⟨rest, q⟩ = none := by
      unfold exponent?
      split
      · rename_i mark more heq
        cases heq
        refine if_neg ?_
        rintro (rfl | rfl)
        · exact absurd (hrest 'e' rfl) (by decide)
        · exact absurd (hrest 'E' rfl) (by decide)
      · rfl
    simp only [Lexer.number, hrun, hfraction, hexponent, Option.getD_none,
      Number.ofDecimal_toDigits]
  rw [hcs] at hdigits hnumber ⊢
  have hc : c.isDigit = true := hdigits c List.mem_cons_self
  have hquote : ¬ (c = '"' ∨ c = '\'') := by
    rintro (rfl | rfl)
    · exact absurd hc (by decide)
    · exact absurd hc (by decide)
  have hback : c ≠ '\x60' := by
    rintro rfl
    exact absurd hc (by decide)
  unfold bareToken
  simp only [List.cons_append] at hnumber ⊢
  rw [if_neg hquote, if_neg hback, if_pos hc, hnumber]

theorem readsToken_number {n : Nat} (hn : n < 2 ^ 53) :
    ReadsToken template (.number (Float.ofNat n)) := fun s rest offset hs => by
  rw [(chars_number hn).1]
  exact ⟨_, _, bareToken_number (stops_of_isSeparator (by decide) (by decide) hs rest) offset,
    .number _⟩

/-- A character that is not the quote, a backslash or a line break stands for itself. -/
theorem string_plain {quote c : Char} (hquote : c ≠ quote) (hback : c ≠ '\\') (hline : c ≠ '\n')
    (more : List Char) (start : Nat) (text : List Char) (offset : Nat) :
    Lexer.string quote start text ⟨c :: more, offset⟩ =
      Lexer.string quote start (c :: text) ⟨more, offset + Text.byteSize [c]⟩ := by
  rw [Lexer.string.eq_def]
  simp only [if_neg hquote, if_neg hback, if_neg hline]
  rfl

/-- A backslash and what is read as an escape stand for the character that is read. -/
theorem string_escape {quote c : Char} (hquote : '\\' ≠ quote) {e more : List Char}
    {offset offset' : Nat}
    (h : escape offset ⟨e ++ more, offset + Text.byteSize ['\\']⟩ = .ok (c, ⟨more, offset'⟩))
    (start : Nat) (text : List Char) :
    Lexer.string quote start text ⟨'\\' :: e ++ more, offset⟩ =
      Lexer.string quote start (c :: text) ⟨more, offset'⟩ := by
  rw [Lexer.string.eq_def]
  dsimp only [List.cons_append]
  rw [if_neg (by decide), if_neg hquote, if_pos rfl]
  split
  · rename_i heq
    cases h.symm.trans heq
    rfl
  · rename_i heq
    cases h.symm.trans heq

/-- Characters between quotes that are read as one, whatever follows them. -/
def ReadsAs (quote : Char) (cs : List Char) (c : Char) : Prop :=
  ∀ more start text offset, ∃ offset',
    Lexer.string quote start text ⟨cs ++ more, offset⟩ =
      Lexer.string quote start (c :: text) ⟨more, offset'⟩

/-- A way to write the characters between double quotes that is read back. -/
def ReadsQuoted (write : Char → List Char) : Prop := ∀ c, ReadsAs '"' (write c) c

theorem readsQuoted_quotedChar : ReadsQuoted quotedChar := by
  intro c more start text offset
  unfold quotedChar
  split
  · exact ⟨_, string_escape (by decide) (e := ['"']) (by subst c; rfl) start text⟩
  split
  · exact ⟨_, string_escape (by decide) (e := ['\\']) (by subst c; rfl) start text⟩
  split
  · exact ⟨_, string_escape (by decide) (e := ['n']) (by subst c; rfl) start text⟩
  · exact ⟨_, string_plain ‹_› ‹_› ‹_› more start text offset⟩

/-- Pieces that are read as one character each are read up to the quote behind them. -/
theorem string_flatten {quote : Char} {pieces : List (List Char)} {cs : List Char}
    (hline : quote ≠ '\n') (h : List.Forall₂ (ReadsAs quote) pieces cs) (rest : List Char)
    (start : Nat) (text : List Char) (offset : Nat) :
    ∃ offset', Lexer.string quote start text ⟨pieces.flatten ++ quote :: rest, offset⟩ =
      .ok (String.ofList (text.reverse ++ cs), ⟨rest, offset'⟩) := by
  induction h generalizing text offset with
  | nil =>
    refine ⟨offset + Text.byteSize [quote], ?_⟩
    rw [List.flatten_nil, List.nil_append, List.append_nil, Lexer.string.eq_def]
    simp only [if_neg hline, if_true]
    rfl
  | @cons piece c pieces cs hpiece _ ih =>
    rw [List.flatten_cons, List.append_assoc]
    obtain ⟨middle, hchar⟩ := hpiece (pieces.flatten ++ quote :: rest) start text offset
    obtain ⟨offset', hrest⟩ := ih (c :: text) middle
    refine ⟨offset', ?_⟩
    rw [hchar, hrest, List.reverse_cons, List.append_assoc]
    rfl

/-- Pieces between quotes are read as a text whatever follows. -/
theorem bareToken_flatten (template : TemplateReader) {quote : Char} {pieces : List (List Char)}
    {cs : List Char} (hquote : quote = '"' ∨ quote = '\'')
    (h : List.Forall₂ (ReadsAs quote) pieces cs) (rest : List Char) (offset : Nat) :
    ∃ offset', bareToken template ⟨quote :: (pieces.flatten ++ quote :: rest), offset⟩ =
      .ok (.string (String.ofList cs), ⟨rest, offset'⟩) := by
  have hline : quote ≠ '\n' := by
    rintro rfl
    exact absurd hquote (by decide)
  obtain ⟨offset', hread⟩ := string_flatten hline h rest offset []
    (offset + Text.byteSize [quote])
  refine ⟨offset', ?_⟩
  rw [bareToken]
  dsimp only
  rw [if_pos hquote]
  exact congrArg (Except.map fun r : String × Position => (Token.string r.1, r.2)) hread

theorem forall₂_map {α β : Type} {f : α → β} {R : β → α → Prop} (h : ∀ a, R (f a) a)
    (as : List α) : List.Forall₂ R (as.map f) as := by
  rw [List.forall₂_map_left_iff]
  exact List.forall₂_same.2 fun a _ => h a

/-- A text between double quotes is read whatever follows. -/
theorem bareToken_string {write : Char → List Char} (h : ReadsQuoted write) (text : String)
    (rest : List Char) (offset : Nat) :
    ∃ offset', bareToken template
        ⟨'"' :: (text.toList.flatMap write ++ ['"']) ++ rest, offset⟩ =
      .ok (.string text, ⟨rest, offset'⟩) := by
  have hread := bareToken_flatten template (.inl rfl) (forall₂_map h text.toList)
    rest offset
  rw [String.ofList_toList] at hread
  rw [List.cons_append, List.append_assoc]
  exact hread

theorem readsToken_string (text : String) : ReadsToken template (.string text) := by
  intro s rest offset _
  obtain ⟨offset', hread⟩ := bareToken_string readsQuoted_quotedChar text (s :: rest) offset
  exact ⟨.string text, offset', hread, .string text⟩

theorem punct?_append (rest : List Char) (p : Punct) (hs : IsSeparator s) :
    punct? (p.text.toList ++ s :: rest) = some (p, p.text.toList.length) := by
  obtain rfl | rfl := hs
  · cases p <;> rfl
  · cases p <;> rfl

/-- Punctuation begins with a character that no other token begins with. -/
theorem punct_text_eq (p : Punct) : ∃ c cs, p.text.toList = c :: cs ∧
    (c ≠ '"' ∧ c ≠ '\'' ∧ c ≠ '\x60') ∧ (c.isDigit = false ∧ isNameStart c = false) ∧
      Text.isBlank c = false ∧ (c = '/' → cs = []) := by
  cases p <;> exact ⟨_, _, rfl, by decide, by decide, by decide, by decide⟩

/-- Punctuation is read as such where no longer one begins. -/
theorem bareToken_punct {p : Punct}
    (h : punct? (p.text.toList ++ rest) = some (p, p.text.toList.length)) (offset : Nat) :
    bareToken template ⟨p.text.toList ++ rest, offset⟩ =
      .ok (.punct p, ⟨rest, offset + Text.byteSize p.text.toList⟩) := by
  have hskip : Position.skip ⟨p.text.toList ++ rest, offset⟩ p.text.toList.length =
      ⟨rest, offset + Text.byteSize p.text.toList⟩ := by
    rw [Position.skip, List.drop_left, List.take_left]
  obtain ⟨c, cs, htext, ⟨hdouble, hsingle, hback⟩, ⟨hdigit, hstart⟩, -⟩ := punct_text_eq p
  rw [← hskip]
  rw [htext] at h ⊢
  unfold bareToken
  simp only [List.cons_append] at h ⊢
  rw [if_neg (by tauto), if_neg hback, if_neg (ne_true_of_eq_false hdigit),
    if_neg (ne_true_of_eq_false hstart), h]

theorem readsToken_punct (p : Punct) : ReadsToken template (.punct p) := fun _ rest offset hs =>
  ⟨.punct p, _, bareToken_punct (punct?_append rest p hs) offset, .punct p⟩

/-- No gap goes on at the first character of a token. -/
theorem endsGap_valid (rest : List Char) {t : Spelled} (h : t.Valid) (hs : IsSeparator s) :
    EndsGap (t.chars ++ s :: rest) := by
  cases h with
  | @name text h =>
    obtain ⟨c, cs, htext, hstart, -⟩ := exists_cons_of_isName h
    rw [chars, htext]
    refine ⟨isBlank_of_isNameStart hstart, ?_⟩
    rintro rfl
    exact absurd hstart (by decide)
  | string text => exact ⟨rfl, fun h => absurd h (by decide)⟩
  | @number n small =>
    obtain ⟨hchars, c, cs, hcs, hdigits⟩ := chars_number small
    have hc : c.isDigit = true := hdigits c List.mem_cons_self
    rw [hchars, hcs]
    refine ⟨isBlank_of_isDigit hc, ?_⟩
    rintro rfl
    exact absurd hc (by decide)
  | template => exact ⟨rfl, fun h => absurd h (by decide)⟩
  | punct p =>
    obtain ⟨c, cs, htext, -, -, hblank, hslash⟩ := punct_text_eq p
    rw [chars, htext]
    refine ⟨hblank, fun hc => ?_⟩
    rw [hslash hc]
    rcases hs with rfl | rfl
    · exact ⟨by simp, by simp⟩
    · exact ⟨by simp, by simp⟩

theorem lexeme_blanks (rest : List Char) {t : Spelled} (hvalid : t.Valid)
    (hread : ReadsToken template t) (hs : IsSeparator s) {fresh : Bool} {blanks : List Char}
    (hb : Blanks fresh blanks)
    (offset : Nat) : ∃ l offset',
      lexeme template ⟨blanks ++ (t.chars ++ s :: rest), offset⟩ =
        .ok (l, ⟨s :: rest, offset'⟩) ∧ t.Reads l.token ∧ l.newlineBefore = fresh := by
  obtain ⟨middle, hgap⟩ := passGap_blanks hb (endsGap_valid rest hvalid hs) offset
  obtain ⟨token, offset', htoken, hreads⟩ := hread s rest middle hs
  refine ⟨.mk token ⟨middle, offset'⟩ none fresh, offset', ?_, hreads, rfl⟩
  unfold lexeme
  rw [hgap]
  show (bareToken template ⟨t.chars ++ s :: rest, middle⟩ >>= _) = _
  rw [htoken]
  rfl

theorem length_le_lineChars (ts : List Spelled) : ts.length ≤ (lineChars ts).length := by
  induction ts with
  | nil => exact Nat.zero_le _
  | cons t ts ih =>
    simp only [lineChars, List.length_cons, List.length_append]
    omega

theorem hole_append (rest : List Char) {ts : List Spelled}
    (hts : ∀ t ∈ ts, t.Valid ∧ ReadsToken template t) {depth : Nat}
    (hd : bracesAfter depth ts = some 0) {fresh : Bool} {blanks : List Char}
    (hb : Blanks fresh blanks) (start : Nat) (tokens : List Lexeme) (rounds : List Char)
    (hr : ts.length ≤ rounds.length) (offset : Nat) :
    ∃ ls brace offset',
      hole template start depth tokens rounds
          ⟨blanks ++ (lineChars ts ++ '\x7d' :: rest), offset⟩ =
        .ok (tokens.reverse ++ (ls ++ [.endAt brace]), ⟨rest, offset'⟩) ∧
      ReadsAll fresh ts ls := by
  -- A token is left before the blank behind it, which is the gap before the next one.
  induction ts generalizing depth fresh blanks tokens rounds offset with
  | nil =>
    cases hd
    have hgap : EndsGap ('\x7d' :: rest) := ⟨rfl, fun h => absurd h (by decide)⟩
    obtain ⟨middle, hgap⟩ := passGap_blanks hb hgap offset
    refine ⟨[], ⟨middle, middle + Text.byteSize ['\x7d']⟩, middle + Text.byteSize ['\x7d'], ?_,
      .nil fresh⟩
    rw [hole_eq, lexeme, lineChars, List.nil_append, hgap]
    have hreverse (l : Lexeme) : tokens.reverse ++ ([] ++ [l]) = (l :: tokens).reverse := by simp
    rw [hreverse]
    rfl
  | cons t ts ih =>
    rw [bracesAfter] at hd
    split at hd
    · cases hd
    rename_i hnot
    obtain ⟨ht, hts⟩ := List.forall_mem_cons.1 hts
    cases rounds with
    | nil => simp at hr
    | cons r rounds =>
      have hchars : lineChars (t :: ts) ++ '\x7d' :: rest =
          t.chars ++ t.separator :: (lineChars ts ++ '\x7d' :: rest) := by
        rw [lineChars, List.append_assoc, List.cons_append]
      obtain ⟨l, middle, hlexeme, hreads, hline⟩ := lexeme_blanks
        (lineChars ts ++ '\x7d' :: rest) ht.1 ht.2 (isSeparator_separator t) hb offset
      obtain ⟨ls, brace, offset', hhole, hall⟩ := ih hts hd (blanks_separator t) (l :: tokens)
        rounds (by simpa using hr) middle
      refine ⟨l :: ls, brace, offset', ?_, .cons hreads (fun h => hline ▸ h) hall⟩
      have hreverse : (l :: tokens).reverse ++ (ls ++ [.endAt brace]) =
          tokens.reverse ++ (l :: ls ++ [.endAt brace]) := by simp
      rw [← hreverse, ← hhole, hole_eq, hchars, hlexeme]
      have hend : l.isEnd = false := hreads.isEnd_eq
      change (if l.isPunct .rightBrace = true ∧ depth = 0 then _ else _) = _
      simp only [Lexeme.isPunct, hreads.isPunct_eq, hend, if_neg hnot]
      rfl

theorem lexemes_of_lexeme {l : Lexeme} {p q : Position} (h : lexeme template p = .ok (l, q))
    (hend : l.isEnd = false) (done : List Lexeme) (r : Char) (rounds : List Char) :
    lexemes template done (r :: rounds) p = lexemes template (l :: done) rounds q := by
  rw [lexemes, h]
  dsimp only
  rw [hend]

theorem lexemes_append {ts : List Spelled} (hts : ∀ t ∈ ts, t.Valid ∧ ReadsToken template t)
    {fresh : Bool} {blanks : List Char} (hb : Blanks fresh blanks) (done : List Lexeme)
    (rounds : List Char) (hr : ts.length ≤ rounds.length) (offset : Nat) :
    ∃ ls stop, lexemes template done rounds ⟨blanks ++ lineChars ts, offset⟩ =
        .ok (done.reverse ++ (ls ++ [stop])) ∧ stop.isEnd = true ∧ ReadsAll fresh ts ls := by
  induction ts generalizing fresh blanks done rounds offset with
  | nil =>
    obtain ⟨offset', hgap⟩ := passGap_blanks hb (show EndsGap [] from trivial) offset
    refine ⟨[], .mk .endOfInput ⟨offset', offset'⟩ none fresh, ?_, rfl, .nil fresh⟩
    rw [lexemes_eq, lexeme, lineChars, hgap]
    have hreverse (l : Lexeme) : done.reverse ++ ([] ++ [l]) = (l :: done).reverse := by simp
    rw [hreverse]
    rfl
  | cons t ts ih =>
    obtain ⟨ht, hts⟩ := List.forall_mem_cons.1 hts
    cases rounds with
    | nil => simp at hr
    | cons r rounds =>
      obtain ⟨l, middle, hlexeme, hreads, hline⟩ := lexeme_blanks
        (lineChars ts) ht.1 ht.2 (isSeparator_separator t) hb offset
      obtain ⟨ls, stop, hlexemes, hstop, hall⟩ := ih hts (blanks_separator t) (l :: done)
        rounds (by simpa using hr) middle
      refine ⟨l :: ls, stop, ?_, hstop, .cons hreads (fun h => hline ▸ h) hall⟩
      have hreverse : (l :: done).reverse ++ (ls ++ [stop]) =
          done.reverse ++ (l :: ls ++ [stop]) := by simp
      have hend : l.isEnd = false := hreads.isEnd_eq
      rw [← hreverse, ← hlexemes, lineChars, lexemes_of_lexeme hlexeme hend]
      rfl

/-- A character of the text of a template is read as itself. -/
theorem pieces_templateChar (template : TemplateReader) (c : Char) (more : List Char) (start : Nat)
    (text : List Char) (done : List Piece) (r : Char) (rounds : List Char) (offset : Nat) :
    ∃ offset', pieces template start text done (r :: rounds) ⟨templateChar c ++ more, offset⟩ =
      pieces template start (c :: text) done rounds ⟨more, offset'⟩ := by
  by_cases hc : c = '\x60' ∨ c = '\\' ∨ c = '$'
  · refine ⟨offset + Text.byteSize ['\\'] + Text.byteSize [c], ?_⟩
    rw [templateChar, if_pos hc]
    rcases hc with rfl | rfl | rfl
    · rfl
    · rfl
    · rfl
  · refine ⟨offset + Text.byteSize [c], ?_⟩
    rw [templateChar, if_neg hc]
    simp only [not_or] at hc
    rw [pieces.eq_def]
    split
    · rename_i heq
      cases heq
      exact absurd rfl hc.1
    · rename_i heq hrounds
      cases heq
      cases hrounds
      rw [if_neg hc.2.1, if_neg fun h => hc.2.2 h.1]
      rfl
    · rename_i _ hsome
      exact absurd rfl (hsome _ _ _ _ rfl)

theorem length_templateChar_pos (c : Char) : 0 < (templateChar c).length := by
  unfold templateChar
  split
  · exact Nat.zero_lt_two
  · exact Nat.one_pos

theorem pieces_text (template : TemplateReader) (cs more : List Char) (start : Nat)
    (text : List Char) (done : List Piece) (rounds : List Char)
    (hr : (cs.flatMap templateChar ++ more).length ≤ rounds.length) (offset : Nat) :
    ∃ rounds' offset', more.length ≤ rounds'.length ∧
      pieces template start text done rounds ⟨cs.flatMap templateChar ++ more, offset⟩ =
        pieces template start (cs.reverse ++ text) done rounds' ⟨more, offset'⟩ := by
  induction cs generalizing text rounds offset with
  | nil => exact ⟨rounds, offset, hr, rfl⟩
  | cons c cs ih =>
    have hlength := length_templateChar_pos c
    rw [List.flatMap_cons, List.append_assoc] at hr ⊢
    rw [List.length_append] at hr
    obtain ⟨r, rounds, rfl⟩ := List.exists_cons_of_length_pos (show 0 < rounds.length by omega)
    obtain ⟨middle, hchar⟩ := pieces_templateChar template c (cs.flatMap templateChar ++ more)
      start text done r rounds offset
    obtain ⟨rounds', offset', hmore, hrest⟩ := ih (c :: text) rounds
      (by rw [List.length_cons] at hr; omega) middle
    refine ⟨rounds', offset', hmore, ?_⟩
    rw [hchar, hrest, List.reverse_cons, List.append_assoc]
    rfl

theorem pieces_hole (more : List Char) (start : Nat) (text : List Char) (done : List Piece)
    (r : Char) (rounds : List Char) (offset : Nat) :
    pieces template start text done (r :: rounds) ⟨'$' :: '\x7b' :: more, offset⟩ =
      match hole template start 0 [] ('\x7b' :: more)
        ⟨more, offset + Text.byteSize ['$', '\x7b']⟩ with
      | .ok (tokens, q) => pieces template start [] (.hole tokens :: flush text done) rounds q
      | .error e => .error e := rfl

def closed (all : List Piece) : List Piece := if all.isEmpty then [.text ""] else all

theorem flush_eq_cons {text : List Char} (h : text ≠ []) (done : List Piece) :
    flush text done = .text (String.ofList text.reverse) :: done := by
  rw [flush, if_neg (by simpa using h)]

/-- The first piece of a template whose texts are apart, if that is a text. -/
theorem TextsApart.of_text {s : String} {texts : List (Option String)}
    (h : TextsApart (some s :: texts)) :
    s ≠ "" ∧ TextsApart texts ∧ ∀ s', texts.head? ≠ some (some s') := by
  match texts, h with
  | [], h => exact ⟨h, trivial, nofun⟩
  | none :: texts, h => exact ⟨h.1, h.2, nofun⟩

theorem pieces_append (rest : List Char) {ps : List SpelledPiece}
    (shape : TextsApart (ps.map SpelledPiece.text?))
    (hps : ∀ ts, .hole ts ∈ ps →
      Balanced ts ∧ ∀ t ∈ ts, t.Valid ∧ ReadsToken template t)
    (start : Nat) (text : List Char)
    (ht : text = [] ∨ ∀ s, (ps.map SpelledPiece.text?).head? ≠ some (some s))
    (done : List Piece) (rounds : List Char)
    (hr : (pieceChars ps ++ '\x60' :: rest).length ≤ rounds.length) (offset : Nat) :
    ∃ qs offset', pieces template start text done rounds
        ⟨pieceChars ps ++ '\x60' :: rest, offset⟩ =
      .ok (closed ((flush text done).reverse ++ qs), ⟨rest, offset'⟩) ∧ ReadsPieces ps qs := by
  -- `text` is empty unless a text has just been passed, and then no other text follows.
  induction ps generalizing text done rounds offset with
  | nil =>
    refine ⟨[], offset + Text.byteSize ['\x60'], ?_, .nil⟩
    rw [List.append_nil, closed, List.isEmpty_reverse, pieces.eq_def]
    rfl
  | cons p ps ih =>
    have hrest : ∀ ts, .hole ts ∈ ps → Balanced ts ∧ ∀ t ∈ ts, t.Valid ∧ ReadsToken template t :=
      fun ts hts => hps ts (List.mem_cons_of_mem _ hts)
    cases p with
    | text s =>
      obtain ⟨hs, hapart, hnext⟩ := TextsApart.of_text shape
      obtain rfl : text = [] := ht.resolve_right fun h => h s rfl
      rw [pieceChars, List.append_assoc] at hr ⊢
      obtain ⟨rounds', middle, hr', htext⟩ := pieces_text template s.toList
        (pieceChars ps ++ '\x60' :: rest) start [] done rounds hr offset
      obtain ⟨qs, offset', hread, hpieces⟩ := ih hapart hrest (s.toList.reverse ++ [])
        (.inr hnext) done rounds' hr' middle
      refine ⟨.text s :: qs, offset', ?_, .text s hpieces⟩
      have hne : s.toList.reverse ++ [] ≠ [] := by simpa using hs
      rw [htext, hread, flush_eq_cons hne]
      simp [flush]
    | hole ts =>
      obtain ⟨hbalanced, hts⟩ := hps ts List.mem_cons_self
      have hchars : pieceChars (.hole ts :: ps) ++ '\x60' :: rest =
          '$' :: '\x7b' :: (lineChars ts ++ '\x7d' :: (pieceChars ps ++ '\x60' :: rest)) := by
        simp [pieceChars]
      rw [hchars] at hr ⊢
      cases rounds with
      | nil => simp at hr
      | cons r rounds =>
        obtain ⟨ls, brace, middle, hhole, hall⟩ := hole_append
          (pieceChars ps ++ '\x60' :: rest) hts (hbalanced 0) .none start []
          ('\x7b' :: (lineChars ts ++ '\x7d' :: (pieceChars ps ++ '\x60' :: rest)))
          (by
            have := length_le_lineChars ts
            simp only [List.length_cons, List.length_append]
            omega) (offset + Text.byteSize ['$', '\x7b'])
        obtain ⟨qs, offset', hread, hpieces⟩ := ih shape hrest [] (.inl rfl)
          (.hole (ls ++ [.endAt brace]) :: flush text done) rounds (by
            simp only [List.length_cons, List.length_append] at hr ⊢
            omega) middle
        refine ⟨.hole (ls ++ [.endAt brace]) :: qs, offset', ?_, .hole brace hall hpieces⟩
        have hreverse :
            (flush [] (.hole (ls ++ [.endAt brace]) :: flush text done)).reverse ++ qs =
              (flush text done).reverse ++ .hole (ls ++ [.endAt brace]) :: qs := by
          simp [flush]
        rw [← hreverse, ← hread, pieces_hole]
        simp only [List.nil_append, List.reverse_nil] at hhole
        rw [hhole]

theorem readsToken_template {ps : List SpelledPiece}
    (shape : TemplateShape (ps.map SpelledPiece.text?)) {limit levels : Nat}
    (hps : ∀ ts, .hole ts ∈ ps → Balanced ts ∧
      ∀ t ∈ ts, t.Valid ∧ ReadsToken (Lexer.template limit levels) t) :
    ReadsToken (Lexer.template limit (levels + 1)) (.template ps) := by
  intro s rest offset _
  have hread : ∃ qs offset', Lexer.template limit (levels + 1) offset
      ⟨pieceChars ps ++ '\x60' :: s :: rest, offset + Text.byteSize ['\x60']⟩ =
        .ok (qs, ⟨s :: rest, offset'⟩) ∧ ReadsPieces ps qs := by
    rw [Lexer.template]
    obtain hempty | ⟨hne, hapart⟩ := shape
    · obtain ⟨p, rfl, hp⟩ := List.map_eq_singleton_iff.1 hempty
      cases p with
      | hole ts => cases hp
      | text s =>
        cases hp
        exact ⟨[.text ""], _, rfl, .text "" .nil⟩
    · obtain ⟨qs, offset', hread, hpieces⟩ := pieces_append (s :: rest) hapart hps offset
        [] (.inl rfl) [] _ (Nat.le_refl _) (offset + Text.byteSize ['\x60'])
      refine ⟨qs, offset', ?_, hpieces⟩
      have hqs : qs.isEmpty = false := by
        cases hpieces with
        | nil => exact absurd rfl hne
        | text => rfl
        | hole => rfl
      rw [hread]
      simp [flush, closed, hqs]
  obtain ⟨qs, offset', hread, hpieces⟩ := hread
  refine ⟨.template qs, offset', ?_, .template hpieces⟩
  have hchars : (Spelled.template ps).chars ++ s :: rest =
      '\x60' :: (pieceChars ps ++ '\x60' :: s :: rest) := by
    rw [chars, List.cons_append, List.append_assoc]
    rfl
  rw [hchars, bareToken]
  exact congrArg (Except.map fun r : List Piece × Position => (Token.template r.1, r.2)) hread

/-- A valid token is read if templates may be nested deep enough. -/
theorem eventually_readsToken {t : Spelled} (h : t.Valid) :
    ∀ᶠ levels in atTop, ∀ limit, ReadsToken (Lexer.template limit levels) t := by
  induction h with
  | name h => exact .of_forall fun _ _ => readsToken_name h
  | string text => exact .of_forall fun _ _ => readsToken_string text
  | number small => exact .of_forall fun _ _ => readsToken_number small
  | punct p => exact .of_forall fun _ _ => readsToken_punct p
  | @template ps shape balanced tokens ih =>
    apply eventually_of_succ
    have hholes := eventually_forall_mem_of_injective (fun _ _ h => SpelledPiece.hole.inj h)
      fun ts hts => eventually_forall_mem (ih ts hts)
    filter_upwards [hholes] with levels hholes limit
    exact readsToken_template shape fun ts hts =>
      ⟨balanced ts hts, fun t ht => ⟨tokens ts hts t ht, hholes ts hts t ht limit⟩⟩

end Lexer

/-- The text of valid tokens is read as the tokens if templates may be nested deep enough. -/
theorem eventually_tokenizeWithin {ts : List Spelled} (h : ∀ t ∈ ts, t.Valid) :
    ∀ᶠ depth in atTop, ∃ ls stop,
      tokenizeWithin depth (String.ofList (Spelled.lineChars ts)) = .ok (ls ++ [stop]) ∧
        stop.isEnd = true ∧ Spelled.ReadsAll false ts ls := by
  have htokens := eventually_forall_mem fun t ht => Lexer.eventually_readsToken (h t ht)
  filter_upwards [htokens] with depth hread
  rw [tokenizeWithin, Position.start, String.toList_ofList]
  exact Lexer.lexemes_append (fun t ht => ⟨h t ht, hread t ht depth⟩) .none []
    _ (Lexer.length_le_lineChars ts) 0

end TypedConfig
