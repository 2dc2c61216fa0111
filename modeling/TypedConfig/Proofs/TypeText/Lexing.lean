import TypedConfig.Proofs.TypeText.Spelling
import TypedConfig.Proofs.Written.Reading

/-! # Tokens of type texts

The text of a type has just the tokens that it is spelled with. No blank stands between some of
them, so each is told apart by the character that follows it.
-/

namespace TypedConfig

open Spelled

theorem Spelled.ReadsAll.relax {fresh : Bool} {ts : List Spelled} {ls : List Lexeme}
    (h : ReadsAll false ts ls) : ReadsAll fresh ts ls := by
  cases fresh with
  | false => exact h
  | true => exact h.fresh

theorem Spelled.ReadsAll.append {fresh : Bool} {ts us : List Spelled} {ls ms : List Lexeme}
    (h : ReadsAll fresh ts ls) (h' : ReadsAll false us ms) :
    ReadsAll fresh (ts ++ us) (ls ++ ms) := by
  induction ts generalizing fresh ls with
  | nil =>
    cases h
    exact h'.relax
  | cons t ts ih =>
    cases h with
    | cons token line rest => exact .cons token line (ih rest)

namespace Lexer

variable {template : TemplateReader} {p q r : Position} {cs ds rest : List Char}
variable {ts us : List Spelled} {ls ms : List Lexeme}

inductive Passes (template : TemplateReader) : Position → List Lexeme → Position → Prop
  | nil (p : Position) : Passes template p [] p
  | cons {p q r : Position} {l : Lexeme} {ls : List Lexeme} (token : lexeme template p = .ok (l, q))
    (inside : l.isEnd = false) (rest : Passes template q ls r) : Passes template p (l :: ls) r

theorem Passes.append (h : Passes template p ls q) (h' : Passes template q ms r) :
    Passes template p (ls ++ ms) r := by
  induction h with
  | nil => exact h'
  | cons token inside _ ih => exact .cons token inside (ih h')

theorem lexemes_of_passes (h : Passes template p ls q) (done : List Lexeme) {rounds : List Char}
    (hr : ls.length ≤ rounds.length) :
    lexemes template done rounds p =
      lexemes template (ls.reverse ++ done) (rounds.drop ls.length) q := by
  induction h generalizing done rounds with
  | nil => rfl
  | @cons p q r l ls token inside _ ih =>
    cases rounds with
    | nil => simp at hr
    | cons c rounds =>
      rw [lexemes_of_lexeme token inside, ih (l :: done) (Nat.le_of_succ_le_succ hr),
        List.reverse_cons, List.append_assoc]
      rfl

/-- Whether a token that is no single mark may go on with a character. -/
def goesOn (c : Char) : Bool := goesOnNumber c || c == '|'

theorem Stops.append {ok : Char → Bool} (h : Stops ok cs) (h' : Stops ok ds) :
    Stops ok (cs ++ ds) := by
  cases cs with
  | nil => exact h'
  | cons c cs => exact h

theorem Stops.goesOnNumber (h : Stops goesOn cs) : Stops goesOnNumber cs := fun c hc =>
  (Bool.or_eq_false_iff.1 (h c hc)).1

theorem Stops.isNameContinue (h : Stops goesOn cs) : Stops isNameContinue cs := fun c hc =>
  (Bool.or_eq_false_iff.1 (h.goesOnNumber c hc)).1

/-- Characters that are read as some tokens in front of all that does not go on with the last. -/
structure LexedAs (cs : List Char) (ts : List Spelled) : Prop where
  length : ts.length ≤ cs.length
  passes : ∀ template rest offset, Stops goesOn rest → ∃ ls offset',
    Passes template ⟨cs ++ rest, offset⟩ ls ⟨rest, offset'⟩ ∧ ReadsAll false ts ls

/-- The characters of a token in front of all that does not go on with it. -/
structure LexedToken (cs : List Char) (t : Spelled) : Prop where
  nonempty : cs ≠ []
  gap : ∀ rest, EndsGap (cs ++ rest)
  reads : ∀ template rest offset, Stops goesOn rest → ∃ token offset',
    bareToken template ⟨cs ++ rest, offset⟩ = .ok (token, ⟨rest, offset'⟩) ∧ t.Reads token

theorem lexeme_of_bareToken {token : Token} {offset offset' : Nat} (hgap : EndsGap cs)
    (h : bareToken template ⟨cs, offset⟩ = .ok (token, ⟨rest, offset'⟩)) :
    lexeme template ⟨cs, offset⟩ =
      .ok (.mk token ⟨offset, offset'⟩ none false, ⟨rest, offset'⟩) := by
  unfold lexeme
  rw [passGap_of_endsGap _ hgap]
  show (bareToken template ⟨cs, offset⟩ >>= _) = _
  rw [h]
  rfl

theorem lexeme_blank (template : TemplateReader) (cs : List Char) (offset : Nat) :
    lexeme template ⟨' ' :: cs, offset⟩ = lexeme template ⟨cs, offset + ' '.utf8Size⟩ := by
  have hgap : passGap ⟨none, false⟩ ⟨' ' :: cs, offset⟩ =
      passGap ⟨none, false⟩ ⟨cs, offset + ' '.utf8Size⟩ := by
    rw [passGap.eq_def]
    rfl
  rw [lexeme, hgap, lexeme]

/-- Tokens up to the end of a source are all its tokens but the end token. -/
theorem tokens_of_passes {text : String} {offset : Nat}
    (h : Passes template (.start text) ls ⟨[], offset⟩) (hr : ls.length ≤ text.toList.length) :
    lexemes template [] text.toList (.start text) =
      .ok (ls ++ [.endAt (.point offset)]) := by
  rw [lexemes_of_passes h [] hr, lexemes_eq, lexeme,
    passGap_of_endsGap _ (show EndsGap [] from trivial), List.append_nil]
  have hreverse (l : Lexeme) : ls ++ [l] = (l :: ls.reverse).reverse := by simp
  rw [hreverse]
  rfl

theorem tokenizeWithin_of_lexedAs {text : String} {ts : List Spelled}
    (h : LexedAs text.toList ts) (depth : Nat) :
    ∃ ls stop, tokenizeWithin depth text = .ok (ls ++ [stop]) ∧ stop.isEnd = true ∧
      ReadsAll false ts ls := by
  obtain ⟨ls, offset, hpass, hls⟩ := h.passes (template depth depth) [] 0 nofun
  rw [List.append_nil] at hpass
  have hrounds : ls.length ≤ text.toList.length := hls.length_eq ▸ h.length
  exact ⟨ls, .endAt (.point offset), tokens_of_passes hpass hrounds, rfl, hls⟩

theorem endsGap_cons {c : Char} (hblank : Text.isBlank c = false) (hc : c ≠ '/') (cs : List Char) :
    EndsGap (c :: cs) := ⟨hblank, fun h => absurd h hc⟩

/-- Marks of one character that no longer mark begins with. -/
def singleMarks : List Punct :=
  [.leftBrace, .rightBrace, .leftBracket, .rightBracket, .leftParen, .rightParen, .less, .greater,
    .colon, .minus]

theorem text_of_singleMark {p : Punct} (hp : p ∈ singleMarks) :
    ∃ c, p.text.toList = [c] ∧ Text.isBlank c = false ∧ c ≠ '/' ∧
      ∀ rest, punct? (p.text.toList ++ rest) = some (p, p.text.toList.length) := by
  cases p <;> first
    | exact ⟨_, rfl, by decide, by decide, fun _ => rfl⟩
    | exact absurd hp (by decide)

namespace LexedAs

theorem nil : LexedAs [] [] :=
  ⟨Nat.le_refl _, fun _ _ offset _ => ⟨[], offset, .nil _, .nil false⟩⟩

theorem token {t : Spelled} (h : LexedToken cs t) : LexedAs cs [t] where
  length := List.length_pos_iff.2 h.nonempty
  passes template rest offset hrest := by
    obtain ⟨token, offset', hread, htoken⟩ := h.reads template rest offset hrest
    exact ⟨_, offset', .cons (lexeme_of_bareToken (h.gap rest) hread) htoken.isEnd_eq (.nil _),
      .cons htoken nofun (.nil _)⟩

theorem append (h : LexedAs cs ts) (hds : Stops goesOn ds) (h' : LexedAs ds us) :
    LexedAs (cs ++ ds) (ts ++ us) where
  length := by
    have := h.length
    have := h'.length
    simp only [List.length_append]
    omega
  passes template rest offset hrest := by
    obtain ⟨ls, middle, hpass, hls⟩ := h.passes template (ds ++ rest) offset (hds.append hrest)
    obtain ⟨ms, offset', hpass', hms⟩ := h'.passes template rest middle hrest
    rw [List.append_assoc]
    exact ⟨ls ++ ms, offset', hpass.append hpass', hls.append hms⟩

theorem cons {t : Spelled} (h : LexedToken cs t) (hds : Stops goesOn ds) (h' : LexedAs ds us) :
    LexedAs (cs ++ ds) (t :: us) := (token h).append hds h'

/-- A blank in front of tokens belongs to the gap before them. -/
theorem blank {t : Spelled} (h : LexedAs cs (t :: ts)) : LexedAs (' ' :: cs) (t :: ts) where
  length := Nat.le_succ_of_le h.length
  passes template rest offset hrest := by
    obtain ⟨ls, offset', hpass, hls⟩ :=
      h.passes template rest (offset + ' '.utf8Size) hrest
    cases hls with
    | cons token line more =>
      cases hpass with
      | cons first inside hpass =>
        rw [← lexeme_blank] at first
        exact ⟨_, offset', .cons first inside hpass, .cons token line more⟩

/-- A single mark is read as itself whatever follows. -/
theorem mark {p : Punct} (hp : p ∈ singleMarks) (h : LexedAs ds us) :
    LexedAs (p.text.toList ++ ds) (.punct p :: us) := by
  obtain ⟨c, htext, hblank, hslash, hpunct⟩ := text_of_singleMark hp
  constructor
  · have := h.length
    simp only [htext, List.length_append, List.length_cons]
    omega
  · intro template rest offset hrest
    have hread : bareToken template ⟨p.text.toList ++ (ds ++ rest), offset⟩ = _ :=
      bareToken_punct (hpunct (ds ++ rest)) offset
    obtain ⟨ms, offset', hpass, hms⟩ := h.passes template rest _ hrest
    have hgap : EndsGap (p.text.toList ++ (ds ++ rest)) := by
      rw [htext]
      exact endsGap_cons hblank hslash _
    rw [List.append_assoc]
    exact ⟨_, offset', .cons (lexeme_of_bareToken hgap hread) rfl hpass,
      .cons (.punct p) nofun hms.relax⟩

end LexedAs

theorem lexedToken_name {text : String} (h : isName text.toList = true) :
    LexedToken text.toList (.name text) where
  nonempty hnil := by rw [hnil] at h; cases h
  gap rest := by
    obtain ⟨c, cs, htext, hstart, -⟩ := exists_cons_of_isName h
    rw [htext]
    refine endsGap_cons (isBlank_of_isNameStart hstart) ?_ _
    rintro rfl
    exact absurd hstart (by decide)
  reads template rest offset hrest :=
    ⟨_, _, bareToken_name h hrest.isNameContinue offset, .name text⟩

theorem lexedToken_number (n : Nat) :
    LexedToken (Nat.toDigits 10 n) (.number (Float.ofNat n)) where
  nonempty := Nat.toDigits_ne_nil
  gap rest := by
    obtain ⟨c, cs, hcs, hdigits⟩ := exists_cons_toDigits n
    have hc : c.isDigit = true := hdigits c List.mem_cons_self
    rw [hcs]
    refine endsGap_cons (isBlank_of_isDigit hc) ?_ _
    rintro rfl
    exact absurd hc (by decide)
  reads template rest offset hrest := ⟨_, _, bareToken_number hrest.goesOnNumber offset, .number _⟩

theorem lexedToken_string (text : String) :
    LexedToken (Text.quoted text).toList (.string text) where
  nonempty := by
    rw [Text.quoted, String.toList_ofList]
    exact List.cons_ne_nil _ _
  gap rest := by
    rw [Text.quoted, String.toList_ofList]
    exact endsGap_cons rfl (by decide) _
  reads template rest offset _ := by
    rw [Text.quoted, String.toList_ofList]
    obtain ⟨offset', hread⟩ := bareToken_string readsQuoted_text text rest offset
    exact ⟨_, offset', hread, .string text⟩

theorem lexedToken_pipe : LexedToken ['|'] (.punct .pipe) where
  nonempty := List.cons_ne_nil _ _
  gap rest := endsGap_cons rfl (by decide) _
  reads template rest offset hrest := by
    have hpunct : punct? ('|' :: rest) = some (.pipe, 1) := by
      have hnext : rest.head? ≠ some '|' := fun h => absurd (hrest '|' h) (by decide)
      simp [punct?, hnext]
    exact ⟨_, _, bareToken_punct (p := .pipe) hpunct offset, .punct .pipe⟩

end Lexer

open Lexer

theorem Scalar.lexedAs_literalText {v : Scalar} (h : v.Exact) :
    LexedAs v.literalText.toList v.spell := by
  cases h with
  | string text => exact .token (lexedToken_string text)
  | boolean value => cases value <;> exact .token (lexedToken_name (by decide))
  | @number n small =>
    have htext : (Scalar.number (Float.ofNat n)).literalText.toList = Nat.toDigits 10 n := by
      rw [literalText, Number.text?_of_exactWhole? (Number.exactWhole?_ofNat small),
        Option.getD_some]
      show (toString n).toList = _
      rw [Nat.toString_eq_ofList_toDigits, String.toList_ofList]
    rw [htext, spell, Number.signBit_ofNat small]
    exact .token (lexedToken_number n)
  | @negative n pos small =>
    have htext : (Scalar.number (-Float.ofNat n)).literalText.toList =
        '-' :: Nat.toDigits 10 n := by
      obtain ⟨k, rfl⟩ := Nat.exists_eq_add_one.2 pos
      have hint : toString (-((k + 1 : Nat) : Int)) = "-" ++ toString (k + 1) := rfl
      rw [literalText, Number.text?_of_exactWhole? (Number.exactWhole?_neg_ofNat small),
        Option.getD_some, hint, String.toList_append, Nat.toString_eq_ofList_toDigits,
        String.toList_ofList, String.toList_ofList]
      rfl
    rw [htext, spell, Number.signBit_neg_ofNat small, if_pos rfl, Number.neg_neg]
    exact .mark (p := .minus) (by decide) (.token (lexedToken_number n))

theorem intercalate_cons {α : Type} (mark x : List α) (xs : List (List α)) :
    mark.intercalate (x :: xs) = x ++ xs.flatMap (mark ++ ·) := by
  induction xs generalizing x with
  | nil => simp
  | cons y ys ih =>
    rw [List.intercalate_cons_of_ne_nil (List.cons_ne_nil _ _), ih, List.flatMap_cons]
    simp

/-- Texts with bars between them are read as their tokens with bars between them. -/
theorem Lexer.LexedAs.barred {α : Type} {text : α → String} {spell : α → List Spelled}
    {xs : List α} (h : ∀ x ∈ xs, LexedAs (text x).toList (spell x) ∧ Begins (spell x)) :
    LexedAs (" | ".intercalate (xs.map text)).toList (Spelled.barred (xs.map spell)) := by
  have hstops (xs : List α) :
      Stops goesOn ((xs.map fun x => (text x).toList).flatMap (" | ".toList ++ ·)) := by
    cases xs with
    | nil => exact nofun
    | cons => rintro _ ⟨⟩; rfl
  have hbars {xs : List α} (h : ∀ x ∈ xs, LexedAs (text x).toList (spell x) ∧ Begins (spell x)) :
      LexedAs ((xs.map fun x => (text x).toList).flatMap (" | ".toList ++ ·))
        ((xs.map spell).flatMap fun us => .punct .pipe :: us) := by
    induction xs with
    | nil => exact .nil
    | cons x xs ih =>
      obtain ⟨hx, hbegins⟩ := h x List.mem_cons_self
      have hxs := hx.append (hstops xs) (ih fun y hy => h y (List.mem_cons_of_mem _ hy))
      obtain ⟨t, ts, hts⟩ := List.exists_cons_of_ne_nil (hbegins.append _).1
      rw [List.map_cons, List.map_cons, List.flatMap_cons, List.flatMap_cons, List.append_assoc,
        List.cons_append, hts]
      rw [hts] at hxs
      have hbar := LexedAs.cons lexedToken_pipe (by rintro _ ⟨⟩; rfl) hxs.blank
      exact hbar.blank
  rw [String.toList_intercalate, List.map_map]
  cases xs with
  | nil => exact .nil
  | cons x xs =>
    rw [List.map_cons, intercalate_cons]
    exact (h x List.mem_cons_self).1.append (hstops xs)
      (hbars fun y hy => h y (List.mem_cons_of_mem _ hy))

namespace Ty

variable {types : List TypeDeclaration} {t : Ty}

/-- The text of a type is read as the tokens that it is spelled with. -/
theorem Denotable.lexedAs_text (h : t.Denotable types) : LexedAs t.text.toList t.spell := by
  induction h with
  | scalar kind => cases kind <;> exact .token (lexedToken_name (by decide))
  | literal _ _ exact =>
    exact .barred fun v hv => ⟨v.lexedAs_literalText (exact v hv), v.begins_spell⟩
  | @union ts _ _ alternatives ih =>
    rw [text, spell, texts_eq, spellAll_eq]
    exact .barred fun t ht => ⟨ih t ht, (alternatives t ht).begins_spell⟩
  | @sequence t single _ ih =>
    have hbrackets : LexedAs ("[]").toList [.punct .leftBracket, .punct .rightBracket] :=
      .mark (p := .leftBracket) (by decide) (.mark (p := .rightBracket) (by decide) .nil)
    cases single with
    | true =>
      rw [text, spell, String.toList_append, String.toList_append]
      have hless : LexedAs ("<".toList ++ (t.text.toList ++ ">".toList))
          (.punct .less :: (t.spell ++ [.punct .greater])) :=
        .mark (p := .less) (by decide)
          (ih.append (by rintro _ ⟨⟩; rfl) (.mark (p := .greater) (by decide) .nil))
      have hword : LexedToken "OneOrMany".toList (.name "OneOrMany") :=
        lexedToken_name (by decide)
      have hall := LexedAs.cons hword (by rintro _ ⟨⟩; rfl) hless
      exact hall
    | false =>
      rw [text, spell]
      split
      · rw [String.toList_append, String.toList_append]
        exact .mark (p := .leftParen) (by decide)
          (ih.append (by rintro _ ⟨⟩; rfl) (.mark (p := .rightParen) (by decide) hbrackets))
      · rw [String.toList_append]
        exact ih.append (by rintro _ ⟨⟩; rfl) hbrackets
  | @map key t valid _ ih =>
    have hchars : (Ty.map key t).text.toList =
        "\x7b".toList ++ ' ' :: ("[".toList ++ (key.toList ++ (":".toList ++ ' ' ::
          ("string".toList ++ ("]".toList ++ (":".toList ++ ' ' ::
            (t.text.toList ++ ' ' :: "\x7d".toList))))))) := by
      simp only [text, String.toList_append, List.append_assoc]
      rfl
    rw [hchars]
    have hvalue : LexedAs (t.text.toList ++ ' ' :: "\x7d".toList)
        (t.spell ++ [.punct .rightBrace]) :=
      ih.append (by rintro _ ⟨⟩; rfl) (.blank (.mark (p := .rightBrace) (by decide) .nil))
    obtain ⟨u, us, hus⟩ : ∃ u us, t.spell ++ [.punct .rightBrace] = u :: us :=
      List.exists_cons_of_ne_nil (by simp)
    rw [spell, hus]
    rw [hus] at hvalue
    have hindex : LexedAs ("string".toList ++ ("]".toList ++ (":".toList ++ ' ' ::
        (t.text.toList ++ ' ' :: "\x7d".toList))))
        (.name "string" :: .punct .rightBracket :: .punct .colon :: u :: us) :=
      .cons (lexedToken_name (by decide)) (by rintro _ ⟨⟩; rfl)
        (.mark (p := .rightBracket) (by decide) (.mark (p := .colon) (by decide) hvalue.blank))
    refine .mark (p := .leftBrace) (by decide) (.blank (.mark (p := .leftBracket) (by decide) ?_))
    exact .cons (lexedToken_name valid) (by rintro _ ⟨⟩; rfl)
      (.mark (p := .colon) (by decide) hindex.blank)
  | named valid => exact .token (lexedToken_name valid)

end Ty

end TypedConfig
