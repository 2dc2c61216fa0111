import TypedConfig.Proofs.Limits.Keeps
import TypedConfig.Proofs.Places.Texts

/-! # Gaps and the spelling of tokens

What stands between two tokens is a list of fillers, each a blank or a whole comment. What a token
is written with is told by its form: a name by its own characters, a number by digits, a text by
quotes around characters and escapes.
-/

namespace TypedConfig

open Text (byteSize)

/-- The second position stands behind the characters, and these are ahead of the first. -/
structure Position.Reads (p : Position) (cs : List Char) (q : Position) : Prop where
  ahead : p.ahead = cs ++ q.ahead
  offset : q.offset = p.offset + byteSize cs

namespace Position.Reads

variable {p q r : Position} {as bs : List Char}

theorem refl (p : Position) : p.Reads [] p := ⟨rfl, rfl⟩

theorem trans (h : p.Reads as q) (h' : q.Reads bs r) : p.Reads (as ++ bs) r := by
  constructor
  · rw [h.ahead, h'.ahead, List.append_assoc]
  · rw [h'.offset, h.offset, Text.byteSize_append, Nat.add_assoc]

theorem cons {c : Char} {cs : List Char} (hp : p.ahead = c :: cs)
    (h : Position.Reads ⟨cs, p.offset + c.utf8Size⟩ as q) : p.Reads (c :: as) q := by
  constructor
  · rw [hp, List.cons_append]
    exact congrArg (List.cons c) h.ahead
  · rw [h.offset, Text.byteSize_cons, Nat.add_assoc]

theorem skip (p : Position) (n : Nat) : p.Reads (p.ahead.take n) (p.skip n) :=
  ⟨(List.take_append_drop ..).symm, rfl⟩

theorem skip_append {n : Nat} (cs : List Char) (hp : p.ahead = as ++ cs) (hn : as.length = n) :
    p.Reads as (p.skip n) := by
  subst hn
  have h := skip p as.length
  rwa [hp, List.take_left] at h

theorem run {ok : Char → Bool} (h : p.run ok = (as, q)) :
    p.Reads as q ∧ (∀ c ∈ as, ok c = true) ∧ ∀ c ∈ q.ahead.head?, ok c = false := by
  cases h
  refine ⟨⟨List.takeWhile_append_dropWhile.symm, rfl⟩, List.all_eq_true.1 List.all_takeWhile,
    fun c hc => ?_⟩
  have hstop := List.head?_dropWhile_not ok p.ahead
  rwa [show (p.ahead.dropWhile ok).head? = some c from hc] at hstop

end Position.Reads

/-- What may stand between two tokens. -/
inductive Filler
  | blank (c : Char)
  | lineComment (text : List Char)
  | blockComment (text : List Char)

namespace Filler

def chars : Filler → List Char
  | blank c => [c]
  | lineComment text => '/' :: '/' :: text
  | blockComment text => '/' :: '*' :: (text ++ ['*', '/'])

def doc? : Filler → Option String
  | blockComment ('*' :: text) => some (Lexer.cleanDoc ('*' :: text))
  | _ => none

/-- Whether a filler is a blank or a whole comment where some characters follow it: a comment on a
line reaches to the end of the line, and another to the first mark that ends it. -/
def Whole (after : List Char) : Filler → Prop
  | blank c => Text.isBlank c = true
  | lineComment text => '\n' ∉ text ∧ ∀ c ∈ after.head?, c = '\n'
  | blockComment text => ¬ ['*', '/'] <:+: text

end Filler

def gapChars (gap : List Filler) : List Char := gap.flatMap Filler.chars

def gapDoc (gap : List Filler) : Option String := (gap.filterMap Filler.doc?).getLast?

/-- The fillers of a gap are whole where some characters follow it. -/
def WholeGap (after : List Char) : List Filler → Prop
  | [] => True
  | f :: gap => f.Whole (gapChars gap ++ after) ∧ WholeGap after gap

/-- What an escape stands for, given the characters behind its backslash. -/
inductive EscapeOf : List Char → Char → Prop
  | newline : EscapeOf ['n'] '\n'
  | tab : EscapeOf ['t'] '\t'
  | carriageReturn : EscapeOf ['r'] '\r'
  | zero : EscapeOf ['0'] '\x00'
  | braced {digits : List Char} {c : Char} (closed : '\x7d' ∉ digits)
    (h : (Number.ofHex? digits).bind Lexer.charOfNat? = some c) :
    EscapeOf ('u' :: '\x7b' :: (digits ++ ['\x7d'])) c
  | four {digits : List Char} {c : Char} (length : digits.length = 4)
    (bare : digits.head? ≠ some '\x7b')
    (h : (Number.ofHex? digits).bind Lexer.charOfNat? = some c) : EscapeOf ('u' :: digits) c
  | itself {c : Char} (h : c ∉ ['n', 't', 'r', '0', 'u']) : EscapeOf [c] c

/-- What characters and escapes stand for between two quotes. -/
inductive Resolves (quote : Char) : List Char → List Char → Prop
  | nil : Resolves quote [] []
  | plain {c : Char} {raw text : List Char} (hc : c ∉ ['\n', '\\', quote])
    (h : Resolves quote raw text) : Resolves quote (c :: raw) (c :: text)
  | escape {e raw text : List Char} {c : Char} (he : EscapeOf e c) (h : Resolves quote raw text) :
    Resolves quote ('\\' :: (e ++ raw)) (c :: text)

inductive FractionOf : List Char → List Char → Prop
  | none : FractionOf [] []
  | some {digits : List Char} (nonempty : digits ≠ []) (h : ∀ d ∈ digits, d.isDigit = true) :
    FractionOf ('.' :: digits) digits

inductive ExponentOf : List Char → Int → Prop
  | none : ExponentOf [] 0
  | some {mark : Char} {sign digits : List Char} (hmark : mark = 'e' ∨ mark = 'E')
    (hsign : sign = [] ∨ sign = ['+'] ∨ sign = ['-']) (nonempty : digits ≠ [])
    (h : ∀ d ∈ digits, d.isDigit = true) :
    ExponentOf (mark :: (sign ++ digits))
      (if sign = ['-'] then -(Number.ofDigits digits : Int) else Number.ofDigits digits)

/-- The ways in which punctuation is written. -/
def Punct.spellings : Punct → List (List Char)
  | .equal => ["===".toList, "==".toList]
  | .notEqual => ["!==".toList, "!=".toList]
  | p => [p.text.toList]

/-- The characters spell a token whose first one stands at an offset. What stands behind the opening
mark of a template is told apart. -/
inductive Spells (template : Nat → List Char → List Piece → Prop) : Nat → List Char → Token → Prop
  | name {offset : Nat} {text : String} (h : isName text.toList = true) :
    Spells template offset text.toList (.name text)
  | number {offset : Nat} {whole fraction fractionChars exponentChars : List Char}
    {exponent : Int} (nonempty : whole ≠ []) (h : ∀ d ∈ whole, d.isDigit = true)
    (hfraction : FractionOf fractionChars fraction)
    (hexponent : ExponentOf exponentChars exponent) :
    Spells template offset (whole ++ fractionChars ++ exponentChars)
      (.number (Number.ofDecimal whole fraction exponent))
  | string {offset : Nat} {quote : Char} {raw text : List Char} (hquote : quote ∈ ['"', '\''])
    (h : Resolves quote raw text) :
    Spells template offset (quote :: (raw ++ [quote])) (.string (String.ofList text))
  | punct {offset : Nat} {cs : List Char} {p : Punct} (h : cs ∈ p.spellings) :
    Spells template offset cs (.punct p)
  | template {offset : Nat} {cs : List Char} {pieces : List Piece}
    (h : template (offset + 1) cs pieces) : Spells template offset ('\x60' :: cs) (.template pieces)

theorem Spells.ne_nil {template : Nat → List Char → List Piece → Prop} {offset : Nat}
    {cs : List Char} {token : Token} (h : Spells template offset cs token) : cs ≠ [] := by
  cases h with
  | name h =>
    intro hcs
    rw [hcs] at h
    cases h
  | number nonempty => simp [nonempty]
  | string | template => exact List.cons_ne_nil _ _
  | punct h =>
    rename_i p
    rintro rfl
    revert h
    cases p <;> decide

namespace Lexer

variable {p q : Position}

theorem closeComment_eq_some {text cs body rest : List Char}
    (h : closeComment text cs = some (body, rest)) :
    ∃ inside, body = text.reverse ++ inside ∧ cs = inside ++ '*' :: '/' :: rest ∧
      ¬ ['*', '/'] <:+: inside := by
  induction cs generalizing text with
  | nil => cases h
  | cons c cs ih =>
    rw [closeComment] at h
    split at h
    · rename_i hc
      cases h
      obtain ⟨rfl, hhead⟩ := hc
      obtain ⟨tail, rfl⟩ := List.head?_eq_some_iff.1 hhead
      exact ⟨[], (List.append_nil _).symm, rfl, by decide⟩
    · rename_i hc
      obtain ⟨inside, rfl, rfl, hinside⟩ := ih h
      refine ⟨c :: inside, by simp, rfl, fun hm => ?_⟩
      rcases List.infix_cons_iff.1 hm with hm | hm
      · obtain ⟨rfl, tail, rfl⟩ := List.cons_prefix_cons.1 hm
        exact hc ⟨rfl, rfl⟩
      · exact hinside hm

theorem doc?_blockComment {body : List Char} (rest : List Char) (h : ¬ ['*', '/'] <:+: body) :
    (Filler.blockComment body).doc? =
      if opensDoc (body ++ '*' :: '/' :: rest) then some (cleanDoc body) else none := by
  match body with
  | [] => rfl
  | [c] =>
    by_cases hc : c = '*'
    · subst hc
      rfl
    · simp [opensDoc, hc, Filler.doc?]
  | c :: d :: body =>
    by_cases hc : c = '*'
    · subst hc
      have hd : d ≠ '/' := by
        rintro rfl
        exact h ⟨[], body, rfl⟩
      simp [opensDoc, hd, Filler.doc?]
    · simp [opensDoc, hc, Filler.doc?]

/-- What a gap tells if some fillers more are passed. -/
def Gap.passing (gap : Gap) (fs : List Filler) : Gap :=
  ⟨(gapDoc fs).or gap.doc, gap.newline || (gapChars fs).contains '\n'⟩

theorem Gap.passing_nil (gap : Gap) : gap.passing [] = gap := by
  simp [Gap.passing, gapDoc, gapChars]

theorem Gap.passing_cons (gap : Gap) (f : Filler) (fs : List Filler) :
    gap.passing (f :: fs) =
      (⟨f.doc?.or gap.doc, gap.newline || f.chars.contains '\n'⟩ : Gap).passing fs := by
  have hdoc : gapDoc (f :: fs) = (gapDoc fs).or f.doc? := by
    rw [gapDoc, gapDoc, List.filterMap_cons]
    cases f.doc? with
    | none => simp
    | some doc => rw [List.getLast?_cons]; cases List.getLast? _ <;> rfl
  have hchars : gapChars (f :: fs) = f.chars ++ gapChars fs := rfl
  rw [Gap.passing, Gap.passing, hdoc, hchars, List.contains_append, Option.or_assoc,
    Bool.or_assoc]

/-- A line comment is passed up to the line break behind it. -/
theorem reads_lineComment {cs : List Char} (hp : p.ahead = '/' :: '/' :: cs) :
    ∃ text, p.Reads (Filler.lineComment text).chars
        (Position.run ⟨'/' :: cs, p.offset + 1⟩ (· != '\n')).2 ∧ '\n' ∉ text ∧
      ∀ c ∈ (Position.run ⟨'/' :: cs, p.offset + 1⟩ (· != '\n')).2.ahead.head?, c = '\n' := by
  have hrun : Position.run ⟨'/' :: cs, p.offset + 1⟩ (· != '\n') =
    ('/' :: cs.takeWhile (· != '\n'), _) := rfl
  obtain ⟨hline, htext, hstop⟩ := Position.Reads.run hrun
  exact ⟨cs.takeWhile (· != '\n'), hline.cons hp, fun hm => by simpa using htext _ (.tail _ hm),
    fun c hc => by simpa using hstop c hc⟩

theorem reads_blockComment {body rest : List Char}
    (hp : p.ahead = '/' :: '*' :: (body ++ '*' :: '/' :: rest)) :
    p.Reads (Filler.blockComment body).chars ⟨rest, p.offset + 4 + byteSize body⟩ := by
  refine ⟨?_, ?_⟩
  · rw [hp]
    simp [Filler.chars]
  · simp only [Filler.chars, Text.byteSize_cons, Text.byteSize_append, Text.byteSize_nil,
      show '/'.utf8Size = 1 from rfl, show '*'.utf8Size = 1 from rfl]
    omega

theorem reads_passGap {gap gap' : Gap} (h : passGap gap p = .ok (gap', q)) :
    ∃ fs, p.Reads (gapChars fs) q ∧ WholeGap q.ahead fs ∧ gap' = gap.passing fs := by
  fun_induction passGap gap p with
  | case1 gap p hp =>
    cases h
    exact ⟨[], .refl _, trivial, (Gap.passing_nil _).symm⟩
  | case2 gap p cs hp ih =>
    obtain ⟨fs, hreads, hwhole, rfl⟩ := ih h
    refine ⟨.blank '\n' :: fs, hreads.cons hp, ⟨rfl, hwhole⟩, ?_⟩
    rw [Gap.passing_cons]
    simp [Filler.doc?, Filler.chars]
  | case3 gap p c cs hp hne hblank ih =>
    obtain ⟨fs, hreads, hwhole, rfl⟩ := ih h
    refine ⟨.blank c :: fs, hreads.cons hp, ⟨hblank, hwhole⟩, ?_⟩
    rw [Gap.passing_cons]
    simp [Filler.doc?, Filler.chars, Ne.symm hne]
  | case4 gap p c cs hp _ _ hc ih =>
    obtain ⟨rfl, hhead⟩ := hc
    obtain ⟨cs, rfl⟩ := List.head?_eq_some_iff.1 hhead
    obtain ⟨fs, hreads, hwhole, rfl⟩ := ih h
    obtain ⟨text, hline, hnewline, hstop⟩ := reads_lineComment hp
    refine ⟨.lineComment text :: fs, hline.trans hreads, ⟨⟨hnewline, ?_⟩, hwhole⟩, ?_⟩
    · rwa [← hreads.ahead]
    · rw [Gap.passing_cons]
      simp [Filler.doc?, Filler.chars, hnewline]
  | case5 gap p c cs hp _ _ _ hc hclose => cases h
  | case6 gap p c cs hp _ _ _ hc body rest hclose ih =>
    obtain ⟨rfl, hhead⟩ := hc
    obtain ⟨cs, rfl⟩ := List.head?_eq_some_iff.1 hhead
    obtain ⟨_, rfl, rfl, hbody⟩ := closeComment_eq_some hclose
    obtain ⟨fs, hreads, hwhole, rfl⟩ := ih h
    refine ⟨.blockComment body :: fs, (reads_blockComment hp).trans hreads, ⟨hbody, hwhole⟩, ?_⟩
    rw [Gap.passing_cons, doc?_blockComment rest hbody]
    simp only [List.tail_cons, Filler.chars]
    congr 2
    · by_cases hopens : opensDoc (body ++ '*' :: '/' :: rest) = true <;> simp [hopens]
    · simp
  | case7 gap p c cs hp =>
    cases h
    exact ⟨[], .refl _, trivial, (Gap.passing_nil _).symm⟩

theorem reads_fraction (p : Position) :
    ∃ cs, p.Reads cs ((fraction? p).getD ([], p)).2 ∧
      FractionOf cs ((fraction? p).getD ([], p)).1 := by
  unfold fraction?
  split
  · rename_i cs hp
    split
    · exact ⟨[], .refl p, .none⟩
    · rename_i digits q hne hrun
      obtain ⟨hreads, hdigits, -⟩ := Position.Reads.run hrun
      have hpoint : p.Reads ['.'] (p.skip 1) := .skip_append cs hp rfl
      exact ⟨'.' :: digits, hpoint.trans hreads, .some hne hdigits⟩
  · exact ⟨[], .refl p, .none⟩

theorem reads_sign {mark : Char} {rest : List Char} (hp : p.ahead = mark :: rest) :
    ∃ sign, (sign = [] ∨ sign = ['+'] ∨ sign = ['-']) ∧
      p.Reads (mark :: sign)
        (p.skip (if rest.head? == some '+' || rest.head? == some '-' then 2 else 1)) ∧
      (rest.head? == some '-') = decide (sign = ['-']) := by
  by_cases hplus : rest.head? = some '+'
  · obtain ⟨rest, rfl⟩ := List.head?_eq_some_iff.1 hplus
    exact ⟨['+'], .inr (.inl rfl), .skip_append rest hp rfl, rfl⟩
  · by_cases hminus : rest.head? = some '-'
    · obtain ⟨rest, rfl⟩ := List.head?_eq_some_iff.1 hminus
      exact ⟨['-'], .inr (.inr rfl), .skip_append rest hp rfl, rfl⟩
    · refine ⟨[], .inl rfl, ?_, by simp [hminus]⟩
      simp only [beq_iff_eq, hplus, hminus, Bool.or_eq_true, or_self, if_false]
      exact .skip_append rest hp rfl

theorem reads_exponent (p : Position) :
    ∃ cs, p.Reads cs ((exponent? p).getD (0, p)).2 ∧
      ExponentOf cs ((exponent? p).getD (0, p)).1 := by
  unfold exponent?
  split
  · rename_i mark rest hp
    split
    · rename_i hmark
      dsimp only
      split
      · exact ⟨[], .refl p, .none⟩
      · rename_i digits q hne hrun
        obtain ⟨hreads, hdigits, -⟩ := Position.Reads.run hrun
        obtain ⟨sign, hsign, hskip, hminus⟩ := reads_sign hp
        refine ⟨mark :: (sign ++ digits), hskip.trans hreads, ?_⟩
        rw [hminus]
        simp only [decide_eq_true_eq, Option.getD_some]
        exact .some hmark hsign hne hdigits
    · exact ⟨[], .refl p, .none⟩
  · exact ⟨[], .refl p, .none⟩

theorem number_spells {template : Nat → List Char → List Piece → Prop} {c : Char}
    {tail : List Char} (hp : p.ahead = c :: tail) (hc : c.isDigit = true) (offset : Nat) :
    ∃ cs, p.Reads cs (number p).2 ∧ Spells template offset cs (number p).1 := by
  have hrun : p.run Char.isDigit = (p.ahead.takeWhile Char.isDigit, _) := rfl
  obtain ⟨hwhole, hdigits, -⟩ := Position.Reads.run hrun
  have hne : p.ahead.takeWhile Char.isDigit ≠ [] := by
    rw [hp, List.takeWhile_cons_of_pos hc]
    exact List.cons_ne_nil _ _
  obtain ⟨fs, hfraction, hf⟩ := reads_fraction (p.run Char.isDigit).2
  obtain ⟨es, hexponent, he⟩ :=
    reads_exponent ((fraction? (p.run Char.isDigit).2).getD ([], (p.run Char.isDigit).2)).2
  exact ⟨_, (hwhole.trans hfraction).trans hexponent, .number hne hdigits hf he⟩

theorem name_spells {template : Nat → List Char → List Piece → Prop} {c : Char} {tail : List Char}
    (hp : p.ahead = c :: tail) (hc : isNameStart c = true) (offset : Nat) :
    ∃ cs, p.Reads cs (p.run isNameContinue).2 ∧
      Spells template offset cs (.name (String.ofList (p.run isNameContinue).1)) := by
  have hrun : p.run isNameContinue = (p.ahead.takeWhile isNameContinue, _) := rfl
  have hcontinue : isNameContinue c = true := by
    simp only [isNameStart, isNameContinue, Char.isAlphanum, Bool.or_eq_true] at hc ⊢
    exact hc.imp_left fun h => h.imp_left .inl
  have hchars : p.ahead.takeWhile isNameContinue = c :: tail.takeWhile isNameContinue := by
    rw [hp, List.takeWhile_cons_of_pos hcontinue]
  have hisName : isName (String.ofList (p.ahead.takeWhile isNameContinue)).toList = true := by
    rw [String.toList_ofList, hchars, isName, hc, Bool.true_and]
    exact List.all_takeWhile
  refine ⟨_, (Position.Reads.run hrun).1, ?_⟩
  have hspells : Spells template offset _ _ := .name hisName
  rwa [String.toList_ofList] at hspells

/-- An equality is written with two equals signs after its first character, or with one. -/
theorem equality_spells (c : Char) (tail : List Char) :
    ∃ as bs, c :: '=' :: tail = as ++ bs ∧
      as.length = (if tail.head? = some '=' then 3 else 2) ∧
      as ∈ [[c, '=', '='], [c, '=']] := by
  split
  · rename_i hthird
    obtain ⟨tail, rfl⟩ := List.head?_eq_some_iff.1 hthird
    exact ⟨[c, '=', '='], tail, rfl, rfl, .head _⟩
  · exact ⟨[c, '='], tail, rfl, rfl, .tail _ (.head _)⟩

theorem of_ite {α : Type} {c : Prop} [Decidable c] {x y r : α} (h : (if c then x else y) = r) :
    c ∧ x = r ∨ ¬ c ∧ y = r := by
  split at h
  · exact .inl ⟨‹c›, h⟩
  · exact .inr ⟨‹¬ c›, h⟩

theorem punct?_spells {cs : List Char} {t : Punct} {n : Nat} (h : punct? cs = some (t, n)) :
    ∃ as bs, cs = as ++ bs ∧ as.length = n ∧ as ∈ t.spellings := by
  cases cs with
  | nil => cases h
  | cons c cs =>
    have hhead {d : Char} {cs : List Char} (hd : cs.head? = some d) : ∃ tail, cs = d :: tail :=
      List.head?_eq_some_iff.1 hd
    rw [punct?] at h
    -- the characters that are punctuation whatever follows them
    iterate 16
      replace h := of_ite h
      rcases h with ⟨rfl, h⟩ | ⟨-, h⟩
      · cases h
        exact ⟨[_], cs, rfl, rfl, by decide⟩
    replace h := of_ite h
    rcases h with ⟨rfl, h⟩ | ⟨-, h⟩
    · replace h := of_ite h
      rcases h with ⟨⟨hnext, hthird⟩, h⟩ | ⟨-, h⟩ <;> cases h
      · obtain ⟨tail, rfl⟩ := hhead hnext
        obtain ⟨tail, rfl⟩ := hhead hthird
        exact ⟨['.', '.', '.'], tail, rfl, rfl, by decide⟩
      · exact ⟨['.'], cs, rfl, rfl, by decide⟩
    replace h := of_ite h
    rcases h with ⟨rfl, h⟩ | ⟨-, h⟩
    · replace h := of_ite h
      rcases h with ⟨hnext, h⟩ | ⟨-, h⟩
      · obtain ⟨tail, rfl⟩ := hhead hnext
        cases h
        exact ⟨['=', '>'], tail, rfl, rfl, by decide⟩
      · replace h := of_ite h
        rcases h with ⟨hnext, h⟩ | ⟨-, h⟩ <;> cases h
        · obtain ⟨tail, rfl⟩ := hhead hnext
          exact equality_spells '=' tail
        · exact ⟨['='], cs, rfl, rfl, by decide⟩
    replace h := of_ite h
    rcases h with ⟨rfl, h⟩ | ⟨-, h⟩
    · replace h := of_ite h
      rcases h with ⟨hnext, h⟩ | ⟨-, h⟩ <;> cases h
      · obtain ⟨tail, rfl⟩ := hhead hnext
        exact equality_spells '!' tail
      · exact ⟨['!'], cs, rfl, rfl, by decide⟩
    replace h := of_ite h
    rcases h with ⟨rfl, h⟩ | ⟨-, h⟩
    · replace h := of_ite h
      rcases h with ⟨hnext, h⟩ | ⟨-, h⟩ <;> cases h
      · obtain ⟨tail, rfl⟩ := hhead hnext
        exact ⟨['|', '|'], tail, rfl, rfl, by decide⟩
      · exact ⟨['|'], cs, rfl, rfl, by decide⟩
    replace h := of_ite h
    rcases h with ⟨⟨rfl, hnext⟩, h⟩ | ⟨-, h⟩ <;> cases h
    obtain ⟨tail, rfl⟩ := hhead hnext
    exact ⟨['&', '&'], tail, rfl, rfl, by decide⟩

theorem reads_escapeDigits {digits : List Char} (h : escapeDigits p = (digits, q))
    (hq : q.ahead ≠ []) :
    p.Reads ('\x7b' :: (digits ++ ['\x7d'])) q ∧ '\x7d' ∉ digits ∨
      p.Reads digits q ∧ digits.length = 4 ∧ digits.head? ≠ some '\x7b' := by
  unfold escapeDigits at h
  split at h
  · rename_i hhead
    obtain ⟨tail, hp⟩ := List.head?_eq_some_iff.1 hhead
    have hopen : p.Reads ['\x7b'] (p.skip 1) := .skip_append tail hp rfl
    cases hrun : (p.skip 1).run (· != '\x7d') with
    | mk ds r =>
      rw [hrun] at h
      cases h
      obtain ⟨hreads, hdigits, hstop⟩ := Position.Reads.run hrun
      obtain ⟨c, cs, hr⟩ : ∃ c cs, r.ahead = c :: cs := by
        refine List.exists_cons_of_ne_nil fun hr => hq ?_
        rw [Position.skip, hr]
        rfl
      have hc : c = '\x7d' := by simpa using hstop c (by rw [hr]; rfl)
      subst hc
      have hclose : r.Reads ['\x7d'] (r.skip 1) := .skip_append cs hr rfl
      exact .inl ⟨hopen.trans (hreads.trans hclose), fun hm => by simpa using hdigits _ hm⟩
  · rename_i hhead
    cases h
    have hlength : 4 < p.ahead.length := by
      have hdrop : 0 < (p.ahead.drop 4).length := List.length_pos_iff.2 hq
      rw [List.length_drop] at hdrop
      omega
    refine .inr ⟨.skip p 4, by rw [List.length_take]; omega, ?_⟩
    rwa [List.head?_take, if_neg (by decide)]

theorem escape_resolves {start : Nat} {c : Char} (h : escape start p = .ok (c, q))
    (hq : q.ahead ≠ []) : ∃ e, EscapeOf e c ∧ p.Reads e q := by
  unfold escape at h
  split at h
  · cases h
  · rename_i d cs hp
    have hone : p.Reads [d] (p.skip 1) := .skip_append cs hp rfl
    dsimp only at h
    split at h
    · rename_i hd
      subst hd
      cases h
      exact ⟨_, .newline, hone⟩
    split at h
    · rename_i hd
      subst hd
      cases h
      exact ⟨_, .tab, hone⟩
    split at h
    · rename_i hd
      subst hd
      cases h
      exact ⟨_, .carriageReturn, hone⟩
    split at h
    · rename_i hd
      subst hd
      cases h
      exact ⟨_, .zero, hone⟩
    split at h
    · rename_i hd
      subst hd
      cases hdigits : escapeDigits (p.skip 1) with
      | mk digits r =>
        rw [hdigits] at h
        dsimp only at h
        split at h
        · rename_i hvalue
          cases h
          rcases reads_escapeDigits hdigits hq with ⟨hreads, hclosed⟩ | ⟨hreads, hlength, hbare⟩
          · exact ⟨_, .braced hclosed hvalue, hone.trans hreads⟩
          · exact ⟨_, .four hlength hbare hvalue, hone.trans hreads⟩
        · cases h
    · cases h
      exact ⟨_, .itself (by simp [*]), hone⟩

theorem string_resolves {quote : Char} {start : Nat} {text : List Char} {s : String}
    (h : string quote start text p = .ok (s, q)) :
    ∃ raw t, p.Reads (raw ++ [quote]) q ∧ Resolves quote raw t ∧
      s = String.ofList (text.reverse ++ t) := by
  fun_induction string quote start text p with
  | case1 text p hahead => cases h
  | case2 text p cs hahead => cases h
  | case3 text p cs hahead =>
    cases h
    exact ⟨[], [], .skip_append cs hahead rfl, .nil, by rw [List.append_nil]⟩
  | case4 text p cs e r hescape hahead _ _ ih =>
    obtain ⟨raw, t, hreads, hraw, rfl⟩ := ih h
    have hmore : r.ahead ≠ [] := by
      rw [hreads.ahead]
      simp
    obtain ⟨chars, he, hchars⟩ := escape_resolves hescape hmore
    have hbackslash : p.Reads ['\\'] (p.skip 1) := .skip_append cs hahead rfl
    refine ⟨'\\' :: (chars ++ raw), e :: t, ?_, .escape he hraw, by simp⟩
    simpa using hbackslash.trans (hchars.trans hreads)
  | case5 text p cs e hescape => cases h
  | case6 text p c cs hahead hnewline hquote hbackslash ih =>
    obtain ⟨raw, t, hreads, hraw, rfl⟩ := ih h
    have hone : p.Reads [c] (p.skip 1) := .skip_append cs hahead rfl
    have hc : c ∉ ['\n', '\\', quote] := by simp [hnewline, hbackslash, hquote]
    exact ⟨c :: raw, c :: t, hone.trans hreads, .plain hc hraw, by simp⟩

end Lexer

end TypedConfig
