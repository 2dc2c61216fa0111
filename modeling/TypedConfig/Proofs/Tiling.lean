import Mathlib
import TypedConfig.Proofs.Places.Tokens
import TypedConfig.Proofs.Schema.Reading
import TypedConfig.Proofs.Tiling.Tokens

/-! # Tokens tile the source

The text of a source is cut into gaps and tokens in turn, with nothing left out and nothing read
twice: the span of each token is where its characters stand, and the gap before it tells its doc
comment and whether a line ended. In a template the same holds of the tokens of each hole, up to the
brace that closes it.
-/

namespace TypedConfig

open Text (byteSize)

def openBraces (token : Token) (before : Nat) : Nat :=
  if token.isPunct .leftBrace then before + 1
  else if token.isPunct .rightBrace then before - 1
  else before

def gapNewline (gap : List Filler) : Bool := (gapChars gap).contains '\n'

/-- The characters from an offset on are tiled by gaps and the spellings of tokens, up to an end
token. That is at the end of the characters, or, in a hole, in place of its closing brace. `braces`
counts the braces that are open in a hole. -/
inductive Tiles (spells : Nat → List Char → Token → Prop) :
    (braces : Option Nat) → Nat → List Char → List Lexeme → Prop
  | token {braces : Option Nat} {offset start : Nat} {gap : List Filler} {cs rest : List Char}
    {token : Token} {tokens : List Lexeme} (hgap : WholeGap (cs ++ rest) gap)
    (hstart : start = offset + byteSize (gapChars gap)) (htoken : spells start cs token)
    (inside : braces = some 0 → token.isPunct .rightBrace = false)
    (hrest : Tiles spells (braces.map (openBraces token)) (start + byteSize cs) rest tokens) :
    Tiles spells braces offset (gapChars gap ++ (cs ++ rest))
      (.mk token ⟨start, start + byteSize cs⟩ (gapDoc gap) (gapNewline gap) :: tokens)
  | finish {offset : Nat} {gap : List Filler} (hgap : WholeGap [] gap) :
    Tiles spells none offset (gapChars gap)
      [.mk .endOfInput (.point (offset + byteSize (gapChars gap))) (gapDoc gap) (gapNewline gap)]
  | close {offset start : Nat} {gap : List Filler} (hgap : WholeGap ['\x7d'] gap)
    (hstart : start = offset + byteSize (gapChars gap)) :
    Tiles spells (some 0) offset (gapChars gap ++ ['\x7d']) [.endAt ⟨start, start + 1⟩]

/-- Whether the text of a template ends here or a hole begins. -/
def EndsText (cs : List Char) : Prop := cs.head? = some '\x60' ∨ ['$', '\x7b'] <+: cs

/-- A text as a piece of a template, unless it is empty. -/
def textPiece (text : List Char) : List Piece :=
  if text.isEmpty then [] else [.text (String.ofList text)]

/-- The characters from an offset on are the rest of a template, up to its closing mark, and hold
the pieces. `text` is what has been read since the last hole. -/
inductive Fills (spells : Nat → List Char → Token → Prop) :
    (text : List Char) → Nat → List Char → List Piece → Prop
  | close {text : List Char} {offset : Nat} : Fills spells text offset ['\x60'] (textPiece text)
  | plain {text : List Char} {offset : Nat} {c : Char} {cs : List Char} {pieces : List Piece}
    (hc : c ≠ '\\') (inside : ¬ EndsText (c :: cs))
    (h : Fills spells (text ++ [c]) (offset + c.utf8Size) cs pieces) :
    Fills spells text offset (c :: cs) pieces
  | escape {text : List Char} {offset : Nat} {e : List Char} {c : Char} {cs : List Char}
    {pieces : List Piece} (he : EscapeOf e c)
    (h : Fills spells (text ++ [c]) (offset + 1 + byteSize e) cs pieces) :
    Fills spells text offset ('\\' :: (e ++ cs)) pieces
  | hole {text : List Char} {offset : Nat} {cs rest : List Char} {tokens : List Lexeme}
    {pieces : List Piece} (htokens : Tiles spells (some 0) (offset + 2) cs tokens)
    (h : Fills spells [] (offset + 2 + byteSize cs) rest pieces) :
    Fills spells text offset ('$' :: '\x7b' :: (cs ++ rest))
      (textPiece text ++ .hole tokens :: pieces)

/-- The characters behind the opening mark of a template, with at most a number of levels of
templates inside each other. -/
def TemplateWithin : Nat → Nat → List Char → List Piece → Prop
  | 0, _, _, _ => False
  | levels + 1, offset, cs, pieces =>
    ∃ filled, Fills (Spells (TemplateWithin levels)) [] offset cs filled ∧
      pieces = if filled.isEmpty then [.text ""] else filled

theorem Spells.isEnd_eq_false {template : Nat → List Char → List Piece → Prop} {offset : Nat}
    {cs : List Char} {token : Token} (h : Spells template offset cs token) :
    token.isEnd = false := by
  cases h <;> rfl

theorem Filler.Whole.congr {f : Filler} {as bs : List Char} (h : as.head? = bs.head?)
    (hf : f.Whole as) : f.Whole bs := by
  cases f with
  | lineComment => exact ⟨hf.1, h ▸ hf.2⟩
  | _ => exact hf

/-- Whether a gap is whole depends on the first character behind it only. -/
theorem WholeGap.congr {gap : List Filler} {as bs : List Char} (h : as.head? = bs.head?)
    (hgap : WholeGap as gap) : WholeGap bs gap := by
  induction gap with
  | nil => trivial
  | cons f gap ih =>
    refine ⟨hgap.1.congr ?_, ih hgap.2⟩
    rw [List.head?_append, List.head?_append, h]

/-- A token in front of others, with the gap before it. -/
theorem Tiles.cons {spells : Nat → List Char → Token → Prop} {braces : Option Nat}
    {gap : List Filler} {p q r : Position} {token : Token} {cs rest : List Char}
    {tokens : List Lexeme} (hgap : p.Reads (gapChars gap) r) (hwhole : WholeGap r.ahead gap)
    (hreads : r.Reads cs q) (htoken : spells r.offset cs token) (hne : cs ≠ [])
    (inside : braces = some 0 → token.isPunct .rightBrace = false)
    (hrest : Tiles spells (braces.map (openBraces token)) q.offset rest tokens) :
    Tiles spells braces p.offset (gapChars gap ++ (cs ++ rest))
      (.mk token ⟨r.offset, q.offset⟩ (gapDoc gap) (gapNewline gap) :: tokens) := by
  have hhead : r.ahead.head? = (cs ++ rest).head? := by
    obtain ⟨c, cs, rfl⟩ := List.exists_cons_of_ne_nil hne
    rw [hreads.ahead]
    rfl
  rw [hreads.offset] at hrest ⊢
  exact .token (hwhole.congr hhead) hgap.offset htoken inside hrest

theorem Fills.ne_nil {spells : Nat → List Char → Token → Prop} {text cs : List Char}
    {offset : Nat} {pieces : List Piece} (h : Fills spells text offset cs pieces) : cs ≠ [] := by
  cases h <;> exact List.cons_ne_nil _ _

namespace Lexer

variable {p q : Position} {template : Nat → List Char → List Piece → Prop} {t : TemplateReader}

/-- A reader that reads templates as they are told apart. -/
def ReadsTemplates (template : Nat → List Char → List Piece → Prop) (t : TemplateReader) : Prop :=
  ∀ start p pieces q, t start p = .ok (pieces, q) →
    ∃ cs, p.Reads cs q ∧ template p.offset cs pieces

theorem bareToken_spells (ht : ReadsTemplates template t) {token : Token}
    (h : bareToken t p = .ok (token, q)) :
    (token = .endOfInput ∧ p.ahead = [] ∧ q = p) ∨
      ∃ cs, p.Reads cs q ∧ Spells template p.offset cs token := by
  unfold bareToken at h
  split at h
  · rename_i hp
    cases h
    exact .inl ⟨rfl, hp, rfl⟩
  · rename_i c cs hp
    refine .inr ?_
    have hone : p.Reads [c] (p.skip 1) := .skip_append cs hp rfl
    dsimp only at h
    split at h
    · rename_i hquote
      cases hstring : string c p.offset [] (p.skip 1) with
      | error e =>
        rw [hstring] at h
        cases h
      | ok r =>
        rw [hstring] at h
        cases h
        obtain ⟨raw, text, hreads, hraw, htext⟩ := string_resolves hstring
        rw [htext]
        exact ⟨_, hone.trans hreads, .string (by simpa using hquote) hraw⟩
    split at h
    · rename_i hmark
      subst hmark
      cases htemplate : t p.offset (p.skip 1) with
      | error e =>
        rw [htemplate] at h
        cases h
      | ok r =>
        rw [htemplate] at h
        cases h
        obtain ⟨as, hreads, hpieces⟩ := ht _ _ _ _ htemplate
        rw [hone.offset] at hpieces
        exact ⟨_, hone.trans hreads, .template hpieces⟩
    split at h
    · rename_i hdigit
      cases h
      exact number_spells hp hdigit p.offset
    split at h
    · rename_i hname
      cases h
      exact name_spells hp hname p.offset
    split at h
    · rename_i hpunct
      cases h
      obtain ⟨as, bs, hcs, rfl, hspelled⟩ := punct?_spells hpunct
      exact ⟨as, .skip_append bs hcs rfl, .punct hspelled⟩
    · cases h

/-- A token is read behind a gap. Either it is the end of the input, or some characters spell it. -/
theorem lexeme_spells (ht : ReadsTemplates template t) {l : Lexeme}
    (h : lexeme t p = .ok (l, q)) :
    ∃ gap r token, p.Reads (gapChars gap) r ∧ WholeGap r.ahead gap ∧
      l = .mk token ⟨r.offset, q.offset⟩ (gapDoc gap) (gapNewline gap) ∧
      ((token = .endOfInput ∧ r.ahead = [] ∧ q = r) ∨
        ∃ cs, r.Reads cs q ∧ Spells template r.offset cs token) := by
  obtain ⟨⟨g, r⟩, hgap, h⟩ := bind_eq_ok_iff.1 h
  obtain ⟨⟨token, r'⟩, htoken, h⟩ := bind_eq_ok_iff.1 h
  cases h
  obtain ⟨gap, hreads, hwhole, rfl⟩ := reads_passGap hgap
  refine ⟨gap, r, token, hreads, hwhole, ?_, bareToken_spells ht htoken⟩
  simp [Gap.passing, gapNewline]

theorem hole_tiles (ht : ReadsTemplates template t) {p : Position} {start depth : Nat}
    {tokens ls : List Lexeme} (rounds : List Char)
    (h : hole t start depth tokens rounds p = .ok (ls, q)) :
    ∃ cs ms, p.Reads cs q ∧ Tiles (Spells template) (some depth) p.offset cs ms ∧
      ls = tokens.reverse ++ ms := by
  rw [hole_eq] at h
  obtain ⟨⟨l, r'⟩, hl, hnext⟩ := bind_eq_ok_iff.1 h
  obtain ⟨gap, r, token, hgap, hwhole, rfl, htoken⟩ := lexeme_spells ht hl
  dsimp only at hnext
  split at hnext
  · rename_i hclose
    have hbrace : token.isPunct .rightBrace = true := hclose.1
    obtain rfl := hclose.2
    obtain rfl := Token.eq_of_isPunct hbrace
    cases hnext
    obtain ⟨⟨⟩, -⟩ | ⟨cs, hreads, hspells⟩ := htoken
    cases hspells with
    | punct hcs =>
      obtain rfl := List.mem_singleton.1 hcs
      refine ⟨_, _, hgap.trans hreads, ?_, List.reverse_cons ..⟩
      have hclose : WholeGap ['\x7d'] gap := hwhole.congr (by rw [hreads.ahead]; rfl)
      have hoffset : q.offset = r.offset + 1 := hreads.offset
      show Tiles _ _ _ (gapChars gap ++ ['\x7d']) [.endAt ⟨r.offset, q.offset⟩]
      rw [hoffset]
      exact .close hclose hgap.offset
  · rename_i hopen
    split at hnext
    · rename_i hend
      obtain ⟨rest, ms, hrest, htiles, rfl⟩ := hole_tiles ht _ hnext
      obtain ⟨rfl, -⟩ | ⟨cs, hreads, hspells⟩ := htoken
      · cases hend
      · refine ⟨_, .mk token ⟨r.offset, r'.offset⟩ (gapDoc gap) (gapNewline gap) :: ms,
          hgap.trans (hreads.trans hrest), ?_, by simp⟩
        refine .cons hgap hwhole hreads hspells hspells.ne_nil (fun hdepth => ?_) htiles
        cases hdepth
        exact Bool.eq_false_iff.2 fun hbrace => hopen ⟨hbrace, rfl⟩
    · cases hnext

theorem reverse_flush (text : List Char) (done : List Piece) :
    (flush text done).reverse = done.reverse ++ textPiece text.reverse := by
  cases text with
  | nil => simp [flush, textPiece]
  | cons c text => simp [flush, textPiece]

theorem pieces_fill (ht : ReadsTemplates template t) {start : Nat} {text : List Char}
    {done ps : List Piece} {rounds : List Char}
    (h : pieces t start text done rounds p = .ok (ps, q)) :
    ∃ cs filled, p.Reads cs q ∧ Fills (Spells template) text.reverse p.offset cs filled ∧
      ps = if (done.reverse ++ filled).isEmpty then [.text ""] else done.reverse ++ filled := by
  fun_induction pieces t start text done rounds p with
  | case1 t text done p tail hahead =>
    cases h
    refine ⟨['\x60'], _, .skip_append tail hahead rfl, .close, ?_⟩
    rw [← reverse_flush, List.isEmpty_reverse]
  | case2 text done p cs _ rounds e r hread hmark hahead ih =>
    obtain ⟨rest, filled, hreads, hfills, rfl⟩ := ih h
    have hbackslash : p.Reads ['\\'] (p.skip 1) := .skip_append cs hahead rfl
    have hmore : r.ahead ≠ [] := by
      rw [hreads.ahead]
      exact List.append_ne_nil_of_left_ne_nil hfills.ne_nil _
    obtain ⟨chars, he, hchars⟩ := escape_resolves hread hmore
    refine ⟨'\\' :: (chars ++ rest), filled, hbackslash.trans (hchars.trans hreads), ?_, rfl⟩
    rw [List.reverse_cons, hchars.offset, hbackslash.offset] at hfills
    exact .escape he hfills
  | case3 text done p cs _ rounds e hread => cases h
  | case4 text done p c cs _ rounds _ hahead _ hmark tokens r hread ih =>
    obtain ⟨rfl, hbrace⟩ := hmark
    obtain ⟨tail, rfl⟩ := List.head?_eq_some_iff.1 hbrace
    obtain ⟨rest, filled, hreads, hfills, rfl⟩ := ih h
    obtain ⟨inner, _, hinner, htiles, rfl⟩ := hole_tiles ht _ hread
    have hopen : p.Reads ['$', '\x7b'] (p.skip 2) := .skip_append tail hahead rfl
    refine ⟨'$' :: '\x7b' :: (inner ++ rest), textPiece text.reverse ++ .hole tokens :: filled,
      hopen.trans (hinner.trans hreads), ?_, by simp [reverse_flush]⟩
    rw [hopen.offset] at htiles
    rw [hinner.offset, hopen.offset] at hfills
    exact .hole htiles hfills
  | case5 text done p c cs _ rounds _ _ _ _ e hread => cases h
  | case6 text done p c cs _ rounds hquote hahead hbackslash hmark ih =>
    obtain ⟨rest, filled, hreads, hfills, rfl⟩ := ih h
    have hone : p.Reads [c] (p.skip 1) := .skip_append cs hahead rfl
    refine ⟨c :: rest, filled, hone.trans hreads, ?_, rfl⟩
    rw [List.reverse_cons, hone.offset] at hfills
    refine .plain hbackslash ?_ hfills
    rintro (hend | hend)
    · exact hquote (Option.some.inj hend)
    · obtain ⟨rfl, tail, rfl⟩ := List.cons_prefix_cons.1 hend
      refine hmark ⟨rfl, ?_⟩
      have hcs := hreads.ahead
      rw [Position.skip, hahead] at hcs
      exact congrArg List.head? hcs
  | case7 t text done p => cases h

theorem readsTemplates_template (limit levels : Nat) :
    ReadsTemplates (TemplateWithin levels) (Lexer.template limit levels) := by
  induction levels with
  | zero => exact nofun
  | succ n ih =>
    intro start p ps q h
    obtain ⟨cs, filled, hreads, hfills, rfl⟩ := pieces_fill ih h
    exact ⟨cs, hreads, filled, hfills, rfl⟩

theorem lexemes_tile (ht : ReadsTemplates template t) {p : Position} {done ls : List Lexeme}
    (rounds : List Char) (hrounds : p.ahead.length ≤ rounds.length)
    (h : lexemes t done rounds p = .ok ls) :
    ∃ ms, Tiles (Spells template) none p.offset p.ahead ms ∧ ls = done.reverse ++ ms := by
  rw [lexemes_eq] at h
  obtain ⟨⟨l, q⟩, hl, hnext⟩ := bind_eq_ok_iff.1 h
  obtain ⟨gap, r, token, hgap, hwhole, rfl, htoken⟩ := lexeme_spells ht hl
  dsimp only at hnext
  split at hnext
  · rename_i rounds hend
    obtain ⟨cs, hreads, hspells⟩ := htoken.resolve_left fun hfinish => by
      rw [hfinish.1] at hend
      cases hend
    have hlength := congrArg List.length (hgap.trans hreads).ahead
    have hpos := List.length_pos_iff.2 hspells.ne_nil
    simp only [List.length_append, List.length_cons] at hlength hrounds
    obtain ⟨ms, htiles, rfl⟩ := lexemes_tile ht _ (by omega) hnext
    refine ⟨.mk token ⟨r.offset, q.offset⟩ (gapDoc gap) (gapNewline gap) :: ms, ?_, by simp⟩
    rw [hgap.ahead, hreads.ahead]
    exact .cons hgap hwhole hreads hspells hspells.ne_nil nofun htiles
  · rename_i hlast
    cases hnext
    obtain ⟨rfl, hr, rfl⟩ | ⟨cs, hreads, hspells⟩ := htoken
    · refine ⟨[_], ?_, List.reverse_cons ..⟩
      rw [hgap.ahead, hr, List.append_nil, hgap.offset]
      exact .finish (hr ▸ hwhole)
    · -- Some characters are ahead, so the rounds have not run out.
      have hlength := congrArg List.length (hgap.trans hreads).ahead
      have hpos := List.length_pos_iff.2 hspells.ne_nil
      simp only [List.length_append] at hlength
      obtain ⟨c, fewer, hfewer⟩ := List.exists_cons_of_length_pos
        (Nat.lt_of_lt_of_le (by omega) hrounds)
      exact (hlast c fewer hspells.isEnd_eq_false hfewer).elim

end Lexer

def Text.StandsAt (source cs : List Char) (offset : Nat) : Prop :=
  ∃ before after, source = before ++ (cs ++ after) ∧ byteSize before = offset

namespace Text.StandsAt

variable {source as bs : List Char} {offset : Nat}

theorem self (source : List Char) : StandsAt source source 0 :=
  ⟨[], [], (List.append_nil source).symm, rfl⟩

theorem left (h : StandsAt source (as ++ bs) offset) : StandsAt source as offset := by
  obtain ⟨before, after, rfl, hbefore⟩ := h
  exact ⟨before, bs ++ after, by rw [List.append_assoc], hbefore⟩

theorem right (h : StandsAt source (as ++ bs) offset) :
    StandsAt source bs (offset + byteSize as) := by
  obtain ⟨before, after, rfl, rfl⟩ := h
  exact ⟨before ++ as, after, by simp, byteSize_append before as⟩

theorem tail {c : Char} (h : StandsAt source (c :: bs) offset) :
    StandsAt source bs (offset + c.utf8Size) := by
  have hone : StandsAt source ([c] ++ bs) offset := h
  exact hone.right

theorem within (h : StandsAt source as offset) :
    Span.Within source ⟨offset, offset + byteSize as⟩ := by
  obtain ⟨before, after, rfl, rfl⟩ := h
  exact ⟨⟨before, as ++ after, rfl, rfl⟩,
    ⟨before ++ as, after, by rw [List.append_assoc], byteSize_append before as⟩,
    Nat.le_add_right ..⟩

end Text.StandsAt

open Text (StandsAt)

/-- The tokens stand one behind the other between characters of a text, and each name is what the
text says at its place. -/
structure Placed (source : List Char) (tokens : List Lexeme) : Prop where
  ordered : tokens.Pairwise fun l l' => l.span.stop ≤ l'.span.start
  within : ∀ l ∈ tokens, l.span.Within source
  names : ∀ l ∈ tokens, ∀ text, l.token = .name text →
    StandsAt source text.toList l.span.start ∧ l.span.length = text.utf8ByteSize

section

variable {spells : Nat → List Char → Token → Prop} {braces : Option Nat} {offset : Nat}
  {source cs : List Char} {tokens : List Lexeme}

/-- A token of a tiling has characters of the text for itself, and these spell it unless it is an
end token. -/
theorem Tiles.exists_standsAt (h : Tiles spells braces offset cs tokens)
    (hcs : StandsAt source cs offset) {l : Lexeme} (hl : l ∈ tokens) :
    ∃ as, StandsAt source as l.span.start ∧ l.span.stop = l.span.start + byteSize as ∧
      (l.token = .endOfInput ∨ spells l.span.start as l.token) := by
  induction h with
  | token hgap hstart htoken inside hrest ih =>
    subst hstart
    rcases List.mem_cons.1 hl with rfl | hl
    · exact ⟨_, hcs.right.left, rfl, .inr htoken⟩
    · exact ih hcs.right.right hl
  | finish =>
    obtain rfl := List.mem_singleton.1 hl
    exact ⟨[], (List.append_nil (gapChars _) ▸ hcs).right, rfl, .inl rfl⟩
  | close hgap hstart =>
    subst hstart
    obtain rfl := List.mem_singleton.1 hl
    exact ⟨['\x7d'], hcs.right, rfl, .inl rfl⟩

theorem Tiles.le_start (h : Tiles spells braces offset cs tokens) :
    ∀ l ∈ tokens, offset ≤ l.span.start := by
  induction h with
  | token hgap hstart htoken inside hrest ih =>
    subst hstart
    refine List.forall_mem_cons.2 ⟨Nat.le_add_right .., fun l hl => ?_⟩
    have hle := ih l hl
    omega
  | finish => exact List.forall_mem_singleton.2 (Nat.le_add_right ..)
  | close hgap hstart =>
    subst hstart
    exact List.forall_mem_singleton.2 (Nat.le_add_right ..)

theorem Tiles.ordered (h : Tiles spells braces offset cs tokens) :
    tokens.Pairwise fun l l' => l.span.stop ≤ l'.span.start := by
  induction h with
  | token hgap hstart htoken inside hrest ih => exact .cons hrest.le_start ih
  | finish => exact List.pairwise_singleton ..
  | close => exact List.pairwise_singleton ..

/-- The tokens of a hole in a template are tiled as those around it are. -/
theorem Fills.exists_tiles {text : List Char} {pieces : List Piece}
    (h : Fills spells text offset cs pieces) (hcs : StandsAt source cs offset)
    (htokens : .hole tokens ∈ pieces) :
    ∃ start as, StandsAt source ('$' :: '\x7b' :: as) start ∧
      Tiles spells (some 0) (start + 2) as tokens := by
  have htext (text : List Char) : .hole tokens ∉ textPiece text := by
    unfold textPiece
    split <;> simp
  induction h with
  | close => exact (htext _ htokens).elim
  | plain hc inside h ih => exact ih hcs.tail htokens
  | escape he h ih => exact ih hcs.tail.right htokens
  | @hole text offset cs rest inner pieces hinner h ih =>
    rcases List.mem_append.1 htokens with htokens | htokens
    · exact (htext _ htokens).elim
    rcases List.mem_cons.1 htokens with hself | htokens
    · cases hself
      have hopened : StandsAt source ('$' :: '\x7b' :: cs ++ rest) offset := hcs
      exact ⟨offset, cs, hopened.left, hinner⟩
    · exact ih hcs.tail.tail.right htokens

end

/-- The tokens of a hole in a template, at any depth below some tokens. -/
inductive HoleIn : List Lexeme → List Lexeme → Prop
  | here {tokens inner : List Lexeme} {pieces : List Piece} {l : Lexeme} (hl : l ∈ tokens)
    (htemplate : l.token = .template pieces) (hinner : .hole inner ∈ pieces) : HoleIn tokens inner
  | inside {tokens inner deeper : List Lexeme} (h : HoleIn inner deeper)
    {pieces : List Piece} {l : Lexeme} (hl : l ∈ tokens)
    (htemplate : l.token = .template pieces) (hinner : .hole inner ∈ pieces) : HoleIn tokens deeper

section

variable {levels : Nat} {braces : Option Nat} {offset : Nat} {source cs : List Char}
  {tokens inner : List Lexeme}

theorem Tiles.placed (h : Tiles (Spells (TemplateWithin levels)) braces offset cs tokens)
    (hcs : StandsAt source cs offset) : Placed source tokens where
  ordered := h.ordered
  within l hl := by
    obtain ⟨as, has, hstop, -⟩ := h.exists_standsAt hcs hl
    have hwithin := has.within
    rwa [← hstop] at hwithin
  names l hl text htext := by
    obtain ⟨as, has, hstop, hend | hspells⟩ := h.exists_standsAt hcs hl
    · rw [htext] at hend
      cases hend
    · rw [htext] at hspells
      cases hspells
      refine ⟨has, ?_⟩
      rw [Span.length, hstop, Nat.add_sub_cancel_left, Text.byteSize_toList]

theorem Tiles.exists_hole_tiles (h : Tiles (Spells (TemplateWithin levels)) braces offset cs tokens)
    (hcs : StandsAt source cs offset) {l : Lexeme} (hl : l ∈ tokens) {pieces : List Piece}
    (htemplate : l.token = .template pieces) (hinner : .hole inner ∈ pieces) :
    ∃ levels start as, StandsAt source ('$' :: '\x7b' :: as) start ∧
      Tiles (Spells (TemplateWithin levels)) (some 0) (start + 2) as inner := by
  obtain ⟨as, has, -, hend | hspells⟩ := h.exists_standsAt hcs hl
  · rw [htemplate] at hend
    cases hend
  · rw [htemplate] at hspells
    cases hspells with
    | template hpieces =>
      match levels with
      | levels + 1 =>
        obtain ⟨filled, hfills, rfl⟩ := hpieces
        split at hinner
        · cases List.mem_singleton.1 hinner
        · exact ⟨levels, hfills.exists_tiles has.tail hinner⟩

theorem HoleIn.exists_tiles (hole : HoleIn tokens inner)
    (h : Tiles (Spells (TemplateWithin levels)) braces offset cs tokens)
    (hcs : StandsAt source cs offset) :
    ∃ levels start as, StandsAt source ('$' :: '\x7b' :: as) start ∧
      Tiles (Spells (TemplateWithin levels)) (some 0) (start + 2) as inner := by
  induction hole generalizing levels braces offset cs with
  | here hl htemplate hinner => exact h.exists_hole_tiles hcs hl htemplate hinner
  | inside hole hl htemplate hinner ih =>
    obtain ⟨levels, start, as, has, htiles⟩ := h.exists_hole_tiles hcs hl htemplate hinner
    exact ih htiles has.tail.tail

end

theorem tiles_of_tokenizeWithin {maxDepth : Nat} {source : String} {ls : List Lexeme}
    (h : tokenizeWithin maxDepth source = .ok ls) :
    Tiles (Spells (TemplateWithin maxDepth)) none 0 source.toList ls := by
  obtain ⟨ms, htiles, rfl⟩ := Lexer.lexemes_tile
    (Lexer.readsTemplates_template maxDepth maxDepth) _ (Nat.le_refl _) h
  exact htiles

end TypedConfig
