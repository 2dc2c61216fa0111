import TypedConfig.Proofs.Limits.Keeps
import TypedConfig.Proofs.Places.Texts

/-! # Where tokens stand

A reading position passes to another if the characters between them are those that the first has
ahead, and the offset grows by their size. Every scanner passes to a later position, so the place
of a token, and the place of a failure, lie between two positions that the start passes to.
-/

namespace TypedConfig

open Text (byteSize)

namespace Position

/-- The second position stands behind some of the characters ahead of the first. -/
def Passes (p q : Position) : Prop :=
  ∃ passed, p.ahead = passed ++ q.ahead ∧ q.offset = p.offset + byteSize passed

/-- The span stands between two positions that this one passes to. -/
def Covers (p : Position) (s : Span) : Prop :=
  ∃ q r, p.Passes q ∧ q.Passes r ∧ s = ⟨q.offset, r.offset⟩

namespace Passes

variable {o p q r : Position}

theorem refl (p : Position) : p.Passes p := ⟨[], rfl, rfl⟩

theorem trans (h : p.Passes q) (h' : q.Passes r) : p.Passes r := by
  obtain ⟨cs, hcs, hq⟩ := h
  obtain ⟨ds, hds, hr⟩ := h'
  refine ⟨cs ++ ds, ?_, ?_⟩
  · rw [hcs, hds, List.append_assoc]
  · rw [hr, hq, Text.byteSize_append, Nat.add_assoc]

theorem skip (p : Position) (n : Nat) : p.Passes (p.skip n) :=
  ⟨p.ahead.take n, (List.take_append_drop ..).symm, rfl⟩

theorem run (p : Position) (ok : Char → Bool) : p.Passes (p.run ok).2 :=
  ⟨p.ahead.takeWhile ok, List.takeWhile_append_dropWhile.symm, rfl⟩

theorem of_run {ok : Char → Bool} {cs : List Char} (h : p.run ok = (cs, q)) : p.Passes q := by
  simpa only [h] using run p ok

theorem one {c : Char} {cs : List Char} (h : p.ahead = c :: cs) :
    p.Passes ⟨cs, p.offset + c.utf8Size⟩ := ⟨[c], h, rfl⟩

theorem covers (h : o.Passes p) (h' : p.Passes q) : o.Covers ⟨p.offset, q.offset⟩ :=
  ⟨p, q, h, h', rfl⟩

end Passes

/-- A span between positions that the start of a source passes to is one between places of its
text. -/
theorem Covers.within {source : String} {s : Span} (h : (start source).Covers s) :
    s.Within source.toList := by
  obtain ⟨q, r, ⟨cs, hcs, hq⟩, ⟨ds, hds, hr⟩, rfl⟩ := h
  have hcs : source.toList = cs ++ q.ahead := hcs
  have hq : q.offset = byteSize cs := hq.trans (Nat.zero_add _)
  refine ⟨⟨cs, q.ahead, hcs, hq.symm⟩, ⟨cs ++ ds, r.ahead, ?_, ?_⟩, ?_⟩
  · rw [hcs, hds, List.append_assoc]
  · rw [hr, hq, Text.byteSize_append]
  · exact hr ▸ Nat.le_add_right ..

end Position

/-- Characters that stand where there are no tokens for a cause. -/
def LexCause.Opens : LexCause → List Char → Prop
  | .unterminatedComment, cs => ['/', '*'] <+: cs
  | .unterminatedString, cs => ∃ quote, cs.head? = some quote ∧ (quote = '"' ∨ quote = '\'')
  | .unterminatedTemplate, cs | .unterminatedHole, cs | .templatesTooDeep _, cs =>
    cs.head? = some '\x60'
  | .unterminatedEscape, cs => cs = ['\\']
  | .invalidEscape _, cs => ['\\', 'u'] <+: cs
  | .unexpectedCharacter c, cs => cs.head? = some c

/-- The error is one of the characters ahead: it covers some of them, which its cause is about. -/
structure Position.Faults (o : Position) (e : LexError) : Prop where
  covers : o.Covers e.span
  opens : ∃ q, o.Passes q ∧ q.offset = e.span.start ∧ e.cause.Opens q.ahead

theorem Position.Passes.faults {o p q : Position} {cause : LexCause} (h : o.Passes p)
    (h' : p.Passes q) (hopens : cause.Opens p.ahead) : o.Faults ⟨cause, ⟨p.offset, q.offset⟩⟩ :=
  ⟨h.covers h', p, h, rfl, hopens⟩

namespace Lexer

open Position (Passes)

/-- The computation passes from a position to a later one, with a result that has a property, or
fails for characters that the origin passes to. -/
structure Lexes {α : Type} (o p : Position) (x : Except LexError (α × Position))
    (P : α → Prop) : Prop where
  ok : ∀ a q, x = .ok (a, q) → p.Passes q ∧ P a
  error : ∀ e, x = .error e → o.Faults e

variable {o p q : Position} {α β : Type} {P : α → Prop} {Q : β → Prop}

namespace Lexes

variable {x : Except LexError (α × Position)}

theorem done {a : α} (h : p.Passes q) (ha : P a) : Lexes o p (.ok (a, q)) P :=
  ⟨fun _ _ hr => by cases hr; exact ⟨h, ha⟩, nofun⟩

theorem fail {e : LexError} (h : o.Faults e) : Lexes o p (.error e) P :=
  ⟨nofun, fun _ hr => by cases hr; exact h⟩

theorem further (h : Lexes o q x P) (hpq : p.Passes q) : Lexes o p x P :=
  ⟨fun a r hr => ⟨hpq.trans (h.ok a r hr).1, (h.ok a r hr).2⟩, h.error⟩

theorem bind {f : α × Position → Except LexError (β × Position)} (h : Lexes o p x P)
    (hf : ∀ a q, p.Passes q → P a → Lexes o q (f (a, q)) Q) : Lexes o p (x >>= f) Q := by
  cases x with
  | error e => exact fail (h.error e rfl)
  | ok r =>
    obtain ⟨hpq, ha⟩ := h.ok r.1 r.2 rfl
    exact (hf r.1 r.2 hpq ha).further hpq

theorem map {f : α → β} (h : Lexes o p x P) (hf : ∀ a, P a → Q (f a)) :
    Lexes o p (x.map fun (a, q) => (f a, q)) Q := by
  cases x with
  | error e => exact fail (h.error e rfl)
  | ok r => exact done (h.ok r.1 r.2 rfl).1 (hf r.1 (h.ok r.1 r.2 rfl).2)

end Lexes

theorem closeComment_eq {text cs body rest : List Char}
    (h : closeComment text cs = some (body, rest)) :
    text.reverse ++ cs = body ++ '*' :: '/' :: rest := by
  induction cs generalizing text with
  | nil => cases h
  | cons c cs ih =>
    rw [closeComment] at h
    split at h
    · rename_i hc
      cases h
      obtain ⟨rfl, hhead⟩ := hc
      cases cs with
      | nil => cases hhead
      | cons d ds => cases hhead; rfl
    · rw [← ih h, List.reverse_cons, List.append_assoc]
      rfl

theorem lexes_passGap (ho : o.Passes p) (gap : Gap) :
    Lexes o p (passGap gap p) fun _ => True := by
  fun_induction passGap gap p with
  | case1 gap p hp => exact .done (.refl p) trivial
  | case2 gap p cs hp ih =>
    have hpass : p.Passes ⟨cs, p.offset + 1⟩ := .one hp
    exact (ih (ho.trans hpass)).further hpass
  | case3 gap p c cs hp _ _ ih =>
    have hpass : p.Passes ⟨cs, p.offset + c.utf8Size⟩ := .one hp
    exact (ih (ho.trans hpass)).further hpass
  | case4 gap p c cs hp _ _ hc ih =>
    obtain ⟨rfl, -⟩ := hc
    have hpass : p.Passes (Position.run ⟨cs, p.offset + 1⟩ (· != '\n')).2 :=
      (Passes.one hp).trans (.run ..)
    exact (ih (ho.trans hpass)).further hpass
  | case5 gap p c cs hp _ _ _ hc hclose =>
    obtain ⟨rfl, hhead⟩ := hc
    obtain ⟨cs, rfl⟩ := List.head?_eq_some_iff.1 hhead
    have hpass : p.Passes ⟨[], p.offset + byteSize p.ahead⟩ :=
      ⟨p.ahead, (List.append_nil _).symm, rfl⟩
    exact .fail (ho.faults hpass ⟨cs, hp.symm⟩)
  | case6 gap p c cs hp _ _ _ hc body rest hclose ih =>
    obtain ⟨rfl, hhead⟩ := hc
    obtain ⟨cs, rfl⟩ := List.head?_eq_some_iff.1 hhead
    have htail : cs = body ++ '*' :: '/' :: rest := closeComment_eq hclose
    have hpass : p.Passes ⟨rest, p.offset + 4 + byteSize body⟩ := by
      refine ⟨'/' :: '*' :: (body ++ ['*', '/']), ?_, ?_⟩
      · rw [hp, htail, List.cons_append, List.cons_append, List.append_assoc]
        rfl
      · have hmarks : byteSize ('/' :: '*' :: (body ++ ['*', '/'])) = 4 + byteSize body := by
          simp only [Text.byteSize_cons, Text.byteSize_append, Text.byteSize_nil,
            show '/'.utf8Size = 1 from rfl, show '*'.utf8Size = 1 from rfl]
          omega
        rw [hmarks, Nat.add_assoc]
    exact (ih (ho.trans hpass)).further hpass
  | case7 gap p c cs hp => exact .done (.refl p) trivial

theorem passes_exponent? {n : Int} (h : exponent? p = some (n, q)) : p.Passes q := by
  unfold exponent? at h
  split at h
  · split at h
    · extract_lets signed q' at h
      split at h
      · cases h
      · rename_i hrun
        cases h
        have hskip : p.Passes q' := .skip p _
        exact hskip.trans (.of_run hrun)
    · cases h
  · cases h

theorem passes_fraction? {digits : List Char} (h : fraction? p = some (digits, q)) :
    p.Passes q := by
  unfold fraction? at h
  split at h
  · split at h
    · cases h
    · rename_i hrun
      cases h
      exact (Passes.skip p 1).trans (.of_run hrun)
  · cases h

theorem passes_number (p : Position) : p.Passes (number p).2 := by
  have hfraction (p : Position) : p.Passes ((fraction? p).getD ([], p)).2 := by
    cases h : fraction? p with
    | none => exact .refl p
    | some r => exact passes_fraction? h
  have hexponent (p : Position) : p.Passes ((exponent? p).getD (0, p)).2 := by
    cases h : exponent? p with
    | none => exact .refl p
    | some r => exact passes_exponent? h
  exact ((Passes.run p Char.isDigit).trans (hfraction _)).trans (hexponent _)

theorem passes_escapeDigits (p : Position) : p.Passes (escapeDigits p).2 := by
  unfold escapeDigits
  split
  · exact ((Passes.skip p 1).trans (.run ..)).trans (.skip ..)
  · exact .skip p 4

/-- An escape whose backslash stands right before it. -/
theorem lexes_escape {start : Position} (hstart : o.Passes start) (hp : start.Passes p)
    (hback : start.ahead = '\\' :: p.ahead) :
    Lexes o p (escape start.offset p) fun _ => True := by
  unfold escape
  split
  · rename_i hnil
    exact .fail (hstart.faults (.refl _) (hback.trans (congrArg _ hnil)))
  · rename_i c cs hcons
    dsimp only
    have hskip {c : Char} : Lexes o p (.ok (c, p.skip 1)) fun _ => True :=
      .done (.skip p 1) trivial
    split
    · exact hskip
    split
    · exact hskip
    split
    · exact hskip
    split
    · exact hskip
    split
    · have hdigits : p.Passes (escapeDigits (p.skip 1)).2 :=
        (Passes.skip p 1).trans (passes_escapeDigits _)
      split
      · exact .done hdigits trivial
      · rename_i hu _ _
        exact .fail (hstart.faults (hp.trans hdigits) ⟨cs, by rw [hback, hcons, hu]; rfl⟩)
    · exact hskip

theorem ahead_skip_one {c : Char} {cs : List Char} (h : p.ahead = c :: cs) :
    p.ahead = c :: (p.skip 1).ahead := by
  rw [Position.skip, h]
  rfl

/-- A string whose opening quote stands at a position passed before. -/
theorem lexes_string {start : Position} (hstart : o.Passes start) {quote : Char}
    (hquote : start.ahead.head? = some quote ∧ (quote = '"' ∨ quote = '\''))
    (text : List Char) (hp : start.Passes p) :
    Lexes o p (string quote start.offset text p) fun _ => True := by
  have hpass {p : Position} (hp : start.Passes p) {cs : List Char} (h : p.ahead = '\\' :: cs) :
      Lexes o (p.skip 1) (escape p.offset (p.skip 1)) fun _ => True :=
    lexes_escape (hstart.trans hp) (.skip p 1) (ahead_skip_one h)
  fun_induction string quote start.offset text p with
  | case1 text p hahead => exact .fail (hstart.faults hp ⟨quote, hquote⟩)
  | case2 text p cs hahead =>
    exact .fail (hstart.faults (hp.trans (.skip p 1)) ⟨quote, hquote⟩)
  | case3 text p cs hahead => exact .done (.skip p 1) trivial
  | case4 text p cs e q hescape hahead _ _ ih =>
    have hpq : p.Passes q := (Passes.skip p 1).trans ((hpass hp hahead).ok e q hescape).1
    exact (ih (hp.trans hpq)).further hpq
  | case5 text p cs e hescape hahead => exact .fail ((hpass hp hahead).error e hescape)
  | case6 text p c cs hahead _ _ hc ih =>
    exact (ih (hp.trans (.skip p 1))).further (.skip p 1)

/-- The holes of a template hold tokens that stand where the origin passes. -/
def HolesStand (o : Position) (ps : List Piece) : Prop :=
  ∀ tokens, Piece.hole tokens ∈ ps → ∀ l ∈ tokens, l.StandsIn o.Covers

/-- A reader of templates whose opening mark stands at a position passed before. -/
def LexesTemplates (o : Position) (t : TemplateReader) : Prop :=
  ∀ start p, o.Passes start → start.ahead.head? = some '\x60' → start.Passes p →
    Lexes o p (t start.offset p) (HolesStand o)

variable {t : TemplateReader}

theorem lexes_bareToken (ht : LexesTemplates o t) (ho : o.Passes p) :
    Lexes o p (bareToken t p) fun token => ∀ ps, token = .template ps → HolesStand o ps := by
  unfold bareToken
  split
  · exact .done (.refl p) nofun
  · rename_i c cs hahead
    have hhead : p.ahead.head? = some c := by rw [hahead]; rfl
    dsimp only
    split
    · rename_i hquote
      have hstring := lexes_string ho ⟨hhead, hquote⟩ [] (.skip p 1)
      exact (hstring.map fun _ _ => nofun).further (.skip p 1)
    split
    · rename_i hmark
      refine ((ht p _ ho (hmark ▸ hhead) (.skip p 1)).map fun ps hps => ?_).further (.skip p 1)
      rintro _ ⟨⟩
      exact hps
    split
    · exact .done (passes_number p) nofun
    split
    · exact .done (.run ..) nofun
    split
    · exact .done (.skip ..) nofun
    · exact .fail (ho.faults (.skip p 1) hhead)

theorem lexes_lexeme (ht : LexesTemplates o t) (ho : o.Passes p) :
    Lexes o p (lexeme t p) (Lexeme.StandsIn o.Covers) := by
  refine (lexes_passGap ho _).bind fun gap q hpq _ => ?_
  have hoq : o.Passes q := ho.trans hpq
  exact (lexes_bareToken ht hoq).bind fun token r hqr hholes =>
    .done (.refl r) (.mk (hoq.covers hqr) hholes)

theorem lexes_hole (ht : LexesTemplates o t) {start p : Position} (hstart : o.Passes start)
    (hmark : start.ahead.head? = some '\x60') (hp : start.Passes p) (depth : Nat)
    {tokens : List Lexeme} (htokens : ∀ l ∈ tokens, l.StandsIn o.Covers) (rounds : List Char) :
    Lexes o p (hole t start.offset depth tokens rounds p)
      fun ls => ∀ l ∈ ls, l.StandsIn o.Covers := by
  rw [hole_eq]
  refine (lexes_lexeme ht (hstart.trans hp)).bind fun l q hpq hl => ?_
  dsimp only
  split
  · refine .done (.refl q) fun m hm => ?_
    obtain rfl | hm := List.mem_cons.1 (List.mem_reverse.1 hm)
    · exact .endAt hl.span
    · exact htokens m hm
  · match l.isEnd, rounds with
    | false, _ :: rounds =>
      exact lexes_hole ht hstart hmark (hp.trans hpq) _ (List.forall_mem_cons.2 ⟨hl, htokens⟩)
        rounds
    | false, [] | true, _ => exact .fail (hstart.faults (hp.trans hpq) hmark)

theorem holesStand_nil (o : Position) : HolesStand o [] := fun _ hm => nomatch hm

theorem holesStand_flush {text : List Char} {ps : List Piece} (h : HolesStand o ps) :
    HolesStand o (flush text ps) := by
  unfold flush
  split
  · exact h
  · intro tokens hm
    obtain hm | hm := List.mem_cons.1 hm
    · cases hm
    · exact h tokens hm

theorem lexes_pieces (ht : LexesTemplates o t) {start : Position} (hstart : o.Passes start)
    (hmark : start.ahead.head? = some '\x60') (text : List Char) {done : List Piece}
    (hdone : HolesStand o done) (rounds : List Char) (hp : start.Passes p) :
    Lexes o p (pieces t start.offset text done rounds p) (HolesStand o) := by
  have hescape {p : Position} (hp : start.Passes p) {cs : List Char} (h : p.ahead = '\\' :: cs) :
      Lexes o (p.skip 1) (escape p.offset (p.skip 1)) fun _ => True :=
    lexes_escape (hstart.trans hp) (.skip p 1) (ahead_skip_one h)
  have hhole (cs : List Char) (p : Position) (hp : start.Passes p) :
      Lexes o (p.skip 2) (hole t start.offset 0 [] cs (p.skip 2))
        fun ls => ∀ l ∈ ls, l.StandsIn o.Covers :=
    lexes_hole ht hstart hmark (hp.trans (.skip p 2)) 0 (List.forall_mem_nil _) cs
  fun_induction pieces t start.offset text done rounds p with
  | case1 t text done p tail hahead =>
    refine .done (.skip p 1) ?_
    split
    · exact fun tokens hm => nomatch List.mem_singleton.1 hm
    · exact fun tokens hm => holesStand_flush hdone tokens (List.mem_reverse.1 hm)
  | case2 text done p cs _ rounds e q hread _ hahead ih =>
    have hpq : p.Passes q := (Passes.skip p 1).trans ((hescape hp hahead).ok e q hread).1
    exact (ih hdone (hp.trans hpq)).further hpq
  | case3 text done p cs _ rounds e hread _ hahead =>
    exact .fail ((hescape hp hahead).error e hread)
  | case4 text done p c cs _ rounds _ _ _ _ tokens q hread ih =>
    obtain ⟨hskip, htokens⟩ := (hhole cs p hp).ok tokens q hread
    have hpq : p.Passes q := (Passes.skip p 2).trans hskip
    refine (ih ?_ (hp.trans hpq)).further hpq
    intro ts hm
    obtain hm | hm := List.mem_cons.1 hm
    · cases hm
      exact htokens
    · exact holesStand_flush hdone ts hm
  | case5 text done p c cs _ rounds _ _ _ _ e hread => exact .fail ((hhole cs p hp).error e hread)
  | case6 text done p c cs _ rounds _ _ _ _ ih =>
    exact (ih hdone (hp.trans (.skip p 1))).further (.skip p 1)
  | case7 t text done p => exact .fail (hstart.faults hp hmark)

theorem lexes_template (o : Position) (limit levels : Nat) :
    LexesTemplates o (template limit levels) := by
  induction levels with
  | zero => exact fun start p hstart hmark hp => .fail (hstart.faults hp hmark)
  | succ n ih =>
    exact fun start p hstart hmark hp => lexes_pieces ih hstart hmark [] (holesStand_nil o) _ hp

theorem lexemes_stand (ht : LexesTemplates o t) {p : Position} {done : List Lexeme}
    (hdone : ∀ l ∈ done, l.StandsIn o.Covers) (rounds : List Char) (hp : o.Passes p) :
    (∀ ls, lexemes t done rounds p = .ok ls → ∀ l ∈ ls, l.StandsIn o.Covers) ∧
      ∀ e, lexemes t done rounds p = .error e → o.Faults e := by
  rw [lexemes_eq]
  have hlexeme := lexes_lexeme ht hp
  generalize lexeme t p = x at hlexeme
  rcases x with e | ⟨l, q⟩
  · exact ⟨nofun, fun _ hr => by cases hr; exact hlexeme.error e rfl⟩
  · obtain ⟨hpq, hl⟩ := hlexeme.ok l q rfl
    have hmore : ∀ m ∈ l :: done, m.StandsIn o.Covers := List.forall_mem_cons.2 ⟨hl, hdone⟩
    have hend : ∀ m ∈ (l :: done).reverse, m.StandsIn o.Covers :=
      fun m hm => hmore m (List.mem_reverse.1 hm)
    dsimp only [bind, Except.bind]
    match l.isEnd, rounds with
    | false, _ :: rounds => exact lexemes_stand ht hmore rounds (hp.trans hpq)
    | false, [] | true, _ => exact ⟨fun _ hr => by cases hr; exact hend, nofun⟩

end Lexer

theorem Lexeme.StandsIn.imp {S S' : Span → Prop} (hS : ∀ s, S s → S' s) {l : Lexeme}
    (h : l.StandsIn S) : l.StandsIn S' := by
  induction h with
  | mk place _ ih => exact .mk (hS _ place) ih

theorem lexemes_stand_start (maxDepth : Nat) (source : String) :
    (∀ ls, tokenizeWithin maxDepth source = .ok ls →
      ∀ l ∈ ls, l.StandsIn (Position.start source).Covers) ∧
      ∀ e, tokenizeWithin maxDepth source = .error e → (Position.start source).Faults e :=
  Lexer.lexemes_stand (Lexer.lexes_template (.start source) maxDepth maxDepth)
    (List.forall_mem_nil _) (Position.start source).ahead (.refl _)

/-- The tokens of a source stand between places of its text, and so does what has none. -/
theorem tokens_stand (maxDepth : Nat) (source : String) :
    (∀ ls, tokenizeWithin maxDepth source = .ok ls →
      ∀ l ∈ ls, l.StandsIn (Span.Within source.toList)) ∧
      ∀ e, tokenizeWithin maxDepth source = .error e → e.span.Within source.toList := by
  obtain ⟨hok, herror⟩ := lexemes_stand_start maxDepth source
  exact ⟨fun ls hr l hl => (hok ls hr l hl).imp fun _ hs => hs.within,
    fun e hr => (herror e hr).covers.within⟩

end TypedConfig
