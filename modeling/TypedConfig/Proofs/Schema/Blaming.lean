import TypedConfig.Proofs.Schema.Blames

/-! # Readers of declarations

Each reader of declarations takes the forms that it is for, or it fails and what it fails for is to
be blamed.
-/

namespace TypedConfig

namespace Declaration

open Form

variable {maxDepth n : Nat} {tokens passed before inside : List Lexeme} {l brace : Lexeme}

/-- What a reader of types gives: it takes tokens, and the references are names where types are
wanted. -/
structure GivesType (maxDepth : Nat) (tokens ls : List Lexeme) (t : TyTerm) : Prop where
  ne_nil : ls ≠ []
  cites : t.Cites maxDepth tokens

/-- Wherever a type is wanted inside a number of others, a reader takes it. -/
def ReadsTypes (maxDepth n : Nat) (tokens : List Lexeme) (inner : DeclReader TyTerm) : Prop :=
  ∀ passed, Blaming maxDepth tokens [.type n] passed inner (GivesType maxDepth tokens)

variable {inner : DeclReader TyTerm}

theorem blaming_indexSignature (h : ReadsTypes maxDepth n tokens inner) :
    Blaming maxDepth tokens (signature n) passed (indexSignature inner) fun ls s =>
      (∃ k ms, ls = k :: ms ∧ ∃ key, k.token = .name key) ∧ s.2.Cites maxDepth tokens := by
  refine .first (blaming_expectName .key) ?_
  rintro _ ⟨key, span⟩ ⟨k, rfl, -, hk, -⟩
  refine .first (blaming_expect _) ?_
  rintro _ _ ⟨colon, rfl, -, -⟩
  refine blaming_eatName _ (fun s hl hs => ⟨_, .take hl hs, ?_⟩) fun l hl hs => ?_
  · refine .first (blaming_expect _) ?_
    rintro _ _ ⟨close, rfl, -, -⟩
    refine .first (blaming_expect _) ?_
    rintro _ _ ⟨mark, rfl, -, -⟩
    exact .last (h _) fun ls t ht => .pure ⟨⟨k, _, rfl, key, hk⟩, ht.cites⟩
  · refine .looked fun c hc => .fail (fun _ => rfl) fun hw => ?_
    obtain rfl := hc.peek_eq hl
    exact .stuck (.of_next hw hl hs fun _ => rfl) .indexed

theorem blaming_fieldTerm (h : ReadsTypes maxDepth n tokens inner) :
    Blaming maxDepth tokens (fieldParts n) passed (fieldTerm inner) fun ls f =>
      f.2.Cites maxDepth tokens ∧ ∃ l m ms, ls = l :: m :: ms ∧ FieldName f.1.name l m ∧
        l.span = f.1.span := by
  refine .answered fun l hl => ?_
  extract_lets rest
  have hrest (name : String) (hname : l.token = .name name ∨ l.token = .string name) :
      Answer maxDepth tokens (fieldParts n) passed l (rest name) fun ls f =>
        f.2.Cites maxDepth tokens ∧ ∃ l m ms, ls = l :: m :: ms ∧ FieldName f.1.name l m ∧
          l.span = f.1.span := by
    have hin : l.isEnd = false := by
      rcases hname with hname | hname <;> exact isEnd_of_token hname rfl
    have htakes : Form.field.takes l = true := by
      rcases hname with hname | hname <;> rw [takes, hname]
    refine .taken hin (.take hl htakes) (.first (blaming_ate _) fun marks _ hmarks => ?_)
    refine .first (blaming_expect _) ?_
    rintro _ _ ⟨colon, rfl, hcolon, -⟩
    refine .last (h _) fun ms t ht => .pure ⟨ht.cites, ?_⟩
    rcases hmarks with rfl | ⟨question, rfl, hquestion⟩
    · exact ⟨l, colon, _, rfl, ⟨hname, .inr hcolon⟩, rfl⟩
    · exact ⟨l, question, _, rfl, ⟨hname, .inl hquestion⟩, rfl⟩
  split
  · exact hrest _ (.inl ‹_›)
  · exact hrest _ (.inr ‹_›)
  · rename_i hname hstring
    have hwhat : Form.field.wording? = some "field name" := rfl
    refine .refused (fun _ _ => rfl) fun hw => ?_
    refine .stuck (.of_next hw hl ?_ fun _ => rfl) (.unexpected hwhat)
    rw [takes]
    split
    · exact absurd ‹_› (hname _)
    · exact absurd ‹_› (hstring _)
    · rfl

theorem HasMember.append {Begins : Lexeme → Lexeme → Prop} {opened : List Lexeme}
    (h : HasMember maxDepth tokens Begins n opened inside) (ls : List Lexeme) :
    HasMember maxDepth tokens Begins n opened (inside ++ ls) := by
  obtain ⟨front, l, m, back, rfl, hfront, hbegins⟩ := h
  exact ⟨front, l, m, back ++ ls, by simp, hfront, hbegins⟩

/-- Members that have been read behind a brace. -/
structure MembersBehind (maxDepth n : Nat) (tokens opened inside : List Lexeme)
    (fields : List (FieldInfo × TyTerm)) (index : Option (String × TyTerm)) : Prop where
  named : ∀ f ∈ fields, HasMember maxDepth tokens (FieldName f.1.name) n opened inside
  fields : ∀ f ∈ fields, f.2.Cites maxDepth tokens
  bracket : ∀ s ∈ index, HasMember maxDepth tokens IndexKey n opened inside
  index : ∀ s ∈ index, s.2.Cites maxDepth tokens

namespace MembersBehind

variable {fields : List (FieldInfo × TyTerm)} {index : Option (String × TyTerm)}
  {opened : List Lexeme}

theorem begin (maxDepth n : Nat) (tokens opened : List Lexeme) :
    MembersBehind maxDepth n tokens opened [] [] none := ⟨nofun, nofun, nofun, nofun⟩

theorem append (h : MembersBehind maxDepth n tokens opened inside fields index)
    (ls : List Lexeme) :
    MembersBehind maxDepth n tokens opened (inside ++ ls) fields index where
  named f hf := (h.named f hf).append ls
  fields := h.fields
  bracket s hs := (h.bracket s hs).append ls
  index := h.index

theorem field {l m : Lexeme} {ls : List Lexeme} {f : FieldInfo × TyTerm}
    (h : MembersBehind maxDepth n tokens opened inside fields index)
    (hinside : Inside maxDepth tokens n opened inside) (hl : FieldName f.1.name l m)
    (hf : f.2.Cites maxDepth tokens) :
    MembersBehind maxDepth n tokens opened (inside ++ l :: m :: ls) (fields ++ [f]) index where
  named := List.forall_mem_append.2 ⟨(h.append _).named,
    List.forall_mem_singleton.2 ⟨inside, l, m, ls, rfl, hinside, hl⟩⟩
  fields := List.forall_mem_append.2 ⟨h.fields, List.forall_mem_singleton.2 hf⟩
  bracket := (h.append _).bracket
  index := h.index

theorem signature {b k : Lexeme} {ls : List Lexeme} {s : String × TyTerm}
    (h : MembersBehind maxDepth n tokens opened inside fields index)
    (hinside : Inside maxDepth tokens n opened inside) (hb : IndexKey b k)
    (hs : s.2.Cites maxDepth tokens) :
    MembersBehind maxDepth n tokens opened (inside ++ b :: k :: ls) fields (some s) where
  named := (h.append _).named
  fields := h.fields
  bracket _ _ := ⟨inside, b, k, ls, rfl, hinside, hb⟩
  index := by
    rintro _ ⟨⟩
    exact hs

theorem blaming_ofMembers {owner : Option String} {close : Lexeme}
    (h : MembersBehind maxDepth n tokens (before ++ [brace]) inside fields index)
    (hbrace : OpensBlock maxDepth tokens n before (owner.getD "object type") brace)
    (hinside : Inside maxDepth tokens n (before ++ [brace]) inside)
    (hnext : before ++ [brace] ++ inside ++ [close] <+: tokens)
    (hclose : close.isPunct .rightBrace = true) :
    Blaming maxDepth tokens [] passed (ofMembers owner brace.span fields index) fun _ t =>
      t.Cites maxDepth tokens := by
  unfold ofMembers
  split
  · exact .pure (.record h.fields)
  · exact .pure (h.index _ rfl)
  · rename_i hfields
    obtain ⟨f, fields, rfl⟩ := List.exists_cons_of_ne_nil fun hnil => hfields _ _ hnil rfl
    exact .fail (fun _ => rfl) fun _ =>
      .mixed hbrace hinside hnext hclose (h.named f (.head _)) (h.bracket _ rfl)

end MembersBehind

/-- Where there are no tokens ahead, no reader begins. -/
theorem blaming_of_length_le {α : Type} {m : DeclReader α} {fs : List Form}
    {Q : List Lexeme → α → Prop} (h : tokens.length ≤ passed.length) :
    Blaming maxDepth tokens fs passed m Q :=
  ⟨fun _ _ _ _ hc => absurd hc.length_lt (Nat.not_lt.2 h),
    fun _ _ _ hc => absurd hc.length_lt (Nat.not_lt.2 h)⟩

/-- From wherever some members have been read, the others behind the brace are. -/
def ReadsMembers (maxDepth n : Nat) (tokens before : List Lexeme) (brace : Lexeme)
    (inner : DeclReader TyTerm) (owner : Option String) (rounds : List Lexeme) : Prop :=
  ∀ (inside : List Lexeme) (fields : List (FieldInfo × TyTerm)) (index : Option (String × TyTerm)),
    tokens.length ≤ (before ++ [brace] ++ inside).length + rounds.length →
    Leads maxDepth tokens ⟨block n, before ++ [brace]⟩ ⟨block n, before ++ [brace] ++ inside⟩ →
    MembersBehind maxDepth n tokens (before ++ [brace]) inside fields index →
    Blaming maxDepth tokens (block n) (before ++ [brace] ++ inside)
      (members inner owner brace.span rounds fields index) fun _ t => t.Cites maxDepth tokens

section

variable {owner : Option String} {rounds : List Lexeme} {fields : List (FieldInfo × TyTerm)}
  {index : Option (String × TyTerm)}

/-- An index signature whose bracket has been taken, and the members behind it. -/
theorem ReadsMembers.signature
    (hrest : ReadsMembers maxDepth n tokens before brace inner owner rounds)
    (h : ReadsTypes maxDepth n tokens inner)
    (hbrace : OpensBlock maxDepth tokens n before (owner.getD "object type") brace)
    (hinside : Inside maxDepth tokens n (before ++ [brace]) inside)
    (hm : MembersBehind maxDepth n tokens (before ++ [brace]) inside fields index)
    (hrounds : tokens.length ≤ (before ++ [brace] ++ inside).length + (rounds.length + 1))
    (hb : l.isPunct .leftBracket = true)
    (henter : Leads maxDepth tokens ⟨[.members n], before ++ [brace] ++ inside⟩
      ⟨Form.signature n ++ block n, before ++ [brace] ++ inside ++ [l]⟩) :
    Blaming maxDepth tokens (Form.signature n ++ block n) (before ++ [brace] ++ inside ++ [l])
      (do
        let start ← Reader.previous
        let s ← indexSignature inner
        if index.isSome then Reader.fail (.unsupported "more than one index signature") start
        else members inner owner brace.span rounds fields (some s))
      fun _ t => t.Cites maxDepth tokens := by
  refine .looked fun c hc => ?_
  have hspan : c.previous = l.span := hc.previous l (List.getLast?_concat ..)
  refine .bind (blaming_indexSignature h).ran ?_
  rintro _ s ⟨⟨⟨k, ls, rfl, hkey⟩, hs⟩, hls, -⟩
  refine .ite (fun hsome => .known fun next hnext => ?_) fun _ => ?_
  · obtain ⟨earlier, hearlier⟩ := Option.isSome_iff_exists.1 hsome
    rw [hspan]
    refine .fail (fun _ => rfl) fun _ => .reindexed hbrace hinside
      (List.IsPrefix.trans ⟨ls ++ [next], ?_⟩ hnext) ⟨hb, hkey⟩ (hm.bracket earlier hearlier)
    simp
  · have hread := (hinside.trans henter).trans (hls.append (block n))
    have hpassed : before ++ [brace] ++ inside ++ [l] ++ k :: ls =
        before ++ [brace] ++ (inside ++ l :: k :: ls) := by simp
    rw [hpassed] at hread ⊢
    refine hrest _ _ _ ?_ hread (hm.signature hinside ⟨hb, hkey⟩ hs)
    simp only [List.length_append, List.length_cons] at hrounds ⊢
    omega

/-- A field and the members behind it. -/
theorem ReadsMembers.field
    (hrest : ReadsMembers maxDepth n tokens before brace inner owner rounds)
    (h : ReadsTypes maxDepth n tokens inner)
    (hbrace : OpensBlock maxDepth tokens n before (owner.getD "object type") brace)
    (hinside : Inside maxDepth tokens n (before ++ [brace]) inside)
    (hm : MembersBehind maxDepth n tokens (before ++ [brace]) inside fields index)
    (hrounds : tokens.length ≤ (before ++ [brace] ++ inside).length + (rounds.length + 1))
    (hapart : Leads maxDepth tokens ⟨[.members n], before ++ [brace] ++ inside⟩
      ⟨fieldParts n ++ block n, before ++ [brace] ++ inside⟩) :
    Blaming maxDepth tokens (fieldParts n ++ block n) (before ++ [brace] ++ inside)
      (do
        let (info, t) ← fieldTerm inner
        if fields.any (·.1.name == info.name) then
          Reader.fail (.duplicateField (owner.getD "object type") info.name) info.span
        else members inner owner brace.span rounds (fields ++ [(info, t)]) index)
      fun _ t => t.Cites maxDepth tokens := by
  refine .bind (blaming_fieldTerm h).ran ?_
  rintro _ f ⟨⟨hf, l, m, ls, rfl, hname, hspan⟩, hls, -⟩
  refine .ite (fun hany => .known fun next hnext => ?_) fun _ => ?_
  · obtain ⟨g, hg, heq⟩ := List.any_eq_true.1 hany
    have hagain := hm.named g hg
    rw [beq_iff_eq.1 heq] at hagain
    rw [← hspan]
    refine .fail (fun _ => rfl) fun _ => .repeatedField hbrace hinside
      (List.IsPrefix.trans ⟨ls ++ [next], ?_⟩ hnext) hname hagain
    simp
  · have hread := (hinside.trans hapart).trans (hls.append (block n))
    rw [List.append_assoc _ inside] at hread ⊢
    refine hrest _ _ _ ?_ hread (hm.field hinside hname hf)
    simp only [List.length_append, List.length_cons] at hrounds ⊢
    omega

end

theorem readsMembers (h : ReadsTypes maxDepth n tokens inner) {owner : Option String}
    (hbrace : OpensBlock maxDepth tokens n before (owner.getD "object type") brace)
    (rounds : List Lexeme) : ReadsMembers maxDepth n tokens before brace inner owner rounds := by
  -- Every round takes a token and there is one more than tokens ahead, so they do not run out.
  induction rounds with
  | nil => exact fun _ _ _ hrounds _ _ => blaming_of_length_le hrounds
  | cons _ rounds ih =>
    intro inside fields index hrounds hread hm
    refine .first (blaming_skipPuncts _).ran fun skipped _ ⟨_, hskipped, _⟩ => ?_
    have hinside : Inside maxDepth tokens n (before ++ [brace]) (inside ++ skipped) := by
      rw [Inside, ← List.append_assoc]
      exact hread.trans (hskipped.append [.members n])
    replace hm := hm.append skipped
    replace hrounds : tokens.length ≤
        (before ++ [brace] ++ (inside ++ skipped)).length + (rounds.length + 1) := by
      simp only [List.length_append, List.length_cons] at hrounds ⊢
      omega
    rw [List.append_assoc _ inside]
    generalize inside ++ skipped = inside at hinside hm hrounds ⊢
    refine blaming_eatPunct _ (fun close hl hclose => ?_) fun l hl hclose => ?_
    · have hparts (second : Option Lexeme) : (Form.members n).parts? maxDepth close second =
          some [.mark .rightBrace] := by rw [parts?, if_pos hclose]
      exact ⟨[], .enter hl hparts hclose, hm.blaming_ofMembers hbrace hinside hl hclose⟩
    refine .looked fun c hc => .ite (fun hend => ?_) fun hend => ?_
    · exact .fail (fun _ => rfl) fun _ => .unclosed hbrace hinside hend (hc.eq_append hend)
    obtain rfl := hc.peek_eq hl
    refine blaming_eatPunct _ (fun b hl hb => ?_) fun l hl' hb => ?_
    · have hparts (second : Option Lexeme) : (Form.members n).parts? maxDepth b second =
          some (.mark .leftBracket :: (Form.signature n ++ block n)) := by
        rw [parts?, isPunct_eq hb, isEnd_of_isPunct hb, if_neg (by decide),
          if_neg Bool.false_ne_true, if_pos hb]
      have henter : Leads maxDepth tokens ⟨[.members n], before ++ [brace] ++ inside⟩
          ⟨Form.signature n ++ block n, before ++ [brace] ++ inside ++ [b]⟩ :=
        .enter hl hparts hb
      exact ⟨_, henter, ih.signature h hbrace hinside hm hrounds hb henter⟩
    · obtain rfl := hc.peek_eq hl'
      replace hend : c.peek.isEnd = false := Bool.eq_false_iff.2 hend
      have hparts (second : Option Lexeme) : (Form.members n).parts? maxDepth c.peek second =
          some (fieldParts n ++ block n) := by
        rw [parts?, hclose, hend, hb]
        rfl
      have hapart : Leads maxDepth tokens ⟨[.members n], before ++ [brace] ++ inside⟩
          ⟨fieldParts n ++ block n, before ++ [brace] ++ inside⟩ := .parts hl hparts
      exact .through hapart (ih.field h hbrace hinside hm hrounds hapart)

/-- Behind the cursor there are as many tokens as it gives rounds. -/
theorem rounds_le {c : Cursor} (h : c.Behind tokens passed) :
    tokens.length ≤ passed.length + (c.last :: c.ahead).length := by
  rw [h.tokens]
  simp

/-- The members behind a brace, from the first on. -/
theorem blaming_block (h : ReadsTypes maxDepth n tokens inner) {owner : Option String}
    (hbrace : OpensBlock maxDepth tokens n before (owner.getD "object type") brace) {c : Cursor}
    (hc : c.Behind tokens (before ++ [brace])) :
    Blaming maxDepth tokens (block n) (before ++ [brace])
      (members inner owner brace.span (c.last :: c.ahead) [] none) fun _ t =>
        t.Cites maxDepth tokens := by
  have hread : Leads maxDepth tokens ⟨block n, before ++ [brace]⟩
      ⟨block n, before ++ [brace] ++ []⟩ := by rw [List.append_nil]
  have hmembers := readsMembers h hbrace (c.last :: c.ahead) [] [] none
    (by rw [List.append_nil]; exact rounds_le hc) hread (.begin ..)
  rwa [List.append_nil] at hmembers

/-- A name that is a type by itself. -/
theorem namedTerm_of_plain {word : String} (h : word ∈ plainNames) (span : Span) :
    ∃ t, namedTerm inner word span = pure t ∧ t.references = [] := by
  simp only [plainNames, List.mem_cons, List.not_mem_nil, or_false] at h
  rcases h with rfl | rfl | rfl | rfl | rfl <;> exact ⟨_, rfl, rfl⟩

theorem namedTerm_of_sequence {word : String} (h : word ∈ sequenceNames) (span : Span) :
    namedTerm inner word span = (do
      let _ ← expect .less
      let t ← inner
      let _ ← expect .greater
      return .sequence t (word == "OneOrMany")) := by
  simp only [sequenceNames, List.mem_cons, List.not_mem_nil, or_false] at h
  rcases h with rfl | rfl <;> rfl

theorem namedTerm_of_other {word : String} (hplain : word ∉ plainNames)
    (hsequence : word ∉ sequenceNames) (span : Span) :
    namedTerm inner word span = (do
      if excludedNames.contains word then
        Reader.fail (.unsupported ("type `" ++ word ++ "`")) span
      else if ← Reader.atPunct .less then
        Reader.fail (.unsupported ("generic type `" ++ word ++ "<...>`")) span
      else return .reference ⟨word, span⟩) := by
  simp only [plainNames, sequenceNames, List.mem_cons, List.not_mem_nil, or_false, not_or]
    at hplain hsequence
  simp [namedTerm, hplain, hsequence]

theorem answer_namedTerm (h : ReadsTypes maxDepth (n + 1) tokens inner) {rest : List Lexeme}
    (hrest : tokens = passed ++ l :: rest) {word : String} (hword : l.token = .name word)
    (hw : Wants maxDepth tokens [.primary n] passed) :
    Answer maxDepth tokens [.primary n] passed l (namedTerm inner word l.span)
      (GivesType maxDepth tokens) := by
  have hl := next_of_eq hrest
  have hin : l.isEnd = false := isEnd_of_token hword rfl
  have htakes : (Form.word word).takes l = true := by
    rw [takes, Lexeme.isName, hword]
    exact beq_self_eq_true word
  by_cases hsequence : word ∈ sequenceNames
  · have hparts : (Form.primary n).parts? maxDepth l rest.head? =
        some [.word word, .mark .less, .type (n + 1), .mark .greater] := by
      rw [parts?, hword]
      exact if_pos hsequence
    rw [namedTerm_of_sequence hsequence]
    refine .taken hin (.tail (.single (.parts hrest hparts)) (.token hl htakes)) ?_
    refine .first (blaming_expect _) fun _ _ _ => .first (h _) fun ls t ht => ?_
    exact .first (blaming_expect _) fun _ _ _ => .pure ⟨List.cons_ne_nil _ _, ht.cites⟩
  by_cases hplain : word ∈ plainNames
  · have hparts : (Form.primary n).parts? maxDepth l rest.head? = some [.word word] := by
      rw [parts?, hword]
      exact (if_neg hsequence).trans (if_pos hplain)
    obtain ⟨t, ht, hnone⟩ := namedTerm_of_plain hplain l.span
    rw [ht]
    refine .taken hin (.tail (.single (.parts hrest hparts)) (.token hl htakes)) (.pure ?_)
    refine ⟨List.cons_ne_nil _ _, fun r hr => ?_⟩
    rw [hnone] at hr
    cases hr
  have hparts : (Form.primary n).parts? maxDepth l rest.head? =
      if word ∈ excludedNames ∨ rest.head?.any (·.isPunct .less) then none
      else some [.word word] := by
    rw [parts?, hword]
    exact (if_neg hsequence).trans (if_neg hplain)
  have hstuck (hnone : word ∈ excludedNames ∨ rest.head?.any (·.isPunct .less) = true) :
      Stuck maxDepth tokens (.primary n) passed l :=
    ⟨hw, rfl, rest, hrest, hparts.trans (if_pos hnone)⟩
  rw [namedTerm_of_other hplain hsequence]
  by_cases hex : word ∈ excludedNames
  · refine .refused (fun c _ => ?_) fun _ => .stuck (hstuck (.inl hex)) (.excluded hword hex)
    rw [if_pos (List.contains_iff_mem.2 hex)]
    rfl
  rw [if_neg (mt List.contains_iff_mem.1 hex)]
  cases hless : rest.head?.any (·.isPunct .less) with
  | true =>
    refine .refused (fun c hc => ?_) fun _ => .stuck (hstuck (.inr hless)) (.generic hword hex)
    rw [(hc hin).head?_eq hrest, Option.any_some] at hless
    show (if c.peek.isPunct .less = true then _ else _ : DeclReader TyTerm) c = _
    rw [if_pos hless]
    rfl
  | false =>
    have hone : (Form.primary n).parts? maxDepth l rest.head? = some [.word word] :=
      hparts.trans (if_neg (not_or.2 ⟨hex, hless ▸ Bool.false_ne_true⟩))
    refine .taken hin (.tail (.single (.parts hrest hone)) (.token hl htakes)) ?_
    refine .looked fun c hc => .ite (fun hpeek => ?_) fun _ =>
      .pure ⟨List.cons_ne_nil _ _, fun r hr => ?_⟩
    · rw [hc.head?_eq hrest, Option.any_some] at hless
      cases hless.symm.trans hpeek
    · obtain rfl := List.mem_singleton.1 hr
      exact ⟨_, passed, l, ⟨n, rfl⟩, ⟨hw, hl⟩, hl, hword, rfl⟩

theorem blaming_primary (h : ReadsTypes maxDepth (n + 1) tokens inner) :
    Blaming maxDepth tokens [.primary n] passed (primary inner) (GivesType maxDepth tokens) := by
  have hliteral {l : Lexeme} (hl : passed ++ [l] <+: tokens)
      (hparts : ∀ second, (Form.primary n).parts? maxDepth l second = some [.literal]) :
      Blaming maxDepth tokens [.primary n] passed (do return .literal (← literalValue))
        (GivesType maxDepth tokens) := by
    refine .through (.parts hl hparts) (.last blaming_literalValue fun ls _ hls => .pure ?_)
    rw [List.append_nil]
    exact ⟨hls, List.forall_mem_nil _⟩
  have hmark {l : Lexeme} {p : Punct} (h : l.token = .punct p) : l.isPunct p = true := by
    rw [Lexeme.isPunct, h]
    exact beq_self_eq_true p
  refine .wanting fun hw => .looked fun c hc => ?_
  have hl := hc.peek
  obtain ⟨rest, hrest⟩ := eq_of_next hl
  split
  · rename_i hparen
    have hparts (second : Option Lexeme) : (Form.primary n).parts? maxDepth c.peek second =
        some [.mark .leftParen, .type (n + 1), .mark .rightParen] := by rw [parts?, hparen]
    refine .taken hl (isEnd_of_token hparen rfl) (.enter hl hparts (hmark hparen)) ?_
    refine .first (h _) fun ls t ht => .first (blaming_expect _) fun _ _ _ => .pure ?_
    exact ⟨List.cons_ne_nil _ _, ht.cites⟩
  · rename_i hbrace
    have hparts (second : Option Lexeme) : (Form.primary n).parts? maxDepth c.peek second =
        some (.mark .leftBrace :: block (n + 1)) := by rw [parts?, hbrace]
    have hopens : OpensBlock maxDepth tokens (n + 1) passed "object type" c.peek :=
      ⟨hw.trans (.parts hl hparts), hmark hbrace, .inl rfl⟩
    refine .taken hl (isEnd_of_token hbrace rfl) (.enter hl hparts (hmark hbrace)) ?_
    exact .looked fun c hc => (blaming_block h hopens hc).imp fun ls t ht =>
      ⟨List.cons_ne_nil _ _, ht⟩
  · rename_i hstring
    exact hliteral hl fun _ => by rw [parts?, hstring]
  · rename_i hnumber
    exact hliteral hl fun _ => by rw [parts?, hnumber]
  · rename_i hminus
    exact hliteral hl fun _ => by rw [parts?, hminus]
  · rename_i word hword
    refine .answered fun l hl' => ?_
    obtain rfl := next_unique hl hl'
    exact answer_namedTerm h hrest hword hw
  · rename_i hparen hbrace hstring hnumber hminus hname
    refine blaming_expectedBut hl rfl rfl fun second => ?_
    rw [parts?]
    split
    · exact absurd ‹_› hparen
    · exact absurd ‹_› hbrace
    · exact absurd ‹_› hminus
    · exact absurd ‹_› (hstring _)
    · exact absurd ‹_› (hnumber _)
    · exact absurd ‹_› (hname _)
    · rfl

theorem blaming_bracketed (rounds : List Lexeme) {t : TyTerm} (ht : t.Cites maxDepth tokens)
    (hrounds : tokens.length ≤ passed.length + rounds.length) :
    Blaming maxDepth tokens [.brackets] passed (bracketed rounds t) fun _ t =>
      t.Cites maxDepth tokens := by
  induction rounds generalizing passed t with
  | nil => exact blaming_of_length_le hrounds
  | cons _ rounds ih =>
    refine .looked fun c hc => .looked fun c' hc' => ?_
    obtain ⟨rest, hrest⟩ := eq_of_next hc.peek
    have hsecond := hc'.punctAt_one hrest .rightBracket
    refine .ite (fun hboth => ?_) fun hnot => ?_
    · obtain ⟨hopen, hclose⟩ := Bool.and_eq_true_iff.1 hboth
      rw [hsecond] at hclose
      have hparts : Form.brackets.parts? maxDepth c.peek rest.head? =
          some [.mark .leftBracket, .mark .rightBracket, .brackets] := by
        rw [parts?, if_pos ⟨hopen, hclose⟩]
      obtain ⟨close, hhead, hclose⟩ := (Option.any_eq_true _ _).1 hclose
      obtain ⟨rest, rfl⟩ := List.head?_eq_some_iff.1 hhead
      have hnext : passed ++ [c.peek] ++ [close] <+: tokens := ⟨rest, by simp [hrest]⟩
      refine .taken hc.peek (isEnd_of_isPunct hopen)
        (.tail (.single (.parts hrest hparts)) (.token hc.peek hopen)) ?_
      refine .taken hnext (isEnd_of_isPunct hclose) (.take hnext hclose) (ih ht ?_)
      simp only [List.length_append, List.length_cons, List.length_nil] at hrounds ⊢
      omega
    · have hparts : Form.brackets.parts? maxDepth c.peek rest.head? = some [] := by
        have hneither : ¬(c.peek.isPunct .leftBracket ∧
            rest.head?.any (·.isPunct .rightBracket) = true) := by
          rw [← hsecond]
          exact fun hboth => hnot (Bool.and_eq_true_iff.2 hboth)
        rw [parts?, if_neg hneither]
      exact .through (.single (.parts hrest hparts)) (.pure ht)

theorem blaming_alternative (h : ReadsTypes maxDepth (n + 1) tokens inner) :
    Blaming maxDepth tokens (Form.alternative n) passed (alternative inner)
      (GivesType maxDepth tokens) := by
  refine .looked fun c hc => .first (blaming_primary h) fun ls t ht => ?_
  refine (blaming_bracketed _ ht.cites ?_).imp fun ms u hu => ⟨?_, hu⟩
  · have hrounds := rounds_le hc
    rw [List.length_append]
    omega
  · exact fun hnil => ht.ne_nil (List.append_eq_nil_iff.1 hnil).1

theorem blaming_alternatives (h : ReadsTypes maxDepth (n + 1) tokens inner)
    (rounds : List Lexeme) (hrounds : tokens.length ≤ passed.length + rounds.length) :
    Blaming maxDepth tokens [.alternatives n] passed (alternatives inner rounds) fun _ ts =>
      ∀ t ∈ ts, t.Cites maxDepth tokens := by
  induction rounds generalizing passed with
  | nil => exact blaming_of_length_le hrounds
  | cons _ rounds ih =>
    refine blaming_eatPunct _ (fun bar hl hbar => ?_) fun l hl hbar => ?_
    · have hparts (second : Option Lexeme) : (Form.alternatives n).parts? maxDepth bar second =
          some (.mark .pipe :: (Form.alternative n ++ [.alternatives n])) := by
        rw [parts?, if_pos hbar]
      have hrest (ls : List Lexeme) :
          tokens.length ≤ (passed ++ [bar] ++ ls).length + rounds.length := by
        simp only [List.length_append, List.length_cons, List.length_nil] at hrounds ⊢
        omega
      have henter : Leads maxDepth tokens ⟨[.alternatives n], passed⟩
          ⟨Form.alternative n ++ [.alternatives n], passed ++ [bar]⟩ := .enter hl hparts hbar
      refine ⟨_, henter, ?_⟩
      refine .bind (blaming_alternative h) fun ls t ht => .last (ih (hrest ls)) fun ms ts hts => ?_
      exact .pure (List.forall_mem_cons.2 ⟨ht.cites, hts⟩)
    · have hparts (second : Option Lexeme) :
          (Form.alternatives n).parts? maxDepth l second = some [] := by
        rw [parts?, if_neg (hbar ▸ Bool.false_ne_true)]
      exact .through (.parts hl hparts) (.pure (List.forall_mem_nil _))

theorem blaming_unionTerm (h : ReadsTypes maxDepth (n + 1) tokens inner) (hn : n < maxDepth) :
    Blaming maxDepth tokens [.type n] passed (unionTerm inner) (GivesType maxDepth tokens) := by
  refine .known fun l hl => ?_
  have hparts (second : Option Lexeme) : (Form.type n).parts? maxDepth l second =
      some (.optional (.mark .pipe) :: (Form.alternative n ++ [.alternatives n])) := by
    rw [parts?, if_pos hn]
  have hapart : Leads maxDepth tokens ⟨[.type n], passed⟩
      ⟨.optional (.mark .pipe) :: (Form.alternative n ++ [.alternatives n]), passed⟩ :=
    .parts hl hparts
  refine .through hapart ?_
  refine .first (blaming_ate _) fun bars _ _ => .bind (blaming_alternative h) fun ls t ht => ?_
  refine .looked fun c hc => .last (blaming_alternatives h _ (rounds_le hc)) fun ms ts hts =>
    .pure ⟨?_, .ofAlternatives ht.cites hts⟩
  simp [ht.ne_nil]

theorem readsTypes_typeTerm {levels : Nat} (hlevels : n + levels = maxDepth) :
    ReadsTypes maxDepth n tokens (typeTerm maxDepth levels) := by
  -- A reader inside of this one has one level less to go and is used where one more is open.
  induction levels generalizing n with
  | zero =>
    obtain rfl : n = maxDepth := hlevels
    refine fun _ => ⟨nofun, fun c e hw hc he => ?_⟩
    cases he
    have hparts (second : Option Lexeme) : (Form.type n).parts? n c.peek second = none := by
      rw [parts?, if_neg (Nat.lt_irrefl n)]
    exact .inl (.stuck (.of_next hw hc.peek rfl hparts) .tooDeep)
  | succ levels ih =>
    intro passed
    have hinner := ih (by omega : n + 1 + levels = maxDepth)
    have hunion : Blaming maxDepth tokens [.type n] passed (unionTerm (typeTerm maxDepth levels))
        (GivesType maxDepth tokens) := blaming_unionTerm hinner (by omega)
    exact ⟨hunion.ok, hunion.error⟩

/-- The name that a declaration gives to something. -/
def name : Declaration → String
  | .type name .. | .constant name .. | .root name .. => name

def span : Declaration → Span
  | .type _ _ _ span | .constant _ _ span | .root _ _ span => span

/-- What a declaration is for, as the form of its name tells. -/
def Kind : Declaration → Form → Prop
  | .type .. => NamesType
  | .constant .. => NamesConstant
  | .root .. => NamesRoot

/-- The name of a declaration stands where names of its kind do, and the references stand where
types do. -/
structure WrittenIn (maxDepth : Nat) (tokens passed : List Lexeme) (d : Declaration) : Prop where
  name : Named maxDepth tokens d.Kind passed d.name d.span
  references : ∀ r ∈ d.references, Named maxDepth tokens IsPrimary tokens r.name r.span

variable {kind : Form → Prop} {name : String} {span : Span} {f : Form}

theorem WrittenIn.append {d : Declaration} (h : d.WrittenIn maxDepth tokens passed)
    (ls : List Lexeme) : d.WrittenIn maxDepth tokens (passed ++ ls) :=
  ⟨h.name.append ls, h.references⟩

theorem named_behind (hf : kind f) (hl : Stands maxDepth tokens f passed l)
    (hname : l.token = .name name) (ls : List Lexeme) :
    Named maxDepth tokens kind (passed ++ ([l] ++ ls)) name l.span :=
  ⟨f, passed, l, hf, hl, ⟨ls, List.append_assoc ..⟩, hname, rfl⟩

theorem blaming_term : Blaming maxDepth tokens [.type 0] passed (typeTerm maxDepth maxDepth)
    (GivesType maxDepth tokens) := readsTypes_typeTerm (Nat.zero_add _) _

theorem blaming_interface (doc : Option String) :
    Blaming maxDepth tokens (.name .interface :: .mark .leftBrace :: block 0) passed
      (interface (typeTerm maxDepth maxDepth) doc) fun ls d =>
        d.WrittenIn maxDepth tokens (passed ++ ls) := by
  refine .first (blaming_expectName .interface) ?_
  rintro _ ⟨name, _⟩ ⟨n, rfl, hn, hname, rfl⟩
  refine .looked fun c hc => ?_
  extract_lets rest
  refine .ite (fun hl => .fail (fun _ => rfl) fun hw => ?_) fun _ => .wanting fun hw => ?_
  · rw [Bool.or_eq_true] at hl
    have htakes : (Form.mark .leftBrace).takes c.peek = false := by
      rcases hl with hl | hl
      · rw [takes, Lexeme.isPunct, Token.eq_of_isName hl]
        rfl
      · exact isPunct_eq hl .leftBrace
    exact .stuck (.of_next hw hc.peek htakes fun _ => rfl) (.inherited hl)
  · refine .first (blaming_expect _) ?_
    rintro _ _ ⟨brace, rfl, hopen, rfl⟩
    have hopens : OpensBlock maxDepth tokens 0 (passed ++ [n]) name brace :=
      ⟨hw, hopen, .inr ⟨passed, n, rfl, hn.wanted, hname⟩⟩
    have hread : ReadsTypes maxDepth 0 tokens (typeTerm maxDepth maxDepth) :=
      readsTypes_typeTerm (Nat.zero_add _)
    refine .looked fun c hc => .last (blaming_block hread hopens hc) fun ls t ht => ?_
    exact .pure ⟨named_behind (.inl rfl) hn hname _, ht⟩

theorem blaming_typeAlias (doc : Option String) :
    Blaming maxDepth tokens [.name .type, .mark .assign, .type 0, .optional (.mark .semicolon)]
      passed (typeAlias (typeTerm maxDepth maxDepth) doc) fun ls d =>
        d.WrittenIn maxDepth tokens (passed ++ ls) := by
  refine .first (blaming_expectName .type) ?_
  rintro _ ⟨name, _⟩ ⟨n, rfl, hn, hname, rfl⟩
  refine .first (blaming_expect _) fun _ _ _ => .first blaming_term fun _ t ht => ?_
  exact .last blaming_endStatement fun _ _ _ =>
    .pure ⟨named_behind (.inr rfl) hn hname _, ht.cites⟩

/-- What fixes no value is blamed from its first token to its last. -/
theorem blaming_typedConstant {colon : Lexeme} (hw : Wants maxDepth tokens [.value] passed)
    (hcolon : colon.isPunct .colon = true) :
    Blaming maxDepth tokens [.type 0] (passed ++ [colon])
      (typedConstant (typeTerm maxDepth maxDepth)) fun _ _ => True := by
  refine .looked fun c hc => .last blaming_term.ran ?_
  rintro ls t ⟨ht, hls, c₀, d, hc₀, hrun, hd⟩
  split
  · exact .pure trivial
  · rename_i hvalue
    refine .looked fun c' hc' => .fail (fun _ => rfl) fun _ => ?_
    obtain ⟨first, more, rfl⟩ := List.exists_cons_of_ne_nil ht.ne_nil
    have hfirst : passed ++ [colon] ++ [first] <+: tokens :=
      List.IsPrefix.trans ⟨more, by simp⟩ hc'.begins
    have hlast := List.getLast?_eq_some_getLast (List.cons_ne_nil first more)
    have hprevious : c'.previous = ((first :: more).getLast (List.cons_ne_nil _ _)).span :=
      hc'.previous _ (by rw [List.getLast?_append, hlast]; rfl)
    rw [hc.peek_eq hfirst, hprevious]
    exact .valued hw hcolon hc₀ hrun hls hd hvalue rfl hlast

theorem blaming_constantValue : Blaming maxDepth tokens [.value] passed
    (constantValue (typeTerm maxDepth maxDepth)) fun _ _ => True := by
  refine blaming_eatPunct _ (fun assign hl hassign => ?_) fun l hl hassign => ?_
  · have hparts (second : Option Lexeme) : Form.value.parts? maxDepth assign second =
        some [.mark .assign, .literal] := by rw [parts?, if_pos hassign]
    exact ⟨[.literal], .enter hl hparts hassign, blaming_literalValue.imp fun _ _ _ => trivial⟩
  refine .wanting fun hw => blaming_eatPunct _ (fun colon hl hcolon => ?_) fun l' hl' hcolon => ?_
  · have hparts (second : Option Lexeme) : Form.value.parts? maxDepth colon second =
        some [.mark .colon, .type 0] := by
      rw [parts?, isPunct_eq hcolon, if_neg (by decide), if_pos hcolon]
    exact ⟨[.type 0], .enter hl hparts hcolon, blaming_typedConstant hw hcolon⟩
  · obtain rfl := next_unique hl hl'
    have hparts (second : Option Lexeme) : Form.value.parts? maxDepth l second = none := by
      rw [parts?, hassign, hcolon]
      rfl
    refine .looked fun c hc => .fail (fun _ => rfl) fun _ => ?_
    obtain rfl := hc.peek_eq hl
    exact .stuck (.of_next hw hl rfl hparts) .valueless

theorem blaming_constantDeclaration :
    Blaming maxDepth tokens [.name .constant, .value, .optional (.mark .semicolon)] passed
      (constantDeclaration (typeTerm maxDepth maxDepth)) fun ls d =>
        d.WrittenIn maxDepth tokens (passed ++ ls) := by
  refine .first (blaming_expectName .constant) ?_
  rintro _ ⟨name, _⟩ ⟨n, rfl, hn, hname, rfl⟩
  have hkind : NamesConstant (.name .constant) := rfl
  refine .first blaming_constantValue fun _ _ _ => .last blaming_endStatement fun _ _ _ => ?_
  exact .pure ⟨named_behind hkind hn hname _, nofun⟩

/-- The root binding that declarations have made so far stands among the first tokens. -/
def HasRoot (maxDepth : Nat) (tokens passed : List Lexeme) (earlier : Option String) : Prop :=
  ∀ first ∈ earlier, ∃ span, Named maxDepth tokens NamesRoot passed first span

theorem HasRoot.append {earlier : Option String} (h : HasRoot maxDepth tokens passed earlier)
    (ls : List Lexeme) : HasRoot maxDepth tokens (passed ++ ls) earlier := fun first hfirst =>
  (h first hfirst).imp fun _ hs => hs.append ls

theorem blaming_rootDeclaration {earlier : Option String}
    (hearlier : HasRoot maxDepth tokens passed earlier) :
    Blaming maxDepth tokens [.name .root, .mark .colon, .type 0, .optional (.mark .semicolon)]
      passed (rootDeclaration (typeTerm maxDepth maxDepth) earlier) fun ls d =>
        d.WrittenIn maxDepth tokens (passed ++ ls) := by
  refine .first (blaming_expectName .root) ?_
  rintro _ ⟨name, _⟩ ⟨n, rfl, hn, hname, rfl⟩
  refine .first (blaming_expect _) fun _ _ _ => .first blaming_term fun _ t ht => ?_
  refine .last blaming_endStatement fun _ _ _ => ?_
  have hkind : NamesRoot (.name .root) := rfl
  have hwritten (ls : List Lexeme) :
      (root name t n.span).WrittenIn maxDepth tokens (passed ++ ([n] ++ ls)) :=
    ⟨named_behind hkind hn hname _, ht.cites⟩
  split
  · rename_i first
    refine .ite (fun _ => .pure (hwritten _)) fun hne => .fail (fun _ => rfl) fun _ => ?_
    obtain ⟨span, hfirst⟩ := hearlier first rfl
    exact .roots hn hname hfirst (by simpa using hne)
  · exact .pure (hwritten _)

/-- What is no path is blamed, but with the place of the token behind it. -/
theorem blaming_importPath :
    Blaming maxDepth tokens [.path, .optional (.mark .semicolon)] passed importPath
      fun _ _ => True := by
  refine .known fun l hl => ?_
  cases htakes : Form.path.takes l with
  | true =>
    rw [takes] at htakes
    split at htakes
    · rename_i htoken
      refine .taken hl (isEnd_of_token htoken rfl) (.take hl (by rw [takes, htoken])) ?_
      simp only [htoken]
      exact blaming_endStatement
    · cases htakes
  | false =>
    have hrun {c : Cursor} (hc : c.Behind tokens passed) : importPath c =
        .error ⟨.malformed ("expected module path, found " ++ l.token.describe),
          c.advance.peek.span⟩ := by
      obtain rfl := hc.peek_eq hl
      have hnext (f : Lexeme → DeclReader Unit) : (Reader.next >>= f) c = f c.peek c.advance := rfl
      rw [importPath, hnext]
      cases htoken : c.peek.token with
      | string text =>
        rw [takes, htoken] at htakes
        cases htakes
      | _ => rfl
    refine ⟨fun c _ _ _ hc hr => ?_, fun c e hw hc hr => ?_⟩ <;> cases (hrun hc).symm.trans hr
    refine .inr ⟨passed, l, .of_next hw hl htakes fun _ => rfl, rfl, ?_⟩
    cases hend : l.isEnd with
    | true =>
      have hpeek := hc.peek_eq hl
      exact .inl ⟨rfl, by rw [hc.advance_end (hpeek ▸ hend), hpeek]⟩
    | false =>
      obtain rfl := hc.peek_eq hl
      exact .inr ⟨_, List.append_cons .. ▸ (hc.advance hend).peek, rfl⟩

theorem blaming_some {k : Lexeme} {m : DeclReader Declaration} {fs : List Form}
    (hm : Blaming maxDepth tokens fs (passed ++ [k]) m fun ls d =>
      d.WrittenIn maxDepth tokens (passed ++ [k] ++ ls)) :
    Blaming maxDepth tokens (fs ++ []) (passed ++ [k]) (do return some (← m)) fun ls r =>
      ∀ d ∈ r, d.WrittenIn maxDepth tokens (passed ++ (k :: ls)) := by
  refine .bind hm fun ls d hd => .pure ?_
  rintro _ ⟨⟩
  simpa using hd

/-- What follows `declare`. -/
theorem blaming_declared {earlier : Option String}
    (hearlier : HasRoot maxDepth tokens passed earlier) :
    Blaming maxDepth tokens [.declared] passed (do
      if ← Reader.eatName "const" then
        return some (← constantDeclaration (typeTerm maxDepth maxDepth))
      else if ← Reader.eatName "var" then
        return some (← rootDeclaration (typeTerm maxDepth maxDepth) earlier)
      else if ← Reader.eatName "let" then
        return some (← rootDeclaration (typeTerm maxDepth maxDepth) earlier)
      else
        Reader.fail (.malformed "expected `const`, `var` or `let` after `declare`")
          (← Reader.peek).span)
      fun ls r => ∀ d ∈ r, d.WrittenIn maxDepth tokens (passed ++ ls) := by
  refine blaming_eatName _ (fun k hl hk => ?_) fun l hl hconst => ?_
  · have hparts (second : Option Lexeme) : Form.declared.parts? maxDepth k second =
        some [.word "const", .name .constant, .value, .optional (.mark .semicolon)] := by
      rw [parts?, if_pos hk]
    exact ⟨_, .enter hl hparts hk, blaming_some blaming_constantDeclaration⟩
  refine blaming_eatName _ (fun k hl hk => ?_) fun l' hl' hvar => ?_
  · have hparts (second : Option Lexeme) : Form.declared.parts? maxDepth k second =
        some [.word "var", .name .root, .mark .colon, .type 0, .optional (.mark .semicolon)] := by
      rw [parts?, isName_eq hk, if_neg (by decide), if_pos hk]
    refine ⟨_, .enter hl hparts hk, blaming_some (blaming_rootDeclaration (hearlier.append _))⟩
  obtain rfl := next_unique hl hl'
  refine blaming_eatName _ (fun k hl hk => ?_) fun l' hl' hlet => ?_
  · have hparts (second : Option Lexeme) : Form.declared.parts? maxDepth k second =
        some [.word "let", .name .root, .mark .colon, .type 0, .optional (.mark .semicolon)] := by
      rw [parts?, isName_eq hk, isName_eq hk, if_neg (by decide), if_neg (by decide), if_pos hk]
    refine ⟨_, .enter hl hparts hk, blaming_some (blaming_rootDeclaration (hearlier.append _))⟩
  obtain rfl := next_unique hl hl'
  have hparts (second : Option Lexeme) : Form.declared.parts? maxDepth l second = none := by
    rw [parts?, hconst, hvar, hlet]
    rfl
  refine .looked fun c hc => .fail (fun _ => rfl) fun hw => ?_
  obtain rfl := hc.peek_eq hl
  exact .stuck (.of_next hw hl rfl hparts) .undeclaring

theorem blaming_statement {earlier : Option String}
    (hearlier : HasRoot maxDepth tokens passed earlier) :
    Blaming maxDepth tokens [.optional (.word "export"), .statement] passed
      (statement (typeTerm maxDepth maxDepth) earlier) fun ls r =>
        ls ≠ [] ∧ ∀ d ∈ r, d.WrittenIn maxDepth tokens (passed ++ ls) := by
  refine .looked fun _ _ => .first (blaming_ateName _) fun exported _ _ => ?_
  replace hearlier := hearlier.append exported
  simp only [← List.append_assoc]
  generalize passed ++ exported = passed at hearlier ⊢
  have hsome {k : Lexeme} {m : DeclReader Declaration} {fs : List Form}
      (hm : Blaming maxDepth tokens fs (passed ++ [k]) m fun ls d =>
        d.WrittenIn maxDepth tokens (passed ++ [k] ++ ls)) :=
    (blaming_some hm).imp fun ls r hr =>
      (⟨by simp, hr⟩ : exported ++ k :: ls ≠ [] ∧ _)
  refine blaming_eatName _ (fun k hl hk => ?_) fun l hl hinterface => ?_
  · have hparts (second : Option Lexeme) : Form.statement.parts? maxDepth k second =
        some (.word "interface" :: .name .interface :: .mark .leftBrace :: block 0) := by
      rw [parts?, if_pos hk]
    exact ⟨_, .enter hl hparts hk, hsome (blaming_interface _)⟩
  refine blaming_eatName _ (fun k hl hk => ?_) fun l' hl' htype => ?_
  · have hparts (second : Option Lexeme) : Form.statement.parts? maxDepth k second =
        some [.word "type", .name .type, .mark .assign, .type 0, .optional (.mark .semicolon)] := by
      rw [parts?, isName_eq hk, if_neg (by decide), if_pos hk]
    exact ⟨_, .enter hl hparts hk, hsome (blaming_typeAlias _)⟩
  obtain rfl := next_unique hl hl'
  refine blaming_eatName _ (fun k hl hk => ?_) fun l' hl' hdeclare => ?_
  · have hparts (second : Option Lexeme) : Form.statement.parts? maxDepth k second =
        some [.word "declare", .declared] := by
      rw [parts?, isName_eq hk, isName_eq hk, if_neg (by decide), if_neg (by decide), if_pos hk]
    refine ⟨[.declared], .enter hl hparts hk, (blaming_declared (hearlier.append [k])).imp ?_⟩
    exact fun ls r hr => ⟨by simp, by simpa using hr⟩
  obtain rfl := next_unique hl hl'
  refine blaming_eatName _ (fun k hl hk => ?_) fun l' hl' himport => ?_
  · have hparts (second : Option Lexeme) : Form.statement.parts? maxDepth k second =
        some [.word "import", .path, .optional (.mark .semicolon)] := by
      rw [parts?, isName_eq hk, isName_eq hk, isName_eq hk, if_neg (by decide),
        if_neg (by decide), if_neg (by decide), if_pos hk]
    refine ⟨[.path, .optional (.mark .semicolon)], .enter hl hparts hk, ?_⟩
    exact .last blaming_importPath fun _ _ _ => .pure ⟨by simp, fun _ hd => by cases hd⟩
  obtain rfl := next_unique hl hl'
  refine blaming_expectedBut hl rfl rfl fun second => ?_
  rw [parts?, hinterface, htype, hdeclare, himport]
  rfl

theorem blaming_statements {earlier : Option String}
    (hearlier : HasRoot maxDepth tokens passed earlier) {done : List Declaration}
    (hdone : ∀ d ∈ done, d.WrittenIn maxDepth tokens passed) (rounds : List Lexeme)
    (hrounds : tokens.length ≤ passed.length + rounds.length) :
    Blaming maxDepth tokens source passed
      (statements (typeTerm maxDepth maxDepth) earlier done rounds) fun ls ds =>
        ∀ d ∈ ds, d.WrittenIn maxDepth tokens (passed ++ ls) := by
  induction rounds generalizing passed earlier done with
  | nil => exact blaming_of_length_le hrounds
  | cons _ rounds ih =>
    refine .first (blaming_skipPuncts _) fun skipped _ _ => ?_
    replace hearlier := hearlier.append skipped
    replace hdone : ∀ d ∈ done, d.WrittenIn maxDepth tokens (passed ++ skipped) := fun d hd =>
      (hdone d hd).append skipped
    replace hrounds : tokens.length ≤ (passed ++ skipped).length + (rounds.length + 1) := by
      simp only [List.length_append, List.length_cons] at hrounds ⊢
      omega
    simp only [← List.append_assoc]
    generalize passed ++ skipped = passed at hearlier hdone hrounds ⊢
    refine .looked fun c hc => .ite (fun hend => ?_) fun hend => ?_
    · replace hend : c.peek.isEnd = true := hend
      have hparts (second : Option Lexeme) :
          Form.statements.parts? maxDepth c.peek second = some [] := by
        rw [parts?, if_pos hend]
      refine .through (.parts hc.peek hparts) (.pure fun d hd => ?_)
      exact (hdone d (List.mem_reverse.1 hd)).append []
    replace hend : ¬ c.peek.isEnd = true := hend
    have hparts (second : Option Lexeme) : Form.statements.parts? maxDepth c.peek second =
        some ([.optional (.word "export"), .statement] ++ source) := by
      rw [parts?, if_neg hend]
      rfl
    have hapart : Leads maxDepth tokens ⟨[.statements], passed⟩
        ⟨[.optional (.word "export"), .statement] ++ source, passed⟩ := .parts hc.peek hparts
    refine .through hapart (.bind (blaming_statement hearlier) ?_)
    rintro ls r ⟨hne, hr⟩
    simp only [← List.append_assoc]
    have hlength := List.length_pos_iff.2 hne
    replace hrounds : tokens.length ≤ (passed ++ ls).length + rounds.length := by
      rw [List.length_append]
      omega
    replace hdone : ∀ d ∈ done, d.WrittenIn maxDepth tokens (passed ++ ls) := fun d hd =>
      (hdone d hd).append ls
    replace hearlier := hearlier.append ls
    cases r with
    | none => exact ih hearlier hdone hrounds
    | some d =>
      refine ih ?_ (List.forall_mem_cons.2 ⟨hr d rfl, hdone⟩) hrounds
      intro first hfirst
      cases d with
      | type | constant => exact hearlier first hfirst
      | root name body span =>
        cases hfirst
        exact ⟨span, (hr _ rfl).1⟩

theorem wants_source : Wants maxDepth tokens source [] := ⟨[], .refl⟩

theorem blaming_source {c : Cursor} (hc : c.Behind tokens []) :
    Blaming maxDepth tokens source []
      (statements (typeTerm maxDepth maxDepth) none [] (c.last :: c.ahead)) fun ls ds =>
        ∀ d ∈ ds, d.WrittenIn maxDepth tokens ls :=
  blaming_statements (by rintro _ ⟨⟩) (by simp) _ (rounds_le hc)

theorem ofTokens_eq (maxDepth : Nat) {c : Cursor} (hc : Cursor.ofTokens tokens = c) :
    ofTokens maxDepth tokens = (statements (typeTerm maxDepth maxDepth) none []
      (c.last :: c.ahead) c).map Prod.fst := by
  rw [← hc]
  rfl

/-- Tokens that declare something are made of statements, and what they declare stands in them. -/
theorem writtenIn_of_ofTokens {ds : List Declaration}
    (hbehind : (Cursor.ofTokens tokens).Behind tokens [])
    (h : ofTokens maxDepth tokens = .ok ds) :
    (∃ ls, Leads maxDepth tokens ⟨source, []⟩ ⟨[], ls⟩) ∧
      ∀ d ∈ ds, d.WrittenIn maxDepth tokens tokens := by
  generalize hc : Cursor.ofTokens tokens = c at hbehind
  rw [ofTokens_eq maxDepth hc] at h
  cases hrun : statements (typeTerm maxDepth maxDepth) none [] (c.last :: c.ahead) c with
  | error e =>
    rw [hrun] at h
    cases h
  | ok r =>
    rw [hrun] at h
    cases h
    obtain ⟨ls, hd, hls, hwritten⟩ :=
      (blaming_source hbehind).ok c r.1 r.2 wants_source hbehind hrun
    refine ⟨⟨_, hls⟩, fun d hd' => ?_⟩
    obtain ⟨after, hafter⟩ := hd.begins
    exact hafter ▸ (hwritten d hd').append after

/-- Tokens that cannot be read on declare nothing. -/
theorem ofTokens_ne_ok_of_stuck (hbehind : (Cursor.ofTokens tokens).Behind tokens [])
    (h : Stuck maxDepth tokens f passed l) (ds : List Declaration) :
    ofTokens maxDepth tokens ≠ .ok ds := fun hds =>
  (writtenIn_of_ofTokens hbehind hds).1.elim fun _ hls => h.not_leads hls

end Declaration

end TypedConfig
