import TypedConfig.Proofs.Written.Quoted
import TypedConfig.ValuePath

/-! # Paths tell positions apart

What the steps into a value add to a path is read back step by step: a name ends where no character
goes on with it, and what stands in brackets begins with a quote, a digit or a star and ends at the
bracket that closes it. So two lists of steps from one place have one path only if they are the
same.
-/

namespace TypedConfig

def Segment.name? : Segment → Option String
  | .key name => if isName name.toList then some name else none
  | _ => none

theorem Segment.name?_eq_some_iff {s : Segment} {name : String} :
    s.name? = some name ↔ s = .key name ∧ isName name.toList = true := by
  cases s with
  | key key =>
    rw [name?, Option.ite_none_right_eq_some]
    constructor
    · rintro ⟨h, ⟨⟩⟩
      exact ⟨rfl, h⟩
    · rintro ⟨⟨⟩, h⟩
      exact ⟨h, rfl⟩
  | index | anyIndex => simp [name?]

namespace ValuePath

open Lexer (Stops run_append exists_cons_of_isName isNameContinue_of_isName exists_cons_toDigits)

variable {xs ys : List Char} {s t : Segment}

/-- What stands between the brackets of a step that is not written as a name. -/
def content : Segment → List Char
  | .key name => Text.quotedChars name.toList
  | .index i => Nat.toDigits 10 i
  | .anyIndex => ['*']

/-- What a step adds to a path. A name follows a point unless it begins the path. -/
def suffix (first : Bool) (s : Segment) : List Char :=
  match s.name? with
  | some name => (if first then [] else ['.']) ++ name.toList
  | none => '[' :: (content s ++ [']'])

/-- What several steps add to a path. Only the first of them may begin the path. -/
def suffixes : Bool → List Segment → List Char
  | _, [] => []
  | first, s :: ss => suffix first s ++ suffixes false ss

theorem toList_append (parent : String) (s : Segment) :
    (append parent s).toList = parent.toList ++ suffix parent.isEmpty s := by
  cases s with
  | key name =>
    simp only [append, suffix, Segment.name?]
    by_cases hname : isName name.toList = true
    · simp only [hname, if_true]
      by_cases hparent : parent.isEmpty = true
      · rw [if_pos hparent, if_pos hparent, String.isEmpty_iff.1 hparent]
        rfl
      · rw [if_neg hparent, if_neg hparent]
        simp
    · simp [hname, content, Text.quoted]
  | index i => simp [append, suffix, Segment.name?, content]
  | anyIndex => simp [append, suffix, Segment.name?, content]

theorem suffix_ne_nil (first : Bool) (s : Segment) : suffix first s ≠ [] := by
  unfold suffix
  split
  · rename_i name hname
    obtain ⟨-, hname⟩ := Segment.name?_eq_some_iff.1 hname
    obtain ⟨c, cs, hcs, -⟩ := exists_cons_of_isName hname
    rw [hcs]
    exact List.append_ne_nil_of_right_ne_nil _ (List.cons_ne_nil c cs)
  · exact List.cons_ne_nil _ _

theorem isEmpty_append (parent : String) (s : Segment) : (append parent s).isEmpty = false := by
  rw [Bool.eq_false_iff]
  intro hempty
  have htext := toList_append parent s
  rw [String.isEmpty_iff.1 hempty] at htext
  exact suffix_ne_nil _ s (List.append_eq_nil_iff.1 htext.symm).2

theorem toList_appendAll (parent : String) (ss : List Segment) :
    (appendAll parent ss).toList = parent.toList ++ suffixes parent.isEmpty ss := by
  induction ss generalizing parent with
  | nil => exact (List.append_nil _).symm
  | cons s ss ih =>
    show (appendAll (append parent s) ss).toList = _
    rw [ih, isEmpty_append, toList_append, List.append_assoc]
    rfl

/-- Runs of characters of a class end at the first character that is not of it. -/
theorem run_cancel {ok : Char → Bool} {as bs : List Char} (has : ∀ c ∈ as, ok c = true)
    (hbs : ∀ c ∈ bs, ok c = true) (hxs : Stops ok xs) (hys : Stops ok ys)
    (h : as ++ xs = bs ++ ys) : as = bs ∧ xs = ys := by
  have hleft := run_append has hxs 0
  rw [h, run_append hbs hys 0] at hleft
  simp only [Prod.mk.injEq, Position.mk.injEq] at hleft
  exact ⟨hleft.1.symm, hleft.2.1.symm⟩

theorem name_cancel {a b : String} (ha : isName a.toList = true) (hb : isName b.toList = true)
    (hxs : Stops isNameContinue xs) (hys : Stops isNameContinue ys)
    (h : a.toList ++ xs = b.toList ++ ys) : a = b ∧ xs = ys := by
  obtain ⟨htext, hrest⟩ := run_cancel (isNameContinue_of_isName ha)
    (isNameContinue_of_isName hb) hxs hys h
  exact ⟨String.toList_injective htext, hrest⟩

theorem digits_cancel {i j : Nat} (hxs : Stops Char.isDigit xs) (hys : Stops Char.isDigit ys)
    (h : Nat.toDigits 10 i ++ xs = Nat.toDigits 10 j ++ ys) : i = j ∧ xs = ys := by
  have hdigits (n : Nat) : ∀ c ∈ Nat.toDigits 10 n, c.isDigit = true := fun c hc =>
    Nat.isDigit_of_mem_toDigits (by decide) (by decide) hc
  obtain ⟨hij, hrest⟩ := run_cancel (hdigits i) (hdigits j) hxs hys h
  have hvalue := congrArg (Nat.ofDigitChars 10 · 0) hij
  simp only [Nat.ofDigitChars_ten_toDigits] at hvalue
  exact ⟨hvalue, hrest⟩

/-- A quoted text tells where it ends and what it stands for, as the lexer reads it back. -/
theorem quoted_cancel {as bs : List Char}
    (h : Text.quotedChars as ++ xs = Text.quotedChars bs ++ ys) : as = bs ∧ xs = ys := by
  have hread (cs zs : List Char) : ∃ offset, Lexer.string '"' 0 [] ⟨cs.flatMap Text.quotedChar ++
      '"' :: zs, 0⟩ = .ok (String.ofList cs, ⟨zs, offset⟩) :=
    Lexer.string_flatten (by decide) (Lexer.forall₂_map Lexer.readsQuoted_text cs) zs 0 [] 0
  have hopened (cs zs : List Char) : Text.quotedChars cs ++ zs =
      '"' :: (cs.flatMap Text.quotedChar ++ '"' :: zs) := by
    simp [Text.quotedChars]
  rw [hopened, hopened, List.cons.injEq] at h
  obtain ⟨p, hleft⟩ := hread as xs
  obtain ⟨q, hright⟩ := hread bs ys
  rw [h.2, hright] at hleft
  simp only [Except.ok.injEq, Prod.mk.injEq, Position.mk.injEq, String.ofList_inj] at hleft
  exact ⟨hleft.1.symm, hleft.2.1.symm⟩

/-- What stands between brackets begins with a character that tells its kind. -/
theorem content_cancel (h : content s ++ ']' :: xs = content t ++ ']' :: ys) :
    s = t ∧ xs = ys := by
  have hstops (zs : List Char) : Stops Char.isDigit (']' :: zs) := by
    rintro _ ⟨⟩
    rfl
  have hindex {i : Nat} {c : Char} {cs zs : List Char} (hc : c.isDigit = false) :
      Nat.toDigits 10 i ++ zs ≠ c :: cs := by
    obtain ⟨d, ds, hds, hd⟩ := exists_cons_toDigits i
    rw [hds]
    rintro ⟨⟩
    exact Bool.false_ne_true (hc.symm.trans (hd c List.mem_cons_self))
  cases s with
  | key a =>
    cases t with
    | key b =>
      obtain ⟨hkey, hrest⟩ := quoted_cancel h
      exact ⟨congrArg _ (String.toList_injective hkey), List.tail_eq_of_cons_eq hrest⟩
    | index j => exact absurd h.symm (hindex (by decide))
    | anyIndex => cases h
  | index i =>
    cases t with
    | key b => exact absurd h (hindex (by decide))
    | index j =>
      obtain ⟨hij, hrest⟩ := digits_cancel (hstops xs) (hstops ys) h
      exact ⟨congrArg _ hij, List.tail_eq_of_cons_eq hrest⟩
    | anyIndex => exact absurd h (hindex (by decide))
  | anyIndex =>
    cases t with
    | key b => cases h
    | index j => exact absurd h.symm (hindex (by decide))
    | anyIndex =>
      cases h
      exact ⟨rfl, rfl⟩

/-- A step, and where it ends, is told by what it adds to a path and what follows. -/
theorem suffix_cancel {first : Bool} (hxs : Stops isNameContinue xs)
    (hys : Stops isNameContinue ys) (h : suffix first s ++ xs = suffix first t ++ ys) :
    s = t ∧ xs = ys := by
  have hbracket {name : String} {zs ws : List Char} (hname : isName name.toList = true) :
      (if first then [] else ['.']) ++ name.toList ++ zs ≠ '[' :: ws := by
    obtain ⟨c, cs, hcs, hc, -⟩ := exists_cons_of_isName hname
    rw [hcs]
    cases first with
    | true =>
      rintro ⟨⟩
      exact absurd hc (by decide)
    | false => rintro ⟨⟩
  unfold suffix at h
  cases hs : s.name? with
  | some a =>
    obtain ⟨rfl, ha⟩ := Segment.name?_eq_some_iff.1 hs
    rw [hs] at h
    cases ht : t.name? with
    | some b =>
      obtain ⟨rfl, hb⟩ := Segment.name?_eq_some_iff.1 ht
      rw [ht, List.append_assoc, List.append_assoc] at h
      obtain ⟨rfl, hrest⟩ := name_cancel ha hb hxs hys (List.append_cancel_left h)
      exact ⟨rfl, hrest⟩
    | none =>
      rw [ht] at h
      exact absurd h (hbracket ha)
  | none =>
    rw [hs] at h
    cases ht : t.name? with
    | some b =>
      rw [ht] at h
      exact absurd h.symm (hbracket (Segment.name?_eq_some_iff.1 ht).2)
    | none =>
      rw [ht] at h
      refine content_cancel ?_
      simpa using h

/-- No step but the first goes on with a name. -/
theorem stops_suffixes (ss : List Segment) : Stops isNameContinue (suffixes false ss) := by
  cases ss with
  | nil => exact nofun
  | cons s ss =>
    rw [suffixes, suffix]
    cases s.name? with
    | some name =>
      rintro _ ⟨⟩
      rfl
    | none =>
      rintro _ ⟨⟩
      rfl

theorem suffixes_injective {first : Bool} {ss ts : List Segment}
    (h : suffixes first ss = suffixes first ts) : ss = ts := by
  induction ss generalizing first ts with
  | nil =>
    cases ts with
    | nil => rfl
    | cons t ts => exact absurd (List.append_eq_nil_iff.1 h.symm).1 (suffix_ne_nil first t)
  | cons s ss ih =>
    cases ts with
    | nil => exact absurd (List.append_eq_nil_iff.1 h).1 (suffix_ne_nil first s)
    | cons t ts =>
      obtain ⟨rfl, hrest⟩ := suffix_cancel (stops_suffixes ss) (stops_suffixes ts) h
      rw [ih hrest]

/-- Different steps from one place, which may be the empty path, lead to different paths. -/
theorem appendAll_inj (start : String) (ss ts : List Segment) :
    appendAll start ss = appendAll start ts ↔ ss = ts := by
  refine ⟨fun h => ?_, congrArg _⟩
  have htext := congrArg String.toList h
  rw [toList_appendAll, toList_appendAll] at htext
  exact suffixes_injective (List.append_cancel_left htext)

/-- A key that imitates two steps is quoted, and its own quotes are escaped. -/
example : appendAll "steps" [.key "a\"][0"] = "steps[\"a\\\"][0\"]" := by decide +kernel

end ValuePath

end TypedConfig
