import Mathlib.Tactic.SplitIfs
import TypedConfig.Proofs.Yaml.Reader

/-! # Texts read back

A quoted text is read back character by character. A plain text is read back to its end because
it has no colon before a space and no space before a number sign, and as a text because it looks
like nothing else.
-/

namespace TypedConfig.Yaml

variable {numberOf : String → Float} {cs rest : List Char}

/-- Whether a character is written on one line by a code point that reads back as it. -/
def pointReadsBack (c : Char) : Bool :=
  match pointEscape c with
  | ['\\', 'u', d₁, d₂, d₃, d₄] =>
    point? [d₁, d₂, d₃, d₄] == some c && [d₁, d₂, d₃, d₄].all isTextChar
  | _ => false

theorem pointReadsBack_low : ∀ n < 0xa0, pointReadsBack (Char.ofNat n) = true := by decide +kernel

theorem pointReadsBack_high :
    ∀ n ∈ [0x2028, 0x2029, 0xfeff, 0xfffe, 0xffff], pointReadsBack (Char.ofNat n) = true := by
  decide +kernel

theorem pointReadsBack_of_needsEscape {c : Char} (h : needsEscape c = true) :
    pointReadsBack c = true := by
  rw [← Char.ofNat_toNat c]
  by_cases hlow : c.toNat < 0xa0
  · exact pointReadsBack_low _ hlow
  · refine pointReadsBack_high _ ?_
    simp only [needsEscape, Bool.or_eq_true, Bool.and_eq_true, decide_eq_true_eq, beq_iff_eq] at h
    simp only [List.mem_cons, List.not_mem_nil, or_false]
    omega

theorem quotedSpan_pointEscape {c : Char} (h : pointReadsBack c = true) (rest : List Char) :
    quotedSpan (pointEscape c ++ rest) = (quotedSpan rest).map fun p => (c :: p.1, p.2) := by
  unfold pointReadsBack at h
  split at h
  · rename_i d₁ d₂ d₃ d₄ he
    rw [he, List.cons_append, List.cons_append, List.cons_append, List.cons_append,
      List.cons_append, List.cons_append, List.nil_append, quotedSpan,
      beq_iff_eq.1 (Bool.and_eq_true_iff.1 h).1]
    cases quotedSpan rest <;> rfl
  · cases h

/-- A written character is read back. -/
theorem quotedSpan_quotedChar (c : Char) (rest : List Char) :
    quotedSpan (quotedChar c ++ rest) = (quotedSpan rest).map fun p => (c :: p.1, p.2) := by
  have hshort (d : Char) (hd : d ≠ 'u') (he : escape? d = some c) :
      quotedSpan ('\\' :: d :: rest) = (quotedSpan rest).map fun p => (c :: p.1, p.2) := by
    rw [quotedSpan, he]
    · cases quotedSpan rest <;> rfl
    · exact fun _ _ _ _ _ hu => absurd hu hd
  unfold quotedChar
  split_ifs with hq hb hn ht hr hz hp
  · exact hshort '"' (by decide) (by rw [hq]; rfl)
  · exact hshort '\\' (by decide) (by rw [hb]; rfl)
  · exact hshort 'n' (by decide) (by rw [hn]; rfl)
  · exact hshort 't' (by decide) (by rw [ht]; rfl)
  · exact hshort 'r' (by decide) (by rw [hr]; rfl)
  · exact hshort '0' (by decide) (by rw [hz]; rfl)
  · exact quotedSpan_pointEscape (pointReadsBack_of_needsEscape hp) rest
  · rw [List.singleton_append, quotedSpan]
    · cases quotedSpan rest <;> rfl
    · exact hq
    · exact fun _ _ _ _ _ h => absurd h hb
    · exact fun _ _ h => absurd h hb

/-- A quoted text is read back up to the quote that closes it. -/
theorem quotedSpan_flatMap (cs rest : List Char) :
    quotedSpan (cs.flatMap quotedChar ++ '"' :: rest) = some (cs, rest) := by
  induction cs with
  | nil => rw [List.flatMap_nil, List.nil_append, quotedSpan]
  | cons c cs ih =>
    rw [List.flatMap_cons, List.append_assoc, quotedSpan_quotedChar, ih]
    rfl

theorem isTextChar_of_needsEscape {c : Char} (h : needsEscape c = false) : isTextChar c = true := by
  have hvalid : c.toNat < 0xd800 ∨ 0xdfff < c.toNat ∧ c.toNat < 0x110000 := c.valid
  simp only [needsEscape, Bool.or_eq_false_iff, decide_eq_false_iff_not, beq_eq_false_iff_ne,
    Bool.and_eq_false_iff] at h
  simp only [isTextChar, Bool.and_eq_true, Bool.or_eq_true, decide_eq_true_eq, Bool.not_eq_true',
    List.contains_eq_mem, decide_eq_false_iff_not, List.mem_cons, List.not_mem_nil, or_false]
  omega

theorem isTextChar_of_mem_quotedChar {c d : Char} (hd : d ∈ quotedChar c) :
    isTextChar d = true := by
  revert d
  rw [← List.all_eq_true]
  unfold quotedChar
  split_ifs with hq hb hn ht hr hz hp
  · rfl
  · rfl
  · rfl
  · rfl
  · rfl
  · rfl
  · have h := pointReadsBack_of_needsEscape hp
    unfold pointReadsBack at h
    split at h
    · rename_i he
      rw [he]
      exact (Bool.and_eq_true_iff.1 h).2
    · cases h
  · rw [List.all_cons, isTextChar_of_needsEscape (by simpa using hp)]
    rfl

theorem trimEnd_eq (h : cs.getLast? ≠ some ' ') : trimEnd cs = cs := by
  rw [List.getLast?_eq_head?_reverse] at h
  unfold trimEnd
  rw [List.reverse_eq_iff]
  cases hr : cs.reverse with
  | nil => rfl
  | cons c rest =>
    rw [hr] at h
    exact List.dropWhile_cons_of_neg (by simpa using h)

/-- Whether nothing in a text ends it before its last character. -/
structure IsWhole (cs : List Char) : Prop where
  colon : hasPair ':' ' ' cs = false
  comment : hasPair ' ' '#' cs = false
  lastColon : cs.getLast? ≠ some ':'
  lastSpace : cs.getLast? ≠ some ' '

theorem hasPair_eq_false {a b : Char} (h : a ∉ cs) : hasPair a b cs = false := by
  induction cs with
  | nil => rfl
  | cons c cs ih =>
    obtain ⟨hc, hcs⟩ : a ≠ c ∧ a ∉ cs := by simpa using h
    cases cs with
    | nil => rfl
    | cons d cs => simp [hasPair, ih hcs, hc.symm]

namespace IsWhole

theorem of_not_mem (hc : ':' ∉ cs) (hs : ' ' ∉ cs) : IsWhole cs where
  colon := hasPair_eq_false hc
  comment := hasPair_eq_false hs
  lastColon h := hc (List.mem_of_getLast? h)
  lastSpace h := hs (List.mem_of_getLast? h)

theorem tail {c d : Char} (h : IsWhole (c :: d :: cs)) : IsWhole (d :: cs) where
  colon := (Bool.or_eq_false_iff.1 h.colon).2
  comment := (Bool.or_eq_false_iff.1 h.comment).2
  lastColon := List.getLast?_cons_cons (a := c) ▸ h.lastColon
  lastSpace := List.getLast?_cons_cons (a := c) ▸ h.lastSpace

end IsWhole

/-- A whole text is all that is read of a line, up to its end or to a colon. -/
theorem plainSpan_append (h : IsWhole cs)
    (hrest : rest = [] ∨ ∃ after, rest = ':' :: after ∧ isGap after = true) :
    plainSpan (cs ++ rest) = (cs, rest) := by
  induction cs with
  | nil =>
    obtain rfl | ⟨after, rfl, hg⟩ := hrest
    · rfl
    · simp [plainSpan, hg]
  | cons c cs ih =>
    cases cs with
    | nil =>
      have hc : c ≠ ':' := fun hc => h.lastColon (by rw [hc]; rfl)
      have hs : c ≠ ' ' := fun hs => h.lastSpace (by rw [hs]; rfl)
      have hnil := ih (.of_not_mem List.not_mem_nil List.not_mem_nil)
      rw [List.nil_append] at hnil
      simp [plainSpan, hc, hs, hnil]
    | cons d cs =>
      have hcolon := (Bool.or_eq_false_iff.1 h.colon).1
      have hcomment := (Bool.or_eq_false_iff.1 h.comment).1
      have htail := ih h.tail
      rw [List.cons_append] at htail
      rw [List.cons_append, List.cons_append, plainSpan, htail]
      simp only [isGap, List.head?_cons, Option.some_beq_some, hcolon, hcomment, Bool.or_false,
        Bool.false_eq_true, if_false]

theorem plainSpan_eq (h : IsWhole cs) : plainSpan cs = (cs, []) := by
  simpa using plainSpan_append h (.inl rfl)

/-- A text that is whole and begins as a plain text is a node on one line. -/
theorem inlineNode?_plain (h : IsWhole cs) (hb : beginsPlain cs = true) :
    inlineNode? numberOf cs = some (resolve numberOf cs) := by
  unfold inlineNode?
  split
  · cases hb
  · cases hb
  · cases hb
  · simp [plainSpan_eq h, hb, trimEnd_eq h.lastSpace, isEnd]

/-- A text that is whole is no key without a colon. -/
theorem splitKey?_plain (h : IsWhole cs) (hb : beginsPlain cs = true) :
    splitKey? numberOf cs = none := by
  unfold splitKey?
  split
  · cases hb
  · simp [plainSpan_eq h, afterColon?]

theorem splitKey?_plain_colon {after : List Char} (h : IsWhole cs)
    (hb : beginsPlain (cs ++ ':' :: after) = true) (hg : isGap after = true) :
    splitKey? numberOf (cs ++ ':' :: after) =
      some (resolve numberOf cs, after.dropWhile (· == ' ')) := by
  unfold splitKey?
  split
  · rename_i he
    rw [he] at hb
    cases hb
  · simp [plainSpan_append h (.inr ⟨after, rfl, hg⟩), hb, afterColon?, hg, trimEnd_eq h.lastSpace]

theorem eq_unsigned (cs : List Char) :
    cs = unsigned cs ∨ cs = '+' :: unsigned cs ∨ cs = '-' :: unsigned cs := by
  unfold unsigned
  split <;> simp

theorem toLower_of_isDigit {c : Char} (h : c.isDigit = true) : c.toLower = c := by
  simp only [Char.isDigit, Bool.and_eq_true, decide_eq_true_eq] at h
  unfold Char.toLower
  rw [dif_neg]
  intro hu
  have := UInt32.le_iff_toNat_le.1 h.2
  have := UInt32.le_iff_toNat_le.1 hu.1
  simp at *
  omega

theorem ne_of_isDigit {c d : Char} (h : c.isDigit = true) (hd : d.isDigit = false) : c ≠ d := by
  rintro rfl
  rw [h] at hd
  cases hd

/-- A digit, or a point and a digit, behind the sign of a text makes it look like a number. -/
theorem readsAsOther_of_digit {d : Char} {r : List Char} (hd : d.isDigit = true)
    (h : unsigned cs = d :: r ∨ unsigned cs = '.' :: d :: r) : readsAsOther cs = true := by
  have hl := toLower_of_isDigit hd
  have hp := ne_of_isDigit hd (d := '+') rfl
  have hm := ne_of_isDigit hd (d := '-') rfl
  have hdot := ne_of_isDigit hd (d := '.') rfl
  have hcs := eq_unsigned cs
  generalize unsigned cs = u at h hcs
  rcases hcs with rfl | rfl | rfl <;> rcases h with rfl | rfl <;>
    simp [readsAsOther, hl, hp, hm, hdot, hd]

theorem readsAsOther_of_isDecimal (h : isDecimal cs = true) : readsAsOther cs = true := by
  simp only [isDecimal, Bool.and_eq_true] at h
  cases hu : unsigned cs with
  | nil => simp [hu] at h
  | cons d ds =>
    rw [hu, List.all_cons, Bool.and_eq_true] at h
    exact readsAsOther_of_digit h.2.1 (.inl hu)

theorem exists_digit_of_isMantissa (h : isMantissa cs = true) :
    ∃ d r, d.isDigit = true ∧ (cs = d :: r ∨ cs = '.' :: d :: r) := by
  cases cs with
  | nil => cases h
  | cons c cs =>
    by_cases hc : c.isDigit = true
    · exact ⟨c, cs, hc, .inl rfl⟩
    · simp only [isMantissa, List.dropWhile_cons_of_neg hc, List.head?_cons, Option.any_some, hc,
        Bool.false_or, Bool.and_eq_true, beq_iff_eq] at h
      cases cs with
      | nil => simp at h
      | cons d r =>
        rw [List.all_cons, Bool.and_eq_true] at h
        exact ⟨d, r, h.1.2.1, .inr (by rw [h.1.1])⟩

theorem readsAsOther_of_isFloating (h : isFloating cs = true) : readsAsOther cs = true := by
  simp only [isFloating, Bool.and_eq_true] at h
  obtain ⟨d, r, hd, hm⟩ := exists_digit_of_isMantissa h.1
  have happend := List.takeWhile_append_dropWhile (p := isNotExponent) (l := unsigned cs)
  refine readsAsOther_of_digit (r := r ++ (unsigned cs).dropWhile isNotExponent) hd ?_
  rcases hm with hm | hm
  · exact .inl (by rw [← List.cons_append, ← hm, happend])
  · exact .inr (by rw [← List.cons_append, ← List.cons_append, ← hm, happend])

theorem readsAsOther_of_infinity :
    ∀ w ∈ infinityWords, readsAsOther w.toList = true ∧ readsAsOther ('+' :: w.toList) = true ∧
      readsAsOther ('-' :: w.toList) = true := by decide

theorem readsAsOther_of_notNumber : ∀ w ∈ notNumberWords, readsAsOther w.toList = true := by
  decide

theorem readsAsOther_of_isNumber (h : isNumber cs = true) : readsAsOther cs = true := by
  simp only [isNumber, Bool.or_eq_true] at h
  rcases h with ((((h | h) | h) | h) | h) | h
  · exact readsAsOther_of_isDecimal h
  · unfold isOctal at h
    split at h
    · exact readsAsOther_of_digit (d := '0') rfl (.inl rfl)
    · cases h
  · unfold isHexadecimal at h
    split at h
    · exact readsAsOther_of_digit (d := '0') rfl (.inl rfl)
    · cases h
  · exact readsAsOther_of_isFloating h
  · obtain ⟨h₁, h₂, h₃⟩ := readsAsOther_of_infinity _ (List.contains_iff_mem.1 h)
    rw [String.toList_ofList] at h₁ h₂ h₃
    rcases eq_unsigned cs with he | he | he <;> rw [he] <;> assumption
  · have hw := readsAsOther_of_notNumber _ (List.contains_iff_mem.1 h)
    rwa [String.toList_ofList] at hw

theorem isPlain_word :
    ∀ w ∈ nullWords ++ trueWords ++ falseWords, isPlain w.toList = false := by decide

/-- A plain text stands for itself. -/
theorem resolve_of_isPlain (h : isPlain cs = true) :
    resolve numberOf cs = .string (String.ofList cs) := by
  have hword : String.ofList cs ∉ nullWords ++ trueWords ++ falseWords := by
    intro hw
    have hplain := isPlain_word _ hw
    rw [String.toList_ofList, h] at hplain
    cases hplain
  have hnumber : isNumber cs = false := by
    rw [← Bool.not_eq_true]
    intro hn
    cases cs with
    | nil => cases h
    | cons c cs => simp [isPlain, readsAsOther_of_isNumber hn] at h
  simp only [List.mem_append, not_or] at hword
  simp [resolve, hword, hnumber]

theorem IsWhole.of_isPlain (h : isPlain cs = true) : IsWhole cs := by
  cases cs with
  | nil => cases h
  | cons c cs =>
    simp only [isPlain, Bool.not_eq_true', Bool.or_eq_false_iff, beq_eq_false_iff_ne] at h
    obtain ⟨⟨⟨⟨⟨⟨-, hblank⟩, hcolon⟩, hpair⟩, hcomment⟩, -⟩, -⟩ := h
    refine ⟨hpair, hcomment, hcolon, fun hs => ?_⟩
    rw [hs] at hblank
    cases hblank

theorem beginsPlain_cons {c : Char} (hc : c ∉ indicators) (hspace : c ≠ ' ') (cs : List Char) :
    beginsPlain (c :: cs) = true := by
  have hne {d : Char} {ds : List Char} (h : c :: cs = d :: ds) : d ∉ ' ' :: indicators := by
    cases h
    exact List.not_mem_cons_of_ne_of_not_mem hspace hc
  unfold beginsPlain
  split
  case h_1 h => cases h
  case h_22 => rfl
  all_goals exact (hne ‹_› (by decide)).elim

theorem head_of_isPlain {c : Char} (h : isPlain (c :: cs) = true) : c ∉ indicators ∧ c ≠ ' ' := by
  simp only [isPlain, Bool.not_eq_true', Bool.or_eq_false_iff] at h
  obtain ⟨⟨⟨⟨⟨⟨⟨hc, hblank⟩, -⟩, -⟩, -⟩, -⟩, -⟩, -⟩ := h
  refine ⟨by simpa using hc, ?_⟩
  rintro rfl
  cases hblank

theorem beginsPlain_append (h : isPlain cs = true) (rest : List Char) :
    beginsPlain (cs ++ rest) = true := by
  cases cs with
  | nil => cases h
  | cons c cs =>
    obtain ⟨hc, hspace⟩ := head_of_isPlain h
    exact beginsPlain_cons hc hspace _

theorem isTextChar_of_isPlain (h : isPlain cs = true) {c : Char} (hc : c ∈ cs) :
    isTextChar c = true := by
  cases cs with
  | nil => cases h
  | cons d cs =>
    simp only [isPlain, Bool.not_eq_true', Bool.or_eq_false_iff] at h
    exact isTextChar_of_needsEscape (by simpa using List.any_eq_false.1 h.1.2 c hc)

/-- A plain text does not begin as a mark of the end of a document. -/
theorem not_points_of_isPlain (h : isPlain cs = true) : ¬ ['.', '.', '.'] <+: cs := by
  intro hp
  cases cs with
  | nil => cases h
  | cons d cs => simp [isPlain, readsAsOther, List.isPrefixOf_iff_prefix.2 hp] at h

theorem inlineText_cases (s : String) :
    isPlain s.toList = true ∧ inlineText s = s.toList ∨
      inlineText s = '"' :: (s.toList.flatMap quotedChar ++ ['"']) := by
  by_cases h : isPlain s.toList = true
  · exact .inl ⟨h, if_pos h⟩
  · exact .inr (if_neg h)

theorem isTextChar_of_mem_inlineText {s : String} {c : Char} (hc : c ∈ inlineText s) :
    isTextChar c = true := by
  obtain ⟨h, hs⟩ | hs := inlineText_cases s
  · exact isTextChar_of_isPlain h (hs ▸ hc)
  · simp only [hs, List.mem_cons, List.mem_append, List.mem_flatMap, List.not_mem_nil,
      or_false] at hc
    obtain rfl | ⟨d, -, hd⟩ | rfl := hc
    · rfl
    · exact isTextChar_of_mem_quotedChar hd
    · rfl

/-- A text on one line has no line break. -/
theorem newline_not_mem_inlineText (s : String) : '\n' ∉ inlineText s :=
  fun h => Bool.false_ne_true (isTextChar_of_mem_inlineText h)

/-- The first character of a text on one line is not one that begins something else. -/
theorem inlineText_head (s : String) :
    ∃ c cs, inlineText s = c :: cs ∧ c ≠ ' ' ∧ c ≠ '|' ∧ c ≠ '-' := by
  obtain ⟨h, hs⟩ | hs := inlineText_cases s
  · cases hcs : s.toList with
    | nil =>
      rw [hcs] at h
      cases h
    | cons c cs =>
      rw [hcs] at h
      obtain ⟨hc, hspace⟩ := head_of_isPlain h
      refine ⟨c, cs, hs.trans hcs, hspace, ?_, ?_⟩
      · rintro rfl
        exact hc (by decide)
      · rintro rfl
        exact hc (by decide)
  · exact ⟨_, _, hs, by decide, by decide, by decide⟩

/-- A line that begins with a text is no marker. -/
theorem isMarker_inlineText (s : String) {rest : List Char}
    (hrest : rest = [] ∨ ∃ after, rest = ':' :: after) :
    isMarker (inlineText s ++ rest) = false := by
  obtain ⟨h, hs⟩ | hs := inlineText_cases s
  · have hpoints := not_points_of_isPlain h
    obtain ⟨c, cs, he, -, -, hdash⟩ := inlineText_head s
    rw [← hs] at hpoints
    unfold isMarker
    split
    · rename_i hl
      rw [he] at hl
      exact absurd (List.cons.inj hl).1 hdash
    · rename_i t hl
      -- Three points that are not all in the text have an end of the line or a colon among them.
      obtain rfl | ⟨after, rfl⟩ := hrest
      · rw [List.append_nil] at hl
        exact absurd ⟨t, hl.symm⟩ hpoints
      · match hi : inlineText s with
        | [] => simp [he] at hi
        | [_] | [_, _] => simp [hi] at hl
        | a :: b :: d :: r =>
          simp only [hi, List.cons_append, List.cons.injEq] at hl
          obtain ⟨rfl, rfl, rfl, -⟩ := hl
          exact absurd ⟨r, hi.symm⟩ hpoints
    · rfl
  · rw [hs]
    rfl

/-- Texts are read back from one line. -/
theorem inlineNode?_inlineText (s : String) :
    inlineNode? numberOf (inlineText s) = some (.string s) := by
  obtain ⟨h, hs⟩ | hs := inlineText_cases s
  · have hb := beginsPlain_append h []
    rw [List.append_nil] at hb
    rw [hs, inlineNode?_plain (.of_isPlain h) hb, resolve_of_isPlain h, String.ofList_toList]
  · rw [hs, inlineNode?, quotedSpan_flatMap]
    show some (Node.string (String.ofList s.toList)) = _
    rw [String.ofList_toList]

theorem splitKey?_inlineText (s : String) : splitKey? numberOf (inlineText s) = none := by
  obtain ⟨h, hs⟩ | hs := inlineText_cases s
  · have hb := beginsPlain_append h []
    rw [List.append_nil] at hb
    rw [hs, splitKey?_plain (.of_isPlain h) hb]
  · simp [hs, splitKey?, quotedSpan_flatMap, afterColon?]

/-- Keys are read back, with what is behind their colon. -/
theorem splitKey?_inlineText_colon (s : String) {after : List Char} (hg : isGap after = true) :
    splitKey? numberOf (inlineText s ++ ':' :: after) =
      some (.string s, after.dropWhile (· == ' ')) := by
  obtain ⟨h, hs⟩ | hs := inlineText_cases s
  · rw [hs, splitKey?_plain_colon (.of_isPlain h) (beginsPlain_append h _) hg,
      resolve_of_isPlain h, String.ofList_toList]
  · simp [hs, splitKey?, quotedSpan_flatMap, afterColon?, hg]

end TypedConfig.Yaml
