import TypedConfig.Proofs.Yaml.Texts

/-! # Numbers read back

The text of a finite number has the form of a number in the core schema: a sign, digits, maybe a
point and more digits, and maybe an exponent.
-/

namespace TypedConfig

namespace Number

variable {ds : List Char}

def IsDigits (ds : List Char) : Prop := ∀ c ∈ ds, c.isDigit = true

namespace IsDigits

theorem append {es : List Char} (hd : IsDigits ds) (he : IsDigits es) : IsDigits (ds ++ es) :=
  List.forall_mem_append.2 ⟨hd, he⟩

theorem mono {es : List Char} (hd : IsDigits ds) (h : es ⊆ ds) : IsDigits es :=
  fun c hc => hd c (h hc)

theorem zeros (n : Nat) : IsDigits (List.replicate n '0') :=
  fun c hc => by rw [List.eq_of_mem_replicate hc]; rfl

theorem toDigits (n : Nat) : IsDigits (Nat.toDigits 10 n) :=
  fun _ hc => Nat.isDigit_of_mem_toDigits (by decide) (by decide) hc

end IsDigits

def IsFraction (cs : List Char) : Prop := cs = [] ∨ ∃ ds, cs = '.' :: ds ∧ IsDigits ds

/-- Nothing, or the mark of an exponent, maybe a sign, and digits. -/
def IsExponent (cs : List Char) : Prop :=
  cs = [] ∨ ∃ sign ds, cs = 'e' :: (sign ++ ds) ∧ (sign = [] ∨ sign = ['-']) ∧ ds ≠ [] ∧
    IsDigits ds

/-- Maybe a sign, digits, maybe a fraction, and maybe an exponent. -/
inductive IsNumeral : List Char → Prop
  | intro {sign whole fraction exponent : List Char} (hs : sign = [] ∨ sign = ['-'])
    (hw : whole ≠ []) (hd : IsDigits whole) (hf : IsFraction fraction)
    (he : IsExponent exponent) : IsNumeral (sign ++ (whole ++ (fraction ++ exponent)))

theorem isDigits_shortest (b : Binary) : IsDigits (shortest b).digits := by
  have hdrop (n : Nat) : IsDigits (dropZeros (Nat.toDigits 10 n)) := by
    intro c hc
    have hm := (List.dropWhile_suffix _).subset (List.mem_reverse.1 hc)
    exact IsDigits.toDigits n c (List.mem_reverse.1 hm)
  unfold shortest
  split
  · exact nofun
  · split
    · exact hdrop _
    · exact nofun

theorem isNumeral_nat (n : Nat) : IsNumeral (toString n).toList := by
  have h := IsNumeral.intro (.inl rfl) Nat.toDigits_ne_nil (.toDigits n) (.inl rfl) (.inl rfl)
  simpa [Nat.toList_repr] using h

theorem isNumeral_int (n : Int) : IsNumeral (toString n).toList := by
  cases n with
  | ofNat n => exact isNumeral_nat n
  | negSucc n =>
    have h := IsNumeral.intro (.inr rfl) Nat.toDigits_ne_nil (.toDigits n.succ) (.inl rfl)
      (.inl rfl)
    show IsNumeral ("-" ++ toString n.succ).toList
    simpa [Nat.toList_repr] using h

namespace Style

theorem writePositional_scientific {d : Decimal} (hd : IsDigits d.digits) :
    ∃ whole fraction, scientific.writePositional d = whole ++ fraction ∧ whole ≠ [] ∧
      IsDigits whole ∧ IsFraction fraction := by
  have hzero : IsDigits ['0'] := .zeros 1
  unfold writePositional
  split
  · split
    · exact ⟨['0'], ['.', '0'], rfl, by simp, hzero, .inr ⟨['0'], rfl, hzero⟩⟩
    · exact ⟨['0'], '.' :: (List.replicate d.point.natAbs '0' ++ d.digits), rfl, by simp, hzero,
        .inr ⟨_, rfl, (IsDigits.zeros _).append hd⟩⟩
  · rename_i hp
    have hwhole : IsDigits (d.digits.take d.point.toNat ++
        List.replicate (d.point.toNat - d.digits.length) '0') :=
      (hd.mono (List.take_subset _ _)).append (.zeros _)
    have hne : d.digits.take d.point.toNat ++
        List.replicate (d.point.toNat - d.digits.length) '0' ≠ [] := by
      intro h
      have hl := congrArg List.length h
      simp only [List.length_append, List.length_take, List.length_replicate, List.length_nil] at hl
      omega
    dsimp only
    split
    · exact ⟨_, ['.', '0'], rfl, hne, hwhole, .inr ⟨['0'], rfl, hzero⟩⟩
    · exact ⟨_, '.' :: d.digits.drop d.point.toNat, rfl, hne, hwhole,
        .inr ⟨_, rfl, hd.mono (List.drop_subset _ _)⟩⟩

theorem writeExponent_scientific {d : Decimal} (hd : IsDigits d.digits) :
    ∃ whole fraction exponent, scientific.writeExponent d = whole ++ (fraction ++ exponent) ∧
      whole ≠ [] ∧ IsDigits whole ∧ IsFraction fraction ∧ IsExponent exponent := by
  have hexponent (sign : List Char) (hs : sign = [] ∨ sign = ['-']) :
      IsExponent ('e' :: (sign ++ Nat.toDigits 10 (d.point - 1).natAbs)) :=
    .inr ⟨sign, _, rfl, hs, Nat.toDigits_ne_nil, .toDigits _⟩
  have hsign : (if d.point - 1 < 0 then ['-'] else if scientific.signsExponent then ['+'] else []) =
      [] ∨ (if d.point - 1 < 0 then ['-'] else if scientific.signsExponent then ['+'] else []) =
        ['-'] := by
    split
    · exact .inr rfl
    · exact .inl rfl
  unfold writeExponent
  cases h : d.digits with
  | nil => exact ⟨['0'], [], _, rfl, by simp, .zeros 1, .inl rfl, hexponent _ hsign⟩
  | cons c cs =>
    rw [h] at hd
    have hc : IsDigits [c] := hd.mono (by simp)
    cases cs with
    | nil => exact ⟨[c], [], _, rfl, by simp, hc, .inl rfl, hexponent _ hsign⟩
    | cons c' cs =>
      exact ⟨[c], '.' :: c' :: cs, _, rfl, by simp, hc, .inr ⟨_, rfl, hd.mono (by simp)⟩,
        hexponent _ hsign⟩

theorem isNumeral_write (b : Binary) : IsNumeral (scientific.write b).toList := by
  have hd := isDigits_shortest b
  have hsign : (if b.negative then ['-'] else []) = ([] : List Char) ∨
      (if b.negative then ['-'] else []) = ['-'] := by
    split
    · exact .inr rfl
    · exact .inl rfl
  unfold write
  rw [String.toList_ofList]
  by_cases hp : scientific.positional (shortest b).point = true
  · obtain ⟨whole, fraction, he, hw, hwd, hf⟩ := writePositional_scientific hd
    rw [if_pos hp, he]
    simpa using IsNumeral.intro hsign hw hwd hf (.inl rfl)
  · obtain ⟨whole, fraction, exponent, he, hw, hwd, hf, hx⟩ := writeExponent_scientific hd
    rw [if_neg hp, he]
    exact .intro hsign hw hwd hf hx

end Style

/-- The text of a number is a numeral. -/
theorem isNumeral_text {x : Float} {t : String} (h : text? x = some t) : IsNumeral t.toList := by
  unfold text? at h
  split at h
  · cases h
  · split at h
    · cases h
      exact isNumeral_int _
    · cases h
      exact Style.isNumeral_write _

namespace IsNumeral

variable {cs : List Char}

/-- The characters of a numeral. -/
theorem mem (h : IsNumeral cs) {c : Char} (hc : c ∈ cs) :
    c.isDigit = true ∨ c = '-' ∨ c = '.' ∨ c = 'e' := by
  obtain ⟨hs, -, hd, hf, he⟩ := h
  simp only [List.mem_append] at hc
  rcases hc with hc | hc | hc | hc
  · rcases hs with rfl | rfl <;> simp_all
  · exact .inl (hd c hc)
  · obtain rfl | ⟨ds, rfl, hds⟩ := hf
    · cases hc
    · rcases List.mem_cons.1 hc with rfl | hc
      · simp
      · exact .inl (hds c hc)
  · obtain rfl | ⟨sign, ds, rfl, hs, -, hds⟩ := he
    · cases hc
    · simp only [List.mem_cons, List.mem_append] at hc
      rcases hc with rfl | hc | hc
      · simp
      · rcases hs with rfl | rfl <;> simp_all
      · exact .inl (hds c hc)

theorem not_mem (h : IsNumeral cs) {c : Char} (hc : c.isDigit = false)
    (hm : c ∉ ['-', '.', 'e']) : c ∉ cs := by
  intro hcs
  rcases h.mem hcs with hd | rfl | rfl | rfl
  · rw [hc] at hd
    cases hd
  · simp at hm
  · simp at hm
  · simp at hm

/-- A numeral begins with a digit, or with a sign and a digit. -/
theorem head (h : IsNumeral cs) :
    ∃ d r, d.isDigit = true ∧ (cs = d :: r ∨ cs = '-' :: d :: r) := by
  cases h with
  | @intro sign whole fraction exponent hs hw hd _ _ =>
    cases whole with
    | nil => exact absurd rfl hw
    | cons d r =>
      refine ⟨d, r ++ (fraction ++ exponent), hd d List.mem_cons_self, ?_⟩
      rcases hs with rfl | rfl
      · exact .inl rfl
      · exact .inr rfl

end IsNumeral

end Number

namespace Yaml

open Number (IsNumeral IsDigits)

variable {numberOf : String → Float} {cs : List Char}

theorem unsigned_of_digit {sign r : List Char} {d : Char} (hs : sign = [] ∨ sign = ['-'])
    (hd : d.isDigit = true) : unsigned (sign ++ d :: r) = d :: r := by
  have hp := ne_of_isDigit hd (d := '+') rfl
  have hm := ne_of_isDigit hd (d := '-') rfl
  rcases hs with rfl | rfl
  · rw [List.nil_append, unsigned]
    · rintro _ ⟨⟩
      exact hp rfl
    · rintro _ ⟨⟩
      exact hm rfl
  · rfl

theorem isDecimal_of_digits {sign ds : List Char} (hs : sign = [] ∨ sign = ['-']) (hne : ds ≠ [])
    (hd : IsDigits ds) : isDecimal (sign ++ ds) = true := by
  have hall : ds.all Char.isDigit = true := List.all_eq_true.2 hd
  obtain ⟨d, r, rfl⟩ := List.exists_cons_of_ne_nil hne
  rw [isDecimal, unsigned_of_digit hs (hd d List.mem_cons_self)]
  simpa using hall

theorem isMantissa_of_digits {whole fraction : List Char} (hw : whole ≠ []) (hd : IsDigits whole)
    (hf : Number.IsFraction fraction) : isMantissa (whole ++ fraction) = true := by
  obtain ⟨d, r, rfl⟩ := List.exists_cons_of_ne_nil hw
  unfold isMantissa
  rw [List.dropWhile_append_of_pos hd]
  obtain rfl | ⟨ds, rfl, hds⟩ := hf
  · rfl
  · have hall : ds.all Char.isDigit = true := List.all_eq_true.2 hds
    rw [List.dropWhile_cons_of_neg (by decide)]
    simp [hall, hd d List.mem_cons_self]

theorem isNotExponent_of_isDigit {c : Char} (h : c.isDigit = true) : isNotExponent c = true := by
  have he := ne_of_isDigit h (d := 'e') rfl
  have hE := ne_of_isDigit h (d := 'E') rfl
  simp [isNotExponent, he, hE]

theorem isFloating_of_isNumeral (h : IsNumeral cs) : isFloating cs = true := by
  cases h with
  | @intro sign whole fraction exponent hs hw hd hf he =>
    have hmantissa : ∀ c ∈ whole ++ fraction, isNotExponent c = true := by
      intro c hc
      rcases List.mem_append.1 hc with hc | hc
      · exact isNotExponent_of_isDigit (hd c hc)
      · obtain rfl | ⟨ds, rfl, hds⟩ := hf
        · cases hc
        · rcases List.mem_cons.1 hc with rfl | hc
          · rfl
          · exact isNotExponent_of_isDigit (hds c hc)
    have hunsigned : unsigned (sign ++ (whole ++ (fraction ++ exponent))) =
        (whole ++ fraction) ++ exponent := by
      obtain ⟨d, r, rfl⟩ := List.exists_cons_of_ne_nil hw
      rw [List.cons_append, unsigned_of_digit hs (hd d List.mem_cons_self), List.append_assoc,
        List.cons_append]
    unfold isFloating
    rw [hunsigned, List.takeWhile_append_of_pos hmantissa, List.dropWhile_append_of_pos hmantissa]
    obtain rfl | ⟨minus, ds, rfl, hm, hne, hds⟩ := he
    · rw [List.takeWhile_nil, List.append_nil, isMantissa_of_digits hw hd hf]
      rfl
    · rw [List.takeWhile_cons_of_neg (by decide), List.dropWhile_cons_of_neg (by decide),
        List.append_nil, isMantissa_of_digits hw hd hf, isExponent,
        isDecimal_of_digits hm hne hds]
      rfl

theorem head_word : ∀ w ∈ nullWords ++ trueWords ++ falseWords,
    (w.toList.head?.any fun c => c == '-' || c.isDigit) = false := by decide

theorem resolve_of_isNumeral (h : IsNumeral cs) :
    resolve numberOf cs = .number (numberOf (String.ofList cs)) := by
  have hword : String.ofList cs ∉ nullWords ++ trueWords ++ falseWords := by
    intro hw
    have hhead := head_word _ hw
    rw [String.toList_ofList] at hhead
    obtain ⟨d, r, hd, rfl | rfl⟩ := h.head
    · simp [hd] at hhead
    · simp at hhead
  simp only [List.mem_append, not_or] at hword
  simp [resolve, hword, isNumber, isFloating_of_isNumeral h]

theorem beginsPlain_of_isNumeral (h : IsNumeral cs) : beginsPlain cs = true := by
  obtain ⟨d, r, hd, rfl | rfl⟩ := h.head
  · have hspace := ne_of_isDigit hd (d := ' ') rfl
    have hindicator : d ∉ indicators := by
      intro hm
      have hall : indicators.all (fun c => !c.isDigit) = true := rfl
      rw [List.all_eq_true] at hall
      simpa [hd] using hall d hm
    exact beginsPlain_cons hindicator hspace r
  · have hspace := ne_of_isDigit hd (d := ' ') rfl
    simpa [beginsPlain, isGap] using hspace

theorem inlineNode?_numeral (h : IsNumeral cs) :
    inlineNode? numberOf cs = some (.number (numberOf (String.ofList cs))) := by
  rw [inlineNode?_plain (.of_not_mem (h.not_mem rfl (by simp)) (h.not_mem rfl (by simp)))
    (beginsPlain_of_isNumeral h), resolve_of_isNumeral h]

theorem splitKey?_numeral (h : IsNumeral cs) : splitKey? numberOf cs = none :=
  splitKey?_plain (.of_not_mem (h.not_mem rfl (by simp)) (h.not_mem rfl (by simp)))
    (beginsPlain_of_isNumeral h)

end Yaml

end TypedConfig
