import TypedConfig.Proofs.Written.Lexing

/-! # Quoted texts are read back

Between quotes a character stands for itself or is an escape: one letter, or its code point in base
sixteen, in four digits or between braces. However each character is spelled, the text is read back;
a text that is written with quotes around it is one such spelling.
-/

namespace TypedConfig

namespace Number

theorem hexAfter_append (n : Nat) (cs ds : List Char) :
    hexAfter n (cs ++ ds) = (hexAfter n cs).bind fun m => hexAfter m ds := by
  induction cs generalizing n with
  | nil => rfl
  | cons c cs ih =>
    rw [List.cons_append, hexAfter, hexAfter]
    split
    · exact ih _
    · rfl

theorem hexValue?_digitChar : ∀ d < 16, hexValue? (Nat.digitChar d) = some d := by decide

theorem hexAfter_toDigits (n : Nat) : hexAfter 0 (Nat.toDigits 16 n) = some n := by
  induction n using Nat.strongRecOn with
  | ind n ih =>
    rw [Nat.toDigits_eq_if (by decide)]
    split
    · rw [hexAfter, hexValue?_digitChar n ‹_›]
      exact congrArg some (Nat.zero_add n)
    · have hdigit := hexValue?_digitChar (n % 16) (Nat.mod_lt n (by decide))
      rw [hexAfter_append, ih (n / 16) (Nat.div_lt_self (by omega) (by decide)),
        Option.bind_some, hexAfter, hdigit]
      exact congrArg some (Nat.div_add_mod n 16)

theorem hexAfter_replicate_zero (zeros : Nat) (ds : List Char) :
    hexAfter 0 (List.replicate zeros '0' ++ ds) = hexAfter 0 ds := by
  induction zeros with
  | zero => rfl
  | succ n ih => exact ih

theorem hexValue?_of_hexAfter {n m : Nat} {cs : List Char} (h : hexAfter n cs = some m) :
    ∀ c ∈ cs, (hexValue? c).isSome = true := by
  induction cs generalizing n with
  | nil => exact nofun
  | cons c cs ih =>
    rw [hexAfter] at h
    split at h
    · rename_i hc
      exact List.forall_mem_cons.2 ⟨by rw [hc]; rfl, ih h⟩
    · cases h

/-- The case of a digit does not matter. -/
theorem hexValue?_toLower (c : Char) : hexValue? c.toLower = hexValue? c := by
  have hletters : ∀ i < 26, hexValue? (Char.ofNat (65 + i)).toLower =
      hexValue? (Char.ofNat (65 + i)) := by decide
  by_cases hc : 65 ≤ c.toNat ∧ c.toNat ≤ 90
  · have hletter := hletters (c.toNat - 65) (by omega)
    rwa [Nat.add_sub_cancel' hc.1, Char.ofNat_toNat] at hletter
  · have hlower : c.toLower = c := by
      unfold Char.toLower
      rw [dif_neg]
      simp only [ge_iff_le, UInt32.le_iff_toNat_le]
      exact hc
    rw [hlower]

theorem hexAfter_map_toLower (n : Nat) (cs : List Char) :
    hexAfter n (cs.map Char.toLower) = hexAfter n cs := by
  induction cs generalizing n with
  | nil => rfl
  | cons c cs ih =>
    rw [List.map_cons, hexAfter, hexAfter, hexValue?_toLower]
    split
    · exact ih _
    · rfl

/-- Digits of a number in base sixteen, each in either case, with any number of zeros in front. -/
def IsHex (n : Nat) (digits : List Char) : Prop :=
  ∃ zeros, digits.map Char.toLower = List.replicate zeros '0' ++ Nat.toDigits 16 n

namespace IsHex

variable {n : Nat} {digits : List Char}

theorem toDigits (n : Nat) : IsHex n (Nat.toDigits 16 n) := by
  have hlower : ∀ d < 16, (Nat.digitChar d).toLower = Nat.digitChar d := by decide
  refine ⟨0, ?_⟩
  rw [List.replicate_zero, List.nil_append]
  induction n using Nat.strongRecOn with
  | ind n ih =>
    rw [Nat.toDigits_eq_if (by decide)]
    split
    · rw [List.map_singleton, hlower n ‹_›]
    · rw [List.map_append, ih (n / 16) (Nat.div_lt_self (by omega) (by decide)),
        List.map_singleton, hlower _ (Nat.mod_lt n (by decide))]

theorem hexAfter_eq (h : IsHex n digits) : hexAfter 0 digits = some n := by
  obtain ⟨zeros, hdigits⟩ := h
  rw [← hexAfter_map_toLower, hdigits, hexAfter_replicate_zero, hexAfter_toDigits]

theorem ne_nil (h : IsHex n digits) : digits ≠ [] := by
  obtain ⟨zeros, hdigits⟩ := h
  rintro rfl
  exact Nat.toDigits_ne_nil (List.append_eq_nil_iff.1 hdigits.symm).2

theorem isSome_hexValue? (h : IsHex n digits) : ∀ c ∈ digits, (hexValue? c).isSome = true :=
  hexValue?_of_hexAfter h.hexAfter_eq

theorem ofHex?_eq (h : IsHex n digits) : ofHex? digits = some n := by
  obtain ⟨c, cs, rfl⟩ := List.exists_cons_of_ne_nil h.ne_nil
  have hplus : ¬ (c = '+' ∧ cs ≠ []) := by
    rintro ⟨rfl, -⟩
    exact absurd (h.isSome_hexValue? _ List.mem_cons_self) (by decide)
  rw [ofHex?, if_neg hplus, h.hexAfter_eq]

end IsHex

end Number

open Number (IsHex)

inductive SpellsChar (quote : Char) : List Char → Char → Prop
  | raw {c : Char} (hquote : c ≠ quote) (hback : c ≠ '\\') (hline : c ≠ '\n') :
    SpellsChar quote [c] c
  | newline : SpellsChar quote ['\\', 'n'] '\n'
  | tab : SpellsChar quote ['\\', 't'] '\t'
  | carriageReturn : SpellsChar quote ['\\', 'r'] '\r'
  | zero : SpellsChar quote ['\\', '0'] '\x00'
  | backslash : SpellsChar quote ['\\', '\\'] '\\'
  | single : SpellsChar quote ['\\', '\''] '\''
  | double : SpellsChar quote ['\\', '"'] '"'
  | four {digits : List Char} {c : Char} (hlength : digits.length = 4)
    (h : IsHex c.toNat digits) : SpellsChar quote ('\\' :: 'u' :: digits) c
  | braced {digits : List Char} {c : Char} (h : IsHex c.toNat digits) :
    SpellsChar quote ('\\' :: 'u' :: '\x7b' :: (digits ++ ['\x7d'])) c

namespace Lexer

variable {quote c : Char} {digits : List Char}

theorem charOfNat?_toNat (c : Char) : charOfNat? c.toNat = some c :=
  (if_pos c.valid).trans (congrArg some (Char.ofNat_toNat c))

/-- An escape is read as the character that its digits denote. -/
theorem escape_digits {more : List Char} {offset : Nat} {q : Position}
    (hdigits : escapeDigits ⟨more, offset + Text.byteSize ['u']⟩ = (digits, q))
    (h : IsHex c.toNat digits) (start : Nat) :
    escape start ⟨'u' :: more, offset⟩ = .ok (c, q) := by
  have hskip : Position.skip ⟨'u' :: more, offset⟩ 1 = ⟨more, offset + Text.byteSize ['u']⟩ := rfl
  have hvalue : (Number.ofHex? digits).bind charOfNat? = some c := by
    rw [h.ofHex?_eq, Option.bind_some, charOfNat?_toNat]
  unfold escape
  dsimp only
  rw [if_neg (by decide), if_neg (by decide), if_neg (by decide), if_neg (by decide), if_pos rfl,
    hskip, hdigits]
  dsimp only
  rw [hvalue]

theorem escapeDigits_four (hlength : digits.length = 4)
    (hdigit : ∀ d ∈ digits, (Number.hexValue? d).isSome = true) (more : List Char) (offset : Nat) :
    ∃ offset', escapeDigits ⟨digits ++ more, offset⟩ = (digits, ⟨more, offset'⟩) := by
  obtain ⟨d, ds, rfl⟩ := List.exists_cons_of_length_pos (by omega : 0 < digits.length)
  have hbrace : (d :: ds ++ more).head? ≠ some '\x7b' := by
    rintro ⟨⟩
    exact absurd (hdigit _ List.mem_cons_self) (by decide)
  have htake : (d :: ds ++ more).take 4 = d :: ds := hlength ▸ List.take_left
  have hdrop : (d :: ds ++ more).drop 4 = more := hlength ▸ List.drop_left
  refine ⟨offset + Text.byteSize (d :: ds), ?_⟩
  rw [escapeDigits, if_neg hbrace, Position.skip, htake, hdrop]

theorem escapeDigits_braced (hdigit : ∀ d ∈ digits, (Number.hexValue? d).isSome = true)
    (more : List Char) (offset : Nat) :
    ∃ offset', escapeDigits ⟨'\x7b' :: (digits ++ '\x7d' :: more), offset⟩ =
      (digits, ⟨more, offset'⟩) := by
  have hinside : ∀ d ∈ digits, (d != '\x7d') = true := by
    intro d hd
    rw [bne_iff_ne]
    rintro rfl
    exact absurd (hdigit _ hd) (by decide)
  have hstops : Stops (· != '\x7d') ('\x7d' :: more) := by rintro _ ⟨⟩; rfl
  have hrun := run_append hinside hstops (offset + Text.byteSize ['\x7b'])
  exact ⟨_, congrArg (fun r : List Char × Position => (r.1, r.2.skip 1)) hrun⟩

/-- Every spelling of a character is read as the character. -/
theorem readsAs_of_spellsChar (hquote : '\\' ≠ quote) {cs : List Char}
    (h : SpellsChar quote cs c) : ReadsAs quote cs c := by
  intro more start text offset
  have hletter {e d : Char} (he : ∀ start offset, escape start ⟨e :: more, offset⟩ =
      .ok (d, ⟨more, offset + Text.byteSize [e]⟩)) :
      ∃ offset', string quote start text ⟨['\\', e] ++ more, offset⟩ =
        string quote start (d :: text) ⟨more, offset'⟩ :=
    ⟨_, string_escape hquote (e := [e]) (he _ _) start text⟩
  cases h with
  | raw hc hback hline => exact ⟨_, string_plain hc hback hline more start text offset⟩
  | newline => exact hletter fun _ _ => rfl
  | tab => exact hletter fun _ _ => rfl
  | carriageReturn => exact hletter fun _ _ => rfl
  | zero => exact hletter fun _ _ => rfl
  | backslash => exact hletter fun _ _ => rfl
  | single => exact hletter fun _ _ => rfl
  | double => exact hletter fun _ _ => rfl
  | @four digits c hlength h =>
    obtain ⟨offset', hread⟩ := escapeDigits_four hlength h.isSome_hexValue? more
      (offset + Text.byteSize ['\\'] + Text.byteSize ['u'])
    exact ⟨offset', string_escape hquote (e := 'u' :: digits) (escape_digits hread h offset) start
      text⟩
  | @braced digits c h =>
    obtain ⟨offset', hread⟩ := escapeDigits_braced h.isSome_hexValue? more
      (offset + Text.byteSize ['\\'] + Text.byteSize ['u'])
    refine ⟨offset', string_escape hquote (e := 'u' :: '\x7b' :: (digits ++ ['\x7d'])) ?_ start
      text⟩
    rw [List.cons_append, List.cons_append, List.append_assoc]
    exact escape_digits hread h offset

/-- A character of a quoted text is spelled in one of the ways. -/
theorem spellsChar_quotedChar (c : Char) : SpellsChar '"' (Text.quotedChar c) c := by
  unfold Text.quotedChar
  split
  · subst c
    exact .double
  split
  · subst c
    exact .backslash
  split
  · subst c
    exact .newline
  split
  · subst c
    exact .carriageReturn
  split
  · subst c
    exact .tab
  split
  · subst c
    exact .zero
  split
  · exact .raw ‹_› ‹_› ‹_›
  · exact .braced (.toDigits c.toNat)

/-- A character of a quoted text is read back, escaped or not. -/
theorem readsQuoted_text : ReadsQuoted Text.quotedChar := fun c =>
  readsAs_of_spellsChar (by decide) (spellsChar_quotedChar c)

end Lexer

end TypedConfig
