import TypedConfig.Proofs.Tiling
import TypedConfig.Proofs.TypeText.Lexing

/-! # Spellings of a text

A text that stands alone between two quotes is one token, whatever the quote is and however each of
its characters is spelled.
-/

namespace TypedConfig

/-- Characters between two quotes spell a text, one piece for each character of it. -/
structure SpellsText (quote : Char) (s text : String) : Prop where
  mark : quote = '"' ∨ quote = '\''
  pieces : ∃ pieces, List.Forall₂ (SpellsChar quote) pieces s.toList ∧
    text = String.ofList (quote :: (pieces.flatten ++ [quote]))

/-- The text of a scalar is one of its spellings between double quotes. -/
theorem spellsText_literalText (s : String) :
    SpellsText '"' s (Scalar.literalText (.string s)) :=
  ⟨.inl rfl, _, Lexer.forall₂_map Lexer.spellsChar_quotedChar s.toList, rfl⟩

/-- A text that spans a source, and the end behind it. -/
def aloneTokens (s text : String) : List Lexeme :=
  [.mk (.string s) ⟨0, text.utf8ByteSize⟩ none false, .endAt (.point text.utf8ByteSize)]

/-- The token of a spelling is read up to its closing quote, which is the end of the source. -/
theorem lexeme_of_spellsText {quote : Char} {s text : String} (h : SpellsText quote s text)
    (limit levels : Nat) :
    Lexer.lexeme (Lexer.template limit levels) (.start text) =
      .ok (.mk (.string s) ⟨0, text.utf8ByteSize⟩ none false, ⟨[], text.utf8ByteSize⟩) := by
  obtain ⟨hquote, pieces, hpieces, rfl⟩ := h
  have hback : '\\' ≠ quote := by
    rintro rfl
    exact absurd hquote (by decide)
  obtain ⟨stop, hread⟩ := Lexer.bareToken_flatten (Lexer.template limit levels) hquote
    (hpieces.imp fun _ _ => Lexer.readsAs_of_spellsChar hback) [] 0
  rw [String.ofList_toList] at hread
  have hgap : Lexer.EndsGap (quote :: (pieces.flatten ++ [quote])) := by
    rcases hquote with rfl | rfl
    · exact Lexer.endsGap_cons rfl (by decide) _
    · exact Lexer.endsGap_cons rfl (by decide) _
  obtain ⟨⟨⟩, -⟩ | ⟨cs, hreads, -⟩ :=
    Lexer.bareToken_spells (Lexer.readsTemplates_template limit levels) hread
  have hchars : quote :: (pieces.flatten ++ [quote]) = cs := by
    have hahead : quote :: (pieces.flatten ++ [quote]) = cs ++ [] := hreads.ahead
    rwa [List.append_nil] at hahead
  have hstop : stop = Text.byteSize (quote :: (pieces.flatten ++ [quote])) := by
    rw [hchars]
    exact hreads.offset.trans (Nat.zero_add _)
  rw [← Text.byteSize_toList, String.toList_ofList, ← hstop, Position.start, String.toList_ofList]
  exact Lexer.lexeme_of_bareToken hgap hread

/-- Every spelling of a text, and so the text of every scalar that is one, is read as one token that
has the text and spans the source. -/
theorem tokens_of_spellsText (maxDepth : Nat) :
    (∀ quote s text, SpellsText quote s text →
      tokenizeWithin maxDepth text = .ok (aloneTokens s text)) ∧
    ∀ s, tokenizeWithin maxDepth (Scalar.literalText (.string s)) =
      .ok (aloneTokens s (Scalar.literalText (.string s))) := by
  have hspelled (quote : Char) (s text : String) (h : SpellsText quote s text) :
      tokenizeWithin maxDepth text = .ok (aloneTokens s text) := by
    have hfirst := lexeme_of_spellsText h maxDepth maxDepth
    have hpass : Lexer.Passes (Lexer.template maxDepth maxDepth) (.start text)
        [.mk (.string s) ⟨0, text.utf8ByteSize⟩ none false] ⟨[], text.utf8ByteSize⟩ :=
      .cons hfirst rfl (.nil _)
    have hrounds : 1 ≤ text.toList.length := by
      obtain ⟨-, pieces, -, rfl⟩ := h
      rw [String.toList_ofList]
      exact Nat.succ_le_succ (Nat.zero_le _)
    exact Lexer.tokens_of_passes hpass hrounds
  exact ⟨hspelled, fun s => hspelled _ s _ (spellsText_literalText s)⟩

/-- Five characters, no two of them spelled in the same way. -/
def mixedSpelling : String := "'é\\n\\u00E9\\u\x7b0001f600\x7d\\''"

theorem tokens_of_spellsText_mixed :
    SpellsText '\'' "é\né😀'" mixedSpelling ∧
      tokenizeWithin 128 mixedSpelling = .ok (aloneTokens "é\né😀'" mixedSpelling) := by
  have hfour : SpellsChar '\'' ('\\' :: 'u' :: ['0', '0', 'E', '9']) 'é' :=
    .four rfl ⟨2, by decide +kernel⟩
  have hbraced :
      SpellsChar '\'' ('\\' :: 'u' :: '\x7b' :: ("0001f600".toList ++ ['\x7d'])) '😀' :=
    .braced ⟨3, by decide +kernel⟩
  have hspells : SpellsText '\'' "é\né😀'" mixedSpelling :=
    ⟨.inr rfl, _, .cons (.raw (by decide) (by decide) (by decide))
      (.cons .newline (.cons hfour (.cons hbraced (.cons .single .nil)))), rfl⟩
  exact ⟨hspells, (tokens_of_spellsText 128).1 _ _ _ hspells⟩

end TypedConfig
