import TypedConfig.Proofs.Places.Reading
import TypedConfig.Proofs.Places.Tokens

/-! # Where programs stand in their sources

Every place that a program holds is one in the text of its source, and a source that is no
program is refused at a place in its text.
-/

namespace TypedConfig

variable {limits : Limits} {source : Source}

theorem ProgramError.shows_of (cause : ProgramCause) {span : Span}
    (h : span.Within source.text.toList) :
    source.Shows (ProgramError.of cause source span).location
      (ProgramError.of cause source span).span := by
  simp only [ProgramError.of, Source.clamp_of_within h]
  exact h.shows

namespace Program

theorem read_of_parse {program : Program} (h : parse limits source = .ok program) :
    program.source = source ∧
      ∀ s ∈ program.statements, s.Read (Span.Within source.text.toList) (limits.maxDepth + 1) := by
  unfold parse at h
  split at h
  · cases h
  · split at h
    · cases h
    · rename_i tokens htokens
      have hstand := (tokens_stand limits.maxDepth source.text).1 tokens htokens
      split at h
      · cases h
      · rename_i imports statements hread
        cases h
        exact ⟨rfl, (ofTokens_read (.within _) limits.maxDepth hstand).1 _ hread⟩

theorem shows_of_parse {e : ProgramError} (h : parse limits source = .error e) :
    source.Shows e.location e.span := by
  unfold parse at h
  split at h
  · cases h
    exact ProgramError.shows_of _ ⟨.zero _, .zero _, Nat.le_refl _⟩
  · split at h
    · rename_i e htokens
      cases h
      exact ProgramError.shows_of _ ((tokens_stand limits.maxDepth source.text).2 e htokens)
    · rename_i tokens htokens
      have hstand := (tokens_stand limits.maxDepth source.text).1 tokens htokens
      split at h
      · rename_i e hread
        cases h
        exact ProgramError.shows_of _
          ((ofTokens_read (.within _) limits.maxDepth hstand).2 e hread)
      · cases h

end Program

end TypedConfig
