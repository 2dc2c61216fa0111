import TypedConfig.Proofs.Order.Loads
import TypedConfig.Proofs.Schema.Blaming
import TypedConfig.Proofs.Tiling

/-! # The source at fault

A list of sources that does not load has a source at fault: one that is too large or cannot be
read, or one whose declarations or references do not go with the others. The error shows where the
reason for it stands in the text of that source.
-/

namespace TypedConfig

open Text (byteSize StandsAt)

namespace Source

variable {source : Source} {before cs after : List Char}

/-- A text stands in a source at a place. -/
def Says (source : Source) (text : String) (span : Span) : Prop :=
  StandsAt source.text.toList text.toList span.start ∧
    span.stop = span.start + text.utf8ByteSize

end Source

/-- An error shows a place of a source: the source's own name and text, where the place stands in
that, and the first sixty of the characters there. -/
structure SchemaError.PointsInto (e : SchemaError) (source : Source) : Prop where
  name : e.sourceName = source.name
  text : e.sourceText = source.text
  place : ∃ before mid after, source.text.toList = before ++ (mid ++ after) ∧
    byteSize before = e.span.start ∧ byteSize before + byteSize mid = e.span.stop ∧
      e.construct = String.ofList (mid.take 60) ∧ e.location.StandsAfter before

section

variable {maxDepth : Nat} {text : String} {tokens : List Lexeme} {l m : Lexeme}

end

theorem Span.within_of_token {maxDepth : Nat} {text : String} {tokens : List Lexeme}
    (h : tokenizeWithin maxDepth text = .ok tokens) : ∀ l ∈ tokens, l.span.Within text.toList :=
  ((tiles_of_tokenizeWithin h).placed (.self _)).within

namespace Declaration

def typeName? : Declaration → Option String
  | type name .. => some name
  | _ => none

def constantName? : Declaration → Option String
  | constant name .. => some name
  | _ => none

variable {maxDepth : Nat} {tokens : List Lexeme} {cause : SchemaCause} {span : Span}

/-- What is blamed stands where the tokens do. -/
theorem Blames.within {cs : List Char} (h : Blames maxDepth tokens cause span)
    (htokens : ∀ l ∈ tokens, l.span.Within cs) : span.Within cs := by
  cases h with
  | stuck h => exact htokens _ (mem_of_next h.next)
  | roots hl => exact htokens _ (mem_of_next hl.next)
  | mixed _ _ hnext | reindexed _ _ hnext | repeatedField _ _ hnext =>
    exact htokens _ (hnext.subset (by simp))
  | unclosed _ _ _ h => exact htokens _ (h ▸ by simp)
  | @valued _ ls _ _ _ _ _ _ _ _ _ _ _ hd _ hfirst hlast =>
    have hmem {l : Lexeme} (hl : l ∈ ls) : l.span.Within cs :=
      htokens _ (hd.begins.subset (by simp [hl]))
    exact (Span.Closed.within cs).join _ _ (hmem (List.mem_of_head? hfirst))
      (hmem (List.mem_of_getLast? hlast))

end Declaration

namespace Schema

variable {limits : Limits} {source : Source} {before after sources : List Source}

/-- A name stands in a source, where forms of some kind are wanted. -/
structure NamedIn (limits : Limits) (source : Source) (kind : Declaration.Form → Prop)
    (name : String) (span : Span) : Prop where
  text : source.Says name span
  named : ∃ tokens, tokenizeWithin limits.maxDepth source.text = .ok tokens ∧
    Declaration.Named limits.maxDepth tokens kind tokens name span

/-- Why a source among others does not load, and where that stands in its text. -/
inductive Fault (limits : Limits) (before : List Source) (source : Source) (after : List Source) :
    SchemaCause → Span → Prop
  | tooLarge {excess : LimitExceeded} (h : limits.checkSource source.text = .error excess) :
    Fault limits before source after (.tooLarge excess) (.point 0)
  /-- Characters that are no token. -/
  | lexical {e : LexError} {cs : List Char}
    (h : tokenizeWithin limits.maxDepth source.text = .error e)
    (hcs : ∃ passed, source.text.toList = passed ++ cs ∧ byteSize passed = e.span.start)
    (hopens : e.cause.Opens cs) :
    Fault limits before source after (.malformed e.message) e.span
  /-- Tokens that make no declarations. -/
  | written {tokens : List Lexeme} {cause : SchemaCause} {span : Span}
    (h : tokenizeWithin limits.maxDepth source.text = .ok tokens)
    (hfails : ∀ ds, Declaration.ofTokens limits.maxDepth tokens ≠ .ok ds)
    (hblames : Declaration.Blames limits.maxDepth tokens cause span) :
    Fault limits before source after cause span
  /-- What stands in place of the path of an import. -/
  | pathless {tokens : List Lexeme} {l : Lexeme}
    (h : tokenizeWithin limits.maxDepth source.text = .ok tokens)
    (hfails : ∀ ds, Declaration.ofTokens limits.maxDepth tokens ≠ .ok ds)
    (hl : Declaration.Pathless limits.maxDepth tokens l) :
    Fault limits before source after
      (.malformed ("expected module path, found " ++ l.token.describe)) l.span
  /-- A type of a name that an earlier declaration has. -/
  | repeatedType {earlier later : List Declaration} {d : Declaration} {name : String}
    (h : declared limits source = earlier ++ d :: later) (hd : d.typeName? = some name)
    (hplace : NamedIn limits source d.Kind name d.span)
    (hagain : ∃ d' ∈ before.flatMap (declared limits) ++ earlier, d'.typeName? = some name) :
    Fault limits before source after (.duplicateType name) d.span
  /-- A constant of a name that an earlier declaration has. -/
  | repeatedConstant {earlier later : List Declaration} {d : Declaration} {name : String}
    (h : declared limits source = earlier ++ d :: later) (hd : d.constantName? = some name)
    (hplace : NamedIn limits source d.Kind name d.span)
    (hagain : ∃ d' ∈ before.flatMap (declared limits) ++ earlier, d'.constantName? = some name) :
    Fault limits before source after (.duplicateConstant name) d.span
  /-- A root binding behind that of an earlier source. -/
  | secondRoot {d : Declaration} {name : String} {first : Source}
    (h : d ∈ declared limits source) (hd : d.rootName? = some name)
    (hplace : NamedIn limits source d.Kind name d.span) (hfirst : first ∈ before)
    (hroot : ∃ d' ∈ declared limits first, d'.rootName?.isSome = true) :
    Fault limits before source after (.conflictingRoot name first.name) d.span
  /-- A reference to a type that no source declares. -/
  | undeclared {d : Declaration} {r : Reference} (h : d ∈ declared limits source)
    (hr : r ∈ d.references)
    (hplace : NamedIn limits source Declaration.Form.IsPrimary r.name r.span)
    (hnone : ∀ d' ∈ (before ++ source :: after).flatMap (declared limits),
      d'.typeName? ≠ some r.name) :
    Fault limits before source after (.unknownType r.name) r.span
  /-- A type whose name leads from name to name for ever. -/
  | circular {name : String} {body : TyTerm} {doc : Option String} {span : Span}
    (h : .type name body doc span ∈ declared limits source)
    (hplace : NamedIn limits source Declaration.Form.NamesType name span)
    (hcycle : ∀ schema : Schema,
      schema.types = (draftOf limits (before ++ source :: after)).types → ∀ n,
        ∃ next, schema.follow n body.type = .named next) :
    Fault limits before source after (.cyclicAlias name) span
  /-- The end of the last source, where none has declared a root binding. -/
  | rootless (hlast : after = [])
    (hnone : ∀ d ∈ (before ++ [source]).flatMap (declared limits), d.rootName? = none) :
    Fault limits before source after .missingRoot (.point source.text.utf8ByteSize)

/-- What a source is at fault for stands in it. -/
theorem Fault.within {cause : SchemaCause} {span : Span}
    (h : Fault limits before source after cause span) : span.Within source.text.toList := by
  have hplace {kind : Declaration.Form → Prop} {name : String} {span : Span}
      (h : NamedIn limits source kind name span) : span.Within source.text.toList := by
    have hwithin := h.text.1.within
    rwa [Text.byteSize_toList, ← h.text.2] at hwithin
  cases h with
  | tooLarge => exact (Span.Closed.within _).zero
  | lexical h => exact (tokens_stand _ _).2 _ h
  | written h _ hblames => exact hblames.within (Span.within_of_token h)
  | pathless h _ hl =>
    obtain ⟨passed, hl⟩ := hl
    exact Span.within_of_token h _ (mem_of_next hl.next)
  | repeatedType _ _ h | repeatedConstant _ _ h | secondRoot _ _ h | undeclared _ _ h
  | circular _ h => exact hplace h
  | rootless =>
    have hsize : Text.Boundary source.text.toList source.text.utf8ByteSize :=
      Text.byteSize_toList _ ▸ .size _
    exact ⟨hsize, hsize, Nat.le_refl _⟩

section

variable {cause : SchemaCause} {span : Span}

end

namespace Draft

end Draft

/-- A type of the second source that the first one has too. Both have one name. -/
def repeated : List Source :=
  [⟨"s.d.ts", "type A = string;"⟩, ⟨"s.d.ts", "\ntype A = number;"⟩]

/-- A type that stands for itself, in a source behind another one of its name. -/
def looped : Source := ⟨"s.d.ts", "\ntype A = A;"⟩

set_option maxRecDepth 1024 in
/-- What is shown is a place in the text of the first source of the name. -/
theorem not_pointsInto_looped :
    ∃ e, load .standard [⟨"s.d.ts", "declare var x: string;"⟩, looped] = .error e ∧
      e.cause = .cyclicAlias "A" ∧ e.construct = "e" ∧ e.location = ⟨1, 7⟩ ∧
      ¬ e.PointsInto looped ∧ looped.Says "A" ⟨6, 7⟩ := by
  have h : load .standard [⟨"s.d.ts", "declare var x: string;"⟩, looped] =
      .error (.of (.cyclicAlias "A") ⟨"s.d.ts", "declare var x: string;"⟩ ⟨6, 7⟩) := by cbv
  refine ⟨_, h, rfl, by decide, by decide, fun hpoints => absurd hpoints.text (by decide), ?_⟩
  exact ⟨⟨"\ntype ".toList, " = A;".toList, by decide, by decide⟩, by decide⟩

/-- A name in place of the path of an import. -/
def pathless : Source := ⟨"schema.d.ts", "import foo;\ndeclare var x: string;"⟩

set_option maxRecDepth 1024 in
/-- What is shown is the token behind the name. -/
theorem construct_pathless :
    ∃ e, load .standard [pathless] = .error e ∧
      e.cause = .malformed "expected module path, found `foo`" ∧ e.construct = ";" ∧
      e.span = ⟨10, 11⟩ ∧ pathless.Says "foo" ⟨7, 10⟩ := by
  have h : load .standard [pathless] =
      .error (.of (.malformed "expected module path, found `foo`") pathless ⟨10, 11⟩) := by cbv
  refine ⟨_, h, rfl, by decide, by decide, ?_⟩
  exact ⟨⟨"import ".toList, ";\ndeclare var x: string;".toList, by decide, by decide⟩, by decide⟩

end Schema

end TypedConfig
