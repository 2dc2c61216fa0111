import TypedConfig.Proofs.TypeText.Lexing
import TypedConfig.Proofs.TypeText.Reading

/-! # The text of a type denotes it

A type that a schema holds has a text, which error messages show. Where the type names its records
only and its number literals are exact, that text is a type expression over the declarations of the
schema, and it denotes the type up to how alternatives are put together.
-/

namespace TypedConfig

/-- The type that a text denotes as one type expression over the declarations of a schema. -/
def Schema.readType (s : Schema) (maxDepth : Nat) (source : Source) : Except SchemaError Ty :=
  match tokenizeWithin maxDepth source.text with
  | .error e => .error (.of (.malformed e.message) source e.span)
  | .ok tokens =>
    match Declaration.typeTerm maxDepth maxDepth (Cursor.ofTokens tokens) with
    | .error e => .error (.of e.cause source e.span)
    | .ok (term, c) =>
      if c.atEnd then do
        checkReferences s.types (term.references.map (·, source))
        return term.type
      else
        let l := c.peek
        .error (.of (.malformed ("expected end of input, found " ++ l.token.describe)) source
          l.span)

namespace Ty

/-- Types that their texts show in full: with no record inside them, and with number literals that
are whole, of a magnitude below `2 ^ 53` and not the negative zero. -/
structure Displayable (t : Ty) : Prop where
  records : ∀ name fields, ¬ (record name fields).Within t
  numbers : ∀ values x, (literal values).Within t → .number x ∈ values →
    (∃ n : Int, Number.whole? x = some n ∧ n.natAbs < 2 ^ 53) ∧ x ≠ -0

variable {types : List TypeDeclaration} {t u : Ty}

theorem Displayable.within (h : t.Displayable) (hu : u.Within t) : u.Displayable :=
  ⟨fun name fields hv => h.records name fields (hv.trans hu),
    fun values x hv => h.numbers values x (hv.trans hu)⟩

theorem exact_number {x : Float} {n : Int} (h : Number.whole? x = some n) (hn : n.natAbs < 2 ^ 53)
    (hx : x ≠ -0) : (Scalar.number x).Exact := by
  have hexact : Number.exactWhole? x = some n := by
    have hbound : decide (n.natAbs < Number.exactBound) = true := decide_eq_true hn
    rw [Number.exactWhole?, h, Option.filter_some, if_pos hbound]
  obtain ⟨k, hk, ⟨-, rfl⟩ | ⟨hpos, -, rfl⟩⟩ := Number.eq_ofNat_or_eq_neg hexact hx
  · exact .number hk
  · exact .negative hpos hk

example : (Scalar.number (-1)).Exact := exact_number (n := -1) rfl (by decide) (by decide)

/-- Well-formed and legible types that can be shown in full are denoted by their texts. -/
theorem WellFormed.denotable (h : t.WellFormed types) (hlegible : t.All Legible)
    (hshown : t.Displayable) : t.Denotable types := by
  induction h with
  | scalar kind => exact .scalar kind
  | literal some differ =>
    refine .literal some differ fun v hv => ?_
    cases v with
    | string text => exact .string text
    | boolean value => exact .boolean value
    | number x =>
      obtain ⟨⟨n, hn, hsmall⟩, hx⟩ := hshown.numbers _ x (.refl _) hv
      exact exact_number hn hsmall hx
  | record => exact absurd (.refl _) (hshown.records _ _)
  | union several mixed _ ih =>
    refine .union several mixed fun t ht => ?_
    have hwithin : t.Within _ := .alternative ht (.refl t)
    exact ih t ht (hlegible.within hwithin) (hshown.within hwithin)
  | @sequence t single _ ih =>
    have hwithin : t.Within _ := .element single (.refl t)
    exact .sequence (ih (hlegible.within hwithin) (hshown.within hwithin))
  | @map key t _ ih =>
    have hwithin : t.Within _ := .value key (.refl t)
    exact .map hlegible.self (ih (hlegible.within hwithin) (hshown.within hwithin))
  | named declared => exact .named hlegible.self.1 hlegible.self.2 declared

end Ty

namespace Schema

/-- The text of a type that a schema that loads holds is read back over the declarations of the
schema, with as many levels as the type is high, and denotes the type with nested unions expanded in
place and literal types split into single literals, at every level. -/
theorem readType_text {limits : Limits} {sources : List Source} {schema : Schema}
    (h : load limits sources = .ok schema) {t : Ty} (ht : schema.Holds t) (hshown : t.Displayable)
    {maxDepth : Nat} (hdepth : t.height ≤ maxDepth) (name : String) :
    ∃ u, schema.readType maxDepth ⟨name, t.text⟩ = .ok u ∧ u.expanded = t.expanded := by
  have hdenotable := ((wellFormed_of_load h).of_holds ht).denotable (legible_of_load h ht) hshown
  obtain ⟨ls, stop, htokens, hstop, hls⟩ :=
    Lexer.tokenizeWithin_of_lexedAs hdenotable.lexedAs_text maxDepth
  have hcursor := Cursor.reads_ofTokens hls hstop
  rw [← List.append_nil t.spell] at hcursor
  obtain ⟨term, c, hread, hc, hterm⟩ := Declaration.takes_typeTerm maxDepth maxDepth t hdenotable
    hdepth false [] ⟨rfl, rfl, rfl⟩ _ hcursor
  have hreferences : checkReferences schema.types
      (term.references.map fun r => (r, Source.mk name t.text)) = .ok () := by
    refine checkReferences_eq_ok_iff.2 fun r hr => ?_
    obtain ⟨r, hmem, rfl⟩ := List.mem_map.1 hr
    exact hterm.declared r hmem
  refine ⟨term.type, ?_, congrArg Ty.ofParts hterm.parts⟩
  unfold readType
  rw [htokens]
  dsimp only
  rw [hread]
  dsimp only
  have hend : c.atEnd = true := hc.atEnd
  rw [if_pos hend, hreferences]
  rfl

/-- A type of itself and two literals, inside a sequence of a map. -/
def nestedSource : Source := ⟨"nested.d.ts",
  "type T = \x7b [k: string]: (T | (\"a\" | \"b\"))[] \x7d; declare var r: T;"⟩

def nested : Ty :=
  .map "k" (.sequence (.union [.named "T", .literal [.string "a", .string "b"]]) false)

def nestedSchema : Schema where
  types := [⟨"T", nested, none, "nested.d.ts", ⟨5, 6⟩⟩]
  constants := []
  root := ⟨"r", .named "T", "nested.d.ts", ⟨59, 60⟩⟩

theorem displayable_nested : nested.Displayable := by
  constructor
  · rintro name fields (_ | _ | _ | _ | ⟨_, _ | _ | _ | ⟨_, _ | _ | ⟨ht, h⟩⟩⟩)
    rcases List.mem_cons.1 ht with rfl | ht
    · cases h
    · rw [List.mem_singleton.1 ht] at h
      cases h
  · rintro values x (_ | _ | _ | _ | ⟨_, _ | _ | _ | ⟨_, _ | _ | ⟨ht, h⟩⟩⟩) hx
    rcases List.mem_cons.1 ht with rfl | ht
    · cases h
    · rw [List.mem_singleton.1 ht] at h
      cases h
      simp at hx

set_option maxRecDepth 2048 in
theorem readType_text_nested :
    load .standard [nestedSource] = .ok nestedSchema ∧ nestedSchema.Holds nested ∧
    nested.Displayable ∧ nested.height ≤ 4 ∧
    nested.text = "\x7b [k: string]: (T | \"a\" | \"b\")[] \x7d" ∧
    ∃ u, nestedSchema.readType 4 ⟨"text", nested.text⟩ = .ok u ∧ u.expanded = nested.expanded := by
  have hload : load .standard [nestedSource] = .ok nestedSchema := by cbv
  have hholds : nestedSchema.Holds nested := .inr ⟨_, List.mem_singleton.2 rfl, .refl _⟩
  have hheight : nested.height ≤ 4 := by decide
  exact ⟨hload, hholds, displayable_nested, hheight, rfl,
    readType_text hload hholds displayable_nested hheight "text"⟩

end Schema

end TypedConfig
