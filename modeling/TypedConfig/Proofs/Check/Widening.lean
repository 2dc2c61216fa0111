import TypedConfig.Proofs.Check.Accepts
import TypedConfig.Proofs.Number.Equality
import TypedConfig.Proofs.Schema.Alternatives

/-! # Wider types

A union accepts what its first alternative accepts: its own alternatives begin with those of the
first, and the same one is chosen among them. Two things are needed for that. A union looks for an
object among records and maps only, so the objects that a sequence accepts in place of its one
element are not meant. And the alternatives of the first have to be all there where they are
opened as a part of the union.
-/

namespace TypedConfig

namespace Ty

theorem admitsLiteral_append {xs ys : List Scalar} {x : Scalar} :
    admitsLiteral (xs ++ ys) x = true ↔ admitsLiteral xs x = true ∨ admitsLiteral ys x = true := by
  rw [admitsLiteral, List.any_append, Bool.or_eq_true, admitsLiteral, admitsLiteral]

/-- A value that is equal to one of some values is equal to one of those that are kept of them. -/
theorem admitsLiteral_foldl_keep {kept values : List Scalar} {x : Scalar}
    (h : admitsLiteral (kept ++ values) x = true) :
    admitsLiteral (values.foldl keep kept) x = true := by
  induction values generalizing kept with
  | nil => rwa [List.append_nil] at h
  | cons v rest ih =>
    refine ih ?_
    rw [← List.singleton_append, ← List.append_assoc, admitsLiteral_append] at h
    rw [admitsLiteral_append]
    refine h.imp_left fun h => ?_
    unfold keep
    split
    · rename_i hv
      rcases admitsLiteral_append.1 h with h | h
      · exact h
      · obtain ⟨k, hk, hkv⟩ := List.any_eq_true.1 hv
        have hvx : v.equals x = true := by simpa [admitsLiteral] using h
        exact List.any_eq_true.2 ⟨k, hk, Scalar.equals_trans hkv hvx⟩
    · exact h

theorem admitsLiteral_distinct {values : List Scalar} {x : Scalar}
    (h : admitsLiteral values x = true) : admitsLiteral (distinct values) x = true :=
  admitsLiteral_foldl_keep (List.nil_append values ▸ h)

end Ty

inductive Shape.IsBranch (b : Shape) : Shape → Prop
  | self : IsBranch b b
  | oneOf {span : Span} {branches : List Shape} {shape : Shape} (hs : shape ∈ branches)
    (h : IsBranch b shape) : IsBranch b (.oneOf span branches)

/-- Whether a shape is or may be an object. -/
def Shape.MayBeRecord (shape : Shape) : Prop :=
  ∃ span fields, Shape.IsBranch (.record span fields) shape

namespace Match

variable {schema : Schema} {t u : Ty} {shape : Shape} {path : String} {o o' : Outcome} {n m : Nat}

namespace Accepts

/-- A type accepts what another accepts if it does so for every branch. -/
theorem of_branches (h : Accepts schema t shape)
    (hu : ∀ b, Shape.IsBranch b shape → Plain b → Accepts schema t b → Accepts schema u b) :
    Accepts schema u shape := by
  induction hsize : sizeOf shape using Nat.strongRecOn generalizing shape with
  | ind size ih =>
    subst hsize
    cases shape with
    | unknown => exact .unknown
    | oneOf span branches =>
      refine .oneOf fun b hb => ?_
      have hlt : sizeOf b < sizeOf (Shape.oneOf span branches) :=
        Nat.lt_trans (List.sizeOf_lt_of_mem hb) (by simp)
      exact ih _ hlt (h.branches rfl b hb) (fun c hc => hu c (.oneOf hb hc)) rfl
    | _ => exact hu _ .self ⟨by rintro _ ⟨⟩, by rintro _ _ ⟨⟩⟩ h

/-- A plain shape that is accepted is an object, an array or a scalar. -/
theorem form (h : Accepts schema t shape) (hp : Plain shape) :
    (∃ span fields, shape = .record span fields) ∨ shape.elements?.isSome = true ∨
      shape.kind?.isSome = true := by
  induction h with
  | unknown => exact (hp.known _ rfl).elim
  | oneOf => exact (hp.one _ _ rfl).elim
  | named _ ih => exact ih hp
  | scalar h => exact .inr (.inr (by rw [h]; rfl))
  | literal hx => exact .inr (.inr (kind?_of_scalar? hx))
  | record | map | chosenRecord => exact .inl ⟨_, _, rfl⟩
  | tuple | array => exact .inr (.inl rfl)
  | single _ _ _ ih => exact ih hp
  | chosenSequence hs => exact .inr (.inl hs)
  | chosenScalar hs => exact .inr (.inr hs)

end Accepts

section

variable {r : Ty} {span : Span} {fields : ShapeFields}

/-- An object that a leaf accepts has keys that fit it, unless it stands for a single element. -/
theorem fitsKeys_of_leaf (hr : Schema.IsLeaf r) (h : Accepts schema r (.record span fields))
    (hs : ∀ element, r ≠ .sequence element true) : fitsKeys fields r = true := by
  cases h with
  | named => exact (hr.1 _ rfl).elim
  | scalar hk => cases hk
  | literal hx => cases hx
  | record required declares => exact fitsKeys_of_accepts required declares
  | map => rfl
  | single => exact (hs _ rfl).elim
  | chosenRecord | chosenSequence | chosenScalar => exact (hr.2 _ rfl).elim

theorem isSequence_of_leaf (hr : Schema.IsLeaf r) (h : Accepts schema r shape) (hp : Plain shape)
    (hs : shape.elements?.isSome = true) : isSequence r = true := by
  cases h with
  | unknown => exact (hp.known _ rfl).elim
  | oneOf => exact (hp.one _ _ rfl).elim
  | named => exact (hr.1 _ rfl).elim
  | scalar hk => exact (elements?_of_kind? (by rw [hk]; rfl) hs).elim
  | literal hx => exact (elements?_of_kind? (kind?_of_scalar? hx) hs).elim
  | record | map => cases hs
  | tuple | array | single => rfl
  | chosenRecord | chosenSequence | chosenScalar => exact (hr.2 _ rfl).elim

end

theorem find?_append_left {p : String × Ty → Bool} {as bs : List (String × Ty)} {a : String × Ty}
    (h : as.find? p = some a) : (as ++ bs).find? p = some a := by
  rw [List.find?_append, h]
  rfl

section

variable (hw : schema.WellFormed) (ht : t.Over schema.types)
  (hn : schema.NestsWithin schema.types.length t)

include hw ht

/-- The alternatives of a type are those of the union that it resolves to, or a leaf. -/
theorem flatten_cases :
    (∃ ts, schema.resolve t = .union ts ∧ schema.flatten t = schema.flatten (.union ts)) ∨
      Schema.IsLeaf (schema.resolve t) ∧ schema.flatten t = [(t.text, schema.resolve t)] := by
  by_cases hr : ∃ ts, schema.resolve t = .union ts
  · obtain ⟨ts, hts⟩ := hr
    have hself : schema.resolve (.union ts) = .union ts :=
      Schema.follow_structural (fun _ => Ty.noConfusion) _
    exact .inl ⟨ts, hts, by rw [Schema.flatten, Schema.flatten, Schema.leaves, Schema.leaves, hts,
      hself]⟩
  · have hleaf : Schema.IsLeaf (schema.resolve t) :=
      ⟨hw.resolve_ne ht, fun ts hts => hr ⟨ts, hts⟩⟩
    refine .inr ⟨hleaf, ?_⟩
    rw [Schema.flatten, Schema.leaves]
    split
    · exact (hleaf.2 _ ‹_›).elim
    · rfl

include hn

/-- The alternatives of the first of two types come first. -/
theorem flatten_union_pair (u : Ty) : ∃ rest,
    schema.flatten (.union [t, u]) = schema.flatten t ++ rest := by
  have hr : schema.resolve (.union [t, u]) = .union [t, u] :=
    Schema.follow_structural (fun _ => Ty.noConfusion) _
  have hsame : schema.leaves schema.types.length t = schema.flatten t :=
    (hw.expandTo_leaves ht hn).unique (hw.expandTo_leaves ht (hn.mono (Nat.le_succ _)))
  refine ⟨schema.leaves schema.types.length u, ?_⟩
  rw [Schema.flatten, Schema.leaves, hr, ← hsame]
  simp

theorem Accepts.union_of_left (hp : Plain shape) (h : Accepts schema (schema.resolve t) shape)
    (hs : ∀ element, schema.resolve t = .sequence element true →
      ∀ span fields, shape ≠ .record span fields) : Accepts schema (.union [t, u]) shape := by
  obtain ⟨rest, hflatten⟩ := flatten_union_pair hw ht hn u
  rcases h.form hp with ⟨span, fields, rfl⟩ | hseq | hk
  · rw [union_record_iff, hflatten]
    suffices ∃ a, (schema.flatten t).find? (fun a => fitsKeys fields a.2) = some a ∧
        Accepts schema a.2 (.record span fields) from
      this.imp fun _ => And.imp_left find?_append_left
    rcases flatten_cases hw ht with ⟨ts, hts, hf⟩ | ⟨hleaf, hf⟩
    · rw [hf]
      exact union_record_iff.1 (hts ▸ h)
    · refine ⟨(t.text, schema.resolve t), ?_, h⟩
      rw [hf, List.find?_singleton, if_pos (fitsKeys_of_leaf hleaf h fun e he => hs e he _ _ rfl)]
  · rw [union_sequence_iff hseq, hflatten]
    suffices ∃ a, (schema.flatten t).find? (fun a => isSequence a.2) = some a ∧
        Accepts schema a.2 shape from this.imp fun _ => And.imp_left find?_append_left
    rcases flatten_cases hw ht with ⟨ts, hts, hf⟩ | ⟨hleaf, hf⟩
    · rw [hf]
      exact (union_sequence_iff hseq).1 (hts ▸ h)
    · refine ⟨(t.text, schema.resolve t), ?_, h⟩
      rw [hf, List.find?_singleton, if_pos (isSequence_of_leaf hleaf h hp hseq)]
  · rw [union_scalar_iff hk, hflatten]
    suffices ∃ a ∈ schema.flatten t, Accepts schema a.2 shape from
      this.imp fun _ => And.imp_left (List.mem_append_left _)
    rcases flatten_cases hw ht with ⟨ts, hts, hf⟩ | ⟨hleaf, hf⟩
    · rw [hf]
      exact (union_scalar_iff hk).1 (hts ▸ h)
    · exact ⟨_, hf ▸ List.mem_singleton_self _, h⟩

end

/-- The literals of two types accept what those of the first accept. -/
theorem Accepts.literal_distinct {vs ws : List Scalar} (h : Accepts schema (.literal vs) shape) :
    Accepts schema (.literal (Ty.distinct (vs ++ ws))) shape := by
  refine h.of_branches fun b _ hp hb => ?_
  obtain ⟨x, hx, ha⟩ := (literal_iff hp).1 hb
  exact .literal hx (Ty.admitsLiteral_distinct (Ty.admitsLiteral_append.2 (.inl ha)))

theorem unite_pair (t u : Ty) : (∃ vs ws, t = .literal vs ∧ u = .literal ws ∧
    Ty.unite [t, u] = .literal (Ty.distinct (vs ++ ws))) ∨ Ty.unite [t, u] = .union [t, u] := by
  rw [Ty.unite_of_two_le (show 2 ≤ [t, u].length from Nat.le_refl 2)]
  cases t with
  | literal vs =>
    cases u with
    | literal ws => exact .inl ⟨vs, ws, rfl, rfl, by simp [Ty.allLiterals?, Ty.literals?]⟩
    | _ => exact .inr rfl
  | _ => exact .inr rfl

/-- Where matching against a type finds no error, matching against the union of the type and another
finds none. The unions of the type are to nest to no more levels than there are declarations, and
if it takes a single element in place of a sequence, the shape is to be no object. -/
theorem conform_unite {limits : Limits} {sources : List Source}
    (hload : Schema.load limits sources = .ok schema) (ht : t.Over schema.types)
    (hn : schema.NestsWithin schema.types.length t)
    (hs : ∀ element, schema.resolve t = .sequence element true → ¬ shape.MayBeRecord)
    (h : conformWithin schema n t shape path = some o) (he : o.errors = [])
    (h' : conformWithin schema m (Ty.unite [t, u]) shape path = some o') : o'.errors = [] := by
  have hw := Schema.wellFormed_of_load hload
  have ha := (conformWithin_accepts h).1 he
  have hself {t : Ty} (hne : ∀ name, t ≠ .named name) : schema.resolve t = t :=
    Schema.follow_structural hne _
  rw [conformWithin_accepts h']
  rcases unite_pair t u with ⟨vs, ws, rfl, rfl, hu⟩ | hu
  · rw [hu, hself (fun _ => Ty.noConfusion)]
    rw [hself (fun _ => Ty.noConfusion)] at ha
    exact ha.literal_distinct
  · rw [hu, hself (fun _ => Ty.noConfusion)]
    refine ha.of_branches fun b hb hp hab => hab.union_of_left hw ht hn hp fun e hr => ?_
    rintro span fields rfl
    exact hs e hr ⟨span, fields, hb⟩

def forms : Source := ⟨"forms.d.ts",
  "type Step = string | \x7b a: string \x7d; declare var r: Step[];"⟩

def formsSchema : Schema where
  types := [⟨"Step", .union [.scalar .string,
    .record none [(⟨"a", false, none, ⟨23, 24⟩⟩, .scalar .string)]], none, "forms.d.ts", ⟨5, 9⟩⟩]
  constants := []
  root := ⟨"r", .sequence (.named "Step") false, "forms.d.ts", ⟨48, 49⟩⟩

def formsShape : Shape :=
  .oneOf default
    [.string default (some "x"), .record default [("a", default, .string default none)]]

theorem conform_unite_forms :
    Schema.load .standard [forms] = .ok formsSchema ∧
    (Ty.named "Step").Over formsSchema.types ∧ formsSchema.NestsWithin 1 (.named "Step") ∧
    (∃ o, conformWithin formsSchema 6 (.named "Step") formsShape "r" = some o ∧ o.errors = []) ∧
    ∃ o, conformWithin formsSchema 6 (Ty.unite [.named "Step", .scalar .number]) formsShape "r" =
      some o ∧ o.errors = [] := by
  have hload : Schema.load .standard [forms] = .ok formsSchema := by cbv
  have hover : (Ty.named "Step").Over formsSchema.types := .named ⟨_, .head _, rfl⟩
  have hnests : formsSchema.NestsWithin 1 (.named "Step") :=
    .named rfl (.union (List.forall_mem_cons.2
      ⟨.leaf (.scalar _), List.forall_mem_singleton.2 (.leaf (.record _ _))⟩))
  have hstep : conformWithin formsSchema 6 (.named "Step") formsShape "r" = some _ := rfl
  have hwide : conformWithin formsSchema 6 (Ty.unite [.named "Step", .scalar .number]) formsShape
      "r" = some _ := rfl
  exact ⟨hload, hover, hnests, ⟨_, hstep, rfl⟩, _, hwide,
    conform_unite hload hover hnests (fun _ he => by cases he) hstep rfl hwide⟩

/-- A schema for one object, or more, or a text. -/
def singles : Source := ⟨"singles.d.ts",
  "declare var r: OneOrMany<\x7b a: string \x7d> | string;"⟩

def singleType : Ty :=
  .sequence (.record none [(⟨"a", false, none, ⟨27, 28⟩⟩, .scalar .string)]) true

def singlesSchema : Schema :=
  ⟨[], [], ⟨"r", Ty.unite [singleType, .scalar .string], "singles.d.ts", ⟨12, 13⟩⟩⟩

/-- An object that matches the type for one or more does not match the union of that type and the
type of texts. -/
theorem not_conform_unite_single :
    Schema.load .standard [singles] = .ok singlesSchema ∧
    singleType.Over singlesSchema.types ∧ (Ty.scalar .string).Over singlesSchema.types ∧
    (∃ o, conformWithin singlesSchema 6 singleType
      (.record default [("a", default, .string default (some "x"))]) "r" = some o ∧
        o.errors = []) ∧
    ∃ o, conformWithin singlesSchema 6 (Ty.unite [singleType, .scalar .string])
      (.record default [("a", default, .string default (some "x"))]) "r" = some o ∧
        o.errors ≠ [] :=
  ⟨by cbv, .sequence _ (.record _ (List.forall_mem_singleton.2 (.scalar _))), .scalar _,
    ⟨_, rfl, rfl⟩, _, rfl, List.cons_ne_nil _ _⟩

end Match

end TypedConfig
