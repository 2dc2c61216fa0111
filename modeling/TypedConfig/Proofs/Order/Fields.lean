import Mathlib
import TypedConfig.Proofs.Check.Parts
import TypedConfig.Schema.Load

/-! # The order of fields

Matching looks at the fields of an object under their keys only. So objects with the same fields in
another order, at any depth of a value, are matched with the same alternatives, the same errors and
errors at the same places, and only the order of all these may differ.
-/

namespace TypedConfig

open List (Forall₂)

mutual

inductive Shape.Reorders : Shape → Shape → Prop
  | refl (shape : Shape) : Shape.Reorders shape shape
  | record (span : Span) {fields inner fields' : ShapeFields}
    (hinner : Forall₂ Shape.FieldReorders fields inner) (h : inner.Perm fields') :
    Shape.Reorders (.record span fields) (.record span fields')
  | tuple (span : Span) {items items' : List Shape} (h : Forall₂ Shape.Reorders items items') :
    Shape.Reorders (.tuple span items) (.tuple span items')
  | array (span : Span) {element element' : Shape} (h : Shape.Reorders element element') :
    Shape.Reorders (.array span element) (.array span element')
  | oneOf (span : Span) {branches branches' : List Shape}
    (h : Forall₂ Shape.Reorders branches branches') :
    Shape.Reorders (.oneOf span branches) (.oneOf span branches')
  | function (span : Span) (params : List Ident) (body : Expr)
    {captured captured' : List ShapeFrame}
    (h : Forall₂ (Forall₂ Shape.NameReorders) captured captured') :
    Shape.Reorders (.function span params body captured) (.function span params body captured')

inductive Shape.FieldReorders : String × Span × Shape → String × Span × Shape → Prop
  | mk (key : String) (keySpan : Span) {shape shape' : Shape} (h : Shape.Reorders shape shape') :
    Shape.FieldReorders (key, keySpan, shape) (key, keySpan, shape')

inductive Shape.NameReorders : String × Shape → String × Shape → Prop
  | mk (name : String) {shape shape' : Shape} (h : Shape.Reorders shape shape') :
    Shape.NameReorders (name, shape) (name, shape')

end

/-- What an error says apart from what was found, which may name the fields of an object. -/
def CheckError.demand (e : CheckError) : String × String × Span × Option String :=
  (e.path, e.expected, e.span, e.note)

structure Outcome.Reorders (o o' : Outcome) : Prop where
  errors : (o.errors.map CheckError.demand).Perm (o'.errors.map CheckError.demand)
  resolutions : o.resolutions.Perm o'.resolutions

namespace Outcome.Reorders

variable {a b c a' b' : Outcome}

theorem refl (o : Outcome) : o.Reorders o := ⟨.refl _, .refl _⟩

theorem trans (h : a.Reorders b) (h' : b.Reorders c) : a.Reorders c :=
  ⟨h.errors.trans h'.errors, h.resolutions.trans h'.resolutions⟩

theorem append (h : a.Reorders a') (hb : b.Reorders b') : (a ++ b).Reorders (a' ++ b') := by
  constructor
  · show ((a.errors ++ b.errors).map _).Perm ((a'.errors ++ b'.errors).map _)
    rw [List.map_append, List.map_append]
    exact h.errors.append hb.errors
  · exact h.resolutions.append hb.resolutions

theorem append_left_comm (a b c : Outcome) : (a ++ (b ++ c)).Reorders (b ++ (a ++ c)) := by
  have hperm {α : Type} (as bs cs : List α) : (as ++ (bs ++ cs)).Perm (bs ++ (as ++ cs)) := by
    rw [← List.append_assoc, ← List.append_assoc]
    exact List.perm_append_comm.append_right cs
  exact ⟨(hperm ..).map _, hperm ..⟩

end Outcome.Reorders

namespace Match

open Shape (Reorders FieldReorders)

/-- Matchings that both end with the same findings in some order, or both do not end. -/
abbrev EndsReorder : Option Outcome → Option Outcome → Prop := Option.Rel Outcome.Reorders

namespace EndsReorder

variable {α β : Type} {x y z x' y' : Option Outcome}

theorem refl (x : Option Outcome) : EndsReorder x x := by
  cases x with
  | none => exact .none
  | some o => exact .some (.refl o)

theorem trans (h : EndsReorder x y) (h' : EndsReorder y z) : EndsReorder x z := by
  cases h with
  | none => exact h'
  | some h =>
    cases h' with
    | some h' => exact .some (h.trans h')

theorem bind {R : α → β → Prop} {x : Option α} {y : Option β} (h : Option.Rel R x y)
    {f : α → Option Outcome} {g : β → Option Outcome}
    (hf : ∀ a b, R a b → EndsReorder (f a) (g b)) : EndsReorder (x >>= f) (y >>= g) := by
  cases h with
  | some h => exact hf _ _ h
  | none => exact .none

theorem both (h : EndsReorder x x') (hy : EndsReorder y y') :
    EndsReorder (do return (← x) ++ (← y)) (do return (← x') ++ (← y')) :=
  bind h fun _ _ ha => bind hy fun _ _ hb => .some (ha.append hb)

/-- More findings that come before. -/
theorem before (o : Outcome) (h : EndsReorder x x') :
    EndsReorder (do return o ++ (← x)) (do return o ++ (← x')) :=
  bind h fun _ _ ha => .some ((Outcome.Reorders.refl o).append ha)

theorem joinAll {f : α → Option Outcome} {g : β → Option Outcome} {as : List α} {bs : List β}
    (h : Forall₂ (fun a b => EndsReorder (f a) (g b)) as bs) :
    EndsReorder (joinAll f as) (joinAll g bs) := by
  induction h with
  | nil => exact refl _
  | cons h _ ih => exact both h ih

theorem joinAll_perm (f : α → Option Outcome) {as bs : List α} (h : as.Perm bs) :
    EndsReorder (Match.joinAll f as) (Match.joinAll f bs) := by
  induction h with
  | nil => exact refl _
  | cons a _ ih => exact both (refl _) ih
  | swap a b as =>
    simp only [Match.joinAll]
    cases f a with
    | none => cases f b <;> exact .none
    | some o =>
      cases f b with
      | none => exact .none
      | some p =>
        cases Match.joinAll f as with
        | none => exact .none
        | some rest => exact .some (.append_left_comm ..)
  | trans _ _ ih ih' => exact ih.trans ih'

theorem joinItems {f : Nat → Shape → Option Outcome} {i : Nat} {items items' : List Shape}
    (h : Forall₂ (fun a b => ∀ i, EndsReorder (f i a) (f i b)) items items') :
    EndsReorder (joinItems f i items) (joinItems f i items') := by
  induction h generalizing i with
  | nil => exact refl _
  | cons h _ ih => exact both (h i) ih

theorem isSome_iff (h : EndsReorder x y) : x.isSome = true ↔ y.isSome = true := by
  cases h <;> exact .rfl

theorem getD (h : EndsReorder x y) {o o' : Outcome} (ho : o.Reorders o') :
    (x.getD o).Reorders (y.getD o') := by
  cases h with
  | none => exact ho
  | some h => exact h

end EndsReorder

section

variable {fields inner fields' : ShapeFields}

theorem keys_perm (hinner : Forall₂ FieldReorders fields inner) (h : inner.Perm fields') :
    (Entries.keys fields).Perm (Entries.keys fields') := by
  have hkeys : Entries.keys fields = Entries.keys inner := by
    induction hinner generalizing fields' with
    | nil => rfl
    | cons hf hinner ih =>
      cases hf with
      | mk => exact congrArg (List.cons _) (ih (.refl _))
  rw [hkeys]
  exact h.map Prod.fst

variable (hkeys : (Entries.keys fields).Perm (Entries.keys fields'))

include hkeys

theorem contains_perm (key : String) :
    Entries.contains fields key = Entries.contains fields' key := by
  rw [Bool.eq_iff_iff, Entries.contains_iff_mem_keys, Entries.contains_iff_mem_keys,
    hkeys.mem_iff]

theorem fitsKeys_perm (t : Ty) : fitsKeys fields t = fitsKeys fields' t := by
  cases t with
  | record name declared =>
    have hall := hkeys.all_eq (f := fun key => TyFields.declares declared key)
    rw [Entries.keys, Entries.keys, List.all_map, List.all_map] at hall
    simp only [fitsKeys, contains_perm hkeys]
    exact congrArg _ hall
  | _ => rfl

theorem score_perm (declared : TyFields) : score fields declared = score fields' declared := by
  have hcount := hkeys.countP_eq fun key => TyFields.declares declared key
  rw [Entries.keys, Entries.keys, List.countP_map, List.countP_map] at hcount
  rw [score, score, ← List.countP_eq_length_filter, ← List.countP_eq_length_filter]
  exact hcount

theorem closest_perm (records : Siblings) : closest fields records = closest fields' records := by
  cases records with
  | nil => rfl
  | cons s rest => simp only [closest, score_perm hkeys]

end

section

variable {shape shape' : Shape} {label path : String} {siblings : Siblings}

theorem reorders_mismatch (h : shape.Reorders shape') :
    (mismatch label shape path).Reorders (mismatch label shape' path) := by
  refine ⟨?_, .refl _⟩
  cases h <;> exact .refl _

theorem reorders_matchScalar (kind : ScalarKind) (h : shape.Reorders shape') :
    (matchScalar label kind shape path).Reorders (matchScalar label kind shape' path) := by
  have hmismatch : (mismatch label shape path).Reorders (mismatch label shape' path) :=
    reorders_mismatch h
  cases h with
  | refl => exact .refl _
  | _ => exact hmismatch

theorem reorders_matchLiteral (values : List Scalar) (h : shape.Reorders shape') :
    (matchLiteral label values shape path).Reorders (matchLiteral label values shape' path) := by
  have hmismatch : (mismatch label shape path).Reorders (mismatch label shape' path) :=
    reorders_mismatch h
  cases h with
  | refl => exact .refl _
  | _ => exact hmismatch

def ReordersMatches (inner : Matcher) : Prop :=
  ∀ {shape shape' : Shape}, shape.Reorders shape' → ∀ label t path siblings,
    EndsReorder (inner label t shape path siblings) (inner label t shape' path siblings)

/-- A matcher of fields that finds the same of reordered shapes. -/
def ReordersFields (field : Ty → Shape → String → Option Outcome) : Prop :=
  ∀ {shape shape' : Shape}, shape.Reorders shape' → ∀ t path,
    EndsReorder (field t shape path) (field t shape' path)

variable {inner : Matcher} {field : Ty → Shape → String → Option Outcome}

theorem reorders_fields {f : String × Span × Shape → Option Outcome}
    (hf : ∀ key keySpan {shape shape' : Shape}, shape.Reorders shape' →
      EndsReorder (f (key, keySpan, shape)) (f (key, keySpan, shape')))
    {fields inner fields' : ShapeFields} (hinner : Forall₂ FieldReorders fields inner)
    (h : inner.Perm fields') : EndsReorder (joinAll f fields) (joinAll f fields') := by
  refine .trans (.joinAll (hinner.imp ?_)) (.joinAll_perm f h)
  rintro _ _ ⟨key, keySpan, h⟩
  exact hf key keySpan h

theorem reorders_matchRecord (hf : ReordersFields field) (declared : TyFields) (span : Span)
    {fields inner fields' : ShapeFields} (hinner : Forall₂ FieldReorders fields inner)
    (h : inner.Perm fields') :
    EndsReorder (matchRecord field label declared (.record span fields) path siblings)
      (matchRecord field label declared (.record span fields') path siblings) := by
  simp only [matchRecord_record, contains_perm (keys_perm hinner h)]
  refine .before _ (reorders_fields (fun key keySpan {_ _} hs => ?_) hinner h)
  simp only [matchField]
  cases TyFields.field? declared key with
  | some f => exact hf hs ..
  | none => exact .refl _

theorem reorders_matchUnion (hi : ReordersMatches inner) (hf : ReordersFields field)
    (alternatives : List (String × Ty)) (h : shape.Reorders shape')
    (hplain : ∀ span branches, shape ≠ .oneOf span branches) :
    EndsReorder (matchUnion inner field label alternatives shape path)
      (matchUnion inner field label alternatives shape' path) := by
  have hmismatch : EndsReorder (some (mismatch label shape path))
      (some (mismatch label shape' path)) := .some (reorders_mismatch h)
  have hchoice (name : String) (t : Ty) (siblings : Siblings) :=
    (hi h name t path siblings).before (.ofResolution ⟨path, label, name⟩)
  cases h with
  | refl => exact .refl _
  | record span hinner h =>
    have hkeys := keys_perm hinner h
    simp only [matchUnion, fitsKeys_perm hkeys, closest_perm hkeys]
    split
    · exact hchoice ..
    · split
      · exact reorders_matchRecord hf _ span hinner h
      · exact hmismatch
  | tuple | array =>
    unfold matchUnion
    dsimp only
    split
    · exact hchoice ..
    · exact hmismatch
  | oneOf span => exact absurd rfl (hplain span _)
  | function => exact hmismatch

theorem reorders_matchPlain (schema : Schema) (hi : ReordersMatches inner)
    (hf : ReordersFields field) (label : String) (t : Ty) (path : String) (siblings : Siblings)
    (h : shape.Reorders shape') (hplain : ∀ span branches, shape ≠ .oneOf span branches) :
    EndsReorder (matchPlain schema inner field label t shape path siblings)
      (matchPlain schema inner field label t shape' path siblings) := by
  have hmismatch : EndsReorder (some (mismatch label shape path))
      (some (mismatch label shape' path)) := .some (reorders_mismatch h)
  cases t with
  | named name => exact hi h ..
  | scalar kind => exact .some (reorders_matchScalar kind h)
  | literal values => exact .some (reorders_matchLiteral values h)
  | union ts => exact reorders_matchUnion hi hf _ h hplain
  | record name declared =>
    cases h with
    | refl => exact .refl _
    | record span hinner h => exact reorders_matchRecord hf _ span hinner h
    | _ => exact hmismatch
  | map key value =>
    cases h with
    | refl => exact .refl _
    | record span hinner h => exact reorders_fields (fun _ _ {_ _} hs => hf hs ..) hinner h
    | _ => exact hmismatch
  | sequence element acceptsSingle =>
    have hsingle : EndsReorder
        (if acceptsSingle then field element shape path else some (mismatch label shape path))
        (if acceptsSingle then field element shape' path
          else some (mismatch label shape' path)) := by
      split
      · exact hf h ..
      · exact hmismatch
    cases h with
    | refl => exact .refl _
    | tuple span h => exact .joinItems (h.imp fun _ _ hs i => hf hs ..)
    | array span h => exact hf h ..
    | _ => exact hsingle

theorem reordersMatches_matchWithin (schema : Schema) (levels : Nat) :
    ReordersMatches (matchWithin schema levels) := by
  induction levels with
  | zero => exact fun _ _ _ _ _ => .none
  | succ n ih =>
    intro shape shape' h label t path siblings
    have hfield : ReordersFields fun t shape path =>
        matchWithin schema n t.text (schema.resolve t) shape path [] := fun hs _ _ => ih hs ..
    have hplain := reorders_matchPlain schema ih hfield label t path siblings h
    cases h with
    | refl => exact .refl _
    | oneOf span h => exact .joinAll (h.imp fun _ _ hs => ih hs ..)
    | _ => exact hplain (by rintro _ _ ⟨⟩)

end

theorem heightFields_perm {fields fields' : ShapeFields} (h : fields.Perm fields') :
    heightFields fields = heightFields fields' := by
  induction h with
  | nil => rfl
  | cons f _ ih => rw [heightFields, heightFields, ih]
  | swap f g fields =>
    simp only [heightFields]
    omega
  | trans _ _ ih ih' => exact ih.trans ih'

mutual

theorem height_reorders : ∀ {shape shape' : Shape}, shape.Reorders shape' →
    height shape = height shape'
  | _, _, .refl _ => rfl
  | _, _, .record _ hinner h => by
    rw [height, height, heightFields_reorders hinner, heightFields_perm h]
  | _, _, .tuple _ h => by rw [height, height, heightList_reorders h]
  | _, _, .array _ h => by rw [height, height, height_reorders h]
  | _, _, .oneOf _ h => by rw [height, height, heightList_reorders h]
  | _, _, .function .. => rfl

theorem heightList_reorders : ∀ {shapes shapes' : List Shape},
    Forall₂ Reorders shapes shapes' → heightList shapes = heightList shapes'
  | _, _, .nil => rfl
  | _, _, .cons h hrest => by
    rw [heightList, heightList, height_reorders h, heightList_reorders hrest]

theorem heightFields_reorders : ∀ {fields fields' : ShapeFields},
    Forall₂ FieldReorders fields fields' → heightFields fields = heightFields fields'
  | _, _, .nil => rfl
  | _, _, .cons (.mk _ _ h) hrest => by
    rw [heightFields, heightFields, height_reorders h, heightFields_reorders hrest]

end

/-- The order of the fields of objects is irrelevant to matching. Matchings of a value and of one
that is reordered both end or do not, within the same levels, and find the same alternatives and
the same errors but for what they say was found. -/
theorem conform_reorders (schema : Schema) (t : Ty) {shape shape' : Shape} (path : String)
    (h : shape.Reorders shape') :
    (Finishes schema t shape path ↔ Finishes schema t shape' path) ∧
    (∀ levels, EndsReorder (conformWithin schema levels t shape path)
      (conformWithin schema levels t shape' path)) ∧
    (conform schema t shape path).Reorders (conform schema t shape' path) := by
  have hends (levels : Nat) : EndsReorder (conformWithin schema levels t shape path)
      (conformWithin schema levels t shape' path) := reordersMatches_matchWithin schema levels h ..
  have hlevels : levelsFor schema t shape' = levelsFor schema t shape := by
    rw [levelsFor, levelsFor, height_reorders h]
  refine ⟨exists_congr fun levels => (hends levels).isSome_iff, hends, ?_⟩
  rw [conform, conform, hlevels]
  exact (hends _).getD (reorders_mismatch h)

/-- Steps with one text, or with a second part. -/
def choices : Source := ⟨"choices.d.ts",
  "type Step = \x7b a: string \x7d | \x7b a: string; b?: string | number \x7d;" ++
    " declare var r: Step[];"⟩

def choicesSchema : Schema where
  types := [⟨"Step", .union
    [.record none [(⟨"a", false, none, ⟨14, 15⟩⟩, .scalar .string)],
      .record none [(⟨"a", false, none, ⟨30, 31⟩⟩, .scalar .string),
        (⟨"b", true, none, ⟨41, 42⟩⟩, .union [.scalar .string, .scalar .number])]],
    none, "choices.d.ts", ⟨5, 9⟩⟩]
  constants := []
  root := ⟨"r", .sequence (.named "Step") false, "choices.d.ts", ⟨76, 77⟩⟩

/-- Two steps that both have the second part. One lacks the text and has a part that no step has. -/
def choicesShape : Shape :=
  .tuple ⟨4, 40⟩ [
    .record ⟨5, 20⟩ [("b", ⟨6, 7⟩, .null ⟨9, 13⟩), ("c", ⟨15, 16⟩, .null ⟨18, 19⟩)],
    .record ⟨22, 38⟩ [("a", ⟨23, 24⟩, .string ⟨26, 29⟩ (some "x")),
      ("b", ⟨31, 32⟩, .number ⟨34, 35⟩ none)]]

/-- The same steps with the parts of each in the other order. -/
def choicesSwapped : Shape :=
  .tuple ⟨4, 40⟩ [
    .record ⟨5, 20⟩ [("c", ⟨15, 16⟩, .null ⟨18, 19⟩), ("b", ⟨6, 7⟩, .null ⟨9, 13⟩)],
    .record ⟨22, 38⟩ [("b", ⟨31, 32⟩, .number ⟨34, 35⟩ none),
      ("a", ⟨23, 24⟩, .string ⟨26, 29⟩ (some "x"))]]

theorem choicesShape_reorders : choicesShape.Reorders choicesSwapped := by
  have hswap (span : Span) (f g : String × Span × Shape) :
      Reorders (.record span [f, g]) (.record span [g, f]) :=
    .record span (List.forall₂_same.2 fun f _ => .mk f.1 f.2.1 (.refl f.2.2)) (.swap g f [])
  exact .tuple _ (.cons (hswap ..) (.cons (hswap ..) .nil))

/-- Three errors and two alternatives, found in another order. -/
theorem conform_reorders_swapped :
    Schema.load .standard [choices] = .ok choicesSchema ∧
    choicesShape.Reorders choicesSwapped ∧
    (conform choicesSchema choicesSchema.root.type choicesShape "r").errors.length = 3 ∧
    (conform choicesSchema choicesSchema.root.type choicesShape "r").errors ≠
      (conform choicesSchema choicesSchema.root.type choicesSwapped "r").errors ∧
    Finishes choicesSchema choicesSchema.root.type choicesSwapped "r" ∧
    (conform choicesSchema choicesSchema.root.type choicesShape "r").Reorders
      (conform choicesSchema choicesSchema.root.type choicesSwapped "r") := by
  have hload : Schema.load .standard [choices] = .ok choicesSchema := by cbv
  obtain ⟨hfinishes, -, hreorders⟩ :=
    conform_reorders choicesSchema choicesSchema.root.type "r" choicesShape_reorders
  exact ⟨hload, choicesShape_reorders, rfl, by decide, hfinishes.1 ⟨9, rfl⟩, hreorders⟩

end Match

end TypedConfig
