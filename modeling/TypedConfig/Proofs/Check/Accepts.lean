import TypedConfig.Proofs.Check.Match

/-! # What matching accepts

Whether a matching that ends finds no error depends on the type and the shape only: it does not
depend on the levels, the label, the path, or the alternatives that an error would name. So it is
a relation between types and shapes, with one rule for each way in which a shape is accepted.
-/

namespace TypedConfig.Match

variable {schema : Schema} {t : Ty} {shape : Shape} {label path : String} {siblings : Siblings}
  {o : Outcome} {n : Nat}

/-- The shapes that a type accepts, where its names have been followed. The alternative of a union
is chosen by the form of the shape; one that is chosen has to accept it. -/
inductive Accepts (schema : Schema) : Ty → Shape → Prop
  | unknown {t : Ty} {span : Span} : Accepts schema t (.unknown span)
  | oneOf {t : Ty} {span : Span} {branches : List Shape}
    (h : ∀ b ∈ branches, Accepts schema t b) : Accepts schema t (.oneOf span branches)
  | named {name : String} {shape : Shape}
    (h : Accepts schema (schema.resolve (.named name)) shape) : Accepts schema (.named name) shape
  | scalar {kind : ScalarKind} {shape : Shape} (h : shape.kind? = some kind) :
    Accepts schema (.scalar kind) shape
  | literal {values : List Scalar} {shape : Shape} {x : Scalar} (hx : shape.scalar? = some x)
    (h : Ty.admitsLiteral values x = true) : Accepts schema (.literal values) shape
  | record {name : Option String} {declared : TyFields} {span : Span} {fields : ShapeFields}
    (required : ∀ f ∈ TyFields.required declared, Entries.contains fields f.1.name = true)
    (declares : ∀ f ∈ fields, TyFields.declares declared f.1 = true)
    (types : ∀ f ∈ fields, ∀ g, TyFields.field? declared f.1 = some g →
      Accepts schema (schema.resolve g.2) f.2.2) :
    Accepts schema (.record name declared) (.record span fields)
  | map {keyName : String} {value : Ty} {span : Span} {fields : ShapeFields}
    (values : ∀ f ∈ fields, Accepts schema (schema.resolve value) f.2.2) :
    Accepts schema (.map keyName value) (.record span fields)
  | tuple {element : Ty} {acceptsSingle : Bool} {span : Span} {items : List Shape}
    (elements : ∀ i ∈ items, Accepts schema (schema.resolve element) i) :
    Accepts schema (.sequence element acceptsSingle) (.tuple span items)
  | array {element : Ty} {acceptsSingle : Bool} {span : Span} {item : Shape}
    (h : Accepts schema (schema.resolve element) item) :
    Accepts schema (.sequence element acceptsSingle) (.array span item)
  | single {element : Ty} {shape : Shape} (alone : shape.elements? = none)
    (one : ∀ span branches, shape ≠ .oneOf span branches)
    (h : Accepts schema (schema.resolve element) shape) :
    Accepts schema (.sequence element true) shape
  | chosenRecord {ts : List Ty} {span : Span} {fields : ShapeFields} {a : String × Ty}
    (ha : (schema.flatten (.union ts)).find? (fun a => fitsKeys fields a.2) = some a)
    (h : Accepts schema a.2 (.record span fields)) :
    Accepts schema (.union ts) (.record span fields)
  | chosenSequence {ts : List Ty} {shape : Shape} {a : String × Ty}
    (sequence : shape.elements?.isSome = true)
    (ha : (schema.flatten (.union ts)).find? (fun a => isSequence a.2) = some a)
    (h : Accepts schema a.2 shape) : Accepts schema (.union ts) shape
  | chosenScalar {ts : List Ty} {shape : Shape} {a : String × Ty}
    (scalar : shape.kind?.isSome = true) (ha : a ∈ schema.flatten (.union ts))
    (h : Accepts schema a.2 shape) : Accepts schema (.union ts) shape

theorem kind?_of_scalar? {x : Scalar} (h : shape.scalar? = some x) : shape.kind?.isSome = true := by
  cases shape <;> first | rfl | cases h

/-- A scalar has no elements. -/
theorem elements?_of_kind? (h : shape.kind?.isSome = true) : ¬ shape.elements?.isSome = true := by
  cases shape with
  | tuple | array => cases h
  | _ => exact nofun

/-- Whether a shape is neither unknown nor one of several. -/
structure Plain (shape : Shape) : Prop where
  known : ∀ span, shape ≠ .unknown span
  one : ∀ span branches, shape ≠ .oneOf span branches

namespace Accepts

theorem branches (h : Accepts schema t shape) {span : Span} {branches : List Shape}
    (hs : shape = .oneOf span branches) : ∀ b ∈ branches, Accepts schema t b := by
  induction h with
  | oneOf h =>
    cases hs
    exact h
  | named _ ih => exact fun b hb => .named (ih hs b hb)
  | single _ one => exact (one _ _ hs).elim
  | scalar hk | literal hk | chosenSequence hk | chosenScalar hk =>
    subst hs
    cases hk
  | _ => cases hs

theorem named_iff (hp : Plain shape) {name : String} :
    Accepts schema (.named name) shape ↔ Accepts schema (schema.resolve (.named name)) shape := by
  refine ⟨fun h => ?_, .named⟩
  cases h with
  | unknown => exact (hp.known _ rfl).elim
  | oneOf => exact (hp.one _ _ rfl).elim
  | named h => exact h

theorem scalar_iff (hp : Plain shape) {kind : ScalarKind} :
    Accepts schema (.scalar kind) shape ↔ shape.kind? = some kind := by
  refine ⟨fun h => ?_, .scalar⟩
  cases h with
  | unknown => exact (hp.known _ rfl).elim
  | oneOf => exact (hp.one _ _ rfl).elim
  | scalar h => exact h

theorem literal_iff (hp : Plain shape) {values : List Scalar} :
    Accepts schema (.literal values) shape ↔
      ∃ x, shape.scalar? = some x ∧ Ty.admitsLiteral values x = true := by
  refine ⟨fun h => ?_, fun ⟨x, hx, h⟩ => .literal hx h⟩
  cases h with
  | unknown => exact (hp.known _ rfl).elim
  | oneOf => exact (hp.one _ _ rfl).elim
  | literal hx h => exact ⟨_, hx, h⟩

section

variable {span : Span} {fields : ShapeFields} {name : Option String} {declared : TyFields}
  {keyName : String} {value element : Ty} {acceptsSingle : Bool}

theorem record_iff : Accepts schema (.record name declared) (.record span fields) ↔
    (∀ f ∈ TyFields.required declared, Entries.contains fields f.1.name = true) ∧
      ∀ f ∈ fields, ∃ g, TyFields.field? declared f.1 = some g ∧
        Accepts schema (schema.resolve g.2) f.2.2 := by
  constructor
  · intro h
    cases h with
    | record required declares types =>
      refine ⟨required, fun f hf => ?_⟩
      obtain ⟨g, hg⟩ := Option.isSome_iff_exists.1 (declares f hf)
      exact ⟨g, hg, types f hf g hg⟩
  · rintro ⟨required, types⟩
    refine .record required (fun f hf => ?_) fun f hf g hg => ?_
    · obtain ⟨g, hg, -⟩ := types f hf
      rw [TyFields.declares, hg]
      rfl
    · obtain ⟨g', hg', h⟩ := types f hf
      rw [hg] at hg'
      cases hg'
      exact h

theorem isRecord_of_record (hp : Plain shape) (h : Accepts schema (.record name declared) shape) :
    ∃ span fields, shape = .record span fields := by
  cases h with
  | unknown => exact (hp.known _ rfl).elim
  | oneOf => exact (hp.one _ _ rfl).elim
  | record => exact ⟨_, _, rfl⟩

theorem map_iff : Accepts schema (.map keyName value) (.record span fields) ↔
    ∀ f ∈ fields, Accepts schema (schema.resolve value) f.2.2 := by
  refine ⟨fun h => ?_, .map⟩
  cases h with
  | map values => exact values

theorem isRecord_of_map (hp : Plain shape) (h : Accepts schema (.map keyName value) shape) :
    ∃ span fields, shape = .record span fields := by
  cases h with
  | unknown => exact (hp.known _ rfl).elim
  | oneOf => exact (hp.one _ _ rfl).elim
  | map => exact ⟨_, _, rfl⟩

theorem tuple_iff {items : List Shape} :
    Accepts schema (.sequence element acceptsSingle) (.tuple span items) ↔
      ∀ i ∈ items, Accepts schema (schema.resolve element) i := by
  refine ⟨fun h => ?_, .tuple⟩
  cases h with
  | tuple elements => exact elements
  | single alone => cases alone

theorem array_iff {item : Shape} :
    Accepts schema (.sequence element acceptsSingle) (.array span item) ↔
      Accepts schema (schema.resolve element) item := by
  refine ⟨fun h => ?_, .array⟩
  cases h with
  | array h => exact h
  | single alone => cases alone

theorem single_iff (hp : Plain shape) (hs : shape.elements? = none) :
    Accepts schema (.sequence element acceptsSingle) shape ↔
      acceptsSingle = true ∧ Accepts schema (schema.resolve element) shape := by
  constructor
  · intro h
    cases h with
    | unknown => exact (hp.known _ rfl).elim
    | oneOf => exact (hp.one _ _ rfl).elim
    | tuple => cases hs
    | array => cases hs
    | single _ _ h => exact ⟨rfl, h⟩
  · rintro ⟨rfl, h⟩
    exact .single hs hp.one h

end

variable {ts : List Ty}

theorem union_record_iff {span : Span} {fields : ShapeFields} :
    Accepts schema (.union ts) (.record span fields) ↔
      ∃ a, (schema.flatten (.union ts)).find? (fun a => fitsKeys fields a.2) = some a ∧
        Accepts schema a.2 (.record span fields) := by
  refine ⟨fun h => ?_, fun ⟨a, ha, h⟩ => .chosenRecord ha h⟩
  cases h with
  | chosenRecord ha h => exact ⟨_, ha, h⟩
  | chosenSequence hs => cases hs
  | chosenScalar hs => cases hs

theorem union_sequence_iff (hs : shape.elements?.isSome = true) :
    Accepts schema (.union ts) shape ↔
      ∃ a, (schema.flatten (.union ts)).find? (fun a => isSequence a.2) = some a ∧
        Accepts schema a.2 shape := by
  refine ⟨fun h => ?_, fun ⟨a, ha, h⟩ => .chosenSequence hs ha h⟩
  cases h with
  | chosenSequence _ ha h => exact ⟨_, ha, h⟩
  | chosenScalar hk => exact (elements?_of_kind? hk hs).elim
  | _ => cases hs

theorem union_scalar_iff (hk : shape.kind?.isSome = true) :
    Accepts schema (.union ts) shape ↔
      ∃ a ∈ schema.flatten (.union ts), Accepts schema a.2 shape := by
  refine ⟨fun h => ?_, fun ⟨a, ha, h⟩ => .chosenScalar hk ha h⟩
  cases h with
  | chosenScalar _ ha h => exact ⟨_, ha, h⟩
  | chosenSequence hs => exact (elements?_of_kind? hk hs).elim
  | _ => cases hk

end Accepts

theorem joinAll_accepts {α : Type} {f : α → Option Outcome} {P : α → Prop} {as : List α}
    (h : joinAll f as = some o) (hP : ∀ a ∈ as, ∀ o, f a = some o → (o.errors = [] ↔ P a)) :
    o.errors = [] ↔ ∀ a ∈ as, P a := by
  induction as generalizing o with
  | nil =>
    cases h
    exact ⟨fun _ => nofun, fun _ => rfl⟩
  | cons a as ih =>
    simp only [joinAll, Option.bind_eq_bind, Option.bind_eq_some_iff] at h
    obtain ⟨first, hf, rest, hr, ho⟩ := h
    cases ho
    rw [List.forall_mem_cons] at hP
    rw [errors_append_nil, List.forall_mem_cons, hP.1 first hf, ih hr hP.2]

theorem joinItems_accepts {f : Nat → Shape → Option Outcome} {P : Shape → Prop} {i : Nat}
    {shapes : List Shape} (h : joinItems f i shapes = some o)
    (hP : ∀ s ∈ shapes, ∀ j o, f j s = some o → (o.errors = [] ↔ P s)) :
    o.errors = [] ↔ ∀ s ∈ shapes, P s := by
  induction shapes generalizing i o with
  | nil =>
    cases h
    exact ⟨fun _ => nofun, fun _ => rfl⟩
  | cons s shapes ih =>
    simp only [joinItems, Option.bind_eq_bind, Option.bind_eq_some_iff] at h
    obtain ⟨first, hf, rest, hr, ho⟩ := h
    cases ho
    rw [List.forall_mem_cons] at hP
    rw [errors_append_nil, List.forall_mem_cons, hP.1 i first hf, ih hr hP.2]

theorem firstAccepting_accepts {inner : String × Ty → Option Outcome} {P : String × Ty → Prop}
    {alternatives : List (String × Ty)} {first : Option (String × Outcome)}
    (h : firstAccepting inner alternatives = some first)
    (hP : ∀ a ∈ alternatives, ∀ o, inner a = some o → (o.errors = [] ↔ P a)) :
    (first.isSome ↔ ∃ a ∈ alternatives, P a) ∧ ∀ f ∈ first, f.2.errors = [] := by
  induction alternatives with
  | nil =>
    cases h
    exact ⟨⟨Bool.noConfusion, by rintro ⟨_, ⟨⟩, _⟩⟩, by rintro _ ⟨⟩⟩
  | cons a as ih =>
    simp only [firstAccepting, Option.bind_eq_bind, Option.bind_eq_some_iff] at h
    obtain ⟨o, ho, h⟩ := h
    rw [List.forall_mem_cons] at hP
    have hiff := hP.1 o ho
    split at h
    · cases h
      have he : o.errors = [] := List.isEmpty_iff.1 ‹_›
      refine ⟨⟨fun _ => ⟨a, List.mem_cons_self, hiff.1 he⟩, fun _ => rfl⟩, ?_⟩
      rintro _ ⟨⟩
      exact he
    · rename_i hne
      have ha : ¬ P a := fun hp => hne (List.isEmpty_iff.2 (hiff.2 hp))
      obtain ⟨hsome, herrors⟩ := ih h hP.2
      refine ⟨hsome.trans ⟨?_, ?_⟩, herrors⟩
      · rintro ⟨b, hb, hp⟩
        exact ⟨b, List.mem_cons_of_mem _ hb, hp⟩
      · rintro ⟨b, hb, hp⟩
        rcases List.mem_cons.1 hb with rfl | hb
        · exact (ha hp).elim
        · exact ⟨b, hb, hp⟩

theorem mismatch_ne_nil : (mismatch label shape path).errors ≠ [] := List.cons_ne_nil _ _

theorem matchScalar_accepts {kind : ScalarKind} :
    (matchScalar label kind shape path).errors = [] ↔ shape.kind? = some kind := by
  unfold matchScalar
  split
  · exact ⟨fun _ => ‹_›, fun _ => rfl⟩
  · exact ⟨fun h => (mismatch_ne_nil h).elim, fun h => absurd h ‹_›⟩

theorem matchLiteral_accepts {values : List Scalar} :
    (matchLiteral label values shape path).errors = [] ↔
      ∃ x, shape.scalar? = some x ∧ Ty.admitsLiteral values x = true := by
  unfold matchLiteral
  split
  · rename_i x hx
    rw [hx]
    split
    · exact ⟨fun _ => ⟨x, rfl, ‹_›⟩, fun _ => rfl⟩
    · refine ⟨fun h => (mismatch_ne_nil h).elim, ?_⟩
      rintro ⟨_, ⟨⟩, h⟩
      contradiction
  · rename_i hx
    rw [hx]
    refine ⟨fun h => ?_, nofun⟩
    split at h <;> cases h

/-- A matcher of fields that finds no error where a relation holds. -/
def FieldAccepts (field : Ty → Shape → String → Option Outcome) (P : Ty → Shape → Prop) : Prop :=
  ∀ t shape path o, field t shape path = some o → (o.errors = [] ↔ P t shape)

theorem matchRecord_accepts {field : Ty → Shape → String → Option Outcome}
    {P : Ty → Shape → Prop} (hP : FieldAccepts field P) {declared : TyFields} {span : Span}
    {fields : ShapeFields}
    (h : matchRecord field label declared (.record span fields) path siblings = some o) :
    o.errors = [] ↔
      (∀ f ∈ TyFields.required declared, Entries.contains fields f.1.name = true) ∧
        ∀ f ∈ fields, ∃ g, TyFields.field? declared f.1 = some g ∧ P g.2 f.2.2 := by
  simp only [matchRecord, Option.bind_eq_bind, Option.bind_eq_some_iff] at h
  obtain ⟨rest, hr, ho⟩ := h
  cases ho
  rw [errors_append_nil, joinAll_accepts hr]
  · refine and_congr ?_ Iff.rfl
    simp [List.filter_eq_nil_iff]
  · intro f hf o ho
    split at ho
    · rename_i g t hg
      rw [hP _ _ _ _ ho, hg]
      exact ⟨fun hp => ⟨_, rfl, hp⟩, by rintro ⟨_, ⟨⟩, hp⟩; exact hp⟩
    · rename_i hg
      cases ho
      rw [hg]
      exact ⟨fun h => (List.cons_ne_nil _ _ h).elim, by rintro ⟨_, ⟨⟩, _⟩⟩

theorem fitsKeys_of_accepts {name : Option String} {declared : TyFields} {fields : ShapeFields}
    (required : ∀ f ∈ TyFields.required declared, Entries.contains fields f.1.name = true)
    (declares : ∀ f ∈ fields, TyFields.declares declared f.1 = true) :
    fitsKeys fields (.record name declared) = true := by
  rw [fitsKeys, Bool.and_eq_true]
  exact ⟨List.all_eq_true.2 required, List.all_eq_true.2 declares⟩

/-- A matcher that finds no error where the type accepts the shape. -/
def ExactMatcher (schema : Schema) (inner : Matcher) : Prop :=
  ∀ label t shape path siblings o, inner label t shape path siblings = some o →
    (o.errors = [] ↔ Accepts schema t shape)

/-- A record that a record type accepts has the keys that the type asks for. -/
theorem not_accepts_of_find? {field : Ty → Shape → String → Option Outcome}
    {P : Ty → Shape → Prop} (hP : FieldAccepts field P) {alternatives : List (String × Ty)}
    {span : Span} {fields : ShapeFields} {label : String} {declared : TyFields}
    (hfind : alternatives.find? (fun a => fitsKeys fields a.2) = none)
    (hm : (label, declared) ∈ recordsOf alternatives)
    (h : matchRecord field label declared (.record span fields) path siblings = some o) :
    o.errors ≠ [] := by
  intro he
  obtain ⟨required, types⟩ := (matchRecord_accepts hP h).1 he
  obtain ⟨name, hm⟩ := mem_recordsOf hm
  refine List.find?_eq_none.1 hfind _ hm (fitsKeys_of_accepts required fun f hf => ?_)
  obtain ⟨g, hg, -⟩ := types f hf
  rw [TyFields.declares, hg]
  rfl

/-- A matching against the first alternative of a form. -/
theorem found_accepts {inner : Matcher} (hinner : ExactMatcher schema inner)
    {p : String × Ty → Bool} {alternatives : List (String × Ty)} {r : String → Resolution}
    {other : Option Outcome} (siblings : String → Siblings)
    (hother : alternatives.find? p = none → ∀ o, other = some o → o.errors ≠ [])
    (h : (match alternatives.find? p with
      | some (name, t) => do
        let o ← inner name t shape path (siblings name)
        return Outcome.ofResolution (r name) ++ o
      | none => other) = some o) :
    o.errors = [] ↔ ∃ a, alternatives.find? p = some a ∧ Accepts schema a.2 shape := by
  split at h
  · rename_i name t hfind
    simp only [Option.bind_eq_bind, Option.bind_eq_some_iff] at h
    obtain ⟨o', ho', h⟩ := h
    cases h
    rw [errors_append_nil, hinner _ _ _ _ _ _ ho', hfind]
    exact ⟨fun ha => ⟨_, rfl, ha.2⟩, by rintro ⟨_, ⟨⟩, ha⟩; exact ⟨rfl, ha⟩⟩
  · rename_i hfind
    rw [hfind]
    exact ⟨fun he => (hother hfind o h he).elim, nofun⟩

theorem matchUnion_accepts {inner : Matcher} {field : Ty → Shape → String → Option Outcome}
    {ts : List Ty} (hinner : ExactMatcher schema inner)
    (hfield : FieldAccepts field fun t shape => Accepts schema (schema.resolve t) shape)
    (hp : Plain shape)
    (h : matchUnion inner field label (schema.flatten (.union ts)) shape path = some o) :
    o.errors = [] ↔ Accepts schema (.union ts) shape := by
  have hmismatch : ∀ o, some (mismatch label shape path) = some o → o.errors ≠ [] := by
    rintro _ ⟨⟩
    exact mismatch_ne_nil
  cases shape with
  | unknown span => exact (hp.known span rfl).elim
  | oneOf span branches => exact (hp.one span branches rfl).elim
  | record span fields =>
    rw [Accepts.union_record_iff]
    refine found_accepts hinner _ (fun hfind o h => ?_) h
    split at h
    · rename_i name declared hclosest
      exact not_accepts_of_find? hfield hfind (mem_closest hclosest) h
    · exact hmismatch o h
  | tuple | array =>
    rw [Accepts.union_sequence_iff rfl]
    exact found_accepts hinner (fun _ => []) (fun _ => hmismatch) h
  | null | undefined | function =>
    refine ⟨fun he => (hmismatch o h he).elim, fun ha => ?_⟩
    cases ha with
    | chosenSequence hs => cases hs
    | chosenScalar hs => cases hs
  | string | number | boolean | sentinel =>
    rw [Accepts.union_scalar_iff rfl]
    simp only [matchUnion, Option.bind_eq_bind, Option.bind_eq_some_iff] at h
    obtain ⟨first, hfirst, h⟩ := h
    obtain ⟨hiff, herrors⟩ := firstAccepting_accepts hfirst fun a _ o ho => hinner _ _ _ _ _ _ ho
    rw [← hiff]
    cases first with
    | none => exact ⟨fun he => (hmismatch o h he).elim, Bool.noConfusion⟩
    | some f =>
      cases h
      exact ⟨fun _ => rfl, fun _ => errors_append_nil.2 ⟨rfl, herrors f rfl⟩⟩

/-- A matching that ends finds no error where the type accepts the shape. -/
theorem matchWithin_accepts (n : Nat) : ExactMatcher schema (matchWithin schema n) := by
  induction n with
  | zero => exact nofun
  | succ n ih =>
    intro label t shape path siblings o h
    have hfield : FieldAccepts (fun t shape path =>
        matchWithin schema n t.text (schema.resolve t) shape path [])
        fun t shape => Accepts schema (schema.resolve t) shape :=
      fun t shape path o h => ih _ _ _ _ _ _ h
    have hmismatch {P : Prop} (hP : ¬ P) (h : some (mismatch label shape path) = some o) :
        o.errors = [] ↔ P := by
      cases h
      exact ⟨fun he => (mismatch_ne_nil he).elim, fun ha => (hP ha).elim⟩
    unfold matchWithin at h
    dsimp only at h
    split at h
    · cases h
      exact ⟨fun _ => .unknown, fun _ => rfl⟩
    · rw [joinAll_accepts h fun b _ o ho => ih _ _ _ _ _ _ ho]
      exact ⟨.oneOf, fun ha => ha.branches rfl⟩
    · have hp : Plain shape := ⟨‹_›, ‹_›⟩
      split at h
      · rw [ih _ _ _ _ _ _ h, Accepts.named_iff hp]
      · cases h
        rw [matchScalar_accepts, Accepts.scalar_iff hp]
      · cases h
        rw [matchLiteral_accepts, Accepts.literal_iff hp]
      · by_cases hrecord : ∃ span fields, shape = .record span fields
        · obtain ⟨span, fields, rfl⟩ := hrecord
          rw [matchRecord_accepts hfield h, Accepts.record_iff]
        · refine hmismatch (fun ha => hrecord (ha.isRecord_of_record hp)) ?_
          unfold matchRecord at h
          split at h
          · exact (hrecord ⟨_, _, rfl⟩).elim
          · exact h
      · split at h
        · rw [joinAll_accepts h fun f _ o ho => hfield _ _ _ _ ho, Accepts.map_iff]
        · rename_i hrecord
          refine hmismatch (fun ha => ?_) h
          obtain ⟨span, fields, hs⟩ := ha.isRecord_of_map hp
          exact hrecord _ _ hs
      · split at h
        · rw [joinItems_accepts h fun s _ _ o ho => hfield _ _ _ _ ho, Accepts.tuple_iff]
        · rw [hfield _ _ _ _ h, Accepts.array_iff]
        · have hs : shape.elements? = none := by cases shape <;> simp_all [Shape.elements?]
          rw [Accepts.single_iff hp hs]
          split at h
          · rw [hfield _ _ _ _ h]
            exact ⟨fun ha => ⟨‹_›, ha⟩, And.right⟩
          · exact hmismatch (fun ha => absurd ha.1 ‹_›) h
      · exact matchUnion_accepts ih hfield hp h

/-- A conforming that ends finds no error where the type that a type resolves to accepts the
shape. -/
theorem conformWithin_accepts (h : conformWithin schema n t shape path = some o) :
    o.errors = [] ↔ Accepts schema (schema.resolve t) shape := matchWithin_accepts _ _ _ _ _ _ _ h

end TypedConfig.Match
