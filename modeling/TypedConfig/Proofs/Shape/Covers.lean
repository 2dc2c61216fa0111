import TypedConfig.Proofs.Shape.Describes

/-! # The data that a shape stands for

A shape stands for every datum that agrees with what is known of it: a scalar by its kind and its
value, where the shape has one, and an object by its keys, in whatever order they come. A shape
that describes a datum stands for it. Nothing is said of an unknown shape, which stands in the
place of a failure.
-/

namespace TypedConfig.Shape

mutual

/-- Whether a datum is one that a shape stands for. A constant counts as its literal. -/
def Covers : Shape → Datum → Prop
  | .string _ known, d => ∃ v, d.scalar? = some (.string v) ∧ ∀ k ∈ known, k = v
  | .number _ known, d => ∃ v, d.scalar? = some (.number v) ∧ ∀ k ∈ known, k = v
  | .boolean _ known, d => ∃ v, d.scalar? = some (.boolean v) ∧ ∀ k ∈ known, k = v
  | .sentinel _ c, d => d.scalar? = some c.literal
  | .record _ fields, d => ∃ entries, d = .object entries ∧
      (∀ key, key ∈ Entries.keys entries ↔ key ∈ Entries.keys fields) ∧
      ∀ e ∈ entries, CoversField fields e.1 e.2
  | .tuple _ items, d => ∃ ds, d = .array ds ∧ CoversAll items ds
  | .array _ element, d => ∃ ds, d = .array ds ∧ ∀ x ∈ ds, Covers element x
  | .function .., d => ∃ params body captured, d = .function params body captured
  | .null _, d => d = .null
  | .undefined _, d => d = .undefined
  | .oneOf _ branches, d => CoversSome branches d
  | .unknown _, _ => False

def CoversField : List (String × Span × Shape) → String → Datum → Prop
  | [], _, _ => False
  | (name, _, shape) :: fields, key, d => (name = key ∧ Covers shape d) ∨ CoversField fields key d

def CoversAll : List Shape → List Datum → Prop
  | [], ds => ds = []
  | shape :: shapes, ds => ∃ d rest, ds = d :: rest ∧ Covers shape d ∧ CoversAll shapes rest

def CoversSome : List Shape → Datum → Prop
  | [], _ => False
  | shape :: shapes, d => Covers shape d ∨ CoversSome shapes d

end

variable {lax : Prop} {shape : Shape} {d : Datum}

theorem coversField_iff {fields : ShapeFields} {key : String} :
    CoversField fields key d ↔ ∃ f ∈ fields, f.1 = key ∧ Covers f.2.2 d := by
  induction fields with
  | nil => simp [CoversField]
  | cons f fields ih => simp [CoversField, ih]

theorem coversAll_iff {shapes : List Shape} {ds : List Datum} :
    CoversAll shapes ds ↔ List.Forall₂ Covers shapes ds := by
  induction shapes generalizing ds with
  | nil => simp [CoversAll]
  | cons shape shapes ih =>
    simp only [CoversAll, List.forall₂_cons_left_iff, ih]
    constructor
    · rintro ⟨d, rest, rfl, hd, hr⟩
      exact ⟨d, rest, hd, hr, rfl⟩
    · rintro ⟨d, rest, hd, hr, rfl⟩
      exact ⟨d, rest, rfl, hd, hr⟩

theorem coversSome_iff {shapes : List Shape} :
    CoversSome shapes d ↔ ∃ shape ∈ shapes, Covers shape d := by
  induction shapes with
  | nil => simp [CoversSome]
  | cons shape shapes ih => simp [CoversSome, ih]

theorem scalar?_of_covers (h : Covers shape d) {x : Scalar} (hx : shape.scalar? = some x) :
    d.scalar? = some x := by
  cases shape with
  | string _ known | number _ known | boolean _ known =>
    obtain ⟨v, hd, hk⟩ := h
    cases known with
    | none => cases hx
    | some k =>
      cases hx
      rw [hd, hk k rfl]
  | sentinel _ c =>
    cases hx
    exact h
  | _ => cases hx

theorem kind?_of_covers (h : Covers shape d) {k : ScalarKind} (hk : shape.kind? = some k) :
    ∃ x, d.scalar? = some x ∧ x.kind = k := by
  cases shape with
  | string _ known | number _ known | boolean _ known =>
    obtain ⟨v, hd, -⟩ := h
    cases hk
    exact ⟨_, hd, rfl⟩
  | sentinel _ c =>
    cases hk
    exact ⟨_, h, rfl⟩
  | _ => cases hk

theorem elements?_of_covers (h : Covers shape d) {items : List Shape} {known : Bool}
    (hr : shape.elements? = some (items, known)) :
    ∃ ds, d = .array ds ∧ ∀ x ∈ ds, ∃ s ∈ items, Covers s x := by
  cases shape with
  | tuple _ items =>
    obtain ⟨ds, hd, hi⟩ := h
    cases hr
    have hi := coversAll_iff.1 hi
    refine ⟨ds, hd, fun x hx => ?_⟩
    obtain ⟨i, hl, rfl⟩ := List.getElem_of_mem hx
    exact ⟨_, List.getElem_mem (hi.length_eq ▸ hl), hi.get _ _⟩
  | array _ element =>
    obtain ⟨ds, hd, he⟩ := h
    cases hr
    exact ⟨ds, hd, fun x hx => ⟨element, List.mem_singleton_self _, he x hx⟩⟩
  | _ => cases hr

mutual

/-- What a shape describes it stands for. -/
theorem covers_of_describes : ∀ shape {d}, Describes lax shape d → Covers shape d
  | .string _ known, _, ⟨v, hd, hk⟩ | .number _ known, _, ⟨v, hd, hk⟩
  | .boolean _ known, _, ⟨v, hd, hk⟩ => by
    subst hd
    refine ⟨v, rfl, fun k hm => ?_⟩
    rcases hk with hk | ⟨-, hk⟩ <;> simp_all
  | .sentinel .., _, hd => by
    subst hd
    rfl
  | .record _ fields, _, ⟨entries, hd, hf⟩ => by
    obtain ⟨hk, he⟩ := covers_of_describesFields fields hf
    exact ⟨entries, hd, fun key => by rw [hk], he⟩
  | .tuple _ items, _, ⟨ds, hd, hi⟩ => ⟨ds, hd, covers_of_describesAll items hi⟩
  | .array _ element, _, ⟨_, ds, hd, he⟩ =>
    ⟨ds, hd, fun x hx => covers_of_describes element (he x hx)⟩
  | .function .., _, ⟨frames, hd, _⟩ => ⟨_, _, frames, hd⟩
  | .null _, _, hd | .undefined _, _, hd => hd
  | .oneOf _ branches, _, ⟨_, hs⟩ => covers_of_describesSome branches hs

theorem covers_of_describesFields : ∀ fields {entries}, DescribesFields lax fields entries →
    Entries.keys entries = Entries.keys fields ∧ ∀ e ∈ entries, CoversField fields e.1 e.2
  | [], _, hd => by
    subst hd
    exact ⟨rfl, nofun⟩
  | (key, _, shape) :: fields, _, ⟨d, rest, hd, hs, hr⟩ => by
    subst hd
    obtain ⟨hk, he⟩ := covers_of_describesFields fields hr
    refine ⟨congrArg (key :: ·) hk, List.forall_mem_cons.2 ⟨?_, fun e hm => .inr (he e hm)⟩⟩
    exact .inl ⟨rfl, covers_of_describes shape hs⟩

theorem covers_of_describesAll : ∀ shapes {ds}, DescribesAll lax shapes ds → CoversAll shapes ds
  | [], _, hd => hd
  | shape :: shapes, _, ⟨d, rest, hd, hs, hr⟩ =>
    ⟨d, rest, hd, covers_of_describes shape hs, covers_of_describesAll shapes hr⟩

theorem covers_of_describesSome : ∀ shapes {d}, DescribesSome lax shapes d → CoversSome shapes d
  | shape :: _, _, .inl hs => .inl (covers_of_describes shape hs)
  | _ :: shapes, _, .inr hs => .inr (covers_of_describesSome shapes hs)

end

end TypedConfig.Shape
