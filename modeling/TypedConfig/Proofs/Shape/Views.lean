import TypedConfig.Proofs.Shape.Describes

/-! # Views of shapes and of the data they describe

What is read off a shape - a scalar, a truth value, a text, elements - is what its datum has, and
where a view leaves something open the reading is lax.
-/

namespace TypedConfig.Shape

variable {lax : Prop} {shape : Shape} {d : Datum}

@[simp] theorem not_describes_unknown (s : Span) : ¬ Describes lax (.unknown s) d := by
  simp [Describes]

theorem isUnknown_of_describes (h : Describes lax shape d) : shape.isUnknown = false := by
  cases shape <;> simp_all [isUnknown]

@[simp] theorem describes_leafAt (s : Span) :
    Describes lax (shape.leafAt s) d ↔ Describes lax shape d := by
  cases shape <;> simp [leafAt, Describes]

theorem scalar?_of_describes (h : Describes lax shape d) {x : Scalar}
    (hx : shape.scalar? = some x) : d.scalar? = some x := by
  cases shape with
  | string _ v | number _ v | boolean _ v =>
    obtain ⟨w, rfl, hw⟩ := h
    cases v with
    | none => simp [scalar?] at hx
    | some v => simp_all [scalar?, Datum.scalar?]
  | sentinel _ c =>
    obtain rfl : d = .sentinel c := h
    exact hx
  | _ => simp [scalar?] at hx

/-- A shape of a known kind describes a scalar, which a strict reading knows. -/
theorem kind?_of_describes (h : Describes lax shape d) {k : ScalarKind}
    (hk : shape.kind? = some k) :
    ∃ x, d.scalar? = some x ∧ x.kind = k ∧ Knows lax shape.scalar? x := by
  cases shape with
  | string _ v | number _ v | boolean _ v =>
    obtain ⟨w, rfl, hw⟩ := h
    cases hk
    refine ⟨_, rfl, rfl, ?_⟩
    cases v <;> simp_all [scalar?]
  | sentinel _ c =>
    obtain rfl : d = .sentinel c := h
    exact ⟨c.literal, rfl, by simpa [kind?] using hk, by simp [scalar?]⟩
  | _ => simp [kind?] at hk

/-- A shape of no known kind that is not one of several describes no scalar. -/
theorem scalar?_of_kind?_none (h : Describes lax shape d) (hk : shape.kind? = none)
    (ho : ∀ s bs, shape ≠ .oneOf s bs) : d.scalar? = none := by
  cases shape with
  | string | number | boolean | sentinel => simp [kind?] at hk
  | record | tuple | function => obtain ⟨_, rfl, _⟩ := h; rfl
  | array => obtain ⟨_, _, rfl, _⟩ := h; rfl
  | null | undefined => cases h; rfl
  | oneOf s bs => exact absurd rfl (ho s bs)
  | unknown => exact h.elim

theorem text?_eq : shape.text? = shape.scalar?.bind fun | .string v => some v | _ => none := by
  cases shape with
  | string _ v | number _ v | boolean _ v => cases v <;> rfl
  | sentinel _ c => rcases hc : c.literal <;> simp [text?, scalar?, hc]
  | _ => rfl

theorem isText_iff : shape.isText = true ↔ shape.kind? = some .string := by simp [isText]

theorem text?_of_describes (h : Describes lax shape d) {t : String} (ht : shape.text? = some t) :
    d.text? = some t := by
  rw [text?_eq] at ht
  rcases hx : shape.scalar? with _ | x
  · simp [hx] at ht
  · rw [hx] at ht
    rw [Datum.text?, scalar?_of_describes h hx]
    cases x <;> simp_all

theorem isText_of_describes (h : Describes lax shape d) (ht : shape.isText = true) :
    ∃ t, d.text? = some t ∧ Knows lax shape.text? t := by
  obtain ⟨x, hx, hk, hs⟩ := kind?_of_describes h (isText_iff.1 ht)
  obtain ⟨t, rfl⟩ : ∃ t, x = .string t := by cases x <;> simp_all [Scalar.kind]
  refine ⟨t, by simp [Datum.text?, hx], ?_⟩
  rw [text?_eq]
  rcases hs with hs | ⟨hl, hs⟩
  · exact .inl (by simp [hs])
  · exact .inr ⟨hl, by simp [hs]⟩

theorem text?_of_not_isText (h : Describes lax shape d) (ht : shape.isText = false)
    (ho : ∀ s bs, shape ≠ .oneOf s bs) : d.text? = none := by
  rcases hk : shape.kind? with _ | k
  · simp [Datum.text?, scalar?_of_kind?_none h hk ho]
  · obtain ⟨x, hx, rfl, -⟩ := kind?_of_describes h hk
    cases x <;> simp_all [Datum.text?, isText, Scalar.kind]

theorem common_eq_some {bs : List (Option Bool)} {b : Bool} (h : common bs = some b) :
    ∀ x ∈ bs, x = some b := by
  match bs, h with
  | some a :: bs, h =>
    simp only [common] at h
    split at h
    · rename_i ha
      cases h
      simpa using ha
    · cases h

theorem scalar_truthiness (h : Describes lax shape d) {k : ScalarKind}
    (hk : shape.kind? = some k) : Knows lax (shape.scalar?.map Scalar.truthy) d.truthy := by
  obtain ⟨x, hx, -, hs⟩ := kind?_of_describes h hk
  have hd : d.truthy = x.truthy := by
    cases d <;> simp_all [Datum.truthy, Datum.scalar?]
  rw [hd]
  exact hs.map _

mutual

theorem truthiness_of_describes : ∀ shape, Describes lax shape d →
    Knows lax shape.truthiness d.truthy
  | .string .., h | .number .., h | .boolean .., h | .sentinel .., h =>
    scalar_truthiness h rfl
  | .record .., ⟨_, hd, _⟩ | .tuple .., ⟨_, hd, _⟩ | .function .., ⟨_, hd, _⟩ => by
    subst hd; exact .inl rfl
  | .array .., ⟨_, _, hd, _⟩ => by subst hd; exact .inl rfl
  | .null _, h | .undefined _, h => by cases h; exact .inl rfl
  | .oneOf _ bs, ⟨hl, h⟩ => by
    rw [truthiness]
    rcases hc : common (truthinesses bs) with _ | b
    · exact .inr ⟨hl, rfl⟩
    · obtain ⟨known, hm, hk⟩ := truthinesses_of_describes bs h
      rw [common_eq_some hc _ hm] at hk
      exact hk
  | .unknown _, h => h.elim

theorem truthinesses_of_describes : ∀ shapes, DescribesSome lax shapes d →
    ∃ known ∈ truthinesses shapes, Knows lax known d.truthy
  | _ :: shapes, .inl h => ⟨_, List.mem_cons_self, truthiness_of_describes _ h⟩
  | _ :: shapes, .inr h => by
    obtain ⟨known, hm, hk⟩ := truthinesses_of_describes shapes h
    exact ⟨known, List.mem_cons_of_mem _ hm, hk⟩

end

/-- A rendering that is right about a datum: the datum is a scalar, whose text the rendering has
unless the reading is lax. -/
def Rendering.Fits (lax : Prop) (d : Datum) : Rendering → Prop
  | .impossible => True
  | .possible => lax ∧ ∃ x, d.scalar? = some x
  | .known t => ∃ x, d.scalar? = some x ∧ x.stringText = t

theorem Rendering.Fits.ofOption {known : Option String} {x : Scalar} (hx : d.scalar? = some x)
    (h : Knows lax known x.stringText) : (Rendering.ofOption known).Fits lax d := by
  rcases h with rfl | ⟨hl, rfl⟩
  · exact ⟨x, hx, rfl⟩
  · exact ⟨hl, x, hx⟩

theorem Rendering.Fits.scalar? {r : Rendering} (h : r.Fits lax d) (hr : r ≠ .impossible) :
    ∃ x, d.scalar? = some x := by
  cases r with
  | impossible => exact absurd rfl hr
  | possible => exact h.2
  | known t => exact ⟨h.choose, h.choose_spec.1⟩

mutual

theorem rendering_of_describes : ∀ shape, Describes lax shape d → shape.rendering.Fits lax d
  | .string _ v, ⟨w, hd, hw⟩ => by
    subst hd
    exact .ofOption (x := .string w) rfl hw
  | .number _ v, ⟨w, hd, hw⟩ => by
    subst hd
    exact .ofOption (x := .number w) rfl (hw.map _)
  | .boolean _ v, ⟨w, hd, hw⟩ => by
    subst hd
    exact .ofOption (x := .boolean w) rfl (hw.map _)
  | .sentinel _ c, h => by cases h; exact ⟨c.literal, rfl, rfl⟩
  | .oneOf _ bs, ⟨hl, h⟩ => by
    rw [rendering]
    split
    · rename_i hb
      exact ⟨hl, allRender_of_describes bs h hb⟩
    · trivial
  | .unknown _, h => h.elim
  | .record .., _ | .tuple .., _ | .array .., _ | .function .., _ | .null _, _
  | .undefined _, _ => trivial

theorem allRender_of_describes : ∀ shapes, DescribesSome lax shapes d → allRender shapes = true →
    ∃ x, d.scalar? = some x
  | shape :: shapes, .inl h, hr => by
    rw [allRender, Bool.and_eq_true] at hr
    refine (rendering_of_describes shape h).scalar? fun hi => ?_
    simp [hi, Rendering.isPossible] at hr
  | shape :: shapes, .inr h, hr => by
    rw [allRender, Bool.and_eq_true] at hr
    exact allRender_of_describes shapes h hr.2

end

theorem rendering_of_kind? (h : Describes lax shape d) {k : ScalarKind}
    (hk : shape.kind? = some k) : ∃ x known, d.scalar? = some x ∧
      shape.rendering = .ofOption known ∧ Knows lax known x.stringText := by
  cases shape with
  | string _ v =>
    obtain ⟨w, rfl, hw⟩ := h
    exact ⟨.string w, v, rfl, rfl, hw⟩
  | number _ v =>
    obtain ⟨w, rfl, hw⟩ := h
    exact ⟨.number w, _, rfl, rfl, hw.map _⟩
  | boolean _ v =>
    obtain ⟨w, rfl, hw⟩ := h
    exact ⟨.boolean w, _, rfl, rfl, hw.map _⟩
  | sentinel _ c =>
    cases h
    exact ⟨c.literal, some _, rfl, rfl, .inl rfl⟩
  | _ => simp [kind?] at hk

theorem describes_oneOf {s : Span} {bs : List Shape} :
    Describes lax (.oneOf s bs) d ↔ lax ∧ ∃ b ∈ bs, Describes lax b d := by
  rw [Describes, describesSome_iff]

theorem mem_flatten {shapes : List Shape} {b : Shape} :
    b ∈ flatten shapes ↔ (b ∈ shapes ∧ ∀ s bs, b ≠ .oneOf s bs) ∨
      ∃ s bs, .oneOf s bs ∈ shapes ∧ b ∈ bs := by
  induction shapes with
  | nil => simp [flatten]
  | cons shape shapes ih =>
    cases shape with
    | oneOf s bs => simp only [flatten, List.mem_append, ih, List.mem_cons]; grind
    | _ => simp only [flatten, List.mem_cons, ih]; grind

theorem flatten_describes {shapes : List Shape} (hm : shape ∈ shapes)
    (h : Describes lax shape d) : ∃ b ∈ flatten shapes, Describes lax b d := by
  by_cases ho : ∃ s bs, shape = .oneOf s bs
  · obtain ⟨s, bs, rfl⟩ := ho
    obtain ⟨-, b, hb, hd⟩ := describes_oneOf.1 h
    exact ⟨b, mem_flatten.2 (.inr ⟨s, bs, hm, hb⟩), hd⟩
  · exact ⟨shape, mem_flatten.2 (.inl ⟨hm, fun s bs he => ho ⟨s, bs, he⟩⟩), h⟩

/-- Alternatives describe what one of them does; on a strict reading there is only one. -/
theorem oneOf?_describes {shapes : List Shape} {s : Span} {r : Shape}
    (hr : oneOf? shapes s = some r) (hm : shape ∈ shapes) (h : Describes lax shape d)
    (hl : lax ∨ shapes = [shape]) : Describes lax r d := by
  obtain ⟨b, hb, hd⟩ := flatten_describes hm h
  unfold oneOf? at hr
  split at hr
  · rename_i single hf
    cases hr
    rw [hf, List.mem_singleton] at hb
    exact hb ▸ hd
  · rename_i hf
    split at hr
    · cases hr
    · cases hr
      rcases hl with hl | rfl
      · exact describes_oneOf.2 ⟨hl, b, hb, hd⟩
      · have ho : ∃ s bs, shape = .oneOf s bs := by
          by_contra ho
          refine hf shape ?_
          cases shape <;> simp_all [flatten]
        obtain ⟨s', bs, rfl⟩ := ho
        exact describes_oneOf.2 ⟨(describes_oneOf.1 h).1, b, hb, hd⟩

/-- Elements that describe those of an array: one by one, or on a lax reading each of those is
like one of them. -/
def DescribesItems (lax : Prop) (r : List Shape × Bool) (ds : List Datum) : Prop :=
  if r.2 = true then List.Forall₂ (Describes lax) r.1 ds
  else lax ∧ ∀ d ∈ ds, ∃ shape ∈ r.1, Describes lax shape d

@[simp] theorem describesItems_known {shapes : List Shape} {ds : List Datum} :
    DescribesItems lax (shapes, true) ds ↔ List.Forall₂ (Describes lax) shapes ds := by
  simp [DescribesItems]

@[simp] theorem describesItems_open {shapes : List Shape} {ds : List Datum} :
    DescribesItems lax (shapes, false) ds ↔
      lax ∧ ∀ d ∈ ds, ∃ shape ∈ shapes, Describes lax shape d := by
  simp [DescribesItems]

theorem DescribesItems.exists_of_mem {r : List Shape × Bool} {ds : List Datum}
    (h : DescribesItems lax r ds) : ∀ d ∈ ds, ∃ shape ∈ r.1, Describes lax shape d := by
  obtain ⟨shapes, known⟩ := r
  cases known with
  | false => exact (describesItems_open.1 h).2
  | true =>
    rw [describesItems_known] at h
    intro d hd
    obtain ⟨i, hi, rfl⟩ := List.getElem_of_mem hd
    exact ⟨_, List.getElem_mem (h.length_eq ▸ hi), h.get _ _⟩

theorem DescribesItems.append {a b : List Shape × Bool} {ds es : List Datum}
    (ha : DescribesItems lax a ds) (hb : DescribesItems lax b es) :
    DescribesItems lax (a.1 ++ b.1, a.2 && b.2) (ds ++ es) := by
  have hopen (hl : lax) : DescribesItems lax (a.1 ++ b.1, false) (ds ++ es) := by
    refine describesItems_open.2 ⟨hl, fun d hd => ?_⟩
    rcases List.mem_append.1 hd with hd | hd
    · obtain ⟨shape, hm, h⟩ := ha.exists_of_mem d hd
      exact ⟨shape, List.mem_append_left _ hm, h⟩
    · obtain ⟨shape, hm, h⟩ := hb.exists_of_mem d hd
      exact ⟨shape, List.mem_append_right _ hm, h⟩
  obtain ⟨shapes, known⟩ := a
  obtain ⟨others, known'⟩ := b
  cases known with
  | false => exact hopen (describesItems_open.1 ha).1
  | true =>
    cases known' with
    | false => exact hopen (describesItems_open.1 hb).1
    | true =>
      exact describesItems_known.2
        (List.rel_append (describesItems_known.1 ha) (describesItems_known.1 hb))

theorem DescribesItems.nil : DescribesItems lax ([], true) [] := by simp

theorem DescribesItems.singleton (h : Describes lax shape d) :
    DescribesItems lax ([shape], true) [d] := by simpa using h

theorem elements?_of_describes (h : Describes lax shape d) {r : List Shape × Bool}
    (hr : shape.elements? = some r) : ∃ ds, d = .array ds ∧ DescribesItems lax r ds := by
  cases shape with
  | tuple _ items =>
    obtain ⟨ds, rfl, hi⟩ := h
    cases hr
    exact ⟨ds, rfl, describesItems_known.2 (describesAll_iff.1 hi)⟩
  | array _ element =>
    obtain ⟨hl, ds, rfl, he⟩ := h
    cases hr
    exact ⟨ds, rfl, by simpa using ⟨hl, he⟩⟩
  | _ => simp [elements?] at hr

/-- A shape that is neither an array nor one of several describes no array. -/
theorem not_array_of_elements?_none (h : Describes lax shape d) (he : shape.elements? = none)
    (ho : ∀ s bs, shape ≠ .oneOf s bs) (ds : List Datum) : d ≠ .array ds := by
  rintro rfl
  cases shape with
  | tuple | array => simp [elements?] at he
  | oneOf s bs => exact ho s bs rfl
  | _ => simp [Describes] at h

mutual

theorem spread?_of_describes : ∀ shape {r}, Describes lax shape d → shape.spread? = some r →
    ∃ ds, d = .array ds ∧ DescribesItems lax r ds
  | .oneOf _ bs, r, ⟨hl, h⟩, hr => by
    simp only [spread?, Option.map_eq_some_iff] at hr
    obtain ⟨items, hi, rfl⟩ := hr
    obtain ⟨ds, rfl, he⟩ := spreadAll?_of_describes bs hl h hi
    exact ⟨ds, rfl, by simpa using ⟨hl, he⟩⟩
  | .unknown _, _, h, _ => h.elim
  | .string .., _, h, hr | .number .., _, h, hr | .boolean .., _, h, hr | .sentinel .., _, h, hr
  | .record .., _, h, hr | .tuple .., _, h, hr | .array .., _, h, hr | .function .., _, h, hr
  | .null _, _, h, hr | .undefined _, _, h, hr =>
    elements?_of_describes h (by simpa [spread?] using hr)

theorem spreadAll?_of_describes : ∀ shapes {items}, lax → DescribesSome lax shapes d →
    spreadAll? shapes = some items →
    ∃ ds, d = .array ds ∧ ∀ x ∈ ds, ∃ shape ∈ items, Describes lax shape x
  | shape :: shapes, items, hl, h, hi => by
    rw [spreadAll?] at hi
    split at hi
    · rename_i first known rest hf hr
      cases hi
      rcases h with h | h
      · obtain ⟨ds, rfl, he⟩ := spread?_of_describes shape h hf
        refine ⟨ds, rfl, fun x hx => ?_⟩
        obtain ⟨e, hm, hd⟩ := he.exists_of_mem x hx
        exact ⟨e, List.mem_append_left _ hm, hd⟩
      · obtain ⟨ds, rfl, he⟩ := spreadAll?_of_describes shapes hl h hr
        refine ⟨ds, rfl, fun x hx => ?_⟩
        obtain ⟨e, hm, hd⟩ := he x hx
        exact ⟨e, List.mem_append_right _ hm, hd⟩
    · cases hi

end

mutual

def mayBeArray : Shape → Bool
  | tuple .. | array .. => true
  | oneOf _ bs => anyMayBeArray bs
  | _ => false

def anyMayBeArray : List Shape → Bool
  | [] => false
  | shape :: shapes => mayBeArray shape || anyMayBeArray shapes

end

mutual

theorem mayBeArray_of_describes {ds : List Datum} :
    ∀ shape, Describes lax shape (.array ds) → shape.mayBeArray = true
  | .tuple .., _ | .array .., _ => rfl
  | .oneOf _ bs, h => anyMayBeArray_of_describes bs h.2
  | .string .., h | .number .., h | .boolean .., h | .sentinel .., h | .record .., h
  | .function .., h | .null _, h | .undefined _, h | .unknown _, h => by simp [Describes] at h

theorem anyMayBeArray_of_describes {ds : List Datum} :
    ∀ shapes, DescribesSome lax shapes (.array ds) → anyMayBeArray shapes = true
  | shape :: _, .inl h => by simp [anyMayBeArray, mayBeArray_of_describes shape h]
  | _ :: shapes, .inr h => by simp [anyMayBeArray, anyMayBeArray_of_describes shapes h]

end

def isNothing : Shape → Bool
  | null _ | undefined _ => true
  | _ => false

theorem equal?_eq {a b : Shape} (ha : a.isNothing = false) (hb : b.isNothing = false) :
    a.equal? b =
      match a.scalar?, b.scalar? with
      | some x, some y => some (x.equals y)
      | _, _ =>
        match a.kind?, b.kind? with
        | some k, some l => if k = l then none else some false
        | _, _ => none := by
  unfold equal?
  split
  case h_7 => rfl
  all_goals simp_all [isNothing]

theorem equals_of_kind_ne {x y : Scalar} (h : x.kind ≠ y.kind) : x.equals y = false := by
  cases x <;> cases y <;> simp_all [Scalar.equals, Scalar.kind]

theorem equals_eq_scalars {x y : Datum} {a b : Scalar} (hx : x.scalar? = some a)
    (hy : y.scalar? = some b) : x.equals y = a.equals b := by
  unfold Datum.equals
  split <;> simp_all [Datum.scalar?]

theorem isNothing_iff_of_describes (h : Describes lax shape d) (ho : ∀ s bs, shape ≠ .oneOf s bs) :
    shape.isNothing = true ↔ d = .null ∨ d = .undefined := by
  cases shape with
  | oneOf s bs => exact absurd rfl (ho s bs)
  | unknown => exact h.elim
  | null | undefined => cases h; simp [isNothing]
  | sentinel => cases h; simp [isNothing]
  | string | number | boolean | record | tuple | function =>
    obtain ⟨_, rfl, _⟩ := h; simp [isNothing]
  | array => obtain ⟨_, _, rfl, _⟩ := h; simp [isNothing]

theorem equal?_of_isNothing {a b : Shape} {x y : Datum} (ha : Describes lax a x)
    (hb : Describes lax b y) (hn : a.isNothing = true ∨ b.isNothing = true)
    (ho : ∀ s bs, a ≠ .oneOf s bs) (ho' : ∀ s bs, b ≠ .oneOf s bs) :
    a.equal? b = some (x.equals y) := by
  have hx := isNothing_iff_of_describes ha ho
  have hy := isNothing_iff_of_describes hb ho'
  cases a with
  | null | undefined =>
    cases ha
    cases b <;> simp_all [equal?, isNothing, Datum.equals, Datum.scalar?, Describes]
  | _ =>
    cases b with
    | null | undefined => cases hb; simp_all [equal?, isNothing, Datum.equals, Datum.scalar?]
    | _ => simp [isNothing] at hn

theorem equals_of_equal? {a b : Shape} {x y : Datum} (ha : Describes lax a x)
    (hb : Describes lax b y) (hna : a.isNothing = false) (hnb : b.isNothing = false) {r : Bool}
    (hr : a.equal? b = some r) : x.equals y = r := by
  rw [equal?_eq hna hnb] at hr
  split at hr
  · rename_i u v hu hv
    cases hr
    exact equals_eq_scalars (scalar?_of_describes ha hu) (scalar?_of_describes hb hv)
  · split at hr
    · rename_i k l hk hl
      obtain ⟨u, hu, rfl, -⟩ := kind?_of_describes ha hk
      obtain ⟨v, hv, rfl, -⟩ := kind?_of_describes hb hl
      split at hr
      · cases hr
      · rename_i hne
        cases hr
        rw [equals_eq_scalars hu hv, equals_of_kind_ne hne]
    · cases hr

/-- What is known of the equality of two shapes holds of what they describe, and on a strict
reading that of scalars is known. -/
theorem equal?_of_describes {a b : Shape} {x y : Datum} (ha : Describes lax a x)
    (hb : Describes lax b y) (ho : ∀ s bs, a ≠ .oneOf s bs) (ho' : ∀ s bs, b ≠ .oneOf s bs)
    (hd : lax ∨ a.isNothing = true ∨ b.isNothing = true ∨
      a.kind?.isSome = true ∧ b.kind?.isSome = true) :
    Knows lax (a.equal? b) (x.equals y) := by
  by_cases hn : a.isNothing = true ∨ b.isNothing = true
  · exact .inl (equal?_of_isNothing ha hb hn ho ho')
  obtain ⟨hna, hnb⟩ : a.isNothing = false ∧ b.isNothing = false := by simpa using hn
  rcases hr : a.equal? b with _ | r
  · refine .inr ⟨?_, rfl⟩
    rcases hd with hl | h | h | ⟨hka, hkb⟩
    · exact hl
    · exact absurd (.inl h) hn
    · exact absurd (.inr h) hn
    · obtain ⟨k, hk⟩ := Option.isSome_iff_exists.1 hka
      obtain ⟨l, hl⟩ := Option.isSome_iff_exists.1 hkb
      obtain ⟨u, -, -, hu | ⟨h, -⟩⟩ := kind?_of_describes ha hk
      · obtain ⟨v, -, -, hv | ⟨h, -⟩⟩ := kind?_of_describes hb hl
        · simp [equal?_eq hna hnb, hu, hv] at hr
        · exact h
      · exact h
  · exact .inl (congrArg some (equals_of_equal? ha hb hna hnb hr).symm)

def isCompound : Shape → Bool
  | record .. | tuple .. | array .. | function .. => true
  | _ => false

theorem kind?_isSome_of_describes (h : Describes lax shape d) (hn : shape.isNothing = false)
    (hc : shape.isCompound = false) (ho : ∀ s bs, shape ≠ .oneOf s bs) :
    shape.kind?.isSome = true := by
  cases shape with
  | oneOf s bs => exact absurd rfl (ho s bs)
  | unknown => exact h.elim
  | _ => simp_all [isNothing, isCompound, kind?]

end TypedConfig.Shape
