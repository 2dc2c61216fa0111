import TypedConfig.Proofs.Simulation.Rules

/-! # Operations on shapes and on data

Properties, indices and operators: what the check gives for shapes describes what the evaluation
gives for the data that they describe.
-/

namespace TypedConfig

open Shape (Describes DescribesFields DescribesSome)
open Check (Event Events CheckM)
open Eval (EvalM)

variable {lax : Prop} {shape receiver : Shape} {d : Datum} {span : Span}

namespace Datum

theorem member_text {t : String} (h : d.text? = some t) (span : Span) :
    Eval.member d "length" span = pure (.number (textLength t)) := by
  cases d <;> simp_all [text?, scalar?, Eval.member]

end Datum

/-- A check that goes through the alternatives of a shape simulates what it simulates on shapes
that are not one of several. -/
theorem simulates_alternatives (span : Span) {E : Shape → Events} {f : Shape → CheckM Shape}
    {n : EvalM Datum} (sf : ∀ shape, Check.Steady (f shape))
    (hf : ∀ s bs, Describes lax (.oneOf s bs) d →
      f (.oneOf s bs) = do Check.oneOf (← bs.mapM f) span)
    (hE : ∀ s bs, E (.oneOf s bs) = .each E f bs)
    (plain : ∀ shape, (∀ s bs, shape ≠ .oneOf s bs) → Describes lax shape d →
      Simulates lax (E shape) (f shape) n (Describes lax)) :
    ∀ shape, Describes lax shape d → Simulates lax (E shape) (f shape) n (Describes lax)
  | .oneOf s bs, h => by
    obtain ⟨hl, b, hm, hb⟩ := Shape.describes_oneOf.1 h
    have : sizeOf b < 1 + sizeOf s + sizeOf bs := by
      have := List.sizeOf_lt_of_mem hm
      omega
    rw [hf s bs h, hE, ← bind_pure n]
    refine (Simulates.each sf ⟨b, hm, simulates_alternatives span sf hf hE plain b hb⟩).bind_none
      (.mapM sf bs) (fun _ => .oneOf ..) fun rs d hd => ?_
    obtain ⟨r, hr, hd⟩ := hd
    exact .oneOf span ⟨r, hr, hd, .inl hl⟩
  | .string .., h | .number .., h | .boolean .., h | .sentinel .., h | .record .., h
  | .tuple .., h | .array .., h | .function .., h | .null _, h | .undefined _, h
  | .unknown _, h => plain _ (by simp) h
termination_by shape => sizeOf shape

/-- The same for a check that meets nothing by itself. -/
theorem simulates_alternatives_none (span : Span) {f : Shape → CheckM Shape} {n : EvalM Datum}
    (sf : ∀ shape, Check.Steady (f shape))
    (hf : ∀ s bs, Describes lax (.oneOf s bs) d →
      f (.oneOf s bs) = do Check.oneOf (← bs.mapM f) span)
    (plain : ∀ shape, (∀ s bs, shape ≠ .oneOf s bs) → Describes lax shape d →
      Simulates lax .none (f shape) n (Describes lax)) (h : Describes lax shape d) :
    Simulates lax .none (f shape) n (Describes lax) :=
  simulates_alternatives span (E := fun _ => .none) sf hf
    (fun _ bs => (Events.each_none f bs).symm) plain shape h

theorem describesFields_get? {fields : ShapeFields} {entries : Entries Datum} (key : String)
    (h : DescribesFields lax fields entries) :
    Option.Rel (fun f d => Describes lax f.2 d) (Entries.get? fields key)
      (Entries.get? entries key) := by
  induction fields generalizing entries with
  | nil => obtain rfl : entries = [] := h; exact .none
  | cons f fields ih =>
    obtain ⟨k, s, shape⟩ := f
    obtain ⟨d, rest, rfl, hd, hr⟩ := h
    by_cases hk : k = key
    · simp only [Entries.get?, hk, if_true]
      exact .some hd
    · simp only [Entries.get?, hk, if_false]
      exact ih hr

/-- A field of a record shape is the field of the object that it describes. -/
theorem describesFields_field {fields : ShapeFields} {entries : Entries Datum} {key : String}
    {f : Span × Shape} (h : DescribesFields lax fields entries)
    (hf : Entries.get? fields key = some f) :
    ∃ d, Entries.get? entries key = some d ∧ Describes lax f.2 d := by
  have hg := describesFields_get? key h
  rw [hf] at hg
  cases hd : Entries.get? entries key <;> rw [hd] at hg <;> cases hg
  exact ⟨_, rfl, ‹_›⟩

theorem simulates_field {s : Span} {fields : ShapeFields} {entries : Entries Datum}
    {property : String} (h : DescribesFields lax fields entries) :
    Simulates lax .none (Check.plainMember (.record s fields) property span)
      (Eval.member (.object entries) property span) (Describes lax) := by
  simp only [Check.plainMember, Eval.member]
  cases hf : Entries.get? fields property with
  | none => exact .refuse _ _ _ _
  | some f =>
    obtain ⟨d, hd, he⟩ := describesFields_field h hf
    simp only [hd]
    exact .pure he

theorem simulates_length (h : Describes lax shape d) (ho : ∀ s bs, shape ≠ .oneOf s bs)
    (ha : shape.elements?.isSome = true ∨ shape.isText = true) :
    Simulates lax .none (Check.plainMember shape "length" span) (Eval.member d "length" span)
      (Describes lax) := by
  cases shape with
  | tuple s items =>
    obtain ⟨ds, rfl, hi⟩ := h
    have hn : items.length = ds.length := (Shape.describesAll_iff.1 hi).length_eq
    simp only [Check.plainMember, Shape.elements?, Option.isSome_some, true_or, and_self, if_true,
      Eval.member]
    exact .pure ⟨_, rfl, by simp [hn]⟩
  | array s element =>
    obtain ⟨hl, ds, rfl, -⟩ := h
    simp only [Check.plainMember, Shape.elements?, Option.isSome_some, true_or, and_self, if_true,
      Eval.member]
    exact .pure ⟨_, rfl, by simpa using hl⟩
  | oneOf s bs => exact absurd rfl (ho s bs)
  | unknown => exact h.elim
  | record | function | null | undefined | number | boolean =>
    simp [Shape.elements?, Shape.isText, Shape.kind?] at ha
  | string | sentinel =>
    have ht : Shape.isText _ = true := ha.resolve_left (by simp [Shape.elements?])
    obtain ⟨t, hd, hk⟩ := Shape.isText_of_describes h ht
    rw [Datum.member_text hd]
    simp only [Check.plainMember, ht, or_true, and_self, if_true]
    exact .pure ⟨_, rfl, hk.map textLength⟩

theorem simulates_plainMember {property : String} (h : Describes lax shape d)
    (ho : ∀ s bs, shape ≠ .oneOf s bs) :
    Simulates lax .none (Check.plainMember shape property span) (Eval.member d property span)
      (Describes lax) := by
  by_cases hp : property = "length" ∧ (shape.elements?.isSome = true ∨ shape.isText = true)
  · obtain ⟨rfl, ha⟩ := hp
    exact simulates_length h ho ha
  cases shape with
  | record s fields =>
    obtain ⟨entries, rfl, hf⟩ := h
    exact simulates_field hf
  | oneOf s bs => exact absurd rfl (ho s bs)
  | unknown => exact h.elim
  | null | undefined =>
    simp only [Check.plainMember, hp, if_false]
    exact .refuse _ _ _ _
  | _ =>
    simp only [Check.plainMember, hp, if_false]
    split
    · exact .refuse _ _ _ _
    · exact .refuse _ _ _ _

theorem Check.member_eq {property : String} (ho : ∀ s bs, shape ≠ .oneOf s bs) :
    Check.member property span shape = Check.plainMember shape property span := by
  cases shape <;> simp_all [Check.member]

/-- A property of a shape describes that of its datum. -/
theorem simulates_member {property : String} (h : Describes lax shape d) :
    Simulates lax .none (Check.member property span shape) (Eval.member d property span)
      (Describes lax) := by
  refine simulates_alternatives_none span (Check.steady_member _ _) (fun s bs _ => ?_)
    (fun shape ho h => ?_) h
  · rw [Check.member, Check.members_eq]
  · rw [Check.member_eq ho]
    exact simulates_plainMember h ho

theorem describesAll_getElem? {items : List Shape} {ds : List Datum}
    (h : List.Forall₂ (Describes lax) items ds) (i : Nat) :
    Option.Rel (Describes lax) items[i]? ds[i]? := by
  by_cases hi : i < items.length
  · have hj : i < ds.length := h.length_eq ▸ hi
    rw [List.getElem?_eq_getElem hi, List.getElem?_eq_getElem hj]
    exact .some (h.get hi hj)
  · rw [List.getElem?_eq_none (by omega), List.getElem?_eq_none (by have := h.length_eq; omega)]
    exact .none

theorem isWithin_eq (s : String) (x : Float) :
    Event.isWithin (some s) (some x) = (charAt? s x).isSome := by
  rcases h : Number.index? x with _ | i
  · simp [Event.isWithin, charAt?, h]
  · simp only [Event.isWithin, charAt?, h, Option.any_some, Option.bind_some, Option.isSome_map]
    rw [Bool.eq_iff_iff, decide_eq_true_iff, ← String.length_toList]
    simp

theorem simulates_elementAt {s s' : Span} {items : List Shape} {ds : List Datum} {x : Float}
    (h : List.Forall₂ (Describes lax) items ds) :
    Simulates lax .none (Check.index (.tuple s items) (.number s' (some x)) span)
      (Eval.index (.array ds) (.number x) span) (Describes lax) := by
  simp only [Check.index, Eval.index, Datum.number?, Datum.scalar?, Option.bind_some]
  rcases Number.index? x with _ | i
  · exact .refuse _ _ _ _
  · have hi := describesAll_getElem? h i
    simp only [Option.bind_some]
    generalize items[i]? = item at hi ⊢
    generalize ds[i]? = element at hi ⊢
    cases hi with
    | none => exact .refuse _ _ _ _
    | some h => exact .pure h

/-- An element of an array at a place that is not known, or of an array of unknown length. -/
theorem simulates_someElement {m : CheckM Shape} {ds : List Datum} {x : Float}
    (he : (Event.indexing receiver shape).mayExceed = true) (hl : lax)
    (h : ∀ element ∈ ds, Simulates lax .none m (pure element) (Describes lax)) :
    Simulates lax (.one (.indexing receiver shape)) m (Eval.index (.array ds) (.number x) span)
      (Describes lax) := by
  simp only [Eval.index, Datum.number?, Datum.scalar?, Option.bind_some]
  split
  · rename_i element hi
    obtain ⟨i, -, hi⟩ := Option.bind_eq_some_iff.1 hi
    exact .of_none (h element (List.mem_of_getElem? hi))
  · exact .exceeds span hl (.inl rfl) (.inl he)

theorem Datum.index_text {t : String} (h : d.text? = some t) (x : Float) (span : Span) :
    Eval.index d (.number x) span =
      match charAt? t x with
      | some c => pure (.string c)
      | none => Eval.fail .textBounds span := by
  cases d with
  | string v => cases h; rfl
  | sentinel c =>
    have hc : c.literal = .string t := by
      simp only [text?, scalar?] at h
      split at h <;> simp_all
    cases hx : charAt? t x <;> simp [Eval.index, text?, scalar?, hc, number?, hx]
  | _ => simp [text?, scalar?] at h

theorem Datum.index_key {e : Datum} {key : String} (h : e.text? = some key)
    (fields : Entries Datum) (span : Span) :
    Eval.index (.object fields) e span = Eval.member (.object fields) key span := by
  simp only [Eval.index, h]

/-- A text that has nothing at a place either is not known, or the place is not known, or both
are known and do not fit. -/
theorem mayExceed_or_isOutside {s : Span} {x : Option Float} (h : receiver.isText = true)
    (hw : Event.isWithin receiver.text? x = false) :
    (Event.indexing receiver (.number s x)).mayExceed = true ∨
      (Event.indexing receiver (.number s x)).isOutside = true := by
  have hexceed : (Event.indexing receiver (.number s x)).mayExceed =
      (receiver.text?.isNone || x.isNone) := by
    cases receiver <;> simp_all [Event.mayExceed, Shape.isText, Shape.kind?]
  rw [hexceed]
  cases x with
  | none => exact .inl (Bool.or_true _)
  | some x =>
    rcases ht : receiver.text? with _ | t
    · exact .inl rfl
    · rw [ht] at hw
      exact .inr (by simp [Event.isOutside, ht, hw])

theorem simulates_character {s : Span} {x : Option Float} {e : Datum}
    (hr : Describes lax receiver d) (ht : receiver.isText = true)
    (hp : Describes lax (.number s x) e) :
    Simulates lax (.one (.indexing receiver (.number s x)))
      (pure (.string span (do charAt? (← receiver.text?) (← x))))
      (Eval.index d e span) (Describes lax) := by
  obtain ⟨v, rfl, hv⟩ := hp
  obtain ⟨t, hd, hk⟩ := Shape.isText_of_describes hr ht
  rw [Datum.index_text hd]
  refine .of_admitted (fun _ => List.mem_singleton_self _) fun hE => ?_
  have hknown : receiver.text? = some t ∧ x = some v ∨
      lax ∧ (receiver.text? = none ∨ x = none) := by
    rcases hk with hk | ⟨hl, hk⟩
    · exact hv.imp (⟨hk, ·⟩) (And.imp_right .inr)
    · exact .inr ⟨hl, .inl hk⟩
  rcases hc : charAt? t v with _ | c
  · have hw : Event.isWithin receiver.text? x = false := by
      rcases hknown with ⟨hk, rfl⟩ | ⟨-, hk | rfl⟩
      · simp [hk, isWithin_eq, hc]
      · simp [hk, Event.isWithin]
      · simp [Event.isWithin]
    have hl : lax := by
      rcases hknown with ⟨hk, rfl⟩ | ⟨hl, -⟩
      · by_contra hl
        have hd := hE.definite hl
        simp only [Event.isDefinite, hk] at hd
        rw [hk] at hw
        exact Bool.false_ne_true (hw.symm.trans hd)
      · exact hl
    exact .exceeds span hl (.inr rfl) (mayExceed_or_isOutside ht hw)
  · refine .pure ⟨c, rfl, ?_⟩
    rcases hknown with ⟨hk, rfl⟩ | ⟨hl, hk | rfl⟩
    · exact .inl (by simp [hk, hc])
    · exact .inr ⟨hl, by simp [hk]⟩
    · exact .inr ⟨hl, by simp⟩

/-- Indexing a shape describes indexing its datum, unless the index is out of bounds. -/
theorem simulates_index {position : Shape} {e : Datum} (hr : Describes lax receiver d)
    (hp : Describes lax position e) :
    Simulates lax (.one (.indexing receiver position)) (Check.index receiver position span)
      (Eval.index d e span) (Describes lax) := by
  by_cases ha : ∃ s items s' x, receiver = .tuple s items ∧ position = .number s' (some x)
  · obtain ⟨s, items, s', x, rfl, rfl⟩ := ha
    obtain ⟨ds, rfl, hds⟩ := hr
    obtain ⟨x, rfl, hx⟩ := hp
    rw [Knows.some_iff] at hx
    subst hx
    exact .of_none (simulates_elementAt (Shape.describesAll_iff.1 hds))
  unfold Check.index
  split
  · exact hr.elim
  · exact hp.elim
  · exact absurd ⟨_, _, _, _, rfl, rfl⟩ ha
  · obtain ⟨ds, rfl, hds⟩ := hr
    obtain ⟨x, rfl, hx⟩ := hp
    have hl := Knows.none_iff.1 hx
    refine simulates_someElement rfl hl fun element hm => ?_
    obtain ⟨shape, hs, hd⟩ :=
      (Shape.describesItems_known.2 (Shape.describesAll_iff.1 hds)).exists_of_mem element hm
    exact .oneOf span ⟨shape, hs, hd, .inl hl⟩
  · obtain ⟨hl, ds, rfl, hds⟩ := hr
    obtain ⟨x, rfl, hx⟩ := hp
    exact simulates_someElement rfl hl fun element hm => .pure (hds element hm)
  · split
    · have hkey := ‹Shape.text? _ = some _›
      obtain ⟨entries, rfl, hf⟩ := hr
      rw [Datum.index_key (Shape.text?_of_describes hp hkey)]
      exact .of_none (simulates_member ⟨entries, rfl, hf⟩)
    · have hn := ‹Shape.text? (.string _ _) = none›
      obtain ⟨v, rfl, hv⟩ := hp
      obtain rfl := hn
      refine .of_admitted (fun _ => List.mem_singleton_self _) fun hE => ?_
      exact absurd (hE.sound (Knows.none_iff.1 hv)) (by simp [Event.isSound])
    · split
      · exact simulates_character hr ‹_› hp
      · exact .refuse _ _ _ _

theorem isText_eq (h : Describes lax shape d) (ho : ∀ s bs, shape ≠ .oneOf s bs) :
    d.isText = shape.isText := by
  rcases ht : shape.isText with _ | _
  · simp [Datum.isText, Shape.text?_of_not_isText h ht ho]
  · obtain ⟨t, hd, -⟩ := Shape.isText_of_describes h ht
    simp [Datum.isText, hd]

theorem simulates_unary (op : UnaryOp) (h : Describes lax shape d) :
    Simulates lax .none (Check.unary op shape span) (Eval.unary op d span) (Describes lax) := by
  cases op with
  | not => exact .pure ⟨_, rfl, (Shape.truthiness_of_describes shape h).map _⟩
  | negate =>
    cases shape with
    | number s x =>
      obtain ⟨v, rfl, hv⟩ := h
      exact .pure ⟨_, rfl, hv.map _⟩
    | unknown => exact h.elim
    | _ => exact .refuse _ _ _ _

theorem Eval.stringify_eq {x : Scalar} (h : d.scalar? = some x) (span : Span) :
    Eval.stringify d span = pure x.stringText := by
  simp only [Eval.stringify, h]

theorem Knows.both {α β : Type} {known known' : Option α} {a b : α} (h : Knows lax known a)
    (h' : Knows lax known' b) (f : α → α → β) :
    Knows lax (Check.both f known known') (f a b) := by
  rcases h with rfl | ⟨hl, rfl⟩
  · rcases h' with rfl | ⟨hl, rfl⟩
    · exact .inl rfl
    · exact .inr ⟨hl, rfl⟩
  · exact .inr ⟨hl, rfl⟩

section

variable {left right : Shape} {l r : Datum} (hl : Describes lax left l)
  (hr : Describes lax right r)

include hl hr

theorem simulates_concatenate :
    Simulates lax .none (Check.concatenate left right span)
      (do return .string ((← Eval.stringify l span) ++ (← Eval.stringify r span)))
      (Describes lax) := by
  unfold Check.concatenate
  split
  · rename_i k k' hk hk'
    obtain ⟨x, a, hx, ha, hxa⟩ := Shape.rendering_of_kind? hl hk
    obtain ⟨y, b, hy, hb, hyb⟩ := Shape.rendering_of_kind? hr hk'
    rw [Eval.stringify_eq hx, Eval.stringify_eq hy, ha, hb]
    have hab := hxa.both hyb (· ++ ·)
    cases a with
    | none => exact .pure ⟨_, rfl, hab⟩
    | some a => cases b <;> exact .pure ⟨_, rfl, hab⟩
  · exact .refuse _ _ _ _

theorem knows_equal? (ho : ∀ s bs, left ≠ .oneOf s bs) (ho' : ∀ s bs, right ≠ .oneOf s bs)
    (hd : (Event.comparison left right).Admitted lax) :
    Knows lax (left.equal? right) (l.equals r) := by
  refine Shape.equal?_of_describes hl hr ho ho' ?_
  by_cases hlax : lax
  · exact .inl hlax
  have hd := hd.definite hlax
  simp only [Event.isDefinite, Bool.or_eq_true, Bool.and_eq_true, Bool.not_eq_true'] at hd
  rcases hn : left.isNothing with _ | _
  · rcases hn' : right.isNothing with _ | _
    · simp only [hn, hn', Bool.false_eq_true, false_or] at hd
      exact .inr (.inr (.inr ⟨Shape.kind?_isSome_of_describes hl hn hd.1 ho,
        Shape.kind?_isSome_of_describes hr hn' hd.2 ho'⟩))
    · exact .inr (.inr (.inl rfl))
  · exact .inr (.inl rfl)

theorem simulates_plainOperator (op : BinaryOp) (ho : ∀ s bs, left ≠ .oneOf s bs)
    (ho' : ∀ s bs, right ≠ .oneOf s bs)
    (hd : op = .equal ∨ op = .notEqual → (Event.comparison left right).Admitted lax) :
    Simulates lax .none (Check.plainOperator op left right span) (Eval.operator op l r span)
      (Describes lax) := by
  unfold Check.plainOperator Eval.operator
  rw [isText_eq hl ho, isText_eq hr ho']
  split
  · exact .pure ⟨_, rfl, knows_equal? hl hr ho ho' (hd (.inl ‹_›))⟩
  split
  · exact .pure ⟨_, rfl, (knows_equal? hl hr ho ho' (hd (.inr ‹_›))).map (!·)⟩
  split
  · exact simulates_concatenate hl hr
  split
  · rename_i ht
    obtain ⟨hop, hta, htb⟩ := ht
    obtain ⟨a, ha, hka⟩ := Shape.isText_of_describes hl hta
    obtain ⟨b, hb, hkb⟩ := Shape.isText_of_describes hr htb
    simp only [hop, ha, hb]
    exact .pure ⟨_, rfl, hka.both hkb op.compareTexts⟩
  split
  · obtain ⟨a, rfl, hka⟩ := hl
    obtain ⟨b, rfl, hkb⟩ := hr
    rcases hop : op.isOrder with _ | _
    · exact .pure ⟨_, rfl, hka.both hkb op.compute⟩
    · exact .pure ⟨_, rfl, hka.both hkb op.compareNumbers⟩
  · exact .refuse _ _ _ _

end

theorem Check.operatorRight_eq {op : BinaryOp} {left : Shape} (h : Describes lax shape d)
    (ho : ∀ s bs, shape ≠ .oneOf s bs) :
    Check.operatorRight op left span shape = Check.plainOperator op left shape span := by
  cases shape <;> simp_all [Check.operatorRight]

theorem Check.operator_eq {op : BinaryOp} {right : Shape} (h : Describes lax shape d)
    (ho : ∀ s bs, shape ≠ .oneOf s bs) :
    Check.operator op right span shape = Check.operatorRight op shape span right := by
  cases shape <;> simp_all [Check.operator]

/-- An operator on shapes describes the operator on their data. -/
theorem simulates_operator {left right : Shape} {l r : Datum} (op : BinaryOp)
    (hl : Describes lax left l) (hr : Describes lax right r)
    (hd : op = .equal ∨ op = .notEqual → (Event.comparison left right).Admitted lax) :
    Simulates lax .none (Check.operator op right span left) (Eval.operator op l r span)
      (Describes lax) := by
  by_cases hlax : lax
  · refine simulates_alternatives_none span (Check.steady_operator op right span)
      (fun s bs _ => ?_) (fun a ha hal => ?_) hl
    · rw [Check.operator, Shape.isUnknown_of_describes hr, Check.operators_eq]
      rfl
    rw [Check.operator_eq hal ha]
    refine simulates_alternatives_none span (Check.steady_operatorRight op a span)
      (fun s bs _ => ?_) (fun b hb hbr => ?_) hr
    · rw [Check.operatorRight, Check.operatorRights_eq]
    · rw [Check.operatorRight_eq hbr hb]
      exact simulates_plainOperator hal hbr op ha hb
        fun _ => ⟨fun _ => rfl, fun _ => rfl, fun h => absurd hlax h⟩
  · -- on a strict reading no shape is one of several
    have ho {shape : Shape} {d : Datum} (h : Describes lax shape d) (s : Span) (bs : List Shape) :
        shape ≠ .oneOf s bs := by
      rintro rfl
      exact hlax (Shape.describes_oneOf.1 h).1
    rw [Check.operator_eq hl (ho hl), Check.operatorRight_eq hr (ho hr)]
    exact simulates_plainOperator hl hr op (ho hl) (ho hr) hd

end TypedConfig
