import TypedConfig.Proofs.Check.Run
import TypedConfig.Proofs.Constants.Shapes

/-! # Operations on shapes with a constant written out

From states that differ in a constant written out, an operation of the checker and the operation
with the constant written out give shapes that differ in the same way, and both find errors or
neither does. The exceptions are the operations that take a number and refuse a constant, though
it stands for one.
-/

namespace TypedConfig

/-- The errors that refuse a constant where the number that it stands for is an operand. -/
inductive CheckError.RefusesOperand (c : Sentinel) (e : CheckError) : Prop
  | position {receiver : Shape} {s : Span}
    (indexed : receiver.elements?.isSome = true ∨ receiver.isText = true)
    (expected : e.expected = "an array indexed by a number or an object indexed by a string")
    (found : e.found = receiver.describe ++ " indexed by " ++ (Shape.sentinel s c).describe)
  | negated {s : Span} (expected : e.expected = "a number")
    (found : e.found = (Shape.sentinel s c).describe ++ " after `-`")
  | operand {op : BinaryOp} {left right : Shape} {operands : String}
    (numbers : left.kind? = some .number ∧ right.kind? = some .number)
    (constant : ∃ s, left = .sentinel s c ∨ right = .sentinel s c)
    (expected : e.expected = operands ++ " around `" ++ op.text ++ "`")
    (found : e.found = left.describe ++ " and " ++ right.describe)

namespace Check

open Shape (inlinedAll inlinedFields inlinedFrame inlinedFrames inlinedResults)

variable (c : Sentinel) (frames : List ShapeFrame) {α β γ δ : Type}

def Binding.inlined (b : Binding) : Binding := ⟨b.role, b.shape.inlined c⟩

/-- The state has an error that refuses the constant as an operand, which is a number. -/
def State.Refuses (s : State) : Prop :=
  c.literal.kind = .number ∧ ∃ e ∈ s.errors, e.RefusesOperand c

/-- States inside given frames that differ in the constant written out: all shapes are those with
the constant written out, except that the constant's name is still bound to the constant. Both
have errors or neither does. -/
structure State.Inlines (s s' : State) : Prop where
  constant : Entries.get? s.globals c.name = some ⟨.constant, .sentinel default c⟩
  role : (Entries.get? s'.globals c.name).map Binding.role = some .constant
  globals : ∀ name, name ≠ c.name →
    Entries.get? s'.globals name = (Entries.get? s.globals name).map (Binding.inlined c)
  here : s.frames = frames
  there : s'.frames = inlinedFrames c frames
  depth : s'.depth = s.depth
  calls : s'.calls = s.calls
  errors : s'.errors = [] ↔ s.errors = []

/-- From states that differ in the constant written out, the computations give results that a
function relates and leave such states, unless the first refuses the constant as an operand. -/
structure Inlines (f : α → β) (m : CheckM α) (m' : CheckM β) : Prop where
  grows : ∀ s, s.errors <:+ (after m s).errors
  run : ∀ s s', s.Inlines c frames s' → (after m s).Refuses c ∨
    (value m' s' = f (value m s) ∧ (after m s).Inlines c frames (after m' s'))

variable {c frames}

theorem refuses_refuse {expected found : String} {errorSpan span : Span} {s : State}
    (hnumber : c.literal.kind = .number)
    (h : ∀ e : CheckError, e.expected = expected → e.found = found → e.RefusesOperand c) :
    (after (refuse expected found errorSpan span) s).Refuses c :=
  ⟨hnumber, _, .head _, h _ rfl rfl⟩

namespace Inlines

variable {f : α → β} {m n : CheckM α} {m' n' : CheckM β}

theorem pure {a : α} {b : β} (h : b = f a) : Inlines c frames f (Pure.pure a) (Pure.pure b) :=
  ⟨fun _ => List.suffix_rfl, fun _ _ hs => .inr ⟨h, hs⟩⟩

theorem bind {g : γ → δ} {k : α → CheckM γ} {k' : β → CheckM δ} (h : Inlines c frames f m m')
    (hk : ∀ a, Inlines c frames g (k a) (k' (f a))) :
    Inlines c frames g (m >>= k) (m' >>= k') := by
  refine ⟨fun s => (h.grows s).trans ((hk _).grows _), fun s s' hs => ?_⟩
  obtain ⟨hnumber, e, he, hrefuses⟩ | ⟨hvalue, hafter⟩ := h.run s s' hs
  · exact .inl ⟨hnumber, e, ((hk _).grows _).subset he, hrefuses⟩
  · simp only [value_bind, after_bind, hvalue]
    exact (hk _).run _ _ hafter

/-- What follows a computation whose result holds no shape. -/
theorem after {g : γ → δ} {m m' : CheckM α} {k : α → CheckM γ} {k' : α → CheckM δ}
    (h : Inlines c frames id m m') (hk : ∀ a, Inlines c frames g (k a) (k' a)) :
    Inlines c frames g (m >>= k) (m' >>= k') := h.bind hk

theorem ite {p : Prop} [Decidable p] (h : Inlines c frames f m m')
    (hn : Inlines c frames f n n') :
    Inlines c frames f (if p then m else n) (if p then m' else n') := by
  split
  · exact h
  · exact hn

/-- Computations that go by something read off the state. -/
theorem read (p : State → γ) (q : State → δ) (g : γ → δ) {k : γ → CheckM α} {l : δ → CheckM β}
    (hread : ∀ s s', s.Inlines c frames s' → q s' = g (p s))
    (hk : ∀ a, Inlines c frames f (k a) (l (g a))) :
    Inlines c frames f (MonadState.get >>= fun s => k (p s))
      (MonadState.get >>= fun s => l (q s)) := by
  refine ⟨fun s => (hk _).grows s, fun s s' hs => ?_⟩
  simp only [value_bind, after_bind, value_get, after_get, hread s s' hs]
  exact (hk _).run s s' hs

theorem modify {g g' : State → State} (hgrows : ∀ s, s.errors <:+ (g s).errors)
    (h : ∀ s s', s.Inlines c frames s' → (g s).Inlines c frames (g' s')) :
    Inlines c frames id (modify g : CheckM Unit) (modify g') :=
  ⟨hgrows, fun s s' hs => .inr ⟨rfl, h s s' hs⟩⟩

/-! Errors need not say the same. -/

theorem reportNoted (expected found expected' found' : String) (span span' : Span)
    (note note' : Option String) :
    Inlines c frames id (reportNoted expected found span note)
      (reportNoted expected' found' span' note') :=
  .modify (fun _ => List.suffix_cons ..) fun _ _ hs =>
    { hs with errors := iff_of_false (List.cons_ne_nil _ _) (List.cons_ne_nil _ _) }

theorem report (expected found expected' found' : String) (span span' : Span) :
    Inlines c frames id (report expected found span) (report expected' found' span') :=
  .reportNoted ..

theorem refuse (expected found expected' found' : String) (errorSpan errorSpan' span : Span) :
    Inlines c frames (Shape.inlined c) (refuse expected found errorSpan span)
      (refuse expected' found' errorSpan' span) :=
  .after (.report ..) fun _ => .pure rfl

/-- Nothing is said of what comes of an operation that refuses the constant as an operand. -/
theorem refused {g : Shape → β} {expected found : String} {errorSpan span : Span}
    (hnumber : c.literal.kind = .number)
    (h : ∀ e : CheckError, e.expected = expected → e.found = found → e.RefusesOperand c) :
    Inlines c frames g (Check.refuse expected found errorSpan span) m' :=
  ⟨fun _ => List.suffix_cons .., fun _ _ _ => .inl (refuses_refuse hnumber h)⟩

theorem reportBranches (span : Span) :
    Inlines c frames id (reportBranches span) (reportBranches span) := .reportNoted ..

theorem oneOf (shapes : List Shape) (span : Span) :
    Inlines c frames (Shape.inlined c) (oneOf shapes span) (oneOf (inlinedAll c shapes) span) := by
  unfold Check.oneOf
  rw [Shape.oneOf?_inlinedAll]
  cases Shape.oneOf? shapes span with
  | some shape => exact .pure rfl
  | none => exact .after (.reportBranches _) fun _ => .pure rfl

theorem choose (condition : Option Bool) {yes yes' no no' : CheckM Shape}
    (hy : Inlines c frames (Shape.inlined c) yes yes')
    (hn : Inlines c frames (Shape.inlined c) no no') (span : Span) :
    Inlines c frames (Shape.inlined c) (choose condition yes no span)
      (choose condition yes' no' span) :=
  match condition with
  | some true => hy
  | some false => hn
  | none => hy.bind fun a => hn.bind fun b => .oneOf [a, b] span

theorem arrayOf (items : List Shape) (isKnown : Bool) (span : Span) :
    Inlines c frames (Shape.inlined c) (arrayOf items isKnown span)
      (arrayOf (inlinedAll c items) isKnown span) :=
  .ite (.pure rfl) ((Inlines.oneOf items span).bind fun _ => .pure rfl)

theorem inside {inner : List ShapeFrame} (h : Inlines c inner f m m') :
    Inlines c frames f (inside inner m) (inside (inlinedFrames c inner) m') := by
  refine ⟨fun s => h.grows { s with frames := inner, depth := s.depth + 1 }, fun s s' hs => ?_⟩
  have hinner : State.Inlines c inner { s with frames := inner, depth := s.depth + 1 }
      { s' with frames := inlinedFrames c inner, depth := s'.depth + 1 } :=
    { hs with here := rfl, there := rfl, depth := congrArg (· + 1) hs.depth }
  obtain ⟨hnumber, e, he, hrefuses⟩ | ⟨hvalue, hafter⟩ := h.run _ _ hinner
  · exact .inl ⟨hnumber, e, he, hrefuses⟩
  · refine .inr ⟨hvalue, { hafter with here := hs.here, there := hs.there, depth := ?_ }⟩
    exact congrArg (· - 1) hafter.depth

end Inlines

theorem isSome_kind?_inlined (s : Span) (x : Sentinel) :
    ((Shape.sentinel s x).inlined c).kind?.isSome = true := by
  rw [Shape.kind?_inlined]
  rfl

/-- A property of a scalar goes by what is seen of the scalar. -/
theorem plainMember_of_kind? {receiver : Shape} (h : receiver.kind?.isSome = true)
    (property : String) (span : Span) :
    plainMember receiver property span =
      if property = "length" ∧ (receiver.elements?.isSome ∨ receiver.isText) then
        return .number span (receiver.text?.map textLength)
      else if methodNames.contains property then
        refuse ("a call to `." ++ property ++ "(...)`")
          ("method `" ++ property ++ "` used as a value") span span
      else refuse ("a value with property `" ++ property ++ "`") receiver.describe span span := by
  cases receiver with
  | string | number | boolean | sentinel => rfl
  | _ => cases h

theorem inlines_plainMember (receiver : Shape) (property : String) (span : Span) :
    Inlines c frames (Shape.inlined c) (plainMember receiver property span)
      (plainMember (receiver.inlined c) property span) := by
  by_cases hk : receiver.kind?.isSome = true
  · have hk' : (receiver.inlined c).kind?.isSome = true := by rwa [receiver.kind?_inlined]
    rw [plainMember_of_kind? hk, plainMember_of_kind? hk', Shape.elements?_inlined,
      Option.isSome_map, receiver.isText_inlined, receiver.text?_inlined]
    exact .ite (.pure rfl) (.ite (.refuse ..) (.refuse ..))
  · cases receiver with
    | string | number | boolean | sentinel => exact absurd rfl hk
    | unknown s => exact .pure rfl
    | record s fields =>
      simp only [Shape.inlined, plainMember]
      rw [Shape.get?_inlinedFields]
      cases Entries.get? fields property with
      | some v => exact .pure rfl
      | none => exact .refuse ..
    | tuple s items =>
      refine .ite (.pure ?_) (.ite (.refuse ..) (.refuse ..))
      rw [Shape.length_inlinedAll]
      rfl
    | array s element => exact .ite (.pure rfl) (.ite (.refuse ..) (.refuse ..))
    | null s | undefined s => exact .ite (.pure rfl) (.refuse ..)
    | function s ps b fs | oneOf s bs =>
      exact .ite (.pure rfl) (.ite (.refuse ..) (.refuse ..))

theorem member_of_kind? {receiver : Shape} (h : receiver.kind?.isSome = true)
    (property : String) (span : Span) :
    member property span receiver = plainMember receiver property span := by
  cases receiver with
  | oneOf => cases h
  | _ => rw [member]; rintro _ _ ⟨⟩

mutual

theorem inlines_member (property : String) (span : Span) : ∀ receiver : Shape,
    Inlines c frames (Shape.inlined c) (member property span receiver)
      (member property span (receiver.inlined c))
  | .oneOf _ branches => (inlines_members property span branches).bind fun _ => .oneOf ..
  | .sentinel s x => by
    rw [member, member_of_kind? (isSome_kind?_inlined s x)]
    · exact inlines_plainMember ..
    · rintro _ _ ⟨⟩
  | .string .. | .number .. | .boolean .. | .record .. | .tuple .. | .array ..
  | .function .. | .null .. | .undefined .. | .unknown .. => by
    simp only [member, Shape.inlined]
    exact inlines_plainMember ..

theorem inlines_members (property : String) (span : Span) : ∀ shapes : List Shape,
    Inlines c frames (inlinedAll c) (members property span shapes)
      (members property span (inlinedAll c shapes))
  | [] => .pure rfl
  | shape :: shapes =>
    (inlines_member property span shape).bind fun _ =>
      (inlines_members property span shapes).bind fun _ => .pure rfl

end

/-- Whether a shape is indexed by what it has inside, if anything is known of it. -/
def hasParts : Shape → Bool
  | .unknown _ | .tuple .. | .array .. | .record .. => true
  | _ => false

theorem hasParts_inlined (shape : Shape) : hasParts (shape.inlined c) = hasParts shape := by
  cases shape with
  | sentinel s x =>
    obtain ⟨n, v⟩ := x
    exact Shape.view_inlined_sentinel hasParts (by cases v <;> rfl)
  | _ => rfl

theorem index_of_hasParts {receiver : Shape} (h : hasParts receiver = false) (position : Shape)
    (span : Span) :
    index receiver position span =
      if position.isUnknown then return .unknown span
      else characterAt receiver position span := by
  cases receiver with
  | unknown | tuple | array | record => cases h
  | _ => cases position <;> rfl

theorem inlines_characterAt (receiver position : Shape) (span : Span) :
    Inlines c frames (Shape.inlined c) (characterAt receiver position span)
      (characterAt (receiver.inlined c) (position.inlined c) span) := by
  unfold characterAt
  rw [receiver.isText_inlined, receiver.text?_inlined]
  cases htext : receiver.isText with
  | false => exact .refuse ..
  | true =>
    cases position with
    | number s x => exact .pure rfl
    | sentinel s x =>
      obtain ⟨rfl, hx⟩ | ⟨-, hx⟩ := Shape.inlined_sentinel (c := c) s x <;> rw [hx]
      · rcases hv : x.literal with v | v | v
        · exact .refuse ..
        · exact .refused (by rw [hv]; rfl) fun _ => .position (.inr htext)
        · exact .refuse ..
      · exact .refuse ..
    | _ => exact .refuse ..

/-- The elements of a tuple or an array are not found under a constant. -/
theorem inlines_index_constant {receiver : Shape} (h : receiver.elements?.isSome = true)
    (s : Span) (x : Sentinel) (span : Span) :
    Inlines c frames (Shape.inlined c) (index receiver (.sentinel s x) span)
      (index (receiver.inlined c) ((Shape.sentinel s x).inlined c) span) := by
  cases receiver with
  | tuple _ items | array _ element =>
    obtain ⟨rfl, hx⟩ | ⟨-, hx⟩ := Shape.inlined_sentinel (c := c) s x <;> rw [hx]
    · rcases hv : x.literal with v | v | v
      · exact .refuse ..
      · exact .refused (by rw [hv]; rfl) fun _ => .position (.inl h)
      · exact .refuse ..
    · exact .refuse ..
  | _ => cases h

/-- The fields of a record are found under a text, whether it is known as a constant or not. -/
theorem inlines_index_record (s : Span) (fields : ShapeFields) (position : Shape) (span : Span) :
    Inlines c frames (Shape.inlined c) (index (.record s fields) position span)
      (index ((Shape.record s fields).inlined c) (position.inlined c) span) := by
  have hmember (key : String) : Inlines c frames _ (member key span (.record s fields)) _ :=
    inlines_member ..
  cases position with
  | unknown t => exact .pure rfl
  | string t v =>
    cases v with
    | none => exact .pure rfl
    | some key => exact hmember key
  | sentinel t x =>
    obtain ⟨rfl, hx⟩ | ⟨-, hx⟩ := Shape.inlined_sentinel (c := c) t x <;> rw [hx]
    · obtain ⟨n, v⟩ := x
      cases v with
      | string key => exact hmember key
      | _ => exact .refuse ..
    · obtain ⟨n, v⟩ := x
      cases v with
      | string key => exact hmember key
      | _ => exact .refuse ..
  | _ => exact .refuse ..

theorem inlines_index (receiver position : Shape) (span : Span) :
    Inlines c frames (Shape.inlined c) (index receiver position span)
      (index (receiver.inlined c) (position.inlined c) span) := by
  have hchar : Inlines c frames _ (characterAt receiver position span) _ :=
    inlines_characterAt ..
  by_cases hparts : hasParts receiver = false
  · have hparts' : hasParts (receiver.inlined c) = false := by rwa [hasParts_inlined]
    rw [index_of_hasParts hparts, index_of_hasParts hparts', position.isUnknown_inlined]
    exact .ite (.pure rfl) hchar
  · cases receiver with
    | unknown s => exact .pure rfl
    | record s fields => exact inlines_index_record ..
    | tuple s items =>
      cases position with
      | unknown t => exact .pure rfl
      | sentinel t x => exact inlines_index_constant rfl ..
      | number t x =>
        cases x with
        | none => exact .oneOf ..
        | some x =>
          have hitem : (Number.index? x).bind (fun i => (inlinedAll c items)[i]?) =
              ((Number.index? x).bind fun i => items[i]?).map (Shape.inlined c) := by
            cases Number.index? x with
            | none => rfl
            | some i => exact Shape.getElem?_inlinedAll c items i
          simp only [Shape.inlined, index, hitem, Shape.length_inlinedAll]
          cases (Number.index? x).bind fun i => items[i]? with
          | some item => exact .pure rfl
          | none => exact .refuse ..
      | _ => exact hchar
    | array s element =>
      cases position with
      | unknown t => exact .pure rfl
      | sentinel t x => exact inlines_index_constant rfl ..
      | number t x => exact .pure rfl
      | _ => exact hchar
    | _ => exact absurd rfl hparts

theorem inlines_unary (op : UnaryOp) (operand : Shape) (span : Span) :
    Inlines c frames (Shape.inlined c) (unary op operand span)
      (unary op (operand.inlined c) span) := by
  cases op with
  | not => exact .pure (by rw [operand.truthiness_inlined]; rfl)
  | negate =>
    cases operand with
    | number s x => exact .pure rfl
    | unknown s => exact .pure rfl
    | sentinel s x =>
      obtain ⟨rfl, hx⟩ | ⟨-, hx⟩ := Shape.inlined_sentinel (c := c) s x <;> rw [hx]
      · rcases hv : x.literal with v | v | v
        · exact .refuse ..
        · exact .refused (by rw [hv]; rfl) fun _ => .negated
        · exact .refuse ..
      · exact .refuse ..
    | _ => exact .refuse ..

theorem inlines_concatenate (left right : Shape) (span : Span) :
    Inlines c frames (Shape.inlined c) (concatenate left right span)
      (concatenate (left.inlined c) (right.inlined c) span) := by
  unfold concatenate
  rw [left.rendering_inlined, right.rendering_inlined, left.kind?_inlined, right.kind?_inlined]
  cases left.kind? with
  | none => exact .refuse ..
  | some k =>
    cases right.kind? with
    | none => exact .refuse ..
    | some k' =>
      dsimp only
      cases left.rendering <;> cases right.rendering <;> exact .pure rfl

/-- An operator on numbers, of which neither is a constant. -/
def arithmetic (op : BinaryOp) (left right : Shape) (span : Span) : CheckM Shape :=
  match left, right with
  | .number _ a, .number _ b =>
    if op.isOrder then return .boolean span (both op.compareNumbers a b)
    else return .number span (both op.compute a b)
  | _, _ => operatorError op left right span

theorem arithmetic_of_kind? {left right : Shape}
    (h : ¬ (left.kind? = some .number ∧ right.kind? = some .number)) (op : BinaryOp)
    (span : Span) : arithmetic op left right span = operatorError op left right span := by
  cases left with
  | number =>
    cases right with
    | number => exact absurd ⟨rfl, rfl⟩ h
    | _ => rfl
  | _ => rfl

theorem inlines_arithmetic (op : BinaryOp) (left right : Shape) (span : Span) :
    Inlines c frames (Shape.inlined c) (arithmetic op left right span)
      (arithmetic op (left.inlined c) (right.inlined c) span) := by
  by_cases hk : left.kind? = some .number ∧ right.kind? = some .number
  · have hrefused (hc : ∃ s, left = .sentinel s c ∨ right = .sentinel s c)
        (hnumber : c.literal.kind = .number) (m' : CheckM Shape) :
        Inlines c frames (Shape.inlined c) (operatorError op left right span) m' :=
      .refused hnumber fun _ => .operand hk hc
    obtain ⟨hleft, hright⟩ := hk
    cases left with
    | number s a =>
      cases right with
      | number t b => exact .ite (.pure rfl) (.pure rfl)
      | sentinel t x =>
        obtain ⟨rfl, -⟩ | ⟨-, hx⟩ := Shape.inlined_sentinel (c := c) t x
        · exact hrefused ⟨t, .inr rfl⟩ (Option.some.inj hright) _
        · rw [hx]
          exact .refuse ..
      | _ => cases hright
    | sentinel s x =>
      obtain ⟨rfl, -⟩ | ⟨-, hx⟩ := Shape.inlined_sentinel (c := c) s x
      · exact hrefused ⟨s, .inl rfl⟩ (Option.some.inj hleft) _
      · rw [hx]
        exact .refuse ..
    | _ => cases hleft
  · have hk' : ¬ ((left.inlined c).kind? = some .number ∧
        (right.inlined c).kind? = some .number) := by
      rwa [left.kind?_inlined, right.kind?_inlined]
    rw [arithmetic_of_kind? hk, arithmetic_of_kind? hk']
    exact .refuse ..

theorem inlines_plainOperator (op : BinaryOp) (left right : Shape) (span : Span) :
    Inlines c frames (Shape.inlined c) (plainOperator op left right span)
      (plainOperator op (left.inlined c) (right.inlined c) span) := by
  have harithmetic : Inlines c frames _ (arithmetic op left right span) _ :=
    inlines_arithmetic ..
  unfold plainOperator
  rw [Shape.equal?_inlined, left.isText_inlined, right.isText_inlined, left.text?_inlined,
    right.text?_inlined]
  exact .ite (.pure rfl) (.ite (.pure rfl) (.ite (inlines_concatenate ..)
    (.ite (.pure rfl) harithmetic)))

theorem operatorRight_of_kind? {right : Shape} (h : right.kind?.isSome = true) (op : BinaryOp)
    (left : Shape) (span : Span) :
    operatorRight op left span right = plainOperator op left right span := by
  cases right with
  | string | number | boolean | sentinel => rfl
  | _ => cases h

theorem operator_of_kind? {left : Shape} (h : left.kind?.isSome = true) (op : BinaryOp)
    (right : Shape) (span : Span) :
    operator op right span left = operatorRight op left span right := by
  cases left with
  | string | number | boolean | sentinel => rfl
  | _ => cases h

mutual

theorem inlines_operatorRight (op : BinaryOp) (left : Shape) (span : Span) : ∀ right : Shape,
    Inlines c frames (Shape.inlined c) (operatorRight op left span right)
      (operatorRight op (left.inlined c) span (right.inlined c))
  | .unknown _ => .pure rfl
  | .oneOf _ branches => (inlines_operatorRights op left span branches).bind fun _ => .oneOf ..
  | .sentinel s x => by
    rw [operatorRight_of_kind? (isSome_kind?_inlined s x)]
    exact inlines_plainOperator ..
  | .string .. | .number .. | .boolean .. | .record .. | .tuple .. | .array .. | .function ..
  | .null .. | .undefined .. => by
    simp only [operatorRight, Shape.inlined]
    exact inlines_plainOperator ..

theorem inlines_operatorRights (op : BinaryOp) (left : Shape) (span : Span) :
    ∀ shapes : List Shape, Inlines c frames (inlinedAll c) (operatorRights op left span shapes)
      (operatorRights op (left.inlined c) span (inlinedAll c shapes))
  | [] => .pure rfl
  | shape :: shapes =>
    (inlines_operatorRight op left span shape).bind fun _ =>
      (inlines_operatorRights op left span shapes).bind fun _ => .pure rfl

end

mutual

theorem inlines_operator (op : BinaryOp) (right : Shape) (span : Span) : ∀ left : Shape,
    Inlines c frames (Shape.inlined c) (operator op right span left)
      (operator op (right.inlined c) span (left.inlined c))
  | .unknown _ => .pure rfl
  | .oneOf _ branches => by
    simp only [operator, Shape.inlined, right.isUnknown_inlined]
    exact .ite (.pure rfl) ((inlines_operators op right span branches).bind fun _ => .oneOf ..)
  | .sentinel s x => by
    rw [operator_of_kind? (isSome_kind?_inlined s x)]
    exact inlines_operatorRight ..
  | .string .. | .number .. | .boolean .. | .record .. | .tuple .. | .array .. | .function ..
  | .null .. | .undefined .. => by
    simp only [operator, Shape.inlined]
    exact inlines_operatorRight ..

theorem inlines_operators (op : BinaryOp) (right : Shape) (span : Span) :
    ∀ shapes : List Shape, Inlines c frames (inlinedAll c) (operators op right span shapes)
      (operators op (right.inlined c) span (inlinedAll c shapes))
  | [] => .pure rfl
  | shape :: shapes =>
    (inlines_operator op right span shape).bind fun _ =>
      (inlines_operators op right span shapes).bind fun _ => .pure rfl

end

theorem refuses_index (hnumber : c.literal.kind = .number) {receiver : Shape}
    (h : receiver.elements?.isSome = true ∨ receiver.isText = true) (t span : Span) (s : State) :
    (after (index receiver (.sentinel t c) span) s).Refuses c := by
  have hposition : ∀ e : CheckError,
      e.expected = "an array indexed by a number or an object indexed by a string" →
      e.found = receiver.describe ++ " indexed by " ++ (Shape.sentinel t c).describe →
      e.RefusesOperand c := fun _ => .position h
  cases receiver with
  | tuple | array => exact refuses_refuse hnumber hposition
  | string | sentinel =>
    rw [index_of_hasParts rfl]
    have htext := h.resolve_left (by simp [Shape.elements?])
    simp only [Shape.isUnknown, characterAt, htext]
    exact refuses_refuse hnumber hposition
  | _ => simp [Shape.elements?, Shape.isText, Shape.kind?] at h

theorem refuses_operator (hnumber : c.literal.kind = .number) {op : BinaryOp} {left right : Shape}
    (hop : op ≠ .equal ∧ op ≠ .notEqual)
    (hk : left.kind? = some .number ∧ right.kind? = some .number)
    (hc : ∃ t, left = .sentinel t c ∨ right = .sentinel t c) (span : Span) (s : State) :
    (after (operator op right span left) s).Refuses c := by
  have hplain : operator op right span left = arithmetic op left right span := by
    rw [operator_of_kind? (by rw [hk.1]; rfl), operatorRight_of_kind? (by rw [hk.2]; rfl)]
    simp [plainOperator, hop, Shape.isText, hk]
    rfl
  have herror : arithmetic op left right span = operatorError op left right span := by
    obtain ⟨t, rfl | rfl⟩ := hc
    · rfl
    · cases left <;> rfl
  rw [hplain, herror]
  exact refuses_refuse hnumber fun _ => .operand hk hc

/-- From every state, the operations that take a number refuse a constant that stands for one. -/
theorem refuses_constant (hnumber : c.literal.kind = .number) (t span : Span) (s : State) :
    (after (unary .negate (.sentinel t c) span) s).Refuses c ∧
    (∀ receiver : Shape, receiver.elements?.isSome = true ∨ receiver.isText = true →
      (after (index receiver (.sentinel t c) span) s).Refuses c) ∧
    ∀ (op : BinaryOp) (other : Shape), op ≠ .equal ∧ op ≠ .notEqual →
      other.kind? = some .number →
      (after (operator op other span (.sentinel t c)) s).Refuses c ∧
      (after (operator op (.sentinel t c) span other) s).Refuses c := by
  have hkind : (Shape.sentinel t c).kind? = some .number := congrArg some hnumber
  exact ⟨refuses_refuse hnumber fun _ => .negated, fun _ h => refuses_index hnumber h t span s,
    fun op other hop hother =>
      ⟨refuses_operator hnumber hop ⟨hkind, hother⟩ ⟨t, .inl rfl⟩ span s,
        refuses_operator hnumber hop ⟨hother, hkind⟩ ⟨t, .inr rfl⟩ span s⟩⟩

end Check

end TypedConfig
