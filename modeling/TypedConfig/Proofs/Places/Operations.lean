import TypedConfig.Proofs.Check.Run
import TypedConfig.Proofs.Places.Shapes

/-! # Operations on shapes keep to places

A check computation reads names by looking them up, so it does the same in states that bind the
same names to the same shapes, in whatever order. If what a state holds stands in a class of
places, then the shapes that the computation gives and the errors that it records do too.
-/

namespace TypedConfig.Check

open Shape (AllStandIn FieldsStandIn FramesStandIn allStandIn_nil allStandIn_cons)

/-- States that bind the same names to the same, and are equal in all else. -/
structure State.Agrees (s s' : State) : Prop where
  names : ∀ name, Entries.get? s'.globals name = Entries.get? s.globals name
  rest : s' = { s with globals := s'.globals }

theorem State.Agrees.refl (s : State) : s.Agrees s := ⟨fun _ => rfl, rfl⟩

variable (S : Span → Prop) {α β : Type}

/-- A state whose shapes and errors stand in the class. -/
structure State.StandsIn (s : State) : Prop where
  globals : ∀ name b, Entries.get? s.globals name = some b → b.shape.StandsIn S
  frames : FramesStandIn S s.frames
  errors : ∀ e ∈ s.errors, S e.span

/-- From states that agree and stand in the class the computation gives the same result, which
has a property, and leaves such states. -/
structure Places (m : CheckM α) (P : α → Prop) : Prop where
  run : ∀ s s', s.Agrees s' → s.StandsIn S →
    value m s' = value m s ∧ P (value m s) ∧
      (after m s).Agrees (after m s') ∧ (after m s).StandsIn S

variable {S}

namespace State.Agrees

variable {s s' : State}

theorem lookup? (h : s.Agrees s') (name : String) : s'.lookup? name = s.lookup? name := by
  unfold State.lookup?
  rw [h.names, h.rest]

end State.Agrees

namespace Places

variable {m n : CheckM α} {P : α → Prop} {Q : β → Prop}

theorem pure {a : α} (h : P a) : Places S (Pure.pure a) P := ⟨fun _ _ ha hs => ⟨rfl, h, ha, hs⟩⟩

theorem bind {f : α → CheckM β} (h : Places S m P) (hf : ∀ a, P a → Places S (f a) Q) :
    Places S (m >>= f) Q := by
  refine ⟨fun s s' ha hs => ?_⟩
  obtain ⟨hv, hp, ha, hs⟩ := h.run s s' ha hs
  simp only [value_bind, after_bind, hv]
  exact (hf _ hp).run _ _ ha hs

theorem ite {p : Prop} [Decidable p] (h : Places S m P) (hn : Places S n P) :
    Places S (if p then m else n) P := by
  split
  · exact h
  · exact hn

theorem map (f : α → β) (h : Places S m fun a => Q (f a)) : Places S (f <$> m) Q :=
  h.bind fun _ ha => .pure ha

/-- A computation that goes by something read off the state. -/
theorem read (f : State → α) {k : α → CheckM β} (hf : ∀ s s', s.Agrees s' → f s' = f s)
    (hP : ∀ s, s.StandsIn S → P (f s)) (hk : ∀ a, P a → Places S (k a) Q) :
    Places S (MonadState.get >>= fun s => k (f s)) Q := by
  refine ⟨fun s s' ha hs => ?_⟩
  simp only [value_bind, after_bind, value_get, after_get, hf s s' ha]
  exact (hk _ (hP s hs)).run s s' ha hs

/-- A change of the state that leaves the names alone and does not go by them. -/
theorem modify {f : State → State}
    (hf : ∀ s globals, f { s with globals := globals } = { f s with globals := globals })
    (hs : ∀ s, s.StandsIn S → FramesStandIn S (f s).frames ∧ ∀ e ∈ (f s).errors, S e.span) :
    Places S (modify f : CheckM Unit) fun _ => True := by
  have hglobals (s : State) : (f s).globals = s.globals := by
    have h : f s = { f s with globals := s.globals } := hf s s.globals
    rw [h]
  refine ⟨fun s s' ha h => ⟨rfl, trivial, ⟨fun name => ?_, ?_⟩, ?_, (hs s h).1, (hs s h).2⟩⟩
  · rw [after_modify, after_modify, hglobals, hglobals]
    exact ha.names name
  · have hs' : f s' = { f s with globals := s'.globals } := ha.rest ▸ hf s s'.globals
    rw [after_modify, hglobals, hs']
    rfl
  · rw [after_modify, hglobals]
    exact h.globals

theorem reportNoted (expected found : String) {span : Span} (h : S span) (note : Option String) :
    Places S (reportNoted expected found span note) fun _ => True :=
  .modify (fun _ _ => rfl) fun _ hs => ⟨hs.frames, List.forall_mem_cons.2 ⟨h, hs.errors⟩⟩

theorem report (expected found : String) {span : Span} (h : S span) :
    Places S (report expected found span) fun _ => True := .reportNoted _ _ h _

theorem refuse (expected found : String) {errorSpan span : Span} (he : S errorSpan)
    (h : S span) : Places S (refuse expected found errorSpan span) (Shape.StandsIn S) :=
  .bind (.report _ _ he) fun _ _ => .pure (.unknown h)

theorem reportBranches {span : Span} (h : S span) :
    Places S (reportBranches span) fun _ => True := .reportNoted _ _ h _

theorem oneOf {shapes : List Shape} (hshapes : AllStandIn S shapes) {span : Span} (h : S span) :
    Places S (oneOf shapes span) (Shape.StandsIn S) := by
  unfold Check.oneOf
  split
  · rename_i shape hone
    exact .pure (hshapes.oneOf? h hone)
  · exact .bind (.reportBranches h) fun _ _ => .pure (.unknown h)

theorem choose (condition : Option Bool) {yes no : CheckM Shape}
    (hy : Places S yes (Shape.StandsIn S)) (hn : Places S no (Shape.StandsIn S)) {span : Span}
    (h : S span) : Places S (choose condition yes no span) (Shape.StandsIn S) :=
  match condition with
  | some true => hy
  | some false => hn
  | none => .bind hy fun _ ha => .bind hn fun _ hb => .oneOf (Shape.allStandIn_pair ha hb) h

theorem arrayOf {items : List Shape} (hitems : AllStandIn S items) (isKnown : Bool)
    {span : Span} (h : S span) : Places S (arrayOf items isKnown span) (Shape.StandsIn S) :=
  .ite (.pure (.tuple h hitems)) (.bind (.oneOf hitems h) fun _ he => .pure (.array h he))

theorem inside {frames : List ShapeFrame} (hframes : FramesStandIn S frames)
    (h : Places S m P) : Places S (inside frames m) P := by
  refine ⟨fun s s' ha hs => ?_⟩
  have hs' : s'.frames = s.frames := by rw [ha.rest]
  have hdepth : s'.depth = s.depth := by rw [ha.rest]
  have henter : State.Agrees { s with frames := frames, depth := s.depth + 1 }
      { s' with frames := frames, depth := s'.depth + 1 } :=
    ⟨ha.names, by rw [ha.rest]⟩
  obtain ⟨hv, hp, hagree, hstand⟩ := h.run _ _ henter ⟨hs.globals, hframes, hs.errors⟩
  simp only [after_inside]
  refine ⟨hv, hp, ⟨hagree.names, ?_⟩, hstand.globals, hs.frames, hstand.errors⟩
  rw [hagree.rest, hs']

end Places

variable {span : Span} {receiver position shape : Shape}

theorem places_plainMember (hr : receiver.StandsIn S) (property : String) (h : S span) :
    Places S (plainMember receiver property span) (Shape.StandsIn S) := by
  have hrefuse (expected found : String) :
      Places S (refuse expected found span span) (Shape.StandsIn S) := .refuse _ _ h h
  cases receiver with
  | unknown s => exact .pure (.unknown h)
  | record s fields =>
    rw [plainMember]
    split
    · rename_i v hv
      exact .pure ((Shape.standsIn_record.1 hr).2.get? hv)
    · exact hrefuse ..
  | null s | undefined s => exact .ite (.pure (.number _ h)) (hrefuse ..)
  | _ => exact .ite (.pure (.number _ h)) (.ite (hrefuse ..) (hrefuse ..))

mutual

theorem places_member (property : String) (h : S span) : ∀ {receiver : Shape},
    receiver.StandsIn S → Places S (member property span receiver) (Shape.StandsIn S)
  | .oneOf _ _, hr =>
    .bind (places_members property h (Shape.standsIn_oneOf.1 hr).2) fun _ hs => .oneOf hs h
  | .string .., hr | .number .., hr | .boolean .., hr | .sentinel .., hr | .record .., hr
  | .tuple .., hr | .array .., hr | .function .., hr | .null .., hr | .undefined .., hr
  | .unknown .., hr => by
    rw [member]
    · exact places_plainMember hr property h
    · exact nofun

theorem places_members (property : String) (h : S span) : ∀ {shapes : List Shape},
    AllStandIn S shapes → Places S (members property span shapes) (AllStandIn S)
  | [], _ => .pure allStandIn_nil
  | _ :: _, hs =>
    .bind (places_member property h (allStandIn_cons.1 hs).1) fun _ hf =>
      .bind (places_members property h (allStandIn_cons.1 hs).2) fun _ hrest =>
        .pure (allStandIn_cons.2 ⟨hf, hrest⟩)

end

theorem places_index (hr : receiver.StandsIn S) (hp : position.StandsIn S) (h : S span) :
    Places S (index receiver position span) (Shape.StandsIn S) := by
  unfold index
  split
  · exact .pure (.unknown h)
  · exact .pure (.unknown h)
  · split
    · rename_i hitem
      obtain ⟨i, -, hi⟩ := Option.bind_eq_some_iff.1 hitem
      exact .pure ((Shape.standsIn_tuple.1 hr).2 _ (List.mem_of_getElem? hi))
    · exact .refuse _ _ hp.span h
  · exact .oneOf (Shape.standsIn_tuple.1 hr).2 h
  · exact .pure (Shape.standsIn_array.1 hr).2
  · split
    · exact places_member _ h hr
    · exact .pure (.unknown h)
    · split
      · exact .pure (.string _ h)
      · exact .refuse _ _ h h

theorem places_unary (op : UnaryOp) (hs : shape.StandsIn S) (h : S span) :
    Places S (unary op shape span) (Shape.StandsIn S) := by
  unfold unary
  split
  · exact .pure (.boolean _ h)
  · exact .pure (.number _ h)
  · exact .pure (.unknown h)
  · exact .refuse _ _ hs.span h

theorem places_operatorError (op : BinaryOp) (left right : Shape) (h : S span) :
    Places S (operatorError op left right span) (Shape.StandsIn S) := .refuse _ _ h h

theorem places_concatenate (left right : Shape) (h : S span) :
    Places S (concatenate left right span) (Shape.StandsIn S) := by
  unfold concatenate
  split
  · split <;> exact .pure (.string _ h)
  · exact places_operatorError _ _ _ h

theorem places_plainOperator (op : BinaryOp) (left right : Shape) (h : S span) :
    Places S (plainOperator op left right span) (Shape.StandsIn S) := by
  have hboolean (b : Option Bool) :
      Places S (pure (.boolean span b)) (Shape.StandsIn S) := .pure (.boolean b h)
  refine .ite (hboolean _) (.ite (hboolean _) (.ite (places_concatenate left right h) ?_))
  refine .ite (hboolean _) ?_
  split
  · exact .ite (hboolean _) (.pure (.number _ h))
  · exact places_operatorError op left right h

mutual

theorem places_operatorRight (op : BinaryOp) (left : Shape) (h : S span) : ∀ right : Shape,
    Places S (operatorRight op left span right) (Shape.StandsIn S)
  | .unknown _ => .pure (.unknown h)
  | .oneOf _ branches =>
    .bind (places_operatorRights op left h branches) fun _ hs => .oneOf hs h
  | .string .. | .number .. | .boolean .. | .sentinel .. | .record .. | .tuple .. | .array ..
  | .function .. | .null .. | .undefined .. => by
    simp only [operatorRight]
    exact places_plainOperator _ _ _ h

theorem places_operatorRights (op : BinaryOp) (left : Shape) (h : S span) :
    ∀ shapes : List Shape, Places S (operatorRights op left span shapes) (AllStandIn S)
  | [] => .pure allStandIn_nil
  | shape :: shapes =>
    .bind (places_operatorRight op left h shape) fun _ hf =>
      .bind (places_operatorRights op left h shapes) fun _ hrest =>
        .pure (allStandIn_cons.2 ⟨hf, hrest⟩)

end

mutual

theorem places_operator (op : BinaryOp) (right : Shape) (h : S span) : ∀ left : Shape,
    Places S (operator op right span left) (Shape.StandsIn S)
  | .unknown _ => .pure (.unknown h)
  | .oneOf _ branches =>
    .ite (.pure (.unknown h)) <|
      .bind (places_operators op right h branches) fun _ hs => .oneOf hs h
  | .string .. | .number .. | .boolean .. | .sentinel .. | .record .. | .tuple .. | .array ..
  | .function .. | .null .. | .undefined .. => by
    simp only [operator]
    exact places_operatorRight _ _ h _

theorem places_operators (op : BinaryOp) (right : Shape) (h : S span) :
    ∀ shapes : List Shape, Places S (operators op right span shapes) (AllStandIn S)
  | [] => .pure allStandIn_nil
  | shape :: shapes =>
    .bind (places_operator op right h shape) fun _ hf =>
      .bind (places_operators op right h shapes) fun _ hrest =>
        .pure (allStandIn_cons.2 ⟨hf, hrest⟩)

end

variable (S) in
/-- A caller that keeps to the class, given functions and arguments that stand in it. -/
def PlacesCalls (call : Caller) : Prop :=
  ∀ params body captured args span, body.StandsIn S → FramesStandIn S captured →
    AllStandIn S args → S span →
      Places S (call params body captured args span) (Shape.StandsIn S)

variable {call : Caller} {args elements : List Shape}

theorem places_callback (method : String) (hargs : AllStandIn S args) (h : S span) :
    Places S (callback method args span) fun r =>
      ∀ f ∈ r, f.2.1.StandsIn S ∧ FramesStandIn S f.2.2 := by
  unfold callback
  split
  · rename_i params body captured rest
    obtain ⟨-, hbody, hcaptured⟩ := Shape.standsIn_function.1 (allStandIn_cons.1 hargs).1
    refine .pure ?_
    rintro _ ⟨⟩
    exact ⟨hbody, hcaptured⟩
  · exact .pure nofun
  · exact .bind (.report _ _ h) fun _ _ => .pure nofun

theorem places_iterate {apply : Shape → Shape → CheckM Shape}
    (happly : ∀ a b, a.StandsIn S → b.StandsIn S → Places S (apply a b) (Shape.StandsIn S))
    (kind : Iteration) (isKnown : Bool) (h : S span) (i : Nat) (hs : AllStandIn S elements) :
    Places S (iterate apply kind isKnown span i elements) fun r => AllStandIn S r.1 := by
  induction elements generalizing i with
  | nil => exact .pure allStandIn_nil
  | cons element rest ih =>
    obtain ⟨helement, hrest⟩ := allStandIn_cons.1 hs
    refine .bind (happly _ _ helement (.number _ h)) fun result hresult => ?_
    refine .bind (ih (i + 1) hrest) fun more hmore => .pure ?_
    exact Shape.allStandIn_append.2 ⟨allStandIn_contribution kind helement hresult, hmore⟩

theorem places_separator (hargs : AllStandIn S args) :
    Places S (separator args) fun _ => True := by
  unfold separator
  split
  · exact .pure trivial
  · have harg := (allStandIn_cons.1 hargs).1.span
    refine .ite (.pure trivial) (.ite (.pure trivial) ?_)
    exact .bind (.report _ _ harg) fun _ _ => .pure trivial

theorem places_joinParts (hs : AllStandIn S elements) :
    Places S (joinParts elements) fun _ => True := by
  induction elements with
  | nil => exact .pure trivial
  | cons element rest ih =>
    obtain ⟨helement, hrest⟩ := allStandIn_cons.1 hs
    have hpart : Places S (joinPart element) fun _ => True := by
      unfold joinPart
      split
      · exact .pure trivial
      · exact .pure trivial
      · exact .bind (.report _ _ helement.span) fun _ _ => .pure trivial
    rw [joinParts_cons]
    exact .bind hpart fun _ _ => .bind (ih hrest) fun _ _ => .pure trivial

theorem places_unknownMethod (hr : receiver.StandsIn S) (name : String) (h : S span) :
    Places S (unknownMethod receiver name span) (Shape.StandsIn S) := .refuse _ _ hr.span h

theorem places_arrayMethod (hcall : PlacesCalls S call) (hr : receiver.StandsIn S)
    (helements : AllStandIn S elements) (isKnown : Bool) (name : String)
    (hargs : AllStandIn S args) (h : S span) :
    Places S (arrayMethod call receiver elements isKnown name args span) (Shape.StandsIn S) := by
  unfold arrayMethod
  split
  · refine .bind (places_callback _ hargs h) fun f hf => ?_
    split
    · exact .pure (.unknown h)
    · obtain ⟨hbody, hcaptured⟩ := hf _ rfl
      refine .bind (places_iterate (fun a b ha hb => ?_) _ isKnown h 0 helements)
        fun items hitems => .arrayOf hitems _ h
      exact hcall _ _ _ _ _ hbody hcaptured (Shape.allStandIn_pair ha hb) h
  · refine .ite ?_ (.ite ?_ (places_unknownMethod hr name h))
    · exact .arrayOf (Shape.allStandIn_append.2 ⟨helements, allStandIn_concatItems hargs⟩) _ h
    · exact .bind (places_separator hargs) fun _ _ =>
        .bind (places_joinParts helements) fun _ _ => .pure (.string _ h)

theorem places_splitText (text : Option String) (hargs : AllStandIn S args) (h : S span) :
    Places S (splitText text args span) (Shape.StandsIn S) := by
  unfold splitText
  split
  · exact .pure (.tuple h (List.forall_mem_singleton.2 (.string _ h)))
  · refine .ite ?_ (.refuse _ _ (allStandIn_cons.1 hargs).1.span h)
    split
    · exact .pure (.tuple h (List.forall_mem_map.2 fun p _ => .string _ h))
    · exact .pure (.array h (.string _ h))

theorem places_textMethod (hr : receiver.StandsIn S) (name : String) (hargs : AllStandIn S args)
    (h : S span) : Places S (textMethod receiver name args span) (Shape.StandsIn S) := by
  unfold textMethod
  split
  · exact .pure (.string _ h)
  · exact .ite (places_splitText _ hargs h) (places_unknownMethod hr name h)

theorem places_callValue (hcall : PlacesCalls S call) {function : Shape}
    (hf : function.StandsIn S) (hargs : AllStandIn S args) {errorSpan : Span} (he : S errorSpan)
    (h : S span) :
    Places S (callValue call function args errorSpan span) (Shape.StandsIn S) := by
  unfold callValue
  split
  · obtain ⟨-, hbody, hcaptured⟩ := Shape.standsIn_function.1 hf
    exact hcall _ _ _ _ _ hbody hcaptured hargs h
  · exact .pure (.unknown h)
  · exact .refuse _ _ he h

theorem places_plainMethod (hcall : PlacesCalls S call) (hr : receiver.StandsIn S) (name : String)
    (hargs : AllStandIn S args) (h : S span) :
    Places S (plainMethod call receiver name args span) (Shape.StandsIn S) := by
  unfold plainMethod
  split
  · exact .pure (.unknown h)
  · refine .bind (places_member name h hr) fun property hproperty => ?_
    split
    · exact .pure hproperty
    · exact places_callValue hcall hproperty hargs h h
  · split
    · rename_i elements
      exact places_arrayMethod hcall hr (hr.elements elements) _ name hargs h
    · exact .ite (places_textMethod hr name hargs h) (places_unknownMethod hr name h)

mutual

theorem places_method (hcall : PlacesCalls S call) (name : String) (hargs : AllStandIn S args)
    (h : S span) : ∀ {receiver : Shape}, receiver.StandsIn S →
      Places S (method call name args span receiver) (Shape.StandsIn S)
  | .oneOf _ _, hr =>
    .bind (places_methods hcall name hargs h (Shape.standsIn_oneOf.1 hr).2) fun _ hs =>
      .oneOf hs h
  | .string .., hr | .number .., hr | .boolean .., hr | .sentinel .., hr | .record .., hr
  | .tuple .., hr | .array .., hr | .function .., hr | .null .., hr | .undefined .., hr
  | .unknown .., hr => by
    rw [method]
    · exact places_plainMethod hcall hr name hargs h
    · exact nofun

theorem places_methods (hcall : PlacesCalls S call) (name : String) (hargs : AllStandIn S args)
    (h : S span) : ∀ {shapes : List Shape}, AllStandIn S shapes →
      Places S (methods call name args span shapes) (AllStandIn S)
  | [], _ => .pure allStandIn_nil
  | _ :: _, hs =>
    .bind (places_method hcall name hargs h (allStandIn_cons.1 hs).1) fun _ hf =>
      .bind (places_methods hcall name hargs h (allStandIn_cons.1 hs).2) fun _ hrest =>
        .pure (allStandIn_cons.2 ⟨hf, hrest⟩)

end

variable (S) in
def Partials.StandsIn (p : Partials) : Prop := ∀ fields ∈ p.fields, FieldsStandIn S fields

variable {p : Partials}

theorem places_spreadInto {partials : List ShapeFields}
    (hp : ∀ fields ∈ partials, FieldsStandIn S fields) (hs : shape.StandsIn S) :
    Places S (spreadInto partials shape) fun r =>
      ∀ partials ∈ r, ∀ fields ∈ partials, FieldsStandIn S fields := by
  unfold spreadInto
  split
  · refine .pure ?_
    rintro _ ⟨⟩
    exact List.forall_mem_map.2 fun fields hm =>
      (hp fields hm).putAll (Shape.standsIn_record.1 hs).2
  · exact .pure fun _ h => Option.some.inj h ▸ hp
  · exact .pure fun _ h => Option.some.inj h ▸ hp
  · exact .pure nofun
  · exact .bind (.report _ _ hs.span) fun _ _ => .pure nofun

theorem places_spreadBranches {partials : List ShapeFields}
    (hp : ∀ fields ∈ partials, FieldsStandIn S fields) {branches : List Shape}
    (hb : AllStandIn S branches) :
    Places S (spreadBranches partials branches) (Partials.StandsIn S) := by
  induction branches with
  | nil => exact .pure nofun
  | cons branch rest ih =>
    obtain ⟨hbranch, hrest⟩ := allStandIn_cons.1 hb
    refine .bind (places_spreadInto hp hbranch) fun first hfirst => ?_
    refine .bind (ih hrest) fun more hmore => .pure (List.forall_mem_append.2 ⟨?_, hmore⟩)
    cases first with
    | none => exact nofun
    | some fields => exact hfirst fields rfl

theorem places_spread (hp : p.StandsIn S) (hs : shape.StandsIn S) :
    Places S (p.spread shape) (Partials.StandsIn S) := by
  refine .bind (places_spreadBranches hp (allStandIn_branchesOf hs)) fun next hnext => ?_
  have hfields : ∀ fields ∈ (if next.fields.isEmpty then p.fields else next.fields),
      FieldsStandIn S fields := by
    split
    · exact hp
    · exact hnext
  exact .ite (.bind (.reportBranches hs.span) fun _ _ => .pure hfields) (.pure hfields)

theorem standsIn_put (hp : p.StandsIn S) (key : String) {keySpan : Span} (hk : S keySpan)
    (hs : shape.StandsIn S) : (p.put key keySpan shape).StandsIn S :=
  List.forall_mem_map.2 fun fields hm => (hp fields hm).put key hk hs

theorem places_shape (hp : p.StandsIn S) (h : S span) :
    Places S (p.shape span) (Shape.StandsIn S) := by
  refine .ite (.pure (.unknown h)) (.oneOf (List.forall_mem_map.2 fun fields hm => ?_) h)
  exact Shape.standsIn_record.2 ⟨h, hp fields hm⟩

theorem State.StandsIn.lookup? {s : State} (hs : s.StandsIn S) {text : String}
    (h : s.lookup? text = some shape) : shape.StandsIn S := by
  unfold State.lookup? at h
  split at h
  · rename_i hframe
    cases h
    exact standsIn_of_inFrames? hs.frames hframe
  · obtain ⟨b, hb, rfl⟩ := Option.map_eq_some_iff.1 h
    exact hs.globals text b hb

theorem places_name (text : String) (h : S span) :
    Places S (name text span) (Shape.StandsIn S) := by
  rw [name_eq]
  refine .read (P := fun r => ∀ shape ∈ r, shape.StandsIn S) (·.lookup? text)
    (fun s s' ha => ha.lookup? text) (fun s hs shape hm => hs.lookup? hm) fun found hfound => ?_
  cases found with
  | some shape => exact .pure ((hfound shape rfl).leafAt h)
  | none => exact .refuse _ _ h h

theorem places_extend (text : Option String) (hs : shape.StandsIn S) :
    Places S (extend text shape) fun _ => True := by
  unfold extend
  split
  · exact .pure trivial
  · exact .pure trivial
  · exact .bind (.report _ _ hs.span) fun _ _ => .pure trivial

end TypedConfig.Check
