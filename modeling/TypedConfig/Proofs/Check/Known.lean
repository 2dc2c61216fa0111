import TypedConfig.Proofs.Check.Events
import TypedConfig.Proofs.Entries

/-! # Checks without unknown shapes

An unknown shape stands in the place of an error. As long as a check finds no error and no object
is indexed by an unknown text, no shape that it gives has an unknown one inside.
-/

namespace TypedConfig

namespace Shape

mutual

/-- Whether no unknown shape is inside a shape. -/
def Known : Shape → Prop
  | .record _ fields => FieldsKnown fields
  | .tuple _ items => AllKnown items
  | .array _ element => Known element
  | .function _ _ _ captured => FramesKnown captured
  | .oneOf _ branches => AllKnown branches
  | .unknown _ => False
  | .string .. | .number .. | .boolean .. | .sentinel .. | .null _ | .undefined _ => True

def FieldsKnown : List (String × Span × Shape) → Prop
  | [] => True
  | (_, _, shape) :: fields => Known shape ∧ FieldsKnown fields

def AllKnown : List Shape → Prop
  | [] => True
  | shape :: shapes => Known shape ∧ AllKnown shapes

def FramesKnown : List (List (String × Shape)) → Prop
  | [] => True
  | f :: fs => FrameKnown f ∧ FramesKnown fs

def FrameKnown : List (String × Shape) → Prop
  | [] => True
  | (_, shape) :: f => Known shape ∧ FrameKnown f

end

variable {shape : Shape}

theorem not_known_unknown (span : Span) : ¬ Known (.unknown span) := fun h => h

theorem allKnown_iff {shapes : List Shape} : AllKnown shapes ↔ ∀ s ∈ shapes, Known s := by
  induction shapes with
  | nil => simp [AllKnown]
  | cons shape shapes ih => simp [AllKnown, ih]

theorem fieldsKnown_iff {fields : ShapeFields} :
    FieldsKnown fields ↔ ∀ f ∈ fields, Known f.2.2 := by
  induction fields with
  | nil => simp [FieldsKnown]
  | cons f fields ih => simp [FieldsKnown, ih]

theorem frameKnown_iff {f : ShapeFrame} : FrameKnown f ↔ ∀ b ∈ f, Known b.2 := by
  induction f with
  | nil => simp [FrameKnown]
  | cons b f ih => simp [FrameKnown, ih]

theorem framesKnown_iff {fs : List ShapeFrame} : FramesKnown fs ↔ ∀ f ∈ fs, FrameKnown f := by
  induction fs with
  | nil => simp [FramesKnown]
  | cons f fs ih => simp [FramesKnown, ih]

theorem Known.isUnknown (h : shape.Known) : shape.isUnknown = false := by
  cases shape <;> simp_all [isUnknown, Known]

theorem Known.leafAt (h : shape.Known) (s : Span) : (shape.leafAt s).Known := by
  cases shape <;> exact h

theorem Known.elements? (h : shape.Known) {r : List Shape × Bool} (hr : shape.elements? = some r) :
    ∀ s ∈ r.1, Known s := by
  cases shape with
  | tuple _ items => cases hr; exact allKnown_iff.1 h
  | array _ element =>
    cases hr
    rintro _ (_ | ⟨_, ⟨⟩⟩)
    exact h
  | _ => simp [Shape.elements?] at hr

theorem flatten_known {shapes : List Shape} (h : ∀ s ∈ shapes, Known s) :
    ∀ s ∈ flatten shapes, Known s := by
  intro s hs
  rcases mem_flatten.1 hs with ⟨hm, -⟩ | ⟨_, bs, hm, hb⟩
  · exact h s hm
  · exact allKnown_iff.1 (h _ hm) s hb

theorem oneOf?_known {shapes : List Shape} {s : Span} {r : Shape} (h : ∀ s ∈ shapes, Known s)
    (hr : oneOf? shapes s = some r) : r.Known := by
  have hf := flatten_known h
  unfold oneOf? at hr
  split at hr
  · rename_i single he
    cases hr
    exact hf _ (he ▸ List.mem_singleton_self _)
  · split at hr
    · cases hr
    · cases hr
      exact allKnown_iff.2 hf

mutual

theorem Known.spread? : ∀ shape {r}, Known shape → shape.spread? = some r → ∀ s ∈ r.1, Known s
  | .oneOf _ bs, r, h, hr => by
    simp only [Shape.spread?, Option.map_eq_some_iff] at hr
    obtain ⟨items, hi, rfl⟩ := hr
    exact AllKnown.spreadAll? bs h hi
  | .unknown _, _, h, _ => h.elim
  | .string .., _, h, hr | .number .., _, h, hr | .boolean .., _, h, hr | .sentinel .., _, h, hr
  | .record .., _, h, hr | .tuple .., _, h, hr | .array .., _, h, hr | .function .., _, h, hr
  | .null _, _, h, hr | .undefined _, _, h, hr =>
    Known.elements? h (by simpa [Shape.spread?] using hr)

theorem AllKnown.spreadAll? : ∀ shapes {items}, AllKnown shapes →
    Shape.spreadAll? shapes = some items → ∀ s ∈ items, Known s
  | [], _, _, hi => by cases hi; simp
  | shape :: shapes, items, h, hi => by
    rw [Shape.spreadAll?] at hi
    split at hi
    · rename_i first known rest hf hr
      cases hi
      intro s hs
      rcases List.mem_append.1 hs with hs | hs
      · exact Known.spread? shape h.1 hf s hs
      · exact AllKnown.spreadAll? shapes h.2 hr s hs
    · cases hi

end

end Shape

namespace Check

open Shape (Known)

variable {α β : Type}

/-- A state in which no unknown shape is bound to a name, and calls are within their bound. -/
structure State.Known (σ : State) : Prop where
  globals : ∀ b ∈ σ.globals, b.2.shape.Known
  frames : Shape.FramesKnown σ.frames
  calls : σ.calls ≤ maxCalls

theorem State.Known.after {m : CheckM α} {σ : State} (h : σ.Known) (sm : Steady m)
    (he : (after m σ).errors = []) : (after m σ).Known where
  globals := by rw [sm.globals]; exact h.globals
  frames := by rw [sm.frames]; exact h.frames
  calls := sm.calls σ he h.calls

/-- A computation that finds what has a property and spreads nothing unknown, as long as it finds
no error and all that it meets is reported. -/
def Finds (E : Events) (m : CheckM α) (P : α → Prop) : Prop :=
  ∀ σ, σ.Known → (after m σ).errors = [] → (∀ e ∈ E σ, e.isReported = true) →
    (∀ e ∈ E σ, e.isClear = true) ∧ P (value m σ)

namespace Finds

variable {E : Events} {m : CheckM α} {P : α → Prop}

theorem pure {a : α} (h : P a) : Finds .none (Pure.pure a) P := fun _ _ _ _ => ⟨nofun, h⟩

/-- Other events may come first. -/
theorem among {F : Events} (es : List Event) (hF : ∀ σ, F σ = es ++ E σ)
    (hes : ∀ e ∈ es, e.isClear = true)
    (h : (∀ e ∈ es, e.isReported = true) → Finds E m P) : Finds F m P := by
  intro σ hσ he hE
  rw [hF, List.forall_mem_append] at hE
  rw [hF]
  obtain ⟨hc, ha⟩ := h hE.1 σ hσ he hE.2
  exact ⟨List.forall_mem_append.2 ⟨hes, hc⟩, ha⟩

theorem bind {F : α → Events} {f : α → CheckM β} {Q : β → Prop} (hm : Finds E m P)
    (sm : Steady m) (sf : ∀ a, Steady (f a)) (hf : ∀ a, P a → Finds (F a) (f a) Q) :
    Finds (E.andThen m F) (m >>= f) Q := by
  intro σ hσ he hE
  have he' := (sf _).errors_nil he
  obtain ⟨hc, ha⟩ := hm σ hσ he' fun e hm => hE e (List.mem_append_left _ hm)
  obtain ⟨hc', hb⟩ := hf _ ha _ (hσ.after sm he') he fun e hm => hE e (List.mem_append_right _ hm)
  exact ⟨List.forall_mem_append.2 ⟨hc, hc'⟩, hb⟩

theorem bind_none {f : α → CheckM β} {Q : β → Prop} (hm : Finds E m P) (sm : Steady m)
    (sf : ∀ a, Steady (f a)) (hf : ∀ a, P a → Finds .none (f a) Q) : Finds E (m >>= f) Q := by
  have hE : E = E.andThen m fun _ => .none := funext fun σ => (List.append_nil _).symm
  rw [hE]
  exact hm.bind sm sf hf

theorem following {F : α → Events} {f : α → CheckM β} {Q : β → Prop} (hm : Finds .none m P)
    (sm : Steady m) (sf : ∀ a, Steady (f a)) (hf : ∀ a, P a → Finds (F a) (f a) Q) :
    Finds (.following m F) (m >>= f) Q :=
  hm.bind sm sf hf

theorem get_bind {f : State → CheckM α} (h : ∀ σ, σ.Known → Finds E (f σ) P) :
    Finds E (get >>= f) P := fun σ hσ he hE => h σ hσ σ hσ he hE

theorem of_error (h : ∀ σ, (after m σ).errors ≠ []) : Finds E m P :=
  fun σ _ he _ => absurd he (h σ)

theorem error_bind {f : β → CheckM α} {m : CheckM β} (h : ∀ σ, (after m σ).errors ≠ [])
    (sf : ∀ a, Steady (f a)) : Finds E (m >>= f) P :=
  of_error fun σ he => h σ ((sf _).errors_nil he)

theorem refuse {P : Shape → Prop} (expected found : String) (errorSpan span : Span) :
    Finds E (Check.refuse expected found errorSpan span) P :=
  of_error fun _ => List.cons_ne_nil _ _

/-- Whatever a computation gives. -/
theorem trivial : Finds .none m fun _ => True := fun _ _ _ _ => ⟨nofun, True.intro⟩

theorem oneOf {shapes : List Shape} (span : Span) (h : ∀ s ∈ shapes, s.Known) :
    Finds .none (Check.oneOf shapes span) Known := by
  unfold Check.oneOf
  split
  · exact pure (Shape.oneOf?_known h ‹_›)
  · exact of_error fun _ => List.cons_ne_nil _ _

theorem choose (condition : Option Bool) {F : Events} {yes no : CheckM Shape} (span : Span)
    (sy : Steady yes) (sn : Steady no) (hy : Finds E yes Known) (hn : Finds F no Known) :
    Finds (.choose condition E yes F) (Check.choose condition yes no span) Known :=
  match condition with
  | some true => hy
  | some false => hn
  | none =>
    hy.bind sy (fun _ => sn.bind fun _ => .oneOf ..) fun a ha =>
      hn.bind_none sn (fun _ => .oneOf ..) fun b hb => oneOf span (by simp [ha, hb])

theorem arrayOf {items : List Shape} (isKnown : Bool) (span : Span) (h : ∀ s ∈ items, s.Known) :
    Finds .none (Check.arrayOf items isKnown span) Known := by
  unfold Check.arrayOf
  split
  · exact pure (Shape.allKnown_iff.2 h)
  · exact (oneOf span h).bind_none (.oneOf ..) (fun _ => .pure _) fun _ => pure

theorem each {E : Shape → Events} {f : Shape → CheckM Shape} (sf : ∀ shape, Steady (f shape))
    {shapes : List Shape} (h : ∀ s ∈ shapes, Finds (E s) (f s) Known) :
    Finds (.each E f shapes) (shapes.mapM f) fun rs => ∀ r ∈ rs, Known r := by
  induction shapes with
  | nil => exact pure (by simp)
  | cons shape shapes ih =>
    rw [List.mapM_cons]
    have sfs := Steady.mapM sf shapes
    refine (h shape List.mem_cons_self).bind (sf _) (fun _ => sfs.bind fun _ => .pure _)
      fun first hfirst => ?_
    refine (ih fun s hs => h s (List.mem_cons_of_mem _ hs)).bind_none sfs (fun _ => .pure _)
      fun rest hrest => pure ?_
    simpa using ⟨hfirst, hrest⟩

end Finds

/-- A check that goes through the alternatives of a shape. -/
theorem finds_alternatives (span : Span) {E : Shape → Events} {f : Shape → CheckM Shape}
    (sf : ∀ shape, Steady (f shape))
    (hf : ∀ s bs, f (.oneOf s bs) = do oneOf (← bs.mapM f) span)
    (hE : ∀ s bs, E (.oneOf s bs) = .each E f bs)
    (plain : ∀ shape, (∀ s bs, shape ≠ .oneOf s bs) → Known shape →
      Finds (E shape) (f shape) Known) :
    ∀ shape, Known shape → Finds (E shape) (f shape) Known
  | .oneOf s bs, h => by
    rw [hf, hE]
    refine (Finds.each sf fun b hm => ?_).bind_none (.mapM sf bs) (fun _ => .oneOf ..)
      fun rs hrs => .oneOf span hrs
    have : sizeOf b < 1 + sizeOf s + sizeOf bs := by
      have := List.sizeOf_lt_of_mem hm
      omega
    exact finds_alternatives span sf hf hE plain b (Shape.allKnown_iff.1 h b hm)
  | .string .., h | .number .., h | .boolean .., h | .sentinel .., h | .record .., h
  | .tuple .., h | .array .., h | .function .., h | .null _, h | .undefined _, h
  | .unknown _, h => plain _ (by simp) h
termination_by shape => sizeOf shape

theorem finds_alternatives_none (span : Span) {f : Shape → CheckM Shape}
    (sf : ∀ shape, Steady (f shape))
    (hf : ∀ s bs, f (.oneOf s bs) = do oneOf (← bs.mapM f) span)
    (plain : ∀ shape, (∀ s bs, shape ≠ .oneOf s bs) → Known shape →
      Finds .none (f shape) Known) (shape : Shape) (h : Known shape) :
    Finds .none (f shape) Known :=
  finds_alternatives span (E := fun _ => .none) sf hf (fun _ bs => (Events.each_none f bs).symm)
    plain shape h

variable {shape receiver : Shape} {span : Span}

theorem finds_plainMember {property : String} (h : receiver.Known) :
    Finds .none (plainMember receiver property span) Known := by
  unfold plainMember
  split
  · exact h.elim
  · split
    · rename_i hf
      exact .pure (Shape.fieldsKnown_iff.1 h _ (Entries.mem_of_get? hf))
    · exact .refuse _ _ _ _
  · split
    · split <;> exact .pure True.intro
    · split
      · exact .refuse _ _ _ _
      · exact .refuse _ _ _ _
      · split <;> exact .refuse _ _ _ _

theorem finds_member {property : String} (h : receiver.Known) :
    Finds .none (member property span receiver) Known := by
  refine finds_alternatives_none span (steady_member _ _) (fun s bs => ?_) (fun shape ho h => ?_)
    receiver h
  · rw [member, members_eq]
  · have he : member property span shape = plainMember shape property span := by
      cases shape <;> simp_all [member]
    rw [he]
    exact finds_plainMember h

theorem finds_index {position : Shape} (h : receiver.Known) (hp : position.Known) :
    Finds (.one (.indexing receiver position)) (index receiver position span) Known := by
  refine .among [.indexing receiver position] (fun _ => rfl) (by simp [Event.isClear])
    fun hs => ?_
  unfold index
  split
  · exact h.elim
  · exact hp.elim
  · split
    · rename_i item hi
      obtain ⟨i, -, hi⟩ := Option.bind_eq_some_iff.1 hi
      exact .pure (Shape.allKnown_iff.1 h _ (List.mem_of_getElem? hi))
    · exact .refuse _ _ _ _
  · exact .oneOf span (Shape.allKnown_iff.1 h)
  · exact .pure h
  · split
    · exact finds_member h
    · have hn := ‹Shape.text? (.string _ _) = none›
      obtain rfl := hn
      simp [Event.isReported] at hs
    · split
      · exact .pure True.intro
      · exact .refuse _ _ _ _

theorem finds_unary (op : UnaryOp) (h : shape.Known) :
    Finds .none (unary op shape span) Known := by
  unfold unary
  split
  · exact .pure True.intro
  · exact .pure True.intro
  · exact h.elim
  · exact .refuse _ _ _ _

theorem finds_plainOperator (op : BinaryOp) (left right : Shape) :
    Finds .none (plainOperator op left right span) Known := by
  unfold plainOperator concatenate
  repeat' split
  all_goals first | exact .pure True.intro | exact .refuse _ _ _ _

theorem finds_operator (op : BinaryOp) {left right : Shape} (hl : left.Known)
    (hr : right.Known) : Finds .none (operator op right span left) Known := by
  refine finds_alternatives_none span (steady_operator op right span) (fun s bs => ?_)
    (fun a ha hak => ?_) left hl
  · rw [operator, hr.isUnknown, operators_eq]
    rfl
  have he : operator op right span a = operatorRight op a span right := by
    cases a <;> simp_all [operator, Known]
  rw [he]
  refine finds_alternatives_none span (steady_operatorRight op a span) (fun s bs => ?_)
    (fun b hb hbk => ?_) right hr
  · rw [operatorRight, operatorRights_eq]
  · have he : operatorRight op a span b = plainOperator op a b span := by
      cases b <;> simp_all [operatorRight, Known]
    rw [he]
    exact finds_plainOperator op a b

theorem finds_callback {args : List Shape} (name : String) (h : ∀ a ∈ args, Known a) :
    Finds .none (callback name args span) fun f =>
      ∃ params body captured, f = some (params, body, captured) ∧ Shape.FramesKnown captured := by
  unfold callback
  split
  · exact .pure ⟨_, _, _, rfl, h _ List.mem_cons_self⟩
  · exact (h _ List.mem_cons_self).elim
  · exact .of_error fun _ => List.cons_ne_nil _ _

theorem contribution_known {element result : Shape} (kind : Iteration) (he : element.Known)
    (hr : result.Known) : ∀ s ∈ (contribution kind element result).1, Known s := by
  unfold contribution
  split
  · simpa using hr
  · split <;> simp [he]
  · rw [hr.isUnknown]
    rcases hel : result.elements? with _ | r
    · simpa using hr
    · exact hr.elements? hel

theorem concatItems_known {args : List Shape} (h : ∀ a ∈ args, Known a) :
    ∀ s ∈ (concatItems args).1, Known s := by
  induction args with
  | nil => simp [concatItems]
  | cons arg args ih =>
    intro s hs
    rcases List.mem_append.1 hs with hs | hs
    · have ha := h arg List.mem_cons_self
      rcases hr : arg.spread? with _ | r
      · rw [hr] at hs
        exact List.mem_singleton.1 hs ▸ ha
      · rw [hr] at hs
        exact Shape.Known.spread? arg ha hr s hs
    · exact ih (fun a hm => h a (List.mem_cons_of_mem _ hm)) s hs

theorem finds_splitText (text : Option String) (args : List Shape) :
    Finds .none (splitText text args span) Known := by
  unfold splitText
  split
  · exact .pure (Shape.allKnown_iff.2 (by simp [Known]))
  · split
    · split
      · exact .pure (Shape.allKnown_iff.2 (by simp [Known]))
      · exact .pure True.intro
    · exact .refuse _ _ _ _

theorem finds_textMethod (name : String) (args : List Shape) :
    Finds .none (textMethod receiver name args span) Known := by
  unfold textMethod
  split
  · exact .pure True.intro
  · split
    · exact finds_splitText _ _
    · exact .refuse _ _ _ _

/-- A caller whose calls find no unknown shape if they are given none. -/
def FindingCaller (call : Caller) (calls : CallerEvents) : Prop :=
  ∀ params body captured args span, Shape.FramesKnown captured → (∀ a ∈ args, Known a) →
    Finds (calls params body captured args span) (call params body captured args span) Known

section

variable {call : Caller} {calls : CallerEvents} (hs : SteadyCaller call)
  (hc : FindingCaller call calls)

include hc

theorem finds_callValue {function : Shape} {args : List Shape} (errorSpan : Span)
    (hf : function.Known) (ha : ∀ a ∈ args, Known a) :
    Finds (callValueEvents calls function args span)
      (callValue call function args errorSpan span) Known := by
  unfold callValue
  split
  · exact hc _ _ _ _ _ hf ha
  · exact hf.elim
  · exact .refuse _ _ _ _

include hs

theorem finds_iterate {params : List Ident} {body : Expr} {captured : List ShapeFrame}
    (hf : Shape.FramesKnown captured) (kind : Iteration) (isKnown : Bool)
    {elements : List Shape} (he : ∀ e ∈ elements, Known e) (i : Nat) :
    Finds (iterateEvents call calls params body captured kind isKnown span i elements)
      (iterate (fun e p => call params body captured [e, p] span) kind isKnown span i elements)
      fun r => ∀ s ∈ r.1, Known s := by
  induction elements generalizing i with
  | nil => exact .pure (by simp)
  | cons element elements ih =>
    have hel := he element List.mem_cons_self
    have hst := steady_iterate (fun e p => hs params body captured [e, p] span) kind isKnown span
      (i + 1) elements
    refine Finds.bind (hc params body captured _ span hf ?_) (hs ..)
      (fun _ => hst.bind fun _ => .pure _) fun result hr => ?_
    · simpa [Known] using hel
    · refine .among _ (fun _ => rfl) (by split <;> simp [Event.isClear]) fun _ => ?_
      refine (ih (fun e hm => he e (List.mem_cons_of_mem _ hm)) _).bind_none hst
        (fun _ => .pure _) fun more hm => .pure fun s hs => ?_
      rcases List.mem_append.1 hs with hs | hs
      · exact contribution_known kind hel hr s hs
      · exact hm s hs

theorem finds_arrayMethod {elements args : List Shape} (isKnown : Bool) (name : String)
    (he : ∀ e ∈ elements, Known e) (ha : ∀ a ∈ args, Known a) :
    Finds (arrayMethodEvents call calls elements isKnown name args span)
      (arrayMethod call receiver elements isKnown name args span) Known := by
  unfold arrayMethod arrayMethodEvents
  rcases Iteration.ofName? name with _ | kind
  · dsimp only
    split
    · refine .among (args.map .joining) (fun _ => (List.append_nil _).symm)
        (by simp [Event.isClear]) fun _ => ?_
      refine .arrayOf _ span fun s hs => ?_
      rcases List.mem_append.1 hs with hs | hs
      · exact he s hs
      · exact concatItems_known ha s hs
    split
    · refine Finds.trivial.bind_none (steady_separator _)
        (fun _ => (steady_joinParts _).bind fun _ => .pure _) fun _ _ => ?_
      exact Finds.trivial.bind_none (steady_joinParts _) (fun _ => .pure _) fun _ _ =>
        .pure True.intro
    · exact .refuse _ _ _ _
  · have hst params body captured := steady_iterate
      (fun e p => hs params body captured [e, p] span) kind isKnown span 0 elements
    refine (finds_callback name ha).following (steady_callback ..) (fun f => ?_) fun f hf => ?_
    · split
      · exact .pure _
      · exact (hst ..).bind fun _ => .arrayOf ..
    · obtain ⟨params, body, captured, rfl, hf⟩ := hf
      exact (finds_iterate hs hc hf kind isKnown he 0).bind_none (hst ..) (fun _ => .arrayOf ..)
        fun r hr => .arrayOf _ span hr

theorem finds_plainMethod {args : List Shape} (name : String) (h : receiver.Known)
    (ha : ∀ a ∈ args, Known a) :
    Finds (plainMethodEvents call calls receiver name args span)
      (plainMethod call receiver name args span) Known := by
  cases receiver with
  | unknown => exact h.elim
  | record =>
    unfold plainMethod plainMethodEvents
    refine (finds_member h).following (steady_member ..) (fun property => ?_) fun property hp => ?_
    · split
      · exact .pure _
      · exact steady_callValue hs ..
    · split
      · exact hp.elim
      · exact finds_callValue hc span hp ha
  | tuple | array => exact finds_arrayMethod hs hc _ name (h.elements? rfl) ha
  | _ =>
    simp only [plainMethod, plainMethodEvents, Shape.elements?]
    split
    · exact finds_textMethod _ _
    · exact .refuse _ _ _ _

theorem finds_method {args : List Shape} (name : String) (h : receiver.Known)
    (ha : ∀ a ∈ args, Known a) :
    Finds (methodEvents call calls name args span receiver)
      (method call name args span receiver) Known := by
  refine finds_alternatives span (steady_method hs name args span) (fun s bs => ?_)
    (fun s bs => ?_) (fun shape ho h => ?_) receiver h
  · rw [method, methods_eq]
  · rw [methodEvents, methodsEvents_eq]
  · have he : methodEvents call calls name args span shape =
        plainMethodEvents call calls shape name args span := by
      cases shape <;> simp_all [methodEvents]
    have hm : method call name args span shape = plainMethod call shape name args span := by
      cases shape <;> simp_all [method]
    rw [he, hm]
    exact finds_plainMethod hs hc name h ha

end

/-- Whether all that an object may be is known. -/
def Partials.Known (p : Partials) : Prop :=
  p.isUnknown = false ∧ ∀ fs ∈ p.fields, Shape.FieldsKnown fs

theorem finds_spreadInto {partials : List ShapeFields} {branch : Shape}
    (hp : ∀ fs ∈ partials, Shape.FieldsKnown fs) (h : branch.Known) :
    Finds .none (spreadInto partials branch) fun r =>
      ∃ more, r = some more ∧ ∀ fs ∈ more, Shape.FieldsKnown fs := by
  unfold spreadInto
  split
  · refine .pure ⟨_, rfl, fun fs hm => ?_⟩
    obtain ⟨es, he, rfl⟩ := List.mem_map.1 hm
    exact Shape.fieldsKnown_iff.2
      (Entries.forall_putAll (P := fun v : Span × Shape => v.2.Known)
        (Shape.fieldsKnown_iff.1 (hp es he))
        (Shape.fieldsKnown_iff.1 h))
  · exact .pure ⟨_, rfl, hp⟩
  · exact .pure ⟨_, rfl, hp⟩
  · exact h.elim
  · exact .of_error fun _ => List.cons_ne_nil _ _

theorem finds_spreadBranches {partials : List ShapeFields} {branches : List Shape}
    (hp : ∀ fs ∈ partials, Shape.FieldsKnown fs) (h : ∀ b ∈ branches, Known b) :
    Finds .none (spreadBranches partials branches) Partials.Known := by
  induction branches with
  | nil => exact .pure ⟨rfl, by simp⟩
  | cons branch rest ih =>
    rw [List.forall_mem_cons] at h
    refine (finds_spreadInto hp h.1).bind_none (steady_spreadInto ..)
      (fun _ => (steady_spreadBranches ..).bind fun _ => .pure _) fun r hr => ?_
    obtain ⟨more, rfl, hm⟩ := hr
    refine (ih h.2).bind_none (steady_spreadBranches ..) (fun _ => .pure _) fun p hpk => ?_
    refine .pure ⟨by simpa using hpk.1, fun fs hfs => ?_⟩
    rcases List.mem_append.1 hfs with hfs | hfs
    · exact hm fs hfs
    · exact hpk.2 fs hfs

theorem branchesOf_known (h : shape.Known) : ∀ b ∈ branchesOf shape, Known b := by
  unfold branchesOf
  split
  · exact Shape.allKnown_iff.1 h
  · simpa using h

theorem finds_spread {p : Partials} (hp : p.Known) (h : shape.Known) :
    Finds .none (p.spread shape) Partials.Known := by
  refine (finds_spreadBranches hp.2 (branchesOf_known h)).bind_none (steady_spreadBranches ..)
    (fun next => ?_) fun next hn => ?_
  · dsimp only
    split
    · exact (Steady.reportBranches _).bind fun _ => .pure _
    · exact .pure _
  · dsimp only
    split
    · exact .of_error fun _ => List.cons_ne_nil _ _
    · refine .pure ⟨by simp [hp.1, hn.1], fun fs hm => ?_⟩
      split at hm
      · exact hp.2 fs hm
      · exact hn.2 fs hm

theorem finds_shape {p : Partials} (hp : p.Known) : Finds .none (p.shape span) Known := by
  unfold Partials.shape
  rw [hp.1]
  refine .oneOf span fun s hs => ?_
  obtain ⟨fs, hm, rfl⟩ := List.mem_map.1 hs
  exact hp.2 fs hm

theorem Partials.Known.put {p : Partials} (hp : p.Known) (key : String) (keySpan : Span)
    (h : shape.Known) : (p.put key keySpan shape).Known := by
  refine ⟨hp.1, fun fs hm => ?_⟩
  obtain ⟨es, he, rfl⟩ := List.mem_map.1 hm
  exact Shape.fieldsKnown_iff.2
    (Entries.forall_put (P := fun v : Span × Shape => v.2.Known)
      (Shape.fieldsKnown_iff.1 (hp.2 es he)) h)

theorem lookup?_known {σ : State} (hσ : σ.Known) {text : String} (h : σ.lookup? text = some shape) :
    shape.Known := by
  unfold State.lookup? at h
  split at h
  · rename_i s hs
    cases h
    obtain ⟨f, hf, hg⟩ := List.exists_of_findSome?_eq_some hs
    exact Shape.frameKnown_iff.1 (Shape.framesKnown_iff.1 hσ.frames f hf) _ (Entries.mem_of_get? hg)
  · obtain ⟨b, hb, rfl⟩ := Option.map_eq_some_iff.1 h
    exact hσ.globals _ (Entries.mem_of_get? hb)

theorem finds_name (text : String) : Finds .none (name text span) Known := by
  refine .get_bind fun σ hσ => ?_
  split
  · exact .pure ((lookup?_known hσ ‹_›).leafAt span)
  · exact .refuse _ _ _ _

section

variable {call : Caller} {calls : CallerEvents}

mutual

/-- What an expression may be is known, whatever it is. -/
theorem finds_infer (hs : SteadyCaller call) (hc : FindingCaller call calls) :
    ∀ e, Finds (exprEvents call calls e) (infer call e) Known
  | .string .. | .number .. | .boolean .. | .null _ | .undefined _ => .pure True.intro
  | .name .. => finds_name _
  | .template _ segments =>
    (finds_inferSegments hs hc _ segments).bind_none (steady_inferSegments hs _ segments)
      (fun _ => .pure _) fun _ _ => .pure True.intro
  | .array _ items =>
    (finds_inferItems hs hc items).bind_none (steady_inferItems hs items) (fun _ => .arrayOf ..)
      fun _ hr => .arrayOf _ _ hr
  | .object _ ms =>
    (finds_inferMembers hs hc ⟨[[]], false⟩ ⟨rfl, by simp [Shape.FieldsKnown]⟩ ms).bind_none
      (steady_inferMembers hs _ ms) (fun _ => steady_shape ..) fun _ hp => finds_shape hp
  | .member _ object _ =>
    (finds_infer hs hc object).bind_none (steady_infer hs object) (fun _ => steady_member ..)
      fun _ h => finds_member h
  | .index _ object position =>
    (finds_infer hs hc object).bind (steady_infer hs object)
      (fun _ => (steady_infer hs position).bind fun _ => steady_index ..) fun _ h =>
        (finds_infer hs hc position).bind (steady_infer hs position) (fun _ => steady_index ..)
          fun _ hp => finds_index h hp
  | .call s callee args => by
    have hargs := finds_inferAll hs hc args
    have sargs := steady_inferAll hs args
    cases callee with
    | member _ object property =>
      rw [infer, exprEvents]
      exact (finds_infer hs hc object).bind (steady_infer hs object)
        (fun _ => sargs.bind fun _ => steady_method hs ..) fun _ h =>
          hargs.bind sargs (fun _ => steady_method hs ..) fun _ ha => finds_method hs hc _ h ha
    | _ =>
      rw [infer, exprEvents]
      · exact (finds_infer hs hc _).bind (steady_infer hs _)
          (fun _ => sargs.bind fun _ => steady_callValue hs ..) fun _ h =>
            hargs.bind sargs (fun _ => steady_callValue hs ..) fun _ ha =>
              finds_callValue hc _ h ha
      all_goals rintro _ _ _ ⟨⟩
  | .arrow .. => .get_bind fun _ hσ => .pure hσ.frames
  | .unary _ _ operand =>
    (finds_infer hs hc operand).bind_none (steady_infer hs operand) (fun _ => steady_unary ..)
      fun _ h => finds_unary _ h
  | .binary s op left right => by
    have hl := finds_infer hs hc left
    have hr := finds_infer hs hc right
    have sl := steady_infer hs left
    have sr := steady_infer hs right
    cases hop : op.stopsAt? with
    | some stop =>
      rw [infer_shortened call s hop, exprEvents_shortened call calls s hop]
      exact hl.bind sl (fun _ => .choose _ (.pure _) sr s) fun l h =>
        .choose _ s (.pure l) sr (.pure h) hr
    | none =>
      rw [infer_operator call s hop, exprEvents_operator call calls s hop]
      refine hl.bind sl (fun _ => sr.bind fun _ => steady_operator ..) fun l h => ?_
      refine hr.bind sr (fun _ => steady_operator ..) fun r h' =>
        .among _ (fun _ => rfl) (by split <;> simp [Event.isClear]) fun _ => ?_
      exact finds_operator _ h h'
  | .conditional s test consequent alternate => by
    have sc := steady_infer hs consequent
    have sa := steady_infer hs alternate
    rw [infer_conditional, exprEvents_conditional]
    exact (finds_infer hs hc test).bind (steady_infer hs test) (fun _ => .choose _ sc sa s)
      fun _ _ => .choose _ s sc sa (finds_infer hs hc consequent) (finds_infer hs hc alternate)

theorem finds_inferSegments (hs : SteadyCaller call) (hc : FindingCaller call calls) :
    ∀ text segments, Finds (segmentsEvents call calls text segments)
      (inferSegments call text segments) fun _ => True
  | _, [] => .trivial
  | _, .text _ :: rest => finds_inferSegments hs hc _ rest
  | _, .hole e :: rest =>
    (finds_infer hs hc e).bind (steady_infer hs e)
      (fun _ => (steady_extend ..).bind fun _ => steady_inferSegments hs _ rest) fun _ _ =>
        Finds.trivial.following (steady_extend ..) (fun _ => steady_inferSegments hs _ rest)
          fun text _ => finds_inferSegments hs hc text rest

theorem finds_inferItems (hs : SteadyCaller call) (hc : FindingCaller call calls) :
    ∀ items, Finds (itemsEvents call calls items) (inferItems call items)
      fun r => ∀ s ∈ r.1, Known s
  | [] => .pure (by simp)
  | .item e :: rest => by
    have sr := steady_inferItems hs rest
    exact (finds_infer hs hc e).bind (steady_infer hs e) (fun _ => sr.bind fun _ => .pure _)
      fun _ h => (finds_inferItems hs hc rest).bind_none sr (fun _ => .pure _) fun _ hr =>
        .pure (List.forall_mem_cons.2 ⟨h, hr⟩)
  | .spread e :: rest => by
    have sr := steady_inferItems hs rest
    rw [inferItems, itemsEvents]
    refine (finds_infer hs hc e).bind (steady_infer hs e) (fun _ => ?_) fun shape h => ?_
    · split
      · exact sr.bind fun _ => .pure _
      · exact (Steady.report ..).bind fun _ => sr.bind fun _ => .pure _
    split
    · rename_i items allKnown hi
      refine (finds_inferItems hs hc rest).bind_none sr (fun _ => .pure _) fun r hr =>
        .pure fun s hs => ?_
      rcases List.mem_append.1 hs with hs | hs
      · exact Shape.Known.spread? shape h hi s hs
      · exact hr s hs
    · exact .error_bind (fun _ => List.cons_ne_nil _ _) fun _ => sr.bind fun _ => .pure _

theorem finds_inferMembers (hs : SteadyCaller call) (hc : FindingCaller call calls) :
    ∀ (p : Partials), p.Known → ∀ ms,
      Finds (membersEvents call calls p ms) (inferMembers call p ms) Partials.Known
  | _, hp, [] => .pure hp
  | p, hp, .field key keySpan e :: rest =>
    (finds_infer hs hc e).bind (steady_infer hs e) (fun _ => steady_inferMembers hs _ rest)
      fun _ h => finds_inferMembers hs hc _ (hp.put key keySpan h) rest
  | p, hp, .spread e :: rest => by
    refine (finds_infer hs hc e).bind (steady_infer hs e)
      (fun _ => (steady_spread ..).bind fun _ => steady_inferMembers hs _ rest) fun shape h => ?_
    refine .among [.spreading shape] (fun _ => rfl) ?_ fun _ => ?_
    · simpa [Event.isClear] using fun b hb => (branchesOf_known h b hb).isUnknown
    · exact (finds_spread hp h).following (steady_spread ..)
        (fun _ => steady_inferMembers hs _ rest) fun _ hp => finds_inferMembers hs hc _ hp rest

theorem finds_inferAll (hs : SteadyCaller call) (hc : FindingCaller call calls) :
    ∀ es, Finds (allEvents call calls es) (inferAll call es) fun shapes => ∀ s ∈ shapes, Known s
  | [] => .pure (by simp)
  | e :: es => by
    have ss := steady_inferAll hs es
    exact (finds_infer hs hc e).bind (steady_infer hs e) (fun _ => ss.bind fun _ => .pure _)
      fun _ h => (finds_inferAll hs hc es).bind_none ss (fun _ => .pure _) fun _ hr =>
        .pure (List.forall_mem_cons.2 ⟨h, hr⟩)

end

end

theorem frameOf_known (span : Span) (params : List Ident) {args : List Shape}
    (h : ∀ a ∈ args, Known a) : Shape.FrameKnown (frameOf span params args) := by
  induction params generalizing args with
  | nil => exact True.intro
  | cons p ps ih =>
    cases args with
    | nil =>
      exact Shape.frameKnown_iff.2
        (Entries.forall_put (P := Known) (Shape.frameKnown_iff.1 (ih (by simp))) True.intro)
    | cons a as =>
      rw [List.forall_mem_cons] at h
      exact Shape.frameKnown_iff.2
        (Entries.forall_put (P := Known) (Shape.frameKnown_iff.1 (ih h.2)) h.1)

theorem finds_call (maxDepth levels : Nat) :
    FindingCaller (call maxDepth levels) (callEvents maxDepth levels) := by
  induction levels with
  | zero =>
    intro params body captured args span _ _ σ hσ he _
    exact absurd he (call_zero_errors _ _ _ _ _ _ hσ.calls)
  | succ levels ih =>
    intro params body captured args span hf ha σ hσ he hE
    have sw := Steady.inside (frameOf span params args :: captured)
      (steady_infer (steady_call maxDepth levels) body)
    obtain ⟨hlt, hd, hg⟩ := guarded_eq sw hσ.calls he
    rw [callEvents_eq hlt hd] at hE ⊢
    rw [call, after, hg] at he
    rw [call, value, hg]
    exact finds_infer (steady_call maxDepth levels) ih body
      { σ with
        calls := σ.calls + 1
        frames := frameOf span params args :: captured
        depth := σ.depth + 1 }
      ⟨hσ.globals, ⟨frameOf_known span params ha, hf⟩, hlt⟩ he hE

end Check

end TypedConfig
