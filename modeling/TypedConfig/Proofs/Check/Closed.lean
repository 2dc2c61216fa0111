import TypedConfig.Proofs.Check.Run
import TypedConfig.Proofs.Entries
import TypedConfig.Proofs.Shape.Views

/-! # Properties that all shapes of a check have

A check makes shapes out of leaves, out of parts of shapes that it has, and out of alternatives of
which there are not too many. So a property that is closed under these ways holds of every shape
that a check gives or binds, if it holds of those that are bound at its beginning.
-/

namespace TypedConfig

namespace Shape

def isLeaf : Shape → Bool
  | string .. | number .. | boolean .. | sentinel .. | null _ | undefined _ | unknown _ => true
  | record .. | tuple .. | array .. | function .. | oneOf .. => false

/-- A property that shapes have with their parts, and alternatives only if they are not too many. -/
structure Closed (P : Shape → Prop) : Prop where
  leaf : ∀ shape, shape.isLeaf = true → P shape
  record : ∀ s fields, P (.record s fields) ↔ ∀ f ∈ fields, P f.2.2
  tuple : ∀ s items, P (.tuple s items) ↔ ∀ i ∈ items, P i
  array : ∀ s element, P (.array s element) ↔ P element
  function : ∀ s params body captured,
    P (.function s params body captured) ↔ ∀ f ∈ captured, ∀ b ∈ f, P b.2
  oneOf : ∀ s branches,
    P (.oneOf s branches) ↔ branches.length ≤ maxBranches ∧ ∀ b ∈ branches, P b

namespace Closed

section

variable {P : Shape → Prop} (hP : Closed P) {shape : Shape} {shapes : List Shape}

include hP

theorem leafAt (h : P shape) (s : Span) : P (shape.leafAt s) := by
  cases shape with
  | function s ps b fs => exact (hP.function ..).2 ((hP.function ..).1 h)
  | record | tuple | array | oneOf => exact h
  | _ => exact hP.leaf _ rfl

theorem elements? (h : P shape) {r : List Shape × Bool} (hr : shape.elements? = some r) :
    ∀ s ∈ r.1, P s := by
  cases shape with
  | tuple s items =>
    cases hr
    exact (hP.tuple ..).1 h
  | array s element =>
    cases hr
    exact List.forall_mem_singleton.2 ((hP.array ..).1 h)
  | _ => cases hr

theorem flatten (h : ∀ s ∈ shapes, P s) : ∀ s ∈ flatten shapes, P s := by
  intro s hs
  rcases mem_flatten.1 hs with ⟨hm, -⟩ | ⟨_, bs, hm, hb⟩
  · exact h s hm
  · exact ((hP.oneOf ..).1 (h _ hm)).2 s hb

theorem oneOf? (h : ∀ s ∈ shapes, P s) {s : Span} {r : Shape} (hr : oneOf? shapes s = some r) :
    P r := by
  have hf := hP.flatten h
  unfold Shape.oneOf? at hr
  split at hr
  · rename_i single he
    cases hr
    exact hf _ (he ▸ List.mem_singleton_self _)
  · split at hr
    · cases hr
    · rename_i hlength
      cases hr
      exact (hP.oneOf ..).2 ⟨Nat.not_lt.1 hlength, hf⟩

end

section

variable {P : Shape → Prop}

mutual

theorem spread? (hP : Closed P) : ∀ shape {r}, P shape → shape.spread? = some r →
    ∀ s ∈ r.1, P s
  | .oneOf _ bs, r, h, hr => by
    simp only [Shape.spread?, Option.map_eq_some_iff] at hr
    obtain ⟨items, hi, rfl⟩ := hr
    exact hP.spreadAll? bs ((hP.oneOf ..).1 h).2 hi
  | .unknown _, _, _, hr => by
    cases hr
    exact List.forall_mem_nil _
  | .string .., _, h, hr | .number .., _, h, hr | .boolean .., _, h, hr | .sentinel .., _, h, hr
  | .record .., _, h, hr | .tuple .., _, h, hr | .array .., _, h, hr | .function .., _, h, hr
  | .null _, _, h, hr | .undefined _, _, h, hr =>
    hP.elements? h (by simpa [Shape.spread?] using hr)

theorem spreadAll? (hP : Closed P) : ∀ shapes {items}, (∀ s ∈ shapes, P s) →
    Shape.spreadAll? shapes = some items → ∀ s ∈ items, P s
  | [], _, _, hi => by
    cases hi
    exact List.forall_mem_nil _
  | shape :: shapes, items, h, hi => by
    obtain ⟨hs, hrest⟩ := List.forall_mem_cons.1 h
    rw [Shape.spreadAll?] at hi
    split at hi
    · rename_i first known rest hf hr
      cases hi
      exact List.forall_mem_append.2 ⟨hP.spread? shape hs hf, hP.spreadAll? shapes hrest hr⟩
    · cases hi

end

end

end Closed

end Shape

namespace Check

open Shape (Closed)

variable {P : Shape → Prop} {α β : Type}

variable (P) in
/-- Frames whose names are all bound to shapes with a property. -/
def FramesHave (frames : List ShapeFrame) : Prop := ∀ f ∈ frames, ∀ b ∈ f, P b.2

variable (P) in
/-- A state whose names are all bound to shapes with a property. -/
structure State.Has (σ : State) : Prop where
  globals : ∀ b ∈ σ.globals, P b.2.shape
  frames : FramesHave P σ.frames

variable (P) in
/-- From states that bind shapes with a property, the computation gives what has one of its own, and
leaves such states. -/
structure Gives (m : CheckM α) (Q : α → Prop) : Prop where
  run : ∀ σ, σ.Has P → Q (value m σ) ∧ (after m σ).Has P

namespace Gives

variable {m n : CheckM α} {Q R : α → Prop} {T : β → Prop}

theorem pure {a : α} (h : Q a) : Gives P (Pure.pure a) Q := ⟨fun _ hσ => ⟨h, hσ⟩⟩

theorem bind {f : α → CheckM β} (hm : Gives P m Q) (hf : ∀ a, Q a → Gives P (f a) T) :
    Gives P (m >>= f) T :=
  ⟨fun σ hσ => (hf _ (hm.run σ hσ).1).run _ (hm.run σ hσ).2⟩

theorem ite {p : Prop} [Decidable p] (hm : Gives P m Q) (hn : Gives P n Q) :
    Gives P (if p then m else n) Q := by
  split
  · exact hm
  · exact hn

theorem get_bind {f : State → CheckM α} (h : ∀ σ, σ.Has P → Gives P (f σ) Q) :
    Gives P (get >>= f) Q := ⟨fun σ hσ => (h σ hσ).run σ hσ⟩

theorem inside {frames : List ShapeFrame} (hf : FramesHave P frames) (h : Gives P m Q) :
    Gives P (inside frames m) Q := by
  refine ⟨fun σ hσ => ?_⟩
  obtain ⟨hv, ha⟩ := h.run { σ with frames := frames, depth := σ.depth + 1 } ⟨hσ.globals, hf⟩
  exact ⟨hv, ha.globals, hσ.frames⟩

theorem mapM {f : β → CheckM α} {bs : List β} (h : ∀ b ∈ bs, Gives P (f b) Q) :
    Gives P (bs.mapM f) fun rs => ∀ r ∈ rs, Q r := by
  induction bs with
  | nil => exact pure (List.forall_mem_nil _)
  | cons b bs ih =>
    obtain ⟨hb, hbs⟩ := List.forall_mem_cons.1 h
    rw [List.mapM_cons]
    exact hb.bind fun _ hr => (ih hbs).bind fun _ hrs => pure (List.forall_mem_cons.2 ⟨hr, hrs⟩)

/-- A computation that is steady, whatever it gives. -/
theorem of_steady (hm : Steady m) : Gives P m fun _ => True :=
  ⟨fun σ hσ => ⟨trivial, (hm.globals σ).symm ▸ hσ.globals, (hm.frames σ).symm ▸ hσ.frames⟩⟩

end Gives

section

variable (hP : Closed P) {shape receiver : Shape} {shapes args elements : List Shape} {span : Span}

include hP

theorem gives_leaf {shape : Shape} (h : shape.isLeaf = true) :
    Gives P (pure shape) P := .pure (hP.leaf _ h)

theorem gives_refuse (expected found : String) (errorSpan span : Span) :
    Gives P (refuse expected found errorSpan span) P :=
  .bind (.of_steady (.report ..)) fun _ _ => gives_leaf hP rfl

theorem gives_oneOf (h : ∀ s ∈ shapes, P s) (span : Span) : Gives P (oneOf shapes span) P := by
  unfold oneOf
  split
  · exact .pure (hP.oneOf? h ‹_›)
  · exact .bind (.of_steady (.reportBranches _)) fun _ _ => gives_leaf hP rfl

theorem gives_either {a b : Shape} (ha : P a) (hb : P b) (span : Span) :
    Gives P (oneOf [a, b] span) P :=
  gives_oneOf hP (List.forall_mem_cons.2 ⟨ha, List.forall_mem_singleton.2 hb⟩) span

theorem gives_arrayOf (h : ∀ s ∈ shapes, P s) (isKnown : Bool) (span : Span) :
    Gives P (arrayOf shapes isKnown span) P := by
  unfold arrayOf
  split
  · exact .pure ((hP.tuple ..).2 h)
  · exact .bind (gives_oneOf hP h span) fun _ hr => .pure ((hP.array ..).2 hr)

theorem gives_choose (condition : Option Bool) {yes no : CheckM Shape} (hy : Gives P yes P)
    (hn : Gives P no P) (span : Span) : Gives P (choose condition yes no span) P :=
  match condition with
  | some true => hy
  | some false => hn
  | none => .bind hy fun _ ha => .bind hn fun _ hb => gives_either hP ha hb span

/-- A computation that goes through the alternatives of a shape. -/
theorem gives_alternatives (span : Span) {f : Shape → CheckM Shape}
    (hf : ∀ s bs, f (.oneOf s bs) = do oneOf (← bs.mapM f) span)
    (plain : ∀ shape, (∀ s bs, shape ≠ .oneOf s bs) → P shape → Gives P (f shape) P) :
    ∀ shape, P shape → Gives P (f shape) P := by
  intro shape
  induction hsize : sizeOf shape using Nat.strongRecOn generalizing shape with
  | ind size ih =>
    intro h
    cases shape with
    | oneOf s bs =>
      rw [hf]
      refine .bind (.mapM fun b hm => ?_) fun _ hs => gives_oneOf hP hs span
      have hlt : sizeOf b < size := by
        have := List.sizeOf_lt_of_mem hm
        rw [Shape.oneOf.sizeOf_spec] at hsize
        omega
      exact ih _ hlt b rfl (((hP.oneOf ..).1 h).2 b hm)
    | _ => exact plain _ (by rintro _ _ ⟨⟩) h

theorem gives_plainMember (h : P receiver) (property : String) :
    Gives P (plainMember receiver property span) P := by
  unfold plainMember
  split
  · exact gives_leaf hP rfl
  · split
    · rename_i hf
      exact .pure ((hP.record ..).1 h _ (Entries.mem_of_get? hf))
    · exact gives_refuse hP ..
  · split
    · split <;> exact gives_leaf hP rfl
    · split
      · exact gives_refuse hP ..
      · exact gives_refuse hP ..
      · exact .ite (gives_refuse hP ..) (gives_refuse hP ..)

theorem gives_member (property : String) (h : P receiver) :
    Gives P (member property span receiver) P := by
  refine gives_alternatives hP span (fun s bs => ?_) (fun shape ho h => ?_) receiver h
  · rw [member, members_eq]
  · rw [member]
    · exact gives_plainMember hP h property
    · exact fun s bs he => ho s bs he

theorem gives_index {position : Shape} (h : P receiver) :
    Gives P (index receiver position span) P := by
  unfold index
  split
  · exact gives_leaf hP rfl
  · exact gives_leaf hP rfl
  · split
    · rename_i item hi
      obtain ⟨i, -, hi⟩ := Option.bind_eq_some_iff.1 hi
      exact .pure ((hP.tuple ..).1 h _ (List.mem_of_getElem? hi))
    · exact gives_refuse hP ..
  · exact gives_oneOf hP ((hP.tuple ..).1 h) span
  · exact .pure ((hP.array ..).1 h)
  · split
    · exact gives_member hP _ h
    · exact gives_leaf hP rfl
    · split
      · exact gives_leaf hP rfl
      · exact gives_refuse hP ..

theorem gives_unary (op : UnaryOp) (operand : Shape) : Gives P (unary op operand span) P := by
  unfold unary
  split
  · exact gives_leaf hP rfl
  · exact gives_leaf hP rfl
  · exact gives_leaf hP rfl
  · exact gives_refuse hP ..

theorem gives_plainOperator (op : BinaryOp) (left right : Shape) :
    Gives P (plainOperator op left right span) P := by
  unfold plainOperator concatenate
  repeat' split
  all_goals first | exact gives_leaf hP rfl | exact gives_refuse hP ..

theorem gives_operator (op : BinaryOp) {left right : Shape} (hl : P left) (hr : P right) :
    Gives P (operator op right span left) P := by
  have hright (left : Shape) : Gives P (operatorRight op left span right) P := by
    refine gives_alternatives hP span (fun s bs => ?_) (fun shape ho _ => ?_) right hr
    · rw [operatorRight, operatorRights_eq]
    · cases shape with
      | unknown => exact gives_leaf hP rfl
      | oneOf s bs => exact absurd rfl (ho s bs)
      | _ =>
        simp only [operatorRight]
        exact gives_plainOperator hP ..
  cases hu : right.isUnknown with
  | true =>
    cases left with
    | unknown => exact gives_leaf hP rfl
    | oneOf =>
      rw [operator, if_pos hu]
      exact gives_leaf hP rfl
    | _ => exact hright _
  | false =>
    refine gives_alternatives hP span (fun s bs => ?_) (fun shape ho _ => ?_) left hl
    · rw [operator, operators_eq, if_neg (ne_true_of_eq_false hu)]
    · cases shape with
      | unknown => exact gives_leaf hP rfl
      | oneOf s bs => exact absurd rfl (ho s bs)
      | _ => exact hright _

theorem gives_callback (h : ∀ a ∈ args, P a) (name : String) :
    Gives P (callback name args span) fun r => ∀ f ∈ r, FramesHave P f.2.2 := by
  unfold callback
  split
  · rename_i params body captured rest
    refine .pure ?_
    rintro _ ⟨⟩
    exact (hP.function ..).1 (List.forall_mem_cons.1 h).1
  · exact .pure nofun
  · exact .bind (.of_steady (.report ..)) fun _ _ => .pure nofun

theorem contribution_has (kind : Iteration) {element result : Shape} (he : P element)
    (hr : P result) : ∀ s ∈ (contribution kind element result).1, P s := by
  unfold contribution
  split
  · exact List.forall_mem_singleton.2 hr
  · split <;> simp [he]
  · split
    · exact List.forall_mem_nil _
    · cases hel : result.elements? with
      | none => exact List.forall_mem_singleton.2 hr
      | some r => exact hP.elements? hr hel

theorem concatItems_has (h : ∀ a ∈ args, P a) : ∀ s ∈ (concatItems args).1, P s := by
  induction args with
  | nil => exact List.forall_mem_nil _
  | cons arg args ih =>
    obtain ⟨ha, hargs⟩ := List.forall_mem_cons.1 h
    refine List.forall_mem_append.2 ⟨?_, ih hargs⟩
    cases hr : arg.spread? with
    | none => exact List.forall_mem_singleton.2 ha
    | some r => exact hP.spread? arg ha hr

theorem gives_splitText (text : Option String) (args : List Shape) :
    Gives P (splitText text args span) P := by
  have htuple {ss : List Shape} (h : ∀ s ∈ ss, s.isLeaf = true) :
      Gives P (pure (.tuple span ss)) P :=
    .pure ((hP.tuple ..).2 fun s hs => hP.leaf s (h s hs))
  unfold splitText
  split
  · exact htuple (by simp [Shape.isLeaf])
  · split
    · split
      · exact htuple (by simp [Shape.isLeaf])
      · exact .pure ((hP.array ..).2 (hP.leaf _ rfl))
    · exact gives_refuse hP ..

theorem gives_textMethod (receiver : Shape) (name : String) (args : List Shape) :
    Gives P (textMethod receiver name args span) P := by
  unfold textMethod
  split
  · exact gives_leaf hP rfl
  · exact .ite (gives_splitText hP ..) (gives_refuse hP ..)

end

variable (P) in
/-- A caller whose calls give shapes with a property if they are given such. -/
def CallerGives (call : Caller) : Prop :=
  ∀ params body captured args span, FramesHave P captured → (∀ a ∈ args, P a) →
    Gives P (call params body captured args span) P

section

variable (hP : Closed P) {call : Caller} (hc : CallerGives P call)
variable {receiver : Shape} {args elements : List Shape} {span : Span}

include hP hc

theorem gives_callValue {function : Shape} (errorSpan : Span) (hf : P function)
    (ha : ∀ a ∈ args, P a) : Gives P (callValue call function args errorSpan span) P := by
  unfold callValue
  split
  · exact hc _ _ _ _ _ ((hP.function ..).1 hf) ha
  · exact gives_leaf hP rfl
  · exact gives_refuse hP ..

theorem gives_iterate {params : List Ident} {body : Expr} {captured : List ShapeFrame}
    (hf : FramesHave P captured) (kind : Iteration) (isKnown : Bool)
    (he : ∀ e ∈ elements, P e) (i : Nat) :
    Gives P (iterate (fun e p => call params body captured [e, p] span) kind isKnown span i
      elements) fun r => ∀ s ∈ r.1, P s := by
  induction elements generalizing i with
  | nil => exact .pure (List.forall_mem_nil _)
  | cons element elements ih =>
    obtain ⟨hel, hrest⟩ := List.forall_mem_cons.1 he
    have hargs {n : Option Float} : ∀ a ∈ [element, .number span n], P a :=
      List.forall_mem_cons.2 ⟨hel, List.forall_mem_singleton.2 (hP.leaf _ rfl)⟩
    exact .bind (hc params body captured _ span hf hargs) fun result hr =>
      .bind (ih hrest _) fun more hm =>
        .pure (List.forall_mem_append.2 ⟨contribution_has hP kind hel hr, hm⟩)

theorem gives_arrayMethod (isKnown : Bool) (name : String) (he : ∀ e ∈ elements, P e)
    (ha : ∀ a ∈ args, P a) :
    Gives P (arrayMethod call receiver elements isKnown name args span) P := by
  unfold arrayMethod
  split
  · refine .bind (gives_callback hP ha name) fun f hf => ?_
    split
    · exact gives_leaf hP rfl
    · rename_i params body captured
      exact .bind (gives_iterate hP hc (hf _ rfl) _ isKnown he 0) fun r hr =>
        gives_arrayOf hP hr ..
  · refine .ite ?_ (.ite ?_ (gives_refuse hP ..))
    · exact gives_arrayOf hP (List.forall_mem_append.2 ⟨he, concatItems_has hP ha⟩) ..
    · exact .bind (.of_steady (steady_separator _)) fun _ _ =>
        .bind (.of_steady (steady_joinParts _)) fun _ _ => gives_leaf hP rfl

theorem gives_plainMethod (name : String) (h : P receiver) (ha : ∀ a ∈ args, P a) :
    Gives P (plainMethod call receiver name args span) P := by
  unfold plainMethod
  split
  · exact gives_leaf hP rfl
  · refine .bind (gives_member hP name h) fun property hp => ?_
    split
    · exact .pure hp
    · exact gives_callValue hP hc span hp ha
  · split
    · exact gives_arrayMethod hP hc _ name (hP.elements? h ‹_›) ha
    · exact .ite (gives_textMethod hP ..) (gives_refuse hP ..)

theorem gives_method (name : String) (h : P receiver) (ha : ∀ a ∈ args, P a) :
    Gives P (method call name args span receiver) P := by
  refine gives_alternatives hP span (fun s bs => ?_) (fun shape ho h => ?_) receiver h
  · rw [method, methods_eq]
  · rw [method]
    · exact gives_plainMethod hP hc name h ha
    · exact fun s bs he => ho s bs he

end

variable (P) in
/-- What an object may be has only fields with a property. -/
def Partials.Have (p : Partials) : Prop := ∀ fs ∈ p.fields, ∀ f ∈ fs, P f.2.2

section

variable {p : Partials} {shape : Shape} {span : Span}

/-- What an object may be before its members. -/
theorem Partials.Have.start : Partials.Have P ⟨[[]], false⟩ :=
  List.forall_mem_singleton.2 (List.forall_mem_nil _)

theorem Partials.Have.put (hp : p.Have P) (key : String) (keySpan : Span) (h : P shape) :
    (p.put key keySpan shape).Have P := by
  intro fs hm
  obtain ⟨es, he, rfl⟩ := List.mem_map.1 hm
  exact Entries.forall_put (P := fun v : Span × Shape => P v.2) (hp es he) h

variable (hP : Closed P)

include hP

theorem gives_spreadInto {partials : List ShapeFields} {branch : Shape}
    (hp : ∀ fs ∈ partials, ∀ f ∈ fs, P f.2.2) (h : P branch) :
    Gives P (spreadInto partials branch) fun r => ∀ fs ∈ r.getD [], ∀ f ∈ fs, P f.2.2 := by
  unfold spreadInto
  split
  · refine .pure fun fs hm => ?_
    obtain ⟨es, he, rfl⟩ := List.mem_map.1 hm
    exact Entries.forall_putAll (P := fun v : Span × Shape => P v.2) (hp es he)
      ((hP.record ..).1 h)
  · exact .pure hp
  · exact .pure hp
  · exact .pure (List.forall_mem_nil _)
  · exact .bind (.of_steady (.report ..)) fun _ _ => .pure (List.forall_mem_nil _)

theorem gives_spreadBranches {partials : List ShapeFields} {branches : List Shape}
    (hp : ∀ fs ∈ partials, ∀ f ∈ fs, P f.2.2) (h : ∀ b ∈ branches, P b) :
    Gives P (spreadBranches partials branches) (Partials.Have P) := by
  induction branches with
  | nil => exact .pure (List.forall_mem_nil _)
  | cons branch rest ih =>
    obtain ⟨hb, hrest⟩ := List.forall_mem_cons.1 h
    exact .bind (gives_spreadInto hP hp hb) fun _ hf => .bind (ih hrest) fun _ hm =>
      .pure (List.forall_mem_append.2 ⟨hf, hm⟩)

theorem branchesOf_has (h : P shape) : ∀ b ∈ branchesOf shape, P b := by
  unfold branchesOf
  split
  · exact ((hP.oneOf ..).1 h).2
  · exact List.forall_mem_singleton.2 h

theorem gives_spread (hp : p.Have P) (h : P shape) :
    Gives P (p.spread shape) (Partials.Have P) := by
  refine .bind (gives_spreadBranches hP hp (branchesOf_has hP h)) fun next hn => ?_
  have hfields : ∀ fs ∈ if next.fields.isEmpty then p.fields else next.fields,
      ∀ f ∈ fs, P f.2.2 := by
    split
    · exact hp
    · exact hn
  exact .ite (.bind (.of_steady (.reportBranches _)) fun _ _ => .pure hfields) (.pure hfields)

theorem gives_shape (hp : p.Have P) : Gives P (p.shape span) P := by
  refine .ite (gives_leaf hP rfl) (gives_oneOf hP (fun s hs => ?_) span)
  obtain ⟨fs, hm, rfl⟩ := List.mem_map.1 hs
  exact (hP.record ..).2 (hp fs hm)

theorem gives_name (text : String) : Gives P (name text span) P := by
  refine .get_bind fun σ hσ => ?_
  split
  · rename_i shape hshape
    refine .pure (hP.leafAt ?_ span)
    unfold State.lookup? at hshape
    split at hshape
    · rename_i hs
      cases hshape
      obtain ⟨f, hf, hg⟩ := List.exists_of_findSome?_eq_some hs
      exact hσ.frames f hf _ (Entries.mem_of_get? hg)
    · obtain ⟨b, hb, rfl⟩ := Option.map_eq_some_iff.1 hshape
      exact hσ.globals _ (Entries.mem_of_get? hb)
  · exact gives_refuse hP ..

end

section

variable {call : Caller}

mutual

theorem gives_infer (hP : Closed P) (hc : CallerGives P call) : ∀ e, Gives P (infer call e) P
  | .string .. | .number .. | .boolean .. | .null _ | .undefined _ => gives_leaf hP rfl
  | .name .. => gives_name hP _
  | .template _ segments => .bind (gives_inferSegments hP hc _ segments) fun _ _ =>
      gives_leaf hP rfl
  | .array _ items => .bind (gives_inferItems hP hc items) fun _ hr => gives_arrayOf hP hr ..
  | .object _ ms =>
    .bind (gives_inferMembers hP hc .start ms) fun _ hp => gives_shape hP hp
  | .member _ object _ => .bind (gives_infer hP hc object) fun _ h => gives_member hP _ h
  | .index _ object position =>
    .bind (gives_infer hP hc object) fun _ h => .bind (gives_infer hP hc position) fun _ _ =>
      gives_index hP h
  | .call s callee args => by
    have hargs := gives_inferAll hP hc args
    by_cases hm : ∃ s object property, callee = .member s object property
    · obtain ⟨_, object, property, rfl⟩ := hm
      rw [infer]
      exact .bind (gives_infer hP hc object) fun _ h => .bind hargs fun _ ha =>
        gives_method hP hc _ h ha
    · rw [infer_call call hm]
      exact .bind (gives_infer hP hc callee) fun _ h => .bind hargs fun _ ha =>
        gives_callValue hP hc _ h ha
  | .arrow .. => .get_bind fun _ hσ => .pure ((hP.function ..).2 hσ.frames)
  | .unary _ _ operand => .bind (gives_infer hP hc operand) fun _ _ => gives_unary hP ..
  | .binary s op left right => by
    have hl := gives_infer hP hc left
    have hr := gives_infer hP hc right
    cases hop : op.stopsAt? with
    | some stop =>
      rw [infer_shortened call s hop]
      exact .bind hl fun l hl => gives_choose hP _ (.pure hl) hr s
    | none =>
      rw [infer_operator call s hop]
      exact .bind hl fun _ hl => .bind hr fun _ hr => gives_operator hP _ hl hr
  | .conditional s test consequent alternate => by
    rw [infer_conditional]
    exact .bind (gives_infer hP hc test) fun _ _ =>
      gives_choose hP _ (gives_infer hP hc consequent) (gives_infer hP hc alternate) s

theorem gives_inferSegments (hP : Closed P) (hc : CallerGives P call) :
    ∀ text segments, Gives P (inferSegments call text segments) fun _ => True
  | _, [] => .pure trivial
  | _, .text _ :: rest => gives_inferSegments hP hc _ rest
  | _, .hole e :: rest =>
    .bind (gives_infer hP hc e) fun _ _ => .bind (.of_steady (steady_extend ..)) fun _ _ =>
      gives_inferSegments hP hc _ rest

theorem gives_inferItems (hP : Closed P) (hc : CallerGives P call) :
    ∀ items, Gives P (inferItems call items) fun r => ∀ s ∈ r.1, P s
  | [] => .pure (List.forall_mem_nil _)
  | .item e :: rest =>
    .bind (gives_infer hP hc e) fun _ h => .bind (gives_inferItems hP hc rest) fun _ hr =>
      .pure (List.forall_mem_cons.2 ⟨h, hr⟩)
  | .spread e :: rest => by
    have hrest := gives_inferItems hP hc rest
    rw [inferItems]
    refine .bind (gives_infer hP hc e) fun shape h => ?_
    split
    · rename_i items allKnown hi
      exact .bind hrest fun _ hr =>
        .pure (List.forall_mem_append.2 ⟨hP.spread? shape h hi, hr⟩)
    · exact .bind (.of_steady (.report ..)) fun _ _ => .bind hrest fun _ hr => .pure hr

theorem gives_inferMembers (hP : Closed P) (hc : CallerGives P call) :
    ∀ {p : Partials}, p.Have P → ∀ ms, Gives P (inferMembers call p ms) (Partials.Have P)
  | _, hp, [] => .pure hp
  | _, hp, .field key keySpan e :: rest =>
    .bind (gives_infer hP hc e) fun _ h => gives_inferMembers hP hc (hp.put key keySpan h) rest
  | _, hp, .spread e :: rest =>
    .bind (gives_infer hP hc e) fun _ h => .bind (gives_spread hP hp h) fun _ hp =>
      gives_inferMembers hP hc hp rest

theorem gives_inferAll (hP : Closed P) (hc : CallerGives P call) :
    ∀ es, Gives P (inferAll call es) fun shapes => ∀ s ∈ shapes, P s
  | [] => .pure (List.forall_mem_nil _)
  | e :: es =>
    .bind (gives_infer hP hc e) fun _ h => .bind (gives_inferAll hP hc es) fun _ hr =>
      .pure (List.forall_mem_cons.2 ⟨h, hr⟩)

end

end

section

variable (hP : Closed P)

include hP

theorem frameOf_has (span : Span) (params : List Ident) {args : List Shape}
    (h : ∀ a ∈ args, P a) : ∀ b ∈ frameOf span params args, P b.2 := by
  induction params generalizing args with
  | nil => exact List.forall_mem_nil _
  | cons p ps ih =>
    cases args with
    | nil => exact Entries.forall_put (ih h) (hP.leaf _ rfl)
    | cons a as =>
      obtain ⟨ha, has⟩ := List.forall_mem_cons.1 h
      exact Entries.forall_put (ih has) ha

theorem gives_guarded (maxDepth : Nat) (span : Span) {work : CheckM Shape}
    (h : Gives P work P) : Gives P (guarded maxDepth span work) P :=
  .bind (.of_steady (steady_countCall span)) fun _ _ =>
    .ite (.get_bind fun _ _ => .ite (gives_refuse hP ..) h) (gives_leaf hP rfl)

theorem callerGives_call (maxDepth levels : Nat) : CallerGives P (Check.call maxDepth levels) := by
  induction levels with
  | zero => exact fun _ _ _ _ _ _ _ => gives_guarded hP _ _ (gives_refuse hP ..)
  | succ n ih =>
    intro params body captured args span hf ha
    have hframes : FramesHave P (frameOf span params args :: captured) :=
      List.forall_mem_cons.2 ⟨frameOf_has hP span params ha, hf⟩
    exact gives_guarded hP _ _ (.inside hframes (gives_infer hP ih body))

variable {limits : Limits} {schema : Schema}

theorem gives_shapeOf (limits : Limits) (e : Expr) : Gives P (shapeOf limits e) P :=
  gives_infer hP (callerGives_call hP _ _) e

omit hP in
theorem gives_bindName (name : String) {b : Binding} (h : P b.shape) :
    Gives P (bindName name b) fun _ => True :=
  ⟨fun _ hσ =>
    ⟨trivial, Entries.forall_put (P := fun b : Binding => P b.shape) hσ.globals h, hσ.frames⟩⟩

omit hP in
theorem gives_setContext (context : String) : Gives P (setContext context) fun _ => True :=
  ⟨fun _ hσ => ⟨trivial, hσ.globals, hσ.frames⟩⟩

theorem gives_assignRoot (value : Expr) :
    Gives P (assignRoot limits schema value) fun _ => True :=
  .bind (gives_setContext _) fun _ _ => .bind (gives_shapeOf hP limits value) fun _ h =>
    .bind (Q := fun _ => True) ⟨fun _ hσ => ⟨trivial, hσ.globals, hσ.frames⟩⟩ fun _ _ =>
      .bind (gives_bindName _ h) fun _ _ => .pure trivial

theorem gives_statement (s : Statement) :
    Gives P (statement limits schema s) fun _ => True := by
  have hroot (value : Expr) : Gives P (some <$> assignRoot limits schema value) fun _ => True :=
    .bind (gives_assignRoot hP value) fun _ _ => .pure trivial
  have hrole {name : String} : Gives P (roleOf? name) fun _ => True :=
    .of_steady (Steady.get.bind fun _ => .pure _)
  have hreport {expected found : String} {span : Span} :
      Gives P (report expected found span) fun _ => True := .of_steady (.report ..)
  cases s with
  | declare kind name init span =>
    refine .bind (gives_setContext _) fun _ _ => .bind hrole fun role _ => ?_
    split
    · exact .bind hreport fun _ _ => .pure trivial
    · split
      · exact hroot _
      · exact .pure trivial
      · exact .bind (gives_shapeOf hP limits _) fun _ h => .bind (gives_bindName _ h) fun _ _ =>
          .pure trivial
      · exact .bind (gives_bindName _ (hP.leaf _ rfl)) fun _ _ => .pure trivial
  | assign target value span =>
    refine .bind (gives_setContext _) fun _ _ => .bind hrole fun role _ => ?_
    split
    · exact hroot _
    · refine .bind (gives_shapeOf hP limits _) fun _ h => ?_
      dsimp only
      split
      · exact .bind hreport fun _ _ => .pure trivial
      · exact .bind (gives_bindName _ h) fun _ _ => .pure trivial
      · exact .pure trivial
  | expression value =>
    exact .bind (gives_setContext _) fun _ _ => .bind (gives_shapeOf hP limits _) fun _ _ =>
      .pure trivial

theorem gives_statements (ss : List Statement) :
    Gives P (statements limits schema ss) fun _ => True := by
  induction ss with
  | nil => exact .pure trivial
  | cons s ss ih => exact .bind (gives_statement hP s) fun _ _ => .bind ih fun _ _ => .pure trivial

theorem has_initial (schema : Schema) : (initial schema).Has P where
  globals := by
    have hconstants : ∀ b ∈ Entries.ofList (schema.constants.map fun c =>
        (c.name, (⟨.constant, .sentinel default ⟨c.name, c.value⟩⟩ : Binding))), P b.2.shape := by
      refine Entries.forall_putAll (P := fun b : Binding => P b.shape) (List.forall_mem_nil _) ?_
      intro e he
      obtain ⟨c, -, rfl⟩ := List.mem_map.1 he
      exact hP.leaf _ rfl
    exact Entries.forall_put (P := fun b : Binding => P b.shape) hconstants (hP.leaf _ rfl)
  frames := List.forall_mem_nil _

/-- Every state between the statements of a program binds shapes with the property. -/
theorem has_statements (ss : List Statement) :
    (after (statements limits schema ss) (initial schema)).Has P :=
  ((gives_statements hP ss).run _ (has_initial hP schema)).2

end

end Check

end TypedConfig
