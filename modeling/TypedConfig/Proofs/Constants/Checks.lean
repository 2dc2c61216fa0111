import TypedConfig.Check
import TypedConfig.Proofs.Check.Parts
import TypedConfig.Proofs.Check.Statements
import TypedConfig.Proofs.Constants.Methods
import TypedConfig.Proofs.Simulation.Programs

/-! # Checks with a constant written out

A program in which a constant is written out is checked as the program is, with errors if the
program has some and with the same alternatives, unless the program is refused for the constant
as an operand.
-/

namespace TypedConfig

variable {c : Sentinel}

namespace Check

open Shape (inlinedAll inlinedFields inlinedFrame inlinedFrames inlinedResults)

variable {frames : List ShapeFrame} {call : Caller}

mutual

theorem inlines_infer (h : InlinesCalls c call) : ∀ e : Expr,
    Inlines c frames (Shape.inlined c) (infer call e)
      (infer call (e.inlined c (Entries.anyBinds frames c.name)))
  | .string .. | .number .. | .boolean .. | .null _ | .undefined _ => .pure rfl
  | .name s n => by
    rw [Expr.inlined]
    split
    · rename_i hfree
      obtain ⟨hbound, rfl⟩ := hfree
      exact inlines_constant call hbound s
    · rename_i hbound
      refine inlines_name ?_ s
      by_cases hn : n = c.name
      · exact .inr (by simpa [hn] using hbound)
      · exact .inl hn
  | .template _ segments => (inlines_inferSegments h _ segments).bind fun _ => .pure rfl
  | .array _ items => (inlines_inferItems h items).bind fun _ => .arrayOf ..
  | .object _ ms => (inlines_inferMembers h ⟨[[]], false⟩ ms).bind fun _ => inlines_shape ..
  | .member _ object _ => (inlines_infer h object).bind fun _ => inlines_member ..
  | .index _ object position =>
    (inlines_infer h object).bind fun _ => (inlines_infer h position).bind fun _ =>
      inlines_index ..
  | .call _ callee args => by
    have hargs := inlines_inferAll h args
    by_cases hm : ∃ s object property, callee = .member s object property
    -- The callee of a method call is not read as a member of its own.
    · obtain ⟨_, object, property, rfl⟩ := hm
      rw [Expr.inlined, Expr.inlined, infer, infer]
      exact (inlines_infer h object).bind fun _ => hargs.bind fun _ => inlines_method h ..
    · rw [Expr.inlined, infer_call call hm, infer_call call (Expr.not_member_inlined hm)]
      exact (inlines_infer h callee).bind fun _ => hargs.bind fun _ => inlines_callValue h ..
  | .arrow s params body => by
    refine ⟨fun _ => List.suffix_rfl, fun σ σ' hσ => .inr ⟨?_, hσ⟩⟩
    show Shape.function s params _ σ'.frames = (Shape.function s params body σ.frames).inlined c
    rw [hσ.here, hσ.there]
    rfl
  | .unary _ _ operand => (inlines_infer h operand).bind fun _ => inlines_unary ..
  | .binary s op left right => by
    have hl := inlines_infer h left
    have hr := inlines_infer h right
    cases hop : op.stopsAt? with
    | some stop =>
      rw [Expr.inlined, infer_shortened _ _ hop, infer_shortened _ _ hop]
      refine hl.bind fun l => ?_
      rw [l.truthiness_inlined]
      exact .choose _ (.pure rfl) hr s
    | none =>
      rw [Expr.inlined, infer_operator _ _ hop, infer_operator _ _ hop]
      exact hl.bind fun _ => hr.bind fun _ => inlines_operator ..
  | .conditional s test consequent alternate => by
    rw [Expr.inlined, infer_conditional, infer_conditional]
    refine (inlines_infer h test).bind fun t => ?_
    rw [t.truthiness_inlined]
    exact .choose _ (inlines_infer h consequent) (inlines_infer h alternate) s

theorem inlines_inferSegments (h : InlinesCalls c call) :
    ∀ (text : Option String) (segments : List TemplateSegment),
      Inlines c frames id (inferSegments call text segments)
        (inferSegments call text
          (Expr.inlinedSegments c (Entries.anyBinds frames c.name) segments))
  | _, [] => .pure rfl
  | _, .text _ :: rest => inlines_inferSegments h _ rest
  | _, .hole e :: rest =>
    (inlines_infer h e).bind fun _ => .after (inlines_extend ..) fun _ =>
      inlines_inferSegments h _ rest

theorem inlines_inferItems (h : InlinesCalls c call) : ∀ items : List ArrayItem,
    Inlines c frames (inlinedResults c) (inferItems call items)
      (inferItems call (Expr.inlinedItems c (Entries.anyBinds frames c.name) items))
  | [] => .pure rfl
  | .item e :: rest =>
    (inlines_infer h e).bind fun _ => (inlines_inferItems h rest).bind fun _ => .pure rfl
  | .spread e :: rest => by
    have hrest := inlines_inferItems h rest
    rw [Expr.inlinedItems, inferItems, inferItems]
    refine (inlines_infer h e).bind fun shape => ?_
    rw [Shape.spread?_inlined]
    cases shape.spread? with
    | some items =>
      exact hrest.bind fun _ => .pure (Prod.ext (Shape.inlinedAll_append ..).symm rfl)
    | none => exact .after (.report ..) fun _ => hrest.bind fun _ => .pure rfl

theorem inlines_inferMembers (h : InlinesCalls c call) :
    ∀ (p : Partials) (ms : List ObjectMember),
      Inlines c frames (Partials.inlined c) (inferMembers call p ms)
        (inferMembers call (p.inlined c)
          (Expr.inlinedMembers c (Entries.anyBinds frames c.name) ms))
  | _, [] => .pure rfl
  | p, .field key keySpan e :: rest => by
    rw [Expr.inlinedMembers, inferMembers, inferMembers]
    refine (inlines_infer h e).bind fun shape => ?_
    rw [put_inlined p key keySpan shape]
    exact inlines_inferMembers h _ rest
  | p, .spread e :: rest =>
    (inlines_infer h e).bind fun shape => (inlines_spread p shape).bind fun _ =>
      inlines_inferMembers h _ rest

theorem inlines_inferAll (h : InlinesCalls c call) : ∀ es : List Expr,
    Inlines c frames (inlinedAll c) (inferAll call es)
      (inferAll call (Expr.inlinedAll c (Entries.anyBinds frames c.name) es))
  | [] => .pure rfl
  | e :: es => (inlines_infer h e).bind fun _ => (inlines_inferAll h es).bind fun _ => .pure rfl

end

theorem inlines_countCall (span : Span) :
    Inlines c frames id (countCall span) (countCall span) := by
  let report (calls : Nat) : CheckM Bool := do
    if calls = maxCalls + 1 then
      report ("at most " ++ toString maxCalls ++ " function calls") "a program that calls more" span
    return decide (calls ≤ maxCalls)
  refine .after (.modify (fun _ => List.suffix_rfl) fun _ _ hs =>
    { hs with calls := congrArg (· + 1) hs.calls }) fun _ => ?_
  refine .read (k := report) (l := report) State.calls State.calls id (fun _ _ hs => hs.calls)
    fun calls => ?_
  exact .ite (.after (.report ..) fun _ => .pure rfl) (.pure rfl)

theorem inlines_guarded (maxDepth : Nat) (span : Span) {work work' : CheckM Shape}
    (h : Inlines c frames (Shape.inlined c) work work') :
    Inlines c frames (Shape.inlined c) (guarded maxDepth span work)
      (guarded maxDepth span work') := by
  refine .after (inlines_countCall span) fun _ => .ite ?_ (.pure rfl)
  refine .read (k := fun depth => if maxDepth ≤ depth then refuseDepth maxDepth span else work)
    (l := fun depth => if maxDepth ≤ depth then refuseDepth maxDepth span else work')
    State.depth State.depth id (fun _ _ hs => hs.depth) fun depth => ?_
  exact .ite (.refuse ..) h

theorem inlinesCalls_call (maxDepth levels : Nat) :
    InlinesCalls c (Check.call maxDepth levels) := by
  induction levels with
  | zero => exact fun _ _ _ _ _ _ => inlines_guarded _ _ (.refuse ..)
  | succ n ih =>
    intro frames params body captured args span
    have hbody : Inlines c frames _ (inside (frameOf span params args :: captured) _) _ :=
      .inside (inlines_infer ih body)
    rw [inlinedFrames, ← frameOf_inlined, Entries.anyBinds, List.any_cons, contains_frameOf,
      Bool.or_comm] at hbody
    exact inlines_guarded _ _ hbody

end Check

/-- Outcomes with errors both or neither, and the same alternatives. -/
structure Outcome.Alike (o o' : Outcome) : Prop where
  errors : o'.errors = [] ↔ o.errors = []
  resolutions : o'.resolutions = o.resolutions

namespace Outcome.Alike

variable {a a' b b' : Outcome}

theorem refl (o : Outcome) : o.Alike o := ⟨.rfl, rfl⟩

theorem ofError (e e' : CheckError) : (Outcome.ofError e).Alike (.ofError e') :=
  ⟨iff_of_false (List.cons_ne_nil _ _) (List.cons_ne_nil _ _), rfl⟩

theorem append (h : a.Alike a') (hb : b.Alike b') : (a ++ b).Alike (a' ++ b') := by
  constructor
  · rw [Match.errors_append_nil, Match.errors_append_nil, h.errors, hb.errors]
  · show a'.resolutions ++ b'.resolutions = a.resolutions ++ b.resolutions
    rw [h.resolutions, hb.resolutions]

theorem accepts (h : a.Alike a') : a'.accepts = a.accepts := by
  rw [Bool.eq_iff_iff, Outcome.accepts, Outcome.accepts, List.isEmpty_iff, List.isEmpty_iff,
    h.errors]

end Outcome.Alike

namespace Match

open Shape (inlinedAll inlinedFields)

/-- Matchings that both end with outcomes that are alike, or both do not end. -/
abbrev SameEnd : Option Outcome → Option Outcome → Prop := Option.Rel Outcome.Alike

namespace SameEnd

variable {α β : Type} {R : α → β → Prop}

theorem bind {x : Option α} {y : Option β} (h : Option.Rel R x y) {f : α → Option Outcome}
    {g : β → Option Outcome} (hf : ∀ a b, R a b → SameEnd (f a) (g b)) :
    SameEnd (x >>= f) (y >>= g) := by
  cases h with
  | some h => exact hf _ _ h
  | none => exact .none

theorem both {x y x' y' : Option Outcome} (h : SameEnd x x') (hy : SameEnd y y') :
    SameEnd (do return (← x) ++ (← y)) (do return (← x') ++ (← y')) :=
  bind h fun _ _ ha => bind hy fun _ _ hb => .some (ha.append hb)

/-- The choice of an alternative and what was found of it. -/
theorem choice (r : Resolution) {x x' : Option Outcome} (h : SameEnd x x') :
    SameEnd (do let o ← x; return Outcome.ofResolution r ++ o)
      (do let o ← x'; return Outcome.ofResolution r ++ o) :=
  bind h fun _ _ ha => .some ((Outcome.Alike.refl _).append ha)

theorem joinAll_inlinedAll {f g : Shape → Option Outcome}
    (h : ∀ shape, SameEnd (f shape) (g (shape.inlined c))) (shapes : List Shape) :
    SameEnd (joinAll f shapes) (joinAll g (inlinedAll c shapes)) := by
  induction shapes with
  | nil => exact .some (.refl _)
  | cons shape shapes ih => exact both (h shape) ih

theorem joinAll_inlinedFields {f g : String × Span × Shape → Option Outcome}
    (h : ∀ key s shape, SameEnd (f (key, s, shape)) (g (key, s, shape.inlined c)))
    (fields : ShapeFields) :
    SameEnd (joinAll f fields) (joinAll g (inlinedFields c fields)) := by
  induction fields with
  | nil => exact .some (.refl _)
  | cons e fields ih => exact both (h ..) ih

theorem joinItems_inlinedAll {f g : Nat → Shape → Option Outcome}
    (h : ∀ i shape, SameEnd (f i shape) (g i (shape.inlined c))) (i : Nat)
    (shapes : List Shape) :
    SameEnd (joinItems f i shapes) (joinItems g i (inlinedAll c shapes)) := by
  induction shapes generalizing i with
  | nil => exact .some (.refl _)
  | cons shape shapes ih => exact both (h i shape) (ih (i + 1))

end SameEnd

theorem alike_mismatch (label : String) (shape shape' : Shape) (path : String) :
    (mismatch label shape path).Alike (mismatch label shape' path) := .ofError ..

theorem alike_matchScalar (label : String) (kind : ScalarKind) (shape : Shape) (path : String) :
    (matchScalar label kind shape path).Alike
      (matchScalar label kind (shape.inlined c) path) := by
  unfold matchScalar
  rw [shape.kind?_inlined]
  split
  · exact .refl _
  · exact .ofError ..

theorem alike_matchLiteral (label : String) (values : List Scalar) (shape : Shape)
    (path : String) :
    (matchLiteral label values shape path).Alike
      (matchLiteral label values (shape.inlined c) path) := by
  unfold matchLiteral
  rw [shape.scalar?_inlined, shape.kind?_inlined]
  cases shape.scalar? with
  | some s =>
    dsimp only
    split
    · exact .refl _
    · exact .ofError ..
  | none =>
    dsimp only
    split <;> exact .ofError ..

variable (c) in
def InlinesMatches (inner : Matcher) : Prop :=
  ∀ label t shape path siblings, SameEnd (inner label t shape path siblings)
    (inner label t (shape.inlined c) path siblings)

variable (c) in
/-- A matcher of fields that finds the same with the constant written out. -/
def InlinesFields (field : Ty → Shape → String → Option Outcome) : Prop :=
  ∀ t shape path, SameEnd (field t shape path) (field t (shape.inlined c) path)

variable {inner : Matcher} {field : Ty → Shape → String → Option Outcome}

theorem inlines_matchRecord (hf : InlinesFields c field) (label : String) (declared : TyFields)
    (span : Span) (fields : ShapeFields) (path : String) (siblings : Siblings) :
    SameEnd (matchRecord field label declared (.record span fields) path siblings)
      (matchRecord field label declared (.record span (inlinedFields c fields)) path
        siblings) := by
  simp only [matchRecord_record, Shape.contains_inlinedFields]
  refine .both (.some (.refl _)) (SameEnd.joinAll_inlinedFields (fun key s shape => ?_) fields)
  simp only [matchField]
  cases TyFields.field? declared key with
  | some f => exact hf ..
  | none => exact .some (.refl _)

theorem fitsKeys_inlinedFields (fields : ShapeFields) (t : Ty) :
    fitsKeys (inlinedFields c fields) t = fitsKeys fields t := by
  cases t with
  | record name declared =>
    simp only [fitsKeys, Shape.contains_inlinedFields]
    congr 1
    rw [Shape.inlinedFields_eq_mapValues, Entries.mapValues, List.all_map]
    rfl
  | _ => rfl

theorem closest_inlinedFields (fields : ShapeFields) (records : Siblings) :
    closest (inlinedFields c fields) records = closest fields records := by
  have hscore (declared : TyFields) :
      score (inlinedFields c fields) declared = score fields declared := by
    simp only [score, Shape.inlinedFields_eq_mapValues, Entries.mapValues, List.filter_map,
      List.length_map]
    rfl
  cases records with
  | nil => rfl
  | cons s rest => simp only [closest, hscore]

theorem inlines_matchFirst (hi : InlinesMatches c inner) (label : String)
    (alternatives : List (String × Ty)) (shape : Shape) (path : String) :
    SameEnd (matchFirst inner label alternatives shape path)
      (matchFirst inner label alternatives (shape.inlined c) path) := by
  have hfirst : Option.Rel (Option.Rel fun a b => b.1 = a.1 ∧ a.2.Alike b.2)
      (firstAccepting (fun a => inner a.1 a.2 shape path []) alternatives)
      (firstAccepting (fun a => inner a.1 a.2 (shape.inlined c) path []) alternatives) := by
    induction alternatives with
    | nil => exact .some .none
    | cons a as ih =>
      rw [firstAccepting, firstAccepting]
      have ha := hi a.1 a.2 shape path []
      generalize inner a.1 a.2 shape path [] = x at ha
      generalize inner a.1 a.2 (shape.inlined c) path [] = y at ha
      cases ha with
      | none => exact .none
      | some ha =>
        simp only [Option.bind_eq_bind, Option.bind_some, ha.accepts]
        split
        · exact .some (.some ⟨rfl, ha⟩)
        · exact ih
  refine SameEnd.bind hfirst fun a b hab => ?_
  cases hab with
  | none => exact .some (alike_mismatch ..)
  | some hab =>
    rename_i a b
    obtain ⟨name, o⟩ := a
    obtain ⟨_, o'⟩ := b
    obtain ⟨rfl, ho⟩ := hab
    exact .some ((Outcome.Alike.refl _).append ho)

theorem inlines_matchUnion (hi : InlinesMatches c inner) (hf : InlinesFields c field)
    (label : String) (alternatives : List (String × Ty)) (shape : Shape)
    (hk : shape.kind? = none) (path : String) :
    SameEnd (matchUnion inner field label alternatives shape path)
      (matchUnion inner field label alternatives (shape.inlined c) path) := by
  have hmismatch : SameEnd (some (mismatch label shape path))
      (some (mismatch label (shape.inlined c) path)) := .some (alike_mismatch ..)
  have hchoice (name : String) (t : Ty) (siblings : Siblings) :=
    SameEnd.choice ⟨path, label, name⟩ (hi name t shape path siblings)
  have hfirst := inlines_matchFirst hi label alternatives shape path
  cases shape with
  | record span fields =>
    simp only [Shape.inlined, matchUnion, fitsKeys_inlinedFields, closest_inlinedFields]
      at hchoice hmismatch ⊢
    split
    · exact hchoice ..
    · split
      · exact inlines_matchRecord hf ..
      · exact hmismatch
  | tuple span items | array span element =>
    simp only [Shape.inlined, matchUnion] at hchoice hmismatch ⊢
    split
    · exact hchoice ..
    · exact hmismatch
  | null s | undefined s => exact hmismatch
  | function s ps b fs => exact hmismatch
  | string | number | boolean | sentinel => cases hk
  | _ => exact hfirst

theorem inlines_matchLeaf (schema : Schema) (hi : InlinesMatches c inner)
    (hf : InlinesFields c field) (label : String) (t : Ty) (shape : Shape) (path : String)
    (siblings : Siblings) :
    SameEnd (matchLeaf schema inner field label t shape path siblings)
      (matchLeaf schema inner field label t (shape.inlined c) path siblings) := by
  cases t with
  | named name => exact hi ..
  | scalar kind => exact .some (alike_matchScalar ..)
  | literal values => exact .some (alike_matchLiteral ..)
  | record | map => exact .some (alike_mismatch ..)
  | sequence element acceptsSingle =>
    cases acceptsSingle with
    | true => exact hf ..
    | false => exact .some (alike_mismatch ..)
  | union ts => exact inlines_matchFirst hi ..

theorem inlines_matchPlain (schema : Schema) (hi : InlinesMatches c inner)
    (hf : InlinesFields c field) (label : String) (t : Ty) (shape : Shape)
    (hk : shape.kind? = none) (path : String) (siblings : Siblings) :
    SameEnd (matchPlain schema inner field label t shape path siblings)
      (matchPlain schema inner field label t (shape.inlined c) path siblings) := by
  have hmismatch : SameEnd (some (mismatch label shape path))
      (some (mismatch label (shape.inlined c) path)) := .some (alike_mismatch ..)
  cases t with
  | named name => exact hi ..
  | scalar kind => exact .some (alike_matchScalar ..)
  | literal values => exact .some (alike_matchLiteral ..)
  | union ts => exact inlines_matchUnion hi hf _ _ _ hk _
  | record name declared =>
    cases shape with
    | record span fields => exact inlines_matchRecord hf ..
    | string | number | boolean | sentinel => cases hk
    | _ => exact hmismatch
  | map key value =>
    cases shape with
    | record span fields => exact SameEnd.joinAll_inlinedFields (fun _ _ _ => hf ..) fields
    | string | number | boolean | sentinel => cases hk
    | _ => exact hmismatch
  | sequence element acceptsSingle =>
    have hsingle : SameEnd
        (if acceptsSingle then field element shape path else some (mismatch label shape path))
        (if acceptsSingle then field element (shape.inlined c) path
          else some (mismatch label (shape.inlined c) path)) := by
      split
      · exact hf ..
      · exact hmismatch
    cases shape with
    | tuple span items => exact SameEnd.joinItems_inlinedAll (fun _ _ => hf ..) 0 items
    | array span item => exact hf ..
    | string | number | boolean | sentinel => cases hk
    | _ => exact hsingle

theorem inlinesMatches_matchWithin (schema : Schema) (levels : Nat) :
    InlinesMatches c (matchWithin schema levels) := by
  induction levels with
  | zero => exact fun _ _ _ _ _ => .none
  | succ n ih =>
    intro label t shape path siblings
    have hfield : InlinesFields c fun t shape path =>
        matchWithin schema n t.text (schema.resolve t) shape path [] := fun _ _ _ => ih ..
    cases hk : shape.kind? with
    | some kind =>
      have hs : shape.kind?.isSome = true := by rw [hk]; rfl
      rw [matchWithin_of_kind? hs, matchWithin_of_kind? (by rwa [shape.kind?_inlined])]
      exact inlines_matchLeaf schema ih hfield ..
    | none =>
      have hplain := inlines_matchPlain schema ih hfield label t shape hk path siblings
      cases shape with
      | unknown s => exact .some (.refl _)
      | oneOf s branches => exact SameEnd.joinAll_inlinedAll (fun _ => ih ..) branches
      | string | number | boolean | sentinel => cases hk
      | _ => exact hplain

theorem alike_conform (schema : Schema) (t : Ty) (shape : Shape) (path : String) :
    (conform schema t shape path).Alike (conform schema t (shape.inlined c) path) := by
  have hends := inlinesMatches_matchWithin (c := c) schema (levelsFor schema t shape) t.text
    (schema.resolve t) shape path []
  unfold conform conformWithin
  rw [show levelsFor schema t (shape.inlined c) = levelsFor schema t shape by
    rw [levelsFor, levelsFor, shape.height_inlined]]
  generalize matchWithin schema _ t.text _ shape path [] = x at hends
  generalize matchWithin schema _ t.text _ (shape.inlined c) path [] = y at hends
  cases hends with
  | none => exact alike_mismatch ..
  | some h => exact h

end Match

end TypedConfig
