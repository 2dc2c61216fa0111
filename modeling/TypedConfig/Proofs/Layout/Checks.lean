import TypedConfig.Check
import TypedConfig.Proofs.Check.Parts
import TypedConfig.Proofs.Layout.Operations
import TypedConfig.Proofs.Simulation.Programs

/-! # Checks do not depend on places

Finding shapes, calling functions, matching shapes and checking statements erase to themselves,
so a program is checked without an error, and with the same outcome, if the program with all its
spans forgotten is.
-/

namespace TypedConfig

namespace Check

open Shape (bareAll bareFields bareFrame bareFrames bareResults)

variable {call : Caller}

mutual

theorem erases_infer (h : LayoutFree call) : ∀ e : Expr,
    Erases Shape.bare (infer call e) (infer call e.bare)
  | .string .. | .number .. | .boolean .. | .null _ | .undefined _ => .pure rfl
  | .name .. => erases_name ..
  | .template _ segments => (erases_inferSegments h _ segments).bind fun _ => .pure rfl
  | .array _ items => (erases_inferItems h items).bind fun _ => .arrayOf ..
  | .object _ ms => (erases_inferMembers h ⟨[[]], false⟩ ms).bind fun _ => erases_shape ..
  | .member _ object _ => (erases_infer h object).bind fun _ => erases_member ..
  | .index _ object position =>
    (erases_infer h object).bind fun _ => (erases_infer h position).bind fun _ => erases_index ..
  | .call _ callee args => by
    have hargs := erases_inferAll h args
    by_cases hm : ∃ s object property, callee = .member s object property
    -- The callee of a method call is not read as a member of its own.
    · obtain ⟨_, object, property, rfl⟩ := hm
      rw [Expr.bare, Expr.bare, infer, infer]
      exact (erases_infer h object).bind fun _ => hargs.bind fun _ => erases_method h ..
    · rw [Expr.bare, infer_call call hm, infer_call call (Expr.not_member_bare hm),
        callee.span_bare]
      exact (erases_infer h callee).bind fun _ => hargs.bind fun _ => erases_callValue h ..
  | .arrow .. => Erases.get.bind fun _ => .pure rfl
  | .unary _ _ operand => (erases_infer h operand).bind fun _ => erases_unary ..
  | .binary s op left right => by
    have hl := erases_infer h left
    have hr := erases_infer h right
    cases hop : op.stopsAt? with
    | some stop =>
      rw [Expr.bare, infer_shortened _ _ hop, infer_shortened _ _ hop]
      refine hl.bind fun l => ?_
      rw [l.truthiness_bare]
      exact .choose _ (.pure rfl) hr s
    | none =>
      rw [Expr.bare, infer_operator _ _ hop, infer_operator _ _ hop]
      exact hl.bind fun _ => hr.bind fun _ => erases_operator ..
  | .conditional s test consequent alternate => by
    rw [Expr.bare, infer_conditional, infer_conditional]
    refine (erases_infer h test).bind fun t => ?_
    rw [t.truthiness_bare]
    exact .choose _ (erases_infer h consequent) (erases_infer h alternate) s

theorem erases_inferSegments (h : LayoutFree call) :
    ∀ (text : Option String) (segments : List TemplateSegment),
      Erases id (inferSegments call text segments)
        (inferSegments call text (Expr.bareSegments segments))
  | _, [] => .pure rfl
  | _, .text _ :: rest => erases_inferSegments h _ rest
  | _, .hole e :: rest =>
    (erases_infer h e).bind fun _ => .after (erases_extend ..) fun _ =>
      erases_inferSegments h _ rest

theorem erases_inferItems (h : LayoutFree call) : ∀ items : List ArrayItem,
    Erases bareResults (inferItems call items) (inferItems call (Expr.bareItems items))
  | [] => .pure rfl
  | .item e :: rest =>
    (erases_infer h e).bind fun _ => (erases_inferItems h rest).bind fun _ => .pure rfl
  | .spread e :: rest => by
    have hrest := erases_inferItems h rest
    rw [Expr.bareItems, inferItems, inferItems]
    refine (erases_infer h e).bind fun shape => ?_
    rw [Shape.spread?_bare, shape.span_bare]
    cases shape.spread? with
    | some items =>
      exact hrest.bind fun _ => .pure (Prod.ext (Shape.bareAll_append ..).symm rfl)
    | none =>
      exact .after (.report _ shape.describe_bare _) fun _ => hrest.bind fun _ => .pure rfl

theorem erases_inferMembers (h : LayoutFree call) : ∀ (p : Partials) (ms : List ObjectMember),
    Erases Partials.bare (inferMembers call p ms)
      (inferMembers call p.bare (Expr.bareMembers ms))
  | _, [] => .pure rfl
  | p, .field key keySpan e :: rest => by
    rw [Expr.bareMembers, inferMembers, inferMembers]
    refine (erases_infer h e).bind fun shape => ?_
    rw [put_bare p key keySpan shape]
    exact erases_inferMembers h _ rest
  | p, .spread e :: rest =>
    (erases_infer h e).bind fun shape => (erases_spread p shape).bind fun _ =>
      erases_inferMembers h _ rest

theorem erases_inferAll (h : LayoutFree call) : ∀ es : List Expr,
    Erases bareAll (inferAll call es) (inferAll call (Expr.bareAll es))
  | [] => .pure rfl
  | e :: es => (erases_infer h e).bind fun _ => (erases_inferAll h es).bind fun _ => .pure rfl

end

theorem erases_guarded (maxDepth : Nat) (span : Span) {work work' : CheckM Shape}
    (h : Erases Shape.bare work work') :
    Erases Shape.bare (guarded maxDepth span work) (guarded maxDepth default work') := by
  have hcount : Erases id (countCall span) (countCall default) := by
    refine .after (.modify fun _ => rfl) fun _ => Erases.get.bind fun s => ?_
    exact .ite (.after (.report _ rfl _) fun _ => .pure rfl) (.pure rfl)
  refine .after hcount fun _ => .ite (Erases.get.bind fun s => ?_) (.pure rfl)
  exact .ite (.refuse _ rfl _ _) h

theorem layoutFree_call (maxDepth levels : Nat) : LayoutFree (Check.call maxDepth levels) := by
  induction levels with
  | zero => exact fun _ _ _ _ _ => erases_guarded _ _ (.refuse _ rfl _ _)
  | succ n ih =>
    intro params body captured args span
    have hbody := Erases.inside (frameOf span params args :: captured) (erases_infer ih body)
    rw [bareFrames, ← frameOf_bare] at hbody
    exact erases_guarded _ _ hbody

end Check

/-- The outcome with the spans of its errors forgotten. -/
def Outcome.bare (o : Outcome) : Outcome := ⟨o.errors.map .bare, o.resolutions⟩

@[simp] theorem Outcome.bare_append (a b : Outcome) : (a ++ b).bare = a.bare ++ b.bare := by
  show Outcome.bare (Outcome.append a b) = Outcome.append a.bare b.bare
  simp [Outcome.append, Outcome.bare]

@[simp] theorem Outcome.accepts_bare (o : Outcome) : o.bare.accepts = o.accepts := by
  simp [Outcome.accepts, Outcome.bare]

namespace Match

open Shape (bareAll bareFields)

theorem mismatch_bare (label : String) (shape : Shape) (path : String) :
    mismatch label shape.bare path = (mismatch label shape path).bare := by
  simp [mismatch, Outcome.bare, Outcome.ofError, CheckError.bare]

theorem matchScalar_bare (label : String) (kind : ScalarKind) (shape : Shape) (path : String) :
    matchScalar label kind shape.bare path = (matchScalar label kind shape path).bare := by
  unfold matchScalar
  rw [shape.kind?_bare, mismatch_bare]
  split <;> rfl

theorem matchLiteral_bare (label : String) (values : List Scalar) (shape : Shape)
    (path : String) :
    matchLiteral label values shape.bare path = (matchLiteral label values shape path).bare := by
  unfold matchLiteral
  rw [shape.scalar?_bare, shape.kind?_bare, mismatch_bare, shape.describe_bare, shape.span_bare]
  cases shape.scalar? with
  | some s => dsimp only; split <;> rfl
  | none => dsimp only; split <;> rfl

theorem joinAll_bareAll {f f' : Shape → Option Outcome}
    (h : ∀ shape, f' shape.bare = (f shape).map .bare) (shapes : List Shape) :
    joinAll f' (bareAll shapes) = (joinAll f shapes).map .bare := by
  induction shapes with
  | nil => rfl
  | cons shape shapes ih =>
    rw [bareAll, joinAll, joinAll, h, ih]
    cases f shape <;> cases joinAll f shapes <;> simp

theorem joinAll_bareFields {f f' : String × Span × Shape → Option Outcome}
    (h : ∀ key s shape, f' (key, default, shape.bare) = (f (key, s, shape)).map .bare)
    (fields : ShapeFields) : joinAll f' (bareFields fields) = (joinAll f fields).map .bare := by
  induction fields with
  | nil => rfl
  | cons e fields ih =>
    rw [bareFields, joinAll, joinAll, h, ih]
    cases f e <;> cases joinAll f fields <;> simp

theorem joinItems_bareAll {f f' : Nat → Shape → Option Outcome}
    (h : ∀ i shape, f' i shape.bare = (f i shape).map .bare) (i : Nat) (shapes : List Shape) :
    joinItems f' i (bareAll shapes) = (joinItems f i shapes).map .bare := by
  induction shapes generalizing i with
  | nil => rfl
  | cons shape shapes ih =>
    rw [bareAll, joinItems, joinItems, h, ih]
    cases f i shape <;> cases joinItems f (i + 1) shapes <;> simp

def LayoutFree (inner : Matcher) : Prop :=
  ∀ label t shape path siblings,
    inner label t shape.bare path siblings = (inner label t shape path siblings).map .bare

/-- A matcher of fields that gives the same up to spans. -/
def FieldsFree (field : Ty → Shape → String → Option Outcome) : Prop :=
  ∀ t shape path, field t shape.bare path = (field t shape path).map .bare

theorem matchRecord_bare {field : Ty → Shape → String → Option Outcome} (h : FieldsFree field)
    (label : String) (declared : TyFields) (shape : Shape) (path : String)
    (siblings : Siblings) :
    matchRecord field label declared shape.bare path siblings =
      (matchRecord field label declared shape path siblings).map .bare := by
  have hmismatch := mismatch_bare label shape path
  cases shape with
  | record span fields =>
    have hfield (key : String) (s : Span) (shape : Shape) :
        matchField field label declared path siblings (key, default, shape.bare) =
          (matchField field label declared path siblings (key, s, shape)).map .bare := by
      simp only [matchField]
      cases TyFields.field? declared key with
      | some f => exact h ..
      | none => rfl
    have hmissing (fs : TyFields) : Outcome.bare ⟨fs.map (missingField span path), []⟩ =
        ⟨fs.map (missingField default path), []⟩ := by
      simp [Outcome.bare, Function.comp_def, missingField, CheckError.bare]
    simp only [Shape.bare, matchRecord_record, Shape.contains_bareFields,
      joinAll_bareFields hfield, ← hmissing]
    cases joinAll (matchField field label declared path siblings) fields with
    | none => rfl
    | some rest => exact congrArg some (Outcome.bare_append ..).symm
  | _ => exact congrArg some hmismatch

theorem fitsKeys_bareFields (fields : ShapeFields) (t : Ty) :
    fitsKeys (bareFields fields) t = fitsKeys fields t := by
  cases t with
  | record name declared =>
    simp only [fitsKeys, Shape.contains_bareFields]
    congr 1
    rw [Shape.bareFields_eq_mapValues, Entries.mapValues, List.all_map]
    rfl
  | _ => rfl

theorem closest_bareFields (fields : ShapeFields) (records : Siblings) :
    closest (bareFields fields) records = closest fields records := by
  have hscore (declared : TyFields) :
      score (bareFields fields) declared = score fields declared := by
    simp only [score, Shape.bareFields_eq_mapValues, Entries.mapValues, List.filter_map,
      List.length_map]
    rfl
  cases records with
  | nil => rfl
  | cons s rest => simp only [closest, hscore]

theorem firstAccepting_map {f f' : String × Ty → Option Outcome}
    (h : ∀ a, f' a = (f a).map .bare) (alternatives : List (String × Ty)) :
    firstAccepting f' alternatives =
      (firstAccepting f alternatives).map (Option.map fun r => (r.1, r.2.bare)) := by
  induction alternatives with
  | nil => rfl
  | cons a as ih =>
    rw [firstAccepting, firstAccepting, h, ih]
    cases f a with
    | none => rfl
    | some o =>
      show (if o.bare.accepts then _ else _) = Option.map _ (if o.accepts then _ else _)
      rw [o.accepts_bare]
      split <;> rfl

theorem matchUnion_bare {inner : Matcher} (h : LayoutFree inner)
    {field : Ty → Shape → String → Option Outcome} (hf : FieldsFree field) (label : String)
    (alternatives : List (String × Ty)) (shape : Shape) (path : String) :
    matchUnion inner field label alternatives shape.bare path =
      (matchUnion inner field label alternatives shape path).map .bare := by
  have hmismatch := mismatch_bare label shape path
  have happend (r : Resolution) (o : Outcome) :
      Outcome.ofResolution r ++ o.bare = (Outcome.ofResolution r ++ o).bare :=
    (Outcome.bare_append (.ofResolution r) o).symm
  have hchoice (name : String) (t : Ty) (siblings : Siblings) :
      (do
        let o ← inner name t shape.bare path siblings
        return Outcome.ofResolution ⟨path, label, name⟩ ++ o) =
      (do
        let o ← inner name t shape path siblings
        return Outcome.ofResolution ⟨path, label, name⟩ ++ o : Option Outcome).map .bare := by
    rw [h]
    cases inner name t shape path siblings with
    | none => rfl
    | some o => exact congrArg some (happend ..)
  have hfirst : matchFirst inner label alternatives shape.bare path =
      (matchFirst inner label alternatives shape path).map .bare := by
    unfold matchFirst
    have hinner : firstAccepting (fun a => inner a.1 a.2 shape.bare path []) alternatives =
        (firstAccepting (fun a => inner a.1 a.2 shape path []) alternatives).map
          (Option.map fun r => (r.1, r.2.bare)) :=
      firstAccepting_map (fun a => h a.1 a.2 shape path []) alternatives
    refine (congrArg (· >>= _) hinner).trans ?_
    show _ = ((firstAccepting (fun a => inner a.1 a.2 shape path []) alternatives) >>= _).map _
    generalize firstAccepting (fun a => inner a.1 a.2 shape path []) alternatives = first
    rcases first with _ | _ | ⟨name, o⟩
    · rfl
    · exact congrArg some hmismatch
    · exact congrArg some (happend ..)
  cases shape with
  | record span fields =>
    have hrecord := matchRecord_bare hf
    simp only [Shape.bare, matchUnion, fitsKeys_bareFields, closest_bareFields]
      at hchoice hmismatch ⊢
    split
    · exact hchoice ..
    · split
      · exact hrecord _ _ (.record span fields) ..
      · exact congrArg some hmismatch
  | tuple span items | array span element =>
    simp only [Shape.bare, matchUnion] at hchoice hmismatch ⊢
    split
    · exact hchoice ..
    · exact congrArg some hmismatch
  | null s | undefined s => exact congrArg some hmismatch
  | function s ps b fs => exact congrArg some hmismatch
  | _ => exact hfirst

theorem matchPlain_bare (schema : Schema) {inner : Matcher} (h : LayoutFree inner)
    {field : Ty → Shape → String → Option Outcome} (hf : FieldsFree field) (label : String)
    (t : Ty) (shape : Shape) (path : String) (siblings : Siblings) :
    matchPlain schema inner field label t shape.bare path siblings =
      (matchPlain schema inner field label t shape path siblings).map .bare := by
  have hmismatch : some (mismatch label shape.bare path) =
      (some (mismatch label shape path)).map .bare := congrArg some (mismatch_bare ..)
  cases t with
  | named name => exact h ..
  | scalar kind => exact congrArg some (matchScalar_bare ..)
  | literal values => exact congrArg some (matchLiteral_bare ..)
  | record name declared => exact matchRecord_bare hf ..
  | union ts => exact matchUnion_bare h hf ..
  | map key value =>
    cases shape with
    | record span fields => exact joinAll_bareFields (fun _ _ _ => hf ..) fields
    | _ => exact hmismatch
  | sequence element acceptsSingle =>
    have hsingle : (if acceptsSingle then field element shape.bare path
          else some (mismatch label shape.bare path)) =
        (if acceptsSingle then field element shape path
          else some (mismatch label shape path)).map .bare := by
      split
      · exact hf ..
      · exact hmismatch
    cases shape with
    | tuple span items => exact joinItems_bareAll (fun _ _ => hf ..) 0 items
    | array span item => exact hf ..
    | _ => exact hsingle

theorem layoutFree_matchWithin (schema : Schema) (levels : Nat) :
    LayoutFree (matchWithin schema levels) := by
  induction levels with
  | zero => exact fun _ _ _ _ _ => rfl
  | succ n ih =>
    intro label t shape path siblings
    have hfield : FieldsFree fun t shape path =>
        matchWithin schema n t.text (schema.resolve t) shape path [] := fun _ _ _ => ih ..
    have hplain := matchPlain_bare schema ih hfield label t shape path siblings
    cases shape with
    | unknown s => rfl
    | oneOf s branches => exact joinAll_bareAll (fun _ => ih ..) branches
    | _ => exact hplain

theorem conform_bare (schema : Schema) (t : Ty) (shape : Shape) (path : String) :
    conform schema t shape.bare path = (conform schema t shape path).bare := by
  have hlevels : levelsFor schema t shape.bare = levelsFor schema t shape := by
    rw [levelsFor, levelsFor, shape.height_bare]
  unfold conform conformWithin
  rw [hlevels, layoutFree_matchWithin, mismatch_bare]
  cases matchWithin schema (levelsFor schema t shape) t.text (schema.resolve t) shape path [] <;>
    rfl

end Match

namespace Check

variable {limits : Limits} {schema : Schema}

theorem erases_shapeOf (e : Expr) :
    Erases Shape.bare (shapeOf limits e) (shapeOf limits e.bare) :=
  erases_infer (layoutFree_call limits.maxDepth limits.maxDepth) e

theorem erases_setContext (context : String) :
    Erases id (setContext context) (setContext context) := .modify fun _ => rfl

theorem erases_bindName (name : String) (b : Binding) :
    Erases id (bindName name b) (bindName name b.bare) :=
  .modify fun s => by simp only [State.bare, Entries.put_mapValues]

theorem erases_roleOf? (name : String) : Erases id (roleOf? name) (roleOf? name) := by
  refine Erases.get.bind fun s => .pure ?_
  simp only [State.bare, Entries.get?_mapValues]
  cases Entries.get? s.globals name <;> rfl

theorem erases_assignRoot (value : Expr) :
    Erases id (assignRoot limits schema value) (assignRoot limits schema value.bare) := by
  refine .after (erases_setContext _) fun _ => (erases_shapeOf value).bind fun shape => ?_
  dsimp only
  rw [Match.conform_bare]
  refine .after (.modify fun s => ?_) fun _ => .after (erases_bindName ..) fun _ => .pure rfl
  simp [State.bare, Outcome.bare]

theorem erases_statement (s : Statement) :
    Erases id (statement limits schema s) (statement limits schema s.bare) := by
  have hreport (expected found : String) (span : Span) {r : Option (List Resolution)} :
      Erases id (do report expected found span; return r)
        (do report expected found default; return r) :=
    .after (.report _ rfl _) fun _ => .pure rfl
  have hbind (name : String) (b : Binding) {r : Option (List Resolution)} :
      Erases id (do bindName name b; return r) (do bindName name b.bare; return r) :=
    .after (erases_bindName ..) fun _ => .pure rfl
  have hroot (value : Expr) : Erases id (some <$> assignRoot limits schema value)
      (some <$> assignRoot limits schema value.bare) := (erases_assignRoot value).map some
  cases s with
  | expression value =>
    exact .after (erases_setContext _) fun _ => (erases_shapeOf value).bind fun _ => .pure rfl
  | declare kind name init span =>
    refine .after (erases_setContext _) fun _ => .after (erases_roleOf? _) fun role => ?_
    dsimp only
    cases redeclared? kind name.name role with
    | some e => exact hreport ..
    | none =>
      match role, init with
      | some .root, some value => exact hroot value
      | some .root, none => exact .pure rfl
      | none, some value | some .constant, some value | some (.declared _), some value =>
        exact (erases_shapeOf value).bind fun shape => hbind _ ⟨_, shape⟩
      | none, none | some .constant, none | some (.declared _), none =>
        exact hbind _ ⟨_, .undefined name.span⟩
  | assign target value span =>
    refine .after (erases_setContext _) fun _ => .after (erases_roleOf? _) fun role => ?_
    split
    · exact hroot value
    · refine (erases_shapeOf value).bind fun shape => ?_
      dsimp only
      split
      · exact hreport ..
      · exact hbind ..
      · exact .pure rfl

theorem erases_statements (limits : Limits) (schema : Schema) (ss : List Statement) :
    Erases id (statements limits schema ss) (statements limits schema (ss.map .bare)) := by
  induction ss with
  | nil => exact .pure rfl
  | cons s rest ih => exact .after (erases_statement s) fun _ => .after ih fun _ => .pure rfl

/-- Nothing is bound at a place before the first statement. -/
theorem initial_bare (schema : Schema) : (initial schema).bare = initial schema := by
  have hconstants : Entries.mapValues Binding.bare (schema.constants.map fun c =>
      (c.name, (⟨.constant, .sentinel default ⟨c.name, c.value⟩⟩ : Binding))) =
      schema.constants.map fun c =>
        (c.name, (⟨.constant, .sentinel default ⟨c.name, c.value⟩⟩ : Binding)) := List.map_map
  have hglobals : Entries.mapValues Binding.bare (initialGlobals schema) =
      initialGlobals schema := by
    unfold initialGlobals Entries.ofList
    rw [← Entries.put_mapValues, ← Entries.putAll_mapValues, hconstants]
    rfl
  unfold State.bare
  exact congrArg (fun globals => { initial schema with globals := globals }) hglobals

end Check

namespace Program

variable {limits : Limits} {schema : Schema} {p q : Program}

theorem checkState_bare (p : Program) :
    (p.checkState limits schema).bare =
      Check.after (Check.statements limits schema (p.statements.map .bare))
        (Check.initial schema) := by
  have hrun := (Check.erases_statements limits schema p.statements).run (Check.initial schema)
  rw [Check.initial_bare] at hrun
  exact (congrArg Prod.snd hrun).symm

theorem assignments_bare (p : Program) :
    p.assignments limits schema =
      Check.value (Check.statements limits schema (p.statements.map .bare))
        (Check.initial schema) := by
  have hrun := (Check.erases_statements limits schema p.statements).run (Check.initial schema)
  rw [Check.initial_bare] at hrun
  exact (congrArg Prod.fst hrun).symm

/-- Programs whose statements differ in their spans only are both refused by a check or both
accepted, with the same alternatives. -/
theorem check_of_bare (h : p.statements.map Statement.bare = q.statements.map Statement.bare) :
    (∃ rs, p.check limits schema = .ok ⟨schema, p, rs⟩ ∧
      q.check limits schema = .ok ⟨schema, q, rs⟩) ∨
    ∃ e e', p.check limits schema = .error e ∧ q.check limits schema = .error e' := by
  have hassign : q.assignments limits schema = p.assignments limits schema := by
    rw [assignments_bare, assignments_bare, h]
  have hstate : (q.checkState limits schema).bare = (p.checkState limits schema).bare := by
    rw [checkState_bare, checkState_bare, h]
  refine check_of_errors hassign ?_
  have hmap := congrArg Check.State.errors hstate
  simp only [Check.State.bare] at hmap
  rw [← List.map_eq_nil_iff (f := CheckError.bare), hmap, List.map_eq_nil_iff]

end Program

end TypedConfig
