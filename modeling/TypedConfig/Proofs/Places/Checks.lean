import TypedConfig.Check
import TypedConfig.Proofs.Places.Operations
import TypedConfig.Proofs.Places.Texts
import TypedConfig.Proofs.Check.Parts
import TypedConfig.Proofs.Simulation.Programs

/-! # Checks keep to the places of a program

Finding shapes, calling functions, matching shapes against types and checking statements keep to
any closed class of places that the program stands in. So the errors of a check are at places of
the program's text.
-/

namespace TypedConfig

variable {S : Span → Prop}

namespace Check

open Shape (AllStandIn allStandIn_nil allStandIn_cons)

variable {call : Caller}

mutual

theorem places_infer (hc : PlacesCalls S call) : ∀ {e : Expr}, e.StandsIn S →
    Places S (infer call e) (Shape.StandsIn S)
  | .string .., h => .pure (.string _ h)
  | .number .., h => .pure (.number _ h)
  | .boolean .., h => .pure (.boolean _ h)
  | .null _, h => .pure (.null h)
  | .undefined _, h => .pure (.undefined h)
  | .name .., h => places_name _ h
  | .template .., h => .bind (places_inferSegments hc _ h.2) fun _ _ => .pure (.string _ h.1)
  | .array .., h => .bind (places_inferItems hc h.2) fun _ hr => .arrayOf hr _ h.1
  | .object .., h =>
    .bind (places_inferMembers hc (List.forall_mem_singleton.2 nofun) h.2) fun _ hp =>
      places_shape hp h.1
  | .member .., h => .bind (places_infer hc h.2.1) fun _ hr => places_member _ h.1 hr
  | .index .., h =>
    .bind (places_infer hc h.2.1) fun _ hr => .bind (places_infer hc h.2.2) fun _ hp =>
      places_index hr hp h.1
  | .call s callee args, h => by
    have hargs := places_inferAll hc h.2.2
    by_cases hm : ∃ s object property, callee = .member s object property
    · obtain ⟨_, object, property, rfl⟩ := hm
      rw [infer]
      exact .bind (places_infer hc h.2.1.2.1) fun _ hr => .bind hargs fun _ hargs =>
        places_method hc _ hargs h.1 hr
    · rw [infer_call call hm]
      exact .bind (places_infer hc h.2.1) fun _ hf => .bind hargs fun _ hargs =>
        places_callValue hc hf hargs h.2.1.span h.1
  | .arrow s params body, h =>
    .read State.frames (fun _ _ ha => by rw [ha.rest]) (fun _ hs => hs.frames) fun _ hf =>
      .pure (.function params h.1 h.2.2 hf)
  | .unary .., h => .bind (places_infer hc h.2) fun _ hs => places_unary _ hs h.1
  | .binary s op left right, h => by
    have hl := places_infer hc h.2.1
    have hr := places_infer hc h.2.2
    cases hop : op.stopsAt? with
    | some stop =>
      rw [infer_shortened call s hop]
      exact .bind hl fun l hl => .choose _ (.pure hl) hr h.1
    | none =>
      rw [infer_operator call s hop]
      exact .bind hl fun _ _ => .bind hr fun _ _ => places_operator _ _ h.1 _
  | .conditional s test consequent alternate, h => by
    rw [infer_conditional]
    exact .bind (places_infer hc h.2.1) fun _ _ =>
      .choose _ (places_infer hc h.2.2.1) (places_infer hc h.2.2.2) h.1

theorem places_inferSegments (hc : PlacesCalls S call) :
    ∀ (text : Option String) {segments : List TemplateSegment},
      TemplateSegment.AllStandIn S segments →
        Places S (inferSegments call text segments) fun _ => True
  | _, [], _ => .pure trivial
  | _, .text _ :: rest, h => @places_inferSegments hc _ rest h
  | _, .hole _ :: _, h =>
    .bind (places_infer hc h.1) fun _ hs => .bind (places_extend _ hs) fun _ _ =>
      places_inferSegments hc _ h.2

theorem places_inferItems (hc : PlacesCalls S call) : ∀ {items : List ArrayItem},
    ArrayItem.AllStandIn S items → Places S (inferItems call items) fun r => AllStandIn S r.1
  | [], _ => .pure allStandIn_nil
  | .item _ :: _, h =>
    .bind (places_infer hc h.1) fun _ hs => .bind (places_inferItems hc h.2) fun _ hr =>
      .pure (allStandIn_cons.2 ⟨hs, hr⟩)
  | .spread _ :: _, h => by
    have hrest := places_inferItems hc h.2
    rw [inferItems]
    refine .bind (places_infer hc h.1) fun shape hs => ?_
    split
    · rename_i items known hspread
      exact .bind hrest fun _ hr => .pure (Shape.allStandIn_append.2 ⟨hs.spread hspread, hr⟩)
    · exact .bind (.report _ _ hs.span) fun _ _ => .bind hrest fun _ hr => .pure hr

theorem places_inferMembers (hc : PlacesCalls S call) : ∀ {p : Partials} {ms : List ObjectMember},
    p.StandsIn S → ObjectMember.AllStandIn S ms →
      Places S (inferMembers call p ms) (Partials.StandsIn S)
  | _, [], hp, _ => .pure hp
  | _, .field key _ _ :: _, hp, h =>
    .bind (places_infer hc h.1.2) fun _ hs =>
      places_inferMembers hc (standsIn_put hp key h.1.1 hs) h.2
  | _, .spread _ :: _, hp, h =>
    .bind (places_infer hc h.1) fun _ hs => .bind (places_spread hp hs) fun _ hp =>
      places_inferMembers hc hp h.2

theorem places_inferAll (hc : PlacesCalls S call) : ∀ {es : List Expr},
    Expr.AllStandIn S es → Places S (inferAll call es) (AllStandIn S)
  | [], _ => .pure allStandIn_nil
  | _ :: _, h =>
    .bind (places_infer hc h.1) fun _ hs => .bind (places_inferAll hc h.2) fun _ hr =>
      .pure (allStandIn_cons.2 ⟨hs, hr⟩)

end

theorem places_guarded (maxDepth : Nat) {span : Span} (h : S span) {work : CheckM Shape}
    (hw : Places S work (Shape.StandsIn S)) :
    Places S (guarded maxDepth span work) (Shape.StandsIn S) := by
  let report (calls : Nat) : CheckM Bool := do
    if calls = maxCalls + 1 then
      report ("at most " ++ toString maxCalls ++ " function calls") "a program that calls more" span
    return decide (calls ≤ maxCalls)
  have hcount : Places S (countCall span) fun _ => True := by
    refine .bind (.modify (fun _ _ => rfl) fun _ hs => ⟨hs.frames, hs.errors⟩) fun _ _ => ?_
    refine .read (k := report) State.calls (P := fun _ => True) (fun _ _ ha => by rw [ha.rest])
      (fun _ _ => trivial) fun calls _ => ?_
    exact .ite (.bind (.report _ _ h) fun _ _ => .pure trivial) (.pure trivial)
  refine .bind hcount fun _ _ => .ite ?_ (.pure (.unknown h))
  refine .read (k := fun depth => if maxDepth ≤ depth then refuseDepth maxDepth span else work)
    State.depth (P := fun _ => True) (fun _ _ ha => by rw [ha.rest]) (fun _ _ => trivial)
    fun depth _ => ?_
  exact .ite (.refuse _ _ h h) hw

theorem placesCalls_call (maxDepth levels : Nat) : PlacesCalls S (Check.call maxDepth levels) := by
  induction levels with
  | zero => exact fun _ _ _ _ _ _ _ _ h => places_guarded _ h (.refuse _ _ h h)
  | succ n ih =>
    intro params body captured args span hbody hcaptured hargs h
    have hframes : Shape.FramesStandIn S (frameOf span params args :: captured) :=
      List.forall_mem_cons.2 ⟨frameStandsIn_frameOf h params hargs, hcaptured⟩
    exact places_guarded _ h (.inside hframes (places_infer ih hbody))

end Check

variable (S) in
def Outcome.StandsIn (o : Outcome) : Prop := ∀ e ∈ o.errors, S e.span

namespace Outcome.StandsIn

variable {o o' : Outcome}

theorem empty : Outcome.empty.StandsIn S := nofun

theorem ofError {e : CheckError} (h : S e.span) : (Outcome.ofError e).StandsIn S :=
  List.forall_mem_singleton.2 h

theorem append (h : o.StandsIn S) (h' : o'.StandsIn S) : (o ++ o').StandsIn S :=
  List.forall_mem_append.2 ⟨h, h'⟩

theorem choice (r : Resolution) (h : o.StandsIn S) : (Outcome.ofResolution r ++ o).StandsIn S :=
  append (o := .ofResolution r) nofun h

end Outcome.StandsIn

namespace Match

open Shape (AllStandIn FieldsStandIn allStandIn_cons)

variable (S) in
/-- If a matching ends, the errors in its outcome are at places of the class. -/
def Places (o : Option Outcome) : Prop := ∀ r ∈ o, r.StandsIn S

namespace Places

variable {α : Type} {o o' : Option Outcome}

theorem some {r : Outcome} (h : r.StandsIn S) : Places S (Option.some r) :=
  fun _ hr => Option.some.inj hr ▸ h

theorem choice (r : Resolution) (h : Places S o) :
    Places S (do return Outcome.ofResolution r ++ (← o)) := by
  intro _ hr
  obtain ⟨x, hx, hr⟩ := Option.bind_eq_some_iff.1 hr
  cases hr
  exact .choice r (h x hx)

theorem both (h : Places S o) (h' : Places S o') :
    Places S (do let a ← o; let b ← o'; return a ++ b) := by
  intro _ hr
  obtain ⟨a, ha, hr⟩ := Option.bind_eq_some_iff.1 hr
  obtain ⟨b, hb, hr⟩ := Option.bind_eq_some_iff.1 hr
  cases hr
  exact (h a ha).append (h' b hb)

theorem joinAll {f : α → Option Outcome} {as : List α} (h : ∀ a ∈ as, Places S (f a)) :
    Places S (joinAll f as) := by
  induction as with
  | nil => exact .some .empty
  | cons a as ih =>
    obtain ⟨ha, has⟩ := List.forall_mem_cons.1 h
    exact .both ha (ih has)

theorem joinItems {f : Nat → Shape → Option Outcome} {shapes : List Shape}
    (h : ∀ i, ∀ shape ∈ shapes, Places S (f i shape)) (i : Nat) :
    Places S (joinItems f i shapes) := by
  induction shapes generalizing i with
  | nil => exact .some .empty
  | cons shape shapes ih =>
    refine .both (h i shape (.head _)) (ih (fun i shape hm => ?_) (i + 1))
    exact h i shape (.tail _ hm)

end Places

variable {shape : Shape}

theorem standsIn_mismatch (label : String) (h : shape.StandsIn S) (path : String) :
    (mismatch label shape path).StandsIn S := .ofError h.span

theorem standsIn_matchScalar (label : String) (kind : ScalarKind) (h : shape.StandsIn S)
    (path : String) : (matchScalar label kind shape path).StandsIn S := by
  unfold matchScalar
  split
  · exact .empty
  · exact standsIn_mismatch label h path

theorem standsIn_matchLiteral (label : String) (values : List Scalar) (h : shape.StandsIn S)
    (path : String) : (matchLiteral label values shape path).StandsIn S := by
  have hmismatch := standsIn_mismatch label h path
  unfold matchLiteral
  split
  · split
    · exact .empty
    · exact hmismatch
  · split
    · exact .ofError h.span
    · exact hmismatch

variable (S) in
/-- A matcher that keeps to the class, given shapes that stand in it. -/
def PlacesMatches (inner : Matcher) : Prop :=
  ∀ label t shape path siblings, shape.StandsIn S → Places S (inner label t shape path siblings)

variable (S) in
/-- A matcher of fields that keeps to the class, given shapes that stand in it. -/
def PlacesFields (field : Ty → Shape → String → Option Outcome) : Prop :=
  ∀ t shape path, shape.StandsIn S → Places S (field t shape path)

variable {inner : Matcher} {field : Ty → Shape → String → Option Outcome}

theorem places_matchRecord (hf : PlacesFields S field) (label : String) (declared : TyFields)
    (h : shape.StandsIn S) (path : String) (siblings : Siblings) :
    Places S (matchRecord field label declared shape path siblings) := by
  have hmismatch := Places.some (standsIn_mismatch label h path)
  cases shape with
  | record span fields =>
    obtain ⟨hspan, hfields⟩ := Shape.standsIn_record.1 h
    have hmissing (fs : TyFields) :
        Outcome.StandsIn S ⟨fs.map (missingField span path), []⟩ :=
      List.forall_mem_map.2 fun _ _ => hspan
    rw [matchRecord_record]
    refine .both (.some (hmissing _)) (.joinAll fun f hm => ?_)
    unfold matchField
    split
    · exact hf _ _ _ (hfields f hm).2
    · exact .some (.ofError (hfields f hm).1)
  | _ => exact hmismatch

theorem places_firstAccepting {f : String × Ty → Option Outcome} (hf : ∀ a, Places S (f a))
    (alternatives : List (String × Ty)) :
    ∀ r ∈ firstAccepting f alternatives, ∀ a ∈ r, a.2.StandsIn S := by
  induction alternatives with
  | nil => simp [firstAccepting]
  | cons a as ih =>
    intro r hr b hb
    obtain ⟨o, ho, hr⟩ := Option.bind_eq_some_iff.1 hr
    split at hr
    · cases hr
      cases hb
      exact hf a o ho
    · exact ih r hr b hb

theorem places_matchUnion (hi : PlacesMatches S inner) (hf : PlacesFields S field)
    (label : String) (alternatives : List (String × Ty)) (h : shape.StandsIn S) (path : String) :
    Places S (matchUnion inner field label alternatives shape path) := by
  have hmismatch := Places.some (standsIn_mismatch label h path)
  have hfirst : Places S (matchFirst inner label alternatives shape path) := by
    intro o ho
    obtain ⟨r, hr, ho⟩ := Option.bind_eq_some_iff.1 ho
    have hr := places_firstAccepting (fun a => hi a.1 a.2 shape path [] h) alternatives r hr
    split at ho
    · cases ho
      exact .choice _ (hr _ rfl)
    · cases ho
      exact standsIn_mismatch label h path
  cases shape with
  | record span fields =>
    unfold matchUnion
    dsimp only
    split
    · exact .choice _ (hi _ _ _ _ _ h)
    · split
      · exact places_matchRecord hf _ _ h _ _
      · exact hmismatch
  | tuple span items | array span element =>
    unfold matchUnion
    dsimp only
    split
    · exact .choice _ (hi _ _ _ _ _ h)
    · exact hmismatch
  | null s | undefined s => exact hmismatch
  | function s ps b fs => exact hmismatch
  | _ => exact hfirst

theorem places_matchPlain (schema : Schema) (hi : PlacesMatches S inner)
    (hf : PlacesFields S field) (label : String) (t : Ty) (h : shape.StandsIn S) (path : String)
    (siblings : Siblings) :
    Places S (matchPlain schema inner field label t shape path siblings) := by
  have hmismatch := Places.some (standsIn_mismatch label h path)
  cases t with
  | named name => exact hi _ _ _ _ _ h
  | scalar kind => exact .some (standsIn_matchScalar label kind h path)
  | literal values => exact .some (standsIn_matchLiteral label values h path)
  | record name declared => exact places_matchRecord hf label declared h path siblings
  | union ts => exact places_matchUnion hi hf label _ h path
  | map key value =>
    cases shape with
    | record span fields =>
      exact .joinAll fun f hm => hf _ _ _ ((Shape.standsIn_record.1 h).2 f hm).2
    | _ => exact hmismatch
  | sequence element acceptsSingle =>
    have hsingle : Places S (if acceptsSingle then field element shape path
        else some (mismatch label shape path)) := by
      split
      · exact hf _ _ _ h
      · exact hmismatch
    cases shape with
    | tuple span items =>
      exact .joinItems (fun i item hm => hf _ _ _ ((Shape.standsIn_tuple.1 h).2 item hm)) 0
    | array span item => exact hf _ _ _ (Shape.standsIn_array.1 h).2
    | _ => exact hsingle

theorem placesMatches_matchWithin (schema : Schema) (levels : Nat) :
    PlacesMatches S (matchWithin schema levels) := by
  induction levels with
  | zero => exact fun _ _ _ _ _ _ => nofun
  | succ n ih =>
    intro label t shape path siblings h
    have hfield : PlacesFields S fun t shape path =>
        matchWithin schema n t.text (schema.resolve t) shape path [] :=
      fun _ _ _ h => ih _ _ _ _ _ h
    have hplain := places_matchPlain schema ih hfield label t h path siblings
    cases shape with
    | unknown s => exact .some .empty
    | oneOf s branches =>
      exact .joinAll fun b hm => ih _ _ _ _ _ ((Shape.standsIn_oneOf.1 h).2 b hm)
    | _ => exact hplain

theorem standsIn_conform (schema : Schema) (t : Ty) (h : shape.StandsIn S) (path : String) :
    (conform schema t shape path).StandsIn S := by
  unfold conform conformWithin
  cases hm : matchWithin schema (levelsFor schema t shape) t.text (schema.resolve t) shape path []
    with
  | none => exact standsIn_mismatch _ h path
  | some o => exact placesMatches_matchWithin schema _ _ _ _ _ _ h o hm

end Match

namespace Check

variable {limits : Limits} {schema : Schema}

theorem places_shapeOf {e : Expr} (h : e.StandsIn S) :
    Places S (shapeOf limits e) (Shape.StandsIn S) :=
  places_infer (placesCalls_call limits.maxDepth limits.maxDepth) h

theorem places_setContext (context : String) :
    Places S (setContext context) fun _ => True :=
  .modify (fun _ _ => rfl) fun _ hs => ⟨hs.frames, hs.errors⟩

theorem places_bindName (name : String) {b : Binding} (h : b.shape.StandsIn S) :
    Places S (bindName name b) fun _ => True := by
  refine ⟨fun s s' ha hs => ⟨rfl, trivial, ⟨fun other => ?_, ?_⟩, fun other c hc => ?_,
    hs.frames, hs.errors⟩⟩
  · simp only [bindName, after_modify, Entries.get?_put, ha.names]
  · simp only [bindName, after_modify]
    rw [ha.rest]
  · simp only [bindName, after_modify, Entries.get?_put] at hc
    split at hc
    · exact Option.some.inj hc ▸ h
    · exact hs.globals other c hc

theorem places_roleOf? (name : String) : Places S (roleOf? name) fun _ => True :=
  .read (fun s => (Entries.get? s.globals name).map Binding.role) (P := fun _ => True)
    (fun _ _ ha => by rw [ha.names]) (fun _ _ => trivial) fun _ _ => .pure trivial

theorem places_assignRoot {value : Expr} (h : value.StandsIn S) :
    Places S (assignRoot limits schema value) fun _ => True := by
  refine .bind (places_setContext _) fun _ _ => .bind (places_shapeOf h) fun shape hs => ?_
  have houtcome := Match.standsIn_conform schema schema.root.type hs schema.root.name
  refine .bind (.modify (fun _ _ => rfl) fun s hS => ⟨hS.frames, ?_⟩) fun _ _ =>
    .bind (places_bindName _ hs) fun _ _ => .pure trivial
  refine List.forall_mem_append.2 ⟨fun e he => ?_, hS.errors⟩
  exact houtcome e (List.mem_reverse.1 he)

theorem places_statement {s : Statement} (h : s.StandsIn S) :
    Places S (statement limits schema s) fun _ => True := by
  have hreport (expected found : String) {span : Span} (hs : S span)
      {r : Option (List Resolution)} :
      Places S (do report expected found span; return r) fun _ => True :=
    .bind (.report _ _ hs) fun _ _ => .pure trivial
  have hbind (name : String) {b : Binding} (hb : b.shape.StandsIn S)
      {r : Option (List Resolution)} : Places S (do bindName name b; return r) fun _ => True :=
    .bind (places_bindName name hb) fun _ _ => .pure trivial
  cases s with
  | expression value =>
    exact .bind (places_setContext _) fun _ _ => .bind (places_shapeOf h) fun _ _ =>
      .pure trivial
  | declare kind name init span =>
    refine .bind (places_setContext _) fun _ _ => .bind (places_roleOf? _) fun role _ => ?_
    split
    · exact hreport _ _ h.1
    · split
      · exact .map some (places_assignRoot (h.2.1 _ rfl))
      · exact .pure trivial
      · exact .bind (places_shapeOf (h.2.1 _ rfl)) fun shape hs => hbind _ hs
      · exact hbind _ (.undefined h.1)
  | assign target value span =>
    refine .bind (places_setContext _) fun _ _ => .bind (places_roleOf? _) fun role _ => ?_
    split
    · exact .map some (places_assignRoot h.2.1)
    · refine .bind (places_shapeOf h.2.1) fun shape hs => ?_
      split
      · exact hreport _ _ h.1
      · exact hbind _ hs
      · exact .pure trivial

theorem places_statements {ss : List Statement} (h : ∀ s ∈ ss, s.StandsIn S) :
    Places S (statements limits schema ss) fun _ => True := by
  induction ss with
  | nil => exact .pure trivial
  | cons s rest ih =>
    obtain ⟨hs, hrest⟩ := List.forall_mem_cons.1 h
    exact .bind (places_statement hs) fun _ _ => .bind (ih hrest) fun _ _ => .pure trivial

/-- Before the first statement everything is bound at no place. -/
theorem initial_standsIn (hS : S default) (schema : Schema) : (initial schema).StandsIn S := by
  refine ⟨fun name b hb => ?_, nofun, nofun⟩
  have hall : ∀ e ∈ initialGlobals schema, e.2.shape.StandsIn S := by
    refine Entries.forall_put (P := fun b : Binding => b.shape.StandsIn S) ?_ (.undefined hS)
    refine Entries.forall_putAll (P := fun b : Binding => b.shape.StandsIn S) nofun ?_
    exact List.forall_mem_map.2 fun c _ => .sentinel _ hS
  exact hall _ (Entries.mem_of_get? hb)

end Check

namespace CheckError

theorem mem_of_mem_dropRepeats {es : List CheckError} {e : CheckError}
    (h : e ∈ dropRepeats es) : e ∈ es := by
  induction es using dropRepeats.induct with
  | case1 => exact h
  | case2 e => exact h
  | case3 e es ih =>
    rw [dropRepeats, if_pos rfl] at h
    exact .tail _ (ih h)
  | case4 e f es hne ih =>
    rw [dropRepeats, if_neg hne] at h
    rcases List.mem_cons.1 h with rfl | h
    · exact .head _
    · exact .tail _ (ih h)

theorem mem_of_mem_arrange {es : List CheckError} {e : CheckError} (h : e ∈ arrange es) :
    e ∈ es := List.mem_mergeSort.1 (mem_of_mem_dropRepeats h)

end CheckError

namespace Program

variable {limits : Limits} {schema : Schema} {program : Program}

def checkErrors (limits : Limits) (schema : Schema) (program : Program) : List CheckError :=
  CheckError.arrange ((program.checkState limits schema).errors.reverse ++
    if (program.assignments limits schema).isEmpty then
      [Check.unassigned schema.root program.source] else [])

theorem check_eq : program.check limits schema =
    if (program.checkErrors limits schema).isEmpty then
      .ok ⟨schema, program, (program.assignments limits schema).flatten⟩
    else .error ⟨program.source, program.checkErrors limits schema⟩ := rfl

theorem check_eq_error {failure : CheckFailure} (h : program.check limits schema = .error failure) :
    failure = ⟨program.source, program.checkErrors limits schema⟩ := by
  rw [check_eq] at h
  split at h
  · cases h
  · exact (Except.error.inj h).symm

theorem within_unassigned (root : RootBinding) (source : Source) :
    (Check.unassigned root source).span.Within source.text.toList := by
  have hend := Text.Boundary.size source.text.toList
  rw [Text.byteSize_toList] at hend
  exact ⟨hend, hend, Nat.le_refl _⟩

/-- The errors of a check of a program that stands in its source are at places of the source. -/
theorem shows_of_check
    (hp : ∀ s ∈ program.statements, s.StandsIn (Span.Within program.source.text.toList))
    {failure : CheckFailure} (h : program.check limits schema = .error failure) :
    ∀ e ∈ failure.errors, program.source.Shows (e.location program.source) e.span := by
  have hplaces : Check.Places _ (Check.statements limits schema program.statements) _ :=
    Check.places_statements hp
  obtain ⟨-, -, -, hstate⟩ := hplaces.run (Check.initial schema) _ (.refl _)
    (Check.initial_standsIn (Span.Closed.within _).zero schema)
  rw [check_eq_error h]
  intro e he
  apply Span.Within.shows
  rcases List.mem_append.1 (CheckError.mem_of_mem_arrange he) with he | he
  · exact hstate.errors e (List.mem_reverse.1 he)
  · split at he
    · exact List.mem_singleton.1 he ▸ within_unassigned schema.root program.source
    · cases he

end Program

end TypedConfig
