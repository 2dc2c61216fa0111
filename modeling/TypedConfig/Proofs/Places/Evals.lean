import TypedConfig.Proofs.Entries
import TypedConfig.Proofs.Eval.Run
import TypedConfig.Proofs.Places.Texts
import TypedConfig.Proofs.Simulation.Programs

/-! # Evaluations keep to the places of a program

The only places in data are those in the bodies of functions. Evaluating an expression that
stands in a class of places gives such data again, or fails at a place of the class.
-/

namespace TypedConfig

variable (S : Span → Prop)

namespace Datum

/-- A datum in which all functions have bodies that stand in the class. -/
inductive StandsIn : Datum → Prop
  | string (v : String) : StandsIn (.string v)
  | number (v : Float) : StandsIn (.number v)
  | boolean (v : Bool) : StandsIn (.boolean v)
  | null : StandsIn .null
  | undefined : StandsIn .undefined
  | sentinel (c : Sentinel) : StandsIn (.sentinel c)
  | array {items : List Datum} (elements : ∀ d ∈ items, StandsIn d) : StandsIn (.array items)
  | object {fields : List (String × Datum)} (values : ∀ f ∈ fields, StandsIn f.2) :
    StandsIn (.object fields)
  | function (params : List Ident) {body : Expr} {captured : List Frame}
    (inner : body.StandsIn S) (outer : ∀ frame ∈ captured, ∀ e ∈ frame, StandsIn e.2) :
    StandsIn (.function params body captured)

def AllStandIn (ds : List Datum) : Prop := ∀ d ∈ ds, d.StandsIn S

def EntriesStandIn (es : Entries Datum) : Prop := ∀ e ∈ es, e.2.StandsIn S

def FramesStandIn (frames : List Frame) : Prop := ∀ frame ∈ frames, EntriesStandIn S frame

variable {S} {d : Datum} {ds : List Datum}

theorem standsIn_array {items : List Datum} : (array items).StandsIn S ↔ AllStandIn S items := by
  constructor
  · rintro (_ | _ | _ | _ | _ | _ | elements)
    exact elements
  · exact .array

theorem standsIn_object {fields : List (String × Datum)} :
    (object fields).StandsIn S ↔ EntriesStandIn S fields := by
  constructor
  · rintro (_ | _ | _ | _ | _ | _ | _ | values)
    exact values
  · exact .object

theorem standsIn_function {params : List Ident} {body : Expr} {captured : List Frame} :
    (function params body captured).StandsIn S ↔ body.StandsIn S ∧ FramesStandIn S captured := by
  constructor
  · rintro (_ | _ | _ | _ | _ | _ | _ | _ | ⟨_, inner, outer⟩)
    exact ⟨inner, outer⟩
  · exact fun h => .function params h.1 h.2

theorem allStandIn_nil : AllStandIn S [] := nofun

theorem allStandIn_cons : AllStandIn S (d :: ds) ↔ d.StandsIn S ∧ AllStandIn S ds :=
  List.forall_mem_cons

theorem allStandIn_append {es : List Datum} :
    AllStandIn S (ds ++ es) ↔ AllStandIn S ds ∧ AllStandIn S es := List.forall_mem_append

end Datum

namespace Eval

open Datum (AllStandIn EntriesStandIn FramesStandIn allStandIn_nil allStandIn_cons)

variable {S} {α β : Type}

variable (S) in
structure Scope.StandsIn (s : Scope) : Prop where
  globals : EntriesStandIn S s.globals
  frames : FramesStandIn S s.frames

variable (S) in
/-- In a scope that stands in the class the computation gives a result with a property or fails at
a place of the class, and the scope that it leaves stands there too. -/
structure Places (n : EvalM α) (P : α → Prop) : Prop where
  scope : ∀ s, s.StandsIn S → (n.run s).2.StandsIn S
  ok : ∀ s a, s.StandsIn S → (n.run s).1 = .ok a → P a
  error : ∀ s f, s.StandsIn S → (n.run s).1 = .error f → S f.span

namespace Places

variable {n m : EvalM α} {P : α → Prop} {Q : β → Prop}

theorem pure {a : α} (h : P a) : Places S (Pure.pure a : EvalM α) P :=
  ⟨fun _ hs => hs, fun _ _ _ hr => Except.ok.inj hr ▸ h, nofun⟩

theorem fail (cause : EvalCause) {span : Span} (h : S span) :
    Places S (Eval.fail cause span : EvalM α) P :=
  ⟨fun _ hs => hs, nofun, fun _ _ _ hr => Except.error.inj hr ▸ h⟩

theorem bind {k : α → EvalM β} (h : Places S n P) (hk : ∀ a, P a → Places S (k a) Q) :
    Places S (n >>= k) Q := by
  have hrun (s : Scope) (hs : s.StandsIn S) :
      (∃ f t, (n >>= k).run s = (.error f, t) ∧ S f.span ∧ t.StandsIn S) ∨
        ∃ a t, (n >>= k).run s = (k a).run t ∧ P a ∧ t.StandsIn S := by
    have ht := h.scope s hs
    rcases hn : n.run s with ⟨f | a, t⟩
    · exact .inl ⟨f, t, run_bind_error hn k, h.error s f hs (by rw [hn]), by rwa [hn] at ht⟩
    · exact .inr ⟨a, t, run_bind hn k, h.ok s a hs (by rw [hn]), by rwa [hn] at ht⟩
  refine ⟨fun s hs => ?_, fun s b hs hr => ?_, fun s f hs hr => ?_⟩
  · obtain ⟨f, t, he, -, ht⟩ | ⟨a, t, he, ha, ht⟩ := hrun s hs
    · rwa [he]
    · rw [he]
      exact (hk a ha).scope t ht
  · obtain ⟨f, t, he, -, -⟩ | ⟨a, t, he, ha, ht⟩ := hrun s hs
    · rw [he] at hr
      cases hr
    · exact (hk a ha).ok t b ht (he ▸ hr)
  · obtain ⟨g, t, he, hg, -⟩ | ⟨a, t, he, ha, ht⟩ := hrun s hs
    · rw [he] at hr
      cases hr
      exact hg
    · exact (hk a ha).error t f ht (he ▸ hr)

theorem ite {p : Prop} [Decidable p] (h : Places S n P) (hm : Places S m P) :
    Places S (if p then n else m) P := by
  split
  · exact h
  · exact hm

theorem get : Places S (MonadState.get : EvalM Scope) (Scope.StandsIn S) :=
  ⟨fun _ hs => hs, fun _ _ hs hr => Except.ok.inj hr ▸ hs, nofun⟩

theorem inside {frames : List Frame} (hf : FramesStandIn S frames) (h : Places S n P) :
    Places S (inside frames n) P := by
  have henter (s : Scope) (hs : s.StandsIn S) :
      Scope.StandsIn S { s with frames := frames, depth := s.depth + 1 } := ⟨hs.globals, hf⟩
  refine ⟨fun s hs => ?_, fun s a hs => h.ok _ a (henter s hs),
    fun s f hs => h.error _ f (henter s hs)⟩
  rw [run_inside]
  exact ⟨(h.scope _ (henter s hs)).globals, hs.frames⟩

end Places

variable {span : Span} {receiver position d : Datum} {ds args : List Datum}

theorem places_stringify (d : Datum) (h : S span) : Places S (stringify d span) fun _ => True := by
  unfold stringify
  split
  · exact .pure trivial
  · exact .fail _ h

theorem places_stringifyAll (h : S span) (ds : List Datum) :
    Places S (stringifyAll span ds) fun _ => True := by
  induction ds with
  | nil => exact .pure trivial
  | cons d ds ih =>
    exact .bind (places_stringify d h) fun _ _ => .bind ih fun _ _ => .pure trivial

theorem places_member (hr : receiver.StandsIn S) (property : String) (h : S span) :
    Places S (member receiver property span) (Datum.StandsIn S) := by
  unfold member
  split
  · split
    · rename_i hd
      exact .pure (Datum.standsIn_object.1 hr _ (Entries.mem_of_get? hd))
    · exact .fail _ h
  · refine .ite ?_ (.fail _ h)
    split
    · exact .pure (.number _)
    · exact .pure (.number _)
    · exact .fail _ h

theorem places_index (hr : receiver.StandsIn S) (position : Datum) (h : S span) :
    Places S (index receiver position span) (Datum.StandsIn S) := by
  unfold index
  split
  · split
    · rename_i hitem
      obtain ⟨i, -, hi⟩ := Option.bind_eq_some_iff.1 hitem
      exact .pure (Datum.standsIn_array.1 hr _ (List.mem_of_getElem? hi))
    · exact .fail _ h
  · exact places_member hr _ h
  · split
    · exact .pure (.string _)
    · exact .fail _ h
  · exact .fail _ h

theorem places_unary (op : UnaryOp) (d : Datum) (h : S span) :
    Places S (unary op d span) (Datum.StandsIn S) := by
  unfold unary
  split
  · exact .pure (.boolean _)
  · split
    · exact .pure (.number _)
    · exact .fail _ h

theorem places_operator (op : BinaryOp) (left right : Datum) (h : S span) :
    Places S (operator op left right span) (Datum.StandsIn S) := by
  refine .ite (.pure (.boolean _)) (.ite (.pure (.boolean _)) (.ite ?_ ?_))
  · exact .bind (places_stringify left h) fun _ _ => .bind (places_stringify right h) fun _ _ =>
      .pure (.string _)
  · split
    · exact .pure (.boolean _)
    · exact .pure (.boolean _)
    · exact .pure (.number _)
    · exact .fail _ h

variable (S) in
/-- A caller that keeps to the class, given functions and arguments that stand in it. -/
def PlacesCalls (call : Caller) : Prop :=
  ∀ params body captured args span, body.StandsIn S → FramesStandIn S captured →
    AllStandIn S args → S span →
      Places S (call params body captured args span) (Datum.StandsIn S)

variable {call : Caller}

theorem allStandIn_contribution (kind : Iteration) {element result : Datum}
    (he : element.StandsIn S) (hr : result.StandsIn S) :
    AllStandIn S (contribution kind element result) := by
  have hone {d : Datum} (h : d.StandsIn S) : AllStandIn S [d] := List.forall_mem_singleton.2 h
  unfold contribution
  split
  · exact hone hr
  · split
    · exact hone he
    · exact allStandIn_nil
  · exact Datum.standsIn_array.1 hr
  · exact hone hr

theorem places_iterate {apply : Datum → Datum → EvalM Datum}
    (happly : ∀ a b, a.StandsIn S → b.StandsIn S → Places S (apply a b) (Datum.StandsIn S))
    (kind : Iteration) (i : Nat) (hd : AllStandIn S ds) :
    Places S (iterate apply kind i ds) (AllStandIn S) := by
  induction ds generalizing i with
  | nil => exact .pure allStandIn_nil
  | cons d ds ih =>
    obtain ⟨hd, hds⟩ := allStandIn_cons.1 hd
    refine .bind (happly _ _ hd (.number _)) fun result hresult => ?_
    refine .bind (ih (i + 1) hds) fun more hmore => .pure ?_
    exact Datum.allStandIn_append.2 ⟨allStandIn_contribution kind hd hresult, hmore⟩

theorem allStandIn_flatMap_concatItems (h : AllStandIn S args) :
    AllStandIn S (args.flatMap concatItems) := by
  intro d hd
  obtain ⟨arg, harg, hd⟩ := List.mem_flatMap.1 hd
  have hstands := h arg harg
  cases arg with
  | array items => exact Datum.standsIn_array.1 hstands d hd
  | _ => exact List.mem_singleton.1 hd ▸ hstands

theorem places_separator (name : String) (d : Datum) (h : S span) :
    Places S (separator name d span) fun _ => True := by
  unfold separator
  split
  · exact .pure trivial
  · exact .fail _ h

theorem places_arrayMethod (hc : PlacesCalls S call) (hd : AllStandIn S ds) (name : String)
    (hargs : AllStandIn S args) (h : S span) :
    Places S (arrayMethod call ds name args span) (Datum.StandsIn S) := by
  unfold arrayMethod
  split
  · split
    · obtain ⟨hbody, hcaptured⟩ := Datum.standsIn_function.1 (allStandIn_cons.1 hargs).1
      refine .bind (places_iterate (fun a b ha hb => ?_) _ 0 hd) fun _ hitems =>
        .pure (.array hitems)
      exact hc _ _ _ _ _ hbody hcaptured
        (allStandIn_cons.2 ⟨ha, allStandIn_cons.2 ⟨hb, allStandIn_nil⟩⟩) h
    · exact .fail _ h
  · refine .ite (.pure (.array ?_)) (.ite ?_ (.fail _ h))
    · exact Datum.allStandIn_append.2 ⟨hd, allStandIn_flatMap_concatItems hargs⟩
    · have hjoin (sep : String) : Places S
          (do return .string (sep.intercalate (← stringifyAll span ds)) : EvalM Datum)
          (Datum.StandsIn S) := .bind (places_stringifyAll h ds) fun _ _ => .pure (.string _)
      split
      · exact hjoin ","
      · exact .bind (places_separator name _ h) fun sep _ => hjoin sep

theorem places_textMethod (text name : String) (args : List Datum) (h : S span) :
    Places S (textMethod text name args span) (Datum.StandsIn S) := by
  unfold textMethod
  split
  · exact .pure (.string _)
  · refine .ite ?_ (.fail _ h)
    split
    · exact .pure (.array (List.forall_mem_singleton.2 (.string _)))
    · exact .bind (places_separator name _ h) fun _ _ =>
        .pure (.array (List.forall_mem_map.2 fun _ _ => .string _))

theorem places_method (hc : PlacesCalls S call) (hr : receiver.StandsIn S) (name : String)
    (hargs : AllStandIn S args) (h : S span) :
    Places S (method call receiver name args span) (Datum.StandsIn S) := by
  unfold method
  split
  · exact places_arrayMethod hc (Datum.standsIn_array.1 hr) name hargs h
  · split
    · rename_i hfield
      have hf := Datum.standsIn_object.1 hr _ (Entries.mem_of_get? hfield)
      obtain ⟨hbody, hcaptured⟩ := Datum.standsIn_function.1 hf
      exact hc _ _ _ _ _ hbody hcaptured hargs h
    · exact .fail _ h
    · exact .fail _ h
  · exact places_textMethod _ name args h
  · exact .fail _ h

theorem places_callDatum (hc : PlacesCalls S call) {function : Datum} (hf : function.StandsIn S)
    (hargs : AllStandIn S args) {errorSpan : Span} (he : S errorSpan) (h : S span) :
    Places S (callDatum call function args errorSpan span) (Datum.StandsIn S) := by
  unfold callDatum
  split
  · obtain ⟨hbody, hcaptured⟩ := Datum.standsIn_function.1 hf
    exact hc _ _ _ _ _ hbody hcaptured hargs h
  · exact .fail _ he

theorem standsIn_of_lookup? {s : Scope} (hs : s.StandsIn S) {text : String}
    (h : s.lookup? text = some d) : d.StandsIn S := by
  unfold Scope.lookup? inFrames? at h
  split at h
  · rename_i hframe
    cases h
    obtain ⟨frame, hm, hget⟩ := List.exists_of_findSome?_eq_some hframe
    exact hs.frames frame hm _ (Entries.mem_of_get? hget)
  · exact hs.globals _ (Entries.mem_of_get? h)

theorem places_name (text : String) (h : S span) :
    Places S (name text span) (Datum.StandsIn S) := by
  refine .bind .get fun s hs => ?_
  split
  · rename_i hd
    exact .pure (standsIn_of_lookup? hs hd)
  · exact .fail _ h

mutual

theorem places_eval (hc : PlacesCalls S call) : ∀ {e : Expr}, e.StandsIn S →
    Places S (eval call e) (Datum.StandsIn S)
  | .string .., _ => .pure (.string _)
  | .number .., _ => .pure (.number _)
  | .boolean .., _ => .pure (.boolean _)
  | .null _, _ => .pure .null
  | .undefined _, _ => .pure .undefined
  | .name .., h => places_name _ h
  | .template .., h => .bind (places_evalSegments hc h.2) fun _ _ => .pure (.string _)
  | .array .., h => .bind (places_evalItems hc h.2) fun _ hd => .pure (.array hd)
  | .object .., h => .bind (places_evalMembers hc nofun h.2) fun _ hd => .pure (.object hd)
  | .member .., h => .bind (places_eval hc h.2.1) fun _ hr => places_member hr _ h.1
  | .index .., h =>
    .bind (places_eval hc h.2.1) fun _ hr => .bind (places_eval hc h.2.2) fun p _ =>
      places_index hr p h.1
  | .call s callee args, h => by
    have hargs := places_evalAll hc h.2.2
    by_cases hm : ∃ s object property, callee = .member s object property
    · obtain ⟨_, object, property, rfl⟩ := hm
      rw [eval]
      exact .bind (places_eval hc h.2.1.2.1) fun _ hr => .bind hargs fun _ hargs =>
        places_method hc hr _ hargs h.1
    · rw [eval_call call hm]
      exact .bind (places_eval hc h.2.1) fun _ hf => .bind hargs fun _ hargs =>
        places_callDatum hc hf hargs h.2.1.span h.1
  | .arrow _ params body, h => .bind .get fun _ hs => .pure (.function params h.2.2 hs.frames)
  | .unary .., h => .bind (places_eval hc h.2) fun d _ => places_unary _ d h.1
  | .binary s op left right, h => by
    have hl := places_eval hc h.2.1
    have hr := places_eval hc h.2.2
    cases hop : op.stopsAt? with
    | some stop =>
      rw [eval_shortened call s hop]
      exact .bind hl fun _ hd => .ite (.pure hd) hr
    | none =>
      rw [eval_operator call s hop]
      exact .bind hl fun l _ => .bind hr fun r _ => places_operator _ l r h.1
  | .conditional .., h =>
    .bind (places_eval hc h.2.1) fun _ _ =>
      .ite (places_eval hc h.2.2.1) (places_eval hc h.2.2.2)

theorem places_evalSegments (hc : PlacesCalls S call) : ∀ {segments : List TemplateSegment},
    TemplateSegment.AllStandIn S segments → Places S (evalSegments call segments) fun _ => True
  | [], _ => .pure trivial
  | .text _ :: rest, h =>
    .bind (@places_evalSegments hc rest h) fun _ _ => .pure trivial
  | .hole _ :: _, h =>
    .bind (places_eval hc h.1) fun d _ => .bind (places_stringify d h.1.span) fun _ _ =>
      .bind (places_evalSegments hc h.2) fun _ _ => .pure trivial

theorem places_evalItems (hc : PlacesCalls S call) : ∀ {items : List ArrayItem},
    ArrayItem.AllStandIn S items → Places S (evalItems call items) (AllStandIn S)
  | [], _ => .pure allStandIn_nil
  | .item _ :: _, h =>
    .bind (places_eval hc h.1) fun _ hd => .bind (places_evalItems hc h.2) fun _ hds =>
      .pure (allStandIn_cons.2 ⟨hd, hds⟩)
  | .spread _ :: _, h => by
    rw [evalItems]
    refine .bind (places_eval hc h.1) fun d hd => ?_
    split
    · exact .bind (places_evalItems hc h.2) fun _ hds =>
        .pure (Datum.allStandIn_append.2 ⟨Datum.standsIn_array.1 hd, hds⟩)
    · exact .fail _ h.1.span

theorem places_evalMembers (hc : PlacesCalls S call) : ∀ {fields : Entries Datum}
    {ms : List ObjectMember}, EntriesStandIn S fields → ObjectMember.AllStandIn S ms →
      Places S (evalMembers call fields ms) (EntriesStandIn S)
  | _, [], hf, _ => .pure hf
  | _, .field _ _ _ :: _, hf, h =>
    .bind (places_eval hc h.1.2) fun _ hd =>
      places_evalMembers hc (Entries.forall_put (P := Datum.StandsIn S) hf hd) h.2
  | _, .spread _ :: _, hf, h => by
    have hrest := places_evalMembers hc hf h.2
    rw [evalMembers]
    refine .bind (places_eval hc h.1) fun d hd => ?_
    split
    · exact places_evalMembers hc
        (Entries.forall_putAll (P := Datum.StandsIn S) hf (Datum.standsIn_object.1 hd)) h.2
    · exact hrest
    · exact hrest
    · exact .fail _ h.1.span

theorem places_evalAll (hc : PlacesCalls S call) : ∀ {es : List Expr},
    Expr.AllStandIn S es → Places S (evalAll call es) (AllStandIn S)
  | [], _ => .pure allStandIn_nil
  | _ :: _, h =>
    .bind (places_eval hc h.1) fun _ hd => .bind (places_evalAll hc h.2) fun _ hds =>
      .pure (allStandIn_cons.2 ⟨hd, hds⟩)

end

theorem entriesStandIn_frameOf (params : List Ident) (h : AllStandIn S args) :
    EntriesStandIn S (frameOf params args) := by
  induction params generalizing args with
  | nil => exact nofun
  | cons p ps ih =>
    cases args with
    | nil => exact Entries.forall_put (P := Datum.StandsIn S) (ih h) .undefined
    | cons a as =>
      obtain ⟨ha, has⟩ := allStandIn_cons.1 h
      exact Entries.forall_put (P := Datum.StandsIn S) (ih has) ha

theorem placesCalls_call (maxDepth levels : Nat) : PlacesCalls S (Eval.call maxDepth levels) := by
  induction levels with
  | zero => exact fun _ _ _ _ _ _ _ _ h => .fail _ h
  | succ n ih =>
    intro params body captured args span hbody hcaptured hargs h
    have hframes : FramesStandIn S (frameOf params args :: captured) :=
      List.forall_mem_cons.2 ⟨entriesStandIn_frameOf params hargs, hcaptured⟩
    exact .bind .get fun _ _ => .ite (.fail _ h) (.inside hframes (places_eval ih hbody))

variable {limits : Limits}

theorem places_datumOf {e : Expr} (h : e.StandsIn S) :
    Places S (datumOf limits e) (Datum.StandsIn S) :=
  places_eval (placesCalls_call limits.maxDepth limits.maxDepth) h

theorem places_bindName (name : String) (hd : d.StandsIn S) :
    Places S (bindName name d) fun _ => True :=
  ⟨fun _ hs => ⟨Entries.forall_put (P := Datum.StandsIn S) hs.globals hd, hs.frames⟩,
    fun _ _ _ _ => trivial, nofun⟩

theorem places_statement (root : String) {s : Statement} (h : s.StandsIn S) :
    Places S (statement limits root s) fun _ => True := by
  match s, h with
  | .declare _ name none _, _ => exact .ite (.pure trivial) (places_bindName _ .undefined)
  | .declare _ name (some value) _, h =>
    exact .bind (places_datumOf (h.2.1 _ rfl)) fun _ hd => .ite (.fail _ h.1) (places_bindName _ hd)
  | .assign target value _, h =>
    exact .bind (places_datumOf h.2.1) fun _ hd => .bind .get fun _ _ =>
      .ite (places_bindName _ hd) (.fail _ h.1)
  | .expression value, h => exact .bind (places_datumOf h) fun _ _ => .pure trivial

theorem places_statements (root : String) {ss : List Statement} (h : ∀ s ∈ ss, s.StandsIn S) :
    Places S (statements limits root ss) fun _ => True := by
  induction ss with
  | nil => exact .pure trivial
  | cons s rest ih =>
    obtain ⟨hs, hrest⟩ := List.forall_mem_cons.1 h
    exact .bind (places_statement root hs) fun _ _ => ih hrest

theorem initial_standsIn (schema : Schema) : (initial schema).StandsIn S := by
  refine ⟨Entries.forall_put (P := Datum.StandsIn S) ?_ .undefined, nofun⟩
  refine Entries.forall_putAll (P := Datum.StandsIn S) nofun ?_
  exact List.forall_mem_map.2 fun c _ => .sentinel _

end Eval

/-- The failure of an evaluation of a program that stands in its source is at a place of the
source. -/
theorem CheckedProgram.shows_of_evaluate {checked : CheckedProgram} {limits : Limits}
    (hp : ∀ s ∈ checked.program.statements,
      s.StandsIn (Span.Within checked.program.source.text.toList))
    {cause : EvalCause} {name : String} {location : Location} {span : Span}
    (h : checked.evaluate limits = .error (.fault cause name location span)) :
    checked.program.source.Shows location span := by
  obtain ⟨schema, program, resolutions⟩ := checked
  have hrun : Eval.Places _ (Eval.statements limits schema.root.name program.statements) _ :=
    Eval.places_statements schema.root.name hp
  rw [Program.evaluate_of_run rfl] at h
  split at h
  · rename_i f hf
    have hwithin := hrun.error _ f (Eval.initial_standsIn schema) hf
    cases h
    rw [Source.clamp_of_within hwithin]
    exact hwithin.shows
  · -- what is left is the writing of the document, which has no place to name
    generalize Datum.toValue _ _ = written at h
    cases written <;> cases h

end TypedConfig
