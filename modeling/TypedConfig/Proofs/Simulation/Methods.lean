import TypedConfig.Proofs.Simulation.Operations

/-! # Methods on shapes and on data

A callback is called on each element. Of an array of known elements the check makes the same
calls as the evaluation; of an array of unknown length it makes one, which stands for all.
-/

namespace TypedConfig

open Shape (Describes DescribesItems)
open Check (Event Events CheckM CallerEvents Steady SteadyCaller)
open Eval (EvalM)

variable {lax : Prop} {shape receiver : Shape} {d : Datum} {span : Span}

/-- Callers that agree: the calls of the one simulate those of the other. -/
def CallsAgree (lax : Prop) (call : Check.Caller) (calls : CallerEvents)
    (call' : Eval.Caller) : Prop :=
  ∀ params body captured frames args ds span, Shape.DescribesFrames lax captured frames →
    List.Forall₂ (Describes lax) args ds →
    Simulates lax (calls params body captured args span) (call params body captured args span)
      (call' params body frames ds span) (Describes lax)

/-- A shape that is no array, and on a lax reading has none among its alternatives, describes
none. -/
theorem not_array_of_describes (h : Describes lax shape d)
    (he : (∀ s bs, shape ≠ .oneOf s bs) → shape.elements? = none)
    (hm : lax → shape.mayBeArray = false) (ds : List Datum) : d ≠ .array ds := by
  by_cases hl : lax
  · rintro rfl
    exact Bool.false_ne_true ((hm hl).symm.trans (Shape.mayBeArray_of_describes shape h))
  · have ho (s : Span) (bs : List Shape) : shape ≠ .oneOf s bs := by
      rintro rfl
      exact hl (Shape.describes_oneOf.1 h).1
    exact Shape.not_array_of_elements?_none h (he ho) ho ds

theorem contribution_describes {kind : Iteration} {element result : Shape} {x d : Datum}
    (hx : Describes lax element x) (hd : Describes lax result d)
    (ha : kind = .flatMap → (Event.flattening result).Admitted lax) :
    DescribesItems lax (Check.contribution kind element result)
      (Eval.contribution kind x d) := by
  cases kind with
  | map => exact .singleton hd
  | filter =>
    rcases Shape.truthiness_of_describes result hd with ht | ⟨hl, ht⟩
    · rcases hb : d.truthy with _ | _
      · simp only [Check.contribution, Eval.contribution, ht, hb]
        exact .nil
      · simp only [Check.contribution, Eval.contribution, ht, hb]
        exact .singleton hx
    · simp only [Check.contribution, Eval.contribution, ht]
      refine Shape.describesItems_open.2 ⟨hl, fun y hy => ⟨element, List.mem_singleton_self _, ?_⟩⟩
      split at hy
      · exact List.mem_singleton.1 hy ▸ hx
      · cases hy
  | flatMap =>
    rw [Check.contribution, Shape.isUnknown_of_describes hd]
    rcases he : result.elements? with _ | r
    · have hn := not_array_of_describes hd (fun _ => he) fun hl => by
        simpa [Event.isSound, he] using (ha rfl).sound hl
      have hc : Eval.contribution .flatMap x d = [d] := by
        cases d <;> simp_all [Eval.contribution]
      rw [hc]
      exact .singleton hd
    · obtain ⟨ds, rfl, hds⟩ := Shape.elements?_of_describes hd he
      exact hds

section

variable {call : Check.Caller} {calls : CallerEvents} {call' : Eval.Caller}
  {params : List Ident} {body : Expr} {captured : List ShapeFrame} {frames : List Frame}
  {kind : Iteration} (hs : SteadyCaller call) (hc : CallsAgree lax call calls call')
  (hf : Shape.DescribesFrames lax captured frames)

include hs hc hf

/-- The calls on elements that are known one by one. -/
theorem simulates_iterateKnown {elements : List Shape} {ds : List Datum}
    (h : List.Forall₂ (Describes lax) elements ds) (i : Nat) :
    Simulates lax
      (Check.iterateEvents call calls params body captured kind true span i elements)
      (Check.iterate (fun e p => call params body captured [e, p] span) kind true span i elements)
      (Eval.iterate (fun e p => call' params body frames [e, p] span) kind i ds)
      (DescribesItems lax) := by
  induction h generalizing i with
  | nil => exact .pure .nil
  | @cons element x elements ds hx _ ih =>
    have hp : Describes lax (.number span (some (lengthNumber i))) (.number (lengthNumber i)) :=
      ⟨_, rfl, .inl rfl⟩
    have hsi := Check.steady_iterate (fun e p => hs params body captured [e, p] span) kind true
      span (i + 1) elements
    refine Simulates.bind (hc params body captured frames _ _ span hf (.cons hx (.cons hp .nil)))
      (hs ..) (fun _ => hsi.bind fun _ => .pure _) fun result d hd => ?_
    refine .whenever fun ha => (ih (i + 1)).bind_none hsi (fun _ => .pure _) fun more es hes => ?_
    exact .pure ((contribution_describes hx hd ha).append hes)

omit hs in
/-- One call of the check stands for the calls on all elements of an array. -/
theorem simulates_iterateAll {element position : Shape} {ds : List Datum}
    (h : ∀ x ∈ ds, Describes lax element x) (hp : ∀ x, Describes lax position (.number x))
    (i : Nat) :
    Simulates lax (calls params body captured [element, position] span)
      (call params body captured [element, position] span)
      (Eval.iterate (fun e p => call' params body frames [e, p] span) kind i ds)
      fun result es => (kind = .flatMap → (Event.flattening result).Admitted lax) →
        ∀ y ∈ es, ∃ s ∈ (Check.contribution kind element result).1, Describes lax s y := by
  intro σ ρ hσ he hE
  induction ds generalizing i with
  | nil => exact ⟨_, .pure [], fun _ => nofun⟩
  | cons x ds ih =>
    have hx := h x List.mem_cons_self
    obtain ⟨r, hr, ha⟩ :=
      hc params body captured frames _ _ span hf (.cons hx (.cons (hp (lengthNumber i)) .nil))
        σ ρ hσ he hE
    cases r with
    | error f => exact ⟨_, hr.bind_error, ha⟩
    | ok d =>
      obtain ⟨r, hr', ha'⟩ := ih (fun y hy => h y (List.mem_cons_of_mem _ hy)) (i + 1)
      cases r with
      | error f => exact ⟨_, hr.bind hr'.bind_error, ha'⟩
      | ok es =>
        refine ⟨_, hr.bind (hr'.bind (.pure _)), fun hadm y hy => ?_⟩
        rcases List.mem_append.1 hy with hy | hy
        · exact (contribution_describes hx ha hadm).exists_of_mem y hy
        · exact ha' hadm y hy

theorem simulates_iterateOpen {element : Shape} {ds : List Datum} (hl : lax)
    (h : ∀ x ∈ ds, Describes lax element x) :
    Simulates lax
      (Check.iterateEvents call calls params body captured kind false span 0 [element])
      (Check.iterate (fun e p => call params body captured [e, p] span) kind false span 0 [element])
      (Eval.iterate (fun e p => call' params body frames [e, p] span) kind 0 ds)
      (DescribesItems lax) := by
  have hp (x : Float) : Describes lax (.number span none) (.number x) :=
    ⟨x, rfl, Knows.none_iff.2 hl⟩
  rw [← bind_pure (Eval.iterate _ kind 0 ds)]
  refine Simulates.bind (simulates_iterateAll hc hf h hp 0) (hs ..)
    (fun _ => .pure _) fun result es hes => ?_
  refine .whenever fun ha => .pure ?_
  have happ : Check.Results.append (Check.contribution kind element result) ([], false) =
      ((Check.contribution kind element result).1, false) := by simp [Check.Results.append]
  rw [happ]
  exact Shape.describesItems_open.2 ⟨hl, hes ha⟩

end

theorem elements?_none_of_spread?_none (h : shape.spread? = none)
    (ho : ∀ s bs, shape ≠ .oneOf s bs) : shape.elements? = none := by
  cases shape <;> simp_all [Shape.spread?, Shape.elements?]

/-- The arguments of `concat`, each admitted, add what those of the evaluation do. -/
theorem concatItems_describes {args : List Shape} {ds : List Datum}
    (h : List.Forall₂ (Describes lax) args ds)
    (ha : ∀ arg ∈ args, (Event.joining arg).Admitted lax) :
    DescribesItems lax (Check.concatItems args) (ds.flatMap Eval.concatItems) := by
  induction h with
  | nil => exact .nil
  | @cons arg d args ds hd _ ih =>
    rw [Check.concatItems, List.flatMap_cons]
    refine DescribesItems.append ?_ (ih fun a hm => ha a (List.mem_cons_of_mem _ hm))
    rcases hs : arg.spread? with _ | r
    · have hn := not_array_of_describes hd (elements?_none_of_spread?_none hs) fun hl => by
        simpa [Event.isSound, hs] using (ha arg List.mem_cons_self).sound hl
      have hc : Eval.concatItems d = [d] := by
        cases d <;> simp_all [Eval.concatItems]
      rw [hc]
      exact .singleton hd
    · obtain ⟨es, rfl, hes⟩ := Shape.spread?_of_describes arg hd hs
      exact hes

/-- The separator of `join`. -/
theorem simulates_separator {args : List Shape} {ds : List Datum} (name : String) (span : Span)
    (h : List.Forall₂ (Describes lax) args ds) :
    Simulates lax .none (Check.separator args)
      (match ds with
        | [] => pure ","
        | d :: _ => Eval.separator name d span)
      (Knows lax) := by
  cases h with
  | nil => exact .pure (.inl rfl)
  | @cons arg d _ _ hd _ =>
    rcases ht : arg.isText with _ | _
    · simp only [Check.separator, ht, Shape.isUnknown_of_describes hd]
      exact .report_bind (fun _ => .pure _) _ _ _
    · obtain ⟨t, hdt, hk⟩ := Shape.isText_of_describes hd ht
      simp only [Check.separator, Eval.separator, ht, hdt, if_true]
      exact .pure hk

theorem simulates_joinPart (h : Describes lax shape d) :
    Simulates lax .none (Check.joinPart shape) (Eval.stringify d span) (Knows lax) := by
  have hr := Shape.rendering_of_describes shape h
  unfold Check.joinPart
  split
  · rename_i t ht
    rw [ht] at hr
    obtain ⟨x, hx, rfl⟩ := hr
    rw [Eval.stringify_eq hx]
    exact .pure (.inl rfl)
  · rename_i ht
    rw [ht] at hr
    obtain ⟨hl, x, hx⟩ := hr
    rw [Eval.stringify_eq hx]
    exact .pure (.inr ⟨hl, rfl⟩)
  · exact .report_bind (fun _ => .pure _) _ _ _

/-- The texts of elements that are known one by one. -/
theorem simulates_joinParts {elements : List Shape} {ds : List Datum}
    (h : List.Forall₂ (Describes lax) elements ds) :
    Simulates lax .none (Check.joinParts elements) (Eval.stringifyAll span ds) (Knows lax) := by
  induction h with
  | nil => exact .pure (.inl rfl)
  | @cons element d elements ds hd _ ih =>
    rw [Check.joinParts_cons]
    have hst := Check.steady_joinParts elements
    refine (simulates_joinPart hd).bind_none (Check.steady_joinPart _)
      (fun _ => hst.bind fun _ => .pure _) fun part t ht => ?_
    refine ih.bind_none hst (fun _ => .pure _) fun parts ts hts => .pure ?_
    rcases ht with rfl | ⟨hl, rfl⟩
    · rcases hts with rfl | ⟨hl, rfl⟩
      · exact .inl rfl
      · exact .inr ⟨hl, rfl⟩
    · exact .inr ⟨hl, rfl⟩

theorem Eval.stringifyAll_eq {ds : List Datum} (h : ∀ d ∈ ds, ∃ x, d.scalar? = some x)
    (span : Span) : ∃ ts, Eval.stringifyAll span ds = pure ts := by
  induction ds with
  | nil => exact ⟨[], rfl⟩
  | cons d ds ih =>
    obtain ⟨x, hx⟩ := h d List.mem_cons_self
    obtain ⟨ts, hts⟩ := ih fun d hd => h d (List.mem_cons_of_mem _ hd)
    exact ⟨x.stringText :: ts, by rw [Eval.stringifyAll, Eval.stringify_eq hx, hts]; rfl⟩

/-- The texts of the elements of an array of unknown length. -/
theorem simulates_joinPartsOpen {element : Shape} {ds : List Datum}
    (h : ∀ d ∈ ds, Describes lax element d) :
    Simulates lax .none (Check.joinParts [element]) (Eval.stringifyAll span ds)
      fun _ _ => True := by
  rw [Check.joinParts_cons, Check.joinPart]
  rcases hr : element.rendering with _ | _ | _
  · exact .report_bind (fun _ => .pure _) _ _ _
  all_goals
    obtain ⟨ts, hts⟩ := Eval.stringifyAll_eq (fun d hd =>
      (Shape.rendering_of_describes element (h d hd)).scalar? (by simp [hr])) span
    rw [hts]
    exact .pure trivial

/-- The first argument of an iterating method is a function, or it is reported. -/
theorem callback_cases {args : List Shape} {ds : List Datum} (name : String) (span : Span)
    (h : List.Forall₂ (Describes lax) args ds) :
    (∃ s params body captured frames rest rest',
      args = .function s params body captured :: rest ∧
      ds = .function params body frames :: rest' ∧ Shape.DescribesFrames lax captured frames) ∨
    ∀ σ, (Check.after (Check.callback name args span) σ).errors ≠ [] := by
  cases h with
  | nil => exact .inr fun _ => List.cons_ne_nil _ _
  | @cons arg d args ds hd _ =>
    cases arg with
    | function s params body captured =>
      obtain ⟨frames, rfl, hf⟩ := hd
      exact .inl ⟨s, params, body, captured, frames, args, ds, rfl, rfl, hf⟩
    | unknown => exact hd.elim
    | _ => exact .inr fun _ => List.cons_ne_nil _ _

section

variable {call : Check.Caller} {calls : CallerEvents} {call' : Eval.Caller}
  (hs : SteadyCaller call) (hc : CallsAgree lax call calls call')
  {elements args : List Shape} {isKnown : Bool} {ds as : List Datum} (name : String)
  (hds : DescribesItems lax (elements, isKnown) ds)
  (hone : isKnown = false → ∃ element, elements = [element])
  (has : List.Forall₂ (Describes lax) args as)

include hds hone

theorem simulates_join {sep : CheckM (Option String)} {sep' : EvalM String} (hst : Steady sep)
    (h : Simulates lax .none sep sep' (Knows lax)) :
    Simulates lax .none
      (do
        let sep ← sep
        let parts ← Check.joinParts elements
        let text := do return (← sep).intercalate (← parts)
        return .string span (if isKnown then text else none))
      (do
        let sep ← sep'
        let parts ← Eval.stringifyAll span ds
        return .string (sep.intercalate parts)) (Describes lax) := by
  have hst' := Check.steady_joinParts elements
  refine h.bind_none hst (fun _ => hst'.bind fun _ => .pure _) fun sep t ht => ?_
  cases isKnown with
  | true =>
    refine (simulates_joinParts (Shape.describesItems_known.1 hds)).bind_none hst'
      (fun _ => .pure _) fun parts ts hts => .pure ⟨_, rfl, ?_⟩
    rcases ht with rfl | ⟨hl, rfl⟩
    · rcases hts with rfl | ⟨hl, rfl⟩
      · exact .inl rfl
      · exact .inr ⟨hl, rfl⟩
    · exact .inr ⟨hl, rfl⟩
  | false =>
    obtain ⟨element, rfl⟩ := hone rfl
    obtain ⟨hl, hd⟩ := Shape.describesItems_open.1 hds
    simp only [List.mem_singleton, exists_eq_left] at hd
    exact (simulates_joinPartsOpen hd).bind_none hst' (fun _ => .pure _) fun _ _ _ =>
      .pure ⟨_, rfl, .inr ⟨hl, rfl⟩⟩

include hs hc

theorem simulates_iterate {params : List Ident} {body : Expr} {captured : List ShapeFrame}
    {frames : List Frame} (hf : Shape.DescribesFrames lax captured frames) (kind : Iteration) :
    Simulates lax
      (Check.iterateEvents call calls params body captured kind isKnown span 0 elements)
      (Check.iterate (fun e p => call params body captured [e, p] span) kind isKnown span 0
        elements)
      (Eval.iterate (fun e p => call' params body frames [e, p] span) kind 0 ds)
      (DescribesItems lax) := by
  cases isKnown with
  | true => exact simulates_iterateKnown hs hc hf (Shape.describesItems_known.1 hds) 0
  | false =>
    obtain ⟨element, rfl⟩ := hone rfl
    obtain ⟨hl, hd⟩ := Shape.describesItems_open.1 hds
    simp only [List.mem_singleton, exists_eq_left] at hd
    exact simulates_iterateOpen hs hc hf hl hd

include has

/-- A method of an array whose elements the check has one by one, or one for all. -/
theorem simulates_arrayMethod :
    Simulates lax (Check.arrayMethodEvents call calls elements isKnown name args span)
      (Check.arrayMethod call receiver elements isKnown name args span)
      (Eval.arrayMethod call' ds name as span) (Describes lax) := by
  unfold Check.arrayMethodEvents Check.arrayMethod Eval.arrayMethod
  rcases Iteration.ofName? name with _ | kind
  · dsimp only
    split
    · refine .of_admitted_all fun ha => .arrayOf span ?_
      exact hds.append (concatItems_describes has fun arg hm => ha _ (List.mem_map_of_mem hm))
    split
    · have hsep := simulates_separator name span has
      cases has with
      | nil => exact simulates_join hds hone (Check.steady_separator _) hsep
      | cons _ _ => exact simulates_join hds hone (Check.steady_separator _) hsep
    · exact .refuse _ _ _ _
  · dsimp only
    rcases callback_cases name span has with
      ⟨s, params, body, captured, frames, _, _, rfl, rfl, hf⟩ | he
    · have hst := Check.steady_iterate (fun e p => hs params body captured [e, p] span) kind isKnown
        span 0 elements
      exact (simulates_iterate hs hc hds hone hf kind).bind_none hst (fun _ => .arrayOf ..)
        fun items es hes => .arrayOf span hes
    · refine .error_bind he fun f => ?_
      split
      · exact .pure _
      · exact (Check.steady_iterate (fun _ _ => hs ..) ..).bind fun _ => .arrayOf ..

end

/-- The parts of a text at a separator that is one. -/
theorem describes_split {text : Option String} {t sep : String} {arg : Shape}
    (ht : Knows lax text t) (harg : arg.isText = true) (hsep : Knows lax arg.text? sep)
    (args : List Shape) (span : Span) :
    ∃ result, Check.splitText text (arg :: args) span = pure result ∧
      Describes lax result (.array ((Text.split t sep).map .string)) := by
  simp only [Check.splitText, harg, if_true]
  rcases ht.both hsep Text.split with hb | ⟨hl, hb⟩
  · rw [hb]
    refine ⟨_, rfl, _, rfl, Shape.describesAll_iff.2 ?_⟩
    rw [List.forall₂_map_left_iff, List.forall₂_map_right_iff]
    exact List.forall₂_same.2 fun p _ => ⟨p, rfl, .inl rfl⟩
  · rw [hb]
    refine ⟨_, rfl, hl, _, rfl, fun x hx => ?_⟩
    obtain ⟨p, -, rfl⟩ := List.mem_map.1 hx
    exact ⟨p, rfl, Knows.none_iff.2 hl⟩

theorem simulates_split {text : Option String} {t : String} {args : List Shape}
    {ds : List Datum} (name : String) (ht : Knows lax text t)
    (has : List.Forall₂ (Describes lax) args ds) :
    Simulates lax .none (Check.splitText text args span)
      (match ds with
        | [] => return .array [.string t]
        | d :: _ => do
          let sep ← Eval.separator name d span
          return .array ((Text.split t sep).map .string)) (Describes lax) := by
  cases has with
  | nil =>
    refine .pure ⟨_, rfl, ?_⟩
    exact Shape.describesAll_iff.2 (.cons ⟨t, rfl, ht⟩ .nil)
  | @cons arg d args _ hd _ =>
    rcases htext : arg.isText with _ | _
    · simp only [Check.splitText, htext]
      exact .refuse _ _ _ _
    obtain ⟨sep, hsep, hk⟩ := Shape.isText_of_describes hd htext
    obtain ⟨result, hr, hdr⟩ := describes_split ht htext hk args span
    simp only [hr, Eval.separator, hsep]
    exact .pure hdr

theorem simulates_textMethod {t : String} {args : List Shape} {ds : List Datum} (name : String)
    (ht : Knows lax receiver.text? t) (has : List.Forall₂ (Describes lax) args ds) :
    Simulates lax .none (Check.textMethod receiver name args span)
      (Eval.textMethod t name ds span) (Describes lax) := by
  unfold Check.textMethod Eval.textMethod
  rcases textMethod? name with _ | f
  · dsimp only
    split
    · exact simulates_split name ht has
    · exact .refuse _ _ _ _
  · exact .pure ⟨_, rfl, ht.map f⟩

theorem Datum.method_text {t : String} (h : d.text? = some t) (call : Eval.Caller)
    (name : String) (args : List Datum) (span : Span) :
    Eval.method call d name args span = Eval.textMethod t name args span := by
  cases d <;> simp_all [text?, scalar?, Eval.method]

section

variable {call : Check.Caller} {calls : CallerEvents} {call' : Eval.Caller}
  (hs : SteadyCaller call) (hc : CallsAgree lax call calls call')
  {args : List Shape} {as : List Datum} (has : List.Forall₂ (Describes lax) args as)

include hc has

/-- The call of a value. What the evaluation does with a value that is no function is left open,
as the check reports it. -/
theorem simulates_callValue {function : Shape} {n : EvalM Datum} (errorSpan : Span)
    (hd : Describes lax function d)
    (hn : ∀ params body frames, d = .function params body frames →
      n = call' params body frames as span) :
    Simulates lax (Check.callValueEvents calls function args span)
      (Check.callValue call function args errorSpan span) n (Describes lax) := by
  cases function with
  | function s params body captured =>
    obtain ⟨frames, rfl, hf⟩ := hd
    rw [hn params body frames rfl]
    exact hc params body captured frames args as span hf has
  | unknown => exact hd.elim
  | _ => exact .refuse _ _ _ _

theorem simulates_fieldMethod {s : Span} {fields : ShapeFields} {entries : Entries Datum}
    (hs : SteadyCaller call) (name : String) (h : Shape.DescribesFields lax fields entries) :
    Simulates lax (Check.plainMethodEvents call calls (.record s fields) name args span)
      (Check.plainMethod call (.record s fields) name args span)
      (Eval.method call' (.object entries) name as span) (Describes lax) := by
  rcases hf : Entries.get? fields name with _ | ⟨keySpan, property⟩
  · refine .error_bind (m := Check.member name span (.record s fields)) (fun σ => ?_) fun f => ?_
    · simp only [Check.member, Check.plainMember, hf]
      exact List.cons_ne_nil _ _
    · split
      · exact .pure _
      · exact Check.steady_callValue hs ..
  · have hm : Check.member name span (.record s fields) = pure property := by
      simp only [Check.member, Check.plainMember, hf]
    obtain ⟨d, hd, he⟩ := describesFields_field h hf
    have hu : Check.plainMethod call (.record s fields) name args span =
        Check.callValue call property args span span := by
      simp only [Check.plainMethod, hm, pure_bind]
      cases property <;> first | rfl | exact he.elim
    have hE : Check.plainMethodEvents call calls (.record s fields) name args span =
        Check.callValueEvents calls property args span := by
      simp only [Check.plainMethodEvents, hm]
      rfl
    rw [hu, hE]
    refine simulates_callValue hc has span he fun params body frames hfun => ?_
    simp only [Eval.method, hd, hfun]

include hs

theorem simulates_plainMethod (name : String) (h : Describes lax shape d)
    (ho : ∀ s bs, shape ≠ .oneOf s bs) :
    Simulates lax (Check.plainMethodEvents call calls shape name args span)
      (Check.plainMethod call shape name args span) (Eval.method call' d name as span)
      (Describes lax) := by
  cases shape with
  | oneOf s bs => exact absurd rfl (ho s bs)
  | unknown => exact h.elim
  | record s fields =>
    obtain ⟨entries, rfl, hf⟩ := h
    exact simulates_fieldMethod hc has hs name hf
  | tuple s items =>
    obtain ⟨ds, rfl, hds⟩ := h
    exact simulates_arrayMethod hs hc name
      (Shape.describesItems_known.2 (Shape.describesAll_iff.1 hds)) nofun has
  | array s element =>
    obtain ⟨hl, ds, rfl, hds⟩ := h
    exact simulates_arrayMethod hs hc name
      (Shape.describesItems_open.2 ⟨hl, by simpa using hds⟩) (fun _ => ⟨element, rfl⟩) has
  | string | sentinel =>
    simp only [Check.plainMethod, Check.plainMethodEvents, Shape.elements?]
    split
    · obtain ⟨t, hd, hk⟩ := Shape.isText_of_describes h ‹_›
      rw [Datum.method_text hd]
      exact simulates_textMethod name hk has
    · exact .refuse _ _ _ _
  | number | boolean | function | null | undefined =>
    simp only [Check.plainMethod, Shape.elements?, Shape.isText, Shape.kind?]
    exact .refuse _ _ _ _

/-- A method of a shape describes the method of its datum. -/
theorem simulates_method (name : String) (h : Describes lax shape d) :
    Simulates lax (Check.methodEvents call calls name args span shape)
      (Check.method call name args span shape) (Eval.method call' d name as span)
      (Describes lax) := by
  refine simulates_alternatives span (Check.steady_method hs name args span) (fun s bs _ => ?_)
    (fun s bs => ?_) (fun shape ho h => ?_) shape h
  · rw [Check.method, Check.methods_eq]
  · rw [Check.methodEvents, Check.methodsEvents_eq]
  · have he : Check.methodEvents call calls name args span shape =
        Check.plainMethodEvents call calls shape name args span := by
      cases shape <;> simp_all [Check.methodEvents]
    have hm : Check.method call name args span shape =
        Check.plainMethod call shape name args span := by
      cases shape <;> simp_all [Check.method]
    rw [he, hm]
    exact simulates_plainMethod hs hc has name h ho

end

end TypedConfig
