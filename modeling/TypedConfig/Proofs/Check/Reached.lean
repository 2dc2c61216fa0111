import TypedConfig.Proofs.Check.Closed
import TypedConfig.Proofs.Check.Unknown

/-! # Properties that shapes have wherever a check comes to

A property that is closed holds of the shapes that are bound in every state in which some work of a
check is begun, and of the shapes that the work is given.
-/

namespace TypedConfig

open Shape (Closed)

namespace Check

variable {P : Shape → Prop} {call : Caller} {σ : State}

variable (P) in
def Work.Has : Work → Prop
  | .members p _ => p.Have P
  | .method _ args _ receiver => P receiver ∧ ∀ a ∈ args, P a
  | .methods _ args _ receivers => (∀ r ∈ receivers, P r) ∧ ∀ a ∈ args, P a
  | .iterate _ _ captured _ _ _ _ rest => FramesHave P captured ∧ ∀ e ∈ rest, P e
  | .call _ _ captured args _ => FramesHave P captured ∧ ∀ a ∈ args, P a
  | .expr _ | .segments .. | .items _ | .all _ => True

variable (P) in
/-- Work that is begun with shapes with a property, in a state that binds such. -/
def Begins (q : Work × State) : Prop := q.1.Has P ∧ q.2.Has P

theorem begins_callParts {function : Shape} {args : List Shape} {span : Span} (hP : Closed P)
    (hσ : σ.Has P) (hf : P function) (ha : ∀ a ∈ args, P a) :
    ∀ q ∈ callParts function args span σ, Begins P q := by
  unfold callParts
  split
  · exact List.forall_mem_singleton.2 ⟨⟨(hP.function ..).1 hf, ha⟩, hσ⟩
  · exact nofun

theorem begins_iterateParts {elements args : List Shape} {isKnown : Bool} {name : String}
    {span : Span} (hP : Closed P) (hσ : σ.Has P) (he : ∀ e ∈ elements, P e)
    (ha : ∀ a ∈ args, P a) :
    ∀ q ∈ iterateParts elements isKnown name args span σ, Begins P q := by
  have hgives : Gives P (callback name args span) _ := gives_callback hP ha name
  obtain ⟨hf, hnext⟩ := hgives.run σ hσ
  unfold iterateParts
  split
  · split
    · rename_i hcallback
      exact List.forall_mem_singleton.2 ⟨⟨hf _ hcallback, he⟩, hnext⟩
    · exact nofun
  · exact nofun

theorem begins_method {name : String} {args : List Shape} {span : Span} {receiver : Shape}
    (hP : Closed P) (hσ : σ.Has P) (h : P receiver) (ha : ∀ a ∈ args, P a) :
    ∀ q ∈ (Work.method name args span receiver).parts call σ, Begins P q := by
  cases receiver with
  | oneOf _ branches => exact List.forall_mem_singleton.2 ⟨⟨((hP.oneOf ..).1 h).2, ha⟩, hσ⟩
  | record s fields =>
    have hgives : Gives P (member name span (.record s fields)) P := gives_member hP name h
    obtain ⟨hm, hnext⟩ := hgives.run σ hσ
    exact begins_callParts hP hnext hm ha
  | tuple | array => exact begins_iterateParts hP hσ (hP.elements? h rfl) ha
  | _ => exact nofun

section

variable (hP : Closed P) (hc : CallerGives P call)

include hP hc

theorem begins_call {s : Span} {callee : Expr} {args : List Expr} (hσ : σ.Has P) :
    ∀ q ∈ (Work.expr (.call s callee args)).parts call σ, Begins P q := by
  cases callee with
  | member _ object property =>
    obtain ⟨hobject, hnext⟩ := (gives_infer hP hc object).run σ hσ
    obtain ⟨hargs, hlast⟩ := (gives_inferAll hP hc args).run _ hnext
    exact List.forall_mem_cons.2 ⟨⟨trivial, hσ⟩, List.forall_mem_cons.2
      ⟨⟨trivial, hnext⟩, List.forall_mem_singleton.2 ⟨⟨hobject, hargs⟩, hlast⟩⟩⟩
  | _ =>
    obtain ⟨hcallee, hnext⟩ := (gives_infer hP hc _).run σ hσ
    obtain ⟨hargs, hlast⟩ := (gives_inferAll hP hc args).run _ hnext
    exact List.forall_mem_cons.2 ⟨⟨trivial, hσ⟩, List.forall_mem_cons.2
      ⟨⟨trivial, hnext⟩, begins_callParts hP hlast hcallee hargs⟩⟩

theorem begins_binary {s : Span} {op : BinaryOp} {left right : Expr} (hσ : σ.Has P) :
    ∀ q ∈ (Work.expr (.binary s op left right)).parts call σ, Begins P q := by
  have hnext := ((gives_infer hP hc left).run σ hσ).2
  refine List.forall_mem_cons.2 ⟨⟨trivial, hσ⟩, ?_⟩
  split
  · exact nofun
  · exact nofun
  · exact List.forall_mem_singleton.2 ⟨trivial, hnext⟩

theorem begins_conditional {s : Span} {test consequent alternate : Expr} (hσ : σ.Has P) :
    ∀ q ∈ (Work.expr (.conditional s test consequent alternate)).parts call σ, Begins P q := by
  have hnext := ((gives_infer hP hc test).run σ hσ).2
  have hlast := ((gives_infer hP hc consequent).run _ hnext).2
  refine List.forall_mem_cons.2 ⟨⟨trivial, hσ⟩, ?_⟩
  split
  · exact List.forall_mem_singleton.2 ⟨trivial, hnext⟩
  · exact List.forall_mem_singleton.2 ⟨trivial, hnext⟩
  · exact List.forall_mem_cons.2
      ⟨⟨trivial, hnext⟩, List.forall_mem_singleton.2 ⟨trivial, hlast⟩⟩

theorem begins_expr (hσ : σ.Has P) : ∀ e, ∀ q ∈ (Work.expr e).parts call σ, Begins P q
  | .string .. | .number .. | .boolean .. | .null _ | .undefined _ | .name .. | .arrow .. => nofun
  | .template .. => List.forall_mem_singleton.2 ⟨trivial, hσ⟩
  | .array .. => List.forall_mem_singleton.2 ⟨trivial, hσ⟩
  | .object .. => List.forall_mem_singleton.2 ⟨.start, hσ⟩
  | .member .. => List.forall_mem_singleton.2 ⟨trivial, hσ⟩
  | .unary .. => List.forall_mem_singleton.2 ⟨trivial, hσ⟩
  | .index _ object _ => List.forall_mem_cons.2 ⟨⟨trivial, hσ⟩,
      List.forall_mem_singleton.2 ⟨trivial, ((gives_infer hP hc object).run σ hσ).2⟩⟩
  | .binary .. => begins_binary hP hc hσ
  | .call .. => begins_call hP hc hσ
  | .conditional .. => begins_conditional hP hc hσ

/-- The parts of a piece of work begin as the work does. -/
theorem begins_parts : ∀ (w : Work) {σ : State}, Begins P (w, σ) →
    ∀ q ∈ w.parts call σ, Begins P q
  | .expr e, _, h => begins_expr hP hc h.2 e
  | .segments _ [], _, _ | .items [], _, _ | .members _ [], _, _ | .all [], _, _
  | .methods _ _ _ [], _, _ | .iterate _ _ _ _ _ _ _ [], _, _ | .call .., _, _ => nofun
  | .segments _ (.text _ :: _), _, h => List.forall_mem_singleton.2 h
  | .segments text (.hole e :: rest), σ, ⟨_, hσ⟩ => by
    have hnext := ((gives_infer hP hc e).run σ hσ).2
    have hlast := ((Gives.of_steady (steady_extend text (value (infer call e) σ))).run _ hnext).2
    exact List.forall_mem_cons.2 ⟨⟨trivial, hσ⟩, List.forall_mem_singleton.2 ⟨trivial, hlast⟩⟩
  | .items (.item e :: rest), σ, ⟨_, hσ⟩ =>
    List.forall_mem_cons.2 ⟨⟨trivial, hσ⟩,
      List.forall_mem_singleton.2 ⟨trivial, ((gives_infer hP hc e).run σ hσ).2⟩⟩
  | .items (.spread e :: rest), σ, ⟨_, hσ⟩ => by
    have hnext := ((gives_infer hP hc e).run σ hσ).2
    refine List.forall_mem_cons.2 ⟨⟨trivial, hσ⟩, List.forall_mem_singleton.2 ⟨trivial, ?_⟩⟩
    dsimp only
    split
    · exact hnext
    · exact ((Gives.of_steady (.report ..)).run _ hnext).2
  | .members p (.field key keySpan e :: rest), σ, ⟨hp, hσ⟩ => by
    obtain ⟨h, hnext⟩ := (gives_infer hP hc e).run σ hσ
    exact List.forall_mem_cons.2
      ⟨⟨trivial, hσ⟩, List.forall_mem_singleton.2 ⟨hp.put key keySpan h, hnext⟩⟩
  | .members p (.spread e :: rest), σ, ⟨hp, hσ⟩ => by
    obtain ⟨h, hnext⟩ := (gives_infer hP hc e).run σ hσ
    exact List.forall_mem_cons.2
      ⟨⟨trivial, hσ⟩, List.forall_mem_singleton.2 ((gives_spread hP hp h).run _ hnext)⟩
  | .all (e :: rest), σ, ⟨_, hσ⟩ =>
    List.forall_mem_cons.2 ⟨⟨trivial, hσ⟩,
      List.forall_mem_singleton.2 ⟨trivial, ((gives_infer hP hc e).run σ hσ).2⟩⟩
  | .method .., _, ⟨⟨hr, ha⟩, hσ⟩ => begins_method hP hσ hr ha
  | .methods name args span (receiver :: rest), σ, ⟨⟨hr, ha⟩, hσ⟩ => by
    obtain ⟨h, hrest⟩ := List.forall_mem_cons.1 hr
    have hgives : Gives P (method call name args span receiver) P := gives_method hP hc name h ha
    have hnext := (hgives.run σ hσ).2
    exact List.forall_mem_cons.2
      ⟨⟨⟨h, ha⟩, hσ⟩, List.forall_mem_singleton.2 ⟨⟨hrest, ha⟩, hnext⟩⟩
  | .iterate params body captured kind isKnown span i (element :: rest), σ, ⟨⟨hf, he⟩, hσ⟩ => by
    obtain ⟨h, hrest⟩ := List.forall_mem_cons.1 he
    have hargs : ∀ a ∈ [element,
        .number span (if isKnown then some (lengthNumber i) else none)], P a :=
      List.forall_mem_cons.2 ⟨h, List.forall_mem_singleton.2 (hP.leaf _ rfl)⟩
    have hnext := ((hc params body captured _ span hf hargs).run σ hσ).2
    exact List.forall_mem_cons.2
      ⟨⟨⟨hf, hargs⟩, hσ⟩, List.forall_mem_singleton.2 ⟨⟨hf, hrest⟩, hnext⟩⟩

end

namespace Point

variable {maxDepth : Nat} {p q : Point}

theorem begins_body (hP : Closed P) (h : Begins P (p.work, p.state)) (hq : q ∈ p.body maxDepth) :
    Begins P (q.work, q.state) := by
  obtain ⟨levels, params, body, captured, args, span, σ, rfl, -, -, rfl⟩ := mem_body hq
  obtain ⟨⟨hf, ha⟩, hσ⟩ := h
  have hnext := ((Gives.of_steady (steady_countCall span)).run σ hσ).2
  exact ⟨trivial, hnext.globals, List.forall_mem_cons.2 ⟨frameOf_has hP span params ha, hf⟩⟩

theorem begins_reaches (hP : Closed P) (h : Begins P (p.work, p.state))
    (hq : p.Reaches maxDepth q) : Begins P (q.work, q.state) := by
  induction hq with
  | refl => exact h
  | tail _ hstep ih =>
    rcases List.mem_append.1 hstep with hq | hq
    · exact begins_body hP ih hq
    · obtain ⟨r, hr, rfl⟩ := List.mem_map.1 hq
      exact begins_parts hP (callerGives_call hP _ _) _ ih r hr

end Point

end Check

/-- Whatever work a check does, it begins it with shapes with the property, in a state that binds
such. -/
theorem Program.Asks.begins {P : Shape → Prop} (hP : Closed P) {limits : Limits} {schema : Schema}
    {program : Program} {p : Check.Point} (h : program.Asks limits schema p) :
    Check.Begins P (p.work, p.state) := by
  obtain ⟨ss, s, rest, e, σ, -, hq, hp⟩ := h
  obtain ⟨⟨context, rfl⟩, -⟩ := Check.statement_of_asked? limits hq
  have hσ : (Check.after (Check.statements limits schema ss) (Check.initial schema)).Has P :=
    Check.has_statements hP ss
  have hbegins : Check.Begins P (.expr e, Check.State.at _ context) :=
    ⟨trivial, hσ.globals, hσ.frames⟩
  exact Check.Point.begins_reaches hP hbegins hp

end TypedConfig
