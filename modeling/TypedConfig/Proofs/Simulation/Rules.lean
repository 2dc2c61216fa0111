import TypedConfig.Proofs.Check.Known
import TypedConfig.Proofs.Eval.Run

/-! # Simulation of evaluation by checking

A check computation simulates an evaluation if, from related states and as long as the check
finds no error and all it meets is admitted, what the one gives describes what the other gives.
The only faults left are indices out of bounds, on a lax reading and where the check has met an
index that may exceed its bound. The rules follow the two monads.
-/

namespace TypedConfig

open Shape (Describes DescribesFrames)
open Check (CheckM Event Events value after Steady)

variable {α β γ δ : Type} {lax : Prop}

namespace Eval

/-- A computation that gives a result in a scope and leaves the scope as it was. -/
def Gives (n : EvalM β) (ρ : Scope) (r : Except Fault β) : Prop := n.run ρ = (r, ρ)

namespace Gives

variable {n : EvalM β} {ρ : Scope}

theorem pure (b : β) : Gives (Pure.pure b) ρ (.ok b) := rfl

theorem fail (cause : EvalCause) (span : Span) :
    Gives (Eval.fail cause span : EvalM β) ρ (.error ⟨cause, span⟩) := rfl

theorem bind {k : β → EvalM δ} {b : β} {r : Except Fault δ} (hn : Gives n ρ (.ok b))
    (hk : Gives (k b) ρ r) : Gives (n >>= k) ρ r := (run_bind hn k).trans hk

theorem bind_error {k : β → EvalM δ} {f : Fault} (hn : Gives n ρ (.error f)) :
    Gives (n >>= k) ρ (.error f) := run_bind_error hn k

theorem get_bind {k : Scope → EvalM δ} {r : Except Fault δ} (hk : Gives (k ρ) ρ r) :
    Gives (MonadState.get >>= k) ρ r := hk

theorem inside {frames : List Frame} {r : Except Fault β}
    (hn : Gives n { ρ with frames := frames, depth := ρ.depth + 1 } r) :
    Gives (Eval.inside frames n) ρ r := by
  show (fun p : Except Fault β × Scope =>
    (p.1, { p.2 with frames := ρ.frames, depth := p.2.depth - 1 })) (n.run _) = _
  rw [hn]
  rfl

end Gives

end Eval

open Eval (EvalM Scope Gives)

/-- A fault that is an index out of bounds. -/
def Fault.IsBounds (f : Fault) : Prop := f.cause = .arrayBounds ∨ f.cause = .textBounds

/-- What has to hold of an event: on a lax reading that the check is sound there and nothing is
unknown, and on a strict one that it is definite. -/
structure Check.Event.Admitted (lax : Prop) (e : Event) : Prop where
  sound : lax → e.isSound = true
  clear : lax → e.isClear = true
  definite : ¬ lax → e.isDefinite = true

/-- States of a check and of an evaluation at the same place: every name is bound to a shape and
to a datum that it describes. -/
structure Related (lax : Prop) (σ : Check.State) (ρ : Scope) : Prop where
  globals : ∀ name, Option.Rel (fun b d => Describes lax b.shape d)
    (Entries.get? σ.globals name) (Entries.get? ρ.globals name)
  frames : DescribesFrames lax σ.frames ρ.frames
  depth : σ.depth = ρ.depth
  calls : σ.calls ≤ Check.maxCalls

theorem Related.after {m : CheckM α} {σ : Check.State} {ρ : Scope} (h : Related lax σ ρ)
    (hm : Steady m) (he : (after m σ).errors = []) : Related lax (after m σ) ρ where
  globals := by rw [hm.globals]; exact h.globals
  frames := by rw [hm.frames]; exact h.frames
  depth := by rw [hm.depth]; exact h.depth
  calls := hm.calls σ he h.calls

/-- A result is related to what a check gives, or else is an index out of bounds that the check
has met. -/
def Agrees (lax : Prop) (es : List Event) (R : α → β → Prop) (a : α) : Except Fault β → Prop
  | .ok b => R a b
  | .error f => lax ∧ f.IsBounds ∧ ∃ e ∈ es, e.mayExceed = true ∨ e.isOutside = true

theorem Agrees.mono {es fs : List Event} {R : α → β → Prop} {a : α} {r : Except Fault β}
    (h : Agrees lax es R a r) (hs : es ⊆ fs) : Agrees lax fs R a r := by
  cases r with
  | ok b => exact h
  | error f =>
    obtain ⟨hl, hf, e, hm, he⟩ := h
    exact ⟨hl, hf, e, hs hm, he⟩

/-- The check computation simulates the evaluation. -/
def Simulates (lax : Prop) (E : Events) (m : CheckM α) (n : EvalM β) (R : α → β → Prop) : Prop :=
  ∀ σ ρ, Related lax σ ρ → (after m σ).errors = [] → (∀ e ∈ E σ, e.Admitted lax) →
    ∃ r, Gives n ρ r ∧ Agrees lax (E σ) R (value m σ) r

namespace Simulates

variable {E : Events} {m : CheckM α} {n : EvalM β} {R : α → β → Prop}

theorem pure {a : α} {b : β} (h : R a b) :
    Simulates lax E (Pure.pure a) (Pure.pure b : EvalM β) R :=
  fun _ _ _ _ _ => ⟨.ok b, .pure b, h⟩

theorem mono {F : Events} (h : Simulates lax E m n R) (hE : ∀ σ, E σ ⊆ F σ) :
    Simulates lax F m n R := by
  intro σ ρ hσ he hF
  obtain ⟨r, hr, ha⟩ := h σ ρ hσ he fun e hm => hF e (hE σ hm)
  exact ⟨r, hr, ha.mono (hE σ)⟩

/-- A check that meets nothing by itself may be looked at among any events. -/
theorem of_none (h : Simulates lax .none m n R) : Simulates lax E m n R :=
  h.mono fun _ => List.nil_subset _

theorem bind {F : α → Events} {f : α → CheckM γ} {k : β → EvalM δ} {T : γ → δ → Prop}
    (hm : Simulates lax E m n R) (sm : Steady m) (sf : ∀ a, Steady (f a))
    (hf : ∀ a b, R a b → Simulates lax (F a) (f a) (k b) T) :
    Simulates lax (E.andThen m F) (m >>= f) (n >>= k) T := by
  intro σ ρ hσ he hE
  have he' : (after m σ).errors = [] := (sf _).errors_nil he
  obtain ⟨r, hr, ha⟩ := hm σ ρ hσ he' fun e hm => hE e (List.mem_append_left _ hm)
  cases r with
  | error f => exact ⟨.error f, hr.bind_error, Agrees.mono ha (List.subset_append_left ..)⟩
  | ok b =>
    obtain ⟨r, hr', ha'⟩ := hf _ b ha _ ρ (hσ.after sm he') he fun e hm =>
      hE e (List.mem_append_right _ hm)
    exact ⟨r, hr.bind hr', ha'.mono (List.subset_append_right ..)⟩

/-- Only the first of two computations meets something. -/
theorem bind_none {f : α → CheckM γ} {k : β → EvalM δ} {T : γ → δ → Prop}
    (hm : Simulates lax E m n R) (sm : Steady m) (sf : ∀ a, Steady (f a))
    (hf : ∀ a b, R a b → Simulates lax .none (f a) (k b) T) :
    Simulates lax E (m >>= f) (n >>= k) T :=
  (hm.bind sm sf hf).mono fun σ => by simp [Events.andThen, Events.following, Events.none]

/-- Only what follows the first of two computations meets something. -/
theorem bind_following {F : α → Events} {f : α → CheckM γ} {k : β → EvalM δ}
    {T : γ → δ → Prop} (hm : Simulates lax .none m n R) (sm : Steady m)
    (sf : ∀ a, Steady (f a)) (hf : ∀ a b, R a b → Simulates lax (F a) (f a) (k b) T) :
    Simulates lax (.following m F) (m >>= f) (n >>= k) T :=
  hm.bind sm sf hf

/-- A computation of the check alone. -/
theorem following {F : α → Events} {f : α → CheckM γ} {T : γ → β → Prop} (sm : Steady m)
    (sf : ∀ a, Steady (f a)) (hf : ∀ a, Simulates lax (F a) (f a) n T) :
    Simulates lax (.following m F) (m >>= f) n T := by
  intro σ ρ hσ he hE
  exact hf _ _ ρ (hσ.after sm ((sf _).errors_nil he)) he hE

/-- A computation of the check alone whose result is not looked at. -/
theorem after_check {F : α → Events} {f : α → CheckM γ} {T : γ → β → Prop} (sm : Steady m)
    (sf : ∀ a, Steady (f a)) (hf : ∀ a, Simulates lax (F a) (f a) n T) :
    Simulates lax (E.andThen m F) (m >>= f) n T :=
  (following sm sf hf).mono fun _ => List.subset_append_right ..

/-- A check that meets nothing and of whose result something is known. -/
theorem skip_of {f : α → CheckM γ} {T : γ → β → Prop} {P : α → Prop} (sm : Steady m)
    (sf : ∀ a, Steady (f a)) (hP : ∀ σ, (after m σ).errors = [] → P (value m σ))
    (hf : ∀ a, P a → Simulates lax .none (f a) n T) : Simulates lax E (m >>= f) n T := by
  refine of_none fun σ ρ hσ he hE => ?_
  have he' : (after m σ).errors = [] := (sf _).errors_nil he
  exact hf _ (hP σ he') _ ρ (hσ.after sm he') he hE

/-- A check whose result is not looked at and that meets nothing. -/
theorem skip {f : α → CheckM γ} {T : γ → β → Prop} (sm : Steady m)
    (sf : ∀ a, Steady (f a)) (hf : ∀ a, Simulates lax .none (f a) n T) :
    Simulates lax E (m >>= f) n T :=
  skip_of (P := fun _ => True) sm sf (fun _ _ => trivial) fun a _ => hf a

/-- An event that is surely met may be taken to be admitted. -/
theorem of_admitted {e : Event} (hm : ∀ σ, e ∈ E σ)
    (h : e.Admitted lax → Simulates lax E m n R) : Simulates lax E m n R :=
  fun σ ρ hσ he hE => h (hE e (hm σ)) σ ρ hσ he hE

theorem of_admitted_all {es : List Event}
    (h : (∀ e ∈ es, e.Admitted lax) → Simulates lax (fun _ => es) m n R) :
    Simulates lax (fun _ => es) m n R :=
  fun σ ρ hσ he hE => h hE σ ρ hσ he hE

theorem meeting {e : Event} (h : e.Admitted lax → Simulates lax E m n R) :
    Simulates lax (.meeting e E) m n R :=
  of_admitted (fun _ => List.mem_cons_self) fun ha => (h ha).mono fun _ => List.subset_cons_self ..

theorem whenever {p : Prop} [Decidable p] {e : Event}
    (h : (p → e.Admitted lax) → Simulates lax E m n R) :
    Simulates lax (.whenever p e E) m n R := by
  by_cases hp : p
  · refine of_admitted (fun _ => by simp [Events.whenever, hp]) fun ha =>
      (h fun _ => ha).mono fun _ => List.subset_append_right ..
  · exact (h fun hp' => absurd hp' hp).mono fun _ => List.subset_append_right ..

/-- A check that always finds an error simulates everything. -/
theorem of_error (h : ∀ σ, (after m σ).errors ≠ []) : Simulates lax E m n R :=
  fun σ _ _ he _ => absurd he (h σ)

theorem refuse {R : Shape → β → Prop} (expected found : String) (errorSpan span : Span) :
    Simulates lax E (Check.refuse expected found errorSpan span) n R :=
  of_error fun _ => List.cons_ne_nil _ _

theorem error_bind {f : γ → CheckM α} {m : CheckM γ} (h : ∀ σ, (after m σ).errors ≠ [])
    (sf : ∀ a, Steady (f a)) : Simulates lax E (m >>= f) n R :=
  of_error fun σ he => h σ ((sf _).errors_nil he)

theorem report_bind {f : Unit → CheckM α} (sf : ∀ a, Steady (f a)) (expected found : String)
    (span : Span) : Simulates lax E (Check.report expected found span >>= f) n R :=
  error_bind (fun _ => List.cons_ne_nil _ _) sf

/-- A check of each of several shapes, of which one simulates an evaluation. -/
theorem each {E : Shape → Events} {f : Shape → CheckM Shape} {R : Shape → β → Prop}
    (sf : ∀ shape, Steady (f shape)) {shapes : List Shape}
    (h : ∃ shape ∈ shapes, Simulates lax (E shape) (f shape) n R) :
    Simulates lax (.each E f shapes) (shapes.mapM f) n fun rs b => ∃ r ∈ rs, R r b := by
  have sfs : ∀ shapes : List Shape, Steady (shapes.mapM f) := Steady.mapM sf
  induction shapes with
  | nil => obtain ⟨_, hm, _⟩ := h; cases hm
  | cons shape shapes ih =>
    rw [List.mapM_cons]
    have spure (first : Shape) : Steady (do let rest ← shapes.mapM f; Pure.pure (first :: rest)) :=
      (sfs shapes).bind fun _ => .pure _
    obtain ⟨b, hm, h⟩ := h
    rcases List.mem_cons.1 hm with rfl | hm
    · rw [← bind_pure n]
      refine h.bind (sf _) spure fun r b hr => ?_
      exact skip (sfs shapes) (fun _ => .pure _) fun rest => pure ⟨r, List.mem_cons_self, hr⟩
    · refine after_check (sf _) spure fun first => ?_
      rw [← bind_pure n]
      refine (ih ⟨b, hm, h⟩).bind_none (sfs shapes) (fun _ => .pure _) fun rest d hd => ?_
      obtain ⟨r, hr, hd⟩ := hd
      exact pure ⟨r, List.mem_cons_of_mem _ hr, hd⟩

/-- One of several shapes describes what one of them does, which on a strict reading is the only
one. -/
theorem oneOf {shapes : List Shape} {d : Datum} (span : Span)
    (h : ∃ shape ∈ shapes, Describes lax shape d ∧ (lax ∨ shapes = [shape])) :
    Simulates lax E (Check.oneOf shapes span) (Pure.pure d) (Describes lax) := by
  obtain ⟨shape, hm, hd, hl⟩ := h
  unfold Check.oneOf
  split
  · rename_i r hr
    exact pure (Shape.oneOf?_describes hr hm hd hl)
  · exact of_error fun _ => List.cons_ne_nil _ _

/-- A check that goes both ways simulates the one that the evaluation goes. -/
theorem choose {condition : Option Bool} {b : Bool} {F : Events} {yes no : CheckM Shape}
    {n n' : EvalM Datum} (span : Span) (hb : condition = some b ∨ lax ∧ condition = none)
    (sy : Steady yes) (sn : Steady no) (hy : Simulates lax E yes n (Describes lax))
    (hn : Simulates lax F no n' (Describes lax)) :
    Simulates lax (.choose condition E yes F) (Check.choose condition yes no span)
      (if b then n else n') (Describes lax) := by
  rcases hb with rfl | ⟨hl, rfl⟩
  · cases b
    · exact hn
    · exact hy
  · have sboth (a : Shape) : Steady (do Check.oneOf [a, ← no] span) := sn.bind fun _ => .oneOf ..
    cases b
    · refine after_check sy sboth fun a => ?_
      show Simulates lax _ _ n' _
      rw [← bind_pure n']
      exact hn.bind_none sn (fun _ => .oneOf ..) fun c _ hc =>
        oneOf span ⟨c, by simp, hc, .inl hl⟩
    · show Simulates lax _ _ n _
      rw [← bind_pure n]
      exact hy.bind sy sboth fun a _ ha =>
        skip sn (fun _ => .oneOf ..) fun _ => oneOf span ⟨a, by simp, ha, .inl hl⟩

theorem arrayOf {items : List Shape} {isKnown : Bool} {ds : List Datum} (span : Span)
    (h : Shape.DescribesItems lax (items, isKnown) ds) :
    Simulates lax E (Check.arrayOf items isKnown span) (Pure.pure (.array ds))
      (Describes lax) := by
  unfold Check.arrayOf
  cases isKnown with
  | true => exact pure ⟨ds, rfl, Shape.describesAll_iff.2 (Shape.describesItems_known.1 h)⟩
  | false =>
    obtain ⟨hl, hd⟩ := Shape.describesItems_open.1 h
    unfold Check.oneOf
    rcases hr : Shape.oneOf? items span with _ | element
    · exact of_error fun _ => List.cons_ne_nil _ _
    · refine pure ⟨hl, ds, rfl, fun d hm => ?_⟩
      obtain ⟨shape, hs, h⟩ := hd d hm
      exact Shape.oneOf?_describes hr hs h (.inl hl)

/-- An index that exceeds its bound where the check has met one that does or may. -/
theorem exceeds {e : Event} {cause : EvalCause} (span : Span) (hl : lax)
    (hc : cause = .arrayBounds ∨ cause = .textBounds)
    (he : e.mayExceed = true ∨ e.isOutside = true) :
    Simulates lax (.one e) m (Eval.fail cause span : EvalM β) R :=
  fun _ _ _ _ _ => ⟨_, .fail cause span, hl, hc, e, List.mem_singleton_self _, he⟩

theorem get_bind {f : Check.State → CheckM α} {k : Scope → EvalM β}
    (h : ∀ σ ρ, Related lax σ ρ → Simulates lax E (f σ) (k ρ) R) :
    Simulates lax E (get >>= f) (get >>= k) R := fun σ ρ hσ he hE => h σ ρ hσ σ ρ hσ he hE

/-- The frames of a call are related, and the depth grows on both sides. -/
theorem inside {frames : List ShapeFrame} {gs : List Frame} (hf : DescribesFrames lax frames gs)
    (h : Simulates lax E m n R) :
    Simulates lax (fun s => E { s with frames := frames, depth := s.depth + 1 })
      (Check.inside frames m) (Eval.inside gs n) R := by
  intro σ ρ hσ he hE
  obtain ⟨r, hr, ha⟩ := h { σ with frames := frames, depth := σ.depth + 1 }
    { ρ with frames := gs, depth := ρ.depth + 1 }
    ⟨hσ.globals, hf, congrArg (· + 1) hσ.depth, hσ.calls⟩ he hE
  exact ⟨r, hr.inside, ha⟩

end Simulates

end TypedConfig
