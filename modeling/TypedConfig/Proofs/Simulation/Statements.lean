import TypedConfig.Proofs.Check.Statements
import TypedConfig.Proofs.Simulation.Expressions

/-! # Statements and programs

After each statement the names are bound to shapes and to data that they describe, and once the
root binding has been assigned, its shape has been accepted by the root type. A program that is
checked therefore comes to its end with a described datum, or stops at an index out of bounds.
-/

namespace TypedConfig

open Shape (Describes)
open Check (Event Step)
open Eval (EvalM Scope Gives)

variable {lax : Prop} {limits : Limits} {schema : Schema} {σ τ : Check.State} {ρ : Scope}

/-- States after the same statements: names and roles agree, and a root binding that has been
assigned conforms to its type. -/
structure Follows (lax : Prop) (schema : Schema) (assigned : Prop) (σ : Check.State)
    (ρ : Scope) : Prop where
  related : Related lax σ ρ
  roles : ∀ name, σ.role? name = some .root ↔ name = schema.root.name
  root : ∃ b, Entries.get? σ.globals schema.root.name = some b ∧
    (assigned →
      (Match.conform schema schema.root.type b.shape schema.root.name).errors = [])

theorem Related.at (h : Related lax σ ρ) (context : String) : Related lax (σ.at context) ρ :=
  ⟨h.globals, h.frames, h.depth, h.calls⟩

theorem Related.put (h : Related lax σ ρ) (name : String) {b : Check.Binding} {d : Datum}
    (hd : Describes lax b.shape d) :
    Related lax (σ.put name b) { ρ with globals := Entries.put ρ.globals name d } where
  globals other := by
    show Option.Rel _ (Entries.get? (Entries.put σ.globals name b) other)
      (Entries.get? (Entries.put ρ.globals name d) other)
    rw [Entries.get?_put, Entries.get?_put]
    split
    · exact .some hd
    · exact h.globals other
  frames := h.frames
  depth := h.depth
  calls := h.calls

theorem Check.State.role?_put (σ : Check.State) (name : String) (b : Check.Binding)
    (other : String) :
    (σ.put name b).role? other = if name = other then some b.role else σ.role? other := by
  unfold Check.State.role?
  show (Entries.get? (Entries.put σ.globals name b) other).map _ = _
  rw [Entries.get?_put]
  split <;> rfl

namespace Follows

variable {assigned assigned' : Prop}

/-- Nothing has been bound. -/
theorem of_globals (h : Follows lax schema assigned σ ρ) (hg : τ.globals = σ.globals)
    (hr : Related lax τ ρ) (ha : assigned' → assigned) : Follows lax schema assigned' τ ρ where
  related := hr
  roles name := by
    rw [Check.State.role?, hg]
    exact h.roles name
  root := by
    rw [hg]
    obtain ⟨b, hb, hc⟩ := h.root
    exact ⟨b, hb, hc ∘ ha⟩

/-- Another name than the root's has been bound. -/
theorem put_other (h : Follows lax schema assigned σ ρ) {name : String} {b : Check.Binding}
    {d : Datum} (hd : Describes lax b.shape d) (hn : name ≠ schema.root.name)
    (hb : b.role ≠ .root) :
    Follows lax schema assigned (σ.put name b)
      { ρ with globals := Entries.put ρ.globals name d } where
  related := h.related.put name hd
  roles other := by
    rw [Check.State.role?_put]
    split
    · rename_i ho
      subst ho
      simpa using ⟨fun hr => absurd hr hb, fun hr => absurd hr hn⟩
    · exact h.roles other
  root := by
    obtain ⟨root, hroot, hc⟩ := h.root
    refine ⟨root, ?_, hc⟩
    show Entries.get? (Entries.put σ.globals name b) schema.root.name = _
    rw [Entries.get?_put, if_neg hn, hroot]

/-- The root binding has been bound to a shape that conforms. -/
theorem put_root (h : Follows lax schema assigned σ ρ) {shape : Shape} {d : Datum}
    (hd : Describes lax shape d)
    (hc : (Match.conform schema schema.root.type shape schema.root.name).errors = []) :
    Follows lax schema assigned' (σ.put schema.root.name ⟨.root, shape⟩)
      { ρ with globals := Entries.put ρ.globals schema.root.name d } where
  related := h.related.put schema.root.name hd
  roles other := by
    rw [Check.State.role?_put]
    split
    · rename_i ho
      simpa using ho.symm
    · exact h.roles other
  root := by
    refine ⟨⟨.root, shape⟩, ?_, fun _ => hc⟩
    show Entries.get? (Entries.put σ.globals schema.root.name _) schema.root.name = _
    rw [Entries.get?_put, if_pos rfl]

end Follows

/-- How a run of statements ends: with states that agree again, or at an index out of bounds. -/
def Ends (lax : Prop) (es : List Event) (agree : Scope → Prop) (n : EvalM Unit)
    (ρ : Scope) : Prop :=
  (∃ ρ', n.run ρ = (.ok (), ρ') ∧ agree ρ') ∨
    ∃ f ρ', n.run ρ = (.error f, ρ') ∧ lax ∧ f.IsBounds ∧
      ∃ e ∈ es, e.mayExceed = true ∨ e.isOutside = true

/-- A statement that begins with an expression. -/
theorem ends_bind {es : List Event} {agree : Scope → Prop} {value : Expr} {shape : Shape}
    {r : Except Fault Datum} {k : Datum → EvalM Unit} (hr : Gives (Eval.datumOf limits value) ρ r)
    (ha : Agrees lax es (Describes lax) shape r)
    (hk : ∀ d, Describes lax shape d → ∃ ρ', (k d).run ρ = (.ok (), ρ') ∧ agree ρ') :
    Ends lax es agree (Eval.datumOf limits value >>= k) ρ := by
  cases r with
  | error f => exact .inr ⟨f, ρ, hr.bind_error, ha⟩
  | ok d =>
    obtain ⟨ρ', hρ, h⟩ := hk d ha
    exact .inl ⟨ρ', (Eval.run_bind hr k).trans hρ, h⟩

theorem contains_of_role? (h : Related lax σ ρ) {name : String} {role : Check.Role}
    (hr : σ.role? name = some role) : Entries.contains ρ.globals name = true := by
  have hg := h.globals name
  obtain ⟨b, hb, -⟩ := Option.map_eq_some_iff.1 hr
  rw [hb] at hg
  unfold Entries.contains
  generalize Entries.get? ρ.globals name = d at hg
  cases hg
  rfl

theorem run_assign {name : String} (hc : Entries.contains ρ.globals name = true) (d : Datum)
    (span : Span) :
    (show EvalM Unit from do
      if Entries.contains (← get).globals name then Eval.bindName name d
      else Eval.fail (.undeclared name) span).run ρ =
    (.ok (), { ρ with globals := Entries.put ρ.globals name d }) := by
  show (if Entries.contains ρ.globals name = true then Eval.bindName name d
    else Eval.fail (.undeclared name) span).run ρ = _
  rw [if_pos hc]
  rfl

/-- A statement that gives a name a value evaluates it and binds the name. -/
theorem Eval.statement_of_assignment? (limits : Limits) (ρ : Scope) {root : String}
    {s : Statement} {name : Ident} {value : Expr}
    (hs : Check.assignment? s = some (name, value))
    (hdeclare : ∀ kind init span, s = .declare kind name init span →
      name.name = root → kind = .var)
    (hassign : ∀ span, s = .assign name value span →
      Entries.contains ρ.globals name.name = true) :
    ∃ k : Datum → EvalM Unit, Eval.statement limits root s = Eval.datumOf limits value >>= k ∧
      ∀ d, (k d).run ρ = (.ok (), { ρ with globals := Entries.put ρ.globals name.name d }) := by
  cases s with
  | expression => cases hs
  | declare kind name' init span =>
    obtain ⟨_, rfl, hname⟩ := Option.map_eq_some_iff.1 hs
    cases hname
    refine ⟨_, rfl, fun d => ?_⟩
    rw [if_neg fun hk => hk.2 (hdeclare kind _ span rfl hk.1)]
    rfl
  | assign target value' span =>
    cases hs
    exact ⟨_, rfl, fun d => run_assign (hassign span rfl) d _⟩

/-- The value of a statement. -/
theorem Follows.value {assigned : Prop} (h : Follows lax schema assigned σ ρ) {e : Expr}
    {context : String}
    (he : (Check.after (Check.shapeOf limits e) (σ.at context)).errors = [])
    (hE : ∀ f ∈ Check.shapeEvents limits e (σ.at context), f.Admitted lax) :
    (∃ r, Gives (Eval.datumOf limits e) ρ r ∧
      Agrees lax (Check.shapeEvents limits e (σ.at context)) (Describes lax)
        (Check.value (Check.shapeOf limits e) (σ.at context)) r) ∧
    Follows lax schema assigned (Check.after (Check.shapeOf limits e) (σ.at context)) ρ := by
  have hat := h.related.at context
  have hsteady := Check.steady_shapeOf limits e
  exact ⟨simulates_shapeOf limits e _ ρ hat he hE,
    h.of_globals (hsteady.globals _) (hat.after hsteady he) id⟩

/-- One statement. -/
theorem Follows.step {assigned : Prop} {s : Statement} {es : List Event}
    {r : Option (List Resolution)} (h : Follows lax schema assigned σ ρ)
    (hs : Step limits schema σ s es r τ) (he : τ.errors = [])
    (hE : ∀ e ∈ es, e.Admitted lax) :
    Ends lax es (Follows lax schema (assigned ∨ r.isSome = true) τ)
      (Eval.statement limits schema.root.name s) ρ := by
  have hnone : assigned ∨ (none : Option (List Resolution)).isSome = true → assigned := by simp
  cases hs with
  | look value =>
    obtain ⟨⟨r, hr, ha⟩, hafter⟩ := h.value he hE
    exact ends_bind hr ha fun d _ => ⟨ρ, rfl, hafter.of_globals rfl hafter.related hnone⟩
  | keep kind name span hr =>
    refine .inl ⟨ρ, ?_, h.of_globals rfl (h.related.at _) hnone⟩
    rw [Eval.statement, if_pos ((h.roles _).1 hr)]
    rfl
  | declare kind name span hr =>
    have hn : name.name ≠ schema.root.name := fun hn => hr ((h.roles _).2 hn)
    have hat : Follows lax schema _ (σ.at name.name) ρ :=
      h.of_globals rfl (h.related.at name.name) hnone
    refine .inl ⟨_, ?_, hat.put_other (b := ⟨.declared kind, .undefined name.span⟩)
      (d := .undefined) rfl hn (by simp)⟩
    rw [Eval.statement, if_neg hn]
    rfl
  | bind s name value role hs hr hrole hassign =>
    have hn : name.name ≠ schema.root.name := fun hn => hr ((h.roles _).2 hn)
    obtain ⟨⟨r, hgives, ha⟩, hafter⟩ := h.value he hE
    obtain ⟨k, hk, hrun⟩ := Eval.statement_of_assignment? limits ρ hs
      (fun _ _ _ _ hroot => absurd hroot hn)
      fun span hs => contains_of_role? h.related (hassign span hs)
    rw [hk]
    exact ends_bind hgives ha fun d hd => ⟨_, hrun d,
      (hafter.of_globals rfl hafter.related hnone).put_other (b := ⟨role, _⟩) hd hn hrole⟩
  | root s name value resolutions hs hr hkind hconf =>
    obtain hn := (h.roles _).1 hr
    obtain ⟨⟨r, hgives, ha⟩, hafter⟩ := h.value he hE
    obtain ⟨k, hk, hrun⟩ := Eval.statement_of_assignment? limits ρ hs
      (fun kind init span hs _ => hkind kind init span hs)
      fun _ _ => contains_of_role? h.related hr
    rw [hn] at hrun
    rw [hk]
    exact ends_bind hgives ha fun d hd => ⟨_, hrun d, hafter.put_root hd hconf⟩

/-- Statements in turn. -/
theorem Follows.run {assigned : Prop} (ss : List Statement) (h : Follows lax schema assigned σ ρ)
    (he : (Check.after (Check.statements limits schema ss) σ).errors = [])
    (hE : ∀ e ∈ Check.statementsEvents limits schema ss σ, e.Admitted lax) :
    Ends lax (Check.statementsEvents limits schema ss σ)
      (Follows lax schema (assigned ∨ Check.value (Check.statements limits schema ss) σ ≠ [])
        (Check.after (Check.statements limits schema ss) σ))
      (Eval.statements limits schema.root.name ss) ρ := by
  induction ss generalizing assigned σ ρ with
  | nil => exact .inl ⟨ρ, rfl, h.of_globals rfl h.related (by simp [Check.statements])⟩
  | cons s rest ih =>
    have he' : (Check.after (Check.statements limits schema rest)
      (Check.after (Check.statement limits schema s) σ)).errors = [] := he
    have hfirst := (Check.addsErrors_statements rest).errors_nil he'
    obtain ⟨ρ', hρ, hf⟩ | ⟨f, ρ', hρ, hl, hb, e, hm, hx⟩ := h.step (Check.statement_step hfirst)
      hfirst fun e hm => hE e (List.mem_append_left _ hm)
    · obtain ⟨ρ'', hρ', hf'⟩ | ⟨f, ρ'', hρ', hl, hb, e, hm, hx⟩ := ih hf he' fun e hm =>
        hE e (List.mem_append_right _ hm)
      · refine .inl ⟨ρ'', (Eval.run_bind hρ _).trans hρ', hf'.of_globals rfl hf'.related ?_⟩
        have hv : Check.value (Check.statements limits schema (s :: rest)) σ =
            (Check.value (Check.statement limits schema s) σ).toList ++
              Check.value (Check.statements limits schema rest)
                (Check.after (Check.statement limits schema s) σ) := rfl
        rintro (ha | hne)
        · exact .inl (.inl ha)
        · rw [hv] at hne
          generalize Check.value (Check.statement limits schema s) σ = first at hne ⊢
          cases first with
          | none => exact .inr hne
          | some => exact .inl (.inr rfl)
      · exact .inr ⟨f, ρ'', (Eval.run_bind hρ _).trans hρ', hl, hb, e,
          List.mem_append_right _ hm, hx⟩
    · exact .inr ⟨f, ρ', Eval.run_bind_error hρ _, hl, hb, e, List.mem_append_left _ hm, hx⟩

theorem putAll_rel {α β γ : Type} {R : α → β → Prop} (f : γ → String) (a : γ → α) (b : γ → β)
    (hR : ∀ c, R (a c) (b c)) (cs : List γ) {es : Entries α} {fs : Entries β}
    (h : ∀ name, Option.Rel R (Entries.get? es name) (Entries.get? fs name)) (name : String) :
    Option.Rel R (Entries.get? (Entries.putAll es (cs.map fun c => (f c, a c))) name)
      (Entries.get? (Entries.putAll fs (cs.map fun c => (f c, b c))) name) := by
  induction cs generalizing es fs with
  | nil => exact h name
  | cons c cs ih =>
    refine ih fun other => ?_
    rw [Entries.get?_put, Entries.get?_put]
    split
    · exact .some (hR c)
    · exact h other

/-- Before the first statement the constants and the undefined root binding agree. -/
theorem follows_initial (lax : Prop) (schema : Schema) :
    Follows lax schema False (Check.initial schema) (Eval.initial schema) where
  related :=
    { globals := by
        intro name
        show Option.Rel _ (Entries.get? (Entries.put _ _ _) _) (Entries.get? (Entries.put _ _ _) _)
        rw [Entries.get?_put, Entries.get?_put]
        split
        · exact .some rfl
        · refine putAll_rel (R := fun (b : Check.Binding) d => Describes lax b.shape d) _ _ _
            (fun c => ?_) schema.constants (fun _ => .none) name
          exact rfl
      frames := rfl
      depth := rfl
      calls := Nat.zero_le _ }
  roles name := by
    show ((Entries.get? (Entries.put _ _ _) _).map Check.Binding.role = _) ↔ _
    rw [Entries.get?_put]
    split
    · rename_i hn
      simpa using hn.symm
    · rename_i hn
      refine iff_of_false (fun hr => ?_) (Ne.symm hn)
      obtain ⟨b, hb, hr⟩ := Option.map_eq_some_iff.1 hr
      refine Entries.forall_putAll (P := fun b : Check.Binding => b.role ≠ .root) (by simp) ?_ _
        (Entries.mem_of_get? hb) hr
      intro e he
      obtain ⟨c, -, rfl⟩ := List.mem_map.1 he
      exact nofun
  root := ⟨⟨.root, .undefined default⟩, by
    show Entries.get? (Entries.put _ _ _) _ = _
    rw [Entries.get?_put, if_pos rfl], nofun⟩

end TypedConfig
