import TypedConfig.Proofs.Constants.Checks
import TypedConfig.Proofs.Places.Checks

/-! # Programs with a constant written out

No statement gives the name of a constant another value without an error. So a program and the
program with a constant of the schema written out are both refused by a check or both accepted,
unless the program is refused for the constant as an operand.
-/

namespace TypedConfig

variable {c : Sentinel} {limits : Limits} {schema : Schema}

namespace Check

theorem inlines_shapeOf (e : Expr) :
    Inlines c [] (Shape.inlined c) (shapeOf limits e) (shapeOf limits (e.inlined c false)) :=
  inlines_infer (inlinesCalls_call limits.maxDepth limits.maxDepth) e

theorem inlines_setContext (context : String) :
    Inlines c [] id (setContext context) (setContext context) :=
  .modify (fun _ => List.suffix_rfl) fun _ _ hs => { hs with }

theorem inlines_bindName {name : String} (hname : name ≠ c.name) (b : Binding) :
    Inlines c [] id (bindName name b) (bindName name (b.inlined c)) := by
  refine .modify (fun _ => List.suffix_rfl) fun s s' hs => { hs with
    constant := ?_, role := ?_, globals := fun other hother => ?_ }
  · rw [Entries.get?_put, if_neg hname, hs.constant]
  · rw [Entries.get?_put, if_neg hname, hs.role]
  · rw [Entries.get?_put, Entries.get?_put, hs.globals other hother]
    split <;> rfl

theorem State.Inlines.role? {s s' : State} (h : s.Inlines c [] s') (name : String) :
    s'.role? name = s.role? name := by
  by_cases hname : name = c.name
  · subst hname
    exact h.role.trans (congrArg (Option.map Binding.role) h.constant).symm
  · rw [State.role?, h.globals name hname, Option.map_map]
    rfl

theorem inlines_assignRoot (hroot : schema.root.name ≠ c.name) (value : Expr) :
    Inlines c [] id (assignRoot limits schema value)
      (assignRoot limits schema (value.inlined c false)) := by
  refine .after (inlines_setContext _) fun _ => (inlines_shapeOf value).bind fun shape => ?_
  have halike := Match.alike_conform (c := c) schema schema.root.type shape schema.root.name
  refine .after (.modify (fun _ => List.suffix_append ..) fun s s' hs => { hs with
    errors := ?_ }) fun _ => .after (inlines_bindName hroot ⟨.root, shape⟩) fun _ =>
      .pure halike.resolutions
  simp [halike.errors, hs.errors]

/-- What goes by the role of a name, which is a constant if the name is that of the constant. -/
theorem Inlines.byRole {α : Type} {name : String} {k k' : Option Role → CheckM α}
    (hgrows : AddsErrors (do setContext name; let role ← roleOf? name; k role))
    (hk : ∀ role, (name = c.name → role = some .constant) → Inlines c [] id (k role) (k' role)) :
    Inlines c [] id (do setContext name; let role ← roleOf? name; k role)
      (do setContext name; let role ← roleOf? name; k' role) := by
  refine ⟨hgrows, fun s s' hs => ?_⟩
  have hat : State.Inlines c [] (s.at name) (s'.at name) := { hs with }
  have hrun := (hk (s.role? name) fun hname => ?_).run _ _ hat
  · simpa only [value_bind, after_bind, after_setContext, value_roleOf?, after_roleOf?, role?_at,
      hs.role? name] using hrun
  · subst hname
    exact congrArg (Option.map Binding.role) hs.constant

theorem inlines_statement (hroot : schema.root.name ≠ c.name) (s : Statement) :
    Inlines c [] id (statement limits schema s) (statement limits schema (s.inlined c)) := by
  have hreport (expected found : String) (span : Span) {r : Option (List Resolution)} :
      Inlines c [] id (do report expected found span; return r)
        (do report expected found span; return r) :=
    .after (.report ..) fun _ => .pure rfl
  have hbind {name : String} (hname : name ≠ c.name) (b : Binding)
      {r : Option (List Resolution)} :
      Inlines c [] id (do bindName name b; return r) (do bindName name (b.inlined c); return r) :=
    .after (inlines_bindName hname b) fun _ => .pure rfl
  have hassign (value : Expr) : Inlines c [] id (some <$> assignRoot limits schema value)
      (some <$> assignRoot limits schema (value.inlined c false)) :=
    .after (inlines_assignRoot hroot value) fun rs => .pure (a := some rs) (b := some rs) rfl
  cases s with
  | expression value =>
    exact .after (inlines_setContext _) fun _ => (inlines_shapeOf value).bind fun _ => .pure rfl
  | declare kind name init span =>
    refine .byRole (addsErrors_statement (.declare kind name init span)) fun role hrole => ?_
    cases hd : redeclared? kind name.name role with
    | some e => exact hreport ..
    | none =>
      have hname : name.name ≠ c.name := fun h => by
        rw [hrole h] at hd
        cases hd
      match role, init with
      | some .root, some value => exact hassign value
      | some .root, none => exact .pure rfl
      | none, some value | some .constant, some value | some (.declared _), some value =>
        exact (inlines_shapeOf value).bind fun shape => hbind hname ⟨_, shape⟩
      | none, none | some .constant, none | some (.declared _), none =>
        exact hbind hname ⟨_, .undefined name.span⟩
  | assign target value span =>
    refine .byRole (addsErrors_statement (.assign target value span)) fun role hrole => ?_
    split
    · exact hassign value
    · refine (inlines_shapeOf value).bind fun shape => ?_
      split
      · exact hreport ..
      · rename_i role hassigned
        refine hbind (fun h => ?_) ⟨_, shape⟩
        rw [hrole h] at hassigned
        cases hassigned
      · exact .pure rfl

theorem inlines_statements (hroot : schema.root.name ≠ c.name) (ss : List Statement) :
    Inlines c [] id (statements limits schema ss)
      (statements limits schema (ss.map (.inlined c))) := by
  induction ss with
  | nil => exact .pure rfl
  | cons s rest ih =>
    exact .after (inlines_statement hroot s) fun _ => .after ih fun _ => .pure rfl

/-- What is checked without errors gives the name of the constant no other value. -/
theorem target_ne_of_checked {name : Ident} {s : Statement} {σ : State}
    (he : (after (statement limits schema s) σ).errors = []) (ht : s.target? = some name) :
    σ.role? name.name ≠ some .constant := by
  intro hrole
  cases s with
  | expression value => cases ht
  | declare kind target init span =>
    cases ht
    simp only [statement, after_bind, after_setContext, value_roleOf?, after_roleOf?, role?_at,
      hrole] at he
    exact absurd he (List.cons_ne_nil _ _)
  | assign target value span =>
    cases ht
    simp only [statement, after_bind, after_setContext, value_roleOf?, after_roleOf?, role?_at,
      hrole] at he
    exact absurd he (List.cons_ne_nil _ _)

theorem targets_ne_of_checked (hroot : schema.root.name ≠ c.name) {ss : List Statement}
    {σ σ' : State} (hσ : State.Inlines c [] σ σ')
    (he : (after (statements limits schema ss) σ).errors = []) :
    ∀ s ∈ ss, ∀ name, s.target? = some name → name.name ≠ c.name := by
  induction ss generalizing σ σ' with
  | nil => exact nofun
  | cons s rest ih =>
    have he' : (after (statements limits schema rest)
      (after (statement limits schema s) σ)).errors = [] := he
    have hfirst := (addsErrors_statements rest).errors_nil he'
    refine List.forall_mem_cons.2 ⟨fun name ht hname => ?_, ?_⟩
    · exact target_ne_of_checked hfirst ht
        (hname ▸ congrArg (Option.map Binding.role) hσ.constant)
    · obtain ⟨-, e, hmem, -⟩ | ⟨-, hafter⟩ := (inlines_statement hroot s).run σ σ' hσ
      · rw [hfirst] at hmem
        cases hmem
      · exact ih hafter he'

/-- At first the constant is bound as it is, and no other name is bound to it. -/
theorem inlines_initial {d : ConstantDeclaration} (hd : (schema.constants.map (·.name)).Nodup)
    (hc : d ∈ schema.constants) (hroot : schema.root.name ≠ d.name) :
    State.Inlines d.sentinel [] (initial schema) (initial schema) := by
  have hconstant : Entries.get? (initialGlobals schema) d.name =
      some ⟨.constant, .sentinel default d.sentinel⟩ :=
    Schema.get?_bindings_constant (f := fun x => (⟨.constant, .sentinel default x⟩ : Binding)) hd hc
      hroot
  refine ⟨hconstant, congrArg (Option.map Binding.role) hconstant, fun name hname => ?_, rfl, rfl,
    rfl, rfl, .rfl⟩
  change Entries.get? (initialGlobals schema) name =
    (Entries.get? (initialGlobals schema) name).map _
  cases hb : Entries.get? (initialGlobals schema) name with
  | none => rfl
  | some b =>
    obtain rfl | ⟨x, hx, rfl⟩ := Schema.get?_bindings_ne
      (f := fun x => (⟨.constant, .sentinel default x⟩ : Binding)) hd hname hb
    · rfl
    · simp [Binding.inlined, Shape.inlined, hx]

end Check

namespace CheckError

theorem mem_dropRepeats {es : List CheckError} {e : CheckError} (h : e ∈ es) :
    e ∈ dropRepeats es := by
  induction es using dropRepeats.induct with
  | case1 => exact h
  | case2 => exact h
  | case3 f es ih =>
    rw [dropRepeats, if_pos rfl]
    rcases List.mem_cons.1 h with rfl | h
    · exact ih (.head _)
    · exact ih h
  | case4 f g es hne ih =>
    rw [dropRepeats, if_neg hne]
    rcases List.mem_cons.1 h with rfl | h
    · exact .head _
    · exact .tail _ (ih h)

theorem mem_arrange {es : List CheckError} {e : CheckError} (h : e ∈ es) : e ∈ arrange es :=
  mem_dropRepeats (List.mem_mergeSort.2 h)

end CheckError

namespace Program

variable {d : ConstantDeclaration} {p : Program}

/-- A check that refuses a constant as an operand, though it stands for a number. -/
def RefusesOperand (limits : Limits) (schema : Schema) (c : Sentinel) (p : Program) : Prop :=
  c.literal.kind = .number ∧ ∃ failure, p.check limits schema = .error failure ∧
    ∃ e ∈ failure.errors, e.RefusesOperand c

theorem refusesOperand_of_state (h : (p.checkState limits schema).Refuses c) :
    p.RefusesOperand limits schema c := by
  obtain ⟨hnumber, e, he, hrefuses⟩ := h
  have hmem : e ∈ p.checkErrors limits schema :=
    CheckError.mem_arrange (List.mem_append_left _ (List.mem_reverse.2 he))
  refine ⟨hnumber, ⟨p.source, p.checkErrors limits schema⟩, ?_, e, hmem, hrefuses⟩
  rw [check_eq, if_neg]
  rw [List.isEmpty_iff]
  exact List.ne_nil_of_mem hmem

/-- A program is checked as it is with a constant written out, unless it is refused for the
constant as an operand. If it is accepted, it gives the name of the constant no value. -/
theorem check_inlined (limits : Limits) (hd : (schema.constants.map (·.name)).Nodup)
    (hc : d ∈ schema.constants) (hroot : schema.root.name ≠ d.name) (p : Program) :
    p.RefusesOperand limits schema d.sentinel ∨
    (∃ rs, p.check limits schema = .ok ⟨schema, p, rs⟩ ∧
      (p.inlined d.sentinel).check limits schema = .ok ⟨schema, p.inlined d.sentinel, rs⟩ ∧
      ∀ s ∈ p.statements, ∀ name, s.target? = some name → name.name ≠ d.name) ∨
    ∃ e e', p.check limits schema = .error e ∧
      (p.inlined d.sentinel).check limits schema = .error e' := by
  have hinitial := Check.inlines_initial hd hc hroot
  have hruns : Check.Inlines d.sentinel [] id (Check.statements limits schema p.statements) _ :=
    Check.inlines_statements hroot p.statements
  obtain hrefuses | ⟨hassign, hstate⟩ :=
    hruns.run _ _ hinitial
  · exact .inl (refusesOperand_of_state hrefuses)
  · refine .inr ?_
    obtain ⟨rs, hp, hq⟩ | hrefused :=
      check_of_errors (q := p.inlined d.sentinel) hassign hstate.errors
    · exact .inl ⟨rs, hp, hq,
        Check.targets_ne_of_checked hroot hinitial (check_eq_ok_iff.1 hp).1⟩
    · exact .inr hrefused

end Program

end TypedConfig
