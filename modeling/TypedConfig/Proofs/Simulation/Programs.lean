import TypedConfig.Check
import TypedConfig.Proofs.Check.Match
import TypedConfig.Proofs.Simulation.Statements

/-! # Checked programs

A program that is checked ends with a shape for the root binding that conforms to its type. Its
evaluation ends with a datum that the shape describes, or stops at an index out of bounds.
-/

namespace TypedConfig

open Shape (Describes)

namespace CheckError

theorem dropRepeats_eq_nil {es : List CheckError} : dropRepeats es = [] ↔ es = [] := by
  induction es using dropRepeats.induct with
  | case1 => simp [dropRepeats]
  | case2 => simp [dropRepeats]
  | case3 e es ih => simpa [dropRepeats] using ih
  | case4 e f es hne ih => simp [dropRepeats, hne]

/-- No error is lost when errors are arranged. -/
theorem arrange_eq_nil {es : List CheckError} : arrange es = [] ↔ es = [] := by
  rw [arrange, dropRepeats_eq_nil, ← List.length_eq_zero_iff, List.length_mergeSort,
    List.length_eq_zero_iff]

end CheckError

namespace Program

variable {lax : Prop} {limits : Limits} {schema : Schema} {program : Program}
  {checked : CheckedProgram}

def checkState (limits : Limits) (schema : Schema) (program : Program) : Check.State :=
  Check.after (Check.statements limits schema program.statements) (Check.initial schema)

/-- What came of each assignment of the root binding in a check. -/
def assignments (limits : Limits) (schema : Schema) (program : Program) :
    List (List Resolution) :=
  Check.value (Check.statements limits schema program.statements) (Check.initial schema)

/-- The shape that is bound to the root at the end of a check. -/
def rootShape? (limits : Limits) (schema : Schema) (program : Program) : Option Shape :=
  (Entries.get? (program.checkState limits schema).globals schema.root.name).map
    Check.Binding.shape

/-- A check succeeds if it finds no error and the root binding is assigned. -/
theorem check_eq_ok_iff :
    program.check limits schema = .ok checked ↔
      (program.checkState limits schema).errors = [] ∧ program.assignments limits schema ≠ [] ∧
        checked = ⟨schema, program, (program.assignments limits schema).flatten⟩ := by
  have hnil : CheckError.arrange ((program.checkState limits schema).errors.reverse ++
      if (program.assignments limits schema).isEmpty then
        [Check.unassigned schema.root program.source] else []) = [] ↔
      (program.checkState limits schema).errors = [] ∧ program.assignments limits schema ≠ [] := by
    rw [CheckError.arrange_eq_nil, List.append_eq_nil_iff, List.reverse_eq_nil_iff]
    split <;> simp_all
  obtain ⟨es, hes, hcheck⟩ : ∃ es, (es = [] ↔ (program.checkState limits schema).errors = [] ∧
      program.assignments limits schema ≠ []) ∧ program.check limits schema =
        if es.isEmpty then .ok ⟨schema, program, (program.assignments limits schema).flatten⟩
        else .error ⟨program.source, es⟩ := ⟨_, hnil, rfl⟩
  rw [hcheck, ← and_assoc, ← hes]
  cases es <;> simp [eq_comm]

/-- Programs that assign the same and have errors both or neither are both accepted, with the same
alternatives, or both refused. -/
theorem check_of_errors {p q : Program}
    (hassign : q.assignments limits schema = p.assignments limits schema)
    (herrors : (q.checkState limits schema).errors = [] ↔
      (p.checkState limits schema).errors = []) :
    (∃ rs, p.check limits schema = .ok ⟨schema, p, rs⟩ ∧
      q.check limits schema = .ok ⟨schema, q, rs⟩) ∨
    ∃ e e', p.check limits schema = .error e ∧ q.check limits schema = .error e' := by
  -- A check that passes gives its program and the assignments, so one of the two checks passes
  -- if and only if the other does.
  have hok : p.check limits schema = .ok ⟨schema, p, (p.assignments limits schema).flatten⟩ ↔
      q.check limits schema = .ok ⟨schema, q, (p.assignments limits schema).flatten⟩ := by
    rw [check_eq_ok_iff, check_eq_ok_iff, herrors, hassign]
    simp
  have hany {r : Program} {c : CheckedProgram} (hr : r.check limits schema = .ok c) :
      r.check limits schema = .ok ⟨schema, r, (r.assignments limits schema).flatten⟩ :=
    hr.trans (congrArg Except.ok (check_eq_ok_iff.1 hr).2.2)
  cases hp : p.check limits schema with
  | ok c => exact .inl ⟨_, hp.symm.trans (hany hp), hok.1 (hany hp)⟩
  | error e =>
    cases hq : q.check limits schema with
    | ok c =>
      have hp' := hok.2 (hassign ▸ hany hq)
      rw [hp] at hp'
      cases hp'
    | error e' => exact .inr ⟨e, e', rfl, rfl⟩

theorem evaluate_of_run {resolutions : List Resolution} {r : Except Fault Unit × Eval.Scope}
    (h : (Eval.statements limits schema.root.name program.statements).run
      (Eval.initial schema) = r) :
    CheckedProgram.evaluate limits ⟨schema, program, resolutions⟩ =
      match r.1 with
      | .error f => .error (.ofFault program.source f)
      | .ok () => (((Entries.get? r.2.globals schema.root.name).getD .undefined).toValue
          schema.root.name).mapError .unserializable := h ▸ rfl

/-- How the evaluation of a checked program ends. -/
theorem evaluate_of_check (hc : program.check limits schema = .ok checked)
    (hE : ∀ e ∈ program.checkEvents limits schema, e.Admitted lax) :
    (∃ shape d, program.rootShape? limits schema = some shape ∧ Describes lax shape d ∧
      (Match.conform schema schema.root.type shape schema.root.name).errors = [] ∧
      checked.evaluate limits = (d.toValue schema.root.name).mapError .unserializable) ∨
    ∃ f, checked.evaluate limits = .error (.ofFault program.source f) ∧ lax ∧ f.IsBounds ∧
      ∃ e ∈ program.checkEvents limits schema, e.mayExceed = true ∨ e.isOutside = true := by
  obtain ⟨he, ha, rfl⟩ := check_eq_ok_iff.1 hc
  obtain ⟨ρ, hρ, hf⟩ | ⟨f, ρ, hρ, hl, hb, hx⟩ :=
    (follows_initial lax schema).run program.statements he hE
  · obtain ⟨b, hb, hconf⟩ := hf.root
    have hg := hf.related.globals schema.root.name
    rw [hb] at hg
    obtain ⟨d, hd, hdesc⟩ : ∃ d, Entries.get? ρ.globals schema.root.name = some d ∧
        Describes lax b.shape d := by
      generalize Entries.get? ρ.globals schema.root.name = d at hg
      cases hg with
      | some hd => exact ⟨_, rfl, hd⟩
    refine .inl ⟨b.shape, d, ?_, hdesc, hconf (.inr ha), ?_⟩
    · rw [rootShape?, checkState, hb]
      rfl
    · rw [evaluate_of_run hρ, hd]
      rfl
  · exact .inr ⟨f, evaluate_of_run hρ, hl, hb, hx⟩

/-- Where the check is sound everywhere it admits all that it meets on a lax reading. -/
theorem admitted_of_sound (hc : program.check limits schema = .ok checked)
    (hs : ∀ e ∈ program.checkEvents limits schema, e.isSound = true) :
    ∀ e ∈ program.checkEvents limits schema, e.Admitted True := by
  obtain ⟨he, -, -⟩ := check_eq_ok_iff.1 hc
  have hclear := Check.statements_known program.statements (Check.initial_known schema) he
    fun e hm => Check.Event.isReported_of_isSound (hs e hm)
  exact fun e hm => ⟨fun _ => hs e hm, fun _ => hclear e hm, fun h => absurd trivial h⟩

/-- Where the check is definite everywhere it admits all that it meets on a strict reading. -/
theorem admitted_of_definite
    (hd : ∀ e ∈ program.checkEvents limits schema, e.isDefinite = true) :
    ∀ e ∈ program.checkEvents limits schema, e.Admitted False :=
  fun e hm => ⟨False.elim, False.elim, fun _ => hd e hm⟩

end Program

end TypedConfig
