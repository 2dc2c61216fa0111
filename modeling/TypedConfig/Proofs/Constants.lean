import TypedConfig.Compile
import TypedConfig.Proofs.Constants.Evals
import TypedConfig.Proofs.Constants.Programs
import TypedConfig.Proofs.Order.Loads

/-! # Constants are their literals

A program and the program with a constant of the schema written out have the same document or
fail in the same stage, unless the check refuses the constant as an operand. The check refuses a
constant that stands for a number as an index, behind a minus and beside an operator on numbers.
-/

namespace TypedConfig

variable {schema : Schema} {d : ConstantDeclaration} {p : Program}

/-- The document of a program that has been parsed. -/
def Program.document (layout : Layout) (schema : Schema) (p : Program) :
    Except CompileError String := do
  let checked ← (p.check layout.limits schema).mapError .check
  let value ← (checked.evaluate layout.limits).mapError .evaluate
  (layout.emit schema.root.name value).mapError .emit

theorem compile_eq (layout : Layout) (schema : Schema) (source : Source) :
    compile layout schema source =
      (Program.parse layout.limits source).mapError .parse >>= Program.document layout schema := by
  unfold compile checkSource
  rw [bind_assoc]
  rfl

namespace Program

theorem document_of_check {layout : Layout} {rs : List Resolution}
    (h : p.check layout.limits schema = .ok ⟨schema, p, rs⟩) :
    p.document layout schema =
      ((CheckedProgram.evaluate layout.limits ⟨schema, p, rs⟩).mapError .evaluate >>= fun v =>
        (layout.emit schema.root.name v).mapError .emit) := by
  rw [document, h]
  rfl

/-- Under every schema that loads and in every layout, a program and the program with a constant
written out have the same document or fail in the same stage, unless the program is refused for
the constant as an operand. -/
theorem document_inlined {limits : Limits} {sources : List Source}
    (hload : Schema.load limits sources = .ok schema) (hc : d ∈ schema.constants)
    (hroot : d.name ≠ schema.root.name) (layout : Layout) (p : Program) :
    ((p.inlined d.sentinel).document layout schema).mapError CompileError.stage =
        (p.document layout schema).mapError CompileError.stage ∨
      p.RefusesOperand layout.limits schema d.sentinel := by
  have hd := Schema.uniqueConstants_of_load hload
  obtain hrefuses | ⟨rs, hp, hq, htargets⟩ | ⟨e, e', hp, hq⟩ :=
    check_inlined layout.limits hd hc hroot.symm p
  · exact .inr hrefuses
  · refine .inl ?_
    rw [document_of_check hp, document_of_check hq]
    have hvalue := evaluate_inlined layout.limits hd hc hroot.symm htargets rs rs
    generalize CheckedProgram.evaluate layout.limits ⟨schema, p, rs⟩ = x at hvalue ⊢
    generalize CheckedProgram.evaluate layout.limits ⟨schema, p.inlined d.sentinel, rs⟩ = y
      at hvalue ⊢
    match x, y, hvalue with
    | .error _, .error _, _ => rfl
    | .ok v, .ok w, hvalue =>
      obtain rfl : w = v.inlined d.sentinel := Option.some.inj hvalue
      show ((layout.emit schema.root.name (v.inlined d.sentinel)).mapError _).mapError _ = _
      rw [Layout.emit_inlined]
      rfl
  · refine .inl ?_
    rw [document, document, hp, hq]
    rfl

def queueSource : Source :=
  ⟨"steps.d.ts", "declare const queue = \"prod\"; declare var steps: string[];"⟩

def queue : ConstantDeclaration := ⟨"queue", .string "prod", ⟨14, 19⟩⟩

def queueSchema : Schema where
  types := []
  constants := [queue]
  root := ⟨"steps", .sequence (.scalar .string) false, "steps.d.ts", ⟨42, 47⟩⟩

/-- A program with a free name of the constant and one that an arrow binds. -/
def queueText : Source :=
  ⟨"steps.ts", "steps = [`to ${queue}`, ((queue) => queue + \"!\")(\"dev\")];"⟩

def queueProgram : Program where
  source := queueText
  imports := []
  statements := [
    .assign ⟨"steps", ⟨0, 5⟩⟩
      (.array ⟨8, 56⟩ [
        .item (.template ⟨9, 22⟩ [.text "to ", .hole (.name ⟨15, 20⟩ "queue")]),
        .item (.call ⟨24, 55⟩
          (.arrow ⟨24, 48⟩ [⟨"queue", ⟨26, 31⟩⟩]
            (.binary ⟨36, 47⟩ .add (.name ⟨36, 41⟩ "queue") (.string ⟨44, 47⟩ "!")))
          [.string ⟨49, 54⟩ "dev"])])
      ⟨0, 56⟩]

set_option maxRecDepth 1024 in
theorem load_queue : Schema.load .standard [queueSource] = .ok queueSchema := by cbv

set_option maxRecDepth 1024 in
theorem check_queue :
    queueProgram.check .standard queueSchema = .ok ⟨queueSchema, queueProgram, []⟩ := by cbv

theorem evaluate_queue : CheckedProgram.evaluate .standard ⟨queueSchema, queueProgram, []⟩ =
    .ok (.sequence [.scalar (.string "to prod"), .scalar (.string "dev!")]) := by cbv

theorem document_inlined_queue :
    Schema.load .standard [queueSource] = .ok queueSchema ∧
      queue ∈ queueSchema.constants ∧ queue.name ≠ queueSchema.root.name ∧
      Program.parse .standard queueText = .ok queueProgram ∧
      ((queueProgram.inlined queue.sentinel).document ⟨.json, false, .standard⟩
        queueSchema).mapError CompileError.stage =
          .ok "[\n  \"to prod\",\n  \"dev!\"\n]\n" := by
  have hparse : Program.parse .standard queueText = .ok queueProgram := by cbv
  have hemit : Layout.emit ⟨.json, false, .standard⟩ "steps"
      (.sequence [.scalar (.string "to prod"), .scalar (.string "dev!")]) =
        .ok "[\n  \"to prod\",\n  \"dev!\"\n]\n" := by cbv
  have hdocument : queueProgram.document ⟨.json, false, .standard⟩ queueSchema =
      .ok "[\n  \"to prod\",\n  \"dev!\"\n]\n" := by
    rw [document_of_check check_queue, evaluate_queue]
    exact congrArg (Except.mapError CompileError.emit) hemit
  have hroot : queue.name ≠ queueSchema.root.name := by decide
  refine ⟨load_queue, .head _, hroot, hparse, ?_⟩
  obtain hsame | ⟨-, e, he, -⟩ :=
    document_inlined load_queue (.head _) hroot ⟨.json, false, .standard⟩ queueProgram
  · rw [hsame, hdocument]
    rfl
  · cases check_queue.symm.trans he

end Program

end TypedConfig
