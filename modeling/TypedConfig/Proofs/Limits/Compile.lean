import Mathlib
import TypedConfig.Compile
import TypedConfig.Proofs.Limits.Checks
import TypedConfig.Proofs.Limits.Evals
import TypedConfig.Proofs.Limits.Programs
import TypedConfig.Proofs.Limits.Schemas

/-! # Limits only reject

What is loaded or compiled within limits is the same within larger ones: every stage either fails
at a limit or does not depend on it.
-/

namespace TypedConfig

namespace Keeps

variable {ε δ α : Type} {x y : Except ε α}

theorem mapError (f : ε → δ) (h : Keeps x y) : Keeps (x.mapError f) (y.mapError f) := by
  cases x with
  | error e => exact .of_error ..
  | ok a =>
    rw [h.ok a rfl]
    exact .refl _

end Keeps

variable {l m : Limits}

theorem checkSource_mono (hl : l ≤ m) (schema : Schema) (source : Source) :
    Keeps (checkSource l schema source) (checkSource m schema source) := by
  have hparse : Keeps (Program.parse l source) (Program.parse m source) :=
    ⟨fun _ => Program.parse_mono hl⟩
  exact (hparse.mapError _).bind fun program => (program.check_mono hl schema).mapError _

theorem Layout.emit_mono (hl : l ≤ m) (format : Format) (wrapRoot : Bool) (root : String)
    (v : Value) :
    Keeps (Layout.emit ⟨format, wrapRoot, l⟩ root v)
      (Layout.emit ⟨format, wrapRoot, m⟩ root v) := by
  refine (Keeps.refl _).bind fun _ => ?_
  have hsize (text : String) : Keeps (l.checkOutput text) (m.checkOutput text) :=
    ⟨fun _ => Limits.checkOutput_mono hl⟩
  exact ((hsize _).mapError _).bind fun _ => .refl _

theorem keeps_compile (hl : l ≤ m) (format : Format) (wrapRoot : Bool) (schema : Schema)
    (source : Source) :
    Keeps (compile ⟨format, wrapRoot, l⟩ schema source)
      (compile ⟨format, wrapRoot, m⟩ schema source) := by
  refine (checkSource_mono hl schema source).bind fun checked => ?_
  refine ((checked.evaluate_mono hl).mapError _).bind fun v => ?_
  exact (Layout.emit_mono hl format wrapRoot schema.root.name v).mapError _

/-- A program that compiles within limits compiles to the same document within larger ones, and
sources that load within limits load to the same schema within larger ones. -/
theorem compile_and_load_mono (hl : l ≤ m) :
    (∀ format wrapRoot schema source document,
      compile ⟨format, wrapRoot, l⟩ schema source = .ok document →
        compile ⟨format, wrapRoot, m⟩ schema source = .ok document) ∧
    ∀ sources schema, Schema.load l sources = .ok schema → Schema.load m sources = .ok schema :=
  ⟨fun format wrapRoot schema source => (keeps_compile hl format wrapRoot schema source).ok,
    fun sources => (Schema.keeps_load hl sources).ok⟩

def shortLimits : Limits := ⟨40, 4, 8⟩

def labelSource : Source := ⟨"labels.d.ts", "declare var label: string;"⟩

def labelSchema : Schema := ⟨[], [], ⟨"label", .scalar .string, "labels.d.ts", ⟨12, 17⟩⟩⟩

def labelProgram : Source := ⟨"labels.ts", "label = ((n) => `v${n}`)(\"1\")"⟩

theorem compile_and_load_mono_short :
    (shortLimits ≤ .standard) ∧
    compile ⟨.yaml, false, shortLimits⟩ labelSchema labelProgram = .ok "v1\n" ∧
    compile ⟨.yaml, false, .standard⟩ labelSchema labelProgram = .ok "v1\n" ∧
    Schema.load shortLimits [labelSource] = .ok labelSchema ∧
    Schema.load .standard [labelSource] = .ok labelSchema := by
  have hl : shortLimits ≤ .standard := ⟨by decide, by decide, by decide⟩
  have hc : compile ⟨.yaml, false, shortLimits⟩ labelSchema labelProgram = .ok "v1\n" := by cbv
  have hs : Schema.load shortLimits [labelSource] = .ok labelSchema := by cbv
  obtain ⟨hcompile, hload⟩ := compile_and_load_mono hl
  exact ⟨hl, hc, hcompile _ _ _ _ _ hc, hs, hload _ _ hs⟩

end TypedConfig
