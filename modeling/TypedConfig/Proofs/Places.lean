import Mathlib
import TypedConfig.Proofs.Places.Programs
import TypedConfig.Proofs.Places.Checks
import TypedConfig.Proofs.Places.Evals

/-! # Errors point into the program

Reading, checking and evaluating report errors at places of the program's own source: no place is
taken over from elsewhere, and none lies between the bytes of a character.
-/

namespace TypedConfig

/-- Whatever the schema, the source and the limits of the three stages are, every error that
comes with a place shows one that the source has. -/
theorem errors_shown (schema : Schema) (source : Source) (reading checking evaluating : Limits) :
    (∀ e, Program.parse reading source = .error e → source.Shows e.location e.span) ∧
    ∀ program, Program.parse reading source = .ok program →
      (∀ failure, program.check checking schema = .error failure →
        failure.source = source ∧
          ∀ e ∈ failure.errors, source.Shows (e.location failure.source) e.span) ∧
      ∀ checked, program.check checking schema = .ok checked →
        ∀ cause name location span,
          checked.evaluate evaluating = .error (.fault cause name location span) →
            source.Shows location span := by
  refine ⟨fun e he => Program.shows_of_parse he, fun program hp => ?_⟩
  obtain ⟨rfl, hread⟩ := Program.read_of_parse hp
  have hstands : ∀ s ∈ program.statements,
      s.StandsIn (Span.Within program.source.text.toList) := fun s hs => (hread s hs).stands
  constructor
  · intro failure hf
    obtain rfl := Program.check_eq_error hf
    exact ⟨rfl, Program.shows_of_check hstands hf⟩
  · intro checked hc cause name location span hev
    obtain ⟨-, -, rfl⟩ := Program.check_eq_ok_iff.1 hc
    exact CheckedProgram.shows_of_evaluate hstands hev

def stepsSchema : Schema where
  types := []
  constants := []
  root := ⟨"steps", .sequence (.scalar .string) false, "steps.d.ts", ⟨12, 17⟩⟩

/-- A text that is not closed, on the second line and behind a character of two bytes. -/
def unclosed : Source := ⟨"unclosed.ts", "// é\nsteps = [\"ü"⟩

/-- A name that nothing declares, behind characters of two bytes. -/
def undeclared : Source := ⟨"undeclared.ts", "// é\nsteps = [\"ü\", x]"⟩

def undeclaredProgram : Program where
  source := undeclared
  imports := []
  statements := [
    .assign ⟨"steps", ⟨6, 11⟩⟩
      (.array ⟨14, 23⟩ [.item (.string ⟨15, 19⟩ "ü"), .item (.name ⟨21, 22⟩ "x")]) ⟨6, 23⟩]

/-- A field that a record does not have, under a name that only the evaluation knows. -/
def fieldless : Source :=
  ⟨"fieldless.ts", "// é\nsteps = (\x7b\"ü\": []\x7d)[`$\x7b[] === [] ? \"b\" : \"c\"\x7d`]"⟩

def fieldlessProgram : Program where
  source := fieldless
  imports := []
  statements := [
    .assign ⟨"steps", ⟨6, 11⟩⟩
      (.index ⟨14, 54⟩ (.object ⟨14, 26⟩ [.field "ü" ⟨16, 20⟩ (.array ⟨22, 24⟩ [])])
        (.template ⟨27, 53⟩ [.hole (.conditional ⟨30, 51⟩
          (.binary ⟨30, 39⟩ .equal (.array ⟨30, 32⟩ []) (.array ⟨37, 39⟩ []))
          (.string ⟨42, 45⟩ "b") (.string ⟨48, 51⟩ "c"))]))
      ⟨6, 54⟩]

set_option maxRecDepth 1024 in
theorem errors_shown_accented :
    (∃ e, Program.parse .standard unclosed = .error e ∧
      e.location = ⟨2, 10⟩ ∧ e.span = ⟨15, 18⟩ ∧ unclosed.Shows e.location e.span) ∧
    (Program.parse .standard undeclared = .ok undeclaredProgram ∧
      ∃ failure, undeclaredProgram.check .standard stepsSchema = .error failure ∧
        (∃ e ∈ failure.errors, e.span = ⟨21, 22⟩) ∧
        ∀ e ∈ failure.errors, undeclared.Shows (e.location failure.source) e.span) ∧
    Program.parse .standard fieldless = .ok fieldlessProgram ∧
      fieldlessProgram.check .standard stepsSchema = .ok ⟨stepsSchema, fieldlessProgram, []⟩ ∧
      CheckedProgram.evaluate .standard ⟨stepsSchema, fieldlessProgram, []⟩ =
        .error (.fault (.noProperty "c") "fieldless.ts" ⟨2, 9⟩ ⟨14, 54⟩) ∧
      fieldless.Shows ⟨2, 9⟩ ⟨14, 54⟩ := by
  have hunclosed : Program.parse .standard unclosed =
      .error ⟨.lexical ⟨.unterminatedString, ⟨15, 18⟩⟩, "unclosed.ts", ⟨2, 10⟩, ⟨15, 18⟩⟩ := by cbv
  have hundeclared : Program.parse .standard undeclared = .ok undeclaredProgram := by cbv
  have hrefused : undeclaredProgram.check .standard stepsSchema =
      .error ⟨undeclared, [⟨"steps", "a declared identifier", "unknown identifier `x`",
        ⟨21, 22⟩, none⟩]⟩ := by cbv
  have hfieldless : Program.parse .standard fieldless = .ok fieldlessProgram := by cbv
  have haccepted : fieldlessProgram.check .standard stepsSchema =
      .ok ⟨stepsSchema, fieldlessProgram, []⟩ := by cbv
  have hfault : CheckedProgram.evaluate .standard ⟨stepsSchema, fieldlessProgram, []⟩ =
      .error (.fault (.noProperty "c") "fieldless.ts" ⟨2, 9⟩ ⟨14, 54⟩) := by cbv
  have errors := fun source =>
    errors_shown stepsSchema source .standard .standard .standard
  obtain ⟨hchecking, -⟩ := (errors undeclared).2 _ hundeclared
  obtain ⟨-, hevaluating⟩ := (errors fieldless).2 _ hfieldless
  exact ⟨⟨_, hunclosed, rfl, rfl, (errors unclosed).1 _ hunclosed⟩,
    ⟨hundeclared, _, hrefused, ⟨_, .head _, rfl⟩, (hchecking _ hrefused).2⟩,
    hfieldless, haccepted, hfault, hevaluating _ haccepted _ _ _ _ hfault⟩

end TypedConfig
