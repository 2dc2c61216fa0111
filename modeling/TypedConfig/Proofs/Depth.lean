import TypedConfig.Proofs.Depth.Chains
import TypedConfig.Proofs.Places.Programs

/-! # What the limit on nesting bounds

The limit on nesting bounds the height of what is read together with the longest chain in it: of
links in an expression, of sequences in a type. By itself it bounds neither height, as chains are
read in loops.
-/

namespace TypedConfig

variable {limits : Limits}

theorem Expr.height_le_of_nesting {levels : Nat} {e : Expr} (h : e.nesting ≤ levels) :
    e.height ≤ levels * (e.longestChain + 1) :=
  Nat.le_trans e.height_le (Nat.mul_le_mul_right _ h)

theorem Ty.height_le_of_nesting {levels : Nat} {t : Ty} (h : t.nesting ≤ levels) :
    t.height ≤ levels * (t.longestRun + 1) :=
  Nat.le_trans t.height_le (Nat.mul_le_mul_right _ h)

/-- The expressions of a program that is accepted, and the types of a schema that loads, are no
higher than the limit on nesting and their longest chains allow. -/
theorem height_le_of_accepted (limits : Limits) :
    (∀ source program, Program.parse limits source = .ok program →
      ∀ s ∈ program.statements, ∀ e ∈ s.expressions,
        e.height ≤ (limits.maxDepth + 1) * (e.longestChain + 1)) ∧
    ∀ sources schema, Schema.load limits sources = .ok schema →
      (∀ d ∈ schema.types,
        d.type.height ≤ (2 * limits.maxDepth + 1) * (d.type.longestRun + 1)) ∧
      schema.root.type.height ≤
        (2 * limits.maxDepth + 1) * (schema.root.type.longestRun + 1) := by
  constructor
  · intro source program h s hs e he
    exact Expr.height_le_of_nesting (((Program.read_of_parse h).2 s hs).nests e he)
  · intro sources schema h
    obtain ⟨htypes, hroot⟩ := Schema.nesting_of_load h
    exact ⟨fun d hd => Ty.height_le_of_nesting (htypes d hd), Ty.height_le_of_nesting hroot⟩

/-- A program with a chain of four links: a property, a call, an index and a sum. -/
def linked : Source := ⟨"linked.ts", "steps = [a.b(c)[d] + e]"⟩

def linkedProgram : Program where
  source := linked
  imports := []
  statements := [
    .assign ⟨"steps", ⟨0, 5⟩⟩ (.array ⟨8, 23⟩ [.item
      (.binary ⟨9, 22⟩ .add
        (.index ⟨9, 18⟩
          (.call ⟨9, 15⟩ (.member ⟨9, 12⟩ (.name ⟨9, 10⟩ "a") ⟨"b", ⟨11, 12⟩⟩)
            [.name ⟨13, 14⟩ "c"])
          (.name ⟨16, 17⟩ "d"))
        (.name ⟨21, 22⟩ "e"))]) ⟨0, 23⟩]

/-- A schema with a sequence of sequences inside a record. -/
def layered : Source :=
  ⟨"layered.d.ts", "interface Step \x7b rows: string[][] \x7d declare var steps: Step[];"⟩

def layeredSchema : Schema where
  types := [⟨"Step", .record (some "Step")
    [(⟨"rows", false, none, ⟨17, 21⟩⟩, .sequence (.sequence (.scalar .string) false) false)], none,
    "layered.d.ts", ⟨10, 14⟩⟩]
  constants := []
  root := ⟨"steps", .sequence (.named "Step") false, "layered.d.ts", ⟨48, 53⟩⟩

set_option maxRecDepth 1024 in
theorem height_le_of_accepted_linked :
    Program.parse ⟨100, 3, 0⟩ linked = .ok linkedProgram ∧
      (∀ s ∈ linkedProgram.statements, ∀ e ∈ s.expressions,
        e.height = 6 ∧ e.height ≤ 4 * (e.longestChain + 1)) ∧
    Schema.load ⟨100, 3, 0⟩ [layered] = .ok layeredSchema ∧
      (∀ d ∈ layeredSchema.types, d.type.height = 4 ∧ d.type.height ≤ 7 * (d.type.longestRun + 1)) ∧
      layeredSchema.root.type.height ≤ 7 * (layeredSchema.root.type.longestRun + 1) := by
  have hp : Program.parse ⟨100, 3, 0⟩ linked = .ok linkedProgram := by cbv
  have hs : Schema.load ⟨100, 3, 0⟩ [layered] = .ok layeredSchema := by cbv
  have hheight : ∀ s ∈ linkedProgram.statements, ∀ e ∈ s.expressions, e.height = 6 := by
    simp [linkedProgram, Statement.expressions]
    rfl
  have htypes : ∀ d ∈ layeredSchema.types, d.type.height = 4 := by
    simp [layeredSchema]
    rfl
  obtain ⟨hprograms, hschemas⟩ := height_le_of_accepted ⟨100, 3, 0⟩
  refine ⟨hp, fun s hm e he => ⟨hheight s hm e he, hprograms _ _ hp s hm e he⟩, hs, ?_, ?_⟩
  · exact fun d hd => ⟨htypes d hd, (hschemas _ _ hs).1 d hd⟩
  · exact (hschemas _ _ hs).2

/-- No bound on heights follows from the limit on nesting: whatever it is, unless nothing at all
may be nested, there are programs and schemas that are accepted and higher than given. -/
theorem height_unbounded {depth : Nat} (hdepth : 0 < depth) (bound : Nat) :
    ∃ limits : Limits, limits.maxDepth = depth ∧
      (∃ source program, Program.parse limits source = .ok program ∧
        ∃ s ∈ program.statements, ∃ e ∈ s.expressions, bound < e.height) ∧
      ∃ source schema, Schema.load limits [source] = .ok schema ∧
        bound < schema.root.type.height := by
  let programText := Spelled.written (Program.propertyChain bound)
  let schemaText := Spelled.written (Declaration.sequenceRun bound)
  let limits : Limits := ⟨max programText.utf8ByteSize schemaText.utf8ByteSize, depth, 0⟩
  have hlevels : 0 < limits.maxDepth := hdepth
  obtain ⟨p, hp, e, hs, he⟩ := Program.parse_propertyChain hlevels "program.ts"
    (Nat.le_max_left ..)
  obtain ⟨schema, hschema, hroot⟩ := Schema.load_sequenceRun hlevels "schema.d.ts"
    (Nat.le_max_right ..)
  refine ⟨limits, rfl, ⟨_, p, hp, .expression e, ?_, e, .head _, ?_⟩, _, schema, hschema, ?_⟩
  · rw [hs]
    exact .head _
  · rw [he]
    exact Nat.lt_succ_self bound
  · rw [hroot]
    exact Nat.lt_succ_self bound

end TypedConfig
