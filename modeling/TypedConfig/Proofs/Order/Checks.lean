import TypedConfig.Proofs.Order.Loads
import TypedConfig.Proofs.Places.Checks

/-! # The order of sources does not matter

A check reads the declared types by their names and the number of their nodes, and looks up what
names are bound to. So under schemas of the same declarations it goes the same way.
-/

namespace TypedConfig

namespace Schema.Reorders

variable {s s' : Schema} (h : s.Reorders s')

include h

theorem follow (n : Nat) (t : Ty) : s.follow n t = s'.follow n t := by
  induction n generalizing t with
  | zero => rfl
  | succ n ih =>
    cases t with
    | named name =>
      rw [Schema.follow, Schema.follow, h.type?]
      cases s'.type? name with
      | none => rfl
      | some d => exact ih d.type
    | _ => rfl

theorem resolve (t : Ty) : s.resolve t = s'.resolve t := by
  rw [Schema.resolve, Schema.resolve, h.follow, h.types.length_eq]

theorem leaves (n : Nat) (t : Ty) : s.leaves n t = s'.leaves n t := by
  induction n generalizing t with
  | zero => rw [Schema.leaves, Schema.leaves, h.resolve]
  | succ n ih =>
    rw [Schema.leaves, Schema.leaves, h.resolve, funext ih]

theorem flatten (t : Ty) : s.flatten t = s'.flatten t := by
  rw [Schema.flatten, Schema.flatten, h.leaves, h.types.length_eq]

theorem matchWithin (n : Nat) : Match.matchWithin s n = Match.matchWithin s' n := by
  induction n with
  | zero => rfl
  | succ n ih =>
    funext label t shape path siblings
    simp only [Match.matchWithin, ih, h.resolve, h.flatten]

theorem levelsFor (t : Ty) (shape : Shape) :
    Match.levelsFor s t shape = Match.levelsFor s' t shape := by
  have hsum : (s.types.map fun d => d.type.size).foldr (· + ·) 0 =
      (s'.types.map fun d => d.type.size).foldr (· + ·) 0 := (h.types.map _).foldr_eq 0
  rw [Match.levelsFor, Match.levelsFor, Match.nodes, Match.nodes, hsum]

theorem conform (t : Ty) (shape : Shape) (path : String) :
    Match.conform s t shape path = Match.conform s' t shape path := by
  rw [Match.conform, Match.conform, Match.conformWithin, Match.conformWithin, h.levelsFor,
    h.matchWithin, h.resolve]

theorem statements (limits : Limits) (ss : List Statement) :
    Check.statements limits s ss = Check.statements limits s' ss := by
  have hassign (value : Expr) :
      Check.assignRoot limits s value = Check.assignRoot limits s' value := by
    simp only [Check.assignRoot, h.root, h.conform]
  have hstatement (t : Statement) : Check.statement limits s t = Check.statement limits s' t := by
    cases t <;> simp only [Check.statement, hassign]
  induction ss with
  | nil => rfl
  | cons t rest ih => rw [Check.statements, Check.statements, hstatement, ih]

theorem initial : (Check.initial s).Agrees (Check.initial s') := by
  refine ⟨fun name => ?_, ?_⟩
  · have hdistinct : Entries.Distinct (s.constants.map fun c =>
        (c.name, (⟨.constant, .sentinel default ⟨c.name, c.value⟩⟩ : Check.Binding))) := by
      rw [Entries.Distinct, Entries.keys, List.map_map]
      exact h.uniqueConstants
    simp only [Check.initial, Check.initialGlobals, Entries.get?_put, h.root]
    rw [Entries.get?_ofList_perm (h.constants.map _) hdistinct]
  · simp only [Check.initial, h.root]

end Schema.Reorders

namespace Program

/-- A program has the same errors under schemas of the same declarations, or the same
alternatives. -/
theorem check_reorders {s s' : Schema} (h : s.Reorders s') (limits : Limits) (program : Program) :
    (program.check limits s).map (·.resolutions) =
      (program.check limits s').map (·.resolutions) := by
  have hplaces : Check.Places _ (Check.statements limits s program.statements) _ :=
    Check.places_statements fun t _ => t.standsIn_true
  obtain ⟨hvalue, -, hafter, -⟩ := hplaces.run _ _ h.initial (Check.initial_standsIn trivial s)
  rw [h.statements] at hvalue hafter
  have hassignments : program.assignments limits s' = program.assignments limits s := by
    rw [assignments, assignments, hvalue, h.statements]
  have hstate : (program.checkState limits s').errors = (program.checkState limits s).errors := by
    rw [checkState, checkState, hafter.rest, h.statements]
  have herrors : program.checkErrors limits s' = program.checkErrors limits s := by
    rw [checkErrors, checkErrors, hstate, hassignments, h.root]
  rw [check_eq, check_eq, herrors, hassignments]
  split <;> rfl

end Program

namespace Schema

/-- Sources load in any order if they load in one, as a schema with the same types, constants and
root under which every check has the same outcome. -/
theorem load_and_check_perm (limits : Limits) {sources sources' : List Source}
    (hp : sources.Perm sources') :
    ((∃ schema, load limits sources = .ok schema) ↔
      ∃ schema', load limits sources' = .ok schema') ∧
    ∀ schema schema', load limits sources = .ok schema → load limits sources' = .ok schema' →
      (∀ name, schema.type? name = schema'.type? name) ∧
      (∀ name, schema.constant? name = schema'.constant? name) ∧ schema.root = schema'.root ∧
      ∀ (checking : Limits) (program : Program),
        (program.check checking schema).map (·.resolutions) =
          (program.check checking schema').map (·.resolutions) := by
  refine ⟨⟨?_, ?_⟩, fun schema schema' hs hs' => ?_⟩
  · rintro ⟨schema, hs⟩
    obtain ⟨schema', hs', -⟩ := load_perm hp hs
    exact ⟨schema', hs'⟩
  · rintro ⟨schema', hs'⟩
    obtain ⟨schema, hs, -⟩ := load_perm hp.symm hs'
    exact ⟨schema, hs⟩
  · obtain ⟨_, hs'', hsame⟩ := load_perm hp hs
    obtain rfl := Except.ok.inj (hs''.symm.trans hs')
    exact ⟨hsame.type?, hsame.constant?, hsame.root, fun checking program =>
      program.check_reorders hsame checking⟩

def keys : Source := ⟨"keys.d.ts", "type Key = \"k\"; declare const wait = \"wait\";"⟩

/-- A source that needs a type of the other. -/
def steps : Source := ⟨"steps.d.ts", "type Step = Key; declare var steps: Step[];"⟩

/-- What the two sources declare together, in some order. -/
def keysAndSteps (reversed : Bool) : Schema where
  types :=
    let key : TypeDeclaration := ⟨"Key", .literal [.string "k"], none, "keys.d.ts", ⟨5, 8⟩⟩
    let step : TypeDeclaration := ⟨"Step", .named "Key", none, "steps.d.ts", ⟨5, 9⟩⟩
    if reversed then [step, key] else [key, step]
  constants := [⟨"wait", .string "wait", ⟨30, 34⟩⟩]
  root := ⟨"steps", .sequence (.named "Step") false, "steps.d.ts", ⟨29, 34⟩⟩

set_option maxRecDepth 1024 in
theorem load_keysAndSteps : load .standard [keys, steps] = .ok (keysAndSteps false) := by cbv

set_option maxRecDepth 1024 in
theorem load_stepsAndKeys : load .standard [steps, keys] = .ok (keysAndSteps true) := by cbv

theorem load_and_check_perm_steps :
    [keys, steps].Perm [steps, keys] ∧ load .standard [keys, steps] = .ok (keysAndSteps false) ∧
      load .standard [steps, keys] = .ok (keysAndSteps true) ∧
      ∀ (checking : Limits) (program : Program),
        (program.check checking (keysAndSteps false)).map (·.resolutions) =
          (program.check checking (keysAndSteps true)).map (·.resolutions) := by
  have hp : [keys, steps].Perm [steps, keys] := .swap steps keys []
  have h := (load_and_check_perm .standard hp).2 _ _ load_keysAndSteps load_stepsAndKeys
  exact ⟨hp, load_keysAndSteps, load_stepsAndKeys, h.2.2.2⟩

end Schema

end TypedConfig
