import TypedConfig.Check

/-! # Checks that end

A check ends if each of its matchings does: one for every shape that is assigned to the root
binding.
-/

namespace TypedConfig

/-- The shapes that statements assign to the root binding, in turn. -/
def Check.rootShapes (limits : Limits) (schema : Schema) : List Statement → CheckM (List Shape)
  | [] => return []
  | s :: rest => do
    let assigned ← statement limits schema s
    let bound := Entries.get? (← get).globals schema.root.name
    let more ← rootShapes limits schema rest
    return if assigned.isSome then (bound.map Binding.shape).toList ++ more else more

def Program.matchingsEnd (limits : Limits) (schema : Schema) (program : Program) : Bool :=
  let (shapes, _) :=
    (Check.rootShapes limits schema program.statements).run (Check.initial schema)
  shapes.all fun shape =>
    let t := schema.root.type
    (Match.conformWithin schema (Match.levelsFor schema t shape) t shape schema.root.name).isSome

end TypedConfig
