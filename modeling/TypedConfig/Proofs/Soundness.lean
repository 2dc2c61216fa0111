import TypedConfig.Proofs.Simulation.Programs

/-! # Soundness of checking

What checking a program without errors promises about its evaluation. Where the check is sound,
the value is a member of the root type, and the program fails at most at an index out of bounds.
Where the check is definite, the shape of the root binding is the value.
-/

namespace TypedConfig

open Shape (Describes)

namespace Shape

mutual

/-- The value of a shape that is known in every part and can stand in a document. -/
def value? : Shape → Option Value
  | .string _ known => known.map fun v => .scalar (.string v)
  | .number _ known => known.map fun v => .scalar (.number v)
  | .boolean _ known => known.map fun v => .scalar (.boolean v)
  | .sentinel _ c => some (.sentinel c)
  | .record _ fields => (entries? fields).map .record
  | .tuple _ items => (items? items).map .sequence
  | .array .. | .function .. | .null _ | .undefined _ | .oneOf .. | .unknown _ => none

def entries? : List (String × Span × Shape) → Option (List (String × Value))
  | [] => some []
  | (key, _, shape) :: fields => do return (key, ← value? shape) :: (← entries? fields)

def items? : List Shape → Option (List Value)
  | [] => some []
  | shape :: shapes => do return (← value? shape) :: (← items? shapes)

end

/-- What a computation that succeeds goes through. -/
theorem bind_eq_ok {ε α β : Type} {x : Except ε α} {f : α → Except ε β} {b : β}
    (h : x >>= f = .ok b) : ∃ a, x = .ok a ∧ f a = .ok b := by
  cases x with
  | error e => cases h
  | ok a => exact ⟨a, rfl, h⟩

mutual

/-- The value of a shape that leaves nothing open is that of the datum that it describes. -/
theorem value?_of_describes : ∀ shape {d path v}, Describes False shape d →
    d.toValue path = .ok v → shape.value? = some v
  | .string .., _, _, _, ⟨_, rfl, hk⟩, hv | .number .., _, _, _, ⟨_, rfl, hk⟩, hv
  | .boolean .., _, _, _, ⟨_, rfl, hk⟩, hv => by
    cases hv
    obtain rfl | ⟨hl, -⟩ := hk
    · rfl
    · exact hl.elim
  | .sentinel .., _, _, _, rfl, hv => by
    cases hv
    rfl
  | .record _ fields, _, path, v, ⟨entries, hd, hf⟩, hv => by
    subst hd
    obtain ⟨vs, hvs, hv⟩ := bind_eq_ok hv
    cases hv
    rw [value?, entries?_of_describes fields hf hvs]
    rfl
  | .tuple _ items, _, path, v, ⟨ds, hd, hi⟩, hv => by
    subst hd
    obtain ⟨vs, hvs, hv⟩ := bind_eq_ok hv
    cases hv
    rw [value?, items?_of_describes items hi hvs]
    rfl
  | .function .., _, _, _, ⟨_, rfl, _⟩, hv => by cases hv
  | .null _, _, _, _, rfl, hv | .undefined _, _, _, _, rfl, hv => by cases hv
  | .array .., _, _, _, ⟨hl, _⟩, _ | .oneOf .., _, _, _, ⟨hl, _⟩, _ => hl.elim

theorem entries?_of_describes : ∀ fields {entries path vs}, DescribesFields False fields entries →
    Datum.toEntries path entries = .ok vs → entries? fields = some vs
  | [], _, _, _, rfl, hv => by
    cases hv
    rfl
  | (key, _, shape) :: fields, _, path, vs, ⟨d, rest, hd, hshape, hrest⟩, h => by
    subst hd
    obtain ⟨v, hv, h⟩ := bind_eq_ok h
    obtain ⟨vs, hvs, h⟩ := bind_eq_ok h
    cases h
    rw [entries?, value?_of_describes shape hshape hv, entries?_of_describes fields hrest hvs]
    rfl

theorem items?_of_describes : ∀ shapes {ds path i vs}, DescribesAll False shapes ds →
    Datum.toItems path i ds = .ok vs → items? shapes = some vs
  | [], _, _, _, _, rfl, hv => by
    cases hv
    rfl
  | shape :: shapes, _, path, i, vs, ⟨d, rest, hd, hshape, hrest⟩, h => by
    subst hd
    obtain ⟨v, hv, h⟩ := bind_eq_ok h
    obtain ⟨vs, hvs, h⟩ := bind_eq_ok h
    cases h
    rw [items?, value?_of_describes shape hshape hv, items?_of_describes shapes hrest hvs]
    rfl

end

end Shape

def listSchema (element : Ty) : Schema :=
  ⟨[], [], ⟨"steps", .sequence element false, "schema.d.ts", default⟩⟩

/-- A schema whose root binding is a list of texts. -/
def textsSchema : Schema := listSchema (.scalar .string)

namespace Program

/-- A program that assigns an expression to the root binding. -/
def assigning (value : Expr) : Program :=
  ⟨default, [], [.assign ⟨"steps", default⟩ value default]⟩

def texts (ts : List String) : Expr :=
  .array default (ts.map fun t => .item (.string default t))

/-- The second of two expressions, as two arrays are never equal. A check takes both for
possible. -/
def undecided (first second : Expr) : Expr :=
  .conditional default (.binary default .equal (texts []) (texts [])) first second

def calling (receiver : Expr) (method : String) (arg : Expr) : Expr :=
  .call default (.member default receiver ⟨method, default⟩) [arg]

/-- `["a"].concat(["b"])` -/
def joined : Expr := calling (texts ["a"]) "concat" (texts ["b"])

/-- `"a" === "b" ? [] : ["a"]` -/
def compared : Expr :=
  .conditional default (.binary default .equal (.string default "a") (.string default "b"))
    (texts []) (texts ["a"])

/-- The first element of an array that is empty, and that a check takes for one of texts of any
length. -/
def firstOfNone : Expr :=
  .index default (.array default [.spread (undecided (texts ["a"]) (texts []))])
    (.number default 0)

/-- An array of that element. -/
def exceeding : Expr := .array default [.item firstOfNone]

/-- The number `1`, as the field of an object whose name a check does not know. -/
def unknownField : Expr :=
  .index default (.object default [.field "a" default (.number default 1)])
    (.template default [.hole (undecided (.string default "b") (.string default "a"))])

/-- `["b"]`, where one of two arrays is flattened. -/
def flattened : Expr :=
  calling (texts ["c"]) "flatMap" (.arrow default [] (undecided (texts ["a"]) (texts ["b"])))

/-- `["b"]`, where a text or an array is joined to an array. -/
def joinedEither : Expr :=
  calling (texts []) "concat" (undecided (.string default "a") (texts ["b"]))

variable {lax : Prop} {limits : Limits} {schema : Schema} {program : Program}
  {checked : CheckedProgram} {v : Value}

/-- The value of a program whose check is sound is a member of the root type. -/
theorem member_of_evaluate (hs : ∀ e ∈ program.checkEvents limits schema, e.isSound = true)
    (hc : program.check limits schema = .ok checked) (hv : checked.evaluate limits = .ok v) :
    schema.root.type.Member schema v := by
  obtain ⟨shape, d, -, hd, hconf, he⟩ | ⟨f, he, -⟩ :=
    evaluate_of_check hc (admitted_of_sound hc hs)
  · obtain ⟨w, hw, hm⟩ := Match.conform_sound hconf d hd schema.root.name
    rw [he, hw] at hv
    cases hv
    exact hm
  · rw [he] at hv
    cases hv

theorem member_of_evaluate_joined :
    (∀ e ∈ (assigning joined).checkEvents .standard textsSchema, e.isSound = true) ∧
      ∃ checked v, (assigning joined).check .standard textsSchema = .ok checked ∧
        checked.evaluate .standard = .ok v ∧ textsSchema.root.type.Member textsSchema v := by
  have hs : ∀ e ∈ (assigning joined).checkEvents .standard textsSchema, e.isSound = true := by
    decide
  have hc : (assigning joined).check .standard textsSchema = .ok ⟨_, _, _⟩ :=
    check_eq_ok_iff.2 ⟨rfl, by decide, rfl⟩
  exact ⟨hs, _, .sequence [.scalar (.string "a"), .scalar (.string "b")], hc, rfl,
    member_of_evaluate hs hc rfl⟩

/-- An unknown field of an object is taken for anything. -/
theorem not_member_of_unknownField :
    ∃ checked v, (assigning unknownField).check .standard textsSchema = .ok checked ∧
      checked.evaluate .standard = .ok v ∧ ¬ textsSchema.root.type.Member textsSchema v := by
  refine ⟨_, .scalar (.number 1), check_eq_ok_iff.2 ⟨rfl, by decide, rfl⟩, rfl, ?_⟩
  rintro ⟨⟩

/-- One of several arrays is taken for a single element where it is flattened. -/
theorem not_member_of_flattened :
    let schema := listSchema (.sequence (.scalar .string) false)
    ∃ checked v, (assigning flattened).check .standard schema = .ok checked ∧
      checked.evaluate .standard = .ok v ∧ ¬ schema.root.type.Member schema v := by
  refine ⟨_, .sequence [.scalar (.string "b")], check_eq_ok_iff.2 ⟨rfl, by decide, rfl⟩, rfl, ?_⟩
  intro h
  cases h with
  | sequence helements => cases helements _ (List.mem_singleton_self _)

/-- A text or an array is taken for a single element where it is joined. -/
theorem not_member_of_joinedEither :
    let schema := listSchema (.union [.sequence (.scalar .string) false, .literal [.string "a"]])
    ∃ checked v, (assigning joinedEither).check .standard schema = .ok checked ∧
      checked.evaluate .standard = .ok v ∧ ¬ schema.root.type.Member schema v := by
  refine ⟨_, .sequence [.scalar (.string "b")], check_eq_ok_iff.2 ⟨rfl, by decide, rfl⟩, rfl, ?_⟩
  intro h
  cases h with
  | sequence helements =>
    cases helements _ (List.mem_singleton_self _) with
    | union ht h =>
      rcases ht with _ | ⟨_, _ | ⟨_, ⟨⟩⟩⟩
      · cases h
      · cases h with
        | literal hv hs =>
          cases hv
          exact absurd hs (by decide)

/-- A program whose check is definite has a value, which is the value of the shape that the check
finds for the root binding. -/
theorem evaluate_eq_of_definite
    (hd : ∀ e ∈ program.checkEvents limits schema, e.isDefinite = true)
    (hc : program.check limits schema = .ok checked) :
    ∃ shape v, program.rootShape? limits schema = some shape ∧ shape.value? = some v ∧
      checked.evaluate limits = .ok v := by
  obtain ⟨shape, d, hs, hd, hconf, he⟩ | ⟨f, -, hl, -⟩ :=
    evaluate_of_check hc (admitted_of_definite hd)
  · obtain ⟨v, hv, -⟩ := Match.conform_sound hconf d hd schema.root.name
    refine ⟨shape, v, hs, Shape.value?_of_describes shape hd hv, ?_⟩
    rw [he, hv]
    rfl
  · exact hl.elim

theorem evaluate_eq_of_definite_compared :
    (∀ e ∈ (assigning compared).checkEvents .standard textsSchema, e.isDefinite = true) ∧
      ∃ checked, (assigning compared).check .standard textsSchema = .ok checked ∧
        ∃ shape v, (assigning compared).rootShape? .standard textsSchema = some shape ∧
          shape.value? = some v ∧ checked.evaluate .standard = .ok v := by
  have hd : ∀ e ∈ (assigning compared).checkEvents .standard textsSchema,
      e.isDefinite = true := by decide
  have hc : (assigning compared).check .standard textsSchema = .ok ⟨_, _, _⟩ :=
    check_eq_ok_iff.2 ⟨rfl, by decide, rfl⟩
  exact ⟨hd, _, hc, evaluate_eq_of_definite hd hc⟩

/-- A program whose check is sound, and meets no known index that is out of bounds in any case, has
a value, or fails at an index out of bounds, and then the check has met one that may exceed its
bound. -/
theorem evaluate_or_exceeds (hs : ∀ e ∈ program.checkEvents limits schema, e.isSound = true)
    (hp : ∀ e ∈ program.checkEvents limits schema, e.isOutside = false)
    (hc : program.check limits schema = .ok checked) :
    (∃ v, checked.evaluate limits = .ok v) ∨
      ∃ f, checked.evaluate limits = .error (.ofFault program.source f) ∧ f.IsBounds ∧
        ∃ e ∈ program.checkEvents limits schema, e.mayExceed = true := by
  obtain ⟨shape, d, -, hd, hconf, he⟩ | ⟨f, he, -, hb, hx⟩ :=
    evaluate_of_check hc (admitted_of_sound hc hs)
  · obtain ⟨v, hv, -⟩ := Match.conform_sound hconf d hd schema.root.name
    exact .inl ⟨v, by rw [he, hv]; rfl⟩
  · obtain ⟨e, hm, hx⟩ := hx
    have hexceed : e.mayExceed = true :=
      hx.resolve_right (by rw [hp e hm]; exact Bool.false_ne_true)
    exact .inr ⟨f, he, hb, e, hm, hexceed⟩

theorem evaluate_or_exceeds_exceeding :
    (∀ e ∈ (assigning exceeding).checkEvents .standard textsSchema, e.isSound = true) ∧
    (∀ e ∈ (assigning exceeding).checkEvents .standard textsSchema, e.isOutside = false) ∧
    ∃ checked, (assigning exceeding).check .standard textsSchema = .ok checked ∧
      ((∃ v, checked.evaluate .standard = .ok v) ∨
        ∃ f, checked.evaluate .standard = .error (.ofFault default f) ∧ f.IsBounds ∧
          ∃ e ∈ (assigning exceeding).checkEvents .standard textsSchema,
            e.mayExceed = true) := by
  have hs : ∀ e ∈ (assigning exceeding).checkEvents .standard textsSchema,
      e.isSound = true := by decide
  have hp : ∀ e ∈ (assigning exceeding).checkEvents .standard textsSchema,
      e.isOutside = false := by decide +kernel
  have hc : (assigning exceeding).check .standard textsSchema = .ok ⟨_, _, _⟩ :=
    check_eq_ok_iff.2 ⟨rfl, by decide, rfl⟩
  exact ⟨hs, hp, _, hc, evaluate_or_exceeds hs hp hc⟩

theorem index_nil (position : Datum) (span : Span) (ρ : Eval.Scope) :
    (Eval.index (.array []) position span).run ρ = (.error ⟨.arrayBounds, span⟩, ρ) := by
  unfold Eval.index
  cases position.number?.bind Number.index? <;> rfl

/-- A checked program whose evaluation stops at the first element of an empty array. -/
theorem evaluate_exceeding :
    ∃ checked, (assigning exceeding).check .standard textsSchema = .ok checked ∧
      checked.evaluate .standard = .error (.ofFault default ⟨.arrayBounds, default⟩) := by
  refine ⟨_, check_eq_ok_iff.2 ⟨rfl, by decide, rfl⟩, ?_⟩
  have hfirst : (Eval.datumOf .standard firstOfNone).run (Eval.initial textsSchema) =
      (.error ⟨.arrayBounds, default⟩, Eval.initial textsSchema) :=
    (Eval.run_bind rfl _).trans ((Eval.run_bind rfl _).trans (index_nil _ _ _))
  have hvalue : (Eval.datumOf .standard exceeding).run
      (Eval.initial textsSchema) = (.error ⟨.arrayBounds, default⟩, Eval.initial textsSchema) :=
    Eval.run_bind_error (Eval.run_bind_error hfirst _) _
  have hrun : (Eval.statements .standard textsSchema.root.name
      (assigning exceeding).statements).run (Eval.initial textsSchema) =
      (.error ⟨.arrayBounds, default⟩, Eval.initial textsSchema) :=
    Eval.run_bind_error (Eval.run_bind_error hvalue _) _
  exact evaluate_of_run hrun

end Program

end TypedConfig
