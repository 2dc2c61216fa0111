import Mathlib
import TypedConfig.Proofs.Check.Reached

/-! # How far an object fans out

While an object is read there is one set of fields for each combination of the alternatives that
it spreads. A set that is not the only one stays apart for good: more alternatives multiply the
sets, and nothing takes any away. So their number has a bound only up to the first item that takes
it past the limit, where it is reported; the items after that one multiply it further.
-/

namespace TypedConfig

namespace Shape

/-- Shapes in which nowhere one is of more shapes than the limit. -/
inductive Narrow : Shape → Prop
  | leaf {shape : Shape} (h : shape.isLeaf = true) : Narrow shape
  | record {s fields} (h : ∀ f ∈ fields, Narrow f.2.2) : Narrow (.record s fields)
  | tuple {s items} (h : ∀ i ∈ items, Narrow i) : Narrow (.tuple s items)
  | array {s element} (h : Narrow element) : Narrow (.array s element)
  | function {s params body captured} (h : ∀ f ∈ captured, ∀ b ∈ f, Narrow b.2) :
      Narrow (.function s params body captured)
  | oneOf {s branches} (hlength : branches.length ≤ maxBranches) (h : ∀ b ∈ branches, Narrow b) :
      Narrow (.oneOf s branches)

theorem closed_narrow : Closed Narrow where
  leaf _ h := .leaf h
  record _ _ := by
    refine ⟨fun h => ?_, .record⟩
    cases h with
    | leaf hl => cases hl
    | record h => exact h
  tuple _ _ := by
    refine ⟨fun h => ?_, .tuple⟩
    cases h with
    | leaf hl => cases hl
    | tuple h => exact h
  array _ _ := by
    refine ⟨fun h => ?_, .array⟩
    cases h with
    | leaf hl => cases hl
    | array h => exact h
  function _ _ _ _ := by
    refine ⟨fun h => ?_, .function⟩
    cases h with
    | leaf hl => cases hl
    | function h => exact h
  oneOf _ _ := by
    refine ⟨fun h => ?_, fun h => .oneOf h.1 h.2⟩
    cases h with
    | leaf hl => cases hl
    | oneOf hlength h => exact ⟨hlength, h⟩

/-- Whether fields come of spreading the shape into an object, if only none. -/
def isSpreadable : Shape → Bool
  | record .. | null _ | undefined _ => true
  | _ => false

end Shape

namespace Check

open Shape (Narrow closed_narrow maxBranches isSpreadable)

/-- How many sets of fields come of each one by spreading a shape. -/
def fanOut (shape : Shape) : Nat := max 1 ((branchesOf shape).countP isSpreadable)

theorem fanOut_le {shape : Shape} (h : Narrow shape) : fanOut shape ≤ maxBranches := by
  refine Nat.max_le.2 ⟨by decide, Nat.le_trans List.countP_le_length ?_⟩
  unfold branchesOf
  split
  · exact ((closed_narrow.oneOf ..).1 h).1
  · exact (by decide : 1 ≤ maxBranches)

section

variable {p : Partials} {partials : List ShapeFields} {call : Caller} {σ : State}

theorem length_spreadInto (branch : Shape) :
    ((value (spreadInto partials branch) σ).getD []).length =
      partials.length * if isSpreadable branch then 1 else 0 := by
  cases branch <;> simp [spreadInto, isSpreadable]

theorem length_spreadBranches (partials : List ShapeFields) (σ : State) (branches : List Shape) :
    (value (spreadBranches partials branches) σ).fields.length =
      partials.length * branches.countP isSpreadable := by
  induction branches generalizing σ with
  | nil => rfl
  | cons branch rest ih =>
    simp [spreadBranches, length_spreadInto, ih, List.countP_cons, Nat.mul_add, Nat.add_comm]

/-- A spread multiplies the sets of fields. -/
theorem length_spread (shape : Shape) :
    (value (p.spread shape) σ).fields.length = p.fields.length * fanOut shape := by
  have hnext := length_spreadBranches p.fields σ (branchesOf shape)
  simp only [Partials.spread, value_bind, fanOut]
  generalize value (spreadBranches p.fields (branchesOf shape)) σ = next at hnext
  have hfields : (if next.fields.isEmpty then p.fields else next.fields).length =
      p.fields.length * max 1 ((branchesOf shape).countP isSpreadable) := by
    split
    · rename_i hempty
      rw [List.isEmpty_iff.1 hempty, List.length_nil, eq_comm, Nat.mul_eq_zero] at hnext
      rcases hnext with h | h <;> simp [h]
    · rename_i hempty
      have : (branchesOf shape).countP isSpreadable ≠ 0 := by
        intro h
        rw [h, Nat.mul_zero] at hnext
        exact hempty (List.isEmpty_iff.2 (List.length_eq_zero_iff.1 hnext))
      rw [hnext, Nat.max_eq_right (Nat.pos_of_ne_zero this)]
  split <;> exact hfields

/-- Beyond the limit, not all about an object is known. -/
def Partials.Limited (p : Partials) : Prop :=
  p.isUnknown = false → p.fields.length ≤ maxBranches

theorem Partials.Limited.put (h : p.Limited) (key : String) (keySpan : Span) (shape : Shape) :
    (p.put key keySpan shape).Limited := by
  intro hu
  rw [Partials.put, List.length_map]
  exact h hu

theorem Partials.Limited.spread (h : p.Limited) (shape : Shape) :
    (value (p.spread shape) σ).Limited := by
  simp only [Partials.spread, value_bind]
  generalize value (spreadBranches p.fields (branchesOf shape)) σ = next
  split
  · exact nofun
  · rename_i hlimit
    intro hu
    simp only [value_pure, Bool.or_eq_false_iff] at hu ⊢
    split
    · exact h hu.1
    · exact Nat.not_lt.1 hlimit

theorem inferMembers_append (call : Caller) (before rest : List ObjectMember) (p : Partials) :
    inferMembers call p (before ++ rest) =
      inferMembers call p before >>= fun p => inferMembers call p rest := by
  induction before generalizing p with
  | nil => rfl
  | cons m before ih =>
    cases m with
    | field =>
      simp only [List.cons_append, inferMembers, ih]
      rfl
    | spread =>
      simp only [List.cons_append, inferMembers, ih]
      rfl

theorem limited_inferMembers (ms : List ObjectMember) (h : p.Limited) :
    (value (inferMembers call p ms) σ).Limited := by
  induction ms generalizing p σ with
  | nil => exact h
  | cons m ms ih =>
    cases m with
    | field => exact ih (h.put _ _ _)
    | spread => exact ih (h.spread _)

theorem length_inferMembers_singleton (hc : CallerGives Narrow call) (hσ : σ.Has Narrow)
    (item : ObjectMember) :
    (value (inferMembers call p [item]) σ).fields.length ≤ p.fields.length * maxBranches := by
  cases item with
  | field =>
    simp only [inferMembers, value_bind, value_pure, Partials.put, List.length_map]
    exact Nat.le_mul_of_pos_right _ (by decide)
  | spread e =>
    simp only [inferMembers, value_bind, value_pure, length_spread]
    exact Nat.mul_le_mul_left _ (fanOut_le ((gives_infer closed_narrow hc e).run σ hσ).1)

/-- What an object may be after the first of its members. -/
def partialsAfter (call : Caller) (ms : List ObjectMember) (σ : State) : Partials :=
  value (inferMembers call ⟨[[]], false⟩ ms) σ

theorem length_partialsAfter_append (hc : CallerGives Narrow call) (hσ : σ.Has Narrow)
    (before : List ObjectMember) (item : ObjectMember) :
    (partialsAfter call (before ++ [item]) σ).fields.length ≤
      (partialsAfter call before σ).fields.length * maxBranches := by
  have hnarrow := ((gives_inferMembers closed_narrow hc .start before).run σ hσ).2
  rw [partialsAfter, inferMembers_append, value_bind]
  exact length_inferMembers_singleton hc hnarrow item

end

end Check

namespace Program

open Check (partialsAfter)

/-- Wherever a check reads an object, the sets of fields after some of its members keep within the
limit as long as the object is known; and as long as they do, one more member makes no more of them
than the limit squared. -/
theorem length_partialsAfter_le {limits : Limits} {schema : Schema} {program : Program}
    {levels : Nat} {span : Span} {before after : List ObjectMember} {item : ObjectMember}
    {σ : Check.State}
    (h : program.Asks limits schema
      ⟨levels, .expr (.object span (before ++ item :: after)), σ⟩) :
    ((partialsAfter (Check.call limits.maxDepth levels) before σ).isUnknown = false →
      (partialsAfter (Check.call limits.maxDepth levels) before σ).fields.length ≤
        Shape.maxBranches) ∧
    ((partialsAfter (Check.call limits.maxDepth levels) before σ).fields.length ≤
        Shape.maxBranches →
      (partialsAfter (Check.call limits.maxDepth levels) (before ++ [item]) σ).fields.length ≤
        Shape.maxBranches * Shape.maxBranches) := by
  have hlimited : (⟨[[]], false⟩ : Check.Partials).Limited := fun _ => by decide
  refine ⟨Check.limited_inferMembers before hlimited, fun hlength => ?_⟩
  have hc := Check.callerGives_call Shape.closed_narrow limits.maxDepth levels
  exact Nat.le_trans
    (Check.length_partialsAfter_append hc (h.begins Shape.closed_narrow).2 before item)
    (Nat.mul_le_mul_right _ hlength)

/-- Members that each spread one of two objects, which a check cannot tell apart. -/
def doublings (n : Nat) : List ObjectMember :=
  .replicate n (.spread (undecided (.object default []) (.object default [])))

theorem length_doublings (n : Nat) (call : Check.Caller) (σ : Check.State) :
    (partialsAfter call (doublings n) σ).fields.length = 2 ^ n := by
  suffices h : ∀ σ (p : Check.Partials),
      (Check.value (Check.inferMembers call p (doublings n)) σ).fields.length =
        p.fields.length * 2 ^ n from (h σ _).trans (Nat.one_mul _)
  intro σ
  induction n generalizing σ with
  | zero => exact fun p => (Nat.mul_one _).symm
  | succ n ih =>
    intro p
    have hfan : Check.fanOut (Check.value (Check.infer call
      (undecided (.object default []) (.object default []))) σ) = 2 := rfl
    rw [doublings, List.replicate_succ, Check.inferMembers, Check.value_bind, Check.value_bind,
      ← doublings, ih, Check.length_spread, hfan, Nat.pow_succ, Nat.mul_assoc, Nat.mul_comm 2]

theorem asks_object (limits : Limits) (ms : List ObjectMember) :
    (assigning (.object default ms)).Asks limits textsSchema
      ⟨limits.maxDepth, .expr (.object default ms), Check.initial textsSchema⟩ :=
  ⟨[], _, [], _, _, rfl, rfl, .refl⟩

/-- Six doublings keep within the limit, and a seventh, which is past it, within its square. -/
theorem length_partialsAfter_le_seven :
    (assigning (.object default (doublings 6 ++ doublings 1))).Asks .standard textsSchema
      ⟨128, .expr (.object default (doublings 6 ++ doublings 1)), Check.initial textsSchema⟩ ∧
    (partialsAfter (Check.call 128 128) (doublings 6) (Check.initial textsSchema)).fields.length ≤
      Shape.maxBranches ∧
    (partialsAfter (Check.call 128 128) (doublings 6 ++ doublings 1)
      (Check.initial textsSchema)).fields.length ≤ Shape.maxBranches * Shape.maxBranches := by
  have hasks := asks_object .standard (doublings 6 ++ doublings 1)
  have hsix : (partialsAfter (Check.call 128 128) (doublings 6)
      (Check.initial textsSchema)).fields.length ≤ Shape.maxBranches := by
    rw [length_doublings]
    decide
  exact ⟨hasks, hsix, (length_partialsAfter_le hasks).2 hsix⟩

/-- There is no bound on the sets of fields that a check keeps while it reads an object. -/
theorem partialsAfter_unbounded (limits : Limits) (bound : Nat) :
    ∃ (program : Program) (span : Span) (ms : List ObjectMember) (σ : Check.State),
      program.Asks limits textsSchema ⟨limits.maxDepth, .expr (.object span ms), σ⟩ ∧
      bound < (partialsAfter (Check.call limits.maxDepth limits.maxDepth) ms σ).fields.length :=
  ⟨_, _, _, _, asks_object limits (doublings bound), by
    rw [length_doublings]
    exact Nat.lt_two_pow_self⟩

end Program

end TypedConfig
