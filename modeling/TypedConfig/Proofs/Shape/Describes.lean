import Mathlib.Data.List.Forall2
import TypedConfig.Eval.Datum
import TypedConfig.Shape

/-! # The data that a shape describes

On a lax reading a shape describes every datum that agrees with what is known; on a strict
reading it has to leave nothing open, and then it describes one datum. An unknown shape
describes nothing: it stands in the place of a failure. The views of a shape agree with those of
each datum that it describes.
-/

namespace TypedConfig

/-- What is known of a value is that value; on a lax reading it may be nothing. -/
def Knows {α : Type} (lax : Prop) (known : Option α) (a : α) : Prop :=
  known = some a ∨ lax ∧ known = none

namespace Knows

variable {α β : Type} {lax : Prop} {a : α} {known : Option α}

@[simp] theorem some_iff {b : α} : Knows lax (some b) a ↔ b = a := by simp [Knows]

@[simp] theorem none_iff : Knows lax none a ↔ lax := by simp [Knows]

theorem map (f : α → β) (h : Knows lax known a) : Knows lax (known.map f) (f a) := by
  rcases h with rfl | ⟨hl, rfl⟩ <;> simp [*]

end Knows

namespace Shape

mutual

def Describes (lax : Prop) : Shape → Datum → Prop
  | .string _ known, d => ∃ v, d = .string v ∧ Knows lax known v
  | .number _ known, d => ∃ v, d = .number v ∧ Knows lax known v
  | .boolean _ known, d => ∃ v, d = .boolean v ∧ Knows lax known v
  | .sentinel _ c, d => d = .sentinel c
  | .record _ fields, d => ∃ entries, d = .object entries ∧ DescribesFields lax fields entries
  | .tuple _ items, d => ∃ ds, d = .array ds ∧ DescribesAll lax items ds
  | .array _ element, d => lax ∧ ∃ ds, d = .array ds ∧ ∀ x ∈ ds, Describes lax element x
  | .function _ params body captured, d =>
    ∃ frames, d = .function params body frames ∧ DescribesFrames lax captured frames
  | .null _, d => d = .null
  | .undefined _, d => d = .undefined
  | .oneOf _ branches, d => lax ∧ DescribesSome lax branches d
  | .unknown _, _ => False

def DescribesFields (lax : Prop) : List (String × Span × Shape) → List (String × Datum) → Prop
  | [], entries => entries = []
  | (key, _, shape) :: fields, entries =>
    ∃ d rest, entries = (key, d) :: rest ∧ Describes lax shape d ∧ DescribesFields lax fields rest

def DescribesAll (lax : Prop) : List Shape → List Datum → Prop
  | [], ds => ds = []
  | shape :: shapes, ds =>
    ∃ d rest, ds = d :: rest ∧ Describes lax shape d ∧ DescribesAll lax shapes rest

def DescribesFrames (lax : Prop) :
    List (List (String × Shape)) → List (List (String × Datum)) → Prop
  | [], gs => gs = []
  | f :: fs, gs => ∃ g rest, gs = g :: rest ∧ DescribesFrame lax f g ∧ DescribesFrames lax fs rest

def DescribesFrame (lax : Prop) : List (String × Shape) → List (String × Datum) → Prop
  | [], g => g = []
  | (name, shape) :: f, g =>
    ∃ d rest, g = (name, d) :: rest ∧ Describes lax shape d ∧ DescribesFrame lax f rest

def DescribesSome (lax : Prop) : List Shape → Datum → Prop
  | [], _ => False
  | shape :: shapes, d => Describes lax shape d ∨ DescribesSome lax shapes d

end

variable {lax : Prop}

theorem describesAll_iff {shapes : List Shape} {ds : List Datum} :
    DescribesAll lax shapes ds ↔ List.Forall₂ (Describes lax) shapes ds := by
  induction shapes generalizing ds with
  | nil => simp [DescribesAll]
  | cons shape shapes ih =>
    simp only [DescribesAll, List.forall₂_cons_left_iff, ih]
    constructor
    · rintro ⟨d, rest, rfl, hd, hr⟩
      exact ⟨d, rest, hd, hr, rfl⟩
    · rintro ⟨d, rest, hd, hr, rfl⟩
      exact ⟨d, rest, rfl, hd, hr⟩

theorem describesSome_iff {shapes : List Shape} {d : Datum} :
    DescribesSome lax shapes d ↔ ∃ shape ∈ shapes, Describes lax shape d := by
  induction shapes with
  | nil => simp [DescribesSome]
  | cons shape shapes ih => simp [DescribesSome, ih]

end Shape

end TypedConfig
