import TypedConfig.Proofs.Depth.Trees
import TypedConfig.Proofs.Order.Loads

/-! # How deep types are

The nesting of a type counts the steps down except those into the elements of sequences. A level
of the reader of type expressions adds two to it: one for an alternative, as a record or a map may
hold an expression of the level inside, and one for a union. Sequences directly inside each other
are not limited, so they bound the height together with the nesting.
-/

namespace TypedConfig

namespace Ty

/-- The number of nodes on the longest path down a type, where a step into the elements of a
sequence counts as much as given. -/
def depth (sequence : Nat) : Ty → Nat
  | .scalar _ | .literal _ | .named _ => 1
  | .record _ fields => 1 + depthFields fields
  | .union ts => 1 + depthAll ts
  | .sequence t _ => sequence + depth sequence t
  | .map _ t => 1 + depth sequence t
where
  depthAll : List Ty → Nat
    | [] => 0
    | t :: ts => max (depth sequence t) (depthAll ts)
  depthFields : List (FieldInfo × Ty) → Nat
    | [] => 0
    | (_, t) :: fs => max (depth sequence t) (depthFields fs)

/-- The number of nodes on the longest path down a type. -/
def height (t : Ty) : Nat := t.depth 1

/-- The height without the sequences. -/
def nesting (t : Ty) : Nat := t.depth 0

theorem height_sequence_le_iff {t : Ty} {single : Bool} {n : Nat} :
    (sequence t single).height ≤ n + 1 ↔ t.height ≤ n := by
  rw [height, depth, Nat.add_comm, Nat.add_le_add_iff_right, height]

theorem height_map_le_iff {key : String} {t : Ty} {n : Nat} :
    (map key t).height ≤ n + 1 ↔ t.height ≤ n := by
  rw [height, depth, Nat.add_comm, Nat.add_le_add_iff_right, height]

/-- The number of sequences directly inside each other at the top of a type. -/
def sequences : Ty → Nat
  | .sequence t _ => t.sequences + 1
  | _ => 0

/-- The greatest number of sequences directly inside each other in a type. -/
def longestRun : Ty → Nat
  | .scalar _ | .literal _ | .named _ => 0
  | .record _ fields => longestRunFields fields
  | .union ts => longestRunAll ts
  | .sequence t _ => max (t.sequences + 1) t.longestRun
  | .map _ t => t.longestRun
where
  longestRunAll : List Ty → Nat
    | [] => 0
    | t :: ts => max t.longestRun (longestRunAll ts)
  longestRunFields : List (FieldInfo × Ty) → Nat
    | [] => 0
    | (_, t) :: fs => max t.longestRun (longestRunFields fs)

theorem sequences_le_longestRun (t : Ty) : t.sequences ≤ t.longestRun := by
  cases t with
  | sequence => exact Nat.le_max_left ..
  | _ => exact Nat.zero_le _

variable {k n : Nat}

theorem depth_le_of_sequences {t : Ty} (h : t.longestRun ≤ k)
    (hrun : t.depth 1 + k ≤ t.sequences + t.depth 0 * (k + 1)) :
    t.depth 1 ≤ t.depth 0 * (k + 1) := by
  have := t.sequences_le_longestRun
  omega

mutual

/-- A run of sequences reaches down to a type of the same nesting. -/
theorem depth_le_sequences : ∀ {t : Ty}, t.longestRun ≤ k →
    t.depth 1 + k ≤ t.sequences + t.depth 0 * (k + 1)
  | .scalar _, _ | .literal _, _ | .named _, _ => node_le (Nat.zero_le (0 * (k + 1)))
  | .record _ fields, h => node_le (@depthFields_le fields h)
  | .union ts, h => node_le (@depthAll_le ts h)
  | .map _ t, h => node_le (depth_le_of_sequences h (depth_le_sequences (t := t) h))
  | .sequence t _, h => by
    have ht := depth_le_sequences (Nat.max_le.1 h).2
    simp only [depth, sequences, Nat.zero_add]
    omega

theorem depthAll_le : ∀ {ts : List Ty}, longestRun.longestRunAll ts ≤ k →
    depth.depthAll 1 ts ≤ depth.depthAll 0 ts * (k + 1)
  | [], _ => Nat.zero_le _
  | _ :: _, h =>
    have ht := (Nat.max_le.1 h).1
    max_le_max_mul (depth_le_of_sequences ht (depth_le_sequences ht))
      (depthAll_le (Nat.max_le.1 h).2)

theorem depthFields_le : ∀ {fields : List (FieldInfo × Ty)},
    longestRun.longestRunFields fields ≤ k →
    depth.depthFields 1 fields ≤ depth.depthFields 0 fields * (k + 1)
  | [], _ => Nat.zero_le _
  | _ :: _, h =>
    have ht := (Nat.max_le.1 h).1
    max_le_max_mul (depth_le_of_sequences ht (depth_le_sequences ht))
      (depthFields_le (Nat.max_le.1 h).2)

end

/-- The nesting and the longest run of sequences bound the height. -/
theorem height_le (t : Ty) : t.height ≤ t.nesting * (t.longestRun + 1) :=
  depth_le_of_sequences (Nat.le_refl _) (depth_le_sequences (Nat.le_refl _))

theorem depthAll_le_iff {ts : List Ty} {s : Nat} :
    depth.depthAll s ts ≤ n ↔ ∀ t ∈ ts, t.depth s ≤ n := by
  induction ts with
  | nil => simp [depth.depthAll]
  | cons t ts ih => rw [depth.depthAll, Nat.max_le, ih, List.forall_mem_cons]

theorem depthFields_le_iff {fields : List (FieldInfo × Ty)} {s : Nat} :
    depth.depthFields s fields ≤ n ↔ ∀ f ∈ fields, f.2.depth s ≤ n := by
  induction fields with
  | nil => simp [depth.depthFields]
  | cons f fields ih => rw [depth.depthFields, Nat.max_le, ih, List.forall_mem_cons]

/-- The union of alternatives is at most one step deeper than they are. -/
theorem nesting_unite_le {ts : List Ty} (h : ∀ t ∈ ts, t.nesting ≤ n) :
    (unite ts).nesting ≤ n + 1 := by
  have hunion : (union ts).nesting ≤ n + 1 :=
    Nat.add_comm n 1 ▸ Nat.add_le_add_left (depthAll_le_iff.2 h) 1
  match ts with
  | [] => exact hunion
  | [t] => exact Nat.le_succ_of_le (h t (.head _))
  | t :: u :: rest =>
    rw [unite_of_two_le (Nat.le_add_left ..)]
    split
    · exact Nat.le_add_left ..
    · exact hunion

end Ty

/-- The type of an expression nests no deeper than given. -/
def TyTerm.NestsWithin (n : Nat) (t : TyTerm) : Prop := t.type.nesting ≤ n

namespace TyTerm.NestsWithin

variable {n : Nat} {t : TyTerm}

theorem mono {m : Nat} (h : t.NestsWithin n) (hm : n ≤ m) : t.NestsWithin m := Nat.le_trans h hm

theorem record {fields : List (FieldInfo × TyTerm)} (h : ∀ f ∈ fields, f.2.NestsWithin n)
    (owner : Option String) : (TyTerm.record owner fields).NestsWithin (n + 1) := by
  have hfields : ∀ f ∈ fieldTypes fields, f.2.depth 0 ≤ n := by
    rw [fieldTypes_eq]
    exact List.forall_mem_map.2 h
  exact Nat.add_comm n 1 ▸ Nat.add_le_add_left (Ty.depthFields_le_iff.2 hfields) 1

theorem map (h : t.NestsWithin n) (key : String) : (TyTerm.map key t).NestsWithin (n + 1) :=
  Nat.add_comm n 1 ▸ Nat.add_le_add_left h 1

theorem sequence (h : t.NestsWithin n) (single : Bool) : (TyTerm.sequence t single).NestsWithin n :=
  Nat.le_trans (Nat.le_of_eq (Nat.zero_add _)) h

theorem ofAlternatives {ts : List TyTerm} (ht : t.NestsWithin n)
    (hts : ∀ u ∈ ts, u.NestsWithin n) : (ofAlternatives (t :: ts)).NestsWithin (n + 1) := by
  cases ts with
  | nil => exact ht.mono (Nat.le_succ n)
  | cons u rest =>
    have hall : ∀ a ∈ types (t :: u :: rest), a.nesting ≤ n := by
      rw [types_eq]
      exact List.forall_mem_map.2 (List.forall_mem_cons.2 ⟨ht, hts⟩)
    exact Ty.nesting_unite_le hall

end TyTerm.NestsWithin

namespace Declaration

/-- A level of nesting adds an alternative, which may hold an expression of the level inside, and
a union of alternatives. -/
theorem carries_nestsWithin {K : Lexeme → Prop} (n : Nat) :
    Carries K (TyTerm.NestsWithin n) (TyTerm.NestsWithin (n + 1)) (TyTerm.NestsWithin (n + 2)) where
  scalar _ := Nat.le_add_left 1 n
  literal _ := Nat.le_add_left 1 n
  reference _ _ _ := Nat.le_add_left 1 n
  record owner _ _ h := .record h owner
  map key _ _ h := h.map key
  element _ single h := (h.mono (Nat.le_succ n)).sequence single
  group _ h := h.mono (Nat.le_succ n)
  bracketed _ h := h.sequence false
  union _ _ h hs := h.ofAlternatives hs

theorem nesting_of_ofTokens {maxDepth : Nat} {tokens : List Lexeme} {ds : List Declaration}
    (h : ofTokens maxDepth tokens = .ok ds) :
    ∀ d ∈ ds, d.BodyHas (TyTerm.NestsWithin (2 * maxDepth + 1)) :=
  (reads_all (K := fun _ => True) (P := fun n => TyTerm.NestsWithin (2 * n))
    (fun n => carries_nestsWithin (2 * n)) maxDepth _).result (.all _) _ h

end Declaration

/-- The types of a schema that loads nest within the limit on nesting, but for two steps at each
level and one in an interface. -/
theorem Schema.nesting_of_load {limits : Limits} {sources : List Source} {schema : Schema}
    (h : load limits sources = .ok schema) :
    (∀ d ∈ schema.types, d.type.nesting ≤ 2 * limits.maxDepth + 1) ∧
      schema.root.type.nesting ≤ 2 * limits.maxDepth + 1 := by
  refine forall_of_load (P := fun t => t.nesting ≤ 2 * limits.maxDepth + 1) h fun source d hd => ?_
  obtain ⟨tokens, ds, -, hread, hd⟩ := ofTokens_of_declared hd
  exact Declaration.nesting_of_ofTokens hread d hd

end TypedConfig
