import Mathlib.Logic.Relation
import TypedConfig.Check.Match
import TypedConfig.Proofs.Schema.Loaded

/-! # Types that open

A value that is matched against a type may be matched against another type next, while it stays
the same value: against the declaration of a name, an alternative of a union, or the element of
a sequence that admits a single value. A schema is guarded if no declared type comes back to
itself in this way. In a guarded schema every type opens for a bounded number of steps.
-/

namespace TypedConfig

open Relation (TransGen ReflTransGen)

/-- Types whose names are all declared. -/
inductive Ty.Over (types : List TypeDeclaration) : Ty → Prop
  | scalar (kind : ScalarKind) : Over types (.scalar kind)
  | literal (values : List Scalar) : Over types (.literal values)
  | record (name : Option String) {fields : TyFields} (fieldTypes : ∀ f ∈ fields, Over types f.2) :
    Over types (.record name fields)
  | union {ts : List Ty} (alternatives : ∀ t ∈ ts, Over types t) : Over types (.union ts)
  | sequence {t : Ty} (acceptsSingle : Bool) (element : Over types t) :
    Over types (.sequence t acceptsSingle)
  | map (keyName : String) {t : Ty} (value : Over types t) : Over types (.map keyName t)
  | named {name : String} (declared : ∃ d ∈ types, d.name = name) : Over types (.named name)

theorem Ty.WellFormed.toOver {types : List TypeDeclaration} {t : Ty} (h : t.WellFormed types) :
    t.Over types := by
  induction h with
  | scalar kind => exact .scalar kind
  | literal => exact .literal _
  | record _ _ ih => exact .record _ ih
  | union _ _ _ ih => exact .union ih
  | sequence _ ih => exact .sequence _ ih
  | map _ ih => exact .map _ ih
  | named declared => exact .named declared

namespace Ty

/-- How deep a type opens where names open as deep as they are ranked. -/
def rankOf (rank : String → Nat) : Ty → Nat
  | .named name => rank name
  | .union ts => 1 + rankOfList rank ts
  | .sequence t true => 1 + rankOf rank t
  | _ => 0
where
  rankOfList (rank : String → Nat) : List Ty → Nat
    | [] => 0
    | t :: ts => max (rankOf rank t) (rankOfList rank ts)

theorem rankOf_le_of_mem {rank : String → Nat} {ts : List Ty} {t : Ty} (h : t ∈ ts) :
    rankOf rank t ≤ rankOf.rankOfList rank ts := by
  induction ts with
  | nil => cases h
  | cons u rest ih =>
    rw [rankOf.rankOfList]
    rcases List.mem_cons.1 h with rfl | h
    · exact Nat.le_max_left ..
    · exact Nat.le_trans (ih h) (Nat.le_max_right ..)

end Ty

namespace Schema

variable {s : Schema} {t u : Ty} {d : TypeDeclaration} {seen : List String} {n w : Nat}

/-- What a value of a type is matched against next without a step into the value. -/
inductive Opens (s : Schema) : Ty → Ty → Prop
  | declaration {name : String} {d : TypeDeclaration} (h : s.type? name = some d) :
    Opens s (.named name) d.type
  | alternative {ts : List Ty} {t : Ty} (h : t ∈ ts) : Opens s (.union ts) t
  | single (t : Ty) : Opens s (.sequence t true) t

/-- No declared type opens to itself. -/
def Guarded (s : Schema) : Prop :=
  ∀ d ∈ s.types, ¬ TransGen s.Opens (.named d.name) (.named d.name)

theorem opens_follow (n : Nat) (t : Ty) : ReflTransGen s.Opens t (s.follow n t) := by
  induction n generalizing t with
  | zero => exact .refl
  | succ n ih =>
    unfold follow
    split
    · split
      · exact .head (.declaration ‹_›) (ih _)
      · exact .refl
    · exact .refl

theorem opens_resolve (t : Ty) : ReflTransGen s.Opens t (s.resolve t) := opens_follow _ t

theorem opens_resolve_named {name : String} (h : ∃ d ∈ s.types, d.name = name) :
    TransGen s.Opens (.named name) (s.resolve (.named name)) := by
  obtain ⟨d, hd⟩ := type?_of_declared h
  rw [resolve, follow_named hd]
  exact .head' (.declaration hd) (opens_follow _ _)

theorem opens_leaves {a : String × Ty} (ha : a ∈ s.leaves n t) : ReflTransGen s.Opens t a.2 := by
  induction n generalizing t with
  | zero =>
    cases List.mem_singleton.1 ha
    exact opens_resolve t
  | succ n ih =>
    rw [leaves] at ha
    split at ha
    · rename_i ts hts
      obtain ⟨u, hu, ha⟩ := List.mem_flatMap.1 ha
      have hopen := opens_resolve (s := s) t
      rw [hts] at hopen
      exact (hopen.tail (.alternative hu)).trans (ih ha)
    · cases List.mem_singleton.1 ha
      exact opens_resolve t

/-- The alternatives of a union are below it. -/
theorem opens_flatten {ts : List Ty} {a : String × Ty} (ha : a ∈ s.flatten (.union ts)) :
    TransGen s.Opens (.union ts) a.2 := by
  have hr : s.resolve (.union ts) = .union ts := follow_structural (fun _ => Ty.noConfusion) _
  rw [flatten, leaves, hr] at ha
  obtain ⟨u, hu, ha⟩ := List.mem_flatMap.1 ha
  exact .head' (.alternative hu) (opens_leaves ha)

theorem rankOf_lt_of_opens {rank : String → Nat}
    (h : ∀ d ∈ s.types, d.type.rankOf rank < rank d.name)
    (ho : s.Opens t u) : u.rankOf rank < t.rankOf rank := by
  cases ho with
  | declaration hd =>
    obtain ⟨hm, rfl⟩ := name_of_type? hd
    rw [Ty.rankOf]
    exact h _ hm
  | alternative hm =>
    have hle : u.rankOf rank ≤ _ := Ty.rankOf_le_of_mem hm
    rw [Ty.rankOf]
    omega
  | single t =>
    rw [Ty.rankOf]
    omega

theorem rankOf_lt_of_transGen {rank : String → Nat}
    (h : ∀ d ∈ s.types, d.type.rankOf rank < rank d.name)
    (ho : TransGen s.Opens t u) : u.rankOf rank < t.rankOf rank := by
  induction ho with
  | single ho => exact rankOf_lt_of_opens h ho
  | tail _ ho ih => exact Nat.lt_trans (rankOf_lt_of_opens h ho) ih

/-- A schema is guarded if its names can be ranked above the types that they stand for. -/
theorem guarded_of_rank (rank : String → Nat)
    (h : ∀ d ∈ s.types, d.type.rankOf rank < rank d.name) : s.Guarded :=
  fun _ _ hd => Nat.lt_irrefl _ (rankOf_lt_of_transGen h hd)

/-- The number of nodes of the declared types that a walk has not come to. -/
def unseen (s : Schema) (seen : List String) : Nat :=
  (s.types.map fun d => if d.name ∈ seen then 0 else d.type.size).sum

/-- A walk that comes to a declared type passes its nodes. -/
theorem unseen_cons (hd : d ∈ s.types) (hn : d.name ∉ seen) :
    d.type.size + s.unseen (d.name :: seen) ≤ s.unseen seen := by
  unfold unseen
  generalize s.types = types at hd
  have hle (e : TypeDeclaration) :
      (if e.name ∈ d.name :: seen then 0 else e.type.size) ≤
        if e.name ∈ seen then 0 else e.type.size := by
    by_cases h : e.name ∈ seen <;> by_cases h' : e.name = d.name <;> simp [h, h']
  induction types with
  | nil => cases hd
  | cons e rest ih =>
    simp only [List.map_cons, List.sum_cons]
    rcases List.mem_cons.1 hd with rfl | hd
    · have hrest := List.sum_le_sum fun e (_ : e ∈ rest) => hle e
      rw [if_pos List.mem_cons_self, if_neg hn]
      omega
    · have hrest := ih hd
      have hhead := hle e
      omega

theorem size_le_unseen (hd : d ∈ s.types) : d.type.size ≤ s.unseen [] :=
  Nat.le_trans (Nat.le_add_right ..) (unseen_cons hd List.not_mem_nil)

theorem size_lt_of_alternative {ts : List Ty} (h : t ∈ ts) : t.size < (Ty.union ts).size := by
  rw [Ty.size]
  induction ts with
  | nil => cases h
  | cons u rest ih =>
    rw [Ty.size.sizeList]
    rcases List.mem_cons.1 h with rfl | h
    · omega
    · have := ih h
      omega

theorem size_lt_of_field {name : Option String} {fields : TyFields} {f : FieldInfo × Ty}
    (h : f ∈ fields) : f.2.size < (Ty.record name fields).size := by
  rw [Ty.size]
  induction fields with
  | nil => cases h
  | cons g rest ih =>
    rw [Ty.size.sizeFields]
    rcases List.mem_cons.1 h with rfl | h
    · omega
    · have := ih h
      omega

/-- A type of at most `bound` nodes over the declarations that opens for at most `w` steps: a
walk has come to it through the declared types it has seen, and none of them comes again. -/
structure OpensFor (s : Schema) (bound : Nat) (t : Ty) (w : Nat) : Prop where
  names : t.Over s.types
  size : t.size ≤ bound
  walk : ∃ seen, (∀ name ∈ seen, TransGen s.Opens (.named name) t) ∧ t.size + s.unseen seen ≤ w

namespace OpensFor

variable {bound : Nat}

theorem start (ho : t.Over s.types) (hb : t.size ≤ bound) :
    s.OpensFor bound t (t.size + s.unseen []) := ⟨ho, hb, [], nofun, Nat.le_refl _⟩

/-- Each step leaves fewer of them. -/
theorem step (hs : ∀ d ∈ s.types, d.type.Over s.types) (hg : s.Guarded)
    (hb : s.unseen [] ≤ bound) (h : s.OpensFor bound t w) (ho : s.Opens t u) :
    ∃ v, v < w ∧ s.OpensFor bound u v := by
  obtain ⟨hover, hsize, seen, hseen, hw⟩ := h
  have hopen : ∀ name ∈ seen, TransGen s.Opens (.named name) u := fun name hm =>
    (hseen name hm).tail ho
  cases ho with
  | @declaration name d hd =>
    obtain ⟨hm, rfl⟩ := name_of_type? hd
    have hnew : d.name ∉ seen := fun hin => hg d hm (hseen _ hin)
    have hless := unseen_cons hm hnew
    rw [Ty.size] at hw
    refine ⟨d.type.size + s.unseen (d.name :: seen), by omega, hs d hm, ?_, _, ?_, Nat.le_refl _⟩
    · exact Nat.le_trans (size_le_unseen hm) hb
    · exact List.forall_mem_cons.2 ⟨.single (.declaration hd), hopen⟩
  | alternative hm =>
    have hless := size_lt_of_alternative hm
    cases hover with
    | union alternatives =>
      exact ⟨u.size + s.unseen seen, by omega, alternatives u hm, by omega, seen, hopen,
        Nat.le_refl _⟩
  | single _ =>
    rw [Ty.size] at hw hsize
    cases hover with
    | sequence _ element =>
      exact ⟨u.size + s.unseen seen, by omega, element, by omega, seen, hopen, Nat.le_refl _⟩

theorem reflTransGen (hs : ∀ d ∈ s.types, d.type.Over s.types) (hg : s.Guarded)
    (hb : s.unseen [] ≤ bound) (h : s.OpensFor bound t w) (ho : ReflTransGen s.Opens t u) :
    ∃ v, v ≤ w ∧ s.OpensFor bound u v := by
  induction ho with
  | refl => exact ⟨w, Nat.le_refl _, h⟩
  | tail _ hlast ih =>
    obtain ⟨v, hv, h⟩ := ih
    obtain ⟨v', hv', h⟩ := h.step hs hg hb hlast
    exact ⟨v', by omega, h⟩

theorem transGen (hs : ∀ d ∈ s.types, d.type.Over s.types) (hg : s.Guarded)
    (hb : s.unseen [] ≤ bound) (h : s.OpensFor bound t w) (ho : TransGen s.Opens t u) :
    ∃ v, v < w ∧ s.OpensFor bound u v := by
  obtain ⟨m, hm, hrest⟩ := TransGen.head'_iff.1 ho
  obtain ⟨v, hv, h⟩ := h.step hs hg hb hm
  obtain ⟨v', hv', h⟩ := h.reflTransGen hs hg hb hrest
  exact ⟨v', by omega, h⟩

end OpensFor

end Schema

end TypedConfig
