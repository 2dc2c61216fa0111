import TypedConfig.Proofs.Schema.Guarded

/-! # The alternatives of a type

A type is opened to its alternatives by following names and by going into unions, until what is
left are types of other forms. The list of alternatives is opened to a fixed number of levels, one
more than there are declarations. That is enough for unions that nest through names, since no name
comes twice where unions end; unions written inside unions may nest deeper.
-/

namespace TypedConfig.Schema

open Relation (TransGen ReflTransGen)

variable {s : Schema} {t u : Ty} {ts : List Ty} {label : String} {ls : List (String × Ty)}
  {n m : Nat}

/-- One step into the alternatives of a type. -/
inductive Unfolds (s : Schema) : Ty → Ty → Prop
  | declaration {name : String} {d : TypeDeclaration} (h : s.type? name = some d) :
    Unfolds s (.named name) d.type
  | alternative {ts : List Ty} {t : Ty} (h : t ∈ ts) : Unfolds s (.union ts) t

/-- No union is reached from itself through alternatives and names. -/
def UnionsEnd (s : Schema) : Prop := ∀ ts, ¬ TransGen s.Unfolds (.union ts) (.union ts)

/-- Whether a type is neither a name nor a union. -/
def IsLeaf (t : Ty) : Prop := (∀ name, t ≠ .named name) ∧ ∀ ts, t ≠ .union ts

theorem IsLeaf.scalar (k : ScalarKind) : IsLeaf (.scalar k) := ⟨nofun, nofun⟩

theorem IsLeaf.literal (values : List Scalar) : IsLeaf (.literal values) := ⟨nofun, nofun⟩

theorem IsLeaf.record (owner : Option String) (fields : List (FieldInfo × Ty)) :
    IsLeaf (.record owner fields) := ⟨nofun, nofun⟩

theorem IsLeaf.sequence (element : Ty) (acceptsSingle : Bool) :
    IsLeaf (.sequence element acceptsSingle) := ⟨nofun, nofun⟩

theorem IsLeaf.map (keyName : String) (value : Ty) : IsLeaf (.map keyName value) := ⟨nofun, nofun⟩

theorem named_or_union_or_isLeaf (t : Ty) :
    (∃ name, t = .named name) ∨ (∃ ts, t = .union ts) ∨ IsLeaf t := by
  cases t with
  | named name => exact .inl ⟨name, rfl⟩
  | union ts => exact .inr (.inl ⟨ts, rfl⟩)
  | scalar kind => exact .inr (.inr (.scalar kind))
  | literal values => exact .inr (.inr (.literal values))
  | record owner fields => exact .inr (.inr (.record owner fields))
  | sequence element acceptsSingle => exact .inr (.inr (.sequence element acceptsSingle))
  | map keyName value => exact .inr (.inr (.map keyName value))

/-- What labelled types expand to in place: a name stands for its declaration under the same label,
and a union for its alternatives, each labelled with its own text. -/
inductive ExpandTo (s : Schema) : List (String × Ty) → List (String × Ty) → Prop
  | nil : ExpandTo s [] []
  | named {label name : String} {d : TypeDeclaration} {rest ls : List (String × Ty)}
    (h : s.type? name = some d) (more : ExpandTo s ((label, d.type) :: rest) ls) :
    ExpandTo s ((label, .named name) :: rest) ls
  | union {label : String} {ts : List Ty} {rest ls : List (String × Ty)}
    (more : ExpandTo s (ts.map (fun t => (t.text, t)) ++ rest) ls) :
    ExpandTo s ((label, .union ts) :: rest) ls
  | leaf {label : String} {t : Ty} {rest ls : List (String × Ty)} (h : IsLeaf t)
    (more : ExpandTo s rest ls) : ExpandTo s ((label, t) :: rest) ((label, t) :: ls)

namespace ExpandTo

variable {as bs ls ms : List (String × Ty)}

theorem unique (h : s.ExpandTo as ls) (h' : s.ExpandTo as ms) : ls = ms := by
  induction h generalizing ms with
  | nil =>
    cases h'
    rfl
  | named hd _ ih =>
    cases h' with
    | named hd' more =>
      rw [hd] at hd'
      cases hd'
      exact ih more
    | leaf hl => exact (hl.1 _ rfl).elim
  | union _ ih =>
    cases h' with
    | union more => exact ih more
    | leaf hl => exact (hl.2 _ rfl).elim
  | leaf hl _ ih =>
    cases h' with
    | named => exact (hl.1 _ rfl).elim
    | union => exact (hl.2 _ rfl).elim
    | leaf _ more => rw [ih more]

theorem isLeaf (h : s.ExpandTo as ls) : ∀ a ∈ ls, IsLeaf a.2 := by
  induction h with
  | nil => exact nofun
  | named _ _ ih => exact ih
  | union _ ih => exact ih
  | leaf hl _ ih => exact List.forall_mem_cons.2 ⟨hl, ih⟩

theorem append (h : s.ExpandTo as ls) (h' : s.ExpandTo bs ms) :
    s.ExpandTo (as ++ bs) (ls ++ ms) := by
  induction h with
  | nil => exact h'
  | named hd _ ih => exact .named hd ih
  | union _ ih =>
    rw [List.append_assoc] at ih
    exact .union ih
  | leaf hl _ ih => exact .leaf hl ih

theorem of_follow (h : s.ExpandTo [(label, s.follow n t)] ls) : s.ExpandTo [(label, t)] ls := by
  induction n generalizing t with
  | zero => exact h
  | succ n ih =>
    unfold follow at h
    split at h
    · split at h
      · exact .named ‹_› (ih h)
      · exact h
    · exact h

/-- Alternatives expand one by one. -/
theorem flatMap {f : Ty → List (String × Ty)} (h : ∀ t ∈ ts, s.ExpandTo [(t.text, t)] (f t)) :
    s.ExpandTo (ts.map fun t => (t.text, t)) (ts.flatMap f) := by
  induction ts with
  | nil => exact .nil
  | cons t rest ih =>
    rw [List.forall_mem_cons] at h
    exact h.1.append (ih h.2)

end ExpandTo

/-- The unions of a type nest to at most a number of levels. -/
inductive NestsWithin (s : Schema) : Nat → Ty → Prop
  | named {n : Nat} {name : String} {d : TypeDeclaration} (h : s.type? name = some d)
    (rest : NestsWithin s n d.type) : NestsWithin s n (.named name)
  | union {n : Nat} {ts : List Ty} (parts : ∀ t ∈ ts, NestsWithin s n t) :
    NestsWithin s (n + 1) (.union ts)
  | leaf {n : Nat} {t : Ty} (h : IsLeaf t) : NestsWithin s n t

theorem NestsWithin.mono (h : s.NestsWithin n t) (hm : n ≤ m) : s.NestsWithin m t := by
  induction h generalizing m with
  | named hd _ ih => exact .named hd (ih hm)
  | union _ ih =>
    obtain ⟨m, rfl⟩ : ∃ k, m = k + 1 := ⟨m - 1, by omega⟩
    exact .union fun t ht => ih t ht (by omega)
  | leaf hl => exact .leaf hl

theorem NestsWithin.follow (h : s.NestsWithin n t) (m : Nat) : s.NestsWithin n (s.follow m t) := by
  induction m generalizing t with
  | zero => exact h
  | succ m ih =>
    unfold Schema.follow
    split
    · cases h with
      | named hd rest =>
        rw [hd]
        exact ih rest
      | leaf hl => exact (hl.1 _ rfl).elim
    · exact h

theorem NestsWithin.of_follow (h : s.NestsWithin n (s.follow m t)) : s.NestsWithin n t := by
  induction m generalizing t with
  | zero => exact h
  | succ m ih =>
    unfold Schema.follow at h
    split at h
    · split at h
      · exact .named ‹_› (ih h)
      · exact h
    · exact h

theorem over_follow (hs : ∀ d ∈ s.types, d.type.Over s.types) (h : t.Over s.types) (n : Nat) :
    (s.follow n t).Over s.types := by
  induction n generalizing t with
  | zero => exact h
  | succ n ih =>
    unfold follow
    split
    · split
      · exact ih (hs _ (name_of_type? ‹_›).1)
      · exact h
    · exact h

namespace WellFormed

variable (hw : s.WellFormed)
include hw

theorem typesOver {d : TypeDeclaration} (hd : d ∈ s.types) : d.type.Over s.types :=
  (hw.types d hd).toOver

theorem over_resolve (h : t.Over s.types) : (s.resolve t).Over s.types :=
  over_follow (fun _ => hw.typesOver) h _

theorem resolve_ne (h : t.Over s.types) (name : String) : s.resolve t ≠ .named name := by
  refine hw.resolve_ne_named t (fun name ht => ?_) name
  subst ht
  cases h with
  | named declared => exact declared

theorem over_alternative (h : t.Over s.types) (hr : s.resolve t = .union ts) :
    ∀ u ∈ ts, u.Over s.types := by
  have hu := hw.over_resolve h
  rw [hr] at hu
  cases hu with
  | union alternatives => exact alternatives

/-- The alternatives of unions that nest within the levels are what the type expands to. -/
theorem expandTo_leaves (ho : t.Over s.types) (h : s.NestsWithin n t) :
    s.ExpandTo [(t.text, t)] (s.leaves n t) := by
  have hleaf {u : Ty} {n : Nat} (ho : u.Over s.types) (hu : ∀ ts, s.resolve u ≠ .union ts) :
      s.ExpandTo [(u.text, u)] [(u.text, s.resolve u)] :=
    .of_follow (.leaf ⟨hw.resolve_ne ho, hu⟩ .nil)
  induction n generalizing t with
  | zero =>
    rw [leaves]
    refine hleaf (n := 0) ho fun ts hts => ?_
    have hr : s.NestsWithin 0 (s.resolve t) := h.follow _
    rw [hts] at hr
    cases hr with
    | leaf hl => exact hl.2 _ rfl
  | succ n ih =>
    have hr : s.NestsWithin (n + 1) (s.resolve t) := h.follow _
    rw [leaves]
    split
    · rename_i ts hts
      rw [hts] at hr
      cases hr with
      | union parts =>
        refine .of_follow (n := s.types.length + 1) ?_
        rw [← resolve, hts]
        refine .union ?_
        rw [List.append_nil]
        exact .flatMap fun u hu => ih (hw.over_alternative ho hts u hu) (parts u hu)
      | leaf hl => exact (hl.2 _ rfl).elim
    · exact hleaf (n := 0) ho ‹_›

/-- Where no alternative is left unopened, the unions nest within the levels. -/
theorem nestsWithin_of_leaves (ho : t.Over s.types) (h : ∀ a ∈ s.leaves n t, IsLeaf a.2) :
    s.NestsWithin n t := by
  refine .of_follow (m := s.types.length + 1) ?_
  rw [← resolve]
  induction n generalizing t with
  | zero => exact .leaf (h _ List.mem_cons_self)
  | succ n ih =>
    rw [leaves] at h
    split at h
    · rename_i ts hts
      rw [hts]
      refine .union fun u hu => ?_
      have hn := ih (hw.over_alternative ho hts u hu) fun a ha =>
        h a (List.mem_flatMap.2 ⟨u, hu, ha⟩)
      exact .of_follow hn
    · exact .leaf (h _ List.mem_cons_self)

/-- Alternatives opened to some levels are all of them if the unions nest within those levels, and
otherwise not. -/
theorem leaves_eq_iff (ho : t.Over s.types) (h : s.ExpandTo [(t.text, t)] ls) :
    s.leaves n t = ls ↔ s.NestsWithin n t := by
  constructor
  · rintro rfl
    exact hw.nestsWithin_of_leaves ho h.isLeaf
  · exact fun hn => (hw.expandTo_leaves ho hn).unique h

end WellFormed

theorem Unfolds.opens (h : s.Unfolds t u) : s.Opens t u := by
  cases h with
  | declaration hd => exact .declaration hd
  | alternative hu => exact .alternative hu

/-- Unions end if the names can be ranked above the types that they stand for. -/
theorem unionsEnd_of_rank (rank : String → Nat)
    (h : ∀ d ∈ s.types, d.type.rankOf rank < rank d.name) : s.UnionsEnd := by
  intro ts hts
  exact Nat.lt_irrefl _ (rankOf_lt_of_transGen h (hts.lift id fun _ _ => Unfolds.opens))

theorem unfolds_follow (n : Nat) (t : Ty) : ReflTransGen s.Unfolds t (s.follow n t) := by
  induction n generalizing t with
  | zero => exact .refl
  | succ n ih =>
    unfold follow
    split
    · split
      · exact .head (.declaration ‹_›) (ih _)
      · exact .refl
    · exact .refl

/-- A name that is come to again is come to from the types that names lead to. -/
theorem unfolds_of_follow {name : String} (hc : TransGen s.Unfolds (.named name) (.named name))
    (ht : ReflTransGen s.Unfolds t (.named name)) (n : Nat) :
    ReflTransGen s.Unfolds (s.follow n t) (.named name) := by
  induction n generalizing t with
  | zero => exact ht
  | succ n ih =>
    unfold follow
    split
    · rename_i other
      have hstep : TransGen s.Unfolds (.named other) (.named name) := by
        rcases ReflTransGen.cases_head ht with he | ⟨u, hu, hrest⟩
        · rwa [he]
        · exact .head' hu hrest
      obtain ⟨u, hu, hrest⟩ := TransGen.head'_iff.1 hstep
      cases hu with
      | declaration hd =>
        rw [hd]
        exact ih hrest
    · exact ht

/-- No union that a type unfolds to has a union written among its alternatives. -/
def FlatFrom (s : Schema) (t : Ty) : Prop :=
  ∀ ts, ReflTransGen s.Unfolds t (.union ts) → ∀ us, .union us ∉ ts

theorem FlatFrom.unfolds (h : s.FlatFrom t) (hu : s.Unfolds t u) : s.FlatFrom u :=
  fun ts hts => h ts (.head hu hts)

/-- Where unions end, no declared name is come to again. -/
theorem UnionsEnd.not_unfolds_named (hw : s.WellFormed) (he : s.UnionsEnd) {name : String}
    (hname : ∃ d ∈ s.types, d.name = name) : ¬ TransGen s.Unfolds (.named name) (.named name) := by
  intro hc
  have hr : s.resolve (.named name) = s.follow (s.types.length + 1) (.named name) := rfl
  have hback := unfolds_of_follow hc .refl (s.types.length + 1)
  have hthere := unfolds_follow (s := s) (s.types.length + 1) (.named name)
  have hne := hw.resolve_ne (.named hname)
  rw [hr] at hne
  rcases ReflTransGen.cases_head hback with heq | ⟨u, hu, hrest⟩
  · exact hne name heq
  · generalize s.follow (s.types.length + 1) (.named name) = r at hu hne hthere
    cases hu with
    | declaration => exact hne _ rfl
    | alternative hm =>
      exact he _ (TransGen.trans_left (.head' (.alternative hm) hrest) hthere)

/-- A walk has come to a type through different names. -/
structure Walk (s : Schema) (seen : List String) (t : Ty) : Prop where
  nodup : seen.Nodup
  declared : ∀ name ∈ seen, ∃ d ∈ s.types, d.name = name
  passed : ∀ name ∈ seen, TransGen s.Unfolds (.named name) t
  isOver : t.Over s.types

namespace Walk

variable {seen : List String} {name : String} {d : TypeDeclaration}

theorem start (h : t.Over s.types) : s.Walk [] t := ⟨.nil, nofun, nofun, h⟩

/-- A walk goes on from a name that is new to it. -/
theorem declaration (hw : s.WellFormed) (he : s.UnionsEnd) (h : s.Walk seen (.named name))
    (hd : s.type? name = some d) : name ∉ seen ∧ s.Walk (name :: seen) d.type := by
  have hdeclared : ∃ d ∈ s.types, d.name = name := ⟨d, name_of_type? hd⟩
  have hnew : name ∉ seen := fun hm => he.not_unfolds_named hw hdeclared (h.passed name hm)
  refine ⟨hnew, List.nodup_cons.2 ⟨hnew, h.nodup⟩, List.forall_mem_cons.2 ⟨hdeclared, h.declared⟩,
    List.forall_mem_cons.2 ⟨.single (.declaration hd), fun other hm => ?_⟩,
    hw.typesOver (name_of_type? hd).1⟩
  exact (h.passed other hm).tail (.declaration hd)

theorem alternative (h : s.Walk seen (.union ts)) (ht : t ∈ ts) : s.Walk seen t := by
  refine ⟨h.nodup, h.declared, fun name hm => (h.passed name hm).tail (.alternative ht), ?_⟩
  cases h.isOver with
  | union alternatives => exact alternatives t ht

theorem isDeclared (h : s.Walk seen (.named name)) : ∃ d, s.type? name = some d := by
  cases h.isOver with
  | named declared => exact type?_of_declared declared

/-- Unions nest to no more levels than there are nodes that a walk has not come to. -/
theorem nestsWithin (hw : s.WellFormed) (he : s.UnionsEnd) (h : s.Walk seen t)
    (hn : t.size + s.unseen seen ≤ n) : s.NestsWithin n t := by
  induction n generalizing t seen with
  | zero => cases t <;> simp [Ty.size] at hn
  | succ n ih =>
    obtain ⟨name, rfl⟩ | ⟨ts, rfl⟩ | hleaf := named_or_union_or_isLeaf t
    · obtain ⟨d, hd⟩ := h.isDeclared
      obtain ⟨hnew, hnext⟩ := h.declaration hw he hd
      obtain ⟨hm, rfl⟩ := name_of_type? hd
      have hless := unseen_cons hm hnew
      rw [Ty.size] at hn
      exact .named hd ((ih hnext (by omega)).mono (Nat.le_succ n))
    · refine .union fun u hu => ih (h.alternative hu) ?_
      have hless := size_lt_of_alternative hu
      omega
    · exact .leaf hleaf

/-- If alternatives that are no unions nest within some levels, one more is enough for a union. -/
theorem nestsWithin_succ (h : s.Walk seen t) (hflat : s.FlatFrom t)
    (hn : ∀ u, s.Walk seen u → s.FlatFrom u → (∀ ts, u ≠ .union ts) → s.NestsWithin n u) :
    s.NestsWithin (n + 1) t := by
  by_cases ht : ∃ ts, t = .union ts
  · obtain ⟨ts, rfl⟩ := ht
    refine .union fun u hu => hn u (h.alternative hu) (hflat.unfolds (.alternative hu)) ?_
    rintro us rfl
    exact hflat ts .refl us hu
  · exact (hn t h hflat fun ts hts => ht ⟨ts, hts⟩).mono (Nat.le_succ n)

/-- Where no union is written inside a union, each level after the first has a name of its own. -/
theorem nestsWithin_of_flat (hw : s.WellFormed) (he : s.UnionsEnd) (h : s.Walk seen t)
    (hflat : s.FlatFrom t) (hn : seen.length + n = s.types.length) (ht : ∀ ts, t ≠ .union ts) :
    s.NestsWithin n t := by
  induction n generalizing t seen with
  | zero =>
    obtain ⟨name, rfl⟩ | ⟨ts, rfl⟩ | hleaf := named_or_union_or_isLeaf t
    · obtain ⟨d, hd⟩ := h.isDeclared
      obtain ⟨-, hnext⟩ := h.declaration hw he hd
      have hle := length_le_of_declared hnext.nodup hnext.declared
      rw [List.length_cons] at hle
      omega
    · exact (ht ts rfl).elim
    · exact .leaf hleaf
  | succ n ih =>
    obtain ⟨name, rfl⟩ | ⟨ts, rfl⟩ | hleaf := named_or_union_or_isLeaf t
    · obtain ⟨d, hd⟩ := h.isDeclared
      obtain ⟨-, hnext⟩ := h.declaration hw he hd
      have hlen : (name :: seen).length + n = s.types.length := by
        rw [List.length_cons]
        omega
      exact .named hd (hnext.nestsWithin_succ (hflat.unfolds (.declaration hd)) fun u hu hf =>
        ih hu hf hlen)
    · exact (ht ts rfl).elim
    · exact .leaf hleaf

end Walk

/-- Over a schema that loads and whose unions end, every type expands to leaves, none of which is a
name or a union. The alternatives that are opened are these leaves if the unions of the type nest
to no more levels than are opened, and not otherwise. They nest so where no union is written
inside a union. -/
theorem flatten_eq_iff {limits : Limits} {sources : List Source}
    (h : load limits sources = .ok s) (he : s.UnionsEnd) (ho : t.Over s.types) :
    ∃ ls, s.ExpandTo [(t.text, t)] ls ∧ (∀ a ∈ ls, IsLeaf a.2) ∧
      (s.flatten t = ls ↔ s.NestsWithin (s.types.length + 1) t) ∧
      (s.FlatFrom t → s.flatten t = ls) := by
  have hw := wellFormed_of_load h
  have hstart := Walk.start ho
  have hexpand := hw.expandTo_leaves ho (hstart.nestsWithin hw he (Nat.le_refl _))
  have hiff := hw.leaves_eq_iff (n := s.types.length + 1) ho hexpand
  refine ⟨_, hexpand, hexpand.isLeaf, hiff, fun hflat => hiff.2 ?_⟩
  exact hstart.nestsWithin_succ hflat fun u hu hf =>
    hu.nestsWithin_of_flat hw he hf (Nat.zero_add _)

/-- Steps that are a text or one of two other kinds, behind two names. -/
def kinds : Source := ⟨"kinds.d.ts",
  "type Step = string | Other; type Other = number | \x7b a: string \x7d; declare var r: Step[];"⟩

def kindsSchema : Schema where
  types :=
    [⟨"Step", .union [.scalar .string, .named "Other"], none, "kinds.d.ts", ⟨5, 9⟩⟩,
      ⟨"Other", .union [.scalar .number,
        .record none [(⟨"a", false, none, ⟨52, 53⟩⟩, .scalar .string)]], none, "kinds.d.ts",
        ⟨33, 38⟩⟩]
  constants := []
  root := ⟨"r", .sequence (.named "Step") false, "kinds.d.ts", ⟨77, 78⟩⟩

theorem flatten_eq_iff_kinds :
    load .standard [kinds] = .ok kindsSchema ∧ kindsSchema.UnionsEnd ∧
    kindsSchema.ExpandTo [("Step", .named "Step")] (kindsSchema.flatten (.named "Step")) ∧
    ∀ a ∈ kindsSchema.flatten (.named "Step"), IsLeaf a.2 := by
  have hload : load .standard [kinds] = .ok kindsSchema := by cbv
  have hends : kindsSchema.UnionsEnd :=
    unionsEnd_of_rank (fun name => if name = "Step" then 4 else 2) (by decide)
  obtain ⟨ls, hls, hleaves, hiff, -⟩ := flatten_eq_iff hload hends (.named ⟨_, .head _, rfl⟩)
  have hother : kindsSchema.NestsWithin 1 (.named "Other") :=
    .named rfl (.union (List.forall_mem_cons.2
      ⟨.leaf (.scalar _), List.forall_mem_singleton.2 (.leaf (.record _ _))⟩))
  have hstep : kindsSchema.NestsWithin 2 (.named "Step") :=
    .named rfl (.union (List.forall_mem_cons.2
      ⟨.leaf (.scalar _), List.forall_mem_singleton.2 hother⟩))
  have heq := hiff.2 (hstep.mono (Nat.le_succ 2))
  exact ⟨hload, hends, heq ▸ hls, heq ▸ hleaves⟩

/-- A union inside a union, in a schema without names. -/
def deep : Source := ⟨"deep.d.ts",
  "declare var r: (string | (number | \x7b a: string \x7d))[];"⟩

def deepType : Ty :=
  .union [.scalar .string, .union [.scalar .number,
    .record none [(⟨"a", false, none, ⟨37, 38⟩⟩, .scalar .string)]]]

def deepSchema : Schema := ⟨[], [], ⟨"r", .sequence deepType false, "deep.d.ts", ⟨12, 13⟩⟩⟩

/-- The inner union is left among the alternatives. -/
theorem flatten_ne_of_deep :
    load .standard [deep] = .ok deepSchema ∧ deepSchema.UnionsEnd ∧
    ∃ ls, deepSchema.ExpandTo [(deepType.text, deepType)] ls ∧
      deepSchema.flatten deepType ≠ ls := by
  have hexpand : deepSchema.ExpandTo [(deepType.text, deepType)] _ :=
    .union (.leaf (.scalar _) (.union (.leaf (.scalar _) (.leaf (.record _ _) .nil))))
  exact ⟨by cbv, unionsEnd_of_rank (fun _ => 0) nofun, _, hexpand,
    fun h => absurd (congrArg List.length h) (by decide)⟩

end TypedConfig.Schema
