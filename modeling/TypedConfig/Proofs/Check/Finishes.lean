import TypedConfig.Check.Ends
import TypedConfig.Proofs.Check.Match
import TypedConfig.Proofs.Schema.Guarded

/-! # Matching comes to an end

Where no declared type opens to itself, every matching ends within the levels that it is given:
a step into the value makes the shape lower, and between two such steps the type opens only so
often. Without that condition it need not end: a number is matched for ever against a type that
is a text or itself.
-/

namespace TypedConfig.Match

variable {schema : Schema} {bound n : Nat}

theorem height_le_of_mem {b : Shape} {shapes : List Shape} (h : b ∈ shapes) :
    height b ≤ heightList shapes := by
  induction shapes with
  | nil => cases h
  | cons shape rest ih =>
    rw [heightList]
    rcases List.mem_cons.1 h with rfl | h
    · exact Nat.le_max_left ..
    · exact Nat.le_trans (ih h) (Nat.le_max_right ..)

theorem height_le_of_mem_fields {f : String × Span × Shape} {fields : ShapeFields}
    (h : f ∈ fields) : height f.2.2 ≤ heightFields fields := by
  induction fields with
  | nil => cases h
  | cons g rest ih =>
    rw [heightFields]
    rcases List.mem_cons.1 h with rfl | h
    · exact Nat.le_max_left ..
    · exact Nat.le_trans (ih h) (Nat.le_max_right ..)

theorem isSome_bind {α β : Type} {x : Option α} {f : α → Option β} (hx : x.isSome)
    (hf : ∀ a, (f a).isSome) : (x >>= f).isSome := by
  obtain ⟨a, rfl⟩ := Option.isSome_iff_exists.1 hx
  exact hf a

theorem joinAll_isSome {α : Type} {f : α → Option Outcome} {as : List α}
    (h : ∀ a ∈ as, (f a).isSome) : (joinAll f as).isSome := by
  induction as with
  | nil => rfl
  | cons a as ih =>
    rw [List.forall_mem_cons] at h
    exact isSome_bind h.1 fun _ => isSome_bind (ih h.2) fun _ => rfl

theorem joinItems_isSome {f : Nat → Shape → Option Outcome} {i : Nat} {shapes : List Shape}
    (h : ∀ s ∈ shapes, ∀ i, (f i s).isSome) : (joinItems f i shapes).isSome := by
  induction shapes generalizing i with
  | nil => rfl
  | cons s shapes ih =>
    rw [List.forall_mem_cons] at h
    exact isSome_bind (h.1 i) fun _ => isSome_bind (ih h.2) fun _ => rfl

theorem firstAccepting_isSome {inner : String × Ty → Option Outcome}
    {alternatives : List (String × Ty)} (h : ∀ a ∈ alternatives, (inner a).isSome) :
    (firstAccepting inner alternatives).isSome := by
  induction alternatives with
  | nil => rfl
  | cons a as ih =>
    rw [List.forall_mem_cons] at h
    refine isSome_bind h.1 fun o => ?_
    split
    · rfl
    · exact ih h.2

/-- A matching of the fields of a record shape against their types ends. -/
def FieldsEnd (inner : Ty → Shape → String → Option Outcome) (shape : Shape) (t : Ty) : Prop :=
  ∀ span fields, shape = .record span fields → ∀ f ∈ fields, ∀ path, (inner t f.2.2 path).isSome

theorem matchRecord_isSome {inner : Ty → Shape → String → Option Outcome} {label path : String}
    {declared : TyFields} {shape : Shape} {siblings : Siblings}
    (h : ∀ g ∈ declared, FieldsEnd inner shape g.2) :
    (matchRecord inner label declared shape path siblings).isSome := by
  unfold matchRecord
  split
  · rename_i span fields
    refine isSome_bind (joinAll_isSome fun f hf => ?_) fun _ => rfl
    dsimp only
    split
    · rename_i g t hg
      exact h (g, t) (List.mem_of_find?_eq_some hg) span fields rfl f hf _
    · rfl
  · rfl

theorem matchUnion_isSome {inner : Matcher} {field : Ty → Shape → String → Option Outcome}
    {label path : String} {alternatives : List (String × Ty)} {shape : Shape}
    (hi : ∀ a ∈ alternatives, ∀ siblings, (inner a.1 a.2 shape path siblings).isSome)
    (hf : ∀ a ∈ alternatives, ∀ name declared, a.2 = .record name declared →
      ∀ g ∈ declared, FieldsEnd field shape g.2) :
    (matchUnion inner field label alternatives shape path).isSome := by
  unfold matchUnion
  split
  · dsimp only
    split
    · rename_i name t hfind
      exact isSome_bind (hi (name, t) (List.mem_of_find?_eq_some hfind) _) fun _ => rfl
    · split
      · rename_i name declared hclosest
        obtain ⟨n, hm⟩ := mem_recordsOf (mem_closest hclosest)
        exact matchRecord_isSome (hf _ hm n declared rfl)
      · rfl
  iterate 2
    split
    · rename_i name t hfind
      exact isSome_bind (hi (name, t) (List.mem_of_find?_eq_some hfind) _) fun _ => rfl
    · rfl
  iterate 3 rfl
  · refine isSome_bind (firstAccepting_isSome fun a ha => hi a ha []) fun first => ?_
    split <;> rfl

/-- The levels that a matching needs where the type opens for `w` steps: after a step into the
value it may open anew. -/
def levelsOf (bound : Nat) (shape : Shape) (w : Nat) : Nat := height shape * (2 * bound + 2) + w

theorem levelsOf_lower {a b : Shape} {v w : Nat} (h : height a < height b)
    (hv : v < 2 * bound + 2 + w) : levelsOf bound a v < levelsOf bound b w := by
  have hmul := Nat.mul_le_mul_right (2 * bound + 2) (Nat.succ_le_of_lt h)
  rw [Nat.succ_mul] at hmul
  unfold levelsOf
  omega

/-- Every matching ends within a number of levels if these are enough for it. -/
def EndsWithin (schema : Schema) (bound n : Nat) : Prop :=
  ∀ ⦃t : Ty⦄ ⦃shape : Shape⦄ ⦃w : Nat⦄ (label path : String) (siblings : Siblings),
    schema.OpensFor bound t w → levelsOf bound shape w < n →
      (matchWithin schema n label t shape path siblings).isSome

section

variable (hs : ∀ d ∈ schema.types, d.type.Over schema.types) (hg : schema.Guarded)
  (hb : schema.unseen [] ≤ bound)

include hs hg hb

namespace EndsWithin

variable {t u : Ty} {shape item : Shape} {v w : Nat} (h : EndsWithin schema bound n)
  (hn : levelsOf bound shape w < n + 1)

include h hn

/-- The same value against what its type opens to. -/
theorem opened (ht : schema.OpensFor bound t w) (ho : Relation.TransGen schema.Opens t u)
    (label path : String) (siblings : Siblings) :
    (matchWithin schema n label u shape path siblings).isSome := by
  obtain ⟨v, hv, hu⟩ := ht.transGen hs hg hb ho
  exact h label path siblings hu (by unfold levelsOf at hn ⊢; omega)

/-- A part of a value against a part of its type. -/
theorem part (ho : u.Over schema.types) (hsize : u.size ≤ bound)
    (hlow : height item < height shape) (path : String) :
    (matchWithin schema n u.text (schema.resolve u) item path []).isSome := by
  obtain ⟨v, hv, hu⟩ :=
    (Schema.OpensFor.start ho hsize).reflTransGen hs hg hb (Schema.opens_resolve u)
  have hlower : levelsOf bound item v < levelsOf bound shape w := levelsOf_lower hlow (by omega)
  exact h _ path [] hu (by omega)

theorem fields (ho : u.Over schema.types) (hsize : u.size ≤ bound) :
    FieldsEnd (fun t shape path => matchWithin schema n t.text (schema.resolve t) shape path [])
      shape u := by
  rintro span fields rfl f hf path
  have hle := height_le_of_mem_fields hf
  exact part hs hg hb h hn ho hsize (by rw [height]; omega) path

theorem declared {name : Option String} {declared : TyFields}
    (hu : schema.OpensFor bound (.record name declared) v) : ∀ g ∈ declared,
      FieldsEnd (fun t shape path => matchWithin schema n t.text (schema.resolve t) shape path [])
        shape g.2 := by
  intro g hm
  have hlt : g.2.size < (Ty.record name declared).size := Schema.size_lt_of_field hm
  have hle := hu.size
  cases hu.names with
  | record _ fieldTypes => exact fields hs hg hb h hn (fieldTypes g hm) (by omega)

end EndsWithin

theorem endsWithin (n : Nat) : EndsWithin schema bound n := by
  induction n with
  | zero => nofun
  | succ n ih =>
    intro t shape w label path siblings ht hn
    unfold matchWithin
    dsimp only
    split
    · rfl
    · refine joinAll_isSome fun b hm => ih label path siblings ht ?_
      have hle := height_le_of_mem hm
      have hlower : levelsOf bound b w < levelsOf bound (.oneOf ‹_› ‹_›) w :=
        levelsOf_lower (by rw [height]; omega) (by omega)
      omega
    · split
      · cases ht.names with
        | named declared =>
          exact ih.opened hs hg hb hn ht (Schema.opens_resolve_named declared) ..
      · rfl
      · rfl
      · exact matchRecord_isSome (ih.declared hs hg hb hn ht)
      · rename_i keyName value
        have hle := ht.size
        rw [Ty.size] at hle
        cases ht.names with
        | map _ hvalue =>
          split
          · exact joinAll_isSome fun f hf =>
              ih.fields hs hg hb hn hvalue (by omega) _ _ rfl f hf _
          · rfl
      · rename_i element acceptsSingle
        have hle := ht.size
        rw [Ty.size] at hle
        cases ht.names with
        | sequence _ helement =>
          split
          · refine joinItems_isSome fun item hm i =>
              ih.part hs hg hb hn helement (by omega) ?_ _
            have := height_le_of_mem hm
            rw [height]
            omega
          · exact ih.part hs hg hb hn helement (by omega) (by rw [height]; omega) _
          · split
            · rename_i hsingle
              subst hsingle
              exact ih.opened hs hg hb hn ht (.head' (.single _) (Schema.opens_resolve _)) ..
            · rfl
      · have hopens {a : String × Ty} (ha : a ∈ schema.flatten (.union ‹_›)) :=
          Schema.opens_flatten ha
        refine matchUnion_isSome (fun a ha => ih.opened hs hg hb hn ht (hopens ha) _ _) ?_
        rintro a ha name declared he
        obtain ⟨v, -, hu⟩ := ht.transGen hs hg hb (hopens ha)
        exact ih.declared hs hg hb hn (he ▸ hu)

end

/-- In a guarded schema a matching ends within the levels that it is given. -/
theorem conformWithin_levelsFor (hs : ∀ d ∈ schema.types, d.type.Over schema.types)
    (hg : schema.Guarded) {t : Ty} (ht : t.Over schema.types) (shape : Shape) (path : String) :
    (conformWithin schema (levelsFor schema t shape) t shape path).isSome := by
  have hnodes : nodes schema t = t.size + schema.unseen [] := by
    simp [nodes, Schema.unseen, List.sum]
  have hb : schema.unseen [] ≤ nodes schema t := by omega
  have hstart : schema.OpensFor (nodes schema t) t _ := .start ht (by omega)
  obtain ⟨v, hv, hr⟩ := hstart.reflTransGen hs hg hb (Schema.opens_resolve t)
  refine endsWithin hs hg hb _ _ path [] hr ?_
  rw [levelsFor, Nat.add_mul, Nat.one_mul]
  unfold levelsOf
  omega

/-- Over a guarded schema that loads, every matching against a type over it ends, and within
the levels that it is given. -/
theorem finishes_of_guarded {limits : Limits} {sources : List Source}
    (h : Schema.load limits sources = .ok schema) (hg : schema.Guarded) {t : Ty}
    (ht : t.Over schema.types) (shape : Shape) (path : String) :
    Finishes schema t shape path ∧
      conformWithin schema (levelsFor schema t shape) t shape path =
        some (conform schema t shape path) := by
  have hs : ∀ d ∈ schema.types, d.type.Over schema.types := fun d hd =>
    ((Schema.wellFormed_of_load h).types d hd).toOver
  have hsome := conformWithin_levelsFor hs hg ht shape path
  refine ⟨⟨_, hsome⟩, ?_⟩
  obtain ⟨o, ho⟩ := Option.isSome_iff_exists.1 hsome
  rw [conform, ho, Option.getD_some]

/-- Over a guarded schema that loads, the check of every program ends. -/
theorem matchingsEnd_of_guarded {limits : Limits} {sources : List Source}
    (h : Schema.load limits sources = .ok schema) (hg : schema.Guarded) (l : Limits)
    (program : Program) : program.matchingsEnd l schema = true := by
  have hw := Schema.wellFormed_of_load h
  refine List.all_eq_true.2 fun shape _ => ?_
  exact conformWithin_levelsFor (fun d hd => (hw.types d hd).toOver) hg hw.root.toOver shape _

/-- Steps that hold steps. -/
def nested : Source := ⟨"nested.d.ts",
  "type Step = string | { steps: Step[] }; declare var steps: Step[];"⟩

def nestedSchema : Schema where
  types := [⟨"Step", .union [.scalar .string,
    .record none [(⟨"steps", false, none, ⟨23, 28⟩⟩, .sequence (.named "Step") false)]],
    none, "nested.d.ts", ⟨5, 9⟩⟩]
  constants := []
  root := ⟨"steps", .sequence (.named "Step") false, "nested.d.ts", ⟨52, 57⟩⟩

theorem finishes_of_guarded_nested :
    Schema.load .standard [nested] = .ok nestedSchema ∧ nestedSchema.Guarded ∧
    nestedSchema.root.type.Over nestedSchema.types ∧
    ∀ shape path, Finishes nestedSchema nestedSchema.root.type shape path ∧
      conformWithin nestedSchema (levelsFor nestedSchema nestedSchema.root.type shape)
          nestedSchema.root.type shape path =
        some (conform nestedSchema nestedSchema.root.type shape path) := by
  have hload : Schema.load .standard [nested] = .ok nestedSchema := by cbv
  have hguarded : nestedSchema.Guarded := Schema.guarded_of_rank (fun _ => 2) (by decide)
  have hroot := (Schema.wellFormed_of_load hload).root.toOver
  exact ⟨hload, hguarded, hroot, finishes_of_guarded hload hguarded hroot⟩

/-- A type that is a text or itself. -/
def endless : Source := ⟨"endless.d.ts", "type A = string | A; declare var steps: A[];"⟩

def endlessSchema : Schema where
  types := [⟨"A", .union [.scalar .string, .named "A"], none, "endless.d.ts", ⟨5, 6⟩⟩]
  constants := []
  root := ⟨"steps", .sequence (.named "A") false, "endless.d.ts", ⟨33, 38⟩⟩

/-- The alternatives of the type end in the type, and a number is none of the others. -/
theorem matchWithin_endless (n : Nat) (label : String) (span : Span) (x : Option Float)
    (path : String) (siblings : Siblings) :
    matchWithin endlessSchema n label (.union [.scalar .string, .named "A"]) (.number span x) path
      siblings = none := by
  induction n generalizing label siblings with
  | zero => rfl
  | succ n ih =>
    have hflatten : endlessSchema.flatten (.union [.scalar .string, .named "A"]) =
        [("string", .scalar .string), ("string", .scalar .string),
          ("A", .union [.scalar .string, .named "A"])] := rfl
    cases n with
    | zero =>
      rw [matchWithin, hflatten]
      · rfl
      all_goals simp
    | succ n =>
      have htext : matchWithin endlessSchema (n + 1) "string" (.scalar .string) (.number span x)
          path [] = some (mismatch "string" (.number span x) path) := rfl
      rw [matchWithin, hflatten]
      · simp only [matchUnion, firstAccepting, htext, ih]
        rfl
      all_goals simp

/-- A schema that loads and over which a number is matched without end. -/
theorem not_finishes_endless :
    ∃ schema, Schema.load .standard [endless] = .ok schema ∧ Ty.Over schema.types (.named "A") ∧
      ∀ span x path, ¬ Finishes schema (.named "A") (.number span x) path := by
  refine ⟨endlessSchema, by cbv, .named ⟨_, List.mem_singleton_self _, rfl⟩, ?_⟩
  rintro span x path ⟨levels, h⟩
  have hr : endlessSchema.resolve (.named "A") = .union [.scalar .string, .named "A"] := rfl
  rw [conformWithin, hr, matchWithin_endless] at h
  cases h

end TypedConfig.Match
