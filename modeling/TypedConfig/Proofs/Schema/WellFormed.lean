import TypedConfig.Schema
import TypedConfig.Schema.Term

/-! # Well-formed types

A type is well formed if its names are declared, its records name each field once, its literals
are some values that all differ, and its unions have alternatives that no literal type could
stand for. An expression with such records and unions of two or more denotes such a type.
-/

namespace TypedConfig

namespace Ty

/-- Types over some declarations in their one form. -/
inductive WellFormed (types : List TypeDeclaration) : Ty → Prop
  | scalar (kind : ScalarKind) : WellFormed types (.scalar kind)
  | literal {values : List Scalar} (some : values ≠ [])
    (differ : values.Pairwise fun a b => a.equals b = false) : WellFormed types (.literal values)
  | record {name : Option String} {fields : TyFields}
    (unique : (fields.map fun f => f.1.name).Nodup)
    (fieldTypes : ∀ f ∈ fields, WellFormed types f.2) : WellFormed types (.record name fields)
  | union {ts : List Ty} (several : 2 ≤ ts.length) (mixed : ∃ t ∈ ts, t.literals? = none)
    (alternatives : ∀ t ∈ ts, WellFormed types t) : WellFormed types (.union ts)
  | sequence {t : Ty} {acceptsSingle : Bool} (element : WellFormed types t) :
    WellFormed types (.sequence t acceptsSingle)
  | map {keyName : String} {t : Ty} (value : WellFormed types t) :
    WellFormed types (.map keyName t)
  | named {name : String} (declared : ∃ d ∈ types, d.name = name) : WellFormed types (.named name)

/-- The values kept so far with one more, unless it is among them. -/
def keep (kept : List Scalar) (v : Scalar) : List Scalar :=
  if admitsLiteral kept v then kept else kept ++ [v]

theorem prefix_keep (kept : List Scalar) (v : Scalar) : kept <+: keep kept v := by
  unfold keep
  split
  · exact List.prefix_rfl
  · exact List.prefix_append ..

theorem prefix_foldl_keep (kept values : List Scalar) : kept <+: values.foldl keep kept := by
  induction values generalizing kept with
  | nil => exact List.prefix_rfl
  | cons v rest ih => exact (prefix_keep kept v).trans (ih _)

theorem pairwise_keep {kept : List Scalar} (h : kept.Pairwise fun a b => a.equals b = false)
    (v : Scalar) : (keep kept v).Pairwise fun a b => a.equals b = false := by
  unfold keep
  split
  · exact h
  · rename_i hv
    refine List.pairwise_append.2 ⟨h, List.pairwise_singleton .., fun a ha b hb => ?_⟩
    rw [List.mem_singleton.1 hb, ← Bool.not_eq_true]
    exact fun he => hv (List.any_eq_true.2 ⟨a, ha, he⟩)

theorem pairwise_foldl_keep {kept : List Scalar}
    (h : kept.Pairwise fun a b => a.equals b = false) (values : List Scalar) :
    (values.foldl keep kept).Pairwise fun a b => a.equals b = false := by
  induction values generalizing kept with
  | nil => exact h
  | cons v rest ih => exact ih (pairwise_keep h v)

theorem distinct_pairwise (values : List Scalar) :
    (distinct values).Pairwise fun a b => a.equals b = false := pairwise_foldl_keep .nil values

theorem distinct_ne_nil {values : List Scalar} (h : values ≠ []) : distinct values ≠ [] := by
  cases values with
  | nil => exact absurd rfl h
  | cons v rest =>
    intro hd
    have hp : [v] <+: distinct (v :: rest) := prefix_foldl_keep [v] rest
    rw [hd] at hp
    simp at hp

theorem mapM_literals?_eq_none {ts : List Ty} (h : ts.mapM literals? = none) :
    ∃ t ∈ ts, t.literals? = none := by
  induction ts with
  | nil => simp at h
  | cons t rest ih =>
    cases ht : t.literals? with
    | none => exact ⟨t, List.mem_cons_self, ht⟩
    | some values =>
      have hrest : rest.mapM literals? = none :=
        Option.eq_none_iff_forall_ne_some.2 (by simpa [List.mapM_cons, ht] using h)
      obtain ⟨u, hu, hn⟩ := ih hrest
      exact ⟨u, List.mem_cons_of_mem _ hu, hn⟩

theorem allLiterals?_ne_nil {types : List TypeDeclaration} {t : Ty} {rest : List Ty}
    {values : List Scalar} (ht : t.WellFormed types)
    (h : allLiterals? (t :: rest) = some values) : values ≠ [] := by
  unfold allLiterals? at h
  cases hv : t.literals? with
  | none => simp [List.mapM_cons, hv] at h
  | some vs =>
    have hvs : vs ≠ [] := by
      cases ht with
      | literal some _ => cases hv; exact some
      | _ => cases hv
    cases hr : rest.mapM literals? with
    | none => simp [List.mapM_cons, hv, hr] at h
    | some more =>
      have hvalues : vs ++ more.flatten = values := by
        simpa [List.mapM_cons, hv, hr] using h
      rw [← hvalues]
      exact List.append_ne_nil_of_left_ne_nil hvs _

theorem unite_of_two_le {ts : List Ty} (h : 2 ≤ ts.length) :
    unite ts =
      match allLiterals? ts with
      | some values => literal (distinct values)
      | none => union ts := by
  match ts with
  | [] => simp at h
  | [t] => simp at h
  | t :: u :: rest => rfl

/-- Two or more well-formed alternatives have a well-formed union. -/
theorem WellFormed.unite {types : List TypeDeclaration} {ts : List Ty} (h : 2 ≤ ts.length)
    (hts : ∀ t ∈ ts, t.WellFormed types) : (unite ts).WellFormed types := by
  rw [unite_of_two_le h]
  split
  · rename_i values hall
    have hvalues : values ≠ [] := by
      cases ts with
      | nil => simp at h
      | cons t rest => exact allLiterals?_ne_nil (hts t List.mem_cons_self) hall
    exact .literal (distinct_ne_nil hvalues) (distinct_pairwise values)
  · rename_i hall
    exact .union h (mapM_literals?_eq_none (by simpa [allLiterals?] using hall)) hts

end Ty

namespace TyTerm

/-- Expressions whose records name each field once and whose unions have two or more
alternatives. -/
inductive WellFormed : TyTerm → Prop
  | scalar (kind : ScalarKind) : WellFormed (.scalar kind)
  | literal (value : Scalar) : WellFormed (.literal value)
  | record {name : Option String} {fields : List (FieldInfo × TyTerm)}
    (unique : (fields.map fun f => f.1.name).Nodup)
    (terms : ∀ f ∈ fields, WellFormed f.2) : WellFormed (.record name fields)
  | union {ts : List TyTerm} (several : 2 ≤ ts.length) (terms : ∀ t ∈ ts, WellFormed t) :
    WellFormed (.union ts)
  | sequence {t : TyTerm} {acceptsSingle : Bool} (element : WellFormed t) :
    WellFormed (.sequence t acceptsSingle)
  | map {keyName : String} {t : TyTerm} (value : WellFormed t) : WellFormed (.map keyName t)
  | reference (r : Reference) : WellFormed (.reference r)

theorem WellFormed.ofAlternatives {t : TyTerm} {ts : List TyTerm} (ht : t.WellFormed)
    (hts : ∀ u ∈ ts, u.WellFormed) : (ofAlternatives (t :: ts)).WellFormed := by
  cases ts with
  | nil => exact ht
  | cons u rest => exact .union (by simp) (List.forall_mem_cons.2 ⟨ht, hts⟩)

theorem types_eq (ts : List TyTerm) : types ts = ts.map type := by
  induction ts with
  | nil => rfl
  | cons t rest ih => rw [types, ih, List.map_cons]

theorem fieldTypes_eq (fields : List (FieldInfo × TyTerm)) :
    fieldTypes fields = fields.map fun f => (f.1, f.2.type) := by
  induction fields with
  | nil => rfl
  | cons f rest ih => rw [fieldTypes, ih, List.map_cons]

theorem listReferences_eq (ts : List TyTerm) : listReferences ts = ts.flatMap references := by
  induction ts with
  | nil => rfl
  | cons t rest ih => rw [listReferences, ih, List.flatMap_cons]

theorem fieldReferences_eq (fields : List (FieldInfo × TyTerm)) :
    fieldReferences fields = fields.flatMap fun f => f.2.references := by
  induction fields with
  | nil => rfl
  | cons f rest ih => rw [fieldReferences, ih, List.flatMap_cons]

/-- An expression whose references are all declared denotes a well-formed type. -/
theorem WellFormed.type {types : List TypeDeclaration} {t : TyTerm} (h : t.WellFormed)
    (hr : ∀ r ∈ t.references, ∃ d ∈ types, d.name = r.name) : t.type.WellFormed types := by
  induction h with
  | scalar kind => exact .scalar kind
  | literal value => exact .literal (List.cons_ne_nil _ _) (List.pairwise_singleton ..)
  | @record name fields unique _ ih =>
    rw [references, fieldReferences_eq] at hr
    rw [TyTerm.type, fieldTypes_eq]
    refine .record ?_ fun f hf => ?_
    · rw [List.map_map]
      exact unique
    · obtain ⟨g, hg, rfl⟩ := List.mem_map.1 hf
      exact ih g hg fun r hm => hr r (List.mem_flatMap.2 ⟨g, hg, hm⟩)
  | @union ts several _ ih =>
    rw [references, listReferences_eq] at hr
    rw [TyTerm.type, types_eq]
    refine .unite (by rw [List.length_map]; exact several) fun u hu => ?_
    obtain ⟨t, ht, rfl⟩ := List.mem_map.1 hu
    exact ih t ht fun r hm => hr r (List.mem_flatMap.2 ⟨t, ht, hm⟩)
  | sequence _ ih => exact .sequence (ih hr)
  | map _ ih => exact .map (ih hr)
  | reference r => exact .named (hr r (List.mem_singleton.2 rfl))

end TyTerm

end TypedConfig
