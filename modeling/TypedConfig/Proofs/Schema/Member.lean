import TypedConfig.Schema
import TypedConfig.Value

/-! # The values of a type

A value is a member of a type by the form of the type. A name stands for its declaration, so the
members of a type are those of the type that it resolves to and of its alternatives.
-/

namespace TypedConfig

/-- Membership of a value in a type, where names are declared by a schema. -/
inductive Ty.Member (schema : Schema) : Ty → Value → Prop
  | scalar {kind : ScalarKind} {v : Value} {s : Scalar} (hv : v.scalar? = some s)
    (hs : s.kind = kind) : Member schema (.scalar kind) v
  | literal {values : List Scalar} {v : Value} {s : Scalar} (hv : v.scalar? = some s)
    (hs : Ty.admitsLiteral values s = true) : Member schema (.literal values) v
  | record {name : Option String} {declared : TyFields} {entries : Entries Value}
    (required : ∀ f ∈ TyFields.required declared, Entries.contains entries f.1.name = true)
    (declares : ∀ e ∈ entries, TyFields.declares declared e.1 = true)
    (fields : ∀ e ∈ entries, ∀ f, TyFields.field? declared e.1 = some f →
      Member schema f.2 e.2) : Member schema (.record name declared) (.record entries)
  | map {keyName : String} {t : Ty} {entries : Entries Value}
    (values : ∀ e ∈ entries, Member schema t e.2) : Member schema (.map keyName t) (.record entries)
  | sequence {t : Ty} {acceptsSingle : Bool} {items : List Value}
    (elements : ∀ v ∈ items, Member schema t v) :
    Member schema (.sequence t acceptsSingle) (.sequence items)
  | single {t : Ty} {v : Value} (h : Member schema t v) : Member schema (.sequence t true) v
  | union {ts : List Ty} {t : Ty} {v : Value} (ht : t ∈ ts) (h : Member schema t v) :
    Member schema (.union ts) v
  | named {name : String} {d : TypeDeclaration} {v : Value} (hd : schema.type? name = some d)
    (h : Member schema d.type v) : Member schema (.named name) v

namespace Ty.Member

variable {schema : Schema} {t : Ty} {v : Value}

theorem of_follow (n : Nat) (h : Member schema (schema.follow n t) v) : Member schema t v := by
  induction n generalizing t with
  | zero => exact h
  | succ n ih =>
    cases t with
    | named name =>
      rw [Schema.follow] at h
      split at h
      · exact .named ‹_› (ih h)
      · exact h
    | _ => exact h

/-- The members of what a type resolves to are its own. -/
theorem of_resolve (h : Member schema (schema.resolve t) v) : Member schema t v := h.of_follow _

theorem of_leaf {n : Nat} {a : String × Ty} (ha : a ∈ schema.leaves n t)
    (h : Member schema a.2 v) : Member schema t v := by
  induction n generalizing t with
  | zero =>
    rw [Schema.leaves, List.mem_singleton] at ha
    subst ha
    exact h.of_resolve
  | succ n ih =>
    rw [Schema.leaves] at ha
    split at ha
    · rename_i ts hr
      obtain ⟨t', ht, ha⟩ := List.mem_flatMap.1 ha
      exact of_resolve (hr ▸ .union ht (ih ha))
    · rw [List.mem_singleton] at ha
      subst ha
      exact h.of_resolve

/-- The members of an alternative of a type are its own. -/
theorem of_alternative {a : String × Ty} (ha : a ∈ schema.flatten t) (h : Member schema a.2 v) :
    Member schema t v := of_leaf ha h

end Ty.Member

end TypedConfig
