import TypedConfig.Proofs.Order.Loads
import TypedConfig.Proofs.Tiling

/-! # Types inside types

A property of single types passes from the parts of a type expression to all types inside the type
that it denotes. So the names that occur in the types of a schema that loads, of declared types and
of the keys of maps, are all names that the lexer reads.
-/

namespace TypedConfig

namespace Ty

/-- A type that is another or stands somewhere inside it. -/
inductive Within : Ty → Ty → Prop
  | refl (t : Ty) : Within t t
  | field {u : Ty} (name : Option String) {fields : TyFields} {f : FieldInfo × Ty} (hf : f ∈ fields)
    (h : Within u f.2) : Within u (.record name fields)
  | alternative {u t : Ty} {ts : List Ty} (ht : t ∈ ts) (h : Within u t) : Within u (.union ts)
  | element {u t : Ty} (acceptsSingle : Bool) (h : Within u t) :
    Within u (.sequence t acceptsSingle)
  | value {u t : Ty} (keyName : String) (h : Within u t) : Within u (.map keyName t)

theorem Within.trans {t u v : Ty} (h : t.Within u) (hu : u.Within v) : t.Within v := by
  induction hu with
  | refl => exact h
  | field name hf _ ih => exact .field name hf ih
  | alternative ht _ ih => exact .alternative ht ih
  | element acceptsSingle _ ih => exact .element acceptsSingle ih
  | value keyName _ ih => exact .value keyName ih

/-- A property that all types inside a type have, and the type itself. -/
def All (P : Ty → Prop) (t : Ty) : Prop := ∀ u, u.Within t → P u

variable {P : Ty → Prop} {t u : Ty} {types : List TypeDeclaration}

theorem WellFormed.within (h : t.WellFormed types) (hu : u.Within t) : u.WellFormed types := by
  induction hu with
  | refl => exact h
  | field name hf _ ih =>
    cases h with
    | record unique fieldTypes => exact ih (fieldTypes _ hf)
  | alternative ht _ ih =>
    cases h with
    | union several mixed alternatives => exact ih (alternatives _ ht)
  | element acceptsSingle _ ih =>
    cases h with
    | sequence element => exact ih element
  | value keyName _ ih =>
    cases h with
    | map value => exact ih value

namespace All

theorem self (h : t.All P) : P t := h t (.refl t)

theorem within (h : t.All P) (hu : u.Within t) : u.All P := fun v hv => h v (hv.trans hu)

theorem scalar {kind : ScalarKind} (h : P (.scalar kind)) : (Ty.scalar kind).All P := by
  rintro _ ⟨⟩
  exact h

theorem literal {values : List Scalar} (h : P (.literal values)) : (Ty.literal values).All P := by
  rintro _ ⟨⟩
  exact h

theorem named {name : String} (h : P (.named name)) : (Ty.named name).All P := by
  rintro _ ⟨⟩
  exact h

theorem record {name : Option String} {fields : TyFields} (h : P (.record name fields))
    (hfields : ∀ f ∈ fields, f.2.All P) : (Ty.record name fields).All P := by
  rintro _ (_ | ⟨_, hf, hu⟩)
  · exact h
  · exact hfields _ hf _ hu

theorem union {ts : List Ty} (h : P (.union ts)) (hts : ∀ t ∈ ts, t.All P) :
    (Ty.union ts).All P := by
  rintro _ (_ | _ | ⟨ht, hu⟩)
  · exact h
  · exact hts _ ht _ hu

theorem sequence {single : Bool} (h : P (.sequence t single)) (ht : t.All P) :
    (Ty.sequence t single).All P := by
  rintro _ (_ | _ | _ | ⟨_, hu⟩)
  · exact h
  · exact ht _ hu

theorem map {key : String} (h : P (.map key t)) (ht : t.All P) : (Ty.map key t).All P := by
  rintro _ (_ | _ | _ | _ | ⟨_, hu⟩)
  · exact h
  · exact ht _ hu

/-- The union of alternatives is one of them, a literal type or a type of just them. -/
theorem unite {ts : List Ty} (hliteral : ∀ values, P (.literal values)) (hunion : P (.union ts))
    (hts : ∀ t ∈ ts, t.All P) : (Ty.unite ts).All P := by
  match ts with
  | [] => exact .union hunion hts
  | [t] => exact hts t List.mem_cons_self
  | t :: u :: rest =>
    rw [unite_of_two_le (Nat.le_add_left ..)]
    split
    · exact .literal (hliteral _)
    · exact .union hunion hts

end All

/-- The names that a type holds itself are those of name tokens, and a reference is no word with a
meaning of its own. -/
def Legible : Ty → Prop
  | .named name => isName name.toList = true ∧ name ∉ Declaration.typeWords
  | .map keyName _ => isName keyName.toList = true
  | _ => True

end Ty

/-- A token that is a name only if it can be written as one. -/
def LegibleToken (l : Lexeme) : Prop := ∀ text, l.token = .name text → isName text.toList = true

theorem Tiles.legible {template : Nat → List Char → List Piece → Prop} {braces : Option Nat}
    {offset : Nat} {cs : List Char} {ls : List Lexeme}
    (h : Tiles (Spells template) braces offset cs ls) : ∀ l ∈ ls, LegibleToken l := by
  induction h with
  | token _ _ htoken _ _ ih =>
    refine List.forall_mem_cons.2 ⟨?_, ih⟩
    rintro text ⟨⟩
    cases htoken with
    | name h => exact h
  | finish => exact List.forall_mem_singleton.2 nofun
  | close => exact List.forall_mem_singleton.2 nofun

theorem legible_of_tokenizeWithin {maxDepth : Nat} {text : String} {ls : List Lexeme}
    (h : tokenizeWithin maxDepth text = .ok ls) : ∀ l ∈ ls, LegibleToken l :=
  (tiles_of_tokenizeWithin h).legible

theorem Cursor.has_ofTokens {K : Lexeme → Prop} {tokens : List Lexeme} (h : ∀ l ∈ tokens, K l)
    (hstop : ∀ span, K (.endAt span)) : (Cursor.ofTokens tokens).Has K := by
  constructor
  · unfold Cursor.ofTokens Cursor.endOf
    dsimp only
    split
    · rename_i l hl
      split
      · exact h l (List.mem_of_getLast? hl)
      · exact hstop _
    · exact hstop _
  · intro l hl
    unfold Cursor.ofTokens Cursor.body at hl
    dsimp only at hl
    split at hl
    · split at hl
      · exact h l (List.mem_of_mem_dropLast hl)
      · exact h l hl
    · cases hl

namespace Declaration

/-- Expressions from legible tokens denote types with legible types inside them. -/
theorem carries_legible :
    Carries LegibleToken (fun t => t.type.All Ty.Legible) (fun t => t.type.All Ty.Legible)
      (fun t => t.type.All Ty.Legible) where
  scalar kind := .scalar trivial
  literal value := .literal trivial
  reference r := by
    rintro ⟨l, hl, hname⟩ hword
    exact .named ⟨hl _ hname, hword⟩
  record owner fields _ h := by
    refine .record trivial fun f hf => ?_
    rw [TyTerm.fieldTypes_eq] at hf
    obtain ⟨g, hg, rfl⟩ := List.mem_map.1 hf
    exact h g hg
  map key t := by
    rintro ⟨l, hl, hname⟩ h
    exact .map (hl _ hname) h
  element t single h := .sequence trivial h
  group _ h := h
  bracketed _ h := .sequence trivial h
  union t ts h hs := by
    cases ts with
    | nil => exact h
    | cons u rest =>
      refine .unite (fun _ => trivial) trivial fun v hv => ?_
      rw [TyTerm.types_eq] at hv
      obtain ⟨w, hw, rfl⟩ := List.mem_map.1 hv
      rcases List.mem_cons.1 hw with rfl | hw
      · exact h
      · exact hs w hw

end Declaration

namespace Schema

/-- A type that a schema holds: the type of a declaration or of the root binding, or one inside. -/
def Holds (s : Schema) (t : Ty) : Prop :=
  t.Within s.root.type ∨ ∃ d ∈ s.types, t.Within d.type

/-- The types that a schema that loads holds are legible. -/
theorem legible_of_load {limits : Limits} {sources : List Source} {schema : Schema}
    (h : load limits sources = .ok schema) {t : Ty} (ht : schema.Holds t) : t.All Ty.Legible := by
  have hall : (∀ d ∈ schema.types, d.type.All Ty.Legible) ∧ schema.root.type.All Ty.Legible := by
    refine forall_of_load h fun source d hd => ?_
    obtain ⟨tokens, ds, htokens, hread, hd⟩ := ofTokens_of_declared hd
    have htokens := Cursor.has_ofTokens (legible_of_tokenizeWithin htokens) fun _ _ => nofun
    exact (Declaration.reads_all (fun _ => Declaration.carries_legible) limits.maxDepth _).result
      htokens _ hread d hd
  rcases ht with ht | ⟨d, hd, ht⟩
  · exact hall.2.within ht
  · exact (hall.1 d hd).within ht

theorem WellFormed.of_holds {schema : Schema} (h : schema.WellFormed) {t : Ty}
    (ht : schema.Holds t) : t.WellFormed schema.types := by
  rcases ht with ht | ⟨d, hd, ht⟩
  · exact h.root.within ht
  · exact (h.types d hd).within ht

end Schema

end TypedConfig
