import TypedConfig.Proofs.Depth.Types
import TypedConfig.Proofs.Number.Exact
import TypedConfig.Proofs.Schema.Occurrences
import TypedConfig.Proofs.Written.Quoted
import TypedConfig.Proofs.Written.Reading

/-! # Types as their texts spell them

The text of a type is a row of alternatives with bars between them. It does not tell whether an
alternative stands in the type itself, in a union inside it or in a literal type of several values,
so a type is compared with what its text is read as when its unions are opened and its literals
stand apart.
-/

namespace TypedConfig

/-- Scalars that their texts denote: all but numbers that are not whole, are too large to be exact
or are the negative zero. -/
inductive Scalar.Exact : Scalar → Prop
  | string (text : String) : Exact (.string text)
  | boolean (value : Bool) : Exact (.boolean value)
  | number {n : Nat} (small : n < 2 ^ 53) : Exact (.number (Float.ofNat n))
  | negative {n : Nat} (pos : 0 < n) (small : n < 2 ^ 53) : Exact (.number (-Float.ofNat n))

/-- The tokens of a scalar; a number below zero has a minus sign. -/
def Scalar.spell : Scalar → List Spelled
  | string text => [.string text]
  | boolean value => [.name (if value then "true" else "false")]
  | number x =>
    if Number.signBit x then [.punct .minus, .number (-x)] else [.number x]

namespace Spelled

def barred : List (List Spelled) → List Spelled
  | [] => []
  | ts :: rest => ts ++ rest.flatMap fun us => .punct .pipe :: us

def Begins (ts : List Spelled) : Prop := ts ≠ [] ∧ leads .pipe ts = false

theorem Begins.append {ts : List Spelled} (h : Begins ts) (us : List Spelled) :
    Begins (ts ++ us) := by
  match ts, h with
  | t :: ts, h => exact ⟨List.cons_ne_nil _ _, h.2⟩

theorem begins_barred {tss : List (List Spelled)} (h : tss ≠ []) (hts : ∀ ts ∈ tss, Begins ts) :
    Begins (barred tss) := by
  match tss, h with
  | ts :: rest, _ => exact (hts ts List.mem_cons_self).append _

/-- Alternatives that are in a row of their own make one row together. -/
theorem barred_map_barred {rows : List (List (List Spelled))} (h : ∀ row ∈ rows, row ≠ []) :
    barred (rows.map barred) = barred rows.flatten := by
  have hbars {rows : List (List (List Spelled))} (h : ∀ row ∈ rows, row ≠ []) :
      ((rows.map barred).flatMap fun us => .punct .pipe :: us) =
        rows.flatten.flatMap fun us => .punct .pipe :: us := by
    induction rows with
    | nil => rfl
    | cons row rows ih =>
      obtain ⟨ts, row, rfl⟩ := List.exists_cons_of_ne_nil (h row List.mem_cons_self)
      rw [List.map_cons, List.flatMap_cons, ih fun r hr => h r (List.mem_cons_of_mem _ hr)]
      simp [barred]
  match rows, h with
  | [], _ => rfl
  | [] :: rows, h => exact absurd rfl (h [] List.mem_cons_self)
  | (ts :: row) :: rows, h =>
    rw [List.map_cons, barred, hbars fun r hr => h r (List.mem_cons_of_mem _ hr)]
    simp [barred]

end Spelled

theorem Scalar.begins_spell (v : Scalar) : Spelled.Begins v.spell := by
  cases v with
  | number x =>
    rw [spell]
    split <;> exact ⟨List.cons_ne_nil _ _, rfl⟩
  | _ => exact ⟨List.cons_ne_nil _ _, rfl⟩

namespace Ty

mutual

def parts : Ty → List Ty
  | union ts => partsAll ts
  | literal values => values.map fun v => literal [v]
  | t => [t]

def partsAll : List Ty → List Ty
  | [] => []
  | t :: ts => parts t ++ partsAll ts

end

def ofParts : List Ty → Ty
  | [t] => t
  | ts => union ts

mutual

def expandedParts : Ty → List Ty
  | union ts => expandedAll ts
  | literal values => values.map fun v => literal [v]
  | record owner fields => [record owner (expandedFields fields)]
  | sequence t single => [sequence (ofParts (expandedParts t)) single]
  | map key t => [map key (ofParts (expandedParts t))]
  | t => [t]

def expandedAll : List Ty → List Ty
  | [] => []
  | t :: ts => expandedParts t ++ expandedAll ts

def expandedFields : List (FieldInfo × Ty) → List (FieldInfo × Ty)
  | [] => []
  | (info, t) :: fs => (info, ofParts (expandedParts t)) :: expandedFields fs

end

/-- A type with nested unions expanded in place and literal types split into single literals, at
every level. -/
def expanded (t : Ty) : Ty := ofParts (expandedParts t)

mutual

/-- The tokens of the text of a type. A record is named only, so its text is not meant. -/
def spell : Ty → List Spelled
  | scalar kind => [.name kind.name]
  | literal values => Spelled.barred (values.map Scalar.spell)
  | record .. => []
  | union ts => Spelled.barred (spellAll ts)
  | sequence t true => .name "OneOrMany" :: .punct .less :: (spell t ++ [.punct .greater])
  | sequence t false =>
    if t.hasAlternatives then
      .punct .leftParen :: (spell t ++ [.punct .rightParen, .punct .leftBracket,
        .punct .rightBracket])
    else spell t ++ [.punct .leftBracket, .punct .rightBracket]
  | map key t =>
    .punct .leftBrace :: .punct .leftBracket :: .name key :: .punct .colon :: .name "string" ::
      .punct .rightBracket :: .punct .colon :: (spell t ++ [.punct .rightBrace])
  | named name => [.name name]

def spellAll : List Ty → List (List Spelled)
  | [] => []
  | t :: ts => spell t :: spellAll ts

end

/-- Well-formed types over some declarations without a record, with exact literals and with names
that the lexer reads. -/
inductive Denotable (types : List TypeDeclaration) : Ty → Prop
  | scalar (kind : ScalarKind) : Denotable types (.scalar kind)
  | literal {values : List Scalar} (some : values ≠ [])
    (differ : values.Pairwise fun a b => a.equals b = false) (exact : ∀ v ∈ values, v.Exact) :
    Denotable types (.literal values)
  | union {ts : List Ty} (several : 2 ≤ ts.length) (mixed : ∃ t ∈ ts, t.literals? = none)
    (alternatives : ∀ t ∈ ts, Denotable types t) : Denotable types (.union ts)
  | sequence {t : Ty} {acceptsSingle : Bool} (element : Denotable types t) :
    Denotable types (.sequence t acceptsSingle)
  | map {keyName : String} {t : Ty} (valid : isName keyName.toList = true)
    (value : Denotable types t) : Denotable types (.map keyName t)
  | named {name : String} (valid : isName name.toList = true)
    (free : name ∉ Declaration.typeWords) (declared : ∃ d ∈ types, d.name = name) :
    Denotable types (.named name)

variable {types : List TypeDeclaration} {t : Ty} {ts : List Ty}

theorem partsAll_eq (ts : List Ty) : partsAll ts = ts.flatMap parts := by
  induction ts with
  | nil => rfl
  | cons t ts ih => rw [partsAll, ih, List.flatMap_cons]

theorem expandedAll_eq (ts : List Ty) : expandedAll ts = ts.flatMap expandedParts := by
  induction ts with
  | nil => rfl
  | cons t ts ih => rw [expandedAll, ih, List.flatMap_cons]

theorem texts_eq (ts : List Ty) : texts ts = ts.map text := by
  induction ts with
  | nil => rfl
  | cons t ts ih => rw [texts, ih, List.map_cons]

theorem spellAll_eq (ts : List Ty) : spellAll ts = ts.map spell := by
  induction ts with
  | nil => rfl
  | cons t ts ih => rw [spellAll, ih, List.map_cons]

theorem Denotable.begins_spell (h : t.Denotable types) : Spelled.Begins t.spell := by
  induction h with
  | scalar | map | named => exact ⟨List.cons_ne_nil _ _, rfl⟩
  | literal some =>
    refine Spelled.begins_barred (by simpa using some) fun ts hts => ?_
    obtain ⟨v, -, rfl⟩ := List.mem_map.1 hts
    exact v.begins_spell
  | @union ts several _ _ ih =>
    rw [spell, spellAll_eq]
    refine Spelled.begins_barred ?_ fun us hus => ?_
    · rw [Ne, List.map_eq_nil_iff]
      rintro rfl
      cases several
    · obtain ⟨t, ht, rfl⟩ := List.mem_map.1 hus
      exact ih t ht
  | @sequence t single _ ih =>
    cases single with
    | true => exact ⟨List.cons_ne_nil _ _, rfl⟩
    | false =>
      rw [spell]
      split
      · exact ⟨List.cons_ne_nil _ _, rfl⟩
      · exact ih.append _

theorem Denotable.parts_ne_nil (h : t.Denotable types) : t.parts ≠ [] := by
  induction h with
  | literal some => simpa [parts] using some
  | @union ts several _ _ ih =>
    rw [parts, partsAll_eq]
    obtain ⟨t, rest, rfl⟩ := List.exists_cons_of_length_pos (Nat.zero_lt_of_lt several)
    exact List.append_ne_nil_of_left_ne_nil (ih t List.mem_cons_self) _
  | _ => exact List.cons_ne_nil _ _

/-- The alternatives are single types that their texts denote, and no higher. -/
theorem Denotable.of_mem_parts (h : t.Denotable types) :
    ∀ u ∈ t.parts, u.Denotable types ∧ u.hasAlternatives = false ∧ u.height ≤ t.height := by
  induction h with
  | @literal values _ _ exact =>
    intro u hu
    obtain ⟨v, hv, rfl⟩ := List.mem_map.1 hu
    refine ⟨.literal (List.cons_ne_nil _ _) (List.pairwise_singleton ..) ?_, rfl, Nat.le_refl _⟩
    exact List.forall_mem_singleton.2 (exact v hv)
  | @union ts _ _ _ ih =>
    intro u hu
    rw [parts, partsAll_eq] at hu
    obtain ⟨t, ht, hu⟩ := List.mem_flatMap.1 hu
    obtain ⟨hdenotable, hsingle, hheight⟩ := ih t ht u hu
    refine ⟨hdenotable, hsingle, hheight.trans ?_⟩
    exact (depthAll_le_iff.1 (Nat.le_refl _) t ht).trans (Nat.le_add_left ..)
  | scalar kind => exact List.forall_mem_singleton.2 ⟨.scalar kind, rfl, Nat.le_refl _⟩
  | named valid free declared =>
    exact List.forall_mem_singleton.2 ⟨.named valid free declared, rfl, Nat.le_refl _⟩
  | sequence element => exact List.forall_mem_singleton.2 ⟨.sequence element, rfl, Nat.le_refl _⟩
  | map valid value => exact List.forall_mem_singleton.2 ⟨.map valid value, rfl, Nat.le_refl _⟩

/-- The text of a type is that of its alternatives with bars between them. -/
theorem Denotable.spell_eq (h : t.Denotable types) :
    t.spell = Spelled.barred (t.parts.map spell) := by
  have hsingle (ts : List Spelled) : ts = Spelled.barred [ts] := (List.append_nil ts).symm
  induction h with
  | literal =>
    rw [spell, parts, List.map_map]
    congr 1
    exact List.map_congr_left fun v _ => hsingle v.spell
  | @union ts _ _ alternatives ih =>
    have hrows : ts.map spell = (ts.map fun t => t.parts.map spell).map Spelled.barred := by
      rw [List.map_map]
      exact List.map_congr_left ih
    rw [spell, spellAll_eq, parts, partsAll_eq, hrows, Spelled.barred_map_barred,
      ← List.flatMap_def, List.map_flatMap]
    intro row hrow
    obtain ⟨t, ht, rfl⟩ := List.mem_map.1 hrow
    simpa using (alternatives t ht).parts_ne_nil
  | _ => exact hsingle _

mutual

/-- The alternatives expanded are the expanded ones of each alternative. -/
theorem expandedParts_eq : ∀ t : Ty, t.expandedParts = t.parts.flatMap expandedParts
  | .union ts => expandedAll_eq_flatMap ts
  | .literal values => by
    rw [parts, List.flatMap_map, expandedParts, List.map_eq_flatMap]
    rfl
  | .scalar _ | .named _ | .record .. | .sequence .. | .map .. => rfl

theorem expandedAll_eq_flatMap : ∀ ts : List Ty,
    expandedAll ts = (partsAll ts).flatMap expandedParts
  | [] => rfl
  | t :: ts => by
    rw [expandedAll, partsAll, List.flatMap_append, expandedParts_eq t, expandedAll_eq_flatMap ts]

end

end Ty

end TypedConfig
