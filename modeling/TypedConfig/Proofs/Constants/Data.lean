import TypedConfig.Eval.Datum
import TypedConfig.Proofs.Constants.Literals
import TypedConfig.Proofs.Yaml.Lines

/-! # Data with a constant written out

A constant and its literal are the same scalar, and a document shows either as the scalar. So a
value has the same document with the constant written out.
-/

namespace TypedConfig

namespace Datum

def ofScalar : Scalar → Datum
  | .string v => string v
  | .number v => number v
  | .boolean v => boolean v

variable (c : Sentinel)

mutual

/-- The datum with the literal of a constant in place of the constant, also in the bodies of
functions. -/
def inlined : Datum → Datum
  | sentinel x => if x = c then ofScalar x.literal else sentinel x
  | array items => array (inlinedAll items)
  | object fields => object (inlinedEntries fields)
  | function params body captured =>
    function params
      (body.inlined c (Entries.anyBinds captured c.name || Ident.anyNamed params c.name))
      (inlinedFrames captured)
  | string v => string v
  | number v => number v
  | boolean v => boolean v
  | null => null
  | undefined => undefined

def inlinedAll : List Datum → List Datum
  | [] => []
  | d :: ds => d.inlined :: inlinedAll ds

def inlinedEntries : List (String × Datum) → List (String × Datum)
  | [] => []
  | (key, d) :: ds => (key, d.inlined) :: inlinedEntries ds

def inlinedFrames : List (List (String × Datum)) → List (List (String × Datum))
  | [] => []
  | frame :: frames => inlinedEntries frame :: inlinedFrames frames

end

theorem inlinedAll_eq_map (ds : List Datum) : inlinedAll c ds = ds.map (inlined c) := by
  induction ds with
  | nil => rfl
  | cons d ds ih => exact congrArg (List.cons _) ih

theorem inlinedEntries_eq_mapValues (es : Entries Datum) :
    inlinedEntries c es = Entries.mapValues (inlined c) es := by
  induction es with
  | nil => rfl
  | cons e es ih => exact congrArg (List.cons _) ih

@[simp] theorem length_inlinedAll (ds : List Datum) :
    (inlinedAll c ds).length = ds.length := by
  rw [inlinedAll_eq_map, List.length_map]

@[simp] theorem inlinedAll_append (ds es : List Datum) :
    inlinedAll c (ds ++ es) = inlinedAll c ds ++ inlinedAll c es := by
  simp only [inlinedAll_eq_map, List.map_append]

theorem getElem?_inlinedAll (ds : List Datum) (i : Nat) :
    (inlinedAll c ds)[i]? = ds[i]?.map (inlined c) := by
  rw [inlinedAll_eq_map, List.getElem?_map]

theorem get?_inlinedEntries (es : Entries Datum) (key : String) :
    Entries.get? (inlinedEntries c es) key = (Entries.get? es key).map (inlined c) := by
  rw [inlinedEntries_eq_mapValues, Entries.get?_mapValues]

theorem put_inlinedEntries (es : Entries Datum) (key : String) (d : Datum) :
    Entries.put (inlinedEntries c es) key (d.inlined c) =
      inlinedEntries c (Entries.put es key d) := by
  simp only [inlinedEntries_eq_mapValues, Entries.put_mapValues]

theorem putAll_inlinedEntries (es fs : Entries Datum) :
    Entries.putAll (inlinedEntries c es) (inlinedEntries c fs) =
      inlinedEntries c (Entries.putAll es fs) := by
  simp only [inlinedEntries_eq_mapValues, Entries.putAll_mapValues]

theorem scalar?_ofScalar (v : Scalar) : (ofScalar v).scalar? = some v := by cases v <;> rfl

theorem truthy_of_scalar? {d : Datum} {v : Scalar} (h : d.scalar? = some v) :
    d.truthy = v.truthy := by
  cases d with
  | string | number | boolean | sentinel => cases h; rfl
  | _ => cases h

variable {c}

theorem inlined_sentinel (x : Sentinel) :
    x = c ∧ (sentinel x).inlined c = ofScalar x.literal ∨
      x ≠ c ∧ (sentinel x).inlined c = sentinel x := by
  by_cases h : x = c
  · exact .inl ⟨h, if_pos h⟩
  · exact .inr ⟨h, if_neg h⟩

variable (d : Datum)

@[simp] theorem scalar?_inlined : (d.inlined c).scalar? = d.scalar? := by
  cases d with
  | sentinel x =>
    obtain ⟨-, hx⟩ | ⟨-, hx⟩ := inlined_sentinel (c := c) x <;> rw [hx]
    exact scalar?_ofScalar x.literal
  | _ => rfl

@[simp] theorem text?_inlined : (d.inlined c).text? = d.text? := by
  rw [text?, scalar?_inlined, text?]

@[simp] theorem number?_inlined : (d.inlined c).number? = d.number? := by
  rw [number?, scalar?_inlined, number?]

@[simp] theorem isText_inlined : (d.inlined c).isText = d.isText := by
  rw [isText, text?_inlined, isText]

@[simp] theorem truthy_inlined : (d.inlined c).truthy = d.truthy := by
  cases hd : d.scalar? with
  | some v => rw [truthy_of_scalar? hd, truthy_of_scalar? (hd ▸ d.scalar?_inlined)]
  | none =>
    cases d with
    | string | number | boolean | sentinel => cases hd
    | _ => rfl

/-- Where a scalar is compared, it is compared with a scalar or with nothing. -/
theorem equals_of_scalar? {d e : Datum} (h : d.scalar?.isSome = true ∨ e.scalar?.isSome = true) :
    d.equals e = match d.scalar?, e.scalar? with
      | some x, some y => x.equals y
      | _, _ => false := by
  cases d <;> cases e <;> first | rfl | simp [scalar?] at h

@[simp] theorem equals_inlined (d e : Datum) : (d.inlined c).equals (e.inlined c) = d.equals e := by
  by_cases h : d.scalar?.isSome = true ∨ e.scalar?.isSome = true
  · have h' : (d.inlined c).scalar?.isSome = true ∨ (e.inlined c).scalar?.isSome = true := by
      rwa [scalar?_inlined, scalar?_inlined]
    rw [equals_of_scalar? h', equals_of_scalar? h, scalar?_inlined, scalar?_inlined]
  · cases d with
    | string | number | boolean | sentinel => exact absurd (.inl rfl) h
    | _ =>
      cases e with
      | string | number | boolean | sentinel => exact absurd (.inr rfl) h
      | _ => rfl

end Datum

namespace Value

variable (c : Sentinel)

mutual

def inlined : Value → Value
  | scalar s => scalar s
  | sentinel x => if x = c then scalar x.literal else sentinel x
  | record es => record (inlinedEntries es)
  | sequence vs => sequence (inlinedAll vs)

def inlinedEntries : List (String × Value) → List (String × Value)
  | [] => []
  | (key, v) :: es => (key, v.inlined) :: inlinedEntries es

def inlinedAll : List Value → List Value
  | [] => []
  | v :: vs => v.inlined :: inlinedAll vs

end

end Value

namespace Datum

variable {c : Sentinel}

mutual

theorem toValue_inlined : ∀ (path : String) (d : Datum),
    (d.inlined c).toValue path = (d.toValue path).map (Value.inlined c)
  | _, string _ | _, number _ | _, boolean _ | _, null | _, undefined | _, function .. => rfl
  | _, sentinel x => by
    rw [inlined, toValue]
    show _ = Except.ok (Value.inlined c (.sentinel x))
    rw [Value.inlined]
    split
    · cases x.literal <;> rfl
    · rfl
  | path, array items => by
    rw [inlined, toValue, toValue, toItems_inlinedAll]
    cases toItems path 0 items <;> rfl
  | path, object fields => by
    rw [inlined, toValue, toValue, toEntries_inlinedEntries]
    cases toEntries path fields <;> rfl

theorem toItems_inlinedAll : ∀ (path : String) (i : Nat) (ds : List Datum),
    toItems path i (inlinedAll c ds) = (toItems path i ds).map (Value.inlinedAll c)
  | _, _, [] => rfl
  | path, i, d :: ds => by
    rw [inlinedAll, toItems, toItems, toValue_inlined, toItems_inlinedAll]
    cases toValue (ValuePath.append path (.index i)) d <;> cases toItems path (i + 1) ds <;> rfl

theorem toEntries_inlinedEntries : ∀ (path : String) (es : List (String × Datum)),
    toEntries path (inlinedEntries c es) = (toEntries path es).map (Value.inlinedEntries c)
  | _, [] => rfl
  | path, (key, d) :: es => by
    rw [inlinedEntries, toEntries, toEntries, toValue_inlined, toEntries_inlinedEntries]
    cases toValue (ValuePath.append path (.key key)) d <;> cases toEntries path es <;> rfl

end

end Datum

namespace Value

variable {c : Sentinel}

/-- What a constant and its literal have in common, a constant and what is written out for it
have in common. -/
theorem view_inlined_sentinel {α : Sort _} (view : Value → α)
    (h : ∀ x : Sentinel, view (.scalar x.literal) = view (.sentinel x)) (x : Sentinel) :
    view ((sentinel x).inlined c) = view (.sentinel x) := by
  rw [inlined]
  split
  · exact h x
  · rfl

mutual

theorem checkFinite_inlined : ∀ (path : String) (v : Value),
    (v.inlined c).checkFinite path = v.checkFinite path
  | _, scalar _ => rfl
  | path, sentinel x => view_inlined_sentinel (checkFinite path) (fun _ => rfl) x
  | path, record es => checkEntries_inlinedEntries path es
  | path, sequence vs => checkItems_inlinedAll path 0 vs

theorem checkEntries_inlinedEntries : ∀ (path : String) (es : List (String × Value)),
    checkEntries path (inlinedEntries c es) = checkEntries path es
  | _, [] => rfl
  | path, (key, v) :: es => by
    rw [inlinedEntries, checkEntries, checkEntries, checkFinite_inlined,
      checkEntries_inlinedEntries]

theorem checkItems_inlinedAll : ∀ (path : String) (i : Nat) (vs : List Value),
    checkItems path i (inlinedAll c vs) = checkItems path i vs
  | _, _, [] => rfl
  | path, i, v :: vs => by
    rw [inlinedAll, checkItems, checkItems, checkFinite_inlined, checkItems_inlinedAll]

end

end Value

namespace Json

open Value (inlinedAll inlinedEntries)

variable {c : Sentinel}

mutual

theorem pretty_inlined : ∀ (depth : Nat) (v : Value), pretty depth (v.inlined c) = pretty depth v
  | _, .scalar _ => rfl
  | depth, .sentinel x => Value.view_inlined_sentinel (pretty depth) (fun _ => rfl) x
  | _, .record es => congrArg (encloseLines _ _ _) (prettyMembers_inlinedEntries _ es)
  | _, .sequence vs => congrArg (encloseLines _ _ _) (prettyItems_inlinedAll _ vs)

theorem prettyMembers_inlinedEntries : ∀ (depth : Nat) (es : List (String × Value)),
    prettyMembers depth (inlinedEntries c es) = prettyMembers depth es
  | _, [] => rfl
  | depth, (key, v) :: es => by
    rw [inlinedEntries, prettyMembers, prettyMembers, pretty_inlined, prettyMembers_inlinedEntries]

theorem prettyItems_inlinedAll : ∀ (depth : Nat) (vs : List Value),
    prettyItems depth (inlinedAll c vs) = prettyItems depth vs
  | _, [] => rfl
  | depth, v :: vs => by
    rw [inlinedAll, prettyItems, prettyItems, pretty_inlined, prettyItems_inlinedAll]

end

end Json

namespace Yaml

open Value (inlinedAll inlinedEntries)

variable {c : Sentinel}

theorem leaf?_inlined (v : Value) : leaf? (v.inlined c) = leaf? v := by
  cases v with
  | sentinel x => exact Value.view_inlined_sentinel leaf? (fun _ => rfl) x
  | scalar s => rfl
  | record es => cases es <;> rfl
  | sequence vs => cases vs <;> rfl

mutual

theorem lines_inlined : ∀ v : Value, lines (v.inlined c) = lines v
  | .scalar _ | .record [] | .sequence [] => rfl
  | .sentinel x => Value.view_inlined_sentinel lines (fun _ => rfl) x
  | .record (e :: es) => entryLines_inlinedEntries (e :: es)
  | .sequence (v :: vs) => itemLines_inlinedAll (v :: vs)

theorem entryLines_inlinedEntries : ∀ es : List (String × Value),
    entryLines (inlinedEntries c es) = entryLines es
  | [] => rfl
  | (key, v) :: es => by
    rw [inlinedEntries, entryLines, entryLines, leaf?_inlined, lines_inlined,
      entryLines_inlinedEntries]

theorem itemLines_inlinedAll : ∀ vs : List Value, itemLines (inlinedAll c vs) = itemLines vs
  | [] => rfl
  | v :: vs => by
    rw [inlinedAll, itemLines, itemLines, leaf?_inlined, lines_inlined, itemLines_inlinedAll]

end

end Yaml

/-- A value has the same document with a constant written out. -/
theorem Layout.emit_inlined (l : Layout) (root : String) (c : Sentinel) (v : Value) :
    l.emit root (v.inlined c) = l.emit root v := by
  have hcontent : l.content root (v.inlined c) =
      (((l.content root v).1.inlined c), (l.content root v).2) := by
    unfold content
    split <;> rfl
  have hwrite (path : String) (v : Value) :
      l.format.write path (v.inlined c) = l.format.write path v := by
    rw [Format.write_eq, Format.write_eq, Value.checkFinite_inlined]
    cases l.format with
    | yaml => rw [Yaml.document, Yaml.lines_inlined]; rfl
    | json => rw [Json.document, Json.pretty_inlined]; rfl
  simp only [emit, hcontent, hwrite]

end TypedConfig
