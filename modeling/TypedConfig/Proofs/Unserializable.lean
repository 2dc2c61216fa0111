import TypedConfig.Document.Emit
import TypedConfig.Proofs.Yaml.RoundTrip

/-! # Values that no document holds

The check of a value goes through its numbers in document order. Whatever the format is, and whether
or not the value stands under a name, a document is refused for the first number that is not finite,
and the error tells the steps from the root that lead to it.
-/

namespace TypedConfig

namespace Value

/-- A number stands in a value, or is the literal of a constant in it, at the end of some steps. -/
inductive NumberAt : Value → List Segment → Float → Prop
  | scalar (x : Float) : NumberAt (.scalar (.number x)) [] x
  | sentinel (name : String) (x : Float) : NumberAt (.sentinel ⟨name, .number x⟩) [] x
  | field {es : List (String × Value)} {k : String} {v : Value} {ss : List Segment} {x : Float}
    (hfield : (k, v) ∈ es) (h : NumberAt v ss x) : NumberAt (.record es) (.key k :: ss) x
  | item {vs : List Value} {i : Nat} {v : Value} {ss : List Segment} {x : Float}
    (hitem : vs[i]? = some v) (h : NumberAt v ss x) : NumberAt (.sequence vs) (.index i :: ss) x

/-- Numbers with the steps to them, seen from one step further out. -/
def behind (s : Segment) (ns : List (List Segment × Float)) : List (List Segment × Float) :=
  ns.map fun n => (s :: n.1, n.2)

mutual

/-- The numbers in a value in document order, each with the steps to it. -/
def numbersAt : Value → List (List Segment × Float)
  | .scalar s => (scalarNumbers s).map ([], ·)
  | .sentinel c => (scalarNumbers c.literal).map ([], ·)
  | .record es => entryNumbersAt es
  | .sequence vs => itemNumbersAt 0 vs

def entryNumbersAt : List (String × Value) → List (List Segment × Float)
  | [] => []
  | (k, v) :: es => behind (.key k) (numbersAt v) ++ entryNumbersAt es

def itemNumbersAt (i : Nat) : List Value → List (List Segment × Float)
  | [] => []
  | v :: vs => behind (.index i) (numbersAt v) ++ itemNumbersAt (i + 1) vs

end

theorem snd_behind (s : Segment) (ns : List (List Segment × Float)) :
    (behind s ns).map Prod.snd = ns.map Prod.snd := by
  rw [behind, List.map_map]
  rfl

theorem mem_behind {s : Segment} {ns : List (List Segment × Float)} {ss : List Segment}
    {x : Float} : (ss, x) ∈ behind s ns ↔ ∃ rest, ss = s :: rest ∧ (rest, x) ∈ ns := by
  simp only [behind, List.mem_map, Prod.exists, Prod.mk.injEq]
  constructor
  · rintro ⟨rest, x, h, rfl, rfl⟩
    exact ⟨rest, rfl, h⟩
  · rintro ⟨rest, rfl, h⟩
    exact ⟨rest, x, h, rfl, rfl⟩

mutual

theorem snd_numbersAt : ∀ v : Value, v.numbersAt.map Prod.snd = v.numbers
  | .scalar _ => by simp [numbersAt, numbers, Function.comp_def]
  | .sentinel _ => by simp [numbersAt, numbers, Function.comp_def]
  | .record es => snd_entryNumbersAt es
  | .sequence vs => snd_itemNumbersAt 0 vs

theorem snd_entryNumbersAt : ∀ es, (entryNumbersAt es).map Prod.snd = entryNumbers es
  | [] => rfl
  | (k, v) :: es => by
    rw [entryNumbersAt, List.map_append, snd_behind, snd_numbersAt v, snd_entryNumbersAt es]
    rfl

theorem snd_itemNumbersAt : ∀ i vs, (itemNumbersAt i vs).map Prod.snd = itemNumbers vs
  | _, [] => rfl
  | i, v :: vs => by
    rw [itemNumbersAt, List.map_append, snd_behind, snd_numbersAt v, snd_itemNumbersAt (i + 1) vs]
    rfl

end

theorem numberAt_of_scalar {s : Scalar} {v : Value} {ss : List Segment} {x : Float}
    (h : (ss, x) ∈ (scalarNumbers s).map (([], ·) : Float → List Segment × Float))
    (hnumber : ∀ y, s = .number y → NumberAt v [] y) : NumberAt v ss x := by
  obtain ⟨y, hy, hpair⟩ := List.mem_map.1 h
  cases hpair
  cases s with
  | number z =>
    obtain rfl := List.mem_singleton.1 hy
    exact hnumber _ rfl
  | string | boolean => cases hy

mutual

/-- The steps to a number lead to it. -/
theorem numberAt_of_mem : ∀ {v : Value} {ss : List Segment} {x : Float},
    (ss, x) ∈ v.numbersAt → v.NumberAt ss x
  | .scalar _, _, _, h => numberAt_of_scalar h fun y hy => hy ▸ .scalar y
  | .sentinel ⟨name, _⟩, _, _, h => numberAt_of_scalar h fun y hy => by
      cases hy
      exact .sentinel name y
  | .record es, _, _, h => by
    obtain ⟨k, v, rest, rfl, hfield, hv⟩ := numberAt_of_mem_entries es h
    exact .field hfield hv
  | .sequence vs, _, _, h => by
    obtain ⟨i, v, rest, rfl, hitem, hv⟩ := numberAt_of_mem_items vs h
    rw [Nat.zero_add]
    exact .item hitem hv

theorem numberAt_of_mem_entries : ∀ es {ss : List Segment} {x : Float},
    (ss, x) ∈ entryNumbersAt es →
      ∃ k v rest, ss = .key k :: rest ∧ (k, v) ∈ es ∧ NumberAt v rest x
  | (k, v) :: es, ss, x, h => by
    rcases List.mem_append.1 h with h | h
    · obtain ⟨rest, rfl, hv⟩ := mem_behind.1 h
      exact ⟨k, v, rest, rfl, List.mem_cons_self, numberAt_of_mem hv⟩
    · obtain ⟨k', v', rest, rfl, hfield, hv⟩ := numberAt_of_mem_entries es h
      exact ⟨k', v', rest, rfl, List.mem_cons_of_mem _ hfield, hv⟩

theorem numberAt_of_mem_items : ∀ vs {n : Nat} {ss : List Segment} {x : Float},
    (ss, x) ∈ itemNumbersAt n vs →
      ∃ i v rest, ss = .index (n + i) :: rest ∧ vs[i]? = some v ∧ NumberAt v rest x
  | v :: vs, n, ss, x, h => by
    rcases List.mem_append.1 h with h | h
    · obtain ⟨rest, rfl, hv⟩ := mem_behind.1 h
      exact ⟨0, v, rest, rfl, rfl, numberAt_of_mem hv⟩
    · obtain ⟨i, w, rest, rfl, hitem, hw⟩ := numberAt_of_mem_items vs h
      exact ⟨i + 1, w, rest, by rw [Nat.add_assoc, Nat.add_comm 1 i], hitem, hw⟩

end

/-- The error of a number that is not finite, reached by some steps from a path. -/
def refusal (path : String) (n : List Segment × Float) : Unserializable :=
  ⟨ValuePath.appendAll path n.1, "non-finite number " ++ Number.positionalText n.2⟩

def refuse (path : String) : Option (List Segment × Float) → Except Unserializable Unit
  | none => .ok ()
  | some n => .error (refusal path n)

theorem refuse_or (path : String) (n m : Option (List Segment × Float)) :
    refuse path (n.or m) = (refuse path n >>= fun _ => refuse path m) := by
  cases n <;> rfl

theorem refuse_eq_error_iff {path : String} {n : Option (List Segment × Float)}
    {e : Unserializable} :
    refuse path n = .error e ↔ ∃ m, n = some m ∧ e = refusal path m := by
  cases n with
  | none => exact iff_of_false nofun nofun
  | some m => simp [refuse, eq_comm]

def firstRefused (ns : List (List Segment × Float)) : Option (List Segment × Float) :=
  ns.find? fun n => !n.2.isFinite

theorem firstRefused_append (ns ms : List (List Segment × Float)) :
    firstRefused (ns ++ ms) = (firstRefused ns).or (firstRefused ms) := List.find?_append

theorem refuse_behind (path : String) (s : Segment) (ns : List (List Segment × Float)) :
    refuse path (firstRefused (behind s ns)) =
      refuse (ValuePath.append path s) (firstRefused ns) := by
  rw [firstRefused, behind, List.find?_map]
  show refuse path ((firstRefused ns).map _) = _
  cases firstRefused ns <;> rfl

theorem checkScalar_eq (path : String) (s : Scalar) :
    checkScalar path s = refuse path (firstRefused ((scalarNumbers s).map ([], ·))) := by
  cases s with
  | number x =>
    rw [checkScalar, scalarNumbers, List.map_singleton, firstRefused]
    by_cases hx : x.isFinite = true <;> simp [hx, refuse, refusal, ValuePath.appendAll]
  | string | boolean => rfl

mutual

/-- The check stops at the first number that is not finite. -/
theorem checkFinite_eq : ∀ (v : Value) (path : String),
    v.checkFinite path = refuse path (firstRefused v.numbersAt)
  | .scalar s, path => checkScalar_eq path s
  | .sentinel c, path => checkScalar_eq path c.literal
  | .record es, path => checkEntries_eq es path
  | .sequence vs, path => checkItems_eq vs path 0

theorem checkEntries_eq : ∀ (es : List (String × Value)) (path : String),
    checkEntries path es = refuse path (firstRefused (entryNumbersAt es))
  | [], _ => rfl
  | (k, v) :: es, path => by
    rw [checkEntries, checkFinite_eq v, checkEntries_eq es, entryNumbersAt, firstRefused_append,
      refuse_or, refuse_behind]

theorem checkItems_eq : ∀ (vs : List Value) (path : String) (i : Nat),
    checkItems path i vs = refuse path (firstRefused (itemNumbersAt i vs))
  | [], _, _ => rfl
  | v :: vs, path, i => by
    rw [checkItems, checkFinite_eq v, checkItems_eq vs, itemNumbersAt, firstRefused_append,
      refuse_or, refuse_behind]

end

/-- The number at the end of some steps is not finite, and all before it in the document are. -/
structure FirstRefused (v : Value) (ss : List Segment) (x : Float) : Prop where
  stands : v.NumberAt ss x
  refused : x.isFinite = false
  first : ∃ before after, v.numbersAt = before ++ (ss, x) :: after ∧
    ∀ n ∈ before, n.2.isFinite = true

theorem firstRefused_eq_some_iff {v : Value} {ss : List Segment} {x : Float} :
    firstRefused v.numbersAt = some (ss, x) ↔ v.FirstRefused ss x := by
  rw [firstRefused, List.find?_eq_some_iff_append]
  simp only [Bool.not_not, Bool.not_eq_eq_eq_not]
  constructor
  · rintro ⟨hx, before, after, hnumbers, hbefore⟩
    refine ⟨numberAt_of_mem ?_, hx, before, after, hnumbers, hbefore⟩
    rw [hnumbers]
    exact List.mem_append_right _ List.mem_cons_self
  · rintro ⟨-, hx, before, after, hnumbers, hbefore⟩
    exact ⟨hx, before, after, hnumbers, hbefore⟩

theorem firstRefused_isSome_iff (v : Value) :
    (firstRefused v.numbersAt).isSome = true ↔ ∃ x ∈ v.numbers, x.isFinite = false := by
  rw [firstRefused, List.find?_isSome, ← snd_numbersAt]
  simp only [List.mem_map, Bool.not_eq_eq_eq_not]
  constructor
  · rintro ⟨n, hn, hx⟩
    exact ⟨n.2, ⟨n, hn, rfl⟩, hx⟩
  · rintro ⟨_, ⟨n, hn, rfl⟩, hx⟩
    exact ⟨n, hn, hx⟩

end Value

/-- A document is refused where the check of its content fails. -/
theorem Layout.emit_eq_unserializable (layout : Layout) {root : String} {v : Value}
    {e : Unserializable} :
    layout.emit root v = .error (.unserializable e) ↔
      (layout.content root v).1.checkFinite (layout.content root v).2 = .error e := by
  rw [emit]
  simp only [Format.write_eq]
  cases (layout.content root v).1.checkFinite (layout.content root v).2 with
  | error e' =>
    show Except.error (EmitError.unserializable e') = _ ↔ _
    simp
  | ok u =>
    refine iff_of_false (fun h => ?_) nofun
    have hsize {text : String} : ((layout.limits.checkOutput text).mapError EmitError.tooLarge >>=
        fun _ => .ok text) ≠ .error (.unserializable e) := by
      cases layout.limits.checkOutput text <;> nofun
    exact hsize h

/-- The name of the root is the first step to all that stands under it, and the path to what stands
alone. -/
theorem Layout.checkFinite_content (layout : Layout) {root : String}
    (hroot : isName root.toList = true) (v : Value) :
    (layout.content root v).1.checkFinite (layout.content root v).2 = v.checkFinite root := by
  unfold content
  split
  · have hpath : ValuePath.append "" (.key root) = root := by
      rw [ValuePath.append, if_pos hroot]
      rfl
    rw [Value.checkFinite, Value.checkEntries, hpath]
    cases v.checkFinite root <;> rfl
  · rfl

/-- In each format, wrapped or not, a value is refused if and only if some number in it is not
finite; the error is that of the first such number, at its path from the root. -/
theorem Layout.emit_unserializable_iff (layout : Layout) {root : String}
    (hroot : isName root.toList = true) (v : Value) :
    ((∃ e, layout.emit root v = .error (.unserializable e)) ↔
      ∃ x ∈ v.numbers, x.isFinite = false) ∧
    ∀ e, layout.emit root v = .error (.unserializable e) ↔
      ∃ ss x, v.FirstRefused ss x ∧ e =
        ⟨ValuePath.appendAll root ss, "non-finite number " ++ Number.positionalText x⟩ := by
  have hcheck (e : Unserializable) : layout.emit root v = .error (.unserializable e) ↔
      ∃ ss x, v.FirstRefused ss x ∧ e =
        ⟨ValuePath.appendAll root ss, "non-finite number " ++ Number.positionalText x⟩ := by
    rw [layout.emit_eq_unserializable, layout.checkFinite_content hroot, Value.checkFinite_eq,
      Value.refuse_eq_error_iff]
    simp only [Prod.exists, Value.firstRefused_eq_some_iff]
    rfl
  refine ⟨?_, hcheck⟩
  rw [← Value.firstRefused_isSome_iff, Option.isSome_iff_exists]
  simp only [hcheck, Prod.exists, Value.firstRefused_eq_some_iff]
  constructor
  · rintro ⟨_, ss, x, h, -⟩
    exact ⟨ss, x, h⟩
  · rintro ⟨ss, x, h⟩
    exact ⟨_, ss, x, h, rfl⟩

/-- A constant that is not finite stands in a list of numbers under a key that is no name, before
another number that is not finite. -/
def unwritable : Value :=
  .sequence [.record
    [("a b", .sequence [.scalar (.number 1.5), .sentinel ⟨"most", .number (1 / 0)⟩]),
      ("c", .scalar (.number (0 / 0)))]]

theorem Layout.emit_unserializable_iff_unwritable :
    isName "steps".toList = true ∧ ∀ format wrapRoot limits,
      Layout.emit ⟨format, wrapRoot, limits⟩ "steps" unwritable =
        .error (.unserializable ⟨"steps[0][\"a b\"][1]", "non-finite number inf"⟩) := by
  have hroot : isName "steps".toList = true := by decide
  refine ⟨hroot, fun format wrapRoot limits => ?_⟩
  have hnumbers : unwritable.numbersAt =
      [([.index 0, .key "a b", .index 0], 1.5), ([.index 0, .key "a b", .index 1], 1 / 0),
        ([.index 0, .key "c"], 0 / 0)] := rfl
  have hfirst : unwritable.FirstRefused [.index 0, .key "a b", .index 1] (1 / 0) := by
    refine ⟨Value.numberAt_of_mem ?_, by decide, [_], [_], hnumbers, by decide⟩
    rw [hnumbers]
    exact .tail _ (.head _)
  refine ((Layout.emit_unserializable_iff ⟨format, wrapRoot, limits⟩ hroot unwritable).2 _).2
    ⟨_, _, hfirst, ?_⟩
  decide +kernel

end TypedConfig
