import TypedConfig.Check.Match
import TypedConfig.Proofs.Schema.Member
import TypedConfig.Proofs.Shape.Covers

/-! # Matching is sound

Where a shape matches a type without errors, every datum that it stands for can stand in a
document, and the value that it is there is a member of the type. The proof is by induction on
the levels of the matching and follows its cases. Records are closed: a field that no alternative
declares is an error.
-/

namespace TypedConfig

open Shape (Covers Describes)

variable {schema : Schema} {shape : Shape} {d : Datum} {t : Ty}

namespace Datum

/-- A datum that has a value with a property, at whatever path it stands. -/
def HasValue (d : Datum) (P : Value → Prop) : Prop :=
  ∀ path, ∃ v, d.toValue path = .ok v ∧ P v

theorem HasValue.imp {P Q : Value → Prop} (h : d.HasValue P) (hP : ∀ v, P v → Q v) :
    d.HasValue Q := fun path => (h path).imp fun v => And.imp_right (hP v)

theorem hasValue_of_scalar? {x : Scalar} (h : d.scalar? = some x) :
    d.HasValue fun v => v.scalar? = some x := by
  intro path
  cases d with
  | string v | number v | boolean v | sentinel c => exact ⟨_, rfl, h⟩
  | _ => cases h

theorem toItems_ok {ds : List Datum} {P : Value → Prop} (h : ∀ d ∈ ds, d.HasValue P)
    (path : String) (i : Nat) :
    ∃ vs, toItems path i ds = .ok vs ∧ ∀ v ∈ vs, P v := by
  induction ds generalizing i with
  | nil => exact ⟨[], rfl, nofun⟩
  | cons d ds ih =>
    rw [List.forall_mem_cons] at h
    obtain ⟨v, hv, hP⟩ := h.1 (ValuePath.append path (.index i))
    obtain ⟨vs, hvs, hPs⟩ := ih h.2 (i + 1)
    exact ⟨v :: vs, by rw [toItems, hv, hvs]; rfl, List.forall_mem_cons.2 ⟨hP, hPs⟩⟩

theorem hasValue_array {ds : List Datum} {P : Value → Prop} (h : ∀ d ∈ ds, d.HasValue P) :
    (array ds).HasValue fun v => ∃ vs, v = .sequence vs ∧ ∀ w ∈ vs, P w := by
  intro path
  obtain ⟨vs, hvs, hP⟩ := toItems_ok h path 0
  exact ⟨.sequence vs, by rw [toValue, hvs]; rfl, vs, rfl, hP⟩

theorem toEntries_ok {entries : Entries Datum} {P : String → Value → Prop}
    (h : ∀ e ∈ entries, e.2.HasValue (P e.1)) (path : String) :
    ∃ vs, toEntries path entries = .ok vs ∧ Entries.keys vs = Entries.keys entries ∧
      ∀ e ∈ vs, P e.1 e.2 := by
  induction entries with
  | nil => exact ⟨[], rfl, rfl, nofun⟩
  | cons e entries ih =>
    obtain ⟨key, d⟩ := e
    rw [List.forall_mem_cons] at h
    obtain ⟨v, hv, hP⟩ := h.1 (ValuePath.append path (.key key))
    obtain ⟨vs, hvs, hk, hPs⟩ := ih h.2
    refine ⟨(key, v) :: vs, by rw [toEntries, hv, hvs]; rfl, ?_, List.forall_mem_cons.2 ⟨hP, hPs⟩⟩
    exact congrArg (key :: ·) hk

theorem hasValue_object {entries : Entries Datum} {P : String → Value → Prop}
    (h : ∀ e ∈ entries, e.2.HasValue (P e.1)) :
    (object entries).HasValue fun v => ∃ vs, v = .record vs ∧
      Entries.keys vs = Entries.keys entries ∧ ∀ e ∈ vs, P e.1 e.2 := by
  intro path
  obtain ⟨vs, hvs, hk, hP⟩ := toEntries_ok h path
  exact ⟨.record vs, by rw [toValue, hvs]; rfl, vs, rfl, hk, hP⟩

end Datum

/-- Every datum that a shape stands for is a member of a type. -/
def Shape.Within (schema : Schema) (shape : Shape) (t : Ty) : Prop :=
  ∀ d, Covers shape d → d.HasValue (t.Member schema)

namespace Match

theorem errors_append_nil {a b : Outcome} :
    (a ++ b).errors = [] ↔ a.errors = [] ∧ b.errors = [] := List.append_eq_nil_iff

theorem joinAll_errors {α : Type} {f : α → Option Outcome} {as : List α} {o : Outcome}
    (h : joinAll f as = some o) (he : o.errors = []) :
    ∀ a ∈ as, ∃ o, f a = some o ∧ o.errors = [] := by
  induction as generalizing o with
  | nil => exact nofun
  | cons a as ih =>
    simp only [joinAll, Option.bind_eq_bind, Option.bind_eq_some_iff] at h
    obtain ⟨first, hf, rest, hr, ho⟩ := h
    cases ho
    obtain ⟨hfirst, hrest⟩ := errors_append_nil.1 he
    exact List.forall_mem_cons.2 ⟨⟨first, hf, hfirst⟩, ih hr hrest⟩

theorem joinItems_errors {f : Nat → Shape → Option Outcome} {i : Nat} {shapes : List Shape}
    {o : Outcome} (h : joinItems f i shapes = some o) (he : o.errors = []) :
    ∀ s ∈ shapes, ∃ j o, f j s = some o ∧ o.errors = [] := by
  induction shapes generalizing i o with
  | nil => exact nofun
  | cons s shapes ih =>
    simp only [joinItems, Option.bind_eq_bind, Option.bind_eq_some_iff] at h
    obtain ⟨first, hf, rest, hr, ho⟩ := h
    cases ho
    obtain ⟨hfirst, hrest⟩ := errors_append_nil.1 he
    exact List.forall_mem_cons.2 ⟨⟨i, first, hf, hfirst⟩, ih hr hrest⟩

theorem matchScalar_sound {label path : String} {kind : ScalarKind}
    (h : (matchScalar label kind shape path).errors = []) :
    shape.Within schema (.scalar kind) := by
  unfold matchScalar at h
  split at h
  · intro d hd
    obtain ⟨x, hx, hk⟩ := Shape.kind?_of_covers hd ‹_›
    exact (Datum.hasValue_of_scalar? hx).imp fun v hv => .scalar hv hk
  · cases h

theorem matchLiteral_sound {label path : String} {values : List Scalar}
    (h : (matchLiteral label values shape path).errors = []) :
    shape.Within schema (.literal values) := by
  unfold matchLiteral at h
  split at h
  · rename_i x hx
    split at h
    · intro d hd
      exact (Datum.hasValue_of_scalar? (Shape.scalar?_of_covers hd hx)).imp
        fun v hv => .literal hv ‹_›
    · cases h
  · split at h <;> cases h

/-- A matching that accepts only shapes within the type. -/
def SoundField (schema : Schema) (inner : Ty → Shape → String → Option Outcome) :
    Prop :=
  ∀ t shape path o, inner t shape path = some o → o.errors = [] → shape.Within schema t

theorem matchRecord_sound {inner : Ty → Shape → String → Option Outcome} {label path : String}
    {declared : TyFields} {siblings : Siblings} {o : Outcome} (name : Option String)
    (hinner : SoundField schema inner)
    (h : matchRecord inner label declared shape path siblings = some o) (he : o.errors = []) :
    shape.Within schema (.record name declared) := by
  unfold matchRecord at h
  split at h
  · rename_i span fields
    simp only [Option.bind_eq_bind, Option.bind_eq_some_iff] at h
    obtain ⟨rest, hr, ho⟩ := h
    cases ho
    obtain ⟨hm, hrest⟩ := errors_append_nil.1 he
    rintro _ ⟨entries, rfl, hkeys, hf⟩
    have hentries : ∀ e ∈ entries, e.2.HasValue fun v => TyFields.declares declared e.1 = true ∧
        ∀ f, TyFields.field? declared e.1 = some f → Ty.Member schema f.2 v := by
      intro e he
      obtain ⟨f, hfm, hk, hd⟩ := Shape.coversField_iff.1 (hf e he)
      obtain ⟨o', ho', he'⟩ := joinAll_errors hr hrest f hfm
      split at ho'
      · rename_i g t hg
        rw [← hk]
        refine (hinner _ _ _ _ ho' he' _ hd).imp fun v hv => ⟨by simp [TyFields.declares, hg], ?_⟩
        rintro f' hf'
        cases hg.symm.trans hf'
        exact hv
      · cases ho'
        cases he'
    refine (Datum.hasValue_object (P := fun key v => TyFields.declares declared key = true ∧
      ∀ f, TyFields.field? declared key = some f → Ty.Member schema f.2 v) hentries).imp ?_
    rintro _ ⟨vs, rfl, hvk, hvs⟩
    refine .record (fun f hfr => ?_) (fun e he => (hvs e he).1) fun e he => (hvs e he).2
    have hmissing := List.map_eq_nil_iff.1 hm
    have hc : Entries.contains fields f.1.name = true := by
      simpa using List.filter_eq_nil_iff.1 hmissing f hfr
    rw [Entries.contains_iff_mem_keys] at hc ⊢
    rwa [hvk, hkeys]
  · cases h
    cases he

theorem matchMap_sound {inner : Ty → Shape → String → Option Outcome} {path : String} {value : Ty}
    {span : Span} {fields : ShapeFields} {o : Outcome} (keyName : String)
    (hinner : SoundField schema inner)
    (h : joinAll (fun (key, _, field) => inner value field (ValuePath.append path (.key key)))
      fields = some o) (he : o.errors = []) :
    (Shape.record span fields).Within schema (.map keyName value) := by
  rintro _ ⟨entries, rfl, -, hf⟩
  have hentries : ∀ e ∈ entries, e.2.HasValue (value.Member schema) := by
    intro e hm
    obtain ⟨f, hfm, -, hd⟩ := Shape.coversField_iff.1 (hf e hm)
    obtain ⟨o', ho', he'⟩ := joinAll_errors h he f hfm
    exact hinner _ _ _ _ ho' he' _ hd
  refine (Datum.hasValue_object (P := fun _ => value.Member schema) hentries).imp ?_
  rintro _ ⟨vs, rfl, -, hvs⟩
  exact .map hvs

theorem mem_closest {fields : ShapeFields} {records : Siblings} {s : String × TyFields}
    (h : closest fields records = some s) : s ∈ records := by
  have hfold (best : String × TyFields) (rest : Siblings) :
      rest.foldl (fun best s => if score fields best.2 < score fields s.2 then s else best) best ∈
        best :: rest := by
    induction rest generalizing best with
    | nil => exact List.mem_cons_self
    | cons r rest ih =>
      rcases List.mem_cons.1 (ih (if score fields best.2 < score fields r.2 then r else best))
        with hb | hb
      · rw [List.foldl_cons, hb]
        split <;> simp
      · rw [List.foldl_cons]
        exact List.mem_cons_of_mem _ (List.mem_cons_of_mem _ hb)
  cases records with
  | nil => cases h
  | cons r rest =>
    cases h
    exact hfold r rest

theorem mem_recordsOf {alternatives : List (String × Ty)} {label : String} {declared : TyFields}
    (h : (label, declared) ∈ recordsOf alternatives) :
    ∃ name, (label, .record name declared) ∈ alternatives := by
  obtain ⟨⟨l, t⟩, hm, ha⟩ := List.mem_filterMap.1 h
  cases t with
  | record name fields => cases ha; exact ⟨name, hm⟩
  | _ => cases ha

theorem firstAccepting_eq_some {inner : String × Ty → Option Outcome}
    {alternatives : List (String × Ty)} {name : String} {o : Outcome}
    (h : firstAccepting inner alternatives = some (some (name, o))) :
    ∃ a ∈ alternatives, inner a = some o ∧ o.errors = [] := by
  induction alternatives with
  | nil => cases h
  | cons a as ih =>
    simp only [firstAccepting, Option.bind_eq_bind, Option.bind_eq_some_iff] at h
    obtain ⟨o', ho', h⟩ := h
    split at h
    · cases h
      exact ⟨a, List.mem_cons_self, ho', List.isEmpty_iff.1 ‹_›⟩
    · obtain ⟨b, hb, h⟩ := ih h
      exact ⟨b, List.mem_cons_of_mem _ hb, h⟩

/-- A matcher that accepts only shapes within the type. -/
def SoundMatcher (schema : Schema) (inner : Matcher) : Prop :=
  ∀ label t shape path siblings o, inner label t shape path siblings = some o →
    o.errors = [] → shape.Within schema t

theorem within_of_alternative {a : String × Ty} (ha : a ∈ schema.flatten t)
    (h : shape.Within schema a.2) : shape.Within schema t :=
  fun d hd => (h d hd).imp fun _ hv => hv.of_alternative ha

theorem matchUnion_sound {inner : Matcher} {field : Ty → Shape → String → Option Outcome}
    {label path : String} {o : Outcome} (hinner : SoundMatcher schema inner)
    (hfield : SoundField schema field)
    (h : matchUnion inner field label (schema.flatten t) shape path = some o)
    (he : o.errors = []) : shape.Within schema t := by
  have hchosen (a : String × Ty) (ha : a ∈ schema.flatten t) (siblings : Siblings) (r : Resolution)
      (h : (do let o ← inner a.1 a.2 shape path siblings; return Outcome.ofResolution r ++ o) =
        some o) : shape.Within schema t := by
    simp only [Option.bind_eq_bind, Option.bind_eq_some_iff] at h
    obtain ⟨o', ho', h⟩ := h
    cases h
    exact within_of_alternative ha (hinner _ _ _ _ _ _ ho' (errors_append_nil.1 he).2)
  unfold matchUnion at h
  split at h
  · rename_i span fields
    dsimp only at h
    split at h
    · rename_i name t' hfind
      exact hchosen (name, t') (List.mem_of_find?_eq_some hfind) _ _ h
    · split at h
      · rename_i name declared hclosest
        obtain ⟨n, hm⟩ := mem_recordsOf (mem_closest hclosest)
        exact within_of_alternative hm (matchRecord_sound n hfield h he)
      · cases h
        cases he
  iterate 2
    split at h
    · rename_i name t' hfind
      exact hchosen (name, t') (List.mem_of_find?_eq_some hfind) _ _ h
    · cases h
      cases he
  iterate 3
    cases h
    cases he
  · simp only [Option.bind_eq_bind, Option.bind_eq_some_iff] at h
    obtain ⟨first, hfirst, h⟩ := h
    split at h
    · obtain ⟨a, ha, ho', he'⟩ := firstAccepting_eq_some hfirst
      exact within_of_alternative ha (hinner _ _ _ _ _ _ ho' he')
    · cases h
      cases he

theorem within_oneOf {span : Span} {branches : List Shape}
    (h : ∀ b ∈ branches, b.Within schema t) :
    (Shape.oneOf span branches).Within schema t := by
  intro d hd
  obtain ⟨b, hb, hd⟩ := Shape.coversSome_iff.1 hd
  exact h b hb d hd

theorem within_sequence {acceptsSingle : Bool} {items : List Shape} {known : Bool}
    (hs : shape.elements? = some (items, known)) (h : ∀ s ∈ items, s.Within schema t) :
    shape.Within schema (.sequence t acceptsSingle) := by
  intro d hd
  obtain ⟨ds, rfl, hds⟩ := Shape.elements?_of_covers hd hs
  have hvalues : ∀ x ∈ ds, x.HasValue (t.Member schema) := by
    intro x hx
    obtain ⟨s, hs, hd⟩ := hds x hx
    exact h s hs x hd
  refine (Datum.hasValue_array hvalues).imp ?_
  rintro _ ⟨vs, rfl, hvs⟩
  exact .sequence hvs

theorem matchWithin_sound (levels : Nat) :
    SoundMatcher schema (matchWithin schema levels) := by
  induction levels with
  | zero => exact nofun
  | succ n ih =>
    intro label t shape path siblings o h he
    have hunfold : SoundField schema fun t shape path =>
        matchWithin schema n t.text (schema.resolve t) shape path [] :=
      fun t shape path o ho he d hd => (ih _ _ _ _ _ _ ho he d hd).imp fun _ hv => hv.of_resolve
    unfold matchWithin at h
    dsimp only at h
    split at h
    · exact fun _ hd => hd.elim
    · refine within_oneOf fun b hb => ?_
      obtain ⟨o', ho', he'⟩ := joinAll_errors h he b hb
      exact ih _ _ _ _ _ _ ho' he'
    · split at h
      · intro d hd
        exact (ih _ _ _ _ _ _ h he d hd).imp fun _ hv => hv.of_resolve
      · cases h
        exact matchScalar_sound he
      · cases h
        exact matchLiteral_sound he
      · exact matchRecord_sound _ hunfold h he
      · split at h
        · exact matchMap_sound _ hunfold h he
        · cases h
          cases he
      · split at h
        · refine within_sequence rfl fun s hs => ?_
          obtain ⟨j, o', ho', he'⟩ := joinItems_errors h he s hs
          exact hunfold _ _ _ _ ho' he'
        · refine within_sequence rfl fun s hs => ?_
          cases List.mem_singleton.1 hs
          exact hunfold _ _ _ _ h he
        · split at h
          · rename_i hsingle
            subst hsingle
            exact fun d hd => (hunfold _ _ _ _ h he d hd).imp fun _ hv => .single hv
          · cases h
            cases he
      · exact matchUnion_sound ih hunfold h he

/-- Every datum of a shape that matches a type is a member of the type. -/
theorem conformWithin_sound {levels : Nat} {path : String} {o : Outcome}
    (h : conformWithin schema levels t shape path = some o) (he : o.errors = []) :
    shape.Within schema t :=
  fun d hd => (matchWithin_sound _ _ _ _ _ _ _ h he d hd).imp fun _ hv => hv.of_resolve

/-- Every datum that is described by a shape that conforms to a type is a member of the type. -/
theorem conform_sound {lax : Prop} {path : String} (h : (conform schema t shape path).errors = [])
    (d : Datum) (hd : Describes lax shape d) : d.HasValue (t.Member schema) := by
  unfold conform at h
  rcases ho : conformWithin schema (levelsFor schema t shape) t shape path with _ | o
  · rw [ho] at h
    cases h
  · rw [ho] at h
    exact conformWithin_sound ho h d (Shape.covers_of_describes shape hd)

/-- Whether a type that is no union may have a value with a field of that name. Names are taken
to allow every field, as nothing is known of them. -/
def allowsKey (key : String) : Ty → Bool
  | .record _ declared => TyFields.declares declared key
  | .map .. | .named _ => true
  | .sequence _ acceptsSingle => acceptsSingle
  | .scalar _ | .literal _ | .union _ => false

variable {span : Span} {fields : ShapeFields} {key label path : String} {o : Outcome}

theorem matchRecord_undeclared {inner : Ty → Shape → String → Option Outcome}
    {declared : TyFields} {siblings : Siblings}
    (h : matchRecord inner label declared (.record span fields) path siblings = some o)
    (hk : key ∈ Entries.keys fields) (hd : TyFields.declares declared key = false) :
    o.errors ≠ [] := by
  intro he
  obtain ⟨f, hf, rfl⟩ := List.mem_map.1 hk
  simp only [matchRecord, Option.bind_eq_bind, Option.bind_eq_some_iff] at h
  obtain ⟨rest, hr, ho⟩ := h
  cases ho
  obtain ⟨o', ho', he'⟩ := joinAll_errors hr (errors_append_nil.1 he).2 f hf
  split at ho'
  · rename_i g t hg
    simp [TyFields.declares, hg] at hd
  · cases ho'
    cases he'

theorem fitsKeys_eq_false (hk : key ∈ Entries.keys fields) (ha : allowsKey key t = false) :
    fitsKeys fields t = false := by
  obtain ⟨f, hf, rfl⟩ := List.mem_map.1 hk
  cases t with
  | record name declared =>
    refine Bool.and_eq_false_imp.2 fun _ => Bool.eq_false_iff.2 fun hall => ?_
    exact absurd (List.all_eq_true.1 hall f hf) (Bool.eq_false_iff.1 ha)
  | map keyName value => cases ha
  | _ => rfl

theorem matchUnion_undeclared {inner : Matcher} {field : Ty → Shape → String → Option Outcome}
    {alternatives : List (String × Ty)}
    (h : matchUnion inner field label alternatives (.record span fields) path = some o)
    (hk : key ∈ Entries.keys fields) (ha : ∀ a ∈ alternatives, allowsKey key a.2 = false) :
    o.errors ≠ [] := by
  have hfind : alternatives.find? (fun a => fitsKeys fields a.2) = none :=
    List.find?_eq_none.2 fun a hm => Bool.eq_false_iff.1 (fitsKeys_eq_false hk (ha a hm))
  simp only [matchUnion, hfind] at h
  split at h
  · rename_i name declared hclosest
    obtain ⟨n, hm⟩ := mem_recordsOf (mem_closest hclosest)
    exact matchRecord_undeclared h hk (ha _ hm)
  · cases h
    exact List.cons_ne_nil _ _

theorem matchWithin_undeclared {levels : Nat} {siblings : Siblings}
    (h : matchWithin schema levels label t (.record span fields) path siblings = some o)
    (hk : key ∈ Entries.keys fields) (hallows : allowsKey key t = false)
    (ha : ∀ ts, t = .union ts → ∀ a ∈ schema.flatten t, allowsKey key a.2 = false) :
    o.errors ≠ [] := by
  cases levels with
  | zero => cases h
  | succ n =>
    cases t with
    | scalar | literal =>
      cases h
      exact List.cons_ne_nil _ _
    | record name declared =>
      simp only [matchWithin] at h
      exact matchRecord_undeclared h hk hallows
    | union ts =>
      simp only [matchWithin] at h
      exact matchUnion_undeclared h hk (ha ts rfl)
    | sequence element acceptsSingle =>
      cases acceptsSingle with
      | true => cases hallows
      | false =>
        cases h
        exact List.cons_ne_nil _ _
    | map | named => cases hallows

/-- A record with a field that no alternative of a type allows does not match the type. -/
theorem conformWithin_undeclared {levels : Nat}
    (h : conformWithin schema levels t (.record span fields) path = some o)
    (hk : key ∈ Entries.keys fields) (ha : ∀ a ∈ schema.flatten t, allowsKey key a.2 = false) :
    o.errors ≠ [] := by
  rw [Schema.flatten, Schema.leaves] at ha
  refine matchWithin_undeclared h hk ?_ fun ts hts => ?_
  · split at ha
    · rename_i ts hts
      rw [hts]
      rfl
    · exact ha _ (List.mem_singleton_self _)
  · rw [hts] at ha ⊢
    exact ha

/-- Where a shape matches a type without errors, every datum that it stands for can stand in a
document and is a member of the type there. Records are closed: a field that no alternative of
the type allows is an error. -/
theorem member_of_matched {levels : Nat} (h : conformWithin schema levels t shape path = some o) :
    (o.errors = [] → ∀ d, Covers shape d → d.HasValue (t.Member schema)) ∧
      ∀ span fields key, shape = .record span fields → key ∈ Entries.keys fields →
        (∀ a ∈ schema.flatten t, allowsKey key a.2 = false) → o.errors ≠ [] :=
  ⟨conformWithin_sound h, fun _ _ _ hs hk ha => conformWithin_undeclared (hs ▸ h) hk ha⟩

/-- A schema that declares a step as a record with a label and, maybe, a map of texts. -/
def stepSchema : Schema where
  types := [⟨"Step", .record "Step"
    [(⟨"label", false, none, default⟩, .scalar .string),
      (⟨"env", true, none, default⟩, .map "name" (.scalar .string))], none, "schema.d.ts", default⟩]
  constants := []
  root := ⟨"steps", .named "Step", "schema.d.ts", default⟩

/-- One or more, each a step or the text `wait`. -/
def stepsType : Ty := .sequence (.union [.named "Step", .literal [.string "wait"]]) true

/-- `[{env: {A: "x" or any text}, label: any text}, "wait"]`, where the second is a constant. -/
def stepsShape : Shape := .tuple default
  [.record default
    [("env", default, .record default
      [("A", default, .oneOf default [.string default (some "x"), .string default none])]),
      ("label", default, .string default none)],
    .sentinel default ⟨"wait", .string "wait"⟩]

/-- `[{label: "a", env: {A: "x"}}, wait]` -/
def stepsDatum : Datum := .array
  [.object [("label", .string "a"), ("env", .object [("A", .string "x")])],
    .sentinel ⟨"wait", .string "wait"⟩]

theorem covers_stepsShape : Covers stepsShape stepsDatum := by
  have hlabel : Covers (.string default none) (.string "a") := ⟨"a", rfl, nofun⟩
  have hvalue : Covers (.oneOf default [.string default (some "x"), .string default none])
      (.string "x") := .inl ⟨"x", rfl, by simp⟩
  have henv : Covers (.record default
      [("A", default, .oneOf default [.string default (some "x"), .string default none])])
      (.object [("A", .string "x")]) :=
    ⟨_, rfl, fun _ => .rfl, List.forall_mem_singleton.2 (.inl ⟨rfl, hvalue⟩)⟩
  refine ⟨_, rfl, _, _, rfl, ⟨_, rfl, ?_, ?_⟩, _, _, rfl, rfl, rfl⟩
  · simp [Entries.keys, or_comm]
  · exact List.forall_mem_cons.2 ⟨.inr (.inl ⟨rfl, hlabel⟩),
      List.forall_mem_singleton.2 (.inl ⟨rfl, henv⟩)⟩

theorem member_of_matched_steps :
    (∃ o, conformWithin stepSchema 6 stepsType stepsShape "steps" = some o ∧ o.errors = [] ∧
      Covers stepsShape stepsDatum ∧ stepsDatum.HasValue (stepsType.Member stepSchema)) ∧
    ∃ o, conformWithin stepSchema 6 (.named "Step")
      (.record default [("colour", default, .string default none)]) "steps" = some o ∧
        o.errors ≠ [] := by
  have hsteps : conformWithin stepSchema 6 stepsType stepsShape "steps" = some _ := rfl
  have hcolour : conformWithin stepSchema 6 (.named "Step")
      (.record default [("colour", default, .string default none)]) "steps" = some _ := rfl
  refine ⟨⟨_, hsteps, rfl, covers_stepsShape,
    (member_of_matched hsteps).1 rfl _ covers_stepsShape⟩, _, hcolour,
    (member_of_matched hcolour).2 _ _ "colour" rfl (List.mem_singleton_self _) ?_⟩
  decide

end Match

end TypedConfig
